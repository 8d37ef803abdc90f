/-
# Digits of one width written as digits of another

A machine reads digits of `a` bits and writes digits of `b` bits.  It keeps what it has read and not
yet written, which is fewer than `b` bits or not much more, and a mode that says how many they are.
`Repacker` is what one step has to do, a finite check; `Repacker.run` is what a run does then: the
digits read are worth what the digits written are, and what is kept (`Repacks`).

At its end an encoder fills its last digit up with zeros, and `Padded` is what it has written then.
There is one way to do this (`Padded.unique`), and who reads it back has the same number of zeros
left (`Padded.repacks`).  A round trip, either way, is one of the two.
-/
import Mathlib.Data.Nat.Digits.Lemmas
import Mathlib.Tactic

namespace Lib

variable {a b n m p v w : Nat} {ds es fs : List Nat}

/-! ## 1. Values -/

/-- What digits of `a` bits are worth, the highest first. -/
def digitsValue (a : Nat) (ds : List Nat) : Nat := Nat.ofDigits (2 ^ a) ds.reverse

theorem digitsValue_append (ds es : List Nat) :
    digitsValue a (ds ++ es) = digitsValue a ds * 2 ^ (a * es.length) + digitsValue a es := by
  rw [digitsValue, List.reverse_append, Nat.ofDigits_append, List.length_reverse, ← pow_mul]
  exact (Nat.add_comm _ _).trans (by rw [Nat.mul_comm]; rfl)

theorem digitsValue_singleton (d : Nat) : digitsValue a [d] = d := by
  rw [digitsValue, List.reverse_singleton, Nat.ofDigits_singleton]

theorem digitsValue_nil : digitsValue a [] = 0 := rfl

theorem digitsValue_pair (d e : Nat) : digitsValue a [d, e] = d * 2 ^ a + e := by
  have h := digitsValue_append (a := a) [d] [e]
  rwa [digitsValue_singleton, digitsValue_singleton, List.length_singleton, Nat.mul_one] at h

/-- What is or-ed into the room a shift has made is added. -/
theorem mul_two_pow_or (x k : Nat) {y : Nat} (hy : y < 2 ^ k) :
    x * 2 ^ k ||| y = x * 2 ^ k + y := by
  rw [← Nat.shiftLeft_eq, Nat.shiftLeft_add_eq_or_of_lt hy]

/-- Digits that are as many and worth the same are the same. -/
theorem digitsValue_inj (ha : 0 < a) (hds : ∀ d ∈ ds, d < 2 ^ a) (hes : ∀ d ∈ es, d < 2 ^ a)
    (hlen : ds.length = es.length) (h : digitsValue a ds = digitsValue a es) : ds = es := by
  refine List.reverse_injective (Nat.ofDigits_inj_of_len_eq (Nat.one_lt_two_pow ha.ne') ?_ ?_ ?_ h)
  · rw [List.length_reverse, List.length_reverse, hlen]
  · exact fun d hd => hds d (List.mem_reverse.mp hd)
  · exact fun d hd => hes d (List.mem_reverse.mp hd)

/-! ## 2. What has been read and what has been written -/

/-- The digits `ds`, of `a` bits, are written as `es`, of `b` bits, up to the last `n` bits, which
are worth `v`. -/
structure Repacks (a b : Nat) (ds es : List Nat) (n v : Nat) : Prop where
  small : ∀ e ∈ es, e < 2 ^ b
  value : digitsValue a ds = digitsValue b es * 2 ^ n + v
  bits : a * ds.length = b * es.length + n
  rest : v < 2 ^ n

/-- The digits `ds`, of `a` bits, are written as `es`, of `b` bits, and `p` zeros. -/
structure Padded (a b : Nat) (ds es : List Nat) (p : Nat) : Prop where
  small : ∀ e ∈ es, e < 2 ^ b
  value : digitsValue b es = digitsValue a ds * 2 ^ p
  bits : b * es.length = a * ds.length + p

theorem Repacks.nil (a b : Nat) : Repacks a b [] [] 0 0 where
  small := by simp
  value := by simp [digitsValue]
  bits := rfl
  rest := Nat.one_pos

/-- One more digit is read, and some are written. -/
theorem Repacks.push {d : Nat} {outs : List Nat} (h : Repacks a b ds es n v)
    (hsmall : ∀ e ∈ outs, e < 2 ^ b) (hbits : n + a = b * outs.length + m)
    (hvalue : v * 2 ^ a + d = digitsValue b outs * 2 ^ m + w) (hrest : w < 2 ^ m) :
    Repacks a b (ds ++ [d]) (es ++ outs) m w where
  small := List.forall_mem_append.mpr ⟨h.small, hsmall⟩
  value := by
    have hpow : 2 ^ n * 2 ^ a = 2 ^ (b * outs.length) * 2 ^ m := by
      rw [← pow_add, ← pow_add, hbits]
    calc digitsValue a (ds ++ [d])
        = (digitsValue b es * 2 ^ n + v) * 2 ^ a + d := by
          rw [digitsValue_append, digitsValue_singleton, List.length_singleton, Nat.mul_one,
            h.value]
      _ = digitsValue b es * (2 ^ n * 2 ^ a) + (v * 2 ^ a + d) := by ring
      _ = digitsValue b (es ++ outs) * 2 ^ m + w := by
          rw [hpow, hvalue, digitsValue_append]
          ring
  bits := by
    have hread := h.bits
    rw [List.length_append, List.length_append, List.length_singleton, Nat.mul_add, Nat.mul_add]
    omega
  rest := hrest

/-- The bits that are left are the high ones of one more digit. -/
theorem Repacks.pad (h : Repacks a b ds es n v) (hn : n ≤ b) :
    Padded a b ds (es ++ [v * 2 ^ (b - n)]) (b - n) where
  small := by
    refine List.forall_mem_append.mpr ⟨h.small, List.forall_mem_singleton.mpr ?_⟩
    calc v * 2 ^ (b - n) < 2 ^ n * 2 ^ (b - n) :=
          Nat.mul_lt_mul_of_pos_right h.rest (Nat.two_pow_pos _)
      _ = 2 ^ b := by rw [← pow_add, Nat.add_sub_of_le hn]
  value := by
    have hpow : 2 ^ b = 2 ^ n * 2 ^ (b - n) := by rw [← pow_add, Nat.add_sub_of_le hn]
    rw [digitsValue_append, digitsValue_singleton, List.length_singleton, Nat.mul_one, h.value,
      hpow]
    ring
  bits := by
    have hread := h.bits
    rw [List.length_append, List.length_singleton, Nat.mul_add]
    omega

theorem Repacks.padded_zero (h : Repacks a b ds es 0 v) : Padded a b ds es 0 where
  small := h.small
  value := by
    have hv := h.rest
    have hvalue := h.value
    rw [pow_zero, Nat.mul_one] at *
    omega
  bits := h.bits.symm

/-- Read the other way, the zeros that were left are the zeros that were filled in. -/
theorem Repacks.padded_swap (h : Repacks b a es ds p 0) (hes : ∀ e ∈ es, e < 2 ^ b) :
    Padded a b ds es p where
  small := hes
  value := h.value
  bits := h.bits

/-- **There is one way to fill up the last digit**, if less than a digit is filled up. -/
theorem Padded.unique (hb : 0 < b) (h : Padded a b ds es p) (h' : Padded a b ds fs m) (hp : p < b)
    (hm : m < b) : es = fs ∧ p = m := by
  have hbits := h.bits
  have hbits' := h'.bits
  have hpm : p = m := by
    have hmod : (a * ds.length + p) % b = (a * ds.length + m) % b := by
      rw [← hbits, ← hbits', Nat.mul_mod_right, Nat.mul_mod_right]
    have hrest : p % b = m % b := Nat.ModEq.add_left_cancel' (a * ds.length) hmod
    rwa [Nat.mod_eq_of_lt hp, Nat.mod_eq_of_lt hm] at hrest
  subst hpm
  have hlen : es.length = fs.length := Nat.eq_of_mul_eq_mul_left hb (hbits.trans hbits'.symm)
  exact ⟨digitsValue_inj hb h.small h'.small hlen (h.value.trans h'.value.symm), rfl⟩

/-- **Reading it back**, one has the digits again, and the zeros. -/
theorem Padded.repacks (ha : 0 < a) (hds : ∀ d ∈ ds, d < 2 ^ a) (h : Padded a b ds es p)
    (h' : Repacks b a es fs m w) (hp : p < a) (hm : m < a) : fs = ds ∧ m = p ∧ w = 0 := by
  have hbits : a * fs.length + m = a * ds.length + p := h'.bits.symm.trans h.bits
  have hmp : m = p := by
    have := congrArg (· % a) hbits
    simpa only [Nat.mul_add_mod, Nat.mod_eq_of_lt hm, Nat.mod_eq_of_lt hp] using this
  subst hmp
  have hlen : fs.length = ds.length := Nat.eq_of_mul_eq_mul_left ha (Nat.add_right_cancel hbits)
  have hvalue : digitsValue a fs * 2 ^ m + w = digitsValue a ds * 2 ^ m :=
    h'.value.symm.trans h.value
  have hw : w = 0 := by
    have := congrArg (· % 2 ^ m) hvalue
    simpa only [Nat.mul_comm _ (2 ^ m), Nat.mul_add_mod, Nat.mod_eq_of_lt h'.rest,
      Nat.mul_mod_right] using this
  subst hw
  have hsame := Nat.eq_of_mul_eq_mul_right (Nat.two_pow_pos m) hvalue
  exact ⟨digitsValue_inj ha h'.small hds hlen hsame, rfl, rfl⟩

/-! ## 3. Machines -/

/-- A step of a machine: of its mode, what it has left and a digit, the digits it writes, its next
mode, and what it has left then. -/
abbrev RepackStep := Nat → Nat → Nat → List Nat × Nat × Nat

/-- The digits a machine writes while it reads others, its last mode, and what it has left. -/
def runSteps (step : RepackStep) (mode left : Nat) : List Nat → List Nat × Nat × Nat
  | [] => ([], mode, left)
  | d :: ds =>
    let r := step mode left d
    let t := runSteps step r.2.1 r.2.2 ds
    (r.1 ++ t.1, t.2)

/-- In mode `mode` the machine has `bits mode` bits left, and has them as `hold mode` of their
value; in mode 0 there are none, and no step looks at what is kept. -/
structure Repacker (a b modes : Nat) (step : RepackStep) (bits : Nat → Nat)
    (hold : Nat → Nat → Nat) : Prop where
  modes_pos : 0 < modes
  bits_zero : bits 0 = 0
  stale : ∀ left d, step 0 left d = step 0 (hold 0 0) d
  step : ∀ mode < modes, ∀ v < 2 ^ bits mode, ∀ d < 2 ^ a,
    let r := step mode (hold mode v) d
    let n := bits r.2.1
    r.2.1 < modes ∧ (∀ e ∈ r.1, e < 2 ^ b) ∧ bits mode + a = b * r.1.length + n ∧
      (v * 2 ^ a + d) / 2 ^ n = digitsValue b r.1 ∧
      (r.2.1 ≠ 0 → r.2.2 = hold r.2.1 ((v * 2 ^ a + d) % 2 ^ n))

/-- The machine holds `v`. -/
def Holds (modes : Nat) (hold : Nat → Nat → Nat) (mode left v : Nat) : Prop :=
  mode < modes ∧ (mode ≠ 0 → left = hold mode v)

variable {modes mode left : Nat} {step : RepackStep} {bits : Nat → Nat} {hold : Nat → Nat → Nat}

/-- What one step keeps. -/
theorem Repacker.push {d : Nat} (K : Repacker a b modes step bits hold) (hd : d < 2 ^ a)
    (h : Repacks a b ds es (bits mode) v) (hv : Holds modes hold mode left v) :
    ∃ w, Repacks a b (ds ++ [d]) (es ++ (step mode left d).1) (bits (step mode left d).2.1) w ∧
      Holds modes hold (step mode left d).2.1 (step mode left d).2.2 w := by
  have hstep : step mode left d = step mode (hold mode v) d := by
    by_cases hmode : mode = 0
    · subst hmode
      have hzero : v = 0 := by
        have hrest := h.rest
        rw [K.bits_zero] at hrest
        exact Nat.lt_one_iff.mp hrest
      rw [hzero, K.stale]
    · rw [hv.2 hmode]
  obtain ⟨hlt, hsmall, hbits, hvalue, hleft⟩ := K.step mode hv.1 v h.rest d hd
  rw [hstep]
  refine ⟨_, h.push hsmall hbits ?_ (Nat.mod_lt _ (Nat.two_pow_pos _)), hlt, hleft⟩
  rw [← hvalue]
  exact (Nat.div_add_mod' _ _).symm

/-- **What a run keeps.** -/
theorem Repacker.runFrom (K : Repacker a b modes step bits hold) :
    ∀ {fs ds es : List Nat} {mode left v : Nat}, (∀ d ∈ fs, d < 2 ^ a) →
      Repacks a b ds es (bits mode) v → Holds modes hold mode left v →
      ∃ w, Repacks a b (ds ++ fs) (es ++ (runSteps step mode left fs).1)
          (bits (runSteps step mode left fs).2.1) w ∧
        Holds modes hold (runSteps step mode left fs).2.1 (runSteps step mode left fs).2.2 w
  | [], ds, es, mode, left, v, _, h, hv => by
    rw [runSteps, List.append_nil, List.append_nil]
    exact ⟨v, h, hv⟩
  | d :: fs, ds, es, mode, left, v, hfs, h, hv => by
    obtain ⟨w, hw, hholds⟩ := K.push (hfs d List.mem_cons_self) h hv
    have ih := K.runFrom (fun x hx => hfs x (List.mem_cons_of_mem d hx)) hw hholds
    rwa [List.append_assoc, List.append_assoc, List.singleton_append] at ih

/-- A whole run, from the start. -/
theorem Repacker.run (K : Repacker a b modes step bits hold) (hds : ∀ d ∈ ds, d < 2 ^ a)
    (left : Nat) :
    ∃ v, Repacks a b ds (runSteps step 0 left ds).1 (bits (runSteps step 0 left ds).2.1) v ∧
      Holds modes hold (runSteps step 0 left ds).2.1 (runSteps step 0 left ds).2.2 v := by
  have h : Repacks a b [] [] (bits 0) 0 := by
    rw [K.bits_zero]
    exact Repacks.nil a b
  exact K.runFrom hds h ⟨K.modes_pos, fun h0 => absurd rfl h0⟩

end Lib
