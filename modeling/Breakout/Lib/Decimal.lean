/-
# Decimal texts

The value of digits is the standard library's `Nat.ofDigitChars`.  Added are the value of digits on
both sides of a point, what scaling by a power of ten makes of it (`decimal_mul_pow`), and that the
digits in front of a text are determined by the text (`digits_append_inj`).
-/
import Mathlib.Tactic

namespace Lib

/-- Nothing but decimal digits. -/
def AllDigits (s : List Char) : Prop := ∀ c ∈ s, c.isDigit = true

instance (s : List Char) : Decidable (AllDigits s) :=
  decidable_of_iff (s.all Char.isDigit = true) List.all_eq_true

/-- The text does not begin with a digit. -/
def NoDigit (s : List Char) : Prop := ∀ c, s.head? = some c → c.isDigit = false

/-- The value of the digits `W` with the digits `F` behind the point. -/
def decimal (W F : List Char) : ℚ :=
  (Nat.ofDigitChars 10 W 0 : ℚ) + (Nat.ofDigitChars 10 F 0 : ℚ) / 10 ^ F.length

variable {W F : List Char}

theorem AllDigits.append (hW : AllDigits W) (hF : AllDigits F) : AllDigits (W ++ F) := by
  intro c hc
  rcases List.mem_append.mp hc with hc | hc
  · exact hW c hc
  · exact hF c hc

theorem AllDigits.sublist (hW : AllDigits W) (h : F.Sublist W) : AllDigits F :=
  fun c hc => hW c (h.subset hc)

theorem allDigits_toDigits (n : Nat) : AllDigits (Nat.toDigits 10 n) :=
  fun _ hc => Nat.isDigit_of_mem_toDigits (by decide) (by decide) hc

theorem allDigits_replicate (n : Nat) : AllDigits (List.replicate n '0') := by
  intro c hc
  rw [List.eq_of_mem_replicate hc]
  rfl

theorem toNat_of_isDigit {c : Char} (h : c.isDigit = true) : 48 ≤ c.toNat ∧ c.toNat ≤ 57 := by
  rw [Char.isDigit, Bool.and_eq_true, decide_eq_true_eq, decide_eq_true_eq] at h
  exact h

/-- A digit in front counts as many times as there are digits behind it allow. -/
theorem ofDigitChars_cons_eq (c : Char) (s : List Char) :
    Nat.ofDigitChars 10 (c :: s) 0 =
      10 ^ s.length * (c.toNat - 48) + Nat.ofDigitChars 10 s 0 := by
  have hzero : '0'.toNat = 48 := by decide
  rw [Nat.ofDigitChars_cons, Nat.ofDigitChars_eq_ofDigitChars_zero, hzero, Nat.mul_zero, Nat.zero_add]

theorem ofDigitChars_lt (h : AllDigits W) : Nat.ofDigitChars 10 W 0 < 10 ^ W.length := by
  induction W with
  | nil => simp
  | cons c s ih =>
    have hs := ih fun d hd => h d (List.mem_cons_of_mem _ hd)
    have hc := toNat_of_isDigit (h c List.mem_cons_self)
    have hd : c.toNat - 48 ≤ 9 := by omega
    have hmul := Nat.mul_le_mul_left (10 ^ s.length) hd
    rw [ofDigitChars_cons_eq, List.length_cons, pow_succ]
    omega

/-- **Scaled so far that no digit is left behind the point**, the value is a whole number. -/
theorem decimal_mul_pow {k : Nat} (h : F.length ≤ k) :
    decimal W F * 10 ^ k =
      (Nat.ofDigitChars 10 W 0 * 10 ^ k + Nat.ofDigitChars 10 F 0 * 10 ^ (k - F.length) : ℕ) := by
  obtain ⟨d, rfl⟩ := Nat.exists_eq_add_of_le h
  have hpow : (10 : ℚ) ^ F.length ≠ 0 := by positivity
  rw [decimal, Nat.add_sub_cancel_left]
  push_cast
  rw [pow_add]
  field_simp

/-- The digits in front of a text are determined by it. -/
theorem digits_append_inj {W' r r' : List Char} (hW : AllDigits W) (hW' : AllDigits W')
    (hr : NoDigit r) (hr' : NoDigit r') (h : W ++ r = W' ++ r') : W = W' ∧ r = r' := by
  have htake : ∀ {V s : List Char}, AllDigits V → NoDigit s →
      (V ++ s).takeWhile Char.isDigit = V := by
    intro V s hV hs
    rw [List.takeWhile_append_of_pos hV]
    cases s with
    | nil => rw [List.takeWhile_nil, List.append_nil]
    | cons c s =>
      rw [List.takeWhile_cons_of_neg (by rw [hs c rfl]; decide), List.append_nil]
  have heq : W = W' := by
    have htaken := congrArg (List.takeWhile Char.isDigit) h
    rwa [htake hW hr, htake hW' hr'] at htaken
  subst heq
  exact ⟨rfl, List.append_cancel_left h⟩

/-- Digits that are no more than others in front of the same text, and that are not followed by a
digit, are these. -/
theorem digits_append_inj_of_length {W' r r' : List Char} (hW' : AllDigits W') (hr : NoDigit r)
    (hlen : W.length ≤ W'.length) (h : W' ++ r' = W ++ r) : W' = W ∧ r' = r := by
  rcases List.append_eq_append_iff.mp h with ⟨t, rfl, rfl⟩ | ⟨t, rfl, rfl⟩
  · have ht : t = [] := by
      rw [List.length_append] at hlen
      exact List.length_eq_zero_iff.mp (by omega)
    rw [ht, List.append_nil, List.nil_append]
    exact ⟨rfl, rfl⟩
  · cases t with
    | nil => exact ⟨List.append_nil _, rfl⟩
    | cons c t =>
      have hdigit := hW' c (List.mem_append_right _ List.mem_cons_self)
      rw [hr c rfl] at hdigit
      cases hdigit

end Lib
