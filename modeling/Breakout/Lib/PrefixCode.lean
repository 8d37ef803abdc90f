/-
# Byte encodings that can be read back from the front

`PrefixFree P enc` says that the encodings of the values satisfying `P` are self-delimiting:
from `enc a` followed by anything, both `a` and what follows are determined.  It is the form
of injectivity that survives concatenation, so the encoding of a record is prefix-free as
soon as its fields' are (`PrefixFree.prod`, `PrefixFree.comap`), and so is a vector written
as its length followed by its elements (`prefixFree_vec`).

The bound `P` is not decoration.  A length is written in at most eight bytes, so two vectors
whose lengths agree modulo `2^64` have the same length field; only vectors that fit in memory
are told apart.
-/
import Mathlib.Tactic

namespace Lib

variable {α β γ : Type}

/-- Among values satisfying `P`, the encoding determines the value and what follows it. -/
def PrefixFree (P : α → Prop) (enc : α → List β) : Prop :=
  ∀ ⦃a b : α⦄, P a → P b → ∀ r s, enc a ++ r = enc b ++ s → a = b ∧ r = s

variable {P : α → Prop} {e : α → List β} {enc : α → List UInt8}

theorem PrefixFree.injOn {enc : α → List β} (h : PrefixFree P enc) {a b : α} (ha : P a) (hb : P b)
    (he : enc a = enc b) : a = b :=
  (h ha hb [] [] (by rw [he])).1

/-- Two fields, one after the other. -/
theorem PrefixFree.prod {Q : γ → Prop} {f : γ → List β} (he : PrefixFree P e) (hf :
      PrefixFree Q f) :
    PrefixFree (fun x : α × γ => P x.1 ∧ Q x.2) (fun x => e x.1 ++ f x.2) := by
  rintro ⟨a, c⟩ ⟨b, d⟩ ⟨ha, hc⟩ ⟨hb, hd⟩ r s h
  rw [List.append_assoc, List.append_assoc] at h
  obtain ⟨hab, h'⟩ := he ha hb _ _ h
  obtain ⟨hcd, hrs⟩ := hf hc hd _ _ h'
  exact ⟨Prod.ext hab hcd, hrs⟩

/-- A type that embeds in an encoded one is encoded through the embedding. -/
theorem PrefixFree.comap (he : PrefixFree P e) {f : γ → α} (hf : Function.Injective f) :
    PrefixFree (fun c => P (f c)) (fun c => e (f c)) := by
  intro a b ha hb r s h
  obtain ⟨hab, hrs⟩ := he ha hb r s h
  exact ⟨hf hab, hrs⟩

theorem PrefixFree.mono {Q : α → Prop} (he : PrefixFree P e) (h : ∀ a, Q a → P a) :
    PrefixFree Q e :=
  fun a b ha hb r s heq => he (h a ha) (h b hb) r s heq

/-- An injective encoding of constant length is prefix-free. -/
theorem prefixFree_of_length {k : Nat} (hlen : ∀ a, (e a).length = k)
    (hinj : ∀ ⦃a b⦄, P a → P b → e a = e b → a = b) : PrefixFree P e := by
  intro a b ha hb r s h
  obtain ⟨hab, hrs⟩ := List.append_inj h ((hlen a).trans (hlen b).symm)
  exact ⟨hinj ha hb hab, hrs⟩

/-! ## 1. Little-endian words -/

/-- The `k` low bytes of `n`, the lowest first. -/
def leBytes : Nat → Nat → List UInt8
  | 0, _ => []
  | k + 1, n => UInt8.ofNat n :: leBytes k (n / 256)

@[simp] theorem length_leBytes : ∀ k n : Nat, (leBytes k n).length = k
  | 0, _ => rfl
  | k + 1, n => by simp [leBytes, length_leBytes k]

theorem leBytes_inj : ∀ {k n m : Nat}, n < 256 ^ k → m < 256 ^ k → leBytes k n = leBytes k m →
    n = m
  | 0, n, m, hn, hm, _ => by simp at hn hm; omega
  | k + 1, n, m, hn, hm, h => by
    simp only [leBytes, List.cons.injEq] at h
    have hdiv : n / 256 = m / 256 :=
      leBytes_inj (by rw [pow_succ] at hn; omega) (by rw [pow_succ] at hm; omega) h.2
    have hmod : n % 256 = m % 256 := by
      have := congrArg UInt8.toNat h.1
      simpa [UInt8.toNat_ofNat'] using this
    omega

theorem prefixFree_leBytes (k : Nat) : PrefixFree (· < 256 ^ k) (leBytes k) :=
  prefixFree_of_length (length_leBytes k) fun _ _ hn hm h => leBytes_inj hn hm h

/-! ## 2. Vectors with a length in front -/

/-- A length in one, three, five or nine bytes, the first of which says which. -/
def compactSize (n : Nat) : List UInt8 :=
  if n < 253 then [UInt8.ofNat n]
  else if n ≤ 0xffff then 253 :: leBytes 2 n
  else if n ≤ 0xffffffff then 254 :: leBytes 4 n
  else 255 :: leBytes 8 n

theorem prefixFree_compactSize : PrefixFree (· < 2 ^ 64) compactSize := by
  have hbyte : ∀ n < 253, (UInt8.ofNat n).toNat = n := by
    intro n hn
    simp [UInt8.toNat_ofNat']
    omega
  -- the marker tells the four widths apart, and within one width the bytes tell the value
  have hmark : ∀ n, n < 2 ^ 64 → ∃ b l, compactSize n = b :: l ∧
      ((n < 253 ∧ b.toNat = n ∧ l = []) ∨
        (253 ≤ b.toNat ∧ ∃ k, n < 256 ^ k ∧ l = leBytes k n ∧
          (b.toNat = 253 ∧ k = 2 ∨ b.toNat = 254 ∧ k = 4 ∨ b.toNat = 255 ∧ k = 8))) := by
    intro n hn
    unfold compactSize
    split_ifs with h1 h2 h3
    · exact ⟨_, _, rfl, Or.inl ⟨h1, hbyte n h1, rfl⟩⟩
    · exact ⟨_, _, rfl, Or.inr ⟨by decide, 2, by norm_num; omega, rfl, by decide⟩⟩
    · exact ⟨_, _, rfl, Or.inr ⟨by decide, 4, by norm_num; omega, rfl, by decide⟩⟩
    · exact ⟨_, _, rfl, Or.inr ⟨by decide, 8, by norm_num; omega, rfl, by decide⟩⟩
  intro n m hn hm r s h
  obtain ⟨b, l, hb, hbn⟩ := hmark n hn
  obtain ⟨b', l', hb', hbm⟩ := hmark m hm
  rw [hb, hb', List.cons_append, List.cons_append, List.cons.injEq] at h
  obtain ⟨rfl, h⟩ := h
  rcases hbn with ⟨hn1, hn2, rfl⟩ | ⟨hge, k, hk, rfl, hk'⟩
  · rcases hbm with ⟨hm1, hm2, rfl⟩ | ⟨hge', -⟩
    · exact ⟨by omega, by simpa using h⟩
    · omega
  · rcases hbm with ⟨hm1, hm2, rfl⟩ | ⟨-, j, hj, rfl, hj'⟩
    · omega
    · obtain rfl : k = j := by omega
      exact prefixFree_leBytes k hk hj r s h

/-- A vector: its length, then its elements. -/
def encVec (enc : α → List UInt8) (l : List α) : List UInt8 :=
  compactSize l.length ++ l.flatMap enc

theorem prefixFree_flatMap (h : PrefixFree P enc) :
    ∀ {l l' : List α}, l.length = l'.length → (∀ a ∈ l, P a) → (∀ a ∈ l', P a) →
      ∀ r s, l.flatMap enc ++ r = l'.flatMap enc ++ s → l = l' ∧ r = s
  | [], [], _, _, _, r, s, heq => ⟨rfl, by simpa using heq⟩
  | [], _ :: _, hlen, _, _, _, _, _ => by simp at hlen
  | _ :: _, [], hlen, _, _, _, _, _ => by simp at hlen
  | a :: l, b :: l', hlen, hl, hl', r, s, heq => by
    simp only [List.flatMap_cons, List.append_assoc] at heq
    obtain ⟨hab, heq'⟩ := h (hl a (by simp)) (hl' b (by simp)) _ _ heq
    obtain ⟨hll, hrs⟩ := prefixFree_flatMap h (by simpa using hlen)
      (fun x hx => hl x (by simp [hx])) (fun x hx => hl' x (by simp [hx])) r s heq'
    exact ⟨by rw [hab, hll], hrs⟩

theorem prefixFree_vec (h : PrefixFree P enc) :
    PrefixFree (fun l => l.length < 2 ^ 64 ∧ ∀ a ∈ l, P a) (encVec enc) := by
  rintro l l' ⟨hlen, hl⟩ ⟨hlen', hl'⟩ r s heq
  rw [encVec, encVec, List.append_assoc, List.append_assoc] at heq
  obtain ⟨hll, heq'⟩ := prefixFree_compactSize hlen hlen' _ _ heq
  exact prefixFree_flatMap h hll hl hl' r s heq'

/-- Elements of at least one byte each bound the length of a vector by its encoding. -/
theorem length_le_encVec {e : α → List UInt8} (h : ∀ a, 1 ≤ (e a).length) (l : List α) :
    l.length ≤ (encVec e l).length := by
  have hflat : l.length ≤ (l.flatMap e).length := by
    induction l with
    | nil => simp
    | cons a l ih =>
      have := h a
      simp only [List.length_cons, List.flatMap_cons, List.length_append]
      omega
  rw [encVec, List.length_append]
  omega

theorem length_le_encVec_of_mem {e : α → List UInt8} {l : List α} {a : α} (ha : a ∈ l) :
    (e a).length ≤ (encVec e l).length := by
  obtain ⟨l₁, l₂, rfl⟩ := List.append_of_mem ha
  simp only [encVec, List.flatMap_append, List.flatMap_cons, List.length_append]
  omega

end Lib
