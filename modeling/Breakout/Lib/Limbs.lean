/-
# Numbers in several words

A number is kept in words, the lowest first, and is worth what `Nat.ofDigits` says.  A bit of the
number is a bit of one of the words (`testBit_ofDigits`).  Of two numbers, the highest words that
differ say which is smaller (`ofDigits_concat_lt`).

The long division of such numbers takes the shifted divisor away wherever it fits, from the highest
shift down (`divideRounds_eq`).
-/
import Mathlib.Data.Nat.Size
import Mathlib.Tactic

namespace Lib

/-! ## 1. Bits -/

/-- The bits of a number are those of its words. -/
theorem testBit_ofDigits {w r : Nat} (hr : r < w) : ∀ {ds : List Nat}, (∀ d ∈ ds, d < 2 ^ w) →
    ∀ j, (Nat.ofDigits (2 ^ w) ds).testBit (w * j + r) = (ds.getD j 0).testBit r
  | [], _, j => by simp
  | d :: ds, h, j => by
    have hd : d < 2 ^ w := h d List.mem_cons_self
    have ih := testBit_ofDigits hr fun x hx => h x (List.mem_cons_of_mem d hx)
    rw [Nat.ofDigits_cons, add_comm, Nat.testBit_two_pow_mul_add _ hd]
    cases j with
    | zero => rw [Nat.mul_zero, Nat.zero_add, if_pos hr, List.getD_cons_zero]
    | succ j =>
      have hsub : w * (j + 1) + r - w = w * j + r := by
        rw [Nat.mul_succ]
        omega
      have hge : ¬ w * (j + 1) + r < w := by
        rw [Nat.mul_succ]
        omega
      rw [if_neg hge, hsub, ih, List.getD_cons_succ]

/-- The size of a number is that of its highest word, and of the room below it. -/
theorem size_add_two_pow_mul {low d k : Nat} (hlow : low < 2 ^ k) (hd : 0 < d) :
    Nat.size (low + 2 ^ k * d) = k + Nat.size d := by
  apply le_antisymm
  · rw [Nat.size_le]
    have hlt : d + 1 ≤ 2 ^ Nat.size d := Nat.lt_size_self d
    calc low + 2 ^ k * d < 2 ^ k * (d + 1) := by
          rw [Nat.mul_succ]
          omega
      _ ≤ 2 ^ k * 2 ^ Nat.size d := Nat.mul_le_mul_left _ hlt
      _ = 2 ^ (k + Nat.size d) := (pow_add 2 k _).symm
  · obtain ⟨s, hs⟩ := Nat.exists_eq_succ_of_ne_zero (Nat.size_pos.mpr hd).ne'
    have hle : 2 ^ s ≤ d := Nat.lt_size.mp (by omega)
    rw [hs, Nat.add_succ, Nat.succ_le_iff, Nat.lt_size]
    calc 2 ^ (k + s) = 2 ^ k * 2 ^ s := pow_add 2 k s
      _ ≤ 2 ^ k * d := Nat.mul_le_mul_left _ hle
      _ ≤ low + 2 ^ k * d := Nat.le_add_left _ _

/-! ## 2. Order -/

/-- **The word looked at first decides**, unless it is the same. -/
theorem ofDigits_concat_lt {b x y : Nat} (hb : 1 < b) {xs ys : List Nat} (hxs : ∀ d ∈ xs, d < b)
    (hys : ∀ d ∈ ys, d < b) (hlen : xs.length = ys.length) :
    Nat.ofDigits b (xs ++ [x]) < Nat.ofDigits b (ys ++ [y]) ↔
      x < y ∨ x = y ∧ Nat.ofDigits b xs < Nat.ofDigits b ys := by
  have hx := Nat.ofDigits_lt_base_pow_length hb hxs
  have hy := Nat.ofDigits_lt_base_pow_length hb hys
  rw [Nat.ofDigits_append, Nat.ofDigits_append, Nat.ofDigits_singleton, Nat.ofDigits_singleton,
    hlen]
  rw [hlen] at hx
  rcases lt_trichotomy x y with hxy | rfl | hxy
  · have hmul := Nat.mul_le_mul_left (b ^ ys.length) (Nat.succ_le_of_lt hxy)
    rw [Nat.mul_succ] at hmul
    exact iff_of_true (by omega) (Or.inl hxy)
  · simp only [lt_irrefl, true_and, false_or]
    omega
  · have hmul := Nat.mul_le_mul_left (b ^ ys.length) (Nat.succ_le_of_lt hxy)
    rw [Nat.mul_succ] at hmul
    refine iff_of_false (by omega) ?_
    rintro (h | ⟨h, -⟩) <;> omega

/-! ## 3. Long division -/

/-- Take the shifted divisor from what is left, if it fits. -/
def divideRound (d s : Nat) : Nat × Nat → Nat × Nat
  | (num, q) => if d * 2 ^ s ≤ num then (num - d * 2 ^ s, q + 2 ^ s) else (num, q)

/-- The rounds from shift `s - 1` down to zero. -/
def divideRounds (d : Nat) : Nat → Nat × Nat → Nat × Nat
  | 0, p => p
  | s + 1, p => divideRounds d s (divideRound d s p)

/-- **What is taken away, and what is left.** -/
theorem divideRounds_eq {d : Nat} : ∀ {s num : Nat} (q : Nat), num < d * 2 ^ s →
    divideRounds d s (num, q) = (num % d, q + num / d)
  | 0, num, q, h => by
    rw [pow_zero, Nat.mul_one] at h
    rw [divideRounds, Nat.mod_eq_of_lt h, Nat.div_eq_of_lt h, Nat.add_zero]
  | s + 1, num, q, h => by
    have hd : 0 < d := Nat.pos_of_ne_zero fun hd => by simp [hd] at h
    rw [divideRounds, divideRound]
    split_ifs with hfits
    · obtain ⟨rest, rfl⟩ := Nat.exists_eq_add_of_le hfits
      have hrest : rest < d * 2 ^ s := by
        rw [pow_succ, ← Nat.mul_assoc] at h
        omega
      rw [Nat.add_sub_cancel_left, divideRounds_eq _ hrest, Nat.mul_add_mod,
        Nat.mul_add_div hd, Nat.add_assoc]
    · exact divideRounds_eq q (not_le.mp hfits)

end Lib
