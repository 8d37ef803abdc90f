/-
# Rounding down to a short mantissa

A format that keeps the leading digits of a number keeps the greatest number it can write that is not
above.  Said so (`RoundsTo`), rounding is monotone and keeps what it can write, whatever the format is;
`roundsTo_short` is the one fact about digits.
-/
import Mathlib.Tactic

namespace Lib

/-! ## 1. Rounding down into a set -/

section

variable {α : Type} [PartialOrder α] {R : Set α} {x y r s : α}

/-- `r` is the greatest element of `R` that is not above `x`. -/
def RoundsTo (R : Set α) (x r : α) : Prop := IsGreatest {s | s ∈ R ∧ s ≤ x} r

theorem RoundsTo.mem (h : RoundsTo R x r) : r ∈ R := h.1.1

theorem RoundsTo.le (h : RoundsTo R x r) : r ≤ x := h.1.2

/-- What can be written below the number is not above what it is rounded to. -/
theorem RoundsTo.le_of_mem (h : RoundsTo R x r) (hs : s ∈ R) (hsx : s ≤ x) : s ≤ r := h.2 ⟨hs, hsx⟩

theorem RoundsTo.mono (hx : RoundsTo R x r) (hy : RoundsTo R y s) (hxy : x ≤ y) : r ≤ s :=
  hy.le_of_mem hx.mem (hx.le.trans hxy)

/-- Everything between a number and what it is rounded to is rounded to the same. -/
theorem RoundsTo.between (hy : RoundsTo R y r) (hx : RoundsTo R x s) (hrx : r ≤ x) (hxy : x ≤ y) :
    s = r :=
  le_antisymm (hx.mono hy hxy) (hx.le_of_mem hy.mem hrx)

/-- Rounding is the same where the order is. -/
theorem RoundsTo.image {β : Type} [PartialOrder β] {f : α → β} (hf : ∀ a b, f a ≤ f b ↔ a ≤ b)
    (h : RoundsTo R x r) : RoundsTo (f '' R) (f x) (f r) := by
  refine ⟨⟨⟨r, h.mem, rfl⟩, (hf r x).mpr h.le⟩, ?_⟩
  rintro _ ⟨⟨s, hs, rfl⟩, hle⟩
  exact (hf s r).mpr (h.le_of_mem hs ((hf s x).mp hle))

end

/-! ## 2. Short mantissas -/

/-- The numbers with a mantissa below `M`, in base `b`. -/
def short (b M : Nat) : Set Nat := {r | ∃ a e, a < M ∧ r = a * b ^ e}

variable {b M e x : Nat}

/-- **Leaving out the last digits rounds down**, when what is left is a mantissa and no digit more
could be kept. -/
theorem roundsTo_short (hM : x / b ^ e < M) (hfull : e = 0 ∨ M ≤ b * (x / b ^ e)) :
    RoundsTo (short b M) x (x / b ^ e * b ^ e) := by
  refine ⟨⟨⟨x / b ^ e, e, hM, rfl⟩, Nat.div_mul_le_self x (b ^ e)⟩, ?_⟩
  rintro r ⟨⟨a, f, ha, rfl⟩, hle⟩
  rcases Nat.lt_or_ge f e with hf | hf
  · have hfull : M ≤ b * (x / b ^ e) := hfull.resolve_left (by omega)
    calc a * b ^ f ≤ M * b ^ f := Nat.mul_le_mul_right _ ha.le
      _ ≤ b * (x / b ^ e) * b ^ f := Nat.mul_le_mul_right _ hfull
      _ = x / b ^ e * b ^ (f + 1) := by ring
      _ ≤ x / b ^ e * b ^ e := by
        rcases Nat.eq_zero_or_pos b with rfl | hb
        · rw [Nat.zero_pow (by omega : 0 < e), Nat.zero_pow (by omega : 0 < f + 1)]
        · exact Nat.mul_le_mul_left _ (Nat.pow_le_pow_right hb hf)
  · -- the digits left out are zero in `r`
    obtain ⟨d, rfl⟩ := Nat.exists_eq_add_of_le hf
    rcases Nat.eq_zero_or_pos (b ^ e) with hzero | hpos
    · rw [pow_add, hzero, zero_mul, mul_zero, mul_zero]
    · have hdiv : a * b ^ d ≤ x / b ^ e := by
        rw [Nat.le_div_iff_mul_le hpos]
        calc a * b ^ d * b ^ e = a * b ^ (e + d) := by ring
          _ ≤ x := hle
      calc a * b ^ (e + d) = a * b ^ d * b ^ e := by ring
        _ ≤ x / b ^ e * b ^ e := Nat.mul_le_mul_right _ hdiv

/-- What rounding takes away is small beside what it leaves. -/
theorem sub_round_lt (hb : 0 < b) (hM : 0 < M) (hfull : e = 0 ∨ M ≤ b * (x / b ^ e)) (hx : 0 < x) :
    (x - x / b ^ e * b ^ e) * M < b * (x / b ^ e * b ^ e) := by
  rcases hfull with rfl | hfull
  · simpa using Nat.mul_pos hb hx
  · have hpos : 0 < b ^ e := Nat.pow_pos hb
    have hlt : x - x / b ^ e * b ^ e < b ^ e := by
      have := Nat.div_add_mod' x (b ^ e)
      have := Nat.mod_lt x hpos
      omega
    calc (x - x / b ^ e * b ^ e) * M < b ^ e * M := Nat.mul_lt_mul_of_pos_right hlt hM
      _ ≤ b ^ e * (b * (x / b ^ e)) := Nat.mul_le_mul_left _ hfull
      _ = b * (x / b ^ e * b ^ e) := by ring

end Lib
