/-
# 64-bit accumulators

C++ programs add money up in `int64_t`.  The sum a program holds is then the true sum
reduced into `[-2^63, 2^63)`; `Int64.ofInt` is that reduction and it is a ring homomorphism,
so a chain of `+=` and `-=` is the reduction of the exact total (`ofInt_add`, `ofInt_sub` of
the standard library).  What is added here is the way back: when the exact total is in range
the accumulator IS the total, and a reduction of a non-negative total never exceeds it.

Of a `uint64_t` accumulator it is said what its value is congruent to.
-/
import Mathlib.Tactic

namespace Lib

/-- The integers an `int64_t` can hold. -/
def FitsInt64 (n : Int) : Prop := -2 ^ 63 ≤ n ∧ n < 2 ^ 63

instance (n : Int) : Decidable (FitsInt64 n) := inferInstanceAs (Decidable (_ ∧ _))

theorem fits_toInt (x : Int64) : FitsInt64 x.toInt := ⟨x.le_toInt, x.toInt_lt⟩

/-- An accumulator whose exact total is in range holds that total. -/
theorem toInt_ofInt_of_fits {n : Int} (h : FitsInt64 n) : (Int64.ofInt n).toInt = n :=
  Int64.toInt_ofInt_of_le h.1 h.2

/-- The accumulator holds the exact total precisely when the total is in range. -/
theorem toInt_ofInt_eq_iff {n : Int} : (Int64.ofInt n).toInt = n ↔ FitsInt64 n :=
  ⟨fun h => h ▸ fits_toInt _, toInt_ofInt_of_fits⟩

/-- Two accumulators agree precisely when their totals do but for a multiple of `2^64`. -/
theorem ofInt_eq_ofInt_iff {a b : Int} :
    Int64.ofInt a = Int64.ofInt b ↔ a ≡ b [ZMOD 2 ^ 64] := by
  have hsize : ((Int64.size : Nat) : Int) = 2 ^ 64 := by decide
  rw [← Int64.toInt_inj, Int64.toInt_ofInt, Int64.toInt_ofInt]
  constructor
  · intro h
    have hmod := congrArg (· % ((Int64.size : Nat) : Int)) h
    rw [Int.bmod_emod, Int.bmod_emod, hsize] at hmod
    exact hmod
  · intro h
    rw [← Int.emod_bmod (x := a), ← Int.emod_bmod (x := b), hsize, h]

/-- Reduction can only lose from a non-negative total. -/
theorem toInt_ofInt_le_of_nonneg {n : Int} (h : 0 ≤ n) : (Int64.ofInt n).toInt ≤ n := by
  rw [Int64.toInt_ofInt]
  by_cases hn : n < 2 ^ 63
  · rw [Int.bmod_eq_of_le (by simp [Int64.size]; omega) (by simp [Int64.size]; omega)]
  · have := Int.bmod_lt (x := n) (m := Int64.size) (by decide)
    simp only [Int64.size] at this ⊢
    omega

theorem toNat_add_modEq (a b : UInt64) :
    ((a + b).toNat : Int) ≡ a.toNat + b.toNat [ZMOD 2 ^ 64] := by
  rw [UInt64.toNat_add]
  push_cast
  exact Int.mod_modEq _ _

theorem toNat_mul_modEq (a b : UInt64) :
    ((a * b).toNat : Int) ≡ a.toNat * b.toNat [ZMOD 2 ^ 64] := by
  rw [UInt64.toNat_mul]
  push_cast
  exact Int.mod_modEq _ _

/-- A signed number, added to an unsigned accumulator, counts as what it is. -/
theorem toNat_toUInt64_modEq (x : Int64) : (x.toUInt64.toNat : Int) ≡ x.toInt [ZMOD 2 ^ 64] := by
  have hbmod : x.toInt = (x.toUInt64.toNat : Int).bmod (2 ^ 64) :=
    BitVec.toInt_eq_toNat_bmod x.toBitVec
  rw [hbmod]
  exact (Int.bmod_emod (x := _) (m := 2 ^ 64)).symm

/-- An unsigned accumulator holds a total exactly when the total is in range and is congruent to what
the accumulator stands for. -/
theorem toNat_eq_iff_of_modEq {n : UInt64} {t x : Int} (h : (n.toNat : Int) ≡ t [ZMOD 2 ^ 64]) :
    (n.toNat : Int) = x ↔ 0 ≤ x ∧ x < 2 ^ 64 ∧ x ≡ t [ZMOD 2 ^ 64] := by
  have hlt : (n.toNat : Int) < 2 ^ 64 := by exact_mod_cast n.toNat_lt
  constructor
  · rintro rfl
    exact ⟨Int.natCast_nonneg _, hlt, h⟩
  · rintro ⟨h0, hx, hmod⟩
    have heq : (n.toNat : Int) % 2 ^ 64 = x % 2 ^ 64 := h.trans hmod.symm
    rwa [Int.emod_eq_of_lt (Int.natCast_nonneg _) hlt, Int.emod_eq_of_lt h0 hx] at heq

end Lib
