/-
# Digits in another base

A list of digits, the highest first, is written in another base.  What it is worth does not tell how
many zeros stand in front, so these are kept as they are: a zero of one base is a zero of the other.
Then nothing is lost, and writing the digits back gives the list (`reradix_reradix`).
-/
import Mathlib.Tactic

namespace Lib

/-- The digits in front that are zero. -/
def leadingZeros (ds : List Nat) : List Nat := ds.takeWhile (· == 0)

/-- Digits in base `b`, written in base `c`. -/
def reradix (b c : Nat) (ds : List Nat) : List Nat :=
  leadingZeros ds ++ (Nat.digits c (Nat.ofDigits b ds.reverse)).reverse

variable {b c k : Nat} {ds w : List Nat}

/-- Every list is zeros and then a list that does not start with one. -/
theorem exists_leadingZeros (ds : List Nat) :
    ∃ k w, ds = List.replicate k 0 ++ w ∧ w.head? ≠ some 0 := by
  induction ds with
  | nil => exact ⟨0, [], rfl, nofun⟩
  | cons d ds ih =>
    by_cases hd : d = 0
    · obtain ⟨k, w, rfl, hw⟩ := ih
      exact ⟨k + 1, w, by rw [hd, List.replicate_succ, List.cons_append], hw⟩
    · exact ⟨0, d :: ds, rfl, by simpa using hd⟩

theorem leadingZeros_append (hw : w.head? ≠ some 0) :
    leadingZeros (List.replicate k 0 ++ w) = List.replicate k 0 := by
  have hnone : w.takeWhile (· == 0) = [] := by
    cases w with
    | nil => rfl
    | cons d w =>
      have hd : d ≠ 0 := by simpa using hw
      rw [List.takeWhile_cons_of_neg (by simpa using hd)]
  rw [leadingZeros, List.takeWhile_append_of_pos (by simp), hnone, List.append_nil]

/-- Zeros in front are worth nothing. -/
theorem reradix_append (hw : w.head? ≠ some 0) :
    reradix b c (List.replicate k 0 ++ w) =
      List.replicate k 0 ++ (Nat.digits c (Nat.ofDigits b w.reverse)).reverse := by
  rw [reradix, leadingZeros_append hw, List.reverse_append, List.reverse_replicate,
    Nat.ofDigits_append_replicate_zero]

theorem head?_reverse_digits (n : Nat) : (Nat.digits c n).reverse.head? ≠ some 0 := by
  rw [List.head?_reverse]
  intro h
  obtain ⟨hne, hlast⟩ := List.mem_getLast?_eq_getLast (Option.mem_def.mpr h)
  exact Nat.getLast_digit_ne_zero c (Nat.digits_ne_nil_iff_ne_zero.mp hne) hlast.symm

/-- **Nothing is lost.** -/
theorem reradix_reradix (hb : 1 < b) (hds : ∀ d ∈ ds, d < b) :
    reradix c b (reradix b c ds) = ds := by
  obtain ⟨k, w, rfl, hw⟩ := exists_leadingZeros ds
  rw [reradix_append hw, reradix_append (head?_reverse_digits _), List.reverse_reverse,
    Nat.ofDigits_digits, Nat.digits_ofDigits b hb, List.reverse_reverse]
  · intro d hd
    exact hds d (List.mem_append_right _ (List.mem_reverse.mp hd))
  · intro hne hlast
    rw [List.getLast_reverse] at hlast
    exact hw (hlast ▸ List.head?_eq_some_head _)

theorem reradix_lt (hc : 1 < c) : ∀ d ∈ reradix b c ds, d < c := by
  intro d hd
  rcases List.mem_append.mp hd with hd | hd
  · obtain ⟨k, w, rfl, hw⟩ := exists_leadingZeros ds
    rw [leadingZeros_append hw] at hd
    rw [List.eq_of_mem_replicate hd]
    exact Nat.zero_lt_of_lt hc
  · exact Nat.digits_lt_base hc (List.mem_reverse.mp hd)

end Lib
