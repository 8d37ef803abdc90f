/-
# Selections by flags

A program that tries subsets of a vector keeps one flag for each element.  `picked` is the subset
the flags stand for.  Setting a flag that is not set adds its element and nothing else
(`picked_set`), and clearing it again restores the flags (`set_true_set_false`); that is all a search
that puts elements in and takes them out again needs to keep its total in step with its flags.
-/
import Mathlib.Tactic

namespace Lib

variable {α : Type}

/-- The elements whose flag is set. -/
def picked : List Bool → List α → List α
  | true :: flags, a :: l => a :: picked flags l
  | false :: flags, _ :: l => picked flags l
  | _, _ => []

theorem picked_sublist : ∀ (flags : List Bool) (l : List α), (picked flags l).Sublist l
  | [], _ => List.nil_sublist _
  | _ :: _, [] => by simp [picked]
  | true :: flags, a :: l => (picked_sublist flags l).cons_cons a
  | false :: flags, a :: l => (picked_sublist flags l).cons a

@[simp] theorem picked_replicate_true : ∀ l : List α, picked (.replicate l.length true) l = l
  | [] => rfl
  | a :: l => by
    rw [List.length_cons, List.replicate_succ, picked, picked_replicate_true l]

@[simp] theorem picked_replicate_false (n : Nat) (l : List α) :
    picked (.replicate n false) l = [] := by
  induction n generalizing l with
  | zero => rfl
  | succ n ih =>
    cases l with
    | nil => rfl
    | cons a l => exact ih l

/-- **A flag that is set** adds its element. -/
theorem picked_set {flags : List Bool} {l : List α} {i : Nat} {a : α}
    (hflag : flags[i]? = some false) (ha : l[i]? = some a) :
    (picked (flags.set i true) l).Perm (a :: picked flags l) := by
  induction flags generalizing l i with
  | nil => simp at hflag
  | cons flag flags ih =>
    cases l with
    | nil => simp at ha
    | cons b l =>
      cases i with
      | zero =>
        rw [List.getElem?_cons_zero, Option.some_inj] at hflag ha
        subst hflag ha
        exact List.Perm.refl _
      | succ i =>
        have hrest := ih hflag ha
        cases flag with
        | false => exact hrest
        | true => exact (hrest.cons b).trans (List.Perm.swap a b _)

theorem set_true_set_false {flags : List Bool} {i : Nat} (hflag : flags[i]? = some false) :
    (flags.set i true).set i false = flags := by
  obtain ⟨hi, hget⟩ := List.getElem?_eq_some_iff.mp hflag
  have hself := List.set_getElem_self hi
  rw [List.set_set]
  rwa [hget] at hself

end Lib
