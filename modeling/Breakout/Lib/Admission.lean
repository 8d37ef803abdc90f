/-
# Buckets with room for so many

The elements of a list go one after another into the bucket that is theirs, unless it is full.  What
is in a bucket in the end are the first of its elements (`filter_letIn`).
-/
import Mathlib.Tactic

namespace Lib

variable {α κ : Type} [DecidableEq κ] {cap : Nat} {bucket : α → κ} {l : List α}

/-- Those who find room, in the order they came. -/
def letIn (cap : Nat) (bucket : α → κ) (l : List α) : List α :=
  l.foldl (fun admitted a =>
    if admitted.countP (bucket · = bucket a) < cap then admitted ++ [a] else admitted) []

theorem letIn_concat (l : List α) (a : α) : letIn cap bucket (l ++ [a]) =
    if (letIn cap bucket l).countP (bucket · = bucket a) < cap then letIn cap bucket l ++ [a]
    else letIn cap bucket l := by
  unfold letIn
  rw [List.foldl_append]
  rfl

theorem letIn_sublist (l : List α) : (letIn cap bucket l).Sublist l := by
  induction l using List.reverseRecOn with
  | nil => exact List.Sublist.refl []
  | append_singleton l a ih =>
    rw [letIn_concat]
    split_ifs
    · exact ih.append (List.Sublist.refl [a])
    · exact ih.trans (List.sublist_append_left l [a])

/-- **A bucket has the first of its elements.** -/
theorem filter_letIn (l : List α) (k : κ) :
    (letIn cap bucket l).filter (bucket · = k) = (l.filter (bucket · = k)).take cap := by
  induction l using List.reverseRecOn with
  | nil => simp [letIn]
  | append_singleton l a ih =>
    have hcount : (letIn cap bucket l).countP (bucket · = k) =
        min cap (l.filter (bucket · = k)).length := by
      rw [List.countP_eq_length_filter, ih, List.length_take]
    rw [letIn_concat, List.filter_append, List.take_append]
    by_cases hk : bucket a = k
    · have hin : [a].filter (bucket · = k) = [a] := by simp [hk]
      rw [hk, hcount, hin]
      split_ifs with hroom
      · have hlt : (l.filter (bucket · = k)).length < cap := by omega
        rw [List.filter_append, ih, hin, List.take_of_length_le hlt.le]
        rw [List.take_of_length_le (by rw [List.length_singleton]; omega)]
      · rw [ih, Nat.sub_eq_zero_of_le (by omega), List.take_zero, List.append_nil]
    · have hout : [a].filter (bucket · = k) = [] := by simp [hk]
      rw [hout, List.take_nil, List.append_nil]
      split_ifs
      · rw [List.filter_append, hout, List.append_nil, ih]
      · exact ih

end Lib
