/-
# Sets kept in the order of a comparison

A `set` with a comparison of its own holds no two elements neither of which comes before the other:
what compares equal to an element that is there is not put in.  Here the set is the list of its
elements in order.  Elements that come in order are put in at the end or not at all
(`insertNew_of_forall`), so all of a list gets in exactly when every element of it comes before
those behind it (`insertAll_iff`).
-/
import Mathlib.Tactic

namespace Lib

variable {α : Type} (lt : α → α → Bool)

/-- `insert`, unless there is an element that compares equal. -/
def insertNew (x : α) : List α → List α
  | [] => [x]
  | a :: s => if lt x a then x :: a :: s else if lt a x then a :: insertNew x s else a :: s

variable {lt} {x : α} {s l : List α}

/-- **An element that comes before none of the set** goes to its end, or compares equal to one. -/
theorem insertNew_of_forall (h : ∀ a ∈ s, lt x a = false) :
    (insertNew lt x s = s ++ [x] ∧ ∀ a ∈ s, lt a x = true) ∨
      (insertNew lt x s = s ∧ ∃ a ∈ s, lt a x = false) := by
  induction s with
  | nil => exact Or.inl ⟨rfl, nofun⟩
  | cons a s ih =>
    obtain ⟨ha, hs⟩ := List.forall_mem_cons.mp h
    rw [insertNew, if_neg (by rw [ha]; decide)]
    by_cases hlt : lt a x = true
    · rw [if_pos hlt]
      rcases ih hs with ⟨heq, hall⟩ | ⟨heq, b, hb, hnot⟩
      · exact Or.inl ⟨by rw [heq, List.cons_append], List.forall_mem_cons.mpr ⟨hlt, hall⟩⟩
      · exact Or.inr ⟨by rw [heq], b, List.mem_cons_of_mem _ hb, hnot⟩
    · rw [if_neg hlt]
      exact Or.inr ⟨rfl, a, List.mem_cons_self, Bool.eq_false_iff.mpr hlt⟩

variable (lt) in
theorem length_insertNew_le (x : α) (s : List α) : (insertNew lt x s).length ≤ s.length + 1 := by
  induction s with
  | nil => exact le_rfl
  | cons a s ih =>
    rw [insertNew]
    split
    · exact le_rfl
    · split
      · exact Nat.succ_le_succ ih
      · exact Nat.le_succ _

variable (lt) in
/-- Element after element. -/
def insertAll (l s : List α) : List α := l.foldl (fun s x => insertNew lt x s) s

variable (lt) in
theorem length_insertAll_le (l s : List α) : (insertAll lt l s).length ≤ s.length + l.length := by
  induction l generalizing s with
  | nil => exact le_rfl
  | cons x l ih =>
    have hle := length_insertNew_le lt x s
    have hrest := ih (insertNew lt x s)
    rw [insertAll, List.foldl_cons, ← insertAll, List.length_cons]
    omega

theorem mem_insertNew {y : α} (h : y ∈ insertNew lt x s) : y = x ∨ y ∈ s := by
  induction s with
  | nil => exact Or.inl (List.mem_singleton.mp h)
  | cons a s ih =>
    rw [insertNew] at h
    split at h
    · exact List.mem_cons.mp h
    · split at h
      · rcases List.mem_cons.mp h with rfl | h
        · exact Or.inr List.mem_cons_self
        · exact (ih h).imp id (List.mem_cons_of_mem _)
      · exact Or.inr h

theorem mem_insertAll {y : α} (h : y ∈ insertAll lt l s) : y ∈ l ∨ y ∈ s := by
  induction l generalizing s with
  | nil => exact Or.inr h
  | cons x l ih =>
    rw [insertAll, List.foldl_cons, ← insertAll] at h
    rcases ih h with h | h
    · exact Or.inl (List.mem_cons_of_mem _ h)
    · rcases mem_insertNew h with rfl | h
      · exact Or.inl List.mem_cons_self
      · exact Or.inr h

/-- **What is put in is there**, if only equal elements compare equal. -/
theorem mem_insertAll_iff (htotal : ∀ a b, lt a b = false → lt b a = false → a = b) {y : α} :
    y ∈ insertAll lt l s ↔ y ∈ l ∨ y ∈ s := by
  have hnew : ∀ {x : α} {s : List α}, y = x ∨ y ∈ s → y ∈ insertNew lt x s := by
    intro x s h
    induction s with
    | nil => exact List.mem_singleton.mpr (h.resolve_right List.not_mem_nil)
    | cons a s ih =>
      rw [insertNew]
      split_ifs with hxa hax
      · exact List.mem_cons.mpr h
      · rcases h with rfl | h
        · exact List.mem_cons_of_mem _ (ih (Or.inl rfl))
        · rcases List.mem_cons.mp h with rfl | h
          · exact List.mem_cons_self
          · exact List.mem_cons_of_mem _ (ih (Or.inr h))
      · rcases h with rfl | h
        · rw [htotal y a (Bool.eq_false_iff.mpr hxa) (Bool.eq_false_iff.mpr hax)]
          exact List.mem_cons_self
        · exact h
  refine ⟨mem_insertAll, fun h => ?_⟩
  induction l generalizing s with
  | nil => exact h.resolve_left List.not_mem_nil
  | cons x l ih =>
    rw [insertAll, List.foldl_cons, ← insertAll]
    rw [List.mem_cons] at h
    rcases h with (hx | hl) | hs
    · exact ih (Or.inr (hnew (Or.inl hx)))
    · exact ih (Or.inl hl)
    · exact ih (Or.inr (hnew (Or.inr hs)))

/-- **All of a list in order gets in** exactly when each element comes after the set and before
those behind it, and then the set is what it was and the list. -/
theorem insertAll_iff (hs : ∀ x ∈ l, ∀ a ∈ s, lt x a = false)
    (hl : l.Pairwise fun a b => lt b a = false) :
    ((insertAll lt l s).length = s.length + l.length ↔
      (∀ a ∈ s, ∀ x ∈ l, lt a x = true) ∧ l.Pairwise fun a b => lt a b = true) ∧
    ((insertAll lt l s).length = s.length + l.length → insertAll lt l s = s ++ l) := by
  induction l generalizing s with
  | nil => exact ⟨iff_of_true rfl ⟨fun _ _ => nofun, List.Pairwise.nil⟩, fun _ => by simp [insertAll]⟩
  | cons x l ih =>
    obtain ⟨hx, hrest⟩ := List.forall_mem_cons.mp hs
    obtain ⟨hfirst, htail⟩ := List.pairwise_cons.mp hl
    rw [insertAll, List.foldl_cons, ← insertAll]
    rcases insertNew_of_forall hx with ⟨heq, hall⟩ | ⟨heq, a, ha, hnot⟩
    · have hs' : ∀ y ∈ l, ∀ a ∈ s ++ [x], lt y a = false := by
        intro y hy a ha
        rcases List.mem_append.mp ha with ha | ha
        · exact hrest y hy a ha
        · rw [List.mem_singleton.mp ha]
          exact hfirst y hy
      obtain ⟨hiff, heq'⟩ := ih hs' htail
      have hlen : (s ++ [x]).length + l.length = s.length + (x :: l).length := by
        rw [List.length_append, List.length_singleton, List.length_cons]
        omega
      rw [heq, ← hlen]
      refine ⟨hiff.trans ?_, fun h => by rw [heq' h, List.append_assoc, List.singleton_append]⟩
      rw [List.pairwise_cons]
      constructor
      · rintro ⟨hbefore, hpair⟩
        refine ⟨fun a ha => List.forall_mem_cons.mpr ⟨hall a ha, fun y hy => ?_⟩, fun y hy => ?_, hpair⟩
        · exact hbefore a (List.mem_append_left _ ha) y hy
        · exact hbefore x (List.mem_append_right _ List.mem_cons_self) y hy
      · rintro ⟨hbefore, hhead, hpair⟩
        refine ⟨fun a ha y hy => ?_, hpair⟩
        rcases List.mem_append.mp ha with ha | ha
        · exact hbefore a ha y (List.mem_cons_of_mem _ hy)
        · rw [List.mem_singleton.mp ha]
          exact hhead y hy
    · have hle := length_insertAll_le lt l s
      have hless : (insertAll lt l s).length ≠ s.length + (x :: l).length := by
        rw [List.length_cons]
        omega
      rw [heq]
      refine ⟨iff_of_false hless fun h => ?_, fun h => absurd h hless⟩
      exact Bool.false_ne_true (hnot.symm.trans (h.1 a ha x List.mem_cons_self))

end Lib
