/-
# Branches of a tree of blocks

Blocks that are linked to their parents form a tree, and a pointer to one of them is the same as
the branch from the root up to it.  `Branch β` is that branch as a value: a height and a parent
come with it, and a cycle or a block without a root cannot be built.

Two tables describe one branch from outside: the links forward (`next`) and the blocks by height
(`atHeight`).  Both are defined by extending the branch by one block at a time, which is how
programs maintain them; `next_child` and `next_unlink` are the two steps.  The rest says what the
tables hold, and finds where two branches part (`findFork`).
-/
import Mathlib.Tactic

namespace Lib

/-- A block with all its ancestors. -/
inductive Branch (β : Type) where
  | root (b : β) : Branch β
  | child (b : β) (parent : Branch β) : Branch β
deriving DecidableEq

namespace Branch

variable {β : Type}

/-! ## 1. Ancestors -/

/-- The block at the top. -/
def top : Branch β → β
  | root b => b
  | child b _ => b

/-- The block below the top. -/
def parent? : Branch β → Option (Branch β)
  | root _ => none
  | child _ p => some p

/-- How many blocks lie below the top. -/
def height : Branch β → Nat
  | root _ => 0
  | child _ p => p.height + 1

/-- The block and its ancestors, the newest first. -/
def ancestors : Branch β → List (Branch β)
  | root b => [root b]
  | child b p => child b p :: p.ancestors

theorem self_mem_ancestors (p : Branch β) : p ∈ p.ancestors := by
  cases p <;> simp [ancestors]

variable {p q r : Branch β} {n : Nat}

theorem height_le_of_mem (h : q ∈ p.ancestors) : q.height ≤ p.height := by
  induction p with
  | root b =>
    rw [ancestors, List.mem_singleton] at h
    rw [h]
  | child b p ih =>
    rcases List.mem_cons.mp h with rfl | h
    · exact le_rfl
    · exact (ih h).trans (Nat.le_succ _)

/-- The only ancestor as high as the block is the block. -/
theorem eq_of_mem_of_height (h : q ∈ p.ancestors) (hh : p.height ≤ q.height) :
    q = p := by
  cases p with
  | root b => exact List.mem_singleton.mp h
  | child b p =>
    rcases List.mem_cons.mp h with rfl | h
    · rfl
    · have := height_le_of_mem h
      rw [height] at hh
      omega

theorem not_mem_ancestors_of_lt (h : p.height < q.height) :
    q ∉ p.ancestors := fun hm => absurd (height_le_of_mem hm) (by omega)

theorem mem_ancestors_trans (hr : r ∈ q.ancestors) (hq : q ∈ p.ancestors) :
    r ∈ p.ancestors := by
  induction p with
  | root b =>
    rw [ancestors, List.mem_singleton] at hq
    rwa [hq] at hr
  | child b p ih =>
    rcases List.mem_cons.mp hq with rfl | hq
    · exact hr
    · exact List.mem_cons_of_mem _ (ih hq)

/-- Of two ancestors, the lower is an ancestor of the higher. -/
theorem mem_ancestors_of_le (hq : q ∈ p.ancestors) (hr : r ∈ p.ancestors)
    (h : r.height ≤ q.height) : r ∈ q.ancestors := by
  induction p with
  | root b =>
    rw [ancestors, List.mem_singleton] at hq hr
    rw [hq, hr]
    exact self_mem_ancestors _
  | child b p ih =>
    rcases List.mem_cons.mp hq with rfl | hq
    · exact hr
    · rcases List.mem_cons.mp hr with rfl | hr
      · have := height_le_of_mem hq
        rw [height] at h
        omega
      · exact ih hq hr

theorem parent_mem (h : q ∈ p.ancestors) (hr : q.parent? = some r) :
    r ∈ p.ancestors := by
  refine mem_ancestors_trans ?_ h
  cases q with
  | root b => cases hr
  | child b q =>
    cases hr
    exact List.mem_cons_of_mem _ (self_mem_ancestors _)

/-- The lowest ancestor. -/
def bottom : Branch β → Branch β
  | root b => root b
  | child _ p => p.bottom

theorem bottom_mem_ancestors : ∀ p : Branch β, p.bottom ∈ p.ancestors
  | .root _ => List.mem_singleton_self _
  | .child _ p => List.mem_cons_of_mem _ (bottom_mem_ancestors p)

theorem bottom_of_mem (h : q ∈ p.ancestors) : q.bottom = p.bottom := by
  induction p with
  | root b =>
    rw [ancestors, List.mem_singleton] at h
    rw [h]
  | child b p ih =>
    rcases List.mem_cons.mp h with rfl | h
    · rfl
    · exact ih h

/-- Step back while the block is higher than `n`. -/
def lower (n : Nat) : Branch β → Branch β
  | root b => root b
  | child b p => if n < p.height + 1 then lower n p else child b p

theorem lower_mem (n : Nat) (p : Branch β) : p.lower n ∈ p.ancestors := by
  induction p with
  | root b => exact List.mem_singleton_self _
  | child b p ih =>
    rw [lower]
    split
    · exact List.mem_cons_of_mem _ ih
    · exact List.mem_cons_self

theorem height_lower_le (n : Nat) (p : Branch β) : (p.lower n).height ≤ n := by
  induction p with
  | root b => exact Nat.zero_le n
  | child b p ih =>
    rw [lower]
    split
    · exact ih
    · next hn => exact not_lt.mp hn

theorem mem_lower (hr : r ∈ p.ancestors) (h : r.height ≤ n) :
    r ∈ (p.lower n).ancestors := by
  induction p with
  | root b => exact hr
  | child b p ih =>
    rw [lower]
    split
    · next hn =>
      rcases List.mem_cons.mp hr with rfl | hr
      · rw [height] at h
        omega
      · exact ih hr
    · exact hr

/-- From the bottom up, the ancestors of a block have the heights zero, one, and so on. -/
theorem height_ancestors (p : Branch β) :
    p.ancestors.reverse.map height = List.range (p.height + 1) := by
  induction p with
  | root b => rfl
  | child b p ih =>
    rw [ancestors, List.reverse_cons, List.map_append, ih, height, @List.range_succ (p.height + 1)]
    rfl

/-- No block is an ancestor twice. -/
theorem nodup_ancestors (p : Branch β) : p.ancestors.Nodup := by
  have hheights : (p.ancestors.reverse.map height).Nodup := by
    rw [height_ancestors]
    exact List.nodup_range
  exact List.nodup_reverse.mp hheights.of_map

/-! ## 2. The blocks by height -/

/-- The blocks of a branch by their height. -/
def atHeight : Branch β → Nat → Option (Branch β)
  | root b => Function.update (fun _ => none) 0 (some (root b))
  | child b p => Function.update p.atHeight (p.height + 1) (some (child b p))

theorem atHeight_eq_none_of_lt (h : p.height < n) :
    p.atHeight n = none := by
  induction p with
  | root b =>
    rw [height] at h
    rw [atHeight, Function.update_of_ne (by omega)]
  | child b p ih =>
    rw [height] at h
    rw [atHeight, Function.update_of_ne (by omega)]
    exact ih (by omega)

theorem atHeight_child (b : β) (p : Branch β) :
    (child b p).atHeight = Function.update p.atHeight (child b p).height (some (child b p)) := rfl

/-- Taking the top off again leaves its height empty. -/
theorem atHeight_unlink (b : β) (p : Branch β) :
    Function.update (child b p).atHeight (child b p).height none = p.atHeight := by
  rw [atHeight_child, Function.update_idem]
  exact Function.update_eq_self_iff.mpr (atHeight_eq_none_of_lt (Nat.lt_succ_self _)).symm

/-- What the table by height holds: the ancestor at each height up to the top's. -/
theorem atHeight_eq_some :
    p.atHeight n = some r ↔ r ∈ p.ancestors ∧ r.height = n := by
  induction p with
  | root b =>
    rw [atHeight, ancestors, List.mem_singleton]
    by_cases hn : n = 0
    · subst hn
      rw [Function.update_self, Option.some_inj]
      constructor
      · rintro rfl
        exact ⟨rfl, rfl⟩
      · rintro ⟨rfl, -⟩
        rfl
    · rw [Function.update_of_ne hn]
      constructor
      · exact nofun
      · rintro ⟨rfl, h0⟩
        exact absurd h0.symm hn
  | child b p ih =>
    rw [atHeight_child, ancestors, List.mem_cons]
    by_cases hn : n = (child b p).height
    · subst hn
      rw [Function.update_self, Option.some_inj]
      constructor
      · rintro rfl
        exact ⟨Or.inl rfl, rfl⟩
      · rintro ⟨rfl | hr, hh⟩
        · rfl
        · have := height_le_of_mem hr
          rw [height] at hh
          omega
    · rw [Function.update_of_ne hn, ih]
      constructor
      · rintro ⟨hr, hh⟩
        exact ⟨Or.inr hr, hh⟩
      · rintro ⟨rfl | hr, hh⟩
        · exact absurd hh.symm hn
        · exact ⟨hr, hh⟩

theorem exists_atHeight {p : Branch β} {n : Nat} (h : n ≤ p.height) :
    ∃ r, p.atHeight n = some r := by
  induction p with
  | root b =>
    rw [height, Nat.le_zero] at h
    subst h
    exact ⟨root b, Function.update_self ..⟩
  | child b p ih =>
    rw [atHeight_child]
    by_cases hn : n = (child b p).height
    · subst hn
      exact ⟨child b p, Function.update_self ..⟩
    · rw [Function.update_of_ne hn]
      rw [height] at h hn
      exact ih (by omega)

/-! ## 3. The links forward -/

section

variable [DecidableEq β]

/-- The links forward along a branch. -/
def next : Branch β → Branch β → Option (Branch β)
  | root _ => fun _ => none
  | child b p => Function.update p.next p (some (child b p))

variable {p q f : Branch β}

theorem next_eq_none_of_le (h : p.height ≤ q.height) : p.next q = none := by
  induction p with
  | root b => rfl
  | child b p ih =>
    rw [height] at h
    have hne : q ≠ p := fun he => by rw [he] at h; omega
    rw [next, Function.update_of_ne hne]
    exact ih (by omega)

/-- Extending a branch links its old top to the new one. -/
theorem next_child (b : β) (p : Branch β) :
    (child b p).next = Function.update p.next p (some (child b p)) := rfl

/-- Taking the top off again clears the link to it. -/
theorem next_unlink (b : β) (p : Branch β) : Function.update (child b p).next p none = p.next := by
  rw [next_child, Function.update_idem]
  exact Function.update_eq_self_iff.mpr (next_eq_none_of_le le_rfl).symm

/-- What the links hold: from each ancestor to the one above it. -/
theorem next_eq_some {r : Branch β} :
    p.next q = some r ↔ r ∈ p.ancestors ∧ r.parent? = some q := by
  induction p with
  | root b =>
    simp only [next, ancestors, List.mem_singleton, reduceCtorEq, false_iff, not_and]
    rintro rfl
    exact nofun
  | child b p ih =>
    rw [next_child, ancestors, List.mem_cons]
    by_cases hq : q = p
    · subst hq
      rw [Function.update_self, Option.some_inj]
      constructor
      · rintro rfl
        exact ⟨Or.inl rfl, rfl⟩
      · rintro ⟨rfl | hr, hpar⟩
        · rfl
        · have hle := height_le_of_mem hr
          cases r with
          | root b => cases hpar
          | child b' r =>
            cases hpar
            rw [height] at hle
            omega
    · rw [Function.update_of_ne hq, ih]
      constructor
      · rintro ⟨hr, hpar⟩
        exact ⟨Or.inr hr, hpar⟩
      · rintro ⟨rfl | hr, hpar⟩
        · exact absurd (Option.some_inj.mp hpar).symm hq
        · exact ⟨hr, hpar⟩

/-- An ancestor has a link forward, unless it is the top. -/
theorem next_eq_none_iff (hq : q ∈ p.ancestors) : p.next q = none ↔ q = p := by
  constructor
  · intro hnone
    by_contra hne
    have hlt : q.height < p.height := by
      by_contra hle
      exact hne (eq_of_mem_of_height hq (not_lt.mp hle))
    obtain ⟨r, hr⟩ := @exists_atHeight β p (q.height + 1) hlt
    obtain ⟨hmem, hh⟩ := atHeight_eq_some.mp hr
    have hqr := mem_ancestors_of_le hmem hq (by omega)
    cases r with
    | root b => rw [height] at hh; omega
    | child b r =>
      rw [height] at hh
      rcases List.mem_cons.mp hqr with rfl | hqr
      · rw [height] at hh
        omega
      · have hrq : q = r := eq_of_mem_of_height hqr (by omega)
        rw [hrq, next_eq_some.mpr ⟨hmem, rfl⟩] at hnone
        cases hnone
  · rintro rfl
    exact next_eq_none_of_le le_rfl

/-! ## 4. Following the links -/

/-- Following the links from a block visits a list of blocks and ends. -/
inductive Follows (link : Branch β → Option (Branch β)) : Branch β → List (Branch β) → Prop
  | last {p : Branch β} : link p = none → Follows link p [p]
  | step {p q : Branch β} {l : List (Branch β)} :
      link p = some q → Follows link q l → Follows link p (p :: l)

/-- From an ancestor on, the links of a branch visit the rest of it in the order of height. -/
theorem follows_next_append {l : List (Branch β)} (hq : q ∈ p.ancestors) (hl : Follows p.next q l) :
    Follows p.next p.bottom (q.ancestors.tail.reverse ++ l) := by
  induction q generalizing l with
  | root b =>
    have hb : root b = p.bottom := bottom_of_mem hq
    rw [← hb]
    exact hl
  | child b q ih =>
    have hlink : p.next q = some (child b q) := next_eq_some.mpr ⟨hq, rfl⟩
    have := ih (parent_mem hq rfl) (.step hlink hl)
    cases q <;> simpa [ancestors] using this

/-- **The links of a branch visit the branch**, from the root to the top. -/
theorem follows_next (p : Branch β) : Follows p.next p.bottom p.ancestors.reverse := by
  have := follows_next_append (self_mem_ancestors p) (.last (next_eq_none_of_le le_rfl))
  cases p <;> simpa [ancestors] using this

/-! ## 5. Where two branches part -/

/-- The blocks above an ancestor, the newest first. -/
def above : Branch β → Branch β → List (Branch β)
  | root b, f => if root b = f then [] else [root b]
  | child b p, f => if child b p = f then [] else child b p :: p.above f

/-- What lies above an ancestor is above it and not below. -/
theorem above_child (b : β) (h : f ∈ p.ancestors) :
    (child b p).above f = child b p :: p.above f := by
  have hne : child b p ≠ f := by
    rintro rfl
    exact not_mem_ancestors_of_lt (Nat.lt_succ_self p.height) h
  rw [above, if_neg hne]

theorem above_self (p : Branch β) : p.above p = [] := by
  cases p <;> simp [above]

theorem ancestors_eq_above_append (h : f ∈ p.ancestors) :
    p.ancestors = p.above f ++ f.ancestors := by
  induction p with
  | root b =>
    rw [ancestors, List.mem_singleton] at h
    subst h
    simp [above]
  | child b p ih =>
    rcases List.mem_cons.mp h with rfl | h
    · rw [above_self, List.nil_append]
    · rw [above_child b h, ancestors, ih h, List.cons_append]

/-- Find the last block two branches share, stepping back on the higher one. -/
def findFork : Branch β → Branch β → Option (Branch β)
  | root b, q =>
    if root b = q.lower 0 then some (root b) else none
  | child b p, q =>
    if child b p = q.lower (p.height + 1) then some (child b p)
    else findFork p (q.lower (p.height + 1))

/-- **The fork is the last common ancestor.** -/
theorem findFork_spec (h : findFork p q = some f) :
    f ∈ p.ancestors ∧ f ∈ q.ancestors ∧
      ∀ r ∈ p.ancestors, r ∈ q.ancestors → r ∈ f.ancestors := by
  induction p generalizing q with
  | root b =>
    unfold findFork at h
    split at h
    · next heq =>
      cases h
      refine ⟨self_mem_ancestors _, ?_, fun r hr _ => hr⟩
      rw [heq]
      exact lower_mem 0 q
    · cases h
  | child b p ih =>
    unfold findFork at h
    split at h
    · next heq =>
      cases h
      refine ⟨self_mem_ancestors _, ?_, fun r hr _ => hr⟩
      rw [heq]
      exact lower_mem _ q
    · next hne =>
      obtain ⟨hp, hq, hlast⟩ := ih h
      refine ⟨List.mem_cons_of_mem _ hp, mem_ancestors_trans hq (lower_mem _ q), ?_⟩
      intro r hr hrq
      have hlow := mem_lower hrq (height_le_of_mem hr)
      rcases List.mem_cons.mp hr with rfl | hr
      · -- the top of the first branch would be the lowered block itself
        exact absurd (eq_of_mem_of_height hlow (height_lower_le _ q)) hne
      · exact hlast r hr hlow

end

end Branch

end Lib
