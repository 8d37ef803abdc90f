/-
# A map and a batch of changes to it

A batch keeps changes to a map, in the order they were made, until they are applied at once or
thrown away.  Meanwhile a reader who is to see the changes has to look for the last one of a key
in the batch, and in the map only if there is none (`applyAll_eq`).

`Versions` says what this is for: two versions of the map, of which the batch is the difference.
-/
import Mathlib.Logic.Function.Basic
import Mathlib.Tactic

namespace Lib

/-- A change to a map. -/
inductive Pending (K V : Type) where
  | put (key : K) (value : V)
  | delete (key : K)
deriving DecidableEq

namespace Pending

variable {K V : Type} [DecidableEq K]

/-- The key that is changed. -/
def key : Pending K V → K
  | .put k _ => k
  | .delete k => k

/-- What the key has afterwards. -/
def result : Pending K V → Option V
  | .put _ v => some v
  | .delete _ => none

/-- The map with the change. -/
def apply (db : K → Option V) (p : Pending K V) : K → Option V :=
  Function.update db p.key p.result

/-- The map with the changes, the first one first. -/
def applyAll (batch : List (Pending K V)) (db : K → Option V) : K → Option V :=
  batch.foldl apply db

/-- What the last change of a key leaves there, if there is one. -/
def last (k : K) : List (Pending K V) → Option (Option V)
  | [] => none
  | p :: batch => (last k batch).or (if p.key = k then some p.result else none)

@[simp] theorem applyAll_nil (db : K → Option V) : applyAll [] db = db := rfl

theorem applyAll_snoc (batch : List (Pending K V)) (p : Pending K V) (db : K → Option V) :
    applyAll (batch ++ [p]) db = apply (applyAll batch db) p := by
  simp [applyAll]

theorem last_snoc (k : K) (batch : List (Pending K V)) (p : Pending K V) :
    last k (batch ++ [p]) = if p.key = k then some p.result else last k batch := by
  induction batch with
  | nil => simp [last]
  | cons q batch ih =>
    rw [List.cons_append, last, ih, last]
    split <;> simp

/-- **The last change of a key decides.** -/
theorem applyAll_eq (batch : List (Pending K V)) (db : K → Option V) (k : K) :
    applyAll batch db k = (last k batch).getD (db k) := by
  induction batch using List.reverseRecOn with
  | nil => rfl
  | append_singleton batch p ih =>
    rw [applyAll_snoc, last_snoc, apply]
    by_cases hk : p.key = k
    · rw [if_pos hk, ← hk, Function.update_self]
      rfl
    · rw [if_neg hk, Function.update_of_ne (Ne.symm hk), ih]

end Pending

/-- Two versions of a map: what is kept, and what a reader sees. -/
@[ext] structure Versions (K V : Type) where
  committed : K → Option V
  current : K → Option V

namespace Versions

variable {K V : Type} [DecidableEq K]

/-- A change nobody has to wait for. -/
def write (s : Versions K V) (p : Pending K V) : Versions K V where
  committed := p.apply s.committed
  current := p.apply s.current

/-- A change for later. -/
def stage (s : Versions K V) (p : Pending K V) : Versions K V :=
  { s with current := p.apply s.current }

/-- What is seen is kept from now on. -/
def commit (s : Versions K V) : Versions K V := { s with committed := s.current }

/-- What is kept is seen again. -/
def abort (s : Versions K V) : Versions K V := { s with current := s.committed }

end Versions

end Lib
