/-
# Routines that write as they go

A routine works on a state, reads and writes it step by step, and may stop with a text.  What it
wrote before it stopped stays written: there is no rollback inside a routine, and a caller that
ignores the result goes on with whatever was left.  `Txn S α` is such a routine.

A run is evaluated from the front, one bind at a time (`run_read_bind`, `run_write_bind`,
`run_stopIf`, `run_bind`).  `on` runs a routine on one part of a larger state.
-/
import Mathlib.Tactic

namespace Lib

/-- A routine on a state `S`: how it ends, and the state it leaves. -/
structure Txn (S α : Type) where
  run : S → Except String α × S

namespace Txn

variable {S R α β : Type}

instance : Monad (Txn S) where
  pure a := ⟨fun s => (.ok a, s)⟩
  bind x f := ⟨fun s =>
    match x.run s with
    | (.ok a, s') => (f a).run s'
    | (.error e, s') => (.error e, s')⟩

/-- Read something off the state. -/
def read (f : S → α) : Txn S α := ⟨fun s => (.ok (f s), s)⟩

/-- Change the state. -/
def write (f : S → S) : Txn S Unit := ⟨fun s => (.ok (), f s)⟩

/-- `if (c) return error(msg);` -/
def stopIf (c : Prop) [Decidable c] (msg : String) : Txn S Unit :=
  ⟨fun s => (if c then .error msg else .ok (), s)⟩

/-- A step that is made only if a flag is set. -/
def when (c : Bool) (x : Txn S Unit) : Txn S Unit := if c then x else pure ()

/-- A routine on a part of the state. -/
def on (get : S → R) (set : R → S → S) (x : Txn R α) : Txn S α :=
  ⟨fun s => ((x.run (get s)).1, set (x.run (get s)).2 s)⟩

/-- The state a routine leaves, for a caller that does not ask how it ended. -/
def left (x : Txn S α) (s : S) : S := (x.run s).2

variable {s s' : S} {a : α} {b : β}

@[simp] theorem run_pure : (pure a : Txn S α).run s = (.ok a, s) := rfl

variable {f : α → Txn S β} {g : S → S} {x : Txn S Unit}

theorem run_bind {x : Txn S α} (h : x.run s = (.ok a, s')) :
    (x >>= f).run s = (f a).run s' := by
  change (match x.run s with
    | (.ok a, s') => (f a).run s'
    | (.error e, s') => (.error e, s')) = (f a).run s'
  rw [h]

@[simp] theorem run_read_bind {g : S → α} :
    (read g >>= f).run s = (f (g s)).run s := rfl

@[simp] theorem run_write : (write g).run s = (.ok (), g s) := rfl

@[simp] theorem run_write_bind {f : Unit → Txn S β} :
    (write g >>= f).run s = (f ()).run (g s) := rfl

theorem run_stopIf {c : Prop} [Decidable c] {msg : String} {f : Unit → Txn S β} (h : ¬ c) :
    (stopIf c msg >>= f).run s = (f ()).run s :=
  run_bind (by rw [stopIf, if_neg h])

@[simp] theorem when_true : when true x = x := rfl

@[simp] theorem when_false : when false x = pure () := rfl

@[simp] theorem run_pure_bind :
    ((pure a : Txn S α) >>= f).run s = (f a).run s := rfl

/-- A sequence inside a sequence is run from its front. -/
@[simp] theorem run_bind_bind {γ : Type} {x : Txn S α} {g : β → Txn S γ} :
    (x >>= f >>= g).run s = (x >>= fun a => f a >>= g).run s := by
  rcases hx : x.run s with ⟨e | a, s'⟩
  · change (match (match x.run s with
      | (.ok a, s') => (f a).run s'
      | (.error e, s') => (.error e, s')) with
      | (.ok b, s'') => (g b).run s''
      | (.error e, s'') => (.error e, s'')) = (match x.run s with
        | (.ok a, s') => (f a >>= g).run s'
        | (.error e, s') => (.error e, s'))
    rw [hx]
  · rw [run_bind hx]
    change (match (match x.run s with
      | (.ok a, s') => (f a).run s'
      | (.error e, s') => (.error e, s')) with
      | (.ok b, s'') => (g b).run s''
      | (.error e, s'') => (.error e, s'')) = (f a >>= g).run s'
    rw [hx]
    rfl

theorem run_on {get : S → R} {set : R → S → S} {x : Txn R α} {r : R}
    (h : x.run (get s) = (.ok a, r)) : (on get set x).run s = (.ok a, set r s) := by
  rw [on]
  simp only [h]

/-! ## Several routines, one after another -/

/-- The state that routines leave whose results nobody asks for. -/
def leftAll (xs : List (Txn S Unit)) (s : S) : S := xs.foldl (fun s x => x.left s) s

/-- None of the routines stops. -/
def Quiet : List (Txn S Unit) → S → Prop
  | [], _ => True
  | x :: xs, s => (x.run s).1 = .ok () ∧ Quiet xs (x.left s)

theorem left_of_run {r : Except String Unit} (h : x.run s = (r, s')) :
    x.left s = s' := by
  rw [left, h]

@[simp] theorem leftAll_nil : leftAll ([] : List (Txn S Unit)) s = s := rfl

@[simp] theorem leftAll_cons (x : Txn S Unit) (xs : List (Txn S Unit)) :
    leftAll (x :: xs) s = leftAll xs (x.left s) := rfl

@[simp] theorem leftAll_append (xs ys : List (Txn S Unit)) :
    leftAll (xs ++ ys) s = leftAll ys (leftAll xs s) :=
  List.foldl_append ..

theorem quiet_append {xs ys : List (Txn S Unit)} :
    Quiet (xs ++ ys) s ↔ Quiet xs s ∧ Quiet ys (leftAll xs s) := by
  induction xs generalizing s with
  | nil => simp [Quiet]
  | cons x xs ih => simp only [List.cons_append, Quiet, ih, leftAll_cons, and_assoc]

theorem quiet_singleton : Quiet [x] s ↔ (x.run s).1 = .ok () := by
  simp [Quiet]

end Txn

end Lib
