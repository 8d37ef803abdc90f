/-
# How a routine may end

`Ends E P r` says that the routine `r` leaves a result of `P` or stops in one of the ways of `E`.
It goes through a routine part by part: what a part leaves is what the next one may count on.
-/
import Breakout.Lib.Run

namespace Lib

variable {α β : Type} {E : Stop → Prop} {P Q : α → Prop} {R : β → Prop}

/-- The routine leaves a result of `P`, or stops as in `E`. -/
def Ends (E : Stop → Prop) (P : α → Prop) : Run α → Prop
  | .ok a => P a
  | .error e => E e

@[simp] theorem ends_ok {a : α} : Ends E P (.ok a) ↔ P a := Iff.rfl

@[simp] theorem ends_error {e : Stop} : Ends E P (.error e : Run α) ↔ E e := Iff.rfl

@[simp] theorem ends_pure {a : α} : Ends E P (pure a) ↔ P a := Iff.rfl

theorem Ends.mono {r : Run α} (h : Ends E P r) (hPQ : ∀ a, P a → Q a) : Ends E Q r := by
  cases r with
  | ok a => exact hPQ a h
  | error e => exact h

/-- **One part after another.** -/
theorem Ends.bind {x : Run α} {f : α → Run β} (hx : Ends E P x) (hf : ∀ a, P a → Ends E R (f a)) :
    Ends E R (x >>= f) := by
  cases x with
  | ok a => exact hf a hx
  | error e => exact hx

/-- A check: what follows may count on it. -/
theorem ends_refuse {c : Prop} [Decidable c] {nDoS : Nat} {msg : String}
    (hE : ¬ c ∨ E (.reject nDoS msg)) : Ends E (fun _ => ¬ c) (refuse c nDoS msg) := by
  unfold refuse
  by_cases hc : c
  · rw [if_pos hc]
    exact hE.resolve_left (not_not.mpr hc)
  · rw [if_neg hc]
    exact hc

theorem ends_iff {r : Run α} :
    Ends E P r ↔ (∀ a, r = .ok a → P a) ∧ ∀ e, r = .error e → E e := by
  cases r with
  | ok a => simp
  | error e => simp

end Lib
