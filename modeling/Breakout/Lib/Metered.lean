/-
# Routines with a tally

`Metered α` is a routine with a number beside it: how often it has done something by the time it
ends, also where it stops.  A routine of which a part is to be counted is written once more with
that part counted; it ends as before (`result_bind`), and is counted part by part (`count_bind_le`).
-/
import Breakout.Lib.Run

namespace Lib

/-- How often something was done, and how the routine ends. -/
structure Metered (α : Type) where
  count : Nat
  result : Run α

namespace Metered

variable {α β : Type}

/-- A routine in which nothing is counted. -/
def lift (r : Run α) : Metered α := ⟨0, r⟩

/-- One after the other, unless the first stops. -/
def bind (x : Metered α) (f : α → Metered β) : Metered β :=
  match x.result with
  | .ok a => ⟨x.count + (f a).count, (f a).result⟩
  | .error e => ⟨x.count, .error e⟩

instance : Monad Metered where
  pure a := lift (.ok a)
  bind := bind

@[simp] theorem result_lift (r : Run α) : (lift r).result = r := rfl

@[simp] theorem count_lift (r : Run α) : (lift r).count = 0 := rfl

@[simp] theorem result_pure (a : α) : (pure a : Metered α).result = .ok a := rfl

@[simp] theorem count_pure (a : α) : (pure a : Metered α).count = 0 := rfl

/-- **It ends as it does uncounted.** -/
@[simp] theorem result_bind (x : Metered α) (f : α → Metered β) :
    (x >>= f).result = x.result >>= fun a => (f a).result := by
  change (bind x f).result = _
  unfold bind
  cases x.result <;> rfl

variable {x : Metered α} {f : α → Metered β} {n : Nat}

/-- **The count of two parts.** -/
theorem count_bind_le {m : Nat} (hx : x.count ≤ m) (hf : ∀ a, x.result = .ok a → (f a).count ≤ n) :
    (x >>= f).count ≤ m + n := by
  change (bind x f).count ≤ _
  unfold bind
  cases h : x.result with
  | ok a => exact Nat.add_le_add hx (hf a h)
  | error e => exact hx.trans (Nat.le_add_right m n)

/-- Nothing is counted in two parts. -/
theorem count_bind_eq_zero :
    (x >>= f).count = 0 ↔ x.count = 0 ∧ ∀ a, x.result = .ok a → (f a).count = 0 := by
  change (bind x f).count = 0 ↔ _
  unfold bind
  cases h : x.result with
  | ok a => simp [Nat.add_eq_zero_iff]
  | error e => simp

/-- A part in which nothing is counted. -/
theorem count_lift_bind_le {r : Run α} (hf : ∀ a, r = .ok a → (f a).count ≤ n) :
    (lift r >>= f).count ≤ n :=
  (count_bind_le (Nat.le_refl 0) hf).trans_eq (Nat.zero_add n)

/-- A part after which nothing is counted. -/
theorem count_bind_lift_le (hx : x.count ≤ n) (hf : ∀ a, x.result = .ok a → (f a).count = 0) :
    (x >>= f).count ≤ n :=
  count_bind_le hx fun a ha => (hf a ha).le

end Metered

end Lib
