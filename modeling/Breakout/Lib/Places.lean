/-
# Places given out in passing

Items are visited one after another.  Some have a place, others get the one after the highest that
was given so far, which starts a new gap: an item that is visited later goes up by one for every gap
that starts at its place or below.

Old places are compared with where gaps start among the new ones.  What comes of it can be said
without the order of the visits: every item that had a place goes up by the gaps, of all that there
are in the end, that start at its place or below (`shift_visits`).  So the order is kept
(`shift_strictMono`), but an item can land where a gap starts.
-/
import Mathlib.Tactic

namespace Lib

/-- The next place, and where the gaps start. -/
structure Places where
  next : Int
  starts : List Int

namespace Places

/-- Where an item goes that was at `x`. -/
def shift (starts : List Int) (x : Int) : Int := x + starts.countP (fun o => decide (o ≤ x))

/-- The place that an item gets. -/
def place (s : Places) : Option Int → Int
  | none => s.next
  | some x => shift s.starts x

/-- What is left after an item was visited. -/
def visit (s : Places) : Option Int → Places
  | none => ⟨s.next + 1, s.starts ++ [s.next]⟩
  | some x => ⟨max s.next (shift s.starts x + 1), s.starts⟩

/-- What is left after all. -/
def visits (s : Places) (xs : List (Option Int)) : Places := xs.foldl visit s

variable {s : Places} {starts : List Int} {x y o : Int}

theorem le_shift : x ≤ shift starts x := by
  unfold shift
  omega

/-- **The order is kept.** -/
theorem shift_strictMono (h : x < y) : shift starts x < shift starts y := by
  have hcount : starts.countP (fun o => decide (o ≤ x)) ≤
      starts.countP (fun o => decide (o ≤ y)) := by
    refine List.countP_mono_left fun o _ ho => ?_
    rw [decide_eq_true_eq] at ho ⊢
    omega
  unfold shift
  omega

theorem shift_lt_shift_iff : shift starts x < shift starts y ↔ x < y := by
  constructor
  · intro h
    rcases lt_trichotomy x y with hlt | rfl | hlt
    · exact hlt
    · exact absurd h (lt_irrefl _)
    · exact absurd h (lt_asymm (shift_strictMono hlt))
  · exact shift_strictMono

theorem shift_injective (starts : List Int) : Function.Injective (shift starts) :=
  StrictMono.injective fun _ _ h => shift_strictMono h

/-- An item lands at `o` from so many places below. -/
theorem shift_eq_iff : shift starts x = o ↔ o - x = starts.countP (fun o => decide (o ≤ x)) := by
  unfold shift
  omega

/-- Gaps start one above the other, below the next place. -/
structure Ok (s : Places) : Prop where
  increasing : s.starts.Pairwise (· < ·)
  below : ∀ o ∈ s.starts, 0 ≤ o ∧ o < s.next
  next_nonneg : 0 ≤ s.next

theorem ok_start : Ok ⟨0, []⟩ := ⟨List.Pairwise.nil, nofun, le_rfl⟩

/-- What is below zero stays where it is. -/
theorem Ok.shift_of_neg (h : s.Ok) (hx : x < 0) : shift s.starts x = x := by
  have hnone : s.starts.countP (fun o => decide (o ≤ x)) = 0 := by
    refine List.countP_eq_zero.mpr fun o ho => ?_
    rw [decide_eq_true_eq, not_le]
    exact hx.trans_le (h.below o ho).1
  rw [shift, hnone, Nat.cast_zero, add_zero]

theorem next_le_visit (s : Places) (p : Option Int) : s.next ≤ (s.visit p).next := by
  cases p with
  | none => exact (Int.lt_succ s.next).le
  | some x => exact le_max_left ..

theorem place_lt_next (p : Option Int) : s.place p < (s.visit p).next := by
  cases p with
  | none => exact Int.lt_succ s.next
  | some x => exact Int.lt_of_lt_of_le (Int.lt_succ _) (le_max_right ..)

theorem Ok.visit (h : s.Ok) (p : Option Int) : (s.visit p).Ok := by
  have hnext := next_le_visit s p
  cases p with
  | none =>
    refine ⟨?_, fun o ho => ?_, h.next_nonneg.trans hnext⟩
    · refine List.pairwise_append.mpr
        ⟨h.increasing, List.pairwise_singleton _ _, fun a ha b hb => ?_⟩
      rw [List.mem_singleton.mp hb]
      exact (h.below a ha).2
    · rcases List.mem_append.mp ho with ho | ho
      · exact ⟨(h.below o ho).1, (h.below o ho).2.trans (Int.lt_succ _)⟩
      · rw [List.mem_singleton.mp ho]
        exact ⟨h.next_nonneg, Int.lt_succ _⟩
  | some x =>
    exact ⟨h.increasing, fun o ho => ⟨(h.below o ho).1, (h.below o ho).2.trans_le hnext⟩,
      h.next_nonneg.trans hnext⟩

theorem visits_cons (s : Places) (p : Option Int) (ps : List (Option Int)) :
    s.visits (p :: ps) = (s.visit p).visits ps := rfl

theorem Ok.visits (h : s.Ok) (ps : List (Option Int)) : (s.visits ps).Ok := by
  induction ps generalizing s with
  | nil => exact h
  | cons p ps ih => exact ih (h.visit p)

theorem next_le_visits (s : Places) (ps : List (Option Int)) : s.next ≤ (s.visits ps).next := by
  induction ps generalizing s with
  | nil => exact le_rfl
  | cons p ps ih => exact (next_le_visit s p).trans (ih _)

/-- Gaps that are made later start no lower than the next place. -/
theorem visits_starts (s : Places) (ps : List (Option Int)) :
    ∃ later, (s.visits ps).starts = s.starts ++ later ∧ ∀ o ∈ later, s.next ≤ o := by
  induction ps generalizing s with
  | nil => exact ⟨[], (List.append_nil _).symm, nofun⟩
  | cons p ps ih =>
    obtain ⟨later, heq, hlater⟩ := ih (s.visit p)
    have hle : ∀ o ∈ later, s.next ≤ o := fun o ho => (next_le_visit s p).trans (hlater o ho)
    rw [visits_cons, heq]
    cases p with
    | none =>
      refine ⟨s.next :: later, List.append_assoc .., ?_⟩
      exact List.forall_mem_cons.mpr ⟨le_rfl, hle⟩
    | some x => exact ⟨later, rfl, hle⟩

/-- **Later gaps do not count**: an item that was visited is where all the gaps put it. -/
theorem shift_visits (hx : x < s.next) (ps : List (Option Int)) :
    shift (s.visits ps).starts x = shift s.starts x := by
  obtain ⟨later, heq, hlater⟩ := visits_starts s ps
  have hnone : later.countP (fun o => decide (o ≤ x)) = 0 := by
    refine List.countP_eq_zero.mpr fun o ho => ?_
    rw [decide_eq_true_eq, not_le]
    exact hx.trans_le (hlater o ho)
  rw [heq, shift, shift, List.countP_append, hnone, Nat.add_zero]

end Places

end Lib
