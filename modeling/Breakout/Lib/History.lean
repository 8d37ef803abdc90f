/-
# What holds in every state of a run

A machine takes operations one after another.  A property may be kept by some steps only: then it
holds in every state of a run exactly when every step of the run is one of those
(`everywhere_iff`).  What a run keeps as long as the property holds may be used to say which steps
they are.
-/
import Mathlib.Tactic

namespace Lib

variable {S O : Type} {step : S → O → S} {init : S} {J P : S → Prop} {C : S → O → Prop}

/-- The property holds in every state of a run. -/
def Everywhere (step : S → O → S) (init : S) (P : S → Prop) (ops : List O) : Prop :=
  ∀ ops', ops' <+: ops → P (ops'.foldl step init)

/-- The condition holds at every step of a run. -/
def EveryStep (step : S → O → S) (init : S) (C : S → O → Prop) (ops : List O) : Prop :=
  ∀ ops' o, ops' ++ [o] <+: ops → C (ops'.foldl step init) o

variable {ops : List O}

theorem everywhere_append {o : O} :
    Everywhere step init P (ops ++ [o]) ↔
      Everywhere step init P ops ∧ P (step (ops.foldl step init) o) := by
  constructor
  · intro h
    refine ⟨fun ops' hpre => h ops' (hpre.trans (List.prefix_append ..)), ?_⟩
    have hlast := h (ops ++ [o]) (List.prefix_refl _)
    rwa [List.foldl_append] at hlast
  · rintro ⟨h, hlast⟩ ops' hpre
    rcases List.prefix_concat_iff.mp hpre with rfl | hpre
    · rwa [List.foldl_append]
    · exact h ops' hpre

theorem everyStep_append {ops : List O} {o : O} :
    EveryStep step init C (ops ++ [o]) ↔
      EveryStep step init C ops ∧ C (ops.foldl step init) o := by
  constructor
  · intro h
    exact ⟨fun ops' o' hpre => h ops' o' (hpre.trans (List.prefix_append ..)),
      h ops o (List.prefix_refl _)⟩
  · rintro ⟨h, hlast⟩ ops' o' hpre
    rcases List.prefix_concat_iff.mp hpre with heq | hpre
    · obtain ⟨rfl, hoo⟩ := List.append_inj' heq rfl
      rw [List.singleton_inj.mp hoo]
      exact hlast
    · exact h ops' o' hpre

/-- A run of no steps, and one more step at the head of a run. -/
theorem everyStep_nil : EveryStep step init C [] := by
  intro ops' o hpre
  simp at hpre

theorem everyStep_cons {o : O} :
    EveryStep step init C (o :: ops) ↔ C init o ∧ EveryStep step (step init o) C ops := by
  constructor
  · intro h
    refine ⟨h [] o (by simp), fun ops' o' hpre => ?_⟩
    exact h (o :: ops') o' (List.cons_prefix_cons.mpr ⟨rfl, hpre⟩)
  · rintro ⟨hfirst, hrest⟩ ops' o' hpre
    cases ops' with
    | nil =>
      obtain ⟨rfl, -⟩ := List.cons_prefix_cons.mp hpre
      exact hfirst
    | cons first ops' =>
      obtain ⟨rfl, htail⟩ := List.cons_prefix_cons.mp hpre
      exact hrest ops' o' htail

/-- What a step keeps from a state with the property, a run keeps while it has it. -/
theorem foldl_induction (hinit : J init) (hkeep : ∀ s o, J s → P s → J (step s o))
    (h : Everywhere step init P ops) : J (ops.foldl step init) := by
  induction ops using List.reverseRecOn with
  | nil => exact hinit
  | append_singleton ops o ih =>
    obtain ⟨hbefore, -⟩ := everywhere_append.mp h
    rw [List.foldl_append]
    exact hkeep _ o (ih hbefore) (hbefore ops (List.prefix_refl _))

/-- What is kept by every step that meets the condition holds everywhere, in a run of such steps. -/
theorem everywhere_of_everyStep (hinit : P init) (hkeep : ∀ s o, P s → C s o → P (step s o))
    (h : EveryStep step init C ops) : Everywhere step init P ops := by
  induction ops using List.reverseRecOn with
  | nil =>
    intro ops' hpre
    rw [List.prefix_nil.mp hpre]
    exact hinit
  | append_singleton ops o ih =>
    obtain ⟨hbefore, hlast⟩ := everyStep_append.mp h
    have hrun := ih hbefore
    exact everywhere_append.mpr ⟨hrun, hkeep _ o (hrun ops (List.prefix_refl _)) hlast⟩

/-- **A property holds everywhere exactly when every step keeps it**, in a run whose steps all meet
another condition. -/
theorem everywhere_iff_of {G : S → O → Prop} (hinit : J init) (hP : P init)
    (hkeep : ∀ s o, J s → P s → J (step s o))
    (hstep : ∀ s o, J s → P s → G s o → (P (step s o) ↔ C s o)) {ops : List O}
    (hG : EveryStep step init G ops) :
    Everywhere step init P ops ↔ EveryStep step init C ops := by
  induction ops using List.reverseRecOn with
  | nil =>
    constructor
    · intro _ ops' o hpre
      simp at hpre
    · intro _ ops' hpre
      rw [List.prefix_nil.mp hpre]
      exact hP
  | append_singleton ops o ih =>
    obtain ⟨hbefore, hlast⟩ := everyStep_append.mp hG
    rw [everywhere_append, everyStep_append, ← ih hbefore]
    refine and_congr_right fun h => ?_
    exact hstep _ o (foldl_induction hinit hkeep h) (h ops (List.prefix_refl _)) hlast

/-- The same, of every run. -/
theorem everywhere_iff (hinit : J init) (hP : P init) (hkeep : ∀ s o, J s → P s → J (step s o))
    (hstep : ∀ s o, J s → P s → (P (step s o) ↔ C s o)) (ops : List O) :
    Everywhere step init P ops ↔ EveryStep step init C ops :=
  @everywhere_iff_of S O step init J P C (fun _ _ => True) hinit hP hkeep
    (fun s o hJ hP _ => hstep s o hJ hP) ops fun _ _ _ => trivial

end Lib
