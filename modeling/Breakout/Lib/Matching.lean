/-
# Matching two lists in order

Given which `a` goes with which `b`, can every entry of one list be given an entry of the other, in
order?  Taking the first that fits decides it (`greedyMatch_iff`): whatever a matching does with the
entries it skips, it can as well take the first one, and has no fewer left.
-/
import Mathlib.Tactic
import Mathlib.Data.List.NodupEquivFin

namespace Lib

variable {α β : Type} {r : α → β → Bool}

/-- Take the first entry that fits. -/
def greedyMatch (r : α → β → Bool) : List α → List β → Bool
  | [], _ => true
  | _ :: _, [] => false
  | a :: as, b :: bs => if r a b then greedyMatch r as bs else greedyMatch r (a :: as) bs

/-- Every entry is given one of the others, in order. -/
def Assignable (r : α → β → Bool) (as : List α) (bs : List β) : Prop :=
  ∃ f : Fin as.length → Fin bs.length, StrictMono f ∧ ∀ i, r (as.get i) (bs.get (f i)) = true

variable {as : List α} {bs : List β}

/-- An assignment picks out a part of the list. -/
theorem assignable_iff :
    Assignable r as bs ↔ List.SublistForall₂ (fun a b => r a b = true) as bs := by
  rw [List.sublistForall₂_iff]
  constructor
  · rintro ⟨f, hmono, hf⟩
    refine ⟨List.ofFn fun i => bs.get (f i), ?_, ?_⟩
    · rw [List.forall₂_iff_get]
      refine ⟨List.length_ofFn.symm, fun i hi hi' => ?_⟩
      rw [List.get_ofFn]
      exact hf ⟨i, hi⟩
    · rw [List.sublist_iff_exists_fin_orderEmbedding_get_eq]
      refine ⟨(Fin.castOrderIso List.length_ofFn).toOrderEmbedding.trans
        (OrderEmbedding.ofStrictMono f hmono), fun i => ?_⟩
      rw [List.get_ofFn]
      rfl
  · rintro ⟨l, hall, hsub⟩
    obtain ⟨g, hg⟩ := List.sublist_iff_exists_fin_orderEmbedding_get_eq.mp hsub
    have hlen := hall.length_eq
    refine ⟨fun i => g (i.cast hlen), fun i j hij => g.strictMono hij, fun i => ?_⟩
    rw [← hg]
    exact (List.forall₂_iff_get.mp hall).2 i.val i.isLt (hlen ▸ i.isLt)

/-- What is left to match has more to choose from. -/
theorem SublistForall₂.of_cons {a : α}
    (h : List.SublistForall₂ (fun a b => r a b = true) (a :: as) bs) :
    List.SublistForall₂ (fun a b => r a b = true) as bs := by
  obtain ⟨l, hall, hsub⟩ := List.sublistForall₂_iff.mp h
  cases hall with
  | cons _ hall =>
    exact List.sublistForall₂_iff.mpr ⟨_, hall, (List.sublist_cons_self _ _).trans hsub⟩

/-- **Taking the first decides it.** -/
theorem greedyMatch_iff :
    greedyMatch r as bs = true ↔ Assignable r as bs := by
  rw [assignable_iff]
  induction bs generalizing as with
  | nil =>
    cases as with
    | nil => exact iff_of_true rfl .nil
    | cons a as => exact iff_of_false (by simp [greedyMatch]) nofun
  | cons b bs ih =>
    cases as with
    | nil => exact iff_of_true rfl .nil
    | cons a as =>
      rw [greedyMatch]
      by_cases hab : r a b = true
      · rw [if_pos hab, ih]
        refine ⟨fun h => .cons hab h, fun h => ?_⟩
        -- what `a` is given is `b` or comes later: the rest is given what comes after `b`
        cases h with
        | cons _ h => exact h
        | cons_right h => exact SublistForall₂.of_cons h
      · rw [if_neg hab, ih]
        refine ⟨fun h => .cons_right h, fun h => ?_⟩
        cases h with
        | cons h _ => exact absurd h hab
        | cons_right h => exact h

/-- There is none when there are too few. -/
theorem greedyMatch_of_length_lt (h : bs.length < as.length) :
    greedyMatch r as bs = false := by
  rw [← Bool.not_eq_true, greedyMatch_iff]
  rintro ⟨f, hmono, -⟩
  have hle := Fintype.card_le_of_injective f hmono.injective
  rw [Fintype.card_fin, Fintype.card_fin] at hle
  omega

end Lib
