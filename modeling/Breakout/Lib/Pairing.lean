/-
# Giving one thing to each key

Things are looked at one after the other, and each is given to the first key that has none yet and
that it fits; what fits no such key is dropped.  A thing can then have taken a key from another.
Not so when nothing fits two keys: whatever the order, a key is left with none only when nothing
fits it (`isSome_lookup_giveAll`).
-/
import Mathlib.Tactic

namespace Lib

variable {α κ : Type} [BEq κ] (fits : α → κ → Bool) (keys : List κ)

/-- The first key that has none and that `a` fits is given it. -/
def giveOne (given : List (κ × α)) (a : α) : List (κ × α) :=
  match keys.find? fun k => (given.lookup k).isNone && fits a k with
  | some k => (k, a) :: given
  | none => given

/-- One after the other. -/
def giveAll (l : List α) : List (κ × α) := l.foldl (giveOne fits keys) []

variable {fits keys} {given : List (κ × α)} {a b : α} {k : κ} {l : List α}

theorem lookup_giveOne [LawfulBEq κ] (h : (giveOne fits keys given a).lookup k = some b) :
    given.lookup k = some b ∨ (b = a ∧ k ∈ keys ∧ fits a k = true) := by
  unfold giveOne at h
  split at h
  · next k' hfind =>
    rw [List.lookup_cons] at h
    split at h
    · next hsame =>
      obtain rfl := eq_of_beq hsame
      have hfit := List.find?_some hfind
      rw [Bool.and_eq_true] at hfit
      exact Or.inr ⟨(Option.some.inj h).symm, List.mem_of_find?_eq_some hfind, hfit.2⟩
    · exact Or.inl h
  · exact Or.inl h

/-- **Whatever a key is given fits it.** -/
theorem lookup_giveAll [LawfulBEq κ] (h : (giveAll fits keys l).lookup k = some b) :
    b ∈ l ∧ k ∈ keys ∧ fits b k = true := by
  unfold giveAll at h
  induction l using List.reverseRecOn with
  | nil => cases h
  | append_singleton l a ih =>
    rw [List.foldl_append, List.foldl_cons, List.foldl_nil] at h
    rcases lookup_giveOne h with h | ⟨rfl, hkey, hfit⟩
    · obtain ⟨hmem, hrest⟩ := ih h
      exact ⟨List.mem_append_left _ hmem, hrest⟩
    · exact ⟨List.mem_append_right _ List.mem_cons_self, hkey, hfit⟩

/-- A key keeps what it has. -/
theorem isSome_lookup_giveOne (h : (given.lookup k).isSome = true) :
    ((giveOne fits keys given a).lookup k).isSome = true := by
  unfold giveOne
  split
  · rw [List.lookup_cons]
    split
    · rfl
    · exact h
  · exact h

/-- A key that nothing else could be taken for is given the thing, or has one. -/
theorem isSome_lookup_giveOne_of_fits [LawfulBEq κ]
    (hone : ∀ k' ∈ keys, fits a k' = true → k' = k)
    (hkey : k ∈ keys) (hfit : fits a k = true) :
    ((giveOne fits keys given a).lookup k).isSome = true := by
  cases hhas : given.lookup k with
  | some b => exact isSome_lookup_giveOne (hhas ▸ rfl)
  | none =>
    unfold giveOne
    split
    · next k' hfind =>
      have hfit' := List.find?_some hfind
      rw [Bool.and_eq_true] at hfit'
      rw [hone k' (List.mem_of_find?_eq_some hfind) hfit'.2, List.lookup_cons, beq_self_eq_true]
      rfl
    · next hfind =>
      have hnot := List.find?_eq_none.mp hfind k hkey
      rw [hhas, hfit] at hnot
      exact absurd rfl hnot

/-- **When nothing fits two keys, a key is given something if anything fits it.** -/
theorem isSome_lookup_giveAll [LawfulBEq κ]
    (hone : ∀ a ∈ l, ∀ k ∈ keys, ∀ k' ∈ keys, fits a k = true → fits a k' = true → k' = k)
    (hkey : k ∈ keys) :
    ((giveAll fits keys l).lookup k).isSome = true ↔ ∃ a ∈ l, fits a k = true := by
  constructor
  · intro h
    obtain ⟨b, hb⟩ := Option.isSome_iff_exists.mp h
    obtain ⟨hmem, -, hfit⟩ := lookup_giveAll hb
    exact ⟨b, hmem, hfit⟩
  · rintro ⟨a, ha, hfit⟩
    unfold giveAll
    induction l using List.reverseRecOn with
    | nil => cases ha
    | append_singleton l b ih =>
      rw [List.foldl_append, List.foldl_cons, List.foldl_nil]
      rcases List.mem_append.mp ha with ha | ha
      · exact isSome_lookup_giveOne
          (ih (fun x hx => hone x (List.mem_append_left _ hx)) ha)
      · obtain rfl := List.mem_singleton.mp ha
        exact isSome_lookup_giveOne_of_fits
          (fun k' hk' hfit' => hone a (List.mem_append_right _ List.mem_cons_self) k hkey k' hk'
            hfit hfit') hkey hfit

end Lib
