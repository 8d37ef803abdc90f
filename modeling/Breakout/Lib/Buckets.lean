/-
# Buckets

An index that groups elements by a value.  In each of several groups an element may have a value;
the index has, for a group and a value, the finite set of the elements with that value, and
nothing where there are none.

`Buckets.leave` and `Buckets.join` are the two steps by which a program moves an element, and
`Buckets.ext` says that the index is determined by the values.
-/
import Mathlib.Data.Finset.Basic
import Mathlib.Tactic

namespace Lib

variable {α κ β : Type} [DecidableEq α] [DecidableEq κ] [DecidableEq β]

/-- The sets are those of the elements by their value: `rank (a, c)` is the value of `a` in the
group `c`, if it has one. -/
structure Buckets (sets : κ × β → Option (Finset α)) (rank : α × κ → Option β) : Prop where
  mem : ∀ a c b, a ∈ (sets (c, b)).getD ∅ ↔ rank (a, c) = some b
  ne_empty : ∀ k, sets k ≠ some ∅

namespace Buckets

variable {sets sets' : κ × β → Option (Finset α)} {rank : α × κ → Option β} {a : α} {c : κ} {b : β}

omit [DecidableEq α] [DecidableEq κ] [DecidableEq β] in
/-- **The values determine the index.** -/
theorem ext (h : Buckets sets rank) (h' : Buckets sets' rank) : sets = sets' := by
  funext k
  have hmem : (sets k).getD ∅ = (sets' k).getD ∅ := by
    ext a
    rw [h.mem a k.1 k.2, h'.mem a k.1 k.2]
  have hne := h.ne_empty k
  have hne' := h'.ne_empty k
  cases hs : sets k <;> cases hs' : sets' k <;> simp_all

omit [DecidableEq α] [DecidableEq κ] [DecidableEq β] in
theorem none : Buckets (fun _ : κ × β => Option.none) fun _ : α × κ => (Option.none : Option β) :=
  ⟨by simp, by simp⟩

omit [DecidableEq α] [DecidableEq κ] [DecidableEq β] in
/-- Where an element has a value there is a set. -/
theorem isSome (h : Buckets sets rank) (hrank : rank (a, c) = some b) :
    (sets (c, b)).isSome = true := by
  have hmem := (h.mem a c b).mpr hrank
  cases hs : sets (c, b) with
  | none => simp [hs] at hmem
  | some s => rfl

/-- An element gives up its value. -/
theorem leave (h : Buckets sets rank) (hrank : rank (a, c) = some b) {s : Finset α}
    (hs : s = ((sets (c, b)).getD ∅).erase a) :
    Buckets (Function.update sets (c, b) (if s = ∅ then .none else some s))
      (Function.update rank (a, c) .none) := by
  have hget : (if s = ∅ then .none else some s : Option (Finset α)).getD ∅ = s := by
    split
    · next hempty => exact hempty.symm
    · rfl
  refine ⟨fun a' c' b' => ?_, fun k => ?_⟩
  · by_cases hk : (c', b') = (c, b)
    · obtain ⟨rfl, rfl⟩ := Prod.mk.inj hk
      rw [Function.update_self, hget, hs, Finset.mem_erase, h.mem]
      by_cases ha : a' = a
      · subst ha
        simp
      · rw [Function.update_of_ne (by simp [ha])]
        simp [ha]
    · rw [Function.update_of_ne hk, h.mem]
      by_cases ha : (a', c') = (a, c)
      · obtain ⟨rfl, rfl⟩ := Prod.mk.inj ha
        rw [Function.update_self, hrank]
        have hne : b ≠ b' := fun hb => hk (by rw [hb])
        simp [hne]
      · rw [Function.update_of_ne ha]
  · by_cases hk : k = (c, b)
    · subst hk
      rw [Function.update_self]
      split
      · exact nofun
      · next hempty => exact fun heq => hempty (Option.some_inj.mp heq)
    · rw [Function.update_of_ne hk]
      exact h.ne_empty k

/-- An element without a value gets one. -/
theorem join (h : Buckets sets rank) (hrank : rank (a, c) = .none) (b : β) :
    a ∉ (sets (c, b)).getD ∅ ∧
      Buckets (Function.update sets (c, b) (some (insert a ((sets (c, b)).getD ∅))))
        (Function.update rank (a, c) (some b)) := by
  refine ⟨fun hmem => ?_, fun a' c' b' => ?_, fun k => ?_⟩
  · rw [h.mem, hrank] at hmem
    cases hmem
  · by_cases hk : (c', b') = (c, b)
    · obtain ⟨rfl, rfl⟩ := Prod.mk.inj hk
      rw [Function.update_self, Option.getD_some, Finset.mem_insert, h.mem]
      by_cases ha : a' = a
      · subst ha
        simp
      · rw [Function.update_of_ne (by simp [ha])]
        simp [ha]
    · rw [Function.update_of_ne hk, h.mem]
      by_cases ha : (a', c') = (a, c)
      · obtain ⟨rfl, rfl⟩ := Prod.mk.inj ha
        rw [Function.update_self, hrank]
        have hne : b ≠ b' := fun hb => hk (by rw [hb])
        simp [hne]
      · rw [Function.update_of_ne ha]
  · by_cases hk : k = (c, b)
    · subst hk
      rw [Function.update_self, Ne, Option.some_inj]
      exact Finset.insert_ne_empty _ _
    · rw [Function.update_of_ne hk]
      exact h.ne_empty k

end Buckets

end Lib
