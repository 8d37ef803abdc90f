/-
# A map of objects and the index of their slots

Each object of a map fills some slots, one after another.  The index says for a slot which object
fills it and with which of its places.  It is the inverse of the slots (`InverseOf`) only if no
slot is filled twice, neither by one object (`InverseOf.nodup`) nor by two (`InverseOf.eq_of_mem`).

An object is entered slot by slot, and taken out slot by slot.  `InverseOf.enter` and
`InverseOf.takeOut` say when the index stays the inverse.
-/
import Mathlib.Data.List.Nodup
import Mathlib.Logic.Function.Basic
import Mathlib.Tactic

namespace Lib

variable {K X S : Type} {slots : X → List S} {objs : K → Option X}
  {index : S → Option (K × Nat)} {k : K} {x : X}

/-- The index is the inverse of the slots. -/
def InverseOf (slots : X → List S) (objs : K → Option X) (index : S → Option (K × Nat)) : Prop :=
  ∀ s k i, index s = some (k, i) ↔ ∃ x, objs k = some x ∧ (slots x)[i]? = some s

section

variable [DecidableEq S]

/-- The slots entered for an object, from place `i` on. -/
def enterSlots (k : K) : Nat → List S → (S → Option (K × Nat)) → S → Option (K × Nat)
  | _, [], index => index
  | i, s :: l, index => enterSlots k (i + 1) l (Function.update index s (some (k, i)))

/-- The slots taken out. -/
def takeOutSlots : List S → (S → Option (K × Nat)) → S → Option (K × Nat)
  | [], index => index
  | s :: l, index => takeOutSlots l (Function.update index s none)

theorem enterSlots_of_not_mem {s : S} {l : List S} (h : s ∉ l) :
    ∀ {i : Nat} {index : S → Option (K × Nat)}, enterSlots k i l index s = index s := by
  induction l with
  | nil => exact rfl
  | cons a l ih =>
    intro i index
    rw [List.mem_cons, not_or] at h
    rw [enterSlots, ih h.2, Function.update_of_ne h.1]

theorem enterSlots_getElem {l : List S} (hnd : l.Nodup) :
    ∀ {i j : Nat} {s : S} {index : S → Option (K × Nat)}, l[j]? = some s →
      enterSlots k i l index s = some (k, i + j) := by
  induction l with
  | nil =>
    intro i j s index h
    cases h
  | cons a l ih =>
    intro i j s index h
    obtain ⟨ha, hl⟩ := List.nodup_cons.mp hnd
    cases j with
    | zero =>
      cases h
      rw [enterSlots, enterSlots_of_not_mem ha, Function.update_self, Nat.add_zero]
    | succ j =>
      rw [enterSlots, ih hl h]
      congr 2
      omega

theorem takeOutSlots_eq {l : List S} {s : S} :
    ∀ {index : S → Option (K × Nat)},
      takeOutSlots l index s = if s ∈ l then none else index s := by
  induction l with
  | nil =>
    intro index
    simp [takeOutSlots]
  | cons a l ih =>
    intro index
    rw [takeOutSlots, ih]
    by_cases hs : s = a
    · simp [hs]
    · simp [hs]

end

/-- An empty map and an empty index. -/
theorem InverseOf.empty : InverseOf slots (fun _ : K => none) fun _ => none := by
  intro s k i
  simp

namespace InverseOf

variable (h : InverseOf slots objs index)

include h

/-- A slot is filled if and only if an object has it. -/
theorem isSome_iff {s : S} :
    (index s).isSome = true ↔ ∃ k x, objs k = some x ∧ s ∈ slots x := by
  rw [Option.isSome_iff_exists]
  constructor
  · rintro ⟨⟨k, i⟩, hindex⟩
    obtain ⟨x, hx, hs⟩ := (h s k i).mp hindex
    exact ⟨k, x, hx, List.mem_of_getElem? hs⟩
  · rintro ⟨k, x, hx, hs⟩
    obtain ⟨i, hi⟩ := List.mem_iff_getElem?.mp hs
    exact ⟨(k, i), (h s k i).mpr ⟨x, hx, hi⟩⟩

/-- No two objects fill one slot. -/
theorem eq_of_mem {k' : K} {x' : X} {s : S} (hx : objs k = some x) (hx' : objs k' = some x')
    (hs : s ∈ slots x) (hs' : s ∈ slots x') : k = k' := by
  obtain ⟨i, hi⟩ := List.mem_iff_getElem?.mp hs
  obtain ⟨j, hj⟩ := List.mem_iff_getElem?.mp hs'
  have hk := (h s k i).mpr ⟨x, hx, hi⟩
  have hk' := (h s k' j).mpr ⟨x', hx', hj⟩
  rw [hk, Option.some_inj, Prod.mk.injEq] at hk'
  exact hk'.1

variable [DecidableEq K] [DecidableEq S]

/-- A new object, whose slots are free. -/
theorem enter (hk : objs k = none) (hnd : (slots x).Nodup) (hfree : ∀ s ∈ slots x, index s = none) :
    InverseOf slots (Function.update objs k (some x)) (enterSlots k 0 (slots x) index) := by
  intro s k' i
  by_cases hs : s ∈ slots x
  · obtain ⟨j, hj⟩ := List.mem_iff_getElem?.mp hs
    rw [enterSlots_getElem hnd hj, Nat.zero_add, Option.some_inj, Prod.mk.injEq]
    constructor
    · rintro ⟨rfl, rfl⟩
      exact ⟨x, Function.update_self .., hj⟩
    · rintro ⟨x', hx', hi⟩
      by_cases hkk : k' = k
      · subst hkk
        rw [Function.update_self, Option.some_inj] at hx'
        subst hx'
        have hlt := (List.getElem?_eq_some_iff.mp hj).1
        exact ⟨rfl, (List.getElem?_inj hlt hnd).mp (hj.trans hi.symm)⟩
      · rw [Function.update_of_ne hkk] at hx'
        have hsome := (h s k' i).mpr ⟨x', hx', hi⟩
        rw [hfree s hs] at hsome
        cases hsome
  · rw [enterSlots_of_not_mem hs, h s k' i]
    constructor
    · rintro ⟨x', hx', hi⟩
      refine ⟨x', ?_, hi⟩
      rw [Function.update_of_ne, hx']
      rintro rfl
      rw [hk] at hx'
      cases hx'
    · rintro ⟨x', hx', hi⟩
      by_cases hkk : k' = k
      · subst hkk
        rw [Function.update_self, Option.some_inj] at hx'
        subst hx'
        exact absurd (List.mem_of_getElem? hi) hs
      · rw [Function.update_of_ne hkk] at hx'
        exact ⟨x', hx', hi⟩

/-- An object that goes, with its slots. -/
theorem takeOut (hx : objs k = some x) {l : List S} (hl : ∀ s, s ∈ l ↔ s ∈ slots x) :
    InverseOf slots (Function.update objs k none) (takeOutSlots l index) := by
  intro s k' i
  rw [takeOutSlots_eq]
  by_cases hs : s ∈ l
  · rw [if_pos hs]
    constructor
    · rintro ⟨⟩
    · rintro ⟨x', hx', hi⟩
      by_cases hkk : k' = k
      · rw [hkk, Function.update_self] at hx'
        cases hx'
      · rw [Function.update_of_ne hkk] at hx'
        exact absurd (h.eq_of_mem hx' hx (List.mem_of_getElem? hi) ((hl s).mp hs)) hkk
  · rw [if_neg hs, h s k' i]
    constructor
    · rintro ⟨x', hx', hi⟩
      refine ⟨x', ?_, hi⟩
      rw [Function.update_of_ne, hx']
      rintro rfl
      rw [hx, Option.some_inj] at hx'
      subst hx'
      exact hs ((hl s).mpr (List.mem_of_getElem? hi))
    · rintro ⟨x', hx', hi⟩
      by_cases hkk : k' = k
      · rw [hkk, Function.update_self] at hx'
        cases hx'
      · rw [Function.update_of_ne hkk] at hx'
        exact ⟨x', hx', hi⟩

end InverseOf

end Lib
