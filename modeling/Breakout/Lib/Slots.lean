/-
# A vector whose elements know where they are

To pick one of many elements at random a program keeps them in a vector, and with each element its
position, so that it can be taken out again: it is swapped with the last one, which is popped.  `Slots`
says that the positions are right, from which the elements are distinct; pushing, swapping and popping
keep it.
-/
import Mathlib.Tactic

namespace Lib

variable {ι : Type}

/-- Every element is at its position. -/
def Slots (l : List ι) (pos : ι → Int) : Prop := ∀ (i : Nat) (n : ι), l[i]? = some n → pos n = i

namespace Slots

variable {l : List ι} {pos pos' : ι → Int} {i j : Nat} {a b n : ι}

theorem nil : Slots ([] : List ι) pos := by
  intro i n h
  cases h

theorem congr (h : Slots l pos) (heq : ∀ n ∈ l, pos' n = pos n) : Slots l pos' :=
  fun i n hn => (heq n (List.mem_of_getElem? hn)).trans (h i n hn)

theorem index_unique (h : Slots l pos) (hi : l[i]? = some n) (hj : l[j]? = some n) : i = j := by
  have hpos := h i n hi
  rw [h j n hj] at hpos
  exact_mod_cast hpos.symm

theorem nodup (h : Slots l pos) : l.Nodup := by
  rw [List.nodup_iff_getElem?_ne_getElem?]
  intro i j hij hj heq
  have hsome : l[j]? = some l[j] := List.getElem?_eq_getElem hj
  exact absurd (h.index_unique (heq.trans hsome) hsome) (by omega)

theorem getElem?_pos (h : Slots l pos) (hn : n ∈ l) : ∃ i : Nat, pos n = i ∧ l[i]? = some n := by
  obtain ⟨i, hi⟩ := List.mem_iff_getElem?.mp hn
  exact ⟨i, h i n hi, hi⟩

variable [DecidableEq ι]

theorem push (h : Slots l pos) (hn : n ∉ l) : Slots (l ++ [n]) (Function.update pos n l.length) := by
  intro i m hm
  rw [List.getElem?_append] at hm
  split at hm
  · have hne : m ≠ n := fun heq => hn (heq ▸ List.mem_of_getElem? hm)
    rw [Function.update_of_ne hne]
    exact h i m hm
  · next hlt =>
    have hi : i - l.length = 0 := by
      by_contra hne
      rw [List.getElem?_singleton, if_neg hne] at hm
      cases hm
    rw [hi] at hm
    cases hm
    rw [Function.update_self]
    omega

omit [DecidableEq ι] in
theorem swap_perm (ha : l[i]? = some a) (hb : l[j]? = some b) : ((l.set i b).set j a).Perm l := by
  obtain ⟨hi, rfl⟩ := List.getElem?_eq_some_iff.mp ha
  obtain ⟨hj, rfl⟩ := List.getElem?_eq_some_iff.mp hb
  exact List.set_set_perm hi hj

/-- Two elements change places. -/
theorem swap (h : Slots l pos) (ha : l[i]? = some a) (hb : l[j]? = some b) :
    Slots ((l.set i b).set j a) (Function.update (Function.update pos a j) b i) := by
  obtain ⟨hi, -⟩ := List.getElem?_eq_some_iff.mp ha
  obtain ⟨hj, -⟩ := List.getElem?_eq_some_iff.mp hb
  intro k m hm
  rw [List.getElem?_set] at hm
  split at hm
  · next hjk =>
    -- the first element, now at the second place
    subst hjk
    rw [if_pos (by rwa [List.length_set])] at hm
    obtain rfl : a = m := Option.some.inj hm
    by_cases hab : a = b
    · subst hab
      rw [Function.update_self, h.index_unique ha hb]
    · rw [Function.update_of_ne hab, Function.update_self]
  · next hjk =>
    rw [List.getElem?_set] at hm
    split at hm
    · next hik =>
      subst hik
      obtain rfl : b = m := Option.some.inj hm
      rw [Function.update_self]
    · next hik =>
      have hma : m ≠ a := fun heq => hik (h.index_unique ha (heq ▸ hm))
      have hmb : m ≠ b := fun heq => hjk (h.index_unique hb (heq ▸ hm))
      rw [Function.update_of_ne hmb, Function.update_of_ne hma]
      exact h k m hm

omit [DecidableEq ι] in
theorem dropLast (h : Slots l pos) : Slots l.dropLast pos := by
  intro i n hn
  rw [List.getElem?_dropLast] at hn
  split at hn
  · exact h i n hn
  · cases hn

omit [DecidableEq ι] in
/-- What is left when the last element is popped. -/
theorem mem_dropLast (h : Slots l pos) (hlast : l[l.length - 1]? = some b) :
    n ∈ l.dropLast ↔ n ∈ l ∧ n ≠ b := by
  obtain ⟨hlt, hb⟩ := List.getElem?_eq_some_iff.mp hlast
  constructor
  · intro hn
    obtain ⟨i, hi⟩ := List.mem_iff_getElem?.mp hn
    rw [List.getElem?_dropLast] at hi
    split at hi
    · next hlt' =>
      refine ⟨List.mem_of_getElem? hi, fun heq => ?_⟩
      subst heq
      have := h.index_unique hi hlast
      omega
    · cases hi
  · rintro ⟨hn, hne⟩
    obtain ⟨i, hi⟩ := List.mem_iff_getElem?.mp hn
    obtain ⟨hil, -⟩ := List.getElem?_eq_some_iff.mp hi
    have hlt' : i < l.length - 1 := by
      by_contra hge
      have heq : i = l.length - 1 := by omega
      rw [heq, hlast, Option.some.injEq] at hi
      exact hne hi.symm
    refine List.mem_iff_getElem?.mpr ⟨i, ?_⟩
    rw [List.getElem?_dropLast, if_pos hlt', hi]

end Slots

end Lib
