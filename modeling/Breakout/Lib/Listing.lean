/-
# A map of objects and the listing of their tags

Each object of a map has tags.  The listing has for a tag the bucket of the keys whose objects have
it.  It is looked up with an operator that enters an empty bucket where there was none, so that
besides what is listed (`Listed`) there is a second question, which buckets are empty (`Idle`).

`Lists` says that the listing is the objects' own; `enlistAll` and `strikeAll` keep it so, and what
each operation does to the idle buckets is said beside it.
-/
import Mathlib.Tactic

namespace Lib

set_option linter.unusedSectionVars false

open Std

variable {K T X : Type} [Ord K] [TransOrd K] [LawfulEqOrd K] [Ord T] [TransOrd T] [LawfulEqOrd T]

/-- Buckets of keys by their tags. -/
abbrev Listing (T K : Type) [Ord T] [Ord K] := ExtTreeMap T (ExtTreeSet K)

namespace Listing

variable {index : Listing T K} {t t' : T} {k k' : K}

/-- The key is in the bucket of the tag. -/
def Listed (index : Listing T K) (t : T) (k : K) : Prop := k ∈ index.getD t ∅

/-- The tag has a bucket with nothing in it. -/
def Idle (index : Listing T K) (t : T) : Prop := index[t]? = some ∅

/-- The lookup that enters an empty bucket. -/
def touch (index : Listing T K) (t : T) : Listing T K :=
  if t ∈ index then index else index.insert t ∅

/-- `index[t].insert(k)` -/
def enlist (index : Listing T K) (t : T) (k : K) : Listing T K :=
  index.insert t ((index.getD t ∅).insert k)

/-- `index[t].erase(k)`, and the bucket with it if that leaves nothing in it. -/
def strike (index : Listing T K) (t : T) (k : K) : Listing T K :=
  if ((index.getD t ∅).erase k).isEmpty then index.erase t
  else index.insert t ((index.getD t ∅).erase k)

/-- The key enters the bucket of each of the tags. -/
def enlistAll (k : K) (l : List T) (index : Listing T K) : Listing T K :=
  l.foldl (fun index t => index.enlist t k) index

/-- The key leaves the bucket of each of the tags. -/
def strikeAll (k : K) (l : List T) (index : Listing T K) : Listing T K :=
  l.foldl (fun index t => index.strike t k) index

/-! ## 1. Lookups -/

section

variable {V : Type} {m : ExtTreeMap T V} {v d : V}

omit [TransOrd T] in
theorem compare_ne (h : t' ≠ t) : ¬ compare t t' = .eq :=
  fun heq => h (LawfulEqOrd.eq_of_compare heq).symm

theorem getElem?_insert_of_ne (h : t' ≠ t) : (m.insert t v)[t']? = m[t']? := by
  rw [ExtTreeMap.getElem?_insert, if_neg (compare_ne h)]

theorem getElem?_erase_of_ne (h : t' ≠ t) : (m.erase t)[t']? = m[t']? := by
  rw [ExtTreeMap.getElem?_erase, if_neg (compare_ne h)]

end

/-! ## 2. One bucket -/

omit [LawfulEqOrd K] [LawfulEqOrd T] in
theorem listed_iff : Listed index t k ↔ ∃ b, index[t]? = some b ∧ k ∈ b := by
  unfold Listed
  rw [ExtTreeMap.getD_eq_getD_getElem?]
  cases index[t]? with
  | none => simp
  | some b => simp

/-- What is listed under a tag, and whether it is idle, is a matter of its bucket. -/
theorem listed_congr {index' : Listing T K} (h : index'[t]? = index[t]?) :
    Listed index' t k ↔ Listed index t k := by
  rw [listed_iff, listed_iff, h]

/-- A tag with a bucket is idle, or something is listed under it. -/
theorem mem_iff : t ∈ index ↔ Idle index t ∨ ∃ k, Listed index t k := by
  rw [ExtTreeMap.mem_iff_isSome_getElem?, Option.isSome_iff_exists]
  constructor
  · rintro ⟨b, hb⟩
    by_cases hempty : b = ∅
    · rw [hempty] at hb
      exact Or.inl hb
    · have hmem : ∃ k, k ∈ b := by
        by_contra hnone
        refine hempty (ExtTreeSet.ext_mem fun k => ⟨fun hk => absurd ⟨k, hk⟩ hnone, fun hk => ?_⟩)
        exact absurd hk ExtTreeSet.not_mem_empty
      obtain ⟨k, hk⟩ := hmem
      exact Or.inr ⟨k, listed_iff.mpr ⟨b, hb, hk⟩⟩
  · rintro (hidle | ⟨k, hk⟩)
    · exact ⟨∅, hidle⟩
    · obtain ⟨b, hb, -⟩ := listed_iff.mp hk
      exact ⟨b, hb⟩

theorem not_listed_of_idle (h : Idle index t) : ¬ Listed index t k := by
  intro hk
  obtain ⟨b, hb, hmem⟩ := listed_iff.mp hk
  rw [h, Option.some_inj] at hb
  subst hb
  exact ExtTreeSet.not_mem_empty hmem

/-- `touch` leaves every bucket as it is that exists. -/
theorem getElem?_touch (index : Listing T K) (t t' : T) : (index.touch t)[t']? = index[t']? ∨
    (t' = t ∧ index[t]? = none ∧ (index.touch t)[t']? = some ∅) := by
  unfold touch
  by_cases hmem : t ∈ index
  · rw [if_pos hmem]
    exact Or.inl rfl
  · rw [if_neg hmem]
    by_cases heq : t' = t
    · subst heq
      exact Or.inr ⟨rfl, ExtTreeMap.getElem?_eq_none hmem, ExtTreeMap.getElem?_insert_self⟩
    · exact Or.inl (getElem?_insert_of_ne heq)

@[simp] theorem listed_touch : Listed (index.touch t) t' k ↔ Listed index t' k := by
  rcases getElem?_touch index t t' with hsame | ⟨rfl, hnone, hempty⟩
  · exact listed_congr hsame
  · rw [listed_iff, listed_iff, hnone, hempty]
    simp

theorem idle_touch : Idle (index.touch t) t' ↔ Idle index t' ∨ (t' = t ∧ t ∉ index) := by
  unfold Idle touch
  by_cases hmem : t ∈ index
  · simp [hmem]
  · rw [if_neg hmem]
    by_cases heq : t' = t
    · subst heq
      simp [hmem]
    · simp [getElem?_insert_of_ne heq, heq]

theorem mem_touch : t' ∈ index.touch t ↔ t' ∈ index ∨ t' = t := by
  unfold touch
  by_cases hmem : t ∈ index
  · rw [if_pos hmem]
    exact ⟨Or.inl, fun h => h.elim id fun heq => heq ▸ hmem⟩
  · rw [if_neg hmem, ExtTreeMap.mem_insert, LawfulEqOrd.compare_eq_iff_eq]
    tauto

theorem listed_enlist :
    Listed (index.enlist t k) t' k' ↔ Listed index t' k' ∨ (t' = t ∧ k' = k) := by
  unfold enlist
  by_cases heq : t' = t
  · subst heq
    unfold Listed
    rw [ExtTreeMap.getD_insert_self, ExtTreeSet.mem_insert, LawfulEqOrd.compare_eq_iff_eq]
    simp [or_comm, eq_comm]
  · rw [listed_congr (getElem?_insert_of_ne heq)]
    simp [heq]

theorem idle_enlist : Idle (index.enlist t k) t' ↔ Idle index t' ∧ t' ≠ t := by
  unfold Idle enlist
  by_cases heq : t' = t
  · subst heq
    simp
  · simp [getElem?_insert_of_ne heq, heq]

theorem listed_strike :
    Listed (index.strike t k) t' k' ↔ Listed index t' k' ∧ ¬ (t' = t ∧ k' = k) := by
  unfold strike
  by_cases heq : t' = t
  · subst heq
    have herase : k' ∈ (index.getD t' ∅).erase k ↔ Listed index t' k' ∧ k' ≠ k := by
      unfold Listed
      rw [ExtTreeSet.mem_erase, Ne, LawfulEqOrd.compare_eq_iff_eq]
      tauto
    split
    · next hempty =>
      rw [ExtTreeSet.isEmpty_iff.mp hempty] at herase
      unfold Listed at herase ⊢
      rw [ExtTreeMap.getD_erase_self]
      simpa using herase
    · unfold Listed at herase ⊢
      rw [ExtTreeMap.getD_insert_self]
      simpa using herase
  · split
    · rw [listed_congr (getElem?_erase_of_ne heq)]
      simp [heq]
    · rw [listed_congr (getElem?_insert_of_ne heq)]
      simp [heq]

theorem idle_strike : Idle (index.strike t k) t' ↔ Idle index t' ∧ t' ≠ t := by
  unfold Idle strike
  by_cases heq : t' = t
  · subst heq
    split
    · simp
    · next hne =>
      have hnonempty : (index.getD t' ∅).erase k ≠ ∅ := fun h => hne (ExtTreeSet.isEmpty_iff.mpr h)
      simp [hnonempty]
  · split
    · simp [getElem?_erase_of_ne heq, heq]
    · simp [getElem?_insert_of_ne heq, heq]

/-! ## 3. All the tags of an object -/

variable {l : List T}

theorem listed_enlistAll :
    ∀ {index : Listing T K},
      Listed (enlistAll k l index) t' k' ↔ Listed index t' k' ∨ (t' ∈ l ∧ k' = k) := by
  induction l with
  | nil =>
    intro index
    simp [enlistAll]
  | cons t l ih =>
    intro index
    have hstep : enlistAll k (t :: l) index = enlistAll k l (index.enlist t k) := rfl
    rw [hstep, ih, listed_enlist, List.mem_cons]
    tauto

theorem idle_enlistAll :
    ∀ {index : Listing T K}, Idle (enlistAll k l index) t' ↔ Idle index t' ∧ t' ∉ l := by
  induction l with
  | nil =>
    intro index
    simp [enlistAll]
  | cons t l ih =>
    intro index
    have hstep : enlistAll k (t :: l) index = enlistAll k l (index.enlist t k) := rfl
    rw [hstep, ih, idle_enlist, List.mem_cons]
    tauto

theorem listed_strikeAll :
    ∀ {index : Listing T K},
      Listed (strikeAll k l index) t' k' ↔ Listed index t' k' ∧ ¬ (t' ∈ l ∧ k' = k) := by
  induction l with
  | nil =>
    intro index
    simp [strikeAll]
  | cons t l ih =>
    intro index
    have hstep : strikeAll k (t :: l) index = strikeAll k l (index.strike t k) := rfl
    rw [hstep, ih, listed_strike, List.mem_cons]
    tauto

theorem idle_strikeAll :
    ∀ {index : Listing T K}, Idle (strikeAll k l index) t' ↔ Idle index t' ∧ t' ∉ l := by
  induction l with
  | nil =>
    intro index
    simp [strikeAll]
  | cons t l ih =>
    intro index
    have hstep : strikeAll k (t :: l) index = strikeAll k l (index.strike t k) := rfl
    rw [hstep, ih, idle_strike, List.mem_cons]
    tauto

end Listing

/-! ## 4. The listing of a map of objects -/

/-- A key is listed under a tag exactly when its object has the tag. -/
def Lists (tags : X → List T) (objs : ExtTreeMap K X) (index : Listing T K) : Prop :=
  ∀ t k, Listing.Listed index t k ↔ ∃ x, objs[k]? = some x ∧ t ∈ tags x

namespace Lists

open Listing

variable {tags : X → List T} {objs : ExtTreeMap K X} {index : Listing T K} {k : K} {x : X}

theorem empty : Lists tags (∅ : ExtTreeMap K X) (∅ : Listing T K) := by
  intro t k
  simp [Listed]

theorem touch (h : Lists tags objs index) (t : T) : Lists tags objs (index.touch t) := by
  intro t' k
  rw [listed_touch, h t' k]

/-- A new object is listed under its tags. -/
theorem enlistAll (h : Lists tags objs index) (hk : objs[k]? = none) :
    Lists tags (objs.insert k x) (index.enlistAll k (tags x)) := by
  intro t k'
  rw [listed_enlistAll, h t k']
  by_cases heq : k' = k
  · subst heq
    simp [hk]
  · simp [getElem?_insert_of_ne heq, heq]

/-- An object that goes is struck off under its tags. -/
theorem strikeAll (h : Lists tags objs index) (hk : objs[k]? = some x) :
    Lists tags (objs.erase k) (index.strikeAll k (tags x)) := by
  intro t k'
  rw [listed_strikeAll, h t k']
  by_cases heq : k' = k
  · subst heq
    simp [hk]
  · simp [getElem?_erase_of_ne heq, heq]

end Lists

end Lib
