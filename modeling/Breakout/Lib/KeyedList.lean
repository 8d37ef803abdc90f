/-
# Maps as lists of entries

A map whose order plays no part, as a list of entries with keys of their own.  What is in the list
is what is found (`find_eq_some`), and a list is, but for the order, an entry of it and the list
without it (`entries_perm`): so a sum over the entries splits into what one of them adds and the
rest.
-/
import Mathlib.Tactic

namespace Lib

open scoped List

/-- Entries with keys of their own. -/
structure KeyedList (K V : Type) where
  entries : List (K × V)
  nodup : (entries.map Prod.fst).Nodup

namespace KeyedList

variable {K V : Type} [DecidableEq K] {m : KeyedList K V} {k x : K} {v : V}

def find (m : KeyedList K V) (k : K) : Option V :=
  (m.entries.find? fun e => decide (e.1 = k)).map Prod.snd

def erase (m : KeyedList K V) (k : K) : KeyedList K V :=
  ⟨m.entries.filter fun e => decide (e.1 ≠ k), m.nodup.sublist (List.filter_sublist.map _)⟩

/-- `m[k] = v` -/
def set (m : KeyedList K V) (k : K) (v : V) : KeyedList K V :=
  ⟨(k, v) :: (m.erase k).entries, by
    rw [List.map_cons, List.nodup_cons]
    refine ⟨fun hmem => ?_, (m.erase k).nodup⟩
    obtain ⟨e, he, hkey⟩ := List.mem_map.mp hmem
    exact of_decide_eq_true (List.mem_filter.mp he).2 hkey⟩

/-- The values changed, each as `f` has it for its key. -/
def mapVals (f : K → V → V) (m : KeyedList K V) : KeyedList K V :=
  ⟨m.entries.map fun e => (e.1, f e.1 e.2), by
    rw [List.map_map]
    exact m.nodup⟩

/-- **What is found is in the list.** -/
theorem find_eq_some : m.find k = some v ↔ (k, v) ∈ m.entries := by
  unfold find
  constructor
  · intro h
    obtain ⟨e, he, rfl⟩ := Option.map_eq_some_iff.mp h
    have hkey : e.1 = k := by simpa using List.find?_some he
    exact hkey ▸ List.mem_of_find?_eq_some he
  · intro h
    cases hfind : m.entries.find? fun e => decide (e.1 = k) with
    | none => exact absurd (decide_eq_true rfl) (List.find?_eq_none.mp hfind _ h)
    | some e =>
      have hkey : e.1 = k := by simpa using List.find?_some hfind
      have heq : e = (k, v) :=
        List.inj_on_of_nodup_map m.nodup (List.mem_of_find?_eq_some hfind) h hkey
      rw [heq]
      rfl

theorem find_mapVals (f : K → V → V) (m : KeyedList K V) (k : K) :
    (m.mapVals f).find k = (m.find k).map (f k) := by
  ext v
  rw [find_eq_some, Option.map_eq_some_iff, mapVals, List.mem_map]
  constructor
  · rintro ⟨e, he, heq⟩
    obtain ⟨rfl, rfl⟩ := Prod.mk.inj heq
    exact ⟨e.2, find_eq_some.mpr he, rfl⟩
  · rintro ⟨w, hw, rfl⟩
    exact ⟨(k, w), find_eq_some.mp hw, rfl⟩

theorem mem_erase {e : K × V} : e ∈ (m.erase k).entries ↔ e ∈ m.entries ∧ e.1 ≠ k := by
  rw [erase, List.mem_filter, decide_eq_true_iff]

theorem find_erase_self : (m.erase k).find k = none := by
  rw [Option.eq_none_iff_forall_ne_some]
  intro v h
  exact (mem_erase.mp (find_eq_some.mp h)).2 rfl

theorem find_erase_of_ne (h : x ≠ k) : (m.erase k).find x = m.find x := by
  ext v
  rw [find_eq_some, find_eq_some, mem_erase]
  exact and_iff_left h

theorem find_set_self : (m.set k v).find k = some v :=
  find_eq_some.mpr List.mem_cons_self

theorem find_set_of_ne (h : x ≠ k) : (m.set k v).find x = m.find x := by
  ext w
  rw [find_eq_some, find_eq_some, set, List.mem_cons, mem_erase]
  constructor
  · rintro (heq | ⟨hmem, -⟩)
    · exact absurd (congrArg Prod.fst heq) h
    · exact hmem
  · exact fun hmem => Or.inr ⟨hmem, h⟩

/-- What is not there need not be erased. -/
theorem entries_erase (h : m.find k = none) : (m.erase k).entries = m.entries := by
  refine List.filter_eq_self.mpr fun e he => decide_eq_true ?_
  rintro rfl
  rw [find_eq_some.mpr he] at h
  cases h

/-- **An entry and the rest.** -/
theorem entries_perm (h : m.find k = some v) : m.entries ~ (k, v) :: (m.erase k).entries := by
  have hnodup : ((k, v) :: (m.erase k).entries).Nodup := by
    refine List.nodup_cons.mpr ⟨fun hmem => (mem_erase.mp hmem).2 rfl, ?_⟩
    exact (m.erase k).nodup.of_map
  rw [List.perm_ext_iff_of_nodup m.nodup.of_map hnodup]
  intro e
  rw [List.mem_cons, mem_erase]
  by_cases hkey : e.1 = k
  · have hiff : e ∈ m.entries ↔ e = (k, v) := by
      refine ⟨fun he => ?_, fun he => he ▸ find_eq_some.mp h⟩
      exact List.inj_on_of_nodup_map m.nodup he (find_eq_some.mp h) hkey
    rw [hiff]
    simp [hkey]
  · have hne : e ≠ (k, v) := fun heq => hkey (congrArg Prod.fst heq)
    simp [hkey, hne]

end KeyedList

end Lib
