/-
# A store and who works it off

Entries are put into a store under keys.  A worker takes a list of what is there, in the order of
the keys, and goes through it: it looks at an entry, works on it for a while, and erases the key.
The list is of the time when it was made; what is put in later is in the next.

The worker erases a key and not an entry.  So whoever puts an entry under a key that is taken may
lose two of them, the one that was there and, when the worker has just looked at it, the new one.
`Sound` is what is kept as long as all keys are free that something is put under, and then nothing
is lost until it is taken (`Safe.put`, `Safe.take`).
-/
import Breakout.Lib.KeyedList

namespace Lib

variable {K V : Type} [DecidableEq K]

/-- Where the worker is: the rest of its list, and the entry that it works on. -/
inductive Worker (K V : Type) where
  | idle
  | looking (rest : List (K × V))
  | working (e : K × V) (rest : List (K × V))

/-- What is on the worker's list or in its hand. -/
def Worker.pending : Worker K V → List (K × V)
  | .idle => []
  | .looking rest => rest
  | .working e rest => e :: rest

/-- A store, its worker, and the entries that it was through with. -/
structure Worklist (K V : Type) [DecidableEq K] where
  store : KeyedList K V
  worker : Worker K V
  taken : List (K × V)

namespace Worklist

/-! ## 1. The steps -/

/-- An entry is put under a key. -/
def put (w : Worklist K V) (k : K) (v : V) : Worklist K V := { w with store := w.store.set k v }

/-- The worker takes a list of what is there from a key on. -/
def look [LE K] [DecidableLE K] (w : Worklist K V) (k : K) : Worklist K V :=
  { w with worker := .looking ((w.store.entries.filter fun e => decide (k ≤ e.1)).insertionSort
      fun a b => a.1 ≤ b.1) }

/-- The worker looks at the next entry, if it is one that it wants. -/
def next (w : Worklist K V) (wanted : K → Bool) (rest : List (K × V)) : Worklist K V :=
  match rest with
  | [] => { w with worker := .idle }
  | e :: rest => { w with worker := if wanted e.1 then .working e rest else .idle }

/-- The worker leaves everything as it is. -/
def leave (w : Worklist K V) : Worklist K V := { w with worker := .idle }

/-- The worker is through with an entry; whether it could be erased. -/
def take (w : Worklist K V) (e : K × V) (rest : List (K × V)) (erased : Bool) : Worklist K V where
  store := if erased then w.store.erase e.1 else w.store
  worker := .looking rest
  taken := e :: w.taken

/-! ## 2. What is kept -/

/-- What is pending is in the store, under keys of their own, and what is worked on is wanted. -/
structure Sound (wanted : K → Bool) (w : Worklist K V) : Prop where
  nodup : (w.worker.pending.map Prod.fst).Nodup
  stored : ∀ e ∈ w.worker.pending, w.store.find e.1 = some e.2
  wanted : ∀ e rest, w.worker = .working e rest → wanted e.1 = true

/-- The entry is in the store, or was taken. -/
def Safe (w : Worklist K V) (e : K × V) : Prop := w.store.find e.1 = some e.2 ∨ e ∈ w.taken

variable {w : Worklist K V} {wanted : K → Bool} {k : K} {v : V} {e e' : K × V}
  {rest : List (K × V)}

/-- What is in the store has another key than what is put under a free one. -/
theorem key_ne_of_free (hfree : w.store.find k = none) (h : w.store.find e.1 = some e.2) :
    e.1 ≠ k := by
  rintro rfl
  rw [hfree] at h
  cases h

theorem find_put_of_free (hfree : w.store.find k = none) (h : w.store.find e.1 = some e.2) :
    (w.put k v).store.find e.1 = some e.2 := by
  rw [put, KeyedList.find_set_of_ne (key_ne_of_free hfree h), h]

theorem Sound.put (h : Sound wanted w) (hfree : w.store.find k = none) :
    Sound wanted (w.put k v) where
  nodup := h.nodup
  stored e he := find_put_of_free hfree (h.stored e he)
  wanted := h.wanted

/-- **Nothing is lost when an entry is put under a free key.** -/
theorem Safe.put (h : Safe w e) (hfree : w.store.find k = none) : Safe (w.put k v) e :=
  h.imp_left (find_put_of_free hfree)

theorem safe_put : Safe (w.put k v) (k, v) := Or.inl KeyedList.find_set_self

theorem sound_idle (h : w.worker = .idle) : Sound wanted w where
  nodup := by
    rw [h]
    exact List.nodup_nil
  stored e he := by
    rw [h] at he
    cases he
  wanted e rest heq := by
    rw [h] at heq
    cases heq

theorem sound_look [LE K] [DecidableLE K] : Sound wanted (w.look k) where
  nodup := by
    have hperm := (List.perm_insertionSort (fun a b : K × V => a.1 ≤ b.1)
      (w.store.entries.filter fun e => decide (k ≤ e.1))).map Prod.fst
    exact hperm.nodup_iff.mpr (w.store.nodup.sublist (List.filter_sublist.map _))
  stored e he := by
    have hmem := List.mem_of_mem_filter ((List.mem_insertionSort _).mp he)
    exact KeyedList.find_eq_some.mpr hmem
  wanted _ _ heq := by cases heq

theorem Sound.next (h : Sound wanted w) (hworker : w.worker = .looking rest) :
    Sound wanted (w.next wanted rest) := by
  cases rest with
  | nil => exact sound_idle rfl
  | cons e rest =>
    unfold Worklist.next
    dsimp only
    by_cases hwanted : wanted e.1 = true
    · rw [if_pos hwanted]
      refine ⟨?_, ?_, ?_⟩
      · have hnodup := h.nodup
        rwa [hworker] at hnodup
      · have hstored := h.stored
        rwa [hworker] at hstored
      · rintro _ _ ⟨⟩
        exact hwanted
    · rw [if_neg hwanted]
      exact sound_idle rfl

variable {erased : Bool}

/-- Another key is not erased. -/
theorem find_take_of_ne (hne : e'.1 ≠ e.1) (h : w.store.find e'.1 = some e'.2) :
    (w.take e rest erased).store.find e'.1 = some e'.2 := by
  unfold take
  cases erased with
  | true => exact (KeyedList.find_erase_of_ne hne).trans h
  | false => exact h

theorem Sound.take (h : Sound wanted w) (hworker : w.worker = .working e rest) :
    Sound wanted (w.take e rest erased) := by
  have hnodup := h.nodup
  have hstored := h.stored
  rw [hworker, Worker.pending] at hnodup hstored
  obtain ⟨hfresh, hnodup⟩ := List.nodup_cons.mp hnodup
  refine ⟨hnodup, fun e' he' => ?_, ?_⟩
  · have hne : e'.1 ≠ e.1 := fun heq => hfresh (heq ▸ List.mem_map_of_mem he')
    exact find_take_of_ne hne (hstored e' (List.mem_cons_of_mem _ he'))
  · rintro _ _ ⟨⟩

/-- **Nothing is lost when an entry is taken**: what was under its key is the entry. -/
theorem Safe.take (h : Safe w e') (hsound : Sound wanted w) (hworker : w.worker = .working e rest) :
    Safe (w.take e rest erased) e' := by
  rcases h with hstored | htaken
  · by_cases hkey : e'.1 = e.1
    · have hfind : w.store.find e.1 = some e.2 :=
        hsound.stored e (by rw [hworker]; exact List.mem_cons_self)
      rw [hkey, hfind] at hstored
      have heq : e' = e := Prod.ext hkey (Option.some.inj hstored).symm
      exact Or.inr (heq ▸ List.mem_cons_self)
    · exact Or.inl (find_take_of_ne hkey hstored)
  · exact Or.inr (List.mem_cons_of_mem _ htaken)

/-- What is not wanted stays. -/
theorem find_take_of_unwanted (hsound : Sound wanted w) (hworker : w.worker = .working e rest)
    (hunwanted : wanted e'.1 = false) (h : w.store.find e'.1 = some e'.2) :
    (w.take e rest erased).store.find e'.1 = some e'.2 := by
  refine find_take_of_ne ?_ h
  intro hkey
  have hwanted := hsound.wanted e rest hworker
  rw [← hkey, hunwanted] at hwanted
  cases hwanted

end Worklist

end Lib
