/-
# A map that is pruned from its beginning

The entries of a map stand in the order of their keys.  Pruning erases from the beginning until no
more than `n` are left: all at once (`dropTo`) or one after another (`popTo`).  What is left is the
same, the `n` largest keys (`keys_dropTo`, `popTo_eq_dropTo`).

A key is among the `n` largest when fewer than `n` are larger.  Pruning before keys are added changes
nothing about what is left when it is done after that (`largest_largest_union`).
-/
import Mathlib.Tactic

namespace Lib

variable {K V : Type} [LinearOrder K] {n : Nat}

/-! ## 1. The largest keys of a set -/

/-- The keys that are larger. -/
def larger (A : Finset K) (x : K) : Finset K := A.filter (x < ·)

/-- The `n` largest keys. -/
def largest (n : Nat) (A : Finset K) : Finset K := A.filter fun x => (larger A x).card < n

variable {A B : Finset K} {k x y : K}

@[simp] theorem mem_larger : y ∈ larger A x ↔ y ∈ A ∧ x < y := Finset.mem_filter

theorem mem_largest : x ∈ largest n A ↔ x ∈ A ∧ (larger A x).card < n := Finset.mem_filter

theorem largest_subset : largest n A ⊆ A := Finset.filter_subset ..

theorem larger_mono (h : A ⊆ B) (x : K) : larger A x ⊆ larger B x :=
  Finset.filter_subset_filter _ h

theorem larger_subset_erase (A : Finset K) (x : K) : larger A x ⊆ A.erase x := by
  intro y hy
  rw [mem_larger] at hy
  exact Finset.mem_erase.mpr ⟨hy.2.ne', hy.1⟩

/-- There is room for all of a small set. -/
theorem largest_eq_self (h : A.card ≤ n) : largest n A = A := by
  refine Finset.filter_true_of_mem fun x hx => ?_
  calc (larger A x).card ≤ (A.erase x).card := Finset.card_le_card (larger_subset_erase A x)
    _ < A.card := Finset.card_erase_lt_of_mem hx
    _ ≤ n := h

/-- A key below all of a large set does not count. -/
theorem largest_insert_of_forall_lt (h : ∀ y ∈ A, k < y) (hcard : n ≤ A.card) :
    largest n (insert k A) = largest n A := by
  have hk : larger (insert k A) k = A := by
    ext y
    rw [mem_larger, Finset.mem_insert]
    constructor
    · rintro ⟨rfl | hy, hlt⟩
      · exact absurd hlt (lt_irrefl _)
      · exact hy
    · exact fun hy => ⟨Or.inr hy, h y hy⟩
  have hrest : ∀ x ∈ A, larger (insert k A) x = larger A x := by
    intro x hx
    rw [larger, Finset.filter_insert, if_neg (not_lt.mpr (h x hx).le)]
    rfl
  ext x
  rw [mem_largest, mem_largest, Finset.mem_insert]
  constructor
  · rintro ⟨rfl | hx, hlt⟩
    · rw [hk] at hlt
      omega
    · exact ⟨hx, hrest x hx ▸ hlt⟩
  · rintro ⟨hx, hlt⟩
    exact ⟨Or.inr hx, (hrest x hx).symm ▸ hlt⟩

/-- The larger keys are all among the `n` largest, or `n` of them are. -/
theorem larger_largest (A : Finset K) (x : K) :
    larger A x ⊆ largest n A ∨ n ≤ (larger (largest n A) x).card := by
  by_cases hne : (larger A x \ largest n A).Nonempty
  · right
    -- the largest of those that are not
    obtain ⟨y, hy, hmax⟩ := Finset.exists_max_image _ id hne
    obtain ⟨hyx, hyn⟩ := Finset.mem_sdiff.mp hy
    obtain ⟨hyA, hlt⟩ := mem_larger.mp hyx
    have hcard : n ≤ (larger A y).card := by
      by_contra hroom
      exact hyn (mem_largest.mpr ⟨hyA, by omega⟩)
    refine hcard.trans (Finset.card_le_card fun z hz => ?_)
    obtain ⟨hzA, hyz⟩ := mem_larger.mp hz
    have hxz : x < z := hlt.trans hyz
    refine mem_larger.mpr ⟨?_, hxz⟩
    by_contra hzn
    have hle := hmax z (Finset.mem_sdiff.mpr ⟨mem_larger.mpr ⟨hzA, hxz⟩, hzn⟩)
    exact absurd hyz (not_lt.mpr hle)
  · left
    rw [Finset.not_nonempty_iff_eq_empty, Finset.sdiff_eq_empty_iff_subset] at hne
    exact hne

/-- **Pruning before keys are added changes nothing.** -/
theorem largest_largest_union [DecidableEq K] (n : Nat) (A B : Finset K) :
    largest n (largest n A ∪ B) = largest n (A ∪ B) := by
  have hsub : largest n A ∪ B ⊆ A ∪ B := Finset.union_subset_union_left largest_subset
  ext x
  rw [mem_largest, mem_largest]
  rcases larger_largest (n := n) A x with hkept | hmany
  · have hsame : larger (largest n A ∪ B) x = larger (A ∪ B) x := by
      refine (larger_mono hsub x).antisymm fun y hy => ?_
      obtain ⟨hyA, hxy⟩ := mem_larger.mp hy
      refine mem_larger.mpr ⟨?_, hxy⟩
      rcases Finset.mem_union.mp hyA with hyA | hyB
      · exact Finset.mem_union_left _ (hkept (mem_larger.mpr ⟨hyA, hxy⟩))
      · exact Finset.mem_union_right _ hyB
    rw [hsame]
    refine and_congr_left fun hlt => ⟨fun hx => hsub hx, fun hx => ?_⟩
    rcases Finset.mem_union.mp hx with hxA | hxB
    · have hle : (larger A x).card ≤ (larger (A ∪ B) x).card :=
        Finset.card_le_card (larger_mono Finset.subset_union_left x)
      exact Finset.mem_union_left _ (mem_largest.mpr ⟨hxA, by omega⟩)
    · exact Finset.mem_union_right _ hxB
  · have hle : (larger (largest n A) x).card ≤ (larger (largest n A ∪ B) x).card :=
      Finset.card_le_card (larger_mono Finset.subset_union_left x)
    have hle' := Finset.card_le_card (larger_mono hsub x)
    refine iff_of_false (fun h => ?_) fun h => ?_
    · have hlt := h.2
      omega
    · have hlt := h.2
      omega

/-! ## 2. The map -/

/-- A map, as the entries in the order of their keys. -/
structure OrderedMap (K V : Type) [LinearOrder K] where
  entries : List (K × V)
  sorted : (entries.map Prod.fst).Pairwise (· < ·)

namespace OrderedMap

/-- `std::map()` -/
def empty : OrderedMap K V := ⟨[], .nil⟩

/-- The keys. -/
def keys (m : OrderedMap K V) : Finset K := (m.entries.map Prod.fst).toFinset

def find (m : OrderedMap K V) (k : K) : Option V :=
  (m.entries.find? (·.1 = k)).map Prod.snd

/-- The entry put in its place, over the one with its key. -/
def putEntry (k : K) (v : V) : List (K × V) → List (K × V)
  | [] => [(k, v)]
  | e :: rest =>
    if k < e.1 then (k, v) :: e :: rest
    else if k = e.1 then (k, v) :: rest
    else e :: putEntry k v rest

variable {m : OrderedMap K V} {v : V} {l : List (K × V)} {e : K × V}

theorem mem_putEntry : e ∈ putEntry k v l → e = (k, v) ∨ e ∈ l := by
  induction l with
  | nil => simp [putEntry]
  | cons e' rest ih =>
    unfold putEntry
    split_ifs with hlt heq
    · exact List.mem_cons.mp
    · exact fun h => (List.mem_cons.mp h).imp_right (List.mem_cons_of_mem _)
    · intro h
      rcases List.mem_cons.mp h with rfl | h
      · exact Or.inr List.mem_cons_self
      · exact (ih h).imp_right (List.mem_cons_of_mem _)

theorem mem_keys_putEntry :
    x ∈ (putEntry k v l).map Prod.fst ↔ x = k ∨ x ∈ l.map Prod.fst := by
  induction l with
  | nil => simp [putEntry]
  | cons e' rest ih =>
    unfold putEntry
    split_ifs with hlt heq
    · simp
    · subst heq
      simp
    · rw [List.map_cons, List.mem_cons, ih, List.map_cons, List.mem_cons]
      exact or_left_comm

theorem sorted_putEntry (h : (l.map Prod.fst).Pairwise (· < ·)) :
    ((putEntry k v l).map Prod.fst).Pairwise (· < ·) := by
  induction l with
  | nil => simp [putEntry]
  | cons e' rest ih =>
    rw [List.map_cons] at h
    obtain ⟨hfirst, hrest⟩ := List.pairwise_cons.mp h
    unfold putEntry
    split_ifs with hlt heq
    · refine List.pairwise_cons.mpr ⟨fun y hy => ?_, h⟩
      rcases List.mem_cons.mp hy with rfl | hy
      · exact hlt
      · exact hlt.trans (hfirst y hy)
    · subst heq
      exact h
    · refine List.pairwise_cons.mpr ⟨fun y hy => ?_, ih hrest⟩
      rcases mem_keys_putEntry.mp hy with rfl | hy
      · exact lt_of_le_of_ne (not_lt.mp hlt) (Ne.symm heq)
      · exact hfirst y hy

/-- `m[k] = v` -/
def insert (m : OrderedMap K V) (k : K) (v : V) : OrderedMap K V :=
  ⟨putEntry k v m.entries, sorted_putEntry m.sorted⟩

/-- `erase(begin(), begin() + j)` -/
def eraseFirst (m : OrderedMap K V) (j : Nat) : OrderedMap K V :=
  ⟨m.entries.drop j, by
    rw [List.map_drop]
    exact m.sorted.sublist (List.drop_sublist ..)⟩

def size (m : OrderedMap K V) : Nat := m.entries.length

/-- All but the last `n` entries are erased. -/
def dropTo (n : Nat) (m : OrderedMap K V) : OrderedMap K V :=
  if m.size > n then m.eraseFirst (m.size - n) else m

/-- `while (size() > n) erase(begin());` after so many rounds at most. -/
def popLoop (n : Nat) : Nat → OrderedMap K V → OrderedMap K V
  | 0, m => m
  | rounds + 1, m => if m.size > n then popLoop n rounds (m.eraseFirst 1) else m

/-- The loop to its end. -/
def popTo (n : Nat) (m : OrderedMap K V) : OrderedMap K V := popLoop n m.size m

/-! ## 3. What is in it -/

@[ext] theorem ext {m m' : OrderedMap K V} (h : m.entries = m'.entries) : m = m' := by
  cases m
  cases m'
  cases h
  rfl

theorem mem_keys : k ∈ m.keys ↔ k ∈ m.entries.map Prod.fst := List.mem_toFinset

theorem mem_keys_iff_find : k ∈ m.keys ↔ ∃ v, m.find k = some v := by
  rw [mem_keys, List.mem_map]
  unfold find
  constructor
  · rintro ⟨e, he, rfl⟩
    have hsome : (m.entries.find? (·.1 = e.1)).isSome := by
      rw [List.find?_isSome]
      exact ⟨e, he, by simp⟩
    obtain ⟨e', he'⟩ := Option.isSome_iff_exists.mp hsome
    exact ⟨e'.2, by rw [he']; rfl⟩
  · rintro ⟨v, hv⟩
    obtain ⟨e, he, -⟩ := Option.map_eq_some_iff.mp hv
    exact ⟨e, List.mem_of_find?_eq_some he, by simpa using List.find?_some he⟩

theorem mem_entries_insert (h : e ∈ (m.insert k v).entries) : e = (k, v) ∨ e ∈ m.entries :=
  mem_putEntry h

theorem keys_insert [DecidableEq K] : (m.insert k v).keys = Insert.insert k m.keys := by
  ext x
  rw [mem_keys, Finset.mem_insert, mem_keys]
  exact mem_keys_putEntry

theorem mem_entries_dropTo (h : e ∈ (m.dropTo n).entries) : e ∈ m.entries := by
  unfold dropTo at h
  split_ifs at h
  · exact List.mem_of_mem_drop h
  · exact h

/-- The last `n` of a sorted list are the `n` largest. -/
theorem toFinset_drop {l : List K} (h : l.Pairwise (· < ·)) :
    (l.drop (l.length - n)).toFinset = largest n l.toFinset := by
  induction l with
  | nil => rw [List.drop_nil, List.toFinset_nil, largest_eq_self (by simp)]
  | cons a l ih =>
    obtain ⟨hfirst, hrest⟩ := List.pairwise_cons.mp h
    have hcard : l.toFinset.card = l.length :=
      List.toFinset_card_of_nodup (hrest.imp fun hlt => hlt.ne)
    by_cases hn : n ≤ l.length
    · have hlen : (a :: l).length - n = (l.length - n) + 1 := by
        rw [List.length_cons]
        omega
      rw [hlen, List.drop_succ_cons, ih hrest, List.toFinset_cons,
        largest_insert_of_forall_lt _ (hcard.symm ▸ hn)]
      exact fun y hy => hfirst y (List.mem_toFinset.mp hy)
    · have hlen : (a :: l).length - n = 0 := by
        rw [List.length_cons]
        omega
      rw [hlen, List.drop_zero, largest_eq_self]
      exact (List.toFinset_card_le _).trans (by rw [List.length_cons]; omega)

theorem keys_dropTo : (m.dropTo n).keys = largest n m.keys := by
  have hdrop : ((m.entries.map Prod.fst).drop (m.size - n)).toFinset = largest n m.keys := by
    have h := toFinset_drop (n := n) m.sorted
    rwa [List.length_map] at h
  unfold dropTo
  split_ifs with hsize
  · rw [← hdrop, ← List.map_drop]
    rfl
  · rw [← hdrop, Nat.sub_eq_zero_of_le (not_lt.mp hsize), List.drop_zero]
    rfl

theorem size_eraseFirst (m : OrderedMap K V) (j : Nat) : (m.eraseFirst j).size = m.size - j :=
  List.length_drop ..

theorem popLoop_eq (rounds : Nat) (m : OrderedMap K V) (h : m.size ≤ n + rounds) :
    popLoop n rounds m = m.dropTo n := by
  induction rounds generalizing m with
  | zero => rw [popLoop, dropTo, if_neg (by omega)]
  | succ rounds ih =>
    unfold popLoop
    split_ifs with hsize
    · rw [ih _ (by rw [size_eraseFirst]; omega), dropTo, dropTo, if_pos hsize, size_eraseFirst]
      split_ifs with hmore
      · refine ext ?_
        rw [eraseFirst, eraseFirst, eraseFirst]
        dsimp only
        rw [List.drop_drop]
        congr 1
        omega
      · refine ext ?_
        have hone : m.size - n = 1 := by omega
        rw [hone]
    · rw [dropTo, if_neg hsize]

/-- One after another or all at once. -/
theorem popTo_eq_dropTo (m : OrderedMap K V) : m.popTo n = m.dropTo n :=
  popLoop_eq _ m (by omega)

end OrderedMap

end Lib
