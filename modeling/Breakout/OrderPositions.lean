/-
# The order of what is in a wallet

Transactions and internal transfers have positions in one list.  `ReorderTransactions` gives
positions to those that have none: it visits all in the order of their times and makes room where
one has to go in.

It means all the entries of all the accounts, but lists only those of the account without a name.
And it compares the position of an item as it was with the positions that it gave out, which are
those after room was made: an item can come to lie where one was put in.

`reorder_iff` says exactly when it does what it is for.
-/
import Breakout.AccountBalance
import Breakout.Lib.Places

namespace Breakout

open Lib

namespace Accounting

/-! ## 1. The walk -/

/-- What is in the list: a transaction, or an entry by its key in the database. -/
inductive ItemId where
  | tx (hash : UInt256)
  | entry (strAccount : String) (nEntryNo : UInt64)
deriving DecidableEq

def CAccountingEntry.id (e : CAccountingEntry) : ItemId := .entry e.strAccount e.nEntryNo

/-- The wallet's transactions with the times at which they were received, in the order of the map,
the entries of the database in the order of their keys, and the positions of all; -1 is none. -/
structure OrderedItems where
  mapWallet : List (UInt256 × UInt32)
  acentries : List CAccountingEntry
  nOrderPos : ItemId → Int
  nodup : (mapWallet.map (ItemId.tx ·.1) ++ acentries.map CAccountingEntry.id).Nodup

/-- `std::numeric_limits<int64_t>::max()` -/
def maxInt64 : Int := 2 ^ 63 - 1

/-- How `ReorderTransactions` ends: with `DB_LOAD_OK`, with `DB_LOAD_FAIL`, or with a number that
does not fit, after which nothing is said. -/
inductive Reordered where
  | ok (nOrderPos : ItemId → Int) (nOrderPosNext : Int)
  | loadFail
  | undefined

/-- `txByTime.insert`: behind those of the same time. -/
def insertByTime (item : ItemId × Int) : List (ItemId × Int) → List (ItemId × Int)
  | [] => [item]
  | next :: rest =>
    if item.2 < next.2 then item :: next :: rest else next :: insertByTime item rest

namespace OrderedItems

variable (W : OrderedItems)

/-- Every item. -/
def items : List ItemId := W.mapWallet.map (ItemId.tx ·.1) ++ W.acentries.map CAccountingEntry.id

/-- The items that are visited, with their times. -/
def timed : List (ItemId × Int) :=
  W.mapWallet.map (fun t => (ItemId.tx t.1, (t.2.toNat : Int))) ++
    (listAccountCreditDebit "" W.acentries).map fun e => (e.id, e.nTime.toInt)

/-- `txByTime`, its items in order. -/
def txByTime : List ItemId := (W.timed.foldl (fun m item => insertByTime item m) []).map (·.1)

end OrderedItems

/-- The loop of `ReorderTransactions`; `write` tells whether an item can be written. -/
def reorderLoop (write : ItemId → Bool) : List ItemId → Int → List Int → (ItemId → Int) → Reordered
  | [], nOrderPosNext, _, nOrderPos => .ok nOrderPos nOrderPosNext
  | it :: rest, nOrderPosNext, nOrderPosOffsets, nOrderPos =>
    if nOrderPos it = -1 then
      if nOrderPosNext + 1 > maxInt64 then .undefined
      else if write it = false then .loadFail
      else reorderLoop write rest (nOrderPosNext + 1) (nOrderPosOffsets ++ [nOrderPosNext])
        (Function.update nOrderPos it nOrderPosNext)
    else
      let nOrderPosOff :=
        nOrderPosOffsets.countP fun nOffsetStart => decide (nOrderPos it ≥ nOffsetStart)
      let pos := nOrderPos it + nOrderPosOff
      if pos + 1 > maxInt64 then .undefined
      else if nOrderPosOff ≠ 0 ∧ write it = false then .loadFail
      else reorderLoop write rest (max nOrderPosNext (pos + 1)) nOrderPosOffsets
        (Function.update nOrderPos it pos)

def reorderTransactions (write : ItemId → Bool) (W : OrderedItems) : Reordered :=
  reorderLoop write W.txByTime 0 [] W.nOrderPos

/-! ## 2. What the loop leaves -/

variable {write : ItemId → Bool}

/-- The place of an item, if it has one. -/
def placeOf (nOrderPos : Int) : Option Int := if nOrderPos = -1 then none else some nOrderPos

/-- What the loop leaves of the positions, when `t` is left of the places. -/
structure Leaves (is : List ItemId) (s t : Places) (old new : ItemId → Int) : Prop where
  others : ∀ i ∉ is, new i = old i
  placed : ∀ i ∈ is, old i ≠ -1 → new i = Places.shift t.starts (old i)
  starts : t.starts = s.starts ++ (is.filter fun i => decide (old i = -1)).map new
  below : ∀ i ∈ is, new i < t.next

variable {is : List ItemId} {old : ItemId → Int}

theorem map_placeOf_update {i : ItemId} {p : Int} (hi : i ∉ is) :
    is.map (fun j => placeOf (Function.update old i p j)) =
      is.map fun j => placeOf (old j) := by
  refine List.map_congr_left fun j hj => ?_
  have hne : j ≠ i := fun heq => hi (heq ▸ hj)
  rw [Function.update_of_ne hne]

/-- One item, and then the others. -/
theorem Leaves.cons {is : List ItemId} {i : ItemId} {s t : Places} {old new : ItemId → Int}
    (hi : i ∉ is) (hs : s.next ≤ (s.visit (placeOf (old i))).next)
    (ht : t = (s.visit (placeOf (old i))).visits (is.map fun j => placeOf (old j)))
    (h : Leaves is (s.visit (placeOf (old i))) t
      (Function.update old i (s.place (placeOf (old i)))) new) : Leaves (i :: is) s t old new := by
  have hne : ∀ j ∈ is, j ≠ i := fun j hj heq => hi (heq ▸ hj)
  have hself : new i = s.place (placeOf (old i)) := by
    rw [h.others i hi, Function.update_self]
  have hlt : s.place (placeOf (old i)) < t.next := by
    rw [ht]
    exact (Places.place_lt_next _).trans_le (Places.next_le_visits _ _)
  refine ⟨fun j hj => ?_, fun j hj hold => ?_, ?_, fun j hj => ?_⟩
  · obtain ⟨hji, hjis⟩ := not_or.mp (mt List.mem_cons.mpr hj)
    rw [h.others j hjis, Function.update_of_ne hji]
  · rcases List.mem_cons.mp hj with rfl | hmem
    · have hplace : placeOf (old j) = some (old j) := if_neg hold
      have hx : old j < (s.visit (some (old j))).next :=
        Places.le_shift.trans_lt (Places.place_lt_next (some (old j)))
      rw [hself, hplace, Places.place, ht, hplace, Places.shift_visits hx]
      rfl
    · have hupdate := h.placed j hmem
      rw [Function.update_of_ne (hne j hmem)] at hupdate
      exact hupdate hold
  · have hfilter : (is.filter fun j =>
        decide (Function.update old i (s.place (placeOf (old i))) j = -1)) =
        is.filter fun j => decide (old j = -1) := by
      refine List.filter_congr fun j hj => ?_
      rw [Function.update_of_ne (hne j hj)]
    rw [h.starts, hfilter]
    by_cases hold : old i = -1
    · have hplace : placeOf (old i) = none := if_pos hold
      rw [List.filter_cons_of_pos (by simp [hold]), List.map_cons, hself, hplace]
      exact List.append_assoc ..
    · have hplace : placeOf (old i) = some (old i) := if_neg hold
      rw [List.filter_cons_of_neg (by simp [hold]), hplace]
      rfl
  · rcases List.mem_cons.mp hj with rfl | hmem
    · rw [hself]
      exact hlt
    · exact h.below j hmem

/-- **What the loop does**: the numbers fit to the end, and it leaves the positions of the places
that are left; or they do not. -/
theorem reorderLoop_cases (hnodup : is.Nodup) {s : Places} (hmax : s.next ≤ maxInt64)
    (h : reorderLoop write is s.next s.starts old ≠ .loadFail) :
    let t := s.visits (is.map fun i => placeOf (old i))
    (maxInt64 < t.next ∧ reorderLoop write is s.next s.starts old = .undefined) ∨
      (t.next ≤ maxInt64 ∧ ∃ new, reorderLoop write is s.next s.starts old = .ok new t.next ∧
        Leaves is s t old new) := by
  induction is generalizing s old with
  | nil =>
    refine Or.inr ⟨hmax, old, rfl, fun _ _ => rfl, nofun, (List.append_nil _).symm, nofun⟩
  | cons i is ih =>
    obtain ⟨hi, his⟩ := List.nodup_cons.mp hnodup
    have hvisit := Places.next_le_visit s (placeOf (old i))
    have hlater := Places.next_le_visits (s.visit (placeOf (old i)))
      (is.map fun j => placeOf (old j))
    have hround : maxInt64 < (s.visit (placeOf (old i))).next ∧
          reorderLoop write (i :: is) s.next s.starts old = .undefined ∨
        (s.visit (placeOf (old i))).next ≤ maxInt64 ∧
          reorderLoop write (i :: is) s.next s.starts old =
            reorderLoop write is (s.visit (placeOf (old i))).next (s.visit (placeOf (old i))).starts
              (Function.update old i (s.place (placeOf (old i)))) := by
      rw [reorderLoop] at h ⊢
      by_cases hold : old i = -1
      · have hplace : placeOf (old i) = none := if_pos hold
        rw [if_pos hold] at h ⊢
        rw [hplace]
        by_cases hover : s.next + 1 > maxInt64
        · exact Or.inl ⟨hover, if_pos hover⟩
        · rw [if_neg hover] at h ⊢
          have hwrite : ¬ write i = false := fun hfail => h (if_pos hfail)
          exact Or.inr ⟨not_lt.mp hover, if_neg hwrite⟩
      · have hplace : placeOf (old i) = some (old i) := if_neg hold
        rw [if_neg hold] at h ⊢
        rw [hplace]
        by_cases hover : Places.shift s.starts (old i) + 1 > maxInt64
        · exact Or.inl ⟨lt_max_of_lt_right hover, if_pos hover⟩
        · have hwrite : ¬ (s.starts.countP (fun o => decide (old i ≥ o)) ≠ 0 ∧ write i = false) :=
            fun hfail => h ((if_neg hover).trans (if_pos hfail))
          exact Or.inr ⟨max_le hmax (not_lt.mp hover), (if_neg hover).trans (if_neg hwrite)⟩
    rcases hround with ⟨hover, hundefined⟩ | ⟨hfits, hnext⟩
    · exact Or.inl ⟨hover.trans_le hlater, hundefined⟩
    · rw [hnext] at h ⊢
      have hrest := ih his hfits h
      rw [map_placeOf_update hi] at hrest
      rcases hrest with ⟨hover, hundefined⟩ | ⟨hle, new, hok, hleaves⟩
      · exact Or.inl ⟨hover, hundefined⟩
      · exact Or.inr ⟨hle, new, hok, hleaves.cons hi hvisit rfl⟩

/-! ## 3. The items that are visited -/

theorem insertByTime_perm (item : ItemId × Int) (m : List (ItemId × Int)) :
    (insertByTime item m).Perm (item :: m) := by
  induction m with
  | nil => exact List.Perm.refl _
  | cons next rest ih =>
    rw [insertByTime]
    split_ifs
    · exact List.Perm.refl _
    · exact (ih.cons next).trans (List.Perm.swap item next rest)

theorem foldl_insertByTime_perm (l m : List (ItemId × Int)) :
    (l.foldl (fun m item => insertByTime item m) m).Perm (l ++ m) := by
  induction l generalizing m with
  | nil => exact List.Perm.refl _
  | cons item l ih =>
    refine (ih _).trans (((insertByTime_perm item m).append_left l).trans ?_)
    exact List.perm_middle

namespace OrderedItems

variable {W : OrderedItems}

theorem txByTime_perm (W : OrderedItems) : W.txByTime.Perm (W.timed.map (·.1)) := by
  have hperm := (foldl_insertByTime_perm W.timed []).map (·.1)
  rwa [List.append_nil] at hperm

theorem listed_unnamed (e : CAccountingEntry) : e.listed "" = (e.strAccount == "") := rfl

theorem timed_ids (W : OrderedItems) : W.timed.map (·.1) =
    W.mapWallet.map (ItemId.tx ·.1) ++
      (listAccountCreditDebit "" W.acentries).map CAccountingEntry.id := by
  rw [timed, List.map_append, List.map_map, List.map_map]
  rfl

theorem timed_sublist (W : OrderedItems) : (W.timed.map (·.1)).Sublist W.items := by
  rw [timed_ids, items]
  exact (List.Sublist.refl _).append (List.filter_sublist.map _)

theorem nodup_txByTime (W : OrderedItems) : W.txByTime.Nodup :=
  W.txByTime_perm.nodup_iff.mpr (W.nodup.sublist W.timed_sublist)

variable {i : ItemId}

theorem mem_items_of_mem_txByTime (hi : i ∈ W.txByTime) : i ∈ W.items :=
  W.timed_sublist.subset (W.txByTime_perm.mem_iff.mp hi)

/-- What is not visited are the entries of accounts with a name. -/
theorem mem_items_cases (hi : i ∈ W.items) :
    i ∈ W.txByTime ∨ ∃ e ∈ W.acentries, e.strAccount ≠ "" ∧ i = e.id := by
  rw [W.txByTime_perm.mem_iff, timed_ids]
  rcases List.mem_append.mp hi with htx | hentry
  · exact Or.inl (List.mem_append_left _ htx)
  · obtain ⟨e, he, rfl⟩ := List.mem_map.mp hentry
    by_cases hname : e.strAccount = ""
    · refine Or.inl (List.mem_append_right _ (List.mem_map_of_mem ?_))
      exact List.mem_filter.mpr ⟨he, by rw [listed_unnamed, hname, beq_self_eq_true]⟩
    · exact Or.inr ⟨e, he, hname, rfl⟩

theorem not_mem_txByTime {e : CAccountingEntry} (hname : e.strAccount ≠ "") :
    e.id ∉ W.txByTime := by
  rw [W.txByTime_perm.mem_iff, timed_ids]
  intro hmem
  rcases List.mem_append.mp hmem with htx | hentry
  · obtain ⟨t, -, ht⟩ := List.mem_map.mp htx
    cases ht
  · obtain ⟨e', he', heq⟩ := List.mem_map.mp hentry
    have hlisted := (List.mem_filter.mp he').2
    rw [listed_unnamed, beq_iff_eq] at hlisted
    exact hname ((ItemId.entry.inj heq).1 ▸ hlisted)

/-! ## 4. When the order is right -/

/-- What the positions are for: every item has one, below the next, no two have the same, and those
that had one are in the order they were in. -/
structure Ordered (W : OrderedItems) (new : ItemId → Int) (nOrderPosNext : Int) : Prop where
  placed : ∀ i ∈ W.items, new i ≠ -1
  distinct : ∀ i ∈ W.items, ∀ j ∈ W.items, new i = new j → i = j
  below : ∀ i ∈ W.items, new i < nOrderPosNext
  sameOrder : ∀ i ∈ W.items, ∀ j ∈ W.items, W.nOrderPos i ≠ -1 → W.nOrderPos j ≠ -1 →
    (new i < new j ↔ W.nOrderPos i < W.nOrderPos j)

/-- The positions that were there are distinct. -/
def Distinct (W : OrderedItems) : Prop :=
  ∀ i ∈ W.items, ∀ j ∈ W.items, W.nOrderPos i ≠ -1 → W.nOrderPos i = W.nOrderPos j → i = j

instance (W : OrderedItems) : Decidable W.Distinct :=
  inferInstanceAs (Decidable (∀ i ∈ W.items, ∀ j ∈ W.items, _ → _ → _))

/-- Where the items go in that have no position, in the order of the times. -/
def gaps (W : OrderedItems) : Places :=
  (⟨0, []⟩ : Places).visits (W.txByTime.map fun i => placeOf (W.nOrderPos i))

/-- When there is room: no gap is so far above an item that is visited as there are gaps at its
position or below; the entries of accounts with a name have positions, in no gap and below the next,
and what is below one of them has room below it; and the numbers fit. -/
structure Roomy (W : OrderedItems) : Prop where
  apart : ∀ i ∈ W.txByTime, W.nOrderPos i ≠ -1 → ∀ o ∈ W.gaps.starts,
    o - W.nOrderPos i ≠ W.gaps.starts.countP fun o => decide (o ≤ W.nOrderPos i)
  named : ∀ e ∈ W.acentries, e.strAccount ≠ "" → W.nOrderPos e.id ≠ -1 ∧
    W.nOrderPos e.id ∉ W.gaps.starts ∧ W.nOrderPos e.id < W.gaps.next ∧
    ∀ i ∈ W.txByTime, W.nOrderPos i ≠ -1 → W.nOrderPos i < W.nOrderPos e.id →
      Places.shift W.gaps.starts (W.nOrderPos i) < W.nOrderPos e.id
  fits : W.gaps.next ≤ maxInt64

theorem gaps_ok (W : OrderedItems) : W.gaps.Ok := Places.ok_start.visits _

section Leaves

variable {new : ItemId → Int}

/-- A gap is where an item without a position went in. -/
theorem mem_starts_iff (h : Leaves W.txByTime ⟨0, []⟩ W.gaps W.nOrderPos new) {o : Int} :
    o ∈ W.gaps.starts ↔ ∃ i ∈ W.txByTime, W.nOrderPos i = -1 ∧ new i = o := by
  rw [h.starts, List.nil_append, List.mem_map]
  simp only [List.mem_filter, decide_eq_true_eq, and_assoc]

variable {i : ItemId}

/-- No two items went in at one gap. -/
theorem eq_of_new_eq (h : Leaves W.txByTime ⟨0, []⟩ W.gaps W.nOrderPos new) {j : ItemId}
    (hi : i ∈ W.txByTime) (hj : j ∈ W.txByTime) (hoi : W.nOrderPos i = -1)
    (hoj : W.nOrderPos j = -1) (heq : new i = new j) : i = j := by
  have hincreasing := W.gaps_ok.increasing
  rw [h.starts, List.nil_append] at hincreasing
  have hnodup : ((W.txByTime.filter fun i => decide (W.nOrderPos i = -1)).map new).Nodup :=
    hincreasing.imp fun hlt => ne_of_lt hlt
  exact List.inj_on_of_nodup_map hnodup (List.mem_filter.mpr ⟨hi, decide_eq_true hoi⟩)
    (List.mem_filter.mpr ⟨hj, decide_eq_true hoj⟩) heq

/-- An item is visited and has a position, or is visited and gets one, or is not visited. -/
inductive Kind (W : OrderedItems) (new : ItemId → Int) (i : ItemId) : Prop where
  | moved (hi : i ∈ W.txByTime) (hold : W.nOrderPos i ≠ -1)
    (hnew : new i = Places.shift W.gaps.starts (W.nOrderPos i))
  | putIn (hi : i ∈ W.txByTime) (hold : W.nOrderPos i = -1) (hnew : new i ∈ W.gaps.starts)
  | left (e : CAccountingEntry) (he : e ∈ W.acentries) (hname : e.strAccount ≠ "") (hid : i = e.id)
    (hnew : new i = W.nOrderPos i)

theorem kind_of_mem (h : Leaves W.txByTime ⟨0, []⟩ W.gaps W.nOrderPos new) (hi : i ∈ W.items) :
    Kind W new i := by
  rcases mem_items_cases hi with hvisited | ⟨e, he, hname, hid⟩
  · by_cases hold : W.nOrderPos i = -1
    · exact .putIn hvisited hold ((mem_starts_iff h).mpr ⟨i, hvisited, hold, rfl⟩)
    · exact .moved hvisited hold (h.placed i hvisited hold)
  · exact .left e he hname hid (hid ▸ h.others _ (not_mem_txByTime hname))

/-- A visited item goes by no entry that is left. -/
theorem Roomy.shift_compare (hroom : W.Roomy) (hdistinct : W.Distinct) (hi : i ∈ W.txByTime)
    (hold : W.nOrderPos i ≠ -1) {e : CAccountingEntry} (he : e ∈ W.acentries)
    (hname : e.strAccount ≠ "") :
    Places.shift W.gaps.starts (W.nOrderPos i) ≠ W.nOrderPos e.id ∧
    (Places.shift W.gaps.starts (W.nOrderPos i) < W.nOrderPos e.id ↔
      W.nOrderPos i < W.nOrderPos e.id) ∧
    (W.nOrderPos e.id < Places.shift W.gaps.starts (W.nOrderPos i) ↔
      W.nOrderPos e.id < W.nOrderPos i) := by
  have hle := @Places.le_shift W.gaps.starts (W.nOrderPos i)
  have hne : W.nOrderPos i ≠ W.nOrderPos e.id := by
    intro heq
    have hid := hdistinct i (mem_items_of_mem_txByTime hi) _
      (List.mem_append_right _ (List.mem_map_of_mem he)) hold heq
    exact not_mem_txByTime hname (hid ▸ hi)
  have hroom' := (hroom.named e he hname).2.2.2 i hi hold
  rcases lt_or_gt_of_ne hne with hlt | hgt
  · have hshift := hroom' hlt
    exact ⟨hshift.ne, iff_of_true hshift hlt, iff_of_false hshift.asymm hlt.asymm⟩
  · have hshift : W.nOrderPos e.id < Places.shift W.gaps.starts (W.nOrderPos i) := hgt.trans_le hle
    exact ⟨hshift.ne', iff_of_false hshift.asymm hgt.asymm, iff_of_true hshift hgt⟩

/-- **Where there is room the order is right.** -/
theorem Roomy.ordered (hroom : W.Roomy) (hdistinct : W.Distinct)
    (h : Leaves W.txByTime ⟨0, []⟩ W.gaps W.nOrderPos new) : W.Ordered new W.gaps.next := by
  have hnamed : ∀ e ∈ W.acentries, e.strAccount ≠ "" → W.nOrderPos e.id ∉ W.gaps.starts :=
    fun e he hname => (hroom.named e he hname).2.1
  have hland : ∀ i ∈ W.txByTime, W.nOrderPos i ≠ -1 →
      Places.shift W.gaps.starts (W.nOrderPos i) ∉ W.gaps.starts :=
    fun i hi hold hmem => hroom.apart i hi hold _ hmem (Places.shift_eq_iff.mp rfl)
  refine ⟨fun i hi => ?_, fun i hi j hj heq => ?_, fun i hi => ?_, fun i hi j hj hoi hoj => ?_⟩
  · cases kind_of_mem h hi with
    | moved hvisited hold hnew =>
      rw [hnew]
      by_cases hneg : W.nOrderPos i < 0
      · rwa [W.gaps_ok.shift_of_neg hneg]
      · have hle := @Places.le_shift W.gaps.starts (W.nOrderPos i)
        omega
    | putIn hvisited hold hnew =>
      have hnonneg := (W.gaps_ok.below _ hnew).1
      omega
    | left e he hname hid hnew =>
      rw [hnew, hid]
      exact (hroom.named e he hname).1
  · cases kind_of_mem h hi with
    | moved hiv hoi hnewi =>
      cases kind_of_mem h hj with
      | moved hjv hoj hnewj =>
        rw [hnewi, hnewj] at heq
        exact hdistinct i hi j hj hoi (Places.shift_injective _ heq)
      | putIn hjv hoj hnewj =>
        rw [← heq, hnewi] at hnewj
        exact absurd hnewj (hland i hiv hoi)
      | left e he hname hid hnewj =>
        rw [hnewi, hnewj, hid] at heq
        exact absurd heq (hroom.shift_compare hdistinct hiv hoi he hname).1
    | putIn hiv hoi hnewi =>
      cases kind_of_mem h hj with
      | moved hjv hoj hnewj =>
        rw [heq, hnewj] at hnewi
        exact absurd hnewi (hland j hjv hoj)
      | putIn hjv hoj hnewj => exact eq_of_new_eq h hiv hjv hoi hoj heq
      | left e he hname hid hnewj =>
        rw [heq, hnewj, hid] at hnewi
        exact absurd hnewi (hnamed e he hname)
    | left e he hname hid hnewi =>
      cases kind_of_mem h hj with
      | moved hjv hoj hnewj =>
        rw [hnewi, hnewj, hid] at heq
        exact absurd heq.symm (hroom.shift_compare hdistinct hjv hoj he hname).1
      | putIn hjv hoj hnewj =>
        rw [← heq, hnewi, hid] at hnewj
        exact absurd hnewj (hnamed e he hname)
      | left e' he' hname' hid' hnewj =>
        have hold : W.nOrderPos i ≠ -1 := hid ▸ (hroom.named e he hname).1
        exact hdistinct i hi j hj hold (by rw [← hnewi, ← hnewj, heq])
  · rcases mem_items_cases hi with hvisited | ⟨e, he, hname, hid⟩
    · exact h.below i hvisited
    · rw [hid, h.others _ (not_mem_txByTime hname)]
      exact (hroom.named e he hname).2.2.1
  · cases kind_of_mem h hi with
    | putIn _ hold _ => exact absurd hold hoi
    | moved hiv _ hnewi =>
      cases kind_of_mem h hj with
      | putIn _ hold _ => exact absurd hold hoj
      | moved _ _ hnewj => rw [hnewi, hnewj, Places.shift_lt_shift_iff]
      | left e he hname hid hnewj =>
        rw [hnewi, hnewj, hid]
        exact (hroom.shift_compare hdistinct hiv hoi he hname).2.1
    | left e he hname hid hnewi =>
      cases kind_of_mem h hj with
      | putIn _ hold _ => exact absurd hold hoj
      | moved hjv _ hnewj =>
        rw [hnewi, hnewj, hid]
        exact (hroom.shift_compare hdistinct hjv hoj he hname).2.2
      | left e' he' hname' hid' hnewj => rw [hnewi, hnewj]

/-- **Where the order is right there was room.** -/
theorem Ordered.roomy (hordered : W.Ordered new W.gaps.next) (hfits : W.gaps.next ≤ maxInt64)
    (h : Leaves W.txByTime ⟨0, []⟩ W.gaps W.nOrderPos new) : W.Roomy := by
  refine ⟨fun i hi hold o ho hland => ?_, fun e he hname => ?_, hfits⟩
  · obtain ⟨j, hj, hoj, hnew⟩ := (mem_starts_iff h).mp ho
    have heq : new i = new j := by
      rw [h.placed i hi hold, hnew]
      exact Places.shift_eq_iff.mpr hland
    have hij := hordered.distinct i (mem_items_of_mem_txByTime hi) j
      (mem_items_of_mem_txByTime hj) heq
    exact hold (hij ▸ hoj)
  · have hmem : e.id ∈ W.items := List.mem_append_right _ (List.mem_map_of_mem he)
    have hsame : new e.id = W.nOrderPos e.id := h.others _ (not_mem_txByTime hname)
    have hplaced : W.nOrderPos e.id ≠ -1 := hsame ▸ hordered.placed _ hmem
    refine ⟨hplaced, fun hgap => ?_, hsame ▸ hordered.below _ hmem, fun i hi hold hlt => ?_⟩
    · obtain ⟨j, hj, -, hnew⟩ := (mem_starts_iff h).mp hgap
      have hej := hordered.distinct _ hmem j (mem_items_of_mem_txByTime hj) (hsame.trans hnew.symm)
      exact not_mem_txByTime hname (hej ▸ hj)
    · have hnew := (hordered.sameOrder i (mem_items_of_mem_txByTime hi) _ hmem hold hplaced).mpr hlt
      rwa [h.placed i hi hold, hsame] at hnew

end Leaves

/-- **When the order comes out right**: exactly when there is room. -/
theorem reorder_iff (W : OrderedItems) (write : ItemId → Bool)
    (h : reorderTransactions write W ≠ .loadFail) (hdistinct : W.Distinct) :
    (∃ new nOrderPosNext, reorderTransactions write W = .ok new nOrderPosNext ∧
      W.Ordered new nOrderPosNext) ↔ W.Roomy := by
  have hcases := reorderLoop_cases (s := ⟨0, []⟩) W.nodup_txByTime (by decide) h
  constructor
  · rintro ⟨new, nOrderPosNext, hok, hordered⟩
    rcases hcases with ⟨-, hundefined⟩ | ⟨hfits, new', hok', hleaves⟩
    · have hclash := hok.symm.trans hundefined
      cases hclash
    · obtain ⟨rfl, rfl⟩ := Reordered.ok.inj (hok.symm.trans hok')
      exact hordered.roomy hfits hleaves
  · intro hroom
    rcases hcases with ⟨hover, -⟩ | ⟨-, new, hok, hleaves⟩
    · exact absurd hroom.fits (not_le.mpr hover)
    · exact ⟨new, W.gaps.next, hok, hroom.ordered hdistinct hleaves⟩

/-- Three transactions, the first of which is at the place 0, and the last at 1. -/
def spacious : OrderedItems where
  mapWallet := [(1, 1), (2, 2), (3, 3)]
  acentries := []
  nOrderPos i := if i = .tx 1 then 0 else if i = .tx 3 then 1 else -1
  nodup := by decide

/-- They come to lie at 0, 1 and 2. -/
theorem spacious_reordered : ∃ new nOrderPosNext,
    reorderTransactions (fun _ => true) spacious = .ok new nOrderPosNext ∧
      spacious.Ordered new nOrderPosNext := by
  have hroomy : spacious.Roomy := ⟨by decide, by decide, by decide⟩
  exact (reorder_iff spacious (fun _ => true) (by exact nofun) (by decide)).mpr hroomy

/-- Two transactions without a position, and then one at the place 0; and an entry without a
position, of an account with a name. -/
def crowded : OrderedItems where
  mapWallet := [(1, 1), (2, 2), (3, 3)]
  acentries := [⟨"b", 1, 1, 4, 1⟩]
  nOrderPos i := if i = .tx 3 then 0 else -1
  nodup := by decide

/-- **Two items at one place**, and one at none. -/
theorem crowded_reordered : crowded.Distinct ∧ ∃ new nOrderPosNext,
    reorderTransactions (fun _ => true) crowded = .ok new nOrderPosNext ∧
      new (.tx 2) = 1 ∧ new (.tx 3) = 1 ∧ new (.entry "b" 1) = -1 := by
  refine ⟨by decide, _, _, rfl, ?_⟩
  decide

end OrderedItems

end Accounting

end Breakout
