/-
# Which tried entry is evicted

When a tried bucket is full, `MakeTried` asks `SelectTried` for a place in it, and moves the entry
that is there back to a new bucket.  `SelectTried` shuffles four entries to the front of the bucket,
and remembers the place of the one that succeeded longest ago.  But it remembers the place where
that entry was before it was swapped to the front: what is there afterwards is the entry that it
changed places with, or what a later round put there.

So the entry evicted is one that was not inspected, unless the oldest came from a place among the
first four.  It is the oldest if and only if the oldest was at the place of its own round, or at the
place of a later round that brought up an entry as old (`makeTried_evicts_oldest_iff`).
-/
import Breakout.Lib.Shuffle
import Breakout.AddrManBooks
import Breakout.StackSafety

namespace Breakout

open Lib

namespace CAddrMan

/-! ## 1. What is inspected -/

/-- Where the `i`-th round of `SelectTried` takes its entry from. -/
def triedPos (rnd : Nat → Nat) (size i : Nat) : Nat := getRandInt (rnd i) (size - i) + i

/-- The bucket as `SelectTried` leaves it. -/
def selectedBucket (m : CAddrMan) (k : Fin 64) (rnd : Nat → Nat) : List Int :=
  shuffled (triedPos rnd (m.vvTried k).length) (m.vvTried k) (min 4 (m.vvTried k).length)

/-- The entries that `SelectTried` inspects, in the order of the rounds. -/
def inspected (m : CAddrMan) (k : Fin 64) (rnd : Nat → Nat) : List Int :=
  (m.selectedBucket k rnd).take 4

/-- `mapInfo[nId].nLastSuccess` -/
def lastSuccess (m : CAddrMan) (nId : Int) : Int64 := (m.mapInfo nId).nLastSuccess

/-- The entry of that round is the first of those inspected that succeeded longest ago. -/
def FirstOldest (m : CAddrMan) (seen : List Int) (i : Nat) (old : Int) : Prop :=
  seen[i]? = some old ∧ (∀ j n, j < i → seen[j]? = some n → m.lastSuccess old < m.lastSuccess n) ∧
    ∀ n ∈ seen, m.lastSuccess old ≤ m.lastSuccess n

/-- The first of the oldest was at a place among the first, for which the round brought up an entry
as old: itself, if it was at the place of its own round. -/
def OldestInPlace (m : CAddrMan) (k : Fin 64) (rnd : Nat → Nat) : Prop :=
  ∃ i old n, m.FirstOldest (m.inspected k rnd) i old ∧
    (m.inspected k rnd)[triedPos rnd (m.vvTried k).length i]? = some n ∧
    m.lastSuccess n = m.lastSuccess old

/-- `old` goes back to a new bucket, and the new entry to its place. -/
structure Evicts (m m' : CAddrMan) (k : Fin 64) (nId old : Int) : Prop where
  held : old ∈ m.vvTried k
  replaced : (m'.vvTried k).Perm (nId :: (m.vvTried k).erase old)
  others : ∀ k', k' ≠ k → m'.vvTried k' = m.vvTried k'
  back : (m'.mapInfo old).fInTried = false ∧ (m'.mapInfo old).nRefCount = 1 ∧
    ∃ b, old ∈ m'.vvNew b

variable {K : Crypto} {nKey : Valtype} {fits : Prop} {m : CAddrMan} {n : Int} {k : Fin 64}
  {rnd : Nat → Nat} {i j size : Nat}

/-! ## 2. The rounds of `SelectTried` -/

theorem le_triedPos (i : Nat) : i ≤ triedPos rnd size i := Nat.le_add_left ..

theorem triedPos_lt (hi : i < size) : triedPos rnd size i < size := by
  have hpick : getRandInt (rnd i) (size - i) < size - i := getRandInt_lt (by omega)
  unfold triedPos
  omega

variable (m) in
/-- After so many rounds: the bucket is shuffled so far, and of the entries brought up the first of
the oldest is known, with the place that it came from. -/
def Inspected (v : List Int) (rnd : Nat → Nat) (rounds : Nat) :
    List Int × Option Int × Int → Prop
  | (l, nOldest, nOldestPos) =>
    l = shuffled (triedPos rnd v.length) v rounds ∧ (nOldest = none → rounds = 0) ∧
      ∀ old, nOldest = some old → ∃ i < rounds, nOldestPos = triedPos rnd v.length i ∧
        m.FirstOldest (l.take rounds) i old

variable {v seen : List Int} {a b : Int}

/-- One more entry is looked at. -/
theorem take_shuffled_succ {pos : Nat → Nat} (hpos : ∀ i, i ≤ pos i) (hi : i < v.length)
    (ha : (shuffled pos v (i + 1))[i]? = some a) :
    (shuffled pos v (i + 1)).take (i + 1) = (shuffled pos v i).take i ++ [a] := by
  refine List.ext_getElem? fun j => ?_
  rw [List.getElem?_take, List.getElem?_append, List.length_take, length_shuffled,
    Nat.min_eq_left hi.le]
  split_ifs with hlast hj hj
  · rw [List.getElem?_take, if_pos hj, shuffled_settled hpos hlast, shuffled_settled hpos hj]
  · obtain rfl : j = i := by omega
    rw [Nat.sub_self, ha]
    rfl
  · omega
  · rw [List.getElem?_eq_none]
    rw [List.length_singleton]
    omega

theorem FirstOldest.snoc {old : Int} (h : m.FirstOldest seen i old)
    (hle : m.lastSuccess old ≤ m.lastSuccess a) : m.FirstOldest (seen ++ [a]) i old := by
  obtain ⟨hat, hbefore, hall⟩ := h
  have hi : i < seen.length := (List.getElem?_eq_some_iff.mp hat).1
  refine ⟨by rw [List.getElem?_append_left hi, hat], fun j n hj hn => ?_, fun n hn => ?_⟩
  · rw [List.getElem?_append_left (hj.trans hi)] at hn
    exact hbefore j n hj hn
  · rcases List.mem_append.mp hn with hn | hn
    · exact hall n hn
    · exact List.mem_singleton.mp hn ▸ hle

theorem FirstOldest.last {seen : List Int} {a : Int}
    (h : ∀ n ∈ seen, m.lastSuccess a < m.lastSuccess n) :
    m.FirstOldest (seen ++ [a]) seen.length a := by
  refine ⟨by simp, fun j n hj hn => ?_, fun n hn => ?_⟩
  · rw [List.getElem?_append_left hj] at hn
    exact h n (List.mem_of_getElem? hn)
  · rcases List.mem_append.mp hn with hn | hn
    · exact Int64.le_of_lt (h n hn)
    · exact List.mem_singleton.mp hn ▸ Int64.le_refl _

theorem selectRound_none {l : List Int} {nOldestPos : Int} (hi : i < l.length)
    (ha : l[triedPos rnd l.length i]? = some a) :
    m.selectRound rnd (l, none, nOldestPos) i =
      .ok (swapAt l i (triedPos rnd l.length i), some a, triedPos rnd l.length i) := by
  have hfirst : l[i]? = some l[i] := List.getElem?_eq_getElem hi
  rw [swapAt_eq hfirst ha]
  unfold selectRound
  change (slot l (triedPos rnd l.length i) >>= _) = _
  rw [slot_of_getElem? ha, slot_of_getElem? hfirst]
  rfl

theorem selectRound_some {l : List Int} {nOldestPos a old : Int} (hi : i < l.length)
    (ha : l[triedPos rnd l.length i]? = some a) (haId : a ∈ m.ids) (hold : old ∈ m.ids) :
    m.selectRound rnd (l, some old, nOldestPos) i =
      .ok (if m.lastSuccess a < m.lastSuccess old then
          (swapAt l i (triedPos rnd l.length i), some a, (triedPos rnd l.length i : Int))
        else (swapAt l i (triedPos rnd l.length i), some old, nOldestPos)) := by
  have hfirst : l[i]? = some l[i] := List.getElem?_eq_getElem hi
  rw [swapAt_eq hfirst ha]
  unfold selectRound
  change (slot l (triedPos rnd l.length i) >>= _) = _
  rw [slot_of_getElem? ha, slot_of_getElem? hfirst]
  dsimp only [bind, Except.bind]
  rw [info_of_mem haId, info_of_mem hold]
  rfl

theorem selectRound_inspected (hids : ∀ n ∈ v, n ∈ m.ids) (hi : i < v.length)
    (st : List Int × Option Int × Int) (h : m.Inspected v rnd i st) :
    ∃ st', m.selectRound rnd st i = .ok st' ∧ m.Inspected v rnd (i + 1) st' := by
  obtain ⟨l, nOldest, nOldestPos⟩ := st
  obtain ⟨hl, hnone, hsome⟩ := h
  have hlen : l.length = v.length := hl ▸ length_shuffled i
  have hi' : i < l.length := hlen.symm ▸ hi
  have hp : triedPos rnd l.length i < l.length := triedPos_lt hi'
  obtain ⟨a, ha⟩ : ∃ a, l[triedPos rnd l.length i]? = some a := ⟨_, List.getElem?_eq_getElem hp⟩
  have hmem : ∀ x ∈ l, x ∈ m.ids := by
    intro x hx
    rw [hl] at hx
    exact hids x ((shuffled_perm i).mem_iff.mp hx)
  have hnext : swapAt l i (triedPos rnd l.length i) =
      shuffled (triedPos rnd v.length) v (i + 1) := by
    rw [hlen, hl]
    rfl
  have hup : (shuffled (triedPos rnd v.length) v (i + 1))[i]? = some a := by
    rw [← hnext, getElem?_swapAt_left hi' hp, ha]
  have htake : (shuffled (triedPos rnd v.length) v (i + 1)).take (i + 1) = l.take i ++ [a] :=
    hl ▸ take_shuffled_succ le_triedPos hi hup
  have htakeLen : (l.take i).length = i := by
    rw [List.length_take]
    omega
  cases nOldest with
  | none =>
    obtain rfl : i = 0 := hnone rfl
    refine ⟨_, selectRound_none hi' ha, hnext, nofun, fun old hold => ⟨0, Nat.one_pos, ?_, ?_⟩⟩
    · rw [hlen]
    · obtain rfl := Option.some.inj hold
      rw [hnext, htake]
      exact @FirstOldest.last m [] a nofun
  | some old =>
    obtain ⟨j, hj, hpos, holdest⟩ := hsome old rfl
    have holdMem : old ∈ l := List.mem_of_mem_take (List.mem_of_getElem? holdest.1)
    have hround := @selectRound_some m rnd i l nOldestPos a old hi' ha
      (hmem a (List.mem_of_getElem? ha)) (hmem old holdMem)
    split_ifs at hround with hless
    · refine ⟨_, hround, hnext, nofun, fun old' hold' => ⟨i, Nat.lt_succ_self i, ?_, ?_⟩⟩
      · rw [hlen]
      · obtain rfl := Option.some.inj hold'
        rw [hnext, htake]
        have hlast := @FirstOldest.last m (l.take i) a fun n hn =>
          Int64.lt_of_lt_of_le hless (holdest.2.2 n hn)
        rwa [htakeLen] at hlast
    · refine ⟨_, hround, hnext, nofun, fun old' hold' => ⟨j, Nat.lt_succ_of_lt hj, hpos, ?_⟩⟩
      obtain rfl := Option.some.inj hold'
      rw [hnext, htake]
      exact holdest.snoc (Int64.not_lt.mp hless)

/-- **`SelectTried`** returns where the first of the oldest came from. -/
theorem selectTried_oldest (rnd : Nat → Nat) (hids : ∀ n ∈ m.vvTried k, n ∈ m.ids)
    (hsize : 0 < (m.vvTried k).length) :
    ∃ i old, m.selectTried k rnd = .ok (triedPos rnd (m.vvTried k).length i,
        { m with vvTried := Function.update m.vvTried k (m.selectedBucket k rnd) }) ∧
      i < min 4 (m.vvTried k).length ∧ m.FirstOldest (m.inspected k rnd) i old := by
  obtain ⟨⟨l, nOldest, nOldestPos⟩, hrounds, rfl, hnone, hsome⟩ :=
    foldlM_range_ok (f := m.selectRound rnd) (P := m.Inspected (m.vvTried k) rnd)
      (min 4 (m.vvTried k).length)
      (fun i hi st hst => selectRound_inspected hids (by omega) st hst)
      (a := (m.vvTried k, none, -1)) ⟨rfl, fun _ => rfl, nofun⟩
  cases nOldest with
  | none =>
    have := hnone rfl
    omega
  | some old =>
    obtain ⟨i, hi, rfl, holdest⟩ := hsome old rfl
    refine ⟨i, old, ?_, hi, ?_⟩
    · unfold selectTried
      dsimp only
      rw [hrounds]
      rfl
    · have htake : (m.selectedBucket k rnd).take (min 4 (m.vvTried k).length) =
          m.inspected k rnd := by
        have hlen : (m.selectedBucket k rnd).length = (m.vvTried k).length := length_shuffled _
        rw [inspected, List.take_eq_take_iff, hlen]
        omega
      rwa [← htake]

/-! ## 3. The entry that is evicted -/

theorem FirstOldest.unique (h : m.FirstOldest seen i a) (h' : m.FirstOldest seen j b) :
    i = j ∧ a = b := by
  have hle : ∀ {i j : Nat} {a b : Int}, m.FirstOldest seen i a → m.FirstOldest seen j b →
      i ≤ j := by
    intro i j a b h h'
    by_contra hlt
    have hless := h.2.1 j b (not_le.mp hlt) h'.1
    exact absurd hless (Int64.not_lt.mpr (h'.2.2 a (List.mem_of_getElem? h.1)))
  obtain rfl : i = j := le_antisymm (hle h h') (hle h' h)
  exact ⟨rfl, Option.some.inj (h.1.symm.trans h'.1)⟩

/-- One entry goes back. -/
theorem Evicts.unique {m' : CAddrMan} (h : Evicts m m' k n a) (h' : Evicts m m' k n b)
    (hnodup : (m.vvTried k).Nodup) : a = b := by
  have hperm := (h.replaced.symm.trans h'.replaced).cons_inv
  by_contra hne
  have hmem : a ∈ (m.vvTried k).erase b := (hnodup.mem_erase_iff).mpr ⟨hne, h.held⟩
  exact (hnodup.mem_erase_iff.mp (hperm.mem_iff.mpr hmem)).1 rfl

theorem lastSuccess_lifted (a : Int) : (m.lifted n).lastSuccess a = m.lastSuccess a := by
  have hentry := @setInfo_field m n { m.mapInfo n with
    nRefCount := (m.mapInfo n).nRefCount - holders m.vvNew n } Int64 CAddrInfo.nLastSuccess rfl a
  exact hentry

theorem firstOldest_lifted :
    (m.lifted n).FirstOldest seen i a ↔ m.FirstOldest seen i a := by
  simp only [FirstOldest, lastSuccess_lifted]

/-- What is at a place among the first was inspected. -/
theorem mem_inspected_iff {a : Int} {p : Nat} (hnodup : (m.vvTried k).Nodup)
    (ha : (m.selectedBucket k rnd)[p]? = some a) :
    a ∈ m.inspected k rnd ↔ (m.inspected k rnd)[p]? = some a := by
  refine ⟨fun hmem => ?_, List.mem_of_getElem?⟩
  have hsel : (m.selectedBucket k rnd).Nodup := (shuffled_perm _).nodup_iff.mpr hnodup
  obtain ⟨j, hj⟩ := List.mem_iff_getElem?.mp hmem
  have hj' : (m.selectedBucket k rnd)[j]? = some a := by
    rw [inspected, List.getElem?_take] at hj
    split_ifs at hj
    exact hj
  obtain rfl : j = p :=
    (List.getElem?_inj (List.getElem?_eq_some_iff.mp hj').1 hsel).mp (hj'.trans ha.symm)
  exact hj

variable (K nKey) in
/-- **A full tried bucket**: which entry goes back. -/
theorem makeTried_evicts (h : Sound fits none m) {nOrigin : Fin 256} (hin : n ∈ m.vvNew nOrigin)
    (hk : (m.mapInfo n).getTriedBucket K nKey = k) (hfull : 64 ≤ (m.vvTried k).length)
    (rnd : Nat → Nat) :
    ∃ m' i old e, m.makeTried K nKey n nOrigin rnd = .ok m' ∧
      m.FirstOldest (m.inspected k rnd) i old ∧
      (m.selectedBucket k rnd)[triedPos rnd (m.vvTried k).length i]? = some e ∧
      Evicts m m' k n e := by
  obtain ⟨hn, hdown⟩ := h.ledger.inLower nOrigin n hin
  have hcount := (h.ledger.isDown n hn hdown).1
  rw [if_neg (by simp), add_zero] at hcount
  have hids : ∀ a ∈ (m.lifted n).vvTried k, a ∈ (m.lifted n).ids :=
    fun a ha => (h.ledger.inUpper k a ha).1
  obtain ⟨i, old, hselect, hi, holdest⟩ :=
    @selectTried_oldest (m.lifted n) k rnd hids (Nat.lt_of_lt_of_le (by decide) hfull)
  have hp : triedPos rnd (m.vvTried k).length i < (m.selectedBucket k rnd).length := by
    rw [selectedBucket, length_shuffled]
    refine triedPos_lt (hi.trans_le ?_)
    exact min_le_right _ _
  set e := (m.selectedBucket k rnd)[triedPos rnd (m.vvTried k).length i] with he
  have hat : (m.selectedBucket k rnd)[triedPos rnd (m.vvTried k).length i]? = some e :=
    List.getElem?_eq_getElem hp
  have hperm : (m.selectedBucket k rnd).Perm (m.vvTried k) := shuffled_perm _
  have heMem : e ∈ m.vvTried k := hperm.mem_iff.mp (List.getElem_mem hp)
  obtain ⟨heId, heUp⟩ := h.ledger.inUpper k e heMem
  have hne : n ≠ e := by
    rintro rfl
    rw [heUp] at hdown
    cases hdown
  have hmake : m.makeTried K nKey n nOrigin rnd =
      (m.lifted n).replaceTried K nKey n k nOrigin rnd := by
    rw [makeTried_eq K nKey hin hn hcount, hk, if_neg (not_lt.mpr hfull)]
  have hgone : ((m.selectedBucket k rnd).eraseIdx (triedPos rnd (m.vvTried k).length i)).Perm
      ((m.selectedBucket k rnd).erase e) :=
    ((List.getElem_cons_eraseIdx_perm hp).trans
      (List.perm_cons_erase (List.getElem_mem hp))).cons_inv
  refine ⟨_, i, old, e, hmake.trans (replaceTried_eq K nKey hselect hat heId hne),
    firstOldest_lifted.mp holdest, hat, heMem, ?_, fun k' hk' => ?_, ?_, ?_,
    backBucket K nKey (m.lifted n) nOrigin e, ?_⟩
  · dsimp only
    rw [Function.update_self]
    exact (List.set_perm_cons_eraseIdx hp n).trans ((hgone.trans (hperm.erase e)).cons n)
  · dsimp only
    rw [Function.update_of_ne hk', Function.update_of_ne hk']
    rfl
  · dsimp only
    rw [setInfo_mapInfo, if_neg hne.symm, setInfo_mapInfo, if_pos rfl]
  · dsimp only
    rw [setInfo_mapInfo, if_neg hne.symm, setInfo_mapInfo, if_pos rfl]
  · dsimp only
    rw [Function.update_self]
    exact Finset.mem_insert_self ..

/-- **When the oldest entry is evicted.**  The entry that `MakeTried` moves back from a full tried
bucket was inspected, and none of the inspected succeeded longer ago, if and only if the first of
the oldest was at a place for which the round brought up an entry as old. -/
theorem makeTried_evicts_oldest_iff (K : Crypto) (nKey : Valtype) (h : Sound fits none m)
    {nOrigin : Fin 256} (hin : n ∈ m.vvNew nOrigin)
    (hk : (m.mapInfo n).getTriedBucket K nKey = k) (hfull : 64 ≤ (m.vvTried k).length)
    (rnd : Nat → Nat) :
    ∃ m', m.makeTried K nKey n nOrigin rnd = .ok m' ∧
      ((∃ old ∈ m.inspected k rnd, (∀ a ∈ m.inspected k rnd, m.lastSuccess old ≤ m.lastSuccess a) ∧
        Evicts m m' k n old) ↔ m.OldestInPlace k rnd) := by
  obtain ⟨m', i, first, e, hmake, hfirst, hat, hevicts⟩ :=
    makeTried_evicts K nKey h hin hk hfull rnd
  have hnodup := h.ledger.nodup k
  have hseen := @mem_inspected_iff m k rnd e _ hnodup hat
  refine ⟨m', hmake, fun hclaim => ?_, fun hplace => ?_⟩
  · obtain ⟨old, hold, holdest, hevicts'⟩ := hclaim
    obtain rfl := hevicts.unique hevicts' hnodup
    have hle := holdest first (List.mem_of_getElem? hfirst.1)
    exact ⟨i, first, e, hfirst, hseen.mp hold, Int64.le_antisymm hle (hfirst.2.2 e hold)⟩
  · obtain ⟨j, old, a, hold, ha, hsame⟩ := hplace
    obtain ⟨rfl, rfl⟩ := hfirst.unique hold
    have hae : a = e := by
      rw [inspected, List.getElem?_take] at ha
      split_ifs at ha
      exact Option.some.inj (ha.symm.trans hat)
    rw [hae] at ha hsame
    exact ⟨e, hseen.mpr ha, fun x hx => hsame ▸ hfirst.2.2 x hx, hevicts⟩

/-! ## 4. A full bucket -/

/-- Entries 0 to 63 are tried, and the later they came the longer ago they succeeded; entry 64 is
new. -/
def sampleEntry (n : Int) : CAddrInfo :=
  { CAddrInfo.new ⟨⟨⟨UInt8.ofNat n.toNat :: List.replicate 63 0, CNetAddr.length_numbered n⟩, 0⟩,
      0, 0, 0⟩ default with
    nLastSuccess := Int64.ofInt (100 - n)
    nRefCount := if n < 64 then 0 else 1
    fInTried := decide (n < 64)
    nRandomPos := n }

local instance neZero64 : NeZero 64 := ⟨by decide⟩
local instance neZero256 : NeZero 256 := ⟨by decide⟩

/-- All of them in one bucket. -/
def fullTried : CAddrMan where
  nIdCount := 65
  ids := ((List.range 65).map Int.ofNat).toFinset
  mapInfo := sampleEntry
  mapAddr a :=
    let n : Int := (a.headD 0).toNat
    if n < 65 ∧ (sampleEntry n).addr.key = a then some n else none
  vRandom := (List.range 65).map Int.ofNat
  nTried := 64
  vvTried k := if k = 0 then (List.range 64).map Int.ofNat else []
  nNew := 1
  vvNew b := if b = 0 then {64} else ∅

theorem mem_ids_fullTried {n : Int} : n ∈ fullTried.ids ↔ 0 ≤ n ∧ n < 65 := by
  change n ∈ ((List.range 65).map Int.ofNat).toFinset ↔ _
  rw [List.mem_toFinset, List.mem_map]
  constructor
  · rintro ⟨i, hi, rfl⟩
    exact ⟨Int.natCast_nonneg i, Int.ofNat_lt.mpr (List.mem_range.mp hi)⟩
  · rintro ⟨hn, hlt⟩
    exact ⟨n.toNat, List.mem_range.mpr (by omega), Int.toNat_of_nonneg hn⟩

theorem mem_vvTried_fullTried {n : Int} {k : Fin 64} :
    n ∈ fullTried.vvTried k ↔ k = 0 ∧ 0 ≤ n ∧ n < 64 := by
  change n ∈ (if k = 0 then (List.range 64).map Int.ofNat else []) ↔ _
  split_ifs with hk
  · rw [List.mem_map]
    constructor
    · rintro ⟨i, hi, rfl⟩
      exact ⟨hk, Int.natCast_nonneg i, Int.ofNat_lt.mpr (List.mem_range.mp hi)⟩
    · rintro ⟨-, hn, hlt⟩
      exact ⟨n.toNat, List.mem_range.mpr (by omega), Int.toNat_of_nonneg hn⟩
  · simp [hk]

theorem mem_vvNew_fullTried {n : Int} {b : Fin 256} : n ∈ fullTried.vvNew b ↔ b = 0 ∧ n = 64 := by
  change n ∈ (if b = 0 then {64} else ∅ : Finset Int) ↔ _
  split_ifs with hb <;> simp [hb]

theorem roster_fullTried : Roster fullTried := by
  refine ⟨fun i n hn => ?_, fun n => ?_, fun a n => ?_, fun n hn => (mem_ids_fullTried.mp hn).2⟩
  · have hat : ((List.range 65).map Int.ofNat)[i]? = some n := hn
    rw [List.getElem?_map, Option.map_eq_some_iff] at hat
    obtain ⟨j, hj, rfl⟩ := hat
    obtain ⟨hlt, rfl⟩ := List.getElem?_eq_some_iff.mp hj
    rw [List.getElem_range]
    rfl
  · exact List.mem_toFinset.symm
  · change (if (((a.headD 0).toNat : Int) < 65 ∧ (sampleEntry (a.headD 0).toNat).addr.key = a) then
      some ((a.headD 0).toNat : Int) else none) = some n ↔ _
    constructor
    · intro h
      split_ifs at h with hkey
      obtain rfl := Option.some.inj h
      exact ⟨mem_ids_fullTried.mpr ⟨Int.natCast_nonneg _, hkey.1⟩, hkey.2⟩
    · rintro ⟨hn, rfl⟩
      obtain ⟨hpos, hlt⟩ := mem_ids_fullTried.mp hn
      have hhead : ((sampleEntry n).addr.key.headD 0).toNat = n := by
        change ((UInt8.ofNat n.toNat).toNat : Int) = n
        rw [UInt8.toNat_ofNat']
        omega
      change (if (((sampleEntry n).addr.key.headD 0).toNat : Int) < 65 ∧
        (sampleEntry ((sampleEntry n).addr.key.headD 0).toNat).addr.key =
          (sampleEntry n).addr.key then
        some (((sampleEntry n).addr.key.headD 0).toNat : Int) else none) = some n
      rw [hhead, if_pos ⟨hlt, rfl⟩]

theorem ledger_fullTried : Ledger none fullTried.ids fullTried where
  inUpper k n hn := by
    obtain ⟨-, hpos, hlt⟩ := mem_vvTried_fullTried.mp hn
    exact ⟨mem_ids_fullTried.mpr ⟨hpos, by omega⟩, decide_eq_true hlt⟩
  isUp n hn hup := by
    have hlt : n < 64 := of_decide_eq_true hup
    exact ⟨if_pos hlt, 0, mem_vvTried_fullTried.mpr ⟨rfl, (mem_ids_fullTried.mp hn).1, hlt⟩⟩
  once k k' n hk hk' := (mem_vvTried_fullTried.mp hk).1.trans (mem_vvTried_fullTried.mp hk').1.symm
  nodup k := by
    change (if k = 0 then (List.range 64).map Int.ofNat else []).Nodup
    split_ifs
    · exact List.nodup_range.map Int.ofNat_injective
    · exact List.nodup_nil
  upperCap k := by
    change (if k = 0 then (List.range 64).map Int.ofNat else []).length ≤ 64
    split_ifs <;> simp
  inLower b n hn := by
    obtain ⟨-, rfl⟩ := mem_vvNew_fullTried.mp hn
    exact ⟨mem_ids_fullTried.mpr ⟨by decide, by decide⟩, rfl⟩
  lowerCap b := by
    change (if b = 0 then {64} else ∅ : Finset Int).card ≤ 64
    split_ifs <;> simp
  isDown n hn hdown := by
    have hle : ¬ n < 64 := of_decide_eq_false hdown
    obtain rfl : n = 64 := by
      have := (mem_ids_fullTried.mp hn).2
      omega
    exact ⟨by decide +kernel, by decide, by decide⟩
  isPending n hn := by cases hn
  tallyUp := by decide +kernel
  tallyDown := by decide +kernel

theorem sound_fullTried : Sound False none fullTried :=
  ⟨roster_fullTried, ledger_fullTried, False.elim⟩

/-- Every round finds its entry in place, and the last one brings up the oldest. -/
theorem makeTried_evicts_oldest_first :
    ∃ m', fullTried.makeTried zeroCrypto [] 64 0 (fun _ => 0) = .ok m' ∧
      ((∃ old ∈ fullTried.inspected 0 fun _ => 0,
        (∀ a ∈ fullTried.inspected 0 fun _ => 0,
          fullTried.lastSuccess old ≤ fullTried.lastSuccess a) ∧
        Evicts fullTried m' 0 64 old) ↔ fullTried.OldestInPlace 0 fun _ => 0) :=
  makeTried_evicts_oldest_iff zeroCrypto [] sound_fullTried
    (mem_vvNew_fullTried.mpr ⟨rfl, rfl⟩) (by decide +kernel) (by decide +kernel) fun _ => 0

/-- **Another entry is evicted.**  Entries 10 to 13 are inspected, and 13 is the oldest of them; but
3, which it changed places with, goes back, and it succeeded later than all of the four. -/
theorem makeTried_evicts_newer :
    fullTried.inspected 0 (fun _ => 10) = [10, 11, 12, 13] ∧
      (∀ a ∈ [10, 11, 12, 13], fullTried.lastSuccess 13 ≤ fullTried.lastSuccess a ∧
        fullTried.lastSuccess a < fullTried.lastSuccess 3) ∧
      ∃ m', fullTried.makeTried zeroCrypto [] 64 0 (fun _ => 10) = .ok m' ∧
        (m'.mapInfo 3).fInTried = false ∧ 3 ∈ m'.vvNew 0 ∧ (m'.mapInfo 13).fInTried = true :=
  ⟨by decide +kernel, by decide +kernel, _, rfl, by decide +kernel, by decide +kernel,
    by decide +kernel⟩

end CAddrMan

end Breakout
