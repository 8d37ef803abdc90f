/-
# The address manager read from its file

The reader goes through three loops: over the new entries, over the tried ones, and over the new
buckets.  For each there is a relation between what has been read and the manager so far, which one
round keeps (`readNew_spec`, `readTried_spec`, `readIndex_spec`): `Placed` for the entries, whose
new ids are their places in the order in which they are read, and `Held` for the buckets.

`reread_spec` says what comes back from a manager that passes `Check_`.  The ids are others, and so
is the random order.  The time of the last try is not written, and the number of attempts is kept
between 0 and 22.  `Check_` says nothing about which tried bucket an entry is in, nor how many are
in one; the reader admits 64 to a bucket, and the others are lost.  All else is as it was, and the
check passes again.
-/
import Breakout.Lib.Admission
import Breakout.PeersFile

namespace Breakout

open Lib

namespace CAddrMan

variable {K : Crypto} {nKey : Valtype} {m m' m'' : CAddrMan} {n : Int} {L : List Int}
  {rest : List UInt8}

/-! ## 1. The entries are read -/

/-- The tried bucket of an entry. -/
def bucketOf (K : Crypto) (nKey : Valtype) (m : CAddrMan) (n : Int) : Fin 64 :=
  (m.mapInfo n).getTriedBucket K nKey

/-- The tried entries that find room. -/
def room (K : Crypto) (nKey : Valtype) (m : CAddrMan) : List Int :=
  letIn 64 (bucketOf K nKey m) m.triedIds

/-- An entry as it is read, at its place. -/
def placedInfo (m : CAddrMan) (n i : Int) : CAddrInfo :=
  { (m.mapInfo n).reread with fInTried := (m.mapInfo n).fInTried, nRandomPos := i }

/-- **Some entries are read**, in this order. -/
structure Placed (K : Crypto) (nKey : Valtype) (m : CAddrMan) (L : List Int) (m' : CAddrMan) :
    Prop where
  vRandom : m'.vRandom = (List.range L.length).map fun i : Nat => (i : Int)
  ids : m'.ids = Finset.Ico 0 (L.length : Int)
  entry : ∀ (i : Nat) n, L[i]? = some n → m'.mapInfo i = placedInfo m n i
  addr : ∀ (i : Nat) n, L[i]? = some n → m'.mapAddr (m.mapInfo n).addr.key = some (i : Int)
  vvTried : ∀ k, m'.vvTried k =
    (L.filter fun n => (m.mapInfo n).fInTried && decide (bucketOf K nKey m n = k)).map
      fun n => (L.idxOf n : Int)
  vvNew : ∀ b, m'.vvNew b = ∅

theorem placed_nil (nNew nTried : Int) :
    Placed K nKey m [] { new with nNew := nNew, nTried := nTried } :=
  ⟨rfl, rfl, nofun, nofun, fun _ => rfl, fun _ => rfl⟩

/-- Counters do not matter. -/
theorem Placed.counters (h : Placed K nKey m L m') (nIdCount nTried : Int) :
    Placed K nKey m L { m' with nIdCount := nIdCount, nTried := nTried } :=
  ⟨h.vRandom, h.ids, h.entry, h.addr, h.vvTried, h.vvNew⟩

/-- **One more entry** is read. -/
theorem Placed.concat (h : Placed K nKey m L m') (hn : n ∉ L)
    (hkey : ∀ k ∈ L, (m.mapInfo k).addr.key ≠ (m.mapInfo n).addr.key)
    (hrandom : m''.vRandom = m'.vRandom ++ [(L.length : Int)])
    (hids : m''.ids = insert (L.length : Int) m'.ids)
    (hinfo : m''.mapInfo = Function.update m'.mapInfo L.length (placedInfo m n L.length))
    (haddr : m''.mapAddr =
      Function.update m'.mapAddr (m.mapInfo n).addr.key (some (L.length : Int)))
    (htried : ∀ k, m''.vvTried k =
      if (m.mapInfo n).fInTried = true ∧ bucketOf K nKey m n = k then
        m'.vvTried k ++ [(L.length : Int)]
      else m'.vvTried k)
    (hnew : m''.vvNew = m'.vvNew) : Placed K nKey m (L ++ [n]) m'' := by
  have hat : ∀ (i : Nat) k, (L ++ [n])[i]? = some k →
      (i < L.length ∧ L[i]? = some k) ∨ (i = L.length ∧ k = n) := by
    intro i k hi
    rw [List.getElem?_append] at hi
    split_ifs at hi with hlt
    · exact .inl ⟨hlt, hi⟩
    · obtain ⟨hzero, hk⟩ := List.getElem?_eq_some_iff.mp hi
      rw [List.length_singleton] at hzero
      refine .inr ⟨by omega, ?_⟩
      rw [← hk, List.getElem_singleton]
  refine ⟨?_, ?_, fun i k hi => ?_, fun i k hi => ?_, fun k => ?_, fun b => ?_⟩
  · rw [hrandom, h.vRandom, List.length_append, List.length_singleton, List.range_succ,
      List.map_append, List.map_singleton]
  · rw [hids, h.ids]
    ext i
    rw [Finset.mem_insert, Finset.mem_Ico, Finset.mem_Ico, List.length_append,
      List.length_singleton]
    push_cast
    omega
  · rw [hinfo]
    rcases hat i k hi with ⟨hlt, hi⟩ | ⟨rfl, rfl⟩
    · rw [Function.update_of_ne (by exact_mod_cast hlt.ne), h.entry i k hi]
    · rw [Function.update_self]
  · rw [haddr]
    rcases hat i k hi with ⟨hlt, hi⟩ | ⟨rfl, rfl⟩
    · rw [Function.update_of_ne (hkey k (List.mem_of_getElem? hi)), h.addr i k hi]
    · rw [Function.update_self]
  · have hsame : (L.filter fun n => (m.mapInfo n).fInTried && decide (bucketOf K nKey m n = k)).map
        (fun k => ((L ++ [n]).idxOf k : Int)) = m'.vvTried k := by
      rw [h.vvTried k]
      refine List.map_congr_left fun j hj => ?_
      rw [List.idxOf_append_of_mem (List.mem_of_mem_filter hj)]
    rw [htried, List.filter_append, List.map_append, hsame, List.filter_singleton]
    by_cases hin : (m.mapInfo n).fInTried = true ∧ bucketOf K nKey m n = k
    · have hidx : (L ++ [n]).idxOf n = L.length := by
        rw [List.idxOf_append_of_notMem hn, List.idxOf_cons_self, Nat.add_zero]
      simp [hin.1, hin.2, hidx]
    · rw [if_neg hin]
      have hout : ((m.mapInfo n).fInTried && decide (bucketOf K nKey m n = k)) = false := by
        simpa using hin
      simp [hout]
  · rw [hnew, h.vvNew]

variable {l : List Int} {i : Nat}

/-- The next element is none of those before it. -/
theorem getElem_notMem_take (hl : l.Nodup) (hi : i < l.length) :
    l[i] ∉ l.take i := by
  have htake := hl.sublist (List.take_sublist (i + 1) l)
  rw [List.take_succ_eq_append_getElem hi, List.nodup_append] at htake
  exact fun hmem => htake.2.2 _ hmem _ (List.mem_singleton_self _) rfl

theorem infos_drop (hi : i < l.length) (rest : List UInt8) :
    m.infos (l.drop i) ++ rest =
      (m.mapInfo l[i]).serialize ++ (m.infos (l.drop (i + 1)) ++ rest) := by
  rw [List.drop_eq_getElem_cons hi, infos, List.flatMap_cons, List.append_assoc]
  rfl

/-- So many new entries are read. -/
structure NewRead (K : Crypto) (nKey : Valtype) (m : CAddrMan) (rest : List UInt8) (i : Nat)
    (s : CAddrMan × List UInt8) : Prop where
  placed : Placed K nKey m (m.newIds.take i) s.1
  nNew : s.1.nNew = m.nNew
  nTried : s.1.nTried = m.nTried
  left : s.2 = m.infos (m.newIds.drop i) ++ rest

theorem readNew_spec (hm : Checked m) (hi : i < m.newIds.length) {s : CAddrMan × List UInt8}
    (h : NewRead K nKey m rest i s) :
    ∃ s', readNew K nKey 256 s i = .ok s' ∧ NewRead K nKey m rest (i + 1) s' := by
  obtain ⟨m', is⟩ := s
  obtain ⟨hplaced, hnNew, hnTried, hleft⟩ := h
  dsimp only at hplaced hnNew hnTried hleft
  have hmem : m.newIds[i] ∈ m.newIds := List.getElem_mem hi
  obtain ⟨hid, hdown⟩ := hm.mem_newIds.mp hmem
  have hlength : (m.newIds.take i).length = i := List.length_take_of_le hi.le
  have hrandom : m'.vRandom.length = i := by
    rw [hplaced.vRandom, List.length_map, List.length_range, hlength]
  have hout := getElem_notMem_take Checked.nodup_newIds hi
  have hinfo : { (m.mapInfo m.newIds[i]).reread with nRandomPos := (m'.vRandom.length : Int) } =
      placedInfo m m.newIds[i] (i : Int) := by
    rw [placedInfo, hdown, hrandom]
    rfl
  refine ⟨({ m' with
    ids := insert (i : Int) m'.ids
    mapInfo := Function.update m'.mapInfo i (placedInfo m m.newIds[i] i)
    mapAddr := Function.update m'.mapAddr (m.mapInfo m.newIds[i]).addr.key (some (i : Int))
    vRandom := m'.vRandom ++ [(i : Int)] }, m.infos (m.newIds.drop (i + 1)) ++ rest), ?_,
    ⟨?_, hnNew, hnTried, rfl⟩⟩
  · rw [hleft, infos_drop hi]
    unfold readNew
    dsimp only
    rw [CAddrInfo.unserialize_serialize]
    dsimp only [expect]
    rw [ok_bind]
    dsimp only
    rw [hinfo, if_neg (by decide)]
    rfl
  · rw [List.take_succ_eq_append_getElem hi]
    refine hplaced.concat hout (fun k hk heq => ?_) ?_ ?_ ?_ ?_ (fun k => ?_) rfl
    · have hkid := (hm.mem_newIds.mp (List.mem_of_mem_take hk)).1
      exact hout (hm.key_inj hkid hid heq ▸ hk)
    · rw [hlength]
    · rw [hlength]
    · rw [hlength]
    · rw [hlength]
    · rw [hdown, if_neg (by simp)]

/-- So many tried entries are read, and those that found no room are counted. -/
structure TriedRead (K : Crypto) (nKey : Valtype) (m : CAddrMan) (rest : List UInt8) (i : Nat)
    (s : CAddrMan × Int × List UInt8) : Prop where
  placed : Placed K nKey m
    (m.newIds ++ letIn 64 (bucketOf K nKey m) (m.triedIds.take i)) s.1
  nIdCount : s.1.nIdCount =
    (m.newIds ++ letIn 64 (bucketOf K nKey m) (m.triedIds.take i)).length
  nNew : s.1.nNew = m.nNew
  nTried : s.1.nTried = m.nTried
  nLost : s.2.1 = i - (letIn 64 (bucketOf K nKey m) (m.triedIds.take i)).length
  left : s.2.2 = m.infos (m.triedIds.drop i) ++ rest

/-- A tried bucket has the admitted entries. -/
theorem Placed.vvTried_eq (hm : Checked m) {A : List Int} (hA : ∀ n ∈ A, n ∈ m.triedIds)
    (h : Placed K nKey m (m.newIds ++ A) m') (k : Fin 64) :
    m'.vvTried k =
      (A.filter (bucketOf K nKey m · = k)).map fun n => ((m.newIds ++ A).idxOf n : Int) := by
  have hnew : (m.newIds.filter fun n => (m.mapInfo n).fInTried &&
      decide (bucketOf K nKey m n = k)) = [] := by
    refine List.filter_eq_nil_iff.mpr fun n hn => ?_
    rw [(hm.mem_newIds.mp hn).2]
    simp
  have htried : (A.filter fun n => (m.mapInfo n).fInTried && decide (bucketOf K nKey m n = k)) =
      A.filter (bucketOf K nKey m · = k) := by
    refine List.filter_congr fun n hn => ?_
    rw [(Checked.mem_triedIds.mp (hA n hn)).2, Bool.true_and]
  rw [h.vvTried, List.filter_append, hnew, htried, List.nil_append]

/-- **A tried entry is read**, or lost. -/
theorem readTried_spec (hm : Checked m) (hi : i < m.triedIds.length)
    {s : CAddrMan × Int × List UInt8} (h : TriedRead K nKey m rest i s) :
    ∃ s', readTried K nKey s i = .ok s' ∧ TriedRead K nKey m rest (i + 1) s' := by
  obtain ⟨m', nLost, is⟩ := s
  obtain ⟨hplaced, hnIdCount, hnNew, hnTried, hnLost, hleft⟩ := h
  dsimp only at hplaced hnIdCount hnNew hnTried hnLost hleft
  have hsub : (letIn 64 (bucketOf K nKey m) (m.triedIds.take i)).Sublist (m.triedIds.take i) :=
    letIn_sublist _
  have hcount : (m'.vvTried (bucketOf K nKey m m.triedIds[i])).length =
      (letIn 64 (bucketOf K nKey m) (m.triedIds.take i)).countP
        (bucketOf K nKey m · = bucketOf K nKey m m.triedIds[i]) := by
    rw [hplaced.vvTried_eq hm fun n hn => List.mem_of_mem_take (hsub.subset hn), List.length_map,
      List.countP_eq_length_filter]
  have hconcat := @letIn_concat _ _ _ 64 (bucketOf K nKey m) (m.triedIds.take i) m.triedIds[i]
  rw [← List.take_succ_eq_append_getElem hi, ← hcount] at hconcat
  have hread : readTried K nKey (m', nLost, is) i =
      if (m'.vvTried (bucketOf K nKey m m.triedIds[i])).length < 64 then
        .ok ({ m' with
          vRandom := m'.vRandom ++ [m'.nIdCount]
          ids := insert m'.nIdCount m'.ids
          mapInfo := Function.update m'.mapInfo m'.nIdCount
            { (m.mapInfo m.triedIds[i]).reread with
              nRandomPos := m'.vRandom.length, fInTried := true }
          mapAddr := Function.update m'.mapAddr (m.mapInfo m.triedIds[i]).addr.key
            (some m'.nIdCount)
          vvTried := Function.update m'.vvTried (bucketOf K nKey m m.triedIds[i])
            (m'.vvTried (bucketOf K nKey m m.triedIds[i]) ++ [m'.nIdCount])
          nIdCount := m'.nIdCount + 1 }, nLost, m.infos (m.triedIds.drop (i + 1)) ++ rest)
      else .ok (m', nLost + 1, m.infos (m.triedIds.drop (i + 1)) ++ rest) := by
    rw [hleft, infos_drop hi]
    unfold readTried
    dsimp only
    rw [CAddrInfo.unserialize_serialize]
    rfl
  rw [hread]
  obtain ⟨hid, htried⟩ := Checked.mem_triedIds.mp (List.getElem_mem hi)
  by_cases hroom : (m'.vvTried (bucketOf K nKey m m.triedIds[i])).length < 64
  · rw [if_pos hroom] at hconcat ⊢
    have hrandom : (m'.vRandom.length : Int) = m'.nIdCount := by
      rw [hplaced.vRandom, List.length_map, List.length_range, hnIdCount]
    have hout : m.triedIds[i] ∉
        m.newIds ++ letIn 64 (bucketOf K nKey m) (m.triedIds.take i) := by
      rw [List.mem_append, hm.mem_newIds, htried, not_or]
      exact ⟨by simp, fun hmem =>
        getElem_notMem_take Checked.nodup_triedIds hi (hsub.subset hmem)⟩
    refine ⟨_, rfl, ⟨?_, ?_, hnNew, hnTried, ?_, rfl⟩⟩
    · rw [hconcat, ← List.append_assoc]
      refine hplaced.concat hout (fun k hk heq => ?_) ?_ ?_ ?_ ?_ (fun k => ?_) rfl
      · have hkid : k ∈ m.ids := by
          rcases List.mem_append.mp hk with hk | hk
          · exact (hm.mem_newIds.mp hk).1
          · exact (Checked.mem_triedIds.mp (List.mem_of_mem_take (hsub.subset hk))).1
        exact hout (hm.key_inj hkid hid heq ▸ hk)
      · rw [← hnIdCount]
      · rw [← hnIdCount]
      · rw [← hnIdCount, placedInfo, htried, hrandom]
      · rw [← hnIdCount]
      · rw [← hnIdCount]
        by_cases hk : bucketOf K nKey m m.triedIds[i] = k
        · subst hk
          rw [if_pos ⟨htried, rfl⟩]
          exact Function.update_self ..
        · rw [if_neg fun h => hk h.2]
          exact Function.update_of_ne (Ne.symm hk) ..
    · dsimp only
      rw [hconcat, hnIdCount, ← List.append_assoc, @List.length_append _ _ [_]]
      rfl
    · dsimp only
      rw [hconcat, hnLost, List.length_append, List.length_singleton]
      push_cast
      ring
  · rw [if_neg hroom] at hconcat ⊢
    refine ⟨_, rfl, ⟨?_, ?_, hnNew, hnTried, ?_, rfl⟩⟩
    · rw [hconcat]
      exact hplaced
    · rw [hconcat]
      exact hnIdCount
    · dsimp only
      rw [hconcat, hnLost]
      push_cast
      ring

/-! ## 2. The new buckets are read -/

/-- **Some of the buckets are read**: those in `H` are held, and their references counted. -/
structure Held (L : List Int) (m : CAddrMan) (H : Fin 256 → Finset Int) (m' : CAddrMan) : Prop where
  vvNew : ∀ b, m'.vvNew b = (H b).image fun n => (L.idxOf n : Int)
  refs : ∀ n ∈ L, (m'.mapInfo (L.idxOf n)).nRefCount = holders H n
  entry : ∀ i, m'.mapInfo i = { m.mapInfo i with nRefCount := (m'.mapInfo i).nRefCount }
  rest : m' = { m with mapInfo := m'.mapInfo, vvNew := m'.vvNew }

variable {H : Fin 256 → Finset Int} {b : Fin 256}

variable {lower : Fin 256 → Finset Int}

/-- Another bucket has the entry. -/
theorem holders_lt (hsub : ∀ b, H b ⊆ lower b) (hin : n ∈ lower b) (hout : n ∉ H b) :
    holders H n < holders lower n := by
  refine Finset.card_lt_card ((Finset.ssubset_iff_of_subset fun b' hb' => ?_).mpr ⟨b, ?_, ?_⟩)
  · rw [Finset.mem_filter] at hb' ⊢
    exact ⟨hb'.1, hsub b' hb'.2⟩
  · simpa using hin
  · simpa using hout

/-- **An entry of a bucket is read.** -/
theorem readIndex_spec (rest : List UInt8) (h : Held L m H m') (hn : n ∈ L)
    (hid : (L.idxOf n : Int) ∈ m.ids) (hfits : (L.idxOf n : Int) < 2 ^ 31) (hout : n ∉ H b) (hroom : holders H n < 4) (j : Nat) :
    ∃ m'', readIndex 256 b (m', serInt32 (Int32.ofInt (L.idxOf n)) ++ rest) j = .ok (m'', rest) ∧
      Held L m (Function.update H b (insert n (H b))) m'' := by
  have hback : (Int32.ofInt (L.idxOf n)).toInt = L.idxOf n :=
    Int32.toInt_ofInt_of_le (by omega) hfits
  have hids : insert (L.idxOf n : Int) m'.ids = m'.ids := by
    rw [h.rest]
    exact Finset.insert_eq_of_mem hid
  have hrefs := h.refs n hn
  set info : CAddrInfo := { m'.mapInfo (L.idxOf n) with
    nRefCount := (m'.mapInfo (L.idxOf n)).nRefCount + 1 } with hinfo
  refine ⟨{ m'.setInfo (L.idxOf n) info with
    vvNew := Function.update m'.vvNew b (insert (L.idxOf n : Int) (m'.vvNew b)) }, ?_, ?_⟩
  · unfold readIndex
    dsimp only
    rw [reads_readInt32.read trivial]
    dsimp only [expect]
    rw [ok_bind]
    dsimp only
    rw [hback, hids, if_pos ⟨rfl, by rw [hrefs]; exact_mod_cast hroom⟩]
    rfl
  · refine ⟨fun b' => ?_, fun k hk => ?_, fun i => ?_, ?_⟩
    · dsimp only
      by_cases hb : b' = b
      · subst hb
        rw [Function.update_self, Function.update_self, Finset.image_insert, h.vvNew]
      · rw [Function.update_of_ne hb, Function.update_of_ne hb, h.vvNew]
    · dsimp only
      rw [setInfo_mapInfo, holders_insert hout]
      by_cases hkn : k = n
      · subst hkn
        rw [if_pos rfl, if_pos rfl, hinfo]
        dsimp only
        rw [hrefs]
        push_cast
        rfl
      · have hne : ¬ ((L.idxOf k : Int) = L.idxOf n) := by
          rw [Nat.cast_inj, List.idxOf_inj hk]
          exact hkn
        rw [if_neg hne, if_neg hkn, h.refs k hk, Nat.add_zero]
    · dsimp only
      rw [setInfo_mapInfo]
      split_ifs with hi
      · subst hi
        rw [hinfo, h.entry]
      · exact h.entry i
    · rw [h.rest]
      rfl

theorem readBucket_spec (rest : List UInt8) {places : Int → Int} (h : Held L m H m')
    (hsub : ∀ b', H b' ⊆ lower b') (hempty : H b = ∅)
    (hin : ∀ n ∈ lower b, n ∈ L ∧ places n = L.idxOf n ∧ (L.idxOf n : Int) ∈ m.ids ∧
      (L.idxOf n : Int) < 2 ^ 31 ∧ holders lower n ≤ 4)
    (hsize : (lower b).card < 2 ^ 31) :
    ∃ m'', readBucket 256 (m', writeBucket places (lower b) ++ rest) b = .ok (m'', rest) ∧
      Held L m (Function.update H b (lower b)) m'' := by
  set l := (lower b).sort with hl
  have hmem : ∀ {n}, n ∈ l ↔ n ∈ lower b := Finset.mem_sort ..
  have hnodup : l.Nodup := Finset.sort_nodup ..
  have hlength : l.length = (lower b).card := Finset.length_sort ..
  set bytes : List Int → List UInt8 :=
    fun l => l.flatMap fun n => serInt32 (Int32.ofInt (places n)) with hbytes
  have hloop := foldlM_range_ok (f := readIndex 256 b)
    (P := fun j s => Held L m (Function.update H b (l.take j).toFinset) s.1 ∧
      s.2 = bytes (l.drop j) ++ rest) l.length ?_ (a := (m', bytes l ++ rest)) ?_
  · obtain ⟨⟨m'', left⟩, hfold, hheld, hleft⟩ := hloop
    dsimp only at hheld hleft
    rw [List.take_length, hl, Finset.sort_toFinset] at hheld
    refine ⟨m'', ?_, hheld⟩
    unfold readBucket writeBucket
    dsimp only
    rw [dif_pos b.isLt, List.append_assoc, reads_readInt32.read trivial]
    dsimp only [expect]
    rw [ok_bind]
    dsimp only
    rw [Int32.toInt_ofNat_of_lt hsize, Int.toNat_natCast, ← hlength]
    refine hfold.trans ?_
    rw [hleft, List.drop_length]
    rfl
  · rintro j hj ⟨m₁, is⟩ ⟨hheld, hleft⟩
    dsimp only at hheld hleft
    obtain ⟨hL, hplace, hid, hfits, hfour⟩ := hin l[j] (hmem.mp (List.getElem_mem hj))
    have hout : l[j] ∉ Function.update H b (l.take j).toFinset b := by
      rw [Function.update_self, List.mem_toFinset]
      exact getElem_notMem_take hnodup hj
    have hpart : ∀ b', Function.update H b (l.take j).toFinset b' ⊆ lower b' := by
      intro b'
      by_cases hb : b' = b
      · subst hb
        rw [Function.update_self]
        intro k hk
        exact hmem.mp (List.mem_of_mem_take (List.mem_toFinset.mp hk))
      · rw [Function.update_of_ne hb]
        exact hsub b'
    have hroom := (holders_lt hpart (hmem.mp (List.getElem_mem hj)) hout).trans_le hfour
    obtain ⟨m₂, hread, hnext⟩ := readIndex_spec (bytes (l.drop (j + 1)) ++ rest) hheld hL hid
      hfits hout hroom j
    refine ⟨(m₂, bytes (l.drop (j + 1)) ++ rest), ?_, ?_, rfl⟩
    · rw [← hread, hleft, List.drop_eq_getElem_cons hj, ← hplace, ← List.append_assoc]
      rfl
    · dsimp only
      rw [Function.update_self, Function.update_idem] at hnext
      rw [List.take_succ_eq_append_getElem hj, List.toFinset_append, Finset.union_comm]
      exact hnext
  · refine ⟨?_, rfl⟩
    dsimp only
    rw [List.take_zero, List.toFinset_nil, ← hempty, Function.update_eq_self]
    exact h

/-! ## 3. The manager is read -/

/-- The entries in the order in which they are read. -/
def readOrder (K : Crypto) (nKey : Valtype) (m : CAddrMan) : List Int :=
  m.newIds ++ m.room K nKey

/-- The entries that come back: the new ones, and the tried ones that find room. -/
def kept (K : Crypto) (nKey : Valtype) (m : CAddrMan) : Finset Int :=
  m.ids.filter fun n => (m.mapInfo n).fInTried = true → n ∈ m.room K nKey

/-- **What comes back.**  The entries have other ids and other places in `vRandom`; the time of the
last try is gone, and the attempts are clamped.  New buckets have the entries they had, and a tried
bucket has the first 64 of its entries. -/
structure Reread (K : Crypto) (nKey : Valtype) (m : CAddrMan) (newId : Int → Int) (m' : CAddrMan) :
    Prop where
  injOn : Set.InjOn newId (m.kept K nKey)
  ids : m'.ids = (m.kept K nKey).image newId
  entry : ∀ n ∈ m.kept K nKey, ∃ p, m'.mapInfo (newId n) = { m.mapInfo n with
    nLastTry := 0
    nAttempts := clampAttempts (m.mapInfo n).nAttempts
    nRandomPos := p }
  vvNew : ∀ b, m'.vvNew b = (m.vvNew b).image newId
  vvTried : ∀ k, m'.vvTried k =
    ((m.triedIds.filter (bucketOf K nKey m · = k)).take 64).map newId

namespace Checked

theorem room_sublist : (m.room K nKey).Sublist m.triedIds := letIn_sublist _

theorem mem_readOrder (hm : Checked m) : n ∈ m.readOrder K nKey ↔ n ∈ m.kept K nKey := by
  unfold readOrder kept
  rw [List.mem_append, hm.mem_newIds, Finset.mem_filter]
  constructor
  · rintro (⟨hn, hdown⟩ | hn)
    · exact ⟨hn, fun htried => absurd htried (by simp [hdown])⟩
    · exact ⟨(mem_triedIds.mp (room_sublist.subset hn)).1, fun _ => hn⟩
  · rintro ⟨hn, hroom⟩
    cases htried : (m.mapInfo n).fInTried with
    | true => exact .inr (hroom htried)
    | false => exact .inl ⟨hn, rfl⟩

theorem nodup_readOrder (hm : Checked m) : (m.readOrder K nKey).Nodup := by
  refine List.nodup_append.mpr ⟨nodup_newIds, nodup_triedIds.sublist room_sublist, ?_⟩
  rintro n hn _ hn' rfl
  have hdown := (hm.mem_newIds.mp hn).2
  rw [(mem_triedIds.mp (room_sublist.subset hn')).2] at hdown
  cases hdown

end Checked

/-- All has been read. -/
structure AllRead (K : Crypto) (nKey : Valtype) (m m' : CAddrMan) : Prop where
  vRandom : m'.vRandom = (List.range (m.readOrder K nKey).length).map fun i : Nat => (i : Int)
  ids : ∀ i, i ∈ m'.ids ↔ ∃ n ∈ m.readOrder K nKey, ((m.readOrder K nKey).idxOf n : Int) = i
  entry : ∀ n ∈ m.readOrder K nKey, m'.mapInfo ((m.readOrder K nKey).idxOf n) = { m.mapInfo n with
    nLastTry := 0
    nAttempts := clampAttempts (m.mapInfo n).nAttempts
    nRandomPos := (m.readOrder K nKey).idxOf n }
  addr : ∀ n ∈ m.readOrder K nKey,
    m'.mapAddr (m.mapInfo n).addr.key = some ((m.readOrder K nKey).idxOf n : Int)
  vvTried : ∀ k, m'.vvTried k = ((m.room K nKey).filter (bucketOf K nKey m · = k)).map
    fun n => ((m.readOrder K nKey).idxOf n : Int)
  vvNew : ∀ b, m'.vvNew b = (m.vvNew b).image fun n => ((m.readOrder K nKey).idxOf n : Int)
  nNew : m'.nNew = m.newIds.length
  nTried : m'.nTried = (m.room K nKey).length

/-- Places are distinct. -/
theorem place_inj {k : Int} (hn : n ∈ m.readOrder K nKey)
    (heq : ((m.readOrder K nKey).idxOf n : Int) = (m.readOrder K nKey).idxOf k) : n = k :=
  (List.idxOf_inj hn).mp (by exact_mod_cast heq)

/-- So many entries are of one kind. -/
theorem card_places {l : List Int} (hl : l.Nodup) (hsub : ∀ n ∈ l, n ∈ m.readOrder K nKey)
    {s : Finset Int} (hs : ∀ i, i ∈ s ↔ ∃ n ∈ l, ((m.readOrder K nKey).idxOf n : Int) = i) :
    s.card = l.length := by
  have himage : s = l.toFinset.image fun n => ((m.readOrder K nKey).idxOf n : Int) := by
    ext i
    rw [hs, Finset.mem_image]
    simp only [List.mem_toFinset]
  rw [himage, Finset.card_image_of_injOn, List.toFinset_card_of_nodup hl]
  intro n hn k _ heq
  exact place_inj (hsub n (List.mem_toFinset.mp hn)) heq

namespace AllRead

theorem of_held {m₂ : CAddrMan} (hm : Checked m) (hplaced : Placed K nKey m (m.readOrder K nKey) m₂)
    (hheld : Held (m.readOrder K nKey) m₂ m.vvNew m') (hnNew : m₂.nNew = m.newIds.length)
    (hnTried : m₂.nTried = (m.room K nKey).length) : AllRead K nKey m m' := by
  have hrest := hheld.rest
  refine ⟨?_, fun i => ?_, fun n hn => ?_, fun n hn => ?_, fun k => ?_, hheld.vvNew, ?_, ?_⟩
  · rw [hrest]
    exact hplaced.vRandom
  · rw [hrest]
    dsimp only
    rw [hplaced.ids, Finset.mem_Ico]
    constructor
    · rintro ⟨hpos, hlt⟩
      have hi : i.toNat < (m.readOrder K nKey).length := by omega
      refine ⟨_, List.getElem_mem hi, ?_⟩
      rw [hm.nodup_readOrder.idxOf_getElem]
      omega
    · rintro ⟨n, hn, rfl⟩
      have hlt := List.idxOf_lt_length_of_mem hn
      omega
  · have hentry := hheld.entry ((m.readOrder K nKey).idxOf n)
    have hrefs := (hm.nRefCount (Finset.mem_of_mem_filter n (hm.mem_readOrder.mp hn))).1
    rw [hplaced.entry _ n (List.getElem?_idxOf hn), hheld.refs n hn, ← hrefs] at hentry
    exact hentry
  · rw [hrest]
    exact hplaced.addr _ n (List.getElem?_idxOf hn)
  · rw [hrest]
    exact hplaced.vvTried_eq hm (fun n hn => Checked.room_sublist.subset hn) k
  · rw [hrest]
    exact hnNew
  · rw [hrest]
    exact hnTried

theorem checkEntry (hm : Checked m) (h : AllRead K nKey m m') {i : Int} (hi : i ∈ m'.ids) :
    m'.checkEntry i = 0 := by
  obtain ⟨n, hn, rfl⟩ := (h.ids i).mp hi
  obtain ⟨htried, hdown, -, -, -, hsuccess⟩ := checkEntry_eq_zero_iff.mp
    (hm.entry n (Finset.mem_of_mem_filter n (hm.mem_readOrder.mp hn)))
  have hlt := List.idxOf_lt_length_of_mem hn
  rw [checkEntry_eq_zero_iff, h.entry n hn]
  refine ⟨htried, hdown, ?_, ⟨Int.natCast_nonneg _, ?_⟩, Int64.le_refl _, hsuccess⟩
  · rw [h.addr n hn, Option.getD_some]
  · rw [Int.toNat_natCast, h.vRandom, List.getElem?_map, List.getElem?_range hlt]
    rfl

theorem mem_setTried (hm : Checked m) (h : AllRead K nKey m m') (i : Int) : i ∈ m'.setTried ↔
    ∃ n ∈ m.room K nKey, ((m.readOrder K nKey).idxOf n : Int) = i := by
  rw [setTried, Finset.mem_filter, h.ids]
  constructor
  · rintro ⟨⟨n, hn, rfl⟩, htried⟩
    rw [h.entry n hn] at htried
    exact ⟨n, (Finset.mem_filter.mp (hm.mem_readOrder.mp hn)).2 htried, rfl⟩
  · rintro ⟨n, hn, rfl⟩
    have hL : n ∈ m.readOrder K nKey := List.mem_append_right _ hn
    rw [h.entry n hL]
    exact ⟨⟨n, hL, rfl⟩, (Checked.mem_triedIds.mp (Checked.room_sublist.subset hn)).2⟩

theorem mem_untried (hm : Checked m) (h : AllRead K nKey m m') (i : Int) :
    (i ∈ m'.ids.filter fun n => (m'.mapInfo n).fInTried = false) ↔
      ∃ n ∈ m.newIds, ((m.readOrder K nKey).idxOf n : Int) = i := by
  rw [Finset.mem_filter, h.ids]
  constructor
  · rintro ⟨⟨n, hn, rfl⟩, hnew⟩
    rw [h.entry n hn] at hnew
    exact ⟨n, hm.mem_newIds.mpr ⟨(Finset.mem_filter.mp (hm.mem_readOrder.mp hn)).1, hnew⟩, rfl⟩
  · rintro ⟨n, hn, rfl⟩
    have hL : n ∈ m.readOrder K nKey := List.mem_append_left _ hn
    rw [h.entry n hL]
    exact ⟨⟨n, hL, rfl⟩, (hm.mem_newIds.mp hn).2⟩

theorem mem_vvTried (h : AllRead K nKey m m') {k : Fin 64} {i : Int} : i ∈ m'.vvTried k ↔
    ∃ n ∈ m.room K nKey, bucketOf K nKey m n = k ∧ ((m.readOrder K nKey).idxOf n : Int) = i := by
  rw [h.vvTried, List.mem_map]
  simp only [List.mem_filter, decide_eq_true_eq, and_assoc]

theorem held (hm : Checked m) (h : AllRead K nKey m m') (i : Int) :
    (holders m'.vvNew i : Int) = m'.mapNew i := by
  have hnewL : ∀ {b}, ∀ n ∈ m.vvNew b, n ∈ m.readOrder K nKey := fun n hn =>
    List.mem_append_left _ (hm.mem_of_mem_vvNew hn)
  have hmem : ∀ {b}, i ∈ m'.vvNew b ↔
      ∃ n ∈ m.vvNew b, ((m.readOrder K nKey).idxOf n : Int) = i := by
    intro b
    rw [h.vvNew, Finset.mem_image]
  by_cases hi : i ∈ m'.ids
  · obtain ⟨n, hn, rfl⟩ := (h.ids i).mp hi
    have hid := (Finset.mem_filter.mp (hm.mem_readOrder.mp hn)).1
    have hsame : holders m'.vvNew ((m.readOrder K nKey).idxOf n : Int) = holders m.vvNew n := by
      unfold holders
      congr 1
      refine Finset.filter_congr fun b _ => ?_
      rw [hmem]
      constructor
      · rintro ⟨n', hn', heq⟩
        rw [← place_inj (hnewL n' hn') heq]
        exact hn'
      · exact fun hb => ⟨n, hb, rfl⟩
    rw [hsame, hm.held, mapNew, mapNew, h.entry n hn]
    simp only [hi, hid, true_and]
  · rw [mapNew, if_neg fun hmem => hi hmem.1, Nat.cast_eq_zero]
    refine Finset.card_eq_zero.mpr (Finset.filter_eq_empty_iff.mpr fun b _ hb => hi ?_)
    obtain ⟨n, hn, rfl⟩ := hmem.mp hb
    exact (h.ids _).mpr ⟨n, hnewL n hn, rfl⟩

/-- **The check passes again.** -/
theorem checked (hm : Checked m) (h : AllRead K nKey m m') : Checked m' := by
  have hroomL : ∀ n ∈ m.room K nKey, n ∈ m.readOrder K nKey := fun n hn =>
    List.mem_append_right _ hn
  have hnewL : ∀ n ∈ m.newIds, n ∈ m.readOrder K nKey := fun n hn => List.mem_append_left _ hn
  have hroom : (m.room K nKey).Nodup := Checked.nodup_triedIds.sublist Checked.room_sublist
  refine ⟨?_, fun i hi => h.checkEntry hm hi, ?_, ?_, ?_, fun i => ?_, h.held hm⟩
  · rw [h.vRandom, List.length_map, List.length_range, h.nNew, h.nTried, readOrder,
      List.length_append]
    push_cast
    ring
  · rw [h.nTried, card_places hroom hroomL (h.mem_setTried hm)]
  · rw [h.nNew, card_places Checked.nodup_newIds hnewL (h.mem_untried hm)]
  · refine List.nodup_flatMap.mpr ⟨fun k _ => ?_, ?_⟩
    · rw [h.vvTried]
      refine (hroom.filter _).map_on fun n hn k _ heq => ?_
      exact place_inj (hroomL n (List.mem_of_mem_filter hn)) heq
    · refine (List.nodup_finRange 64).imp fun hne i hi hi' => hne ?_
      obtain ⟨n, hn, rfl, rfl⟩ := h.mem_vvTried.mp hi
      obtain ⟨n', hn', rfl, heq⟩ := h.mem_vvTried.mp hi'
      rw [place_inj (hroomL n' hn') heq]
  · rw [h.mem_setTried hm, List.mem_flatMap]
    constructor
    · rintro ⟨k, -, hk⟩
      obtain ⟨n, hn, -, rfl⟩ := h.mem_vvTried.mp hk
      exact ⟨n, hn, rfl⟩
    · rintro ⟨n, hn, rfl⟩
      exact ⟨_, List.mem_finRange _, h.mem_vvTried.mpr ⟨n, hn, rfl, rfl⟩⟩

theorem reread (hm : Checked m) (h : AllRead K nKey m m') :
    Reread K nKey m (fun n => ((m.readOrder K nKey).idxOf n : Int)) m' := by
  refine ⟨fun n hn k _ heq => ?_, ?_, fun n hn => ?_, h.vvNew, fun k => ?_⟩
  · exact place_inj (hm.mem_readOrder.mpr (Finset.mem_coe.mp hn)) heq
  · ext i
    rw [h.ids, Finset.mem_image]
    simp only [hm.mem_readOrder]
  · exact ⟨_, h.entry n (hm.mem_readOrder.mpr hn)⟩
  · rw [h.vvTried, room, filter_letIn]

end AllRead

/-- What is written of a manager that passes the check. -/
theorem Checked.serialize (hm : Checked m) (K : Crypto) (nKey : Valtype) :
    ∃ places : Int → Int,
      (∀ n ∈ m.newIds, places n = ((m.readOrder K nKey).idxOf n : Int)) ∧
      m.serialize nKey = [0] ++ (serBytes nKey ++ (serInt32 (Int32.ofInt m.nNew) ++
        (serInt32 (Int32.ofInt m.nTried) ++ (serInt32 256 ++ (m.infos m.newIds ++
          (m.infos m.triedIds ++
            (List.finRange 256).flatMap fun b => writeBucket places (m.vvNew b))))))) := by
  have hnew := hm.length_newIds
  have htried := hm.length_triedIds
  unfold newIds at hnew
  unfold triedIds at htried
  obtain ⟨places, hwrite, -, hplaces⟩ := writeNew_spec m.ids.sort 0 (fun _ => 0)
    (Finset.sort_nodup ..) (by rw [zero_add]; exact hnew)
  have hwriteTried := writeTried_spec m.ids.sort 0 (by rw [zero_add]; exact htried)
  refine ⟨places, fun n hn => ?_, ?_⟩
  · rw [hplaces n hn, zero_add, readOrder, List.idxOf_append_of_mem hn]
    rfl
  · unfold CAddrMan.serialize
    rw [hwrite, hwriteTried]
    rfl

variable {places : Int → Int}

/-- The places of a bucket are those of entries that are read, and fit in an `int`. -/
theorem Checked.bucket_fits (hm : Checked m)
    (hplaces : ∀ n ∈ m.newIds, places n = ((m.readOrder K nKey).idxOf n : Int))
    (hplaced : Placed K nKey m (m.readOrder K nKey) m') (hnew : m.nNew < 2 ^ 31) (b : Fin 256) :
    (∀ n ∈ m.vvNew b, n ∈ m.readOrder K nKey ∧
      places n = ((m.readOrder K nKey).idxOf n : Int) ∧
      ((m.readOrder K nKey).idxOf n : Int) ∈ m'.ids ∧
      ((m.readOrder K nKey).idxOf n : Int) < 2 ^ 31 ∧ holders m.vvNew n ≤ 4) ∧
    (m.vvNew b).card < 2 ^ 31 := by
  have hlength := hm.length_newIds
  refine ⟨fun n hn => ?_, ?_⟩
  · have hnewId := hm.mem_of_mem_vvNew hn
    have hL : n ∈ m.readOrder K nKey := List.mem_append_left _ hnewId
    have hlt := List.idxOf_lt_length_of_mem hL
    have hidx : (m.readOrder K nKey).idxOf n < m.newIds.length := by
      rw [readOrder, List.idxOf_append_of_mem hnewId]
      exact List.idxOf_lt_length_of_mem hnewId
    refine ⟨hL, hplaces n hnewId, ?_, by omega, (hm.nRefCount (hm.mem_newIds.mp hnewId).1).2⟩
    rw [hplaced.ids, Finset.mem_Ico]
    omega
  · have hsub : m.vvNew b ⊆ m.newIds.toFinset := fun n hn =>
      List.mem_toFinset.mpr (hm.mem_of_mem_vvNew hn)
    have hcard := Finset.card_le_card hsub
    rw [List.toFinset_card_of_nodup Checked.nodup_newIds] at hcard
    omega

theorem readBuckets_spec (rest : List UInt8) (hm : Checked m)
    (hplaces : ∀ n ∈ m.newIds, places n = ((m.readOrder K nKey).idxOf n : Int))
    (hplaced : Placed K nKey m (m.readOrder K nKey) m') (hnew : m.nNew < 2 ^ 31) :
    ∃ m'', (List.range 256).foldlM (readBucket 256) (m', ((List.finRange 256).flatMap
        fun b => writeBucket places (m.vvNew b)) ++ rest) = .ok (m'', rest) ∧
      Held (m.readOrder K nKey) m' m.vvNew m'' := by
  set bytes : List (Fin 256) → List UInt8 :=
    fun l => l.flatMap fun b => writeBucket places (m.vvNew b) with hbytes
  set part : Nat → Fin 256 → Finset Int := fun i b => if b.val < i then m.vvNew b else ∅ with hpart
  have hloop := foldlM_range_ok (f := readBucket 256)
    (P := fun i s => Held (m.readOrder K nKey) m' (part i) s.1 ∧
      s.2 = bytes ((List.finRange 256).drop i) ++ rest) 256 ?_
    (a := (m', bytes (List.finRange 256) ++ rest)) ?_
  · obtain ⟨⟨m'', left⟩, hfold, hheld, hleft⟩ := hloop
    dsimp only at hheld hleft
    have hall : part 256 = m.vvNew := funext fun b => if_pos b.isLt
    rw [hall] at hheld
    refine ⟨m'', hfold.trans ?_, hheld⟩
    rw [hleft, List.drop_eq_nil_of_le (by rw [List.length_finRange])]
    rfl
  · rintro i hi ⟨m₁, is⟩ ⟨hheld, hleft⟩
    dsimp only at hheld hleft
    have hat : i < (List.finRange 256).length := by rwa [List.length_finRange]
    have hsub : ∀ b, part i b ⊆ m.vvNew b := by
      intro b
      rw [hpart]
      dsimp only
      split_ifs
      · exact Finset.Subset.refl _
      · exact Finset.empty_subset _
    obtain ⟨hin, hsize⟩ := hm.bucket_fits hplaces hplaced hnew ⟨i, hi⟩
    obtain ⟨m₂, hread, hnext⟩ := readBucket_spec
      (bytes ((List.finRange 256).drop (i + 1)) ++ rest) hheld hsub
      (if_neg (lt_irrefl i)) hin hsize
    have hstep : Function.update (part i) ⟨i, hi⟩ (m.vvNew ⟨i, hi⟩) = part (i + 1) := by
      funext b
      rw [Function.update_apply, hpart]
      dsimp only
      by_cases hb : b = ⟨i, hi⟩
      · subst hb
        rw [if_pos rfl, if_pos (Nat.lt_succ_self i)]
      · have hne : b.val ≠ i := fun heq => hb (Fin.ext heq)
        rw [if_neg hb]
        exact if_congr (by omega) rfl rfl
    rw [hstep] at hnext
    refine ⟨(m₂, bytes ((List.finRange 256).drop (i + 1)) ++ rest), ?_, hnext, rfl⟩
    rw [← hread, hleft, List.drop_eq_getElem_cons hat, List.getElem_finRange, hbytes,
      ← List.append_assoc]
    rfl
  · refine ⟨⟨fun b => ?_, fun n hn => ?_, fun _ => rfl, rfl⟩, by rw [List.drop_zero]⟩
    · dsimp only
      rw [hplaced.vvNew, hpart]
      rfl
    · dsimp only
      rw [hplaced.entry _ n (List.getElem?_idxOf hn)]
      have hnone : holders (part 0) n = 0 :=
        Finset.card_eq_zero.mpr (Finset.filter_eq_empty_iff.mpr fun b _ => Finset.notMem_empty n)
      rw [hnone]
      rfl

/-- **What is written is read back.** -/
theorem unserialize_spec (hm : Checked m) (hkey : nKey.length ≤ maxSize) (hnew : m.nNew < 2 ^ 31)
    (htried : m.nTried < 2 ^ 31) (rest : List UInt8) :
    ∃ m', unserialize K (m.serialize nKey ++ rest) = .ok (nKey, m', rest) ∧
      AllRead K nKey m m' := by
  have hlengthNew := hm.length_newIds
  have hlengthTried := hm.length_triedIds
  obtain ⟨places, hplaces, hserialize⟩ := hm.serialize K nKey
  set buckets := (List.finRange 256).flatMap fun b => writeBucket places (m.vvNew b) with hbuckets
  have hnewInt : (Int32.ofInt m.nNew).toInt = m.nNew := Int32.toInt_ofInt_of_le (by omega) hnew
  have htriedInt : (Int32.ofInt m.nTried).toInt = m.nTried :=
    Int32.toInt_ofInt_of_le (by omega) htried
  have hnewNat : m.nNew.toNat = m.newIds.length := by omega
  have htriedNat : m.nTried.toNat = m.triedIds.length := by omega
  have h256 : (Int32.toInt 256).toNat = 256 := by decide
  -- the new entries
  obtain ⟨⟨m₁, is₁⟩, hfold₁, h₁⟩ := foldlM_range_ok (f := readNew K nKey 256)
    (P := NewRead K nKey m (m.infos m.triedIds ++ (buckets ++ rest))) m.newIds.length
    (fun i hi s h => readNew_spec hm hi h)
    (a := ({ new with nNew := m.nNew, nTried := m.nTried },
      m.infos m.newIds ++ (m.infos m.triedIds ++ (buckets ++ rest))))
    ⟨placed_nil .., rfl, rfl, rfl⟩
  obtain ⟨hplaced₁, hnNew₁, hnTried₁, hleft₁⟩ := h₁
  dsimp only at hplaced₁ hnNew₁ hnTried₁ hleft₁
  rw [List.take_length] at hplaced₁
  rw [List.drop_length] at hleft₁
  change is₁ = m.infos m.triedIds ++ (buckets ++ rest) at hleft₁
  -- the tried entries
  obtain ⟨⟨m₂, nLost, is₂⟩, hfold₂, h₂⟩ := foldlM_range_ok (f := readTried K nKey)
    (P := TriedRead K nKey m (buckets ++ rest)) m.triedIds.length
    (fun i hi s h => readTried_spec hm hi h)
    (a := ({ m₁ with nIdCount := m₁.nNew }, 0, m.infos m.triedIds ++ (buckets ++ rest)))
    ⟨by
      have hnil : letIn 64 (bucketOf K nKey m) (m.triedIds.take 0) = [] := by
        rw [List.take_zero]
        rfl
      rw [hnil, List.append_nil]
      exact hplaced₁.counters m₁.nNew m₁.nTried, by
      rw [hnNew₁, ← hlengthNew, List.take_zero]
      simp [letIn], hnNew₁, hnTried₁, by simp [letIn], rfl⟩
  obtain ⟨hplaced₂, -, hnNew₂, hnTried₂, hnLost, hleft₂⟩ := h₂
  dsimp only at hplaced₂ hnNew₂ hnTried₂ hnLost hleft₂
  rw [List.take_length] at hplaced₂ hnLost
  rw [List.drop_length] at hleft₂
  change is₂ = buckets ++ rest at hleft₂
  -- the buckets
  set m₃ : CAddrMan := { m₂ with nTried := m₂.nTried - nLost } with hm₃
  have hplaced₃ : Placed K nKey m (m.readOrder K nKey) m₃ :=
    hplaced₂.counters m₂.nIdCount (m₂.nTried - nLost)
  obtain ⟨m', hfold₃, hheld⟩ := readBuckets_spec rest hm hplaces hplaced₃ hnew
  refine ⟨m', ?_, AllRead.of_held hm hplaced₃ hheld ?_ ?_⟩
  · rw [hserialize]
    unfold unserialize
    simp only [List.append_assoc, List.cons_append, List.nil_append, readByte, expect, ok_bind,
      reads_readBytes.read hkey, reads_readInt32.read trivial, hnewInt, htriedInt, hnewNat,
      htriedNat]
    rw [hfold₁]
    rw [ok_bind]
    dsimp only
    rw [hleft₁, hfold₂, ok_bind]
    dsimp only
    rw [hleft₂, h256, hfold₃]
    rfl
  · rw [hm₃]
    dsimp only
    omega
  · rw [hm₃]
    dsimp only
    rw [hnTried₂, hnLost, room]
    omega

/-- **Reading what was written.**  A manager that passes the check, and whose counters are `int`s,
is read back with other ids and another random order, without the times of the last tries and with
the attempts clamped.  It has the same new entries in the same new buckets and, of each tried
bucket, the first 64 entries, and it passes the check again. -/
theorem reread_spec (K : Crypto) (nKey : Valtype) (m : CAddrMan) (hkey : nKey.length ≤ maxSize)
    (hm : m.check = 0) (hnew : m.nNew < 2 ^ 31) (htried : m.nTried < 2 ^ 31) (rest : List UInt8) :
    ∃ m' newId, unserialize K (m.serialize nKey ++ rest) = .ok (nKey, m', rest) ∧
      m'.check = 0 ∧ Reread K nKey m newId m' := by
  have hchecked := check_eq_zero_iff.mp hm
  obtain ⟨m', hread, hall⟩ := unserialize_spec (K := K) hchecked hkey hnew htried rest
  exact ⟨m', _, hread, check_eq_zero_iff.mpr (hall.checked hchecked), hall.reread hchecked⟩

/-! ## 4. What is lost -/

/-- An address of its own for each id. -/
def numberedAddr (n : Int) : CNetAddr :=
  ⟨UInt8.ofNat n.toNat :: List.replicate 63 0, CNetAddr.length_numbered n⟩

/-- An entry that was connected to and has been tried again; nothing checks the attempts. -/
def numberedInfo (n : Int) : CAddrInfo :=
  { (default : CAddrInfo) with
    addr := numberedAddr n
    nLastTry := 1600000000
    nLastSuccess := 1500000000
    nAttempts := -1
    fInTried := true
    nRandomPos := n }

local instance neZeroTried : NeZero 64 := ⟨by decide⟩

/-- Sixty-five tried entries, all in the first bucket. -/
def crowdedMan : CAddrMan where
  nIdCount := 65
  ids := ((List.range 65).map fun i : Nat => (i : Int)).toFinset
  mapInfo := numberedInfo
  mapAddr a := a.head?.map fun b => (b.toNat : Int)
  vRandom := (List.range 65).map fun i : Nat => (i : Int)
  nTried := 65
  vvTried k := if k = 0 then (List.range 65).map fun i : Nat => (i : Int) else []
  nNew := 0
  vvNew _ := ∅

theorem crowdedMan_checked : Checked crowdedMan where
  length := by decide
  entry := by decide +kernel
  tallyTried := by decide +kernel
  tallyNew := by decide +kernel
  nodup := by decide +kernel
  mem_vvTried n := by
    rw [setTried, Finset.mem_filter]
    simp [crowdedMan, numberedInfo]
  held n := by
    rw [mapNew, if_neg (by simp [crowdedMan, numberedInfo])]
    simp [holders, crowdedMan]

/-- Functions to evaluate the example with: all entries have one bucket. -/
def oneBucketCrypto : Crypto := { Crypto.sample [] with hash := fun _ => 0 }

/-- **What is lost.**  The check passes, and one of sixty-five tried entries does not come back;
those that do have another time of the last try, and other attempts. -/
theorem crowdedMan_reread : crowdedMan.check = 0 ∧ crowdedMan.setTried.card = 65 ∧
    (∀ n, (crowdedMan.mapInfo n).nLastTry = 1600000000 ∧ (crowdedMan.mapInfo n).nAttempts = -1) ∧
    ∃ m', unserialize oneBucketCrypto (crowdedMan.serialize (List.replicate 32 7)) =
        .ok (List.replicate 32 7, m', []) ∧ m'.setTried.card = 64 ∧
      ∀ i ∈ m'.ids, (m'.mapInfo i).nLastTry = 0 ∧ (m'.mapInfo i).nAttempts = 0 := by
  have hchecked := crowdedMan_checked
  obtain ⟨m', hread, hall⟩ := @unserialize_spec oneBucketCrypto (List.replicate 32 7) _
    hchecked (by decide) (by decide) (by decide) []
  rw [List.append_nil] at hread
  refine ⟨check_eq_zero_iff.mpr hchecked, by decide +kernel, fun _ => ⟨rfl, rfl⟩, m', hread, ?_,
    fun i hi => ?_⟩
  · have hlength : crowdedMan.triedIds.length = 65 := by
      have htried : (crowdedMan.triedIds.length : Int) = 65 := hchecked.length_triedIds
      exact_mod_cast htried
    have hroom := @filter_letIn _ _ _ 64
      (bucketOf oneBucketCrypto (List.replicate 32 7) crowdedMan) crowdedMan.triedIds 0
    have hone : ∀ n, bucketOf oneBucketCrypto (List.replicate 32 7) crowdedMan n = 0 := fun _ => rfl
    simp only [hone, decide_true, List.filter_true] at hroom
    have htally := (hall.checked hchecked).tallyTried
    rw [hall.nTried, room, hroom, List.length_take, hlength] at htally
    exact_mod_cast htally
  · obtain ⟨n, hn, rfl⟩ := (hall.ids i).mp hi
    rw [hall.entry n hn]
    exact ⟨rfl, rfl⟩

/-- Two new entries, one of them in two new buckets, and a tried one. -/
def knownMan : CAddrMan where
  nIdCount := 3
  ids := {0, 1, 2}
  mapInfo n :=
    { numberedInfo n with
      fInTried := decide (n = 2)
      nRefCount := if n = 0 then 2 else if n = 1 then 1 else 0 }
  mapAddr a := a.head?.map fun b => (b.toNat : Int)
  vRandom := [0, 1, 2]
  nTried := 1
  vvTried k := if k.val = 0 then [2] else []
  nNew := 2
  vvNew k := if k.val = 3 then {0, 1} else if k.val = 5 then {0} else ∅

theorem knownMan_checked : Checked knownMan where
  length := by decide
  entry := by decide +kernel
  tallyTried := by decide +kernel
  tallyNew := by decide +kernel
  nodup := by decide +kernel
  mem_vvTried n := by
    have hbuckets : (List.finRange 64).flatMap knownMan.vvTried = [2] := by decide +kernel
    have htried : knownMan.setTried = {2} := by decide +kernel
    rw [hbuckets, htried, List.mem_singleton, Finset.mem_singleton]
  held n := by
    by_cases hn : n ∈ knownMan.ids
    · revert n
      decide +kernel
    · have hbuckets : ∀ b, knownMan.vvNew b ⊆ knownMan.ids := by decide +kernel
      rw [mapNew, if_neg fun h => hn h.1]
      simpa [holders, Finset.filter_eq_empty_iff] using fun b hb => hn (hbuckets b hb)

/-- Both managers are read back, the second with the entries of its new buckets. -/
theorem reread_spec_managers :
    (∃ m' newId, unserialize oneBucketCrypto (crowdedMan.serialize (List.replicate 32 7) ++ []) =
        .ok (List.replicate 32 7, m', []) ∧
      m'.check = 0 ∧ Reread oneBucketCrypto (List.replicate 32 7) crowdedMan newId m') ∧
    ∃ m' newId, unserialize oneBucketCrypto (knownMan.serialize (List.replicate 32 7) ++ [1]) =
        .ok (List.replicate 32 7, m', [1]) ∧
      m'.check = 0 ∧ Reread oneBucketCrypto (List.replicate 32 7) knownMan newId m' ∧
      m'.vvNew 3 = ({0, 1} : Finset Int).image newId ∧
      m'.vvNew 5 = ({0} : Finset Int).image newId := by
  refine ⟨reread_spec oneBucketCrypto (List.replicate 32 7) crowdedMan (by decide)
    (check_eq_zero_iff.mpr crowdedMan_checked) (by decide) (by decide) [], ?_⟩
  obtain ⟨m', newId, hread, hcheck, hreread⟩ :=
    reread_spec oneBucketCrypto (List.replicate 32 7) knownMan (by decide)
      (check_eq_zero_iff.mpr knownMan_checked) (by decide) (by decide) [1]
  exact ⟨m', newId, hread, hcheck, hreread, hreread.vvNew 3, hreread.vvNew 5⟩

end CAddrMan

end Breakout
