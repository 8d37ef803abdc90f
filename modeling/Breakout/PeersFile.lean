/-
# The address manager in its file

What is written are the entries, first those that are in new buckets and then the tried ones, and
the new buckets.  The ids are not written: a bucket names an entry by its place among those written.
The reader numbers the entries in the order in which they come, and puts the tried ones into their
buckets anew.

Of a manager that passes `Check_`, both loops over the entries write all that there are, and the
loop over the buckets finds the place of every id.

Streams are of the type that `CAddrDB` uses, `SER_DISK`.
-/
import Breakout.AddrManRuns
import Breakout.HexTx

namespace Breakout

open Lib

/-! ## 1. Entries -/

/-- `CNetAddr`, reading: `FLATDATA(ip)`. -/
def CNetAddr.unserialize (is : List UInt8) : Option (CNetAddr × List UInt8) :=
  if h : 64 ≤ is.length then some (⟨is.take 64, List.length_take_of_le h⟩, is.drop 64) else none

/-- `CService`: the port is in network order. -/
def CService.serialize (s : CService) : List UInt8 :=
  s.addr.serialize ++ [UInt8.ofNat (s.port.toNat / 0x100), UInt8.ofNat (s.port.toNat % 0x100)]

/-- `CService`, reading. -/
def CService.unserialize (is : List UInt8) : Option (CService × List UInt8) := do
  let (addr, is) ← CNetAddr.unserialize is
  let (high, is) ← readByte is
  let (low, is) ← readByte is
  return (⟨addr, UInt16.ofNat (high.toNat * 0x100 + low.toNat)⟩, is)

/-- `CAddress`; `nSerVersion` is the version byte of the manager, which is zero. -/
def CAddress.serialize (a : CAddress) : List UInt8 :=
  serInt32 0 ++ (serUInt32 a.nTime ++ (leBytes 8 a.nServices.toNat ++ a.toCService.serialize))

/-- `CAddress`, reading, after `Init`. -/
def CAddress.unserialize (is : List UInt8) : Option (CAddress × List UInt8) := do
  let (_, is) ← readInt32 is
  let (nTime, is) ← readUInt32 is
  let (nServices, is) ← readUInt64 is
  let (service, is) ← CService.unserialize is
  return ({ toCService := service, nServices := nServices, nTime := nTime, nLastTry := 0 }, is)

/-- "it makes no practical sense for nAttempts to ever be larger than 22" -/
def clampAttempts (nAttempts : Int32) : Int32 :=
  if nAttempts < 0 then 0 else if nAttempts > 22 then 22 else nAttempts

namespace CAddrInfo

/-- `CAddrInfo`.  The attempts of the entry itself are clamped after they are written. -/
def serialize (info : CAddrInfo) : List UInt8 :=
  info.toCAddress.serialize ++
    (info.source.serialize ++ (serInt64 info.nLastSuccess ++ serInt32 info.nAttempts))

/-- `CAddrInfo`, reading, into one that is new. -/
def unserialize (is : List UInt8) : Option (CAddrInfo × List UInt8) := do
  let (addr, is) ← CAddress.unserialize is
  let (source, is) ← CNetAddr.unserialize is
  let (nLastSuccess, is) ← readInt64 is
  let (nAttempts, is) ← readInt32 is
  return ({ (default : CAddrInfo) with
    toCAddress := addr
    source := source
    nLastSuccess := nLastSuccess
    nAttempts := clampAttempts nAttempts }, is)

/-- What is read of an entry that was written. -/
def reread (info : CAddrInfo) : CAddrInfo :=
  { info with
    nLastTry := 0
    nAttempts := clampAttempts info.nAttempts
    nRefCount := 0
    fInTried := false
    nRandomPos := -1 }

end CAddrInfo

/-! ## 2. Writing -/

namespace CAddrMan

/-- The loop that writes the new entries: the bytes, and `mapUnkIds`. -/
def writeNew (m : CAddrMan) : List Int → Int → (Int → Int) → List UInt8 × (Int → Int)
  | [], _, mapUnkIds => ([], mapUnkIds)
  | n :: rest, nIds, mapUnkIds =>
    -- "this means nNew was wrong, oh ow"
    if nIds = m.nNew then ([], mapUnkIds)
    else
      let mapUnkIds := Function.update mapUnkIds n nIds
      let info := m.mapInfo n
      if info.nRefCount ≠ 0 then
        let (infos, mapUnkIds) := writeNew m rest (nIds + 1) mapUnkIds
        (info.serialize ++ infos, mapUnkIds)
      else writeNew m rest nIds mapUnkIds

/-- The loop that writes the tried entries. -/
def writeTried (m : CAddrMan) : List Int → Int → List UInt8
  | [], _ => []
  | n :: rest, nIds =>
    -- "this means nTried was wrong, oh ow"
    if nIds = m.nTried then []
    else
      let info := m.mapInfo n
      if info.fInTried = true then info.serialize ++ writeTried m rest (nIds + 1)
      else writeTried m rest nIds

/-- A new bucket: its size, and the places of its entries. -/
def writeBucket (mapUnkIds : Int → Int) (vNew : Finset Int) : List UInt8 :=
  serInt32 (Int32.ofNat vNew.card) ++
    vNew.sort.flatMap fun n => serInt32 (Int32.ofInt (mapUnkIds n))

/-- `CAddrMan`, writing. -/
def serialize (m : CAddrMan) (nKey : Valtype) : List UInt8 :=
  let (infos, mapUnkIds) := m.writeNew m.ids.sort 0 fun _ => 0
  [0] ++ (serBytes nKey ++ (serInt32 (Int32.ofInt m.nNew) ++ (serInt32 (Int32.ofInt m.nTried) ++
    (serInt32 256 ++ (infos ++ (m.writeTried m.ids.sort 0 ++
      (List.finRange 256).flatMap fun b => writeBucket mapUnkIds (m.vvNew b)))))))

/-! ## 3. Reading -/

/-- A stream that ends too early throws. -/
def expect {α : Type} : Option α → Run α
  | none => .error (.throw "CDataStream::read() : end of data")
  | some a => .ok a

/-- A new entry. -/
def readNew (K : Crypto) (nKey : Valtype) (nUBuckets : Int32) :
    CAddrMan × List UInt8 → Nat → Run (CAddrMan × List UInt8)
  | (m, is), n => do
    let (info, is) ← expect (CAddrInfo.unserialize is)
    let info := { info with nRandomPos := m.vRandom.length }
    let m := { m with
      ids := insert (n : Int) m.ids
      mapInfo := Function.update m.mapInfo n info
      mapAddr := Function.update m.mapAddr info.addr.key (some n)
      vRandom := m.vRandom ++ [(n : Int)] }
    if nUBuckets ≠ 256 then
      let b := info.getNewBucket K nKey info.source
      let m := m.setInfo n { info with nRefCount := info.nRefCount + 1 }
      return ({ m with vvNew := Function.update m.vvNew b (insert (n : Int) (m.vvNew b)) }, is)
    else return (m, is)

/-- A tried entry, and the count of those that are lost. -/
def readTried (K : Crypto) (nKey : Valtype) :
    CAddrMan × Int × List UInt8 → Nat → Run (CAddrMan × Int × List UInt8)
  | (m, nLost, is), _ => do
    let (info, is) ← expect (CAddrInfo.unserialize is)
    let k := info.getTriedBucket K nKey
    if (m.vvTried k).length < 64 then
      let nId := m.nIdCount
      let info := { info with nRandomPos := m.vRandom.length, fInTried := true }
      let m := { m with
        vRandom := m.vRandom ++ [nId]
        ids := insert nId m.ids
        mapInfo := Function.update m.mapInfo nId info
        mapAddr := Function.update m.mapAddr info.addr.key (some nId)
        vvTried := Function.update m.vvTried k (m.vvTried k ++ [nId])
        nIdCount := nId + 1 }
      return (m, nLost, is)
    else return (m, nLost + 1, is)

/-- An entry of a new bucket.  `mapInfo[nIndex]` makes one where there is none. -/
def readIndex (nUBuckets : Int32) (b : Fin 256) :
    CAddrMan × List UInt8 → Nat → Run (CAddrMan × List UInt8)
  | (m, is), _ => do
    let (nIndex, is) ← expect (readInt32 is)
    let nIndex := nIndex.toInt
    let m := { m with ids := insert nIndex m.ids }
    let info := m.mapInfo nIndex
    if nUBuckets = 256 ∧ info.nRefCount < 4 then
      let m := m.setInfo nIndex { info with nRefCount := info.nRefCount + 1 }
      return ({ m with vvNew := Function.update m.vvNew b (insert nIndex (m.vvNew b)) }, is)
    else return (m, is)

/-- A new bucket. -/
def readBucket (nUBuckets : Int32) :
    CAddrMan × List UInt8 → Nat → Run (CAddrMan × List UInt8)
  | (m, is), b =>
    if hb : b < 256 then do
      let (nSize, is) ← expect (readInt32 is)
      (List.range nSize.toInt.toNat).foldlM (readIndex nUBuckets ⟨b, hb⟩) (m, is)
    else .error (.oob b)

/-- `CAddrMan`, reading: the key, the manager, and what is left. -/
def unserialize (K : Crypto) (is : List UInt8) : Run (Valtype × CAddrMan × List UInt8) := do
  let (_, is) ← expect (readByte is)
  let (nKey, is) ← expect (readBytes is)
  let (nNew, is) ← expect (readInt32 is)
  let (nTried, is) ← expect (readInt32 is)
  let (nUBuckets, is) ← expect (readInt32 is)
  let m := { new with nNew := nNew.toInt, nTried := nTried.toInt }
  let (m, is) ←
    (List.range nNew.toInt.toNat).foldlM (readNew K nKey nUBuckets) (m, is)
  let m := { m with nIdCount := m.nNew }
  let (m, nLost, is) ←
    (List.range nTried.toInt.toNat).foldlM (readTried K nKey) (m, 0, is)
  let m := { m with nTried := m.nTried - nLost }
  let (m, is) ←
    (List.range nUBuckets.toInt.toNat).foldlM (readBucket nUBuckets) (m, is)
  return (nKey, m, is)

end CAddrMan

/-! ## 4. An entry is read back -/

theorem CNetAddr.unserialize_serialize (a : CNetAddr) (rest : List UInt8) :
    CNetAddr.unserialize (a.serialize ++ rest) = some (a, rest) := by
  have hlength : 64 ≤ (a.serialize ++ rest).length := by
    rw [List.length_append, CNetAddr.serialize, a.size]
    omega
  unfold CNetAddr.unserialize
  rw [dif_pos hlength, Option.some.injEq, Prod.mk.injEq]
  refine ⟨?_, List.drop_left' a.size⟩
  cases a with
  | mk ip size => simp only [serialize, List.take_left' size]

theorem CService.unserialize_serialize (s : CService) (rest : List UInt8) :
    CService.unserialize (s.serialize ++ rest) = some (s, rest) := by
  have hport : s.port.toNat < 0x10000 := s.port.toNat_lt
  have hback : UInt16.ofNat ((UInt8.ofNat (s.port.toNat / 0x100)).toNat * 0x100 +
      (UInt8.ofNat (s.port.toNat % 0x100)).toNat) = s.port := by
    rw [UInt8.toNat_ofNat', UInt8.toNat_ofNat', Nat.mod_eq_of_lt (by omega),
      Nat.mod_eq_of_lt (by omega), Nat.mul_comm, Nat.div_add_mod, UInt16.ofNat_toNat]
  simp only [CService.unserialize, CService.serialize, List.append_assoc, bind, Option.bind_some,
    CNetAddr.unserialize_serialize, List.cons_append, List.nil_append, readByte, hback]
  rfl

theorem reads_readUInt64 :
    Reads (fun _ => True) (fun x : UInt64 => leBytes 8 x.toNat) readUInt64 :=
  (reads_readSize 8).map UInt64.ofNat UInt64.toNat (fun x => x.toNat_lt)
    (fun _ hn => by rw [UInt64.toNat_ofNat']; exact Nat.mod_eq_of_lt hn)
    (fun _ => UInt64.ofNat_toNat)

theorem CAddress.unserialize_serialize (a : CAddress) (rest : List UInt8) :
    CAddress.unserialize (a.serialize ++ rest) = some ({ a with nLastTry := 0 }, rest) := by
  simp only [CAddress.unserialize, CAddress.serialize, List.append_assoc, bind, Option.bind_some,
    reads_readInt32.read trivial, reads_readUInt32.read trivial, reads_readUInt64.read trivial,
    CService.unserialize_serialize]
  rfl

theorem CAddrInfo.unserialize_serialize (info : CAddrInfo) (rest : List UInt8) :
    CAddrInfo.unserialize (info.serialize ++ rest) = some (info.reread, rest) := by
  simp only [CAddrInfo.unserialize, CAddrInfo.serialize, List.append_assoc, bind, Option.bind_some,
    reads_readInt32.read trivial, reads_readInt64.read trivial, CAddress.unserialize_serialize,
    CNetAddr.unserialize_serialize]
  rfl

namespace CAddrMan

variable {m : CAddrMan} {n : Int}

/-! ## 5. What is written -/

/-- The new entries, in the order in which they are written. -/
def newIds (m : CAddrMan) : List Int := m.ids.sort.filter fun n => (m.mapInfo n).nRefCount ≠ 0

/-- The tried entries, in the order in which they are written. -/
def triedIds (m : CAddrMan) : List Int := m.ids.sort.filter fun n => (m.mapInfo n).fInTried = true

/-- The bytes of some entries. -/
def infos (m : CAddrMan) (l : List Int) : List UInt8 := l.flatMap fun n => (m.mapInfo n).serialize

/-- **The new entries are written**, and `mapUnkIds` has their places. -/
theorem writeNew_spec (l : List Int) (nIds : Int) (mapUnkIds : Int → Int) (hl : l.Nodup)
    (hcount : nIds + (l.filter fun n => (m.mapInfo n).nRefCount ≠ 0).length = m.nNew) :
    ∃ places, m.writeNew l nIds mapUnkIds =
        (m.infos (l.filter fun n => (m.mapInfo n).nRefCount ≠ 0), places) ∧
      (∀ n ∉ l, places n = mapUnkIds n) ∧
      ∀ n ∈ l.filter fun n => (m.mapInfo n).nRefCount ≠ 0,
        places n = nIds + (l.filter fun n => (m.mapInfo n).nRefCount ≠ 0).idxOf n := by
  induction l generalizing nIds mapUnkIds with
  | nil => exact ⟨mapUnkIds, rfl, fun _ _ => rfl, nofun⟩
  | cons n rest ih =>
    obtain ⟨hn, hrest⟩ := List.nodup_cons.mp hl
    unfold writeNew
    by_cases hend : nIds = m.nNew
    · have hnone : (n :: rest).filter (fun n => (m.mapInfo n).nRefCount ≠ 0) = [] :=
        List.length_eq_zero_iff.mp (by omega)
      rw [if_pos hend, hnone]
      exact ⟨mapUnkIds, rfl, fun _ _ => rfl, nofun⟩
    rw [if_neg hend]
    by_cases hrefs : (m.mapInfo n).nRefCount ≠ 0
    · rw [List.filter_cons_of_pos (by simpa using hrefs)] at hcount ⊢
      rw [List.length_cons] at hcount
      obtain ⟨places, hwrite, hout, hin⟩ :=
        ih (nIds + 1) (Function.update mapUnkIds n nIds) hrest (by push_cast at hcount; omega)
      refine ⟨places, ?_, fun k hk => ?_, fun k hk => ?_⟩
      · dsimp only
        rw [if_pos hrefs, hwrite]
        rfl
      · rw [List.mem_cons, not_or] at hk
        obtain ⟨hne, hk⟩ := hk
        rw [hout k hk, Function.update_of_ne hne]
      · rcases List.mem_cons.mp hk with rfl | hk
        · rw [hout k hn, Function.update_self, List.idxOf_cons_self]
          simp
        · have hne : n ≠ k := fun heq => hn (heq ▸ List.mem_of_mem_filter hk)
          rw [hin k hk, List.idxOf_cons_ne _ hne]
          push_cast
          ring
    · rw [List.filter_cons_of_neg (by simpa using hrefs)] at hcount ⊢
      obtain ⟨places, hwrite, hout, hin⟩ :=
        ih nIds (Function.update mapUnkIds n nIds) hrest hcount
      refine ⟨places, ?_, fun k hk => ?_, hin⟩
      · dsimp only
        rw [if_neg hrefs, hwrite]
      · rw [List.mem_cons, not_or] at hk
        obtain ⟨hne, hk⟩ := hk
        rw [hout k hk, Function.update_of_ne hne]

/-- **The tried entries are written.** -/
theorem writeTried_spec (l : List Int) (nIds : Int)
    (hcount : nIds + (l.filter fun n => (m.mapInfo n).fInTried = true).length = m.nTried) :
    m.writeTried l nIds = m.infos (l.filter fun n => (m.mapInfo n).fInTried = true) := by
  induction l generalizing nIds with
  | nil => rfl
  | cons n rest ih =>
    unfold writeTried
    by_cases hend : nIds = m.nTried
    · have hnone : (n :: rest).filter (fun n => (m.mapInfo n).fInTried = true) = [] :=
        List.length_eq_zero_iff.mp (by omega)
      rw [if_pos hend, hnone]
      rfl
    rw [if_neg hend]
    by_cases htried : (m.mapInfo n).fInTried = true
    · rw [List.filter_cons_of_pos (by simpa using htried)] at hcount ⊢
      rw [List.length_cons] at hcount
      dsimp only
      rw [if_pos htried, ih (nIds + 1) (by push_cast at hcount; omega)]
      rfl
    · rw [List.filter_cons_of_neg (by simpa using htried)] at hcount ⊢
      dsimp only
      rw [if_neg htried, ih nIds hcount]

/-! ## 6. What the check says about it -/

namespace Checked

theorem mem_newIds (h : Checked m) :
    n ∈ m.newIds ↔ n ∈ m.ids ∧ (m.mapInfo n).fInTried = false := by
  unfold newIds
  rw [List.mem_filter, Finset.mem_sort, decide_eq_true_eq]
  refine and_congr_right fun hn => ?_
  obtain ⟨htried, hdown, -⟩ := checkEntry_eq_zero_iff.mp (h.entry n hn)
  cases hup : (m.mapInfo n).fInTried with
  | true => simp [(htried hup).2]
  | false =>
    have hrange := hdown hup
    exact iff_of_true (by omega) rfl

theorem mem_triedIds : n ∈ m.triedIds ↔ n ∈ m.ids ∧ (m.mapInfo n).fInTried = true := by
  unfold triedIds
  rw [List.mem_filter, Finset.mem_sort, decide_eq_true_eq]

theorem nodup_newIds : m.newIds.Nodup := (Finset.sort_nodup ..).filter _

theorem nodup_triedIds : m.triedIds.Nodup := (Finset.sort_nodup ..).filter _

theorem length_newIds (h : Checked m) : (m.newIds.length : Int) = m.nNew := by
  rw [← h.tallyNew, ← List.toFinset_card_of_nodup nodup_newIds]
  congr 2
  ext n
  rw [List.mem_toFinset, h.mem_newIds, Finset.mem_filter]

theorem length_triedIds (h : Checked m) : (m.triedIds.length : Int) = m.nTried := by
  rw [← h.tallyTried, ← List.toFinset_card_of_nodup nodup_triedIds]
  congr 2
  ext n
  rw [List.mem_toFinset, mem_triedIds, setTried, Finset.mem_filter]

/-- No two entries have one address. -/
theorem key_inj (h : Checked m) {k : Int} (hn : n ∈ m.ids) (hk : k ∈ m.ids)
    (heq : (m.mapInfo n).addr.key = (m.mapInfo k).addr.key) : n = k := by
  have hnaddr := (checkEntry_eq_zero_iff.mp (h.entry n hn)).2.2.1
  have hkaddr := (checkEntry_eq_zero_iff.mp (h.entry k hk)).2.2.1
  rw [← hnaddr, ← hkaddr, heq]

/-- What is in a new bucket is a new entry. -/
theorem mem_of_mem_vvNew (h : Checked m) {b : Fin 256} (hn : n ∈ m.vvNew b) : n ∈ m.newIds := by
  have hpos := holders_pos hn
  have hcount := h.held n
  rw [h.mem_newIds]
  by_contra hout
  rw [mapNew, if_neg hout] at hcount
  omega

/-- A new entry counts the buckets that hold it. -/
theorem nRefCount (h : Checked m) (hn : n ∈ m.ids) :
    (m.mapInfo n).nRefCount = holders m.vvNew n ∧ holders m.vvNew n ≤ 4 := by
  obtain ⟨htried, hdown, -⟩ := checkEntry_eq_zero_iff.mp (h.entry n hn)
  rw [h.held n, ← Nat.cast_le (α := Int), h.held n, mapNew]
  cases hup : (m.mapInfo n).fInTried with
  | true => simp [(htried hup).2]
  | false =>
    rw [if_pos ⟨hn, rfl⟩]
    exact ⟨rfl, (hdown hup).2⟩

end Checked

end CAddrMan

end Breakout
