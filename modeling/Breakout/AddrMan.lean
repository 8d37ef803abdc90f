/-
# The address manager

A node remembers addresses of others.  Each entry has an id: `mapInfo` has the entries, `mapAddr` finds
the id of an address, and `vRandom` lists the ids in a random order, with the position kept in the entry.
Addresses that were connected to are in one of 64 buckets of `vvTried`; the others are in up to four of
256 buckets of `vvNew`, which `nRefCount` counts, and are deleted when they are in none.

Random numbers are given to each operation, and so is the time.  A read of `mapInfo` at an id that it
does not have stops the model, as an assertion that fails does: where the source asserts nothing, it
would go on with an entry made up for the occasion.  Ids are counted without end; `nIdCount` is an `int`,
whose overflow has no meaning in the source.
-/
import Mathlib.Data.Finset.Sort
import Breakout.Lib.Tiers
import Breakout.AddressBytes

namespace Breakout

open Lib

/-! ## 1. Groups of addresses -/

namespace CNetAddr

def getByte (a : CNetAddr) (n : Nat) : UInt8 := a.ip.getD (15 - n) 0

def isIPv4 (a : CNetAddr) : Bool := a.ip.take 12 == pchIPv4

def isRFC1918 (a : CNetAddr) : Bool :=
  a.isIPv4 && (a.getByte 3 == 10 || (a.getByte 3 == 192 && a.getByte 2 == 168) ||
    (a.getByte 3 == 172 && (decide (16 ≤ a.getByte 2) && decide (a.getByte 2 ≤ 31))))

def isRFC3927 (a : CNetAddr) : Bool := a.isIPv4 && (a.getByte 3 == 169 && a.getByte 2 == 254)

def isRFC3849 (a : CNetAddr) : Bool := a.ip.take 4 == [0x20, 0x01, 0x0D, 0xB8]

def isRFC3964 (a : CNetAddr) : Bool := a.ip.take 2 == [0x20, 0x02]

def isRFC6052 (a : CNetAddr) : Bool :=
  a.ip.take 12 == [0, 0x64, 0xFF, 0x9B, 0, 0, 0, 0, 0, 0, 0, 0]

def isRFC4380 (a : CNetAddr) : Bool := a.ip.take 4 == [0x20, 0x01, 0, 0]

def isRFC4862 (a : CNetAddr) : Bool := a.ip.take 8 == [0xFE, 0x80, 0, 0, 0, 0, 0, 0]

def isRFC4193 (a : CNetAddr) : Bool := a.getByte 15 &&& 0xFE == 0xFC

def isRFC6145 (a : CNetAddr) : Bool :=
  a.ip.take 12 == [0, 0, 0, 0, 0, 0, 0, 0, 0xFF, 0xFF, 0, 0]

def isRFC4843 (a : CNetAddr) : Bool :=
  a.ip.take 3 == [0x20, 0x01, 0x00] && a.getByte 12 &&& 0xF0 == 0x10

def isLocal (a : CNetAddr) : Bool :=
  a.isIPv4 && (a.getByte 3 == 127 || a.getByte 3 == 0) || a.ip.take 16 == List.replicate 15 0 ++ [1]

/-- `IsValid`.  The first test is for addresses that are shifted by three bytes. -/
def isValid (a : CNetAddr) : Bool :=
  if a.ip.take 9 == pchIPv4.drop 3 then false
  else if a.ip.take 16 == List.replicate 16 0 then false
  else if a.isRFC3849 then false
  else if a.isIPv4 && (a.ip.drop 12).take 4 == List.replicate 4 0xFF then false
  else if a.isIPv4 && (a.ip.drop 12).take 4 == List.replicate 4 0 then false
  else true

def isRoutable (a : CNetAddr) : Bool :=
  a.isValid && !(a.isRFC1918 || a.isRFC3927 || a.isRFC4862 ||
    (a.isRFC4193 && !a.isTor && !a.isI2P) || a.isRFC4843 || a.isLocal)

/-- The end of `GetGroup`: the class, and so many bits from a byte on. -/
def groupBits (a : CNetAddr) (nClass : UInt8) (nStartByte nBits : Nat) : Valtype :=
  nClass :: (a.ip.drop nStartByte).take (nBits / 8) ++
    if nBits % 8 > 0 then
      [a.getByte (15 - (nStartByte + nBits / 8)) ||| UInt8.ofNat (2 ^ (nBits % 8) - 1)]
    else []

/-- `GetGroup`.  Local addresses are not routable, which undoes the class that they are given first. -/
def getGroup (a : CNetAddr) : Valtype :=
  if !a.isRoutable then a.groupBits 0 0 0
  else if a.isIPv4 || a.isRFC6145 || a.isRFC6052 then a.groupBits 1 12 16
  else if a.isRFC3964 then a.groupBits 1 2 16
  else if a.isRFC4380 then [1, a.getByte 3 ^^^ 0xFF, a.getByte 2 ^^^ 0xFF]
  else if a.isTor then a.groupBits 3 pchOnionCat.length 4
  else if a.isI2P then a.groupBits 4 pchGarlicCat.length 4
  else if a.ip.take 4 == [0x20, 0x11, 0x04, 0x70] then a.groupBits 2 0 36
  else a.groupBits 2 0 32

end CNetAddr

/-! ## 2. Entries -/

structure CAddress extends CService where
  nServices : UInt64
  nTime : UInt32
  nLastTry : Int64

structure CAddrInfo extends CAddress where
  source : CNetAddr
  nLastSuccess : Int64
  nAttempts : Int32
  nRefCount : Int
  fInTried : Bool
  nRandomPos : Int

/-- What `operator<` of `CNetAddr` compares. -/
def CNetAddr.key (a : CNetAddr) : Valtype := a.ip.take 16

/-- `operator==` -/
def CService.eq (a b : CService) : Bool := a.addr.eq b.addr && a.port == b.port

/-- A time as it is compared. -/
def CAddress.time (a : CAddress) : Int64 := Int64.ofNat a.nTime.toNat

/-- A time as it is kept: `unsigned int`. -/
def shortTime (nTime : Int64) : UInt32 := UInt32.ofNat nTime.toUInt64.toNat

instance : Inhabited CNetAddr := ⟨⟨List.replicate 64 0, CNetAddr.length_zeroes⟩⟩
instance : Inhabited CAddress := ⟨⟨⟨default, 0⟩, 0, 0, 0⟩⟩

namespace CAddrInfo

/-- `CAddrInfo(addrIn, addrSource)` -/
def new (addrIn : CAddress) (addrSource : CNetAddr) : CAddrInfo where
  toCAddress := { addrIn with nLastTry := 0 }
  source := addrSource
  nLastSuccess := 0
  nAttempts := 0
  nRefCount := 0
  fInTried := false
  nRandomPos := -1

instance : Inhabited CAddrInfo := ⟨.new default default⟩

def isTerrible (info : CAddrInfo) (nNow : Int64) : Bool :=
  if info.nLastTry ≠ 0 ∧ info.nLastTry ≥ nNow - 60 then false
  else if info.time > nNow + 10 * 60 then true
  else if info.nTime = 0 ∨ nNow - info.time > 30 * 86400 then true
  else if info.nLastSuccess = 0 ∧ info.nAttempts ≥ 3 then true
  else if nNow - info.nLastSuccess > 7 * 86400 ∧ info.nAttempts ≥ 10 then true
  else false

end CAddrInfo

variable (K : Crypto) (nKey : Valtype)

/-- `Hash(ss.begin(), ss.end()).Get64()` -/
def hash64 (ss : List UInt8) : Nat := (K.hash ss).toNat % 2 ^ 64

namespace CAddrInfo

def getTriedBucket (info : CAddrInfo) : Fin 64 :=
  let hash1 := hash64 K (serBytes nKey ++ serBytes (info.addr.getKey info.port))
  let hash2 := hash64 K (serBytes nKey ++ serBytes info.addr.getGroup ++ leBytes 8 (hash1 % 4))
  Fin.ofNat 64 hash2

def getNewBucket (info : CAddrInfo) (src : CNetAddr) : Fin 256 :=
  let hash1 := hash64 K (serBytes nKey ++ serBytes info.addr.getGroup ++ serBytes src.getGroup)
  let hash2 := hash64 K (serBytes nKey ++ serBytes src.getGroup ++ leBytes 8 (hash1 % 32))
  Fin.ofNat 256 hash2

end CAddrInfo

/-! ## 3. `CAddrMan` -/

/-! Sets of ids are read in increasing order. -/

instance isTransInt : IsTrans ℤ (· ≤ ·) := inferInstance
instance antisymmInt : Std.Antisymm (α := ℤ) (· ≤ ·) := inferInstance
instance totalInt : Std.Total (α := ℤ) (· ≤ ·) := inferInstance

/-- `CAddrMan`.  The ids are those that `mapInfo` has. -/
structure CAddrMan where
  nIdCount : Int
  ids : Finset Int
  mapInfo : Int → CAddrInfo
  mapAddr : Valtype → Option Int
  vRandom : List Int
  nTried : Int
  vvTried : Fin 64 → List Int
  nNew : Int
  vvNew : Fin 256 → Finset Int

/-- `assert(c)` -/
def assertThat (c : Prop) [Decidable c] : Run Unit :=
  if c then .ok () else .error (.throw "assertion failed")

/-- `v[p]` -/
def slot (v : List Int) (p : Int) : Run Int :=
  match if 0 ≤ p then v[p.toNat]? else none with
  | some n => .ok n
  | none => .error (.oob p)

/-- `GetRandInt(nMax)`, for a random number. -/
def getRandInt (r nMax : Nat) : Nat := if nMax = 0 then 0 else r % nMax

namespace CAddrMan

/-- `CAddrMan()` -/
def new : CAddrMan where
  nIdCount := 0
  ids := ∅
  mapInfo _ := default
  mapAddr _ := none
  vRandom := []
  nTried := 0
  vvTried _ := []
  nNew := 0
  vvNew _ := ∅

/-- `mapInfo[nId]`, and `assert(mapInfo.count(nId) == 1)`. -/
def info (m : CAddrMan) (nId : Int) : Run CAddrInfo :=
  if nId ∈ m.ids then .ok (m.mapInfo nId) else .error (.throw "assert(mapInfo.count(nId) == 1)")

/-- An entry is changed. -/
def setInfo (m : CAddrMan) (nId : Int) (info : CAddrInfo) : CAddrMan :=
  { m with mapInfo := Function.update m.mapInfo nId info }

def find (m : CAddrMan) (addr : CNetAddr) : Option Int :=
  (m.mapAddr addr.key).filter (· ∈ m.ids)

def create (m : CAddrMan) (addr : CAddress) (addrSource : CNetAddr) : Int × CAddrMan :=
  let nId := m.nIdCount
  let info := { CAddrInfo.new addr addrSource with nRandomPos := m.vRandom.length }
  (nId, { m with
    nIdCount := m.nIdCount + 1
    ids := insert nId m.ids
    mapInfo := Function.update m.mapInfo nId info
    mapAddr := Function.update m.mapAddr addr.addr.key (some nId)
    vRandom := m.vRandom ++ [nId] })

/-- `SwapRandom`.  A negative position is one beyond the end. -/
def swapRandom (m : CAddrMan) (nRndPos1 nRndPos2 : Int) : Run CAddrMan :=
  if nRndPos1 = nRndPos2 then .ok m
  else do
    let nId1 ← slot m.vRandom nRndPos1
    let nId2 ← slot m.vRandom nRndPos2
    let info1 ← m.info nId1
    let m' := m.setInfo nId1 { info1 with nRandomPos := nRndPos2 }
    let info2 ← m'.info nId2
    let m' := m'.setInfo nId2 { info2 with nRandomPos := nRndPos1 }
    return { m' with vRandom := (m.vRandom.set nRndPos1.toNat nId2).set nRndPos2.toNat nId1 }

/-! ## 4. New buckets -/

/-- What `ShrinkNew` does when a reference goes: the last one takes the entry with it. -/
def forget (m : CAddrMan) (nId : Int) : Run CAddrMan := do
  let info ← m.info nId
  let m ← m.swapRandom info.nRandomPos (m.vRandom.length - 1)
  return { m with
    vRandom := m.vRandom.dropLast
    mapAddr := Function.update m.mapAddr info.addr.key none
    ids := m.ids.erase nId
    nNew := m.nNew - 1 }

/-- Both ways `ShrinkNew` takes an entry out of a bucket. -/
def unreference (m : CAddrMan) (nUBucket : Fin 256) (nId : Int) : Run CAddrMan := do
  let info ← m.info nId
  let m := m.setInfo nId { info with nRefCount := info.nRefCount - 1 }
  let m ← if info.nRefCount - 1 = 0 then m.forget nId else .ok m
  return { m with vvNew := Function.update m.vvNew nUBucket ((m.vvNew nUBucket).erase nId) }

/-- "first look for deletable items" -/
def findTerrible (m : CAddrMan) (nNow : Int64) : List Int → Run (Option Int)
  | [] => .ok none
  | nId :: rest => do
    let info ← m.info nId
    if info.isTerrible nNow then return some nId else findTerrible m nNow rest

/-- "select four randomly, and pick the oldest of those to replace" -/
def findOldest (m : CAddrMan) (n : List Nat) : Nat → List Int → Option Int → Run (Option Int)
  | _, [], nOldest => .ok nOldest
  | nI, nId :: rest, nOldest =>
    if nI ∉ n then findOldest m n (nI + 1) rest nOldest
    else
      match nOldest with
      | none => findOldest m n (nI + 1) rest (some nId)
      | some old => do
        let info ← m.info nId
        let infoOld ← m.info old
        findOldest m n (nI + 1) rest (if info.nTime < infoOld.nTime then some nId else some old)

/-- `ShrinkNew`, with four random numbers. -/
def shrinkNew (m : CAddrMan) (nUBucket : Fin 256) (nNow : Int64) (rnd : Nat → Nat) :
    Run (Int × CAddrMan) := do
  let vNew := (m.vvNew nUBucket).sort
  let terrible ← m.findTerrible nNow vNew
  match terrible with
  | some nId =>
    let m ← m.unreference nUBucket nId
    return (0, m)
  | none =>
    let n := (List.range 4).map fun i => getRandInt (rnd i) vNew.length
    let oldest ← m.findOldest n 0 vNew none
    match oldest with
    | some nOldest =>
      let m ← m.unreference nUBucket nOldest
      return (1, m)
    | none => .error (.throw "assert(mapInfo.count(nOldest) == 1)")

/-- The end of `Add_`: the entry goes to the bucket that its source chooses. -/
def putNew (m : CAddrMan) (nId : Int) (source : CNetAddr) (nNow : Int64) (rnd : Nat → Nat) :
    Run CAddrMan := do
  let pinfo ← m.info nId
  let nUBucket := pinfo.getNewBucket K nKey source
  if nId ∈ m.vvNew nUBucket then return m
  else
    let m := m.setInfo nId { pinfo with nRefCount := pinfo.nRefCount + 1 }
    let m ← if (m.vvNew nUBucket).card = 64 then
        m.shrinkNew nUBucket nNow rnd >>= fun (_, m) => .ok m
      else .ok m
    return { m with vvNew := Function.update m.vvNew nUBucket (insert nId (m.vvNew nUBucket)) }

/-! ## 5. `Add_` -/

/-- `addr.nTime - nTimePenalty`, but not below zero. -/
def penalized (addr : CAddress) (nTimePenalty : Int64) : UInt32 :=
  shortTime (max 0 (addr.time - nTimePenalty))

/-- "periodically update nTime", and "add services". -/
def refreshed (pinfo : CAddrInfo) (addr : CAddress) (nTimePenalty nNow : Int64) : CAddrInfo :=
  let fCurrentlyOnline := decide (nNow - addr.time < 24 * 60 * 60)
  let nUpdateInterval : Int64 := if fCurrentlyOnline then 60 * 60 else 24 * 60 * 60
  let nTime :=
    if addr.nTime ≠ 0 ∧
      (pinfo.nTime = 0 ∨ pinfo.time < addr.time - nUpdateInterval - nTimePenalty) then
      penalized addr nTimePenalty
    else pinfo.nTime
  { pinfo with nTime := nTime, nServices := pinfo.nServices ||| addr.nServices }

/-- `Add_`: the first random number is for the stochastic test. -/
def add (m : CAddrMan) (addr : CAddress) (source : CNetAddr) (nTimePenalty nNow : Int64)
    (rnd : Nat → Nat) : Run (Bool × CAddrMan) :=
  if addr.addr.isRoutable = false then .ok (false, m)
  else
    match m.find addr.addr with
    | some nId => do
      let pinfo := refreshed (m.mapInfo nId) addr nTimePenalty nNow
      let m := m.setInfo nId pinfo
      -- "do not update if no new information is present"
      if addr.nTime = 0 ∨ (pinfo.nTime ≠ 0 ∧ addr.nTime ≤ pinfo.nTime) then return (false, m)
      else if pinfo.fInTried then return (false, m)
      else if pinfo.nRefCount = 4 then return (false, m)
      else
        -- "previous nRefCount == N: 2^N times harder to increase it"
        let nFactor := 2 ^ pinfo.nRefCount.toNat
        if nFactor > 1 ∧ getRandInt (rnd 0) nFactor ≠ 0 then return (false, m)
        else
          let m ← m.putNew K nKey nId source nNow fun i => rnd (i + 1)
          return (false, m)
    | none => do
      let (nId, m) := m.create addr source
      let pinfo := m.mapInfo nId
      let m := m.setInfo nId { pinfo with nTime := penalized pinfo.toCAddress nTimePenalty }
      let m := { m with nNew := m.nNew + 1 }
      let m ← m.putNew K nKey nId source nNow fun i => rnd (i + 1)
      return (true, m)

/-! ## 6. Tried buckets -/

/-- A round of `SelectTried`: the bucket, the oldest so far, and where it was. -/
def selectRound (m : CAddrMan) (rnd : Nat → Nat) :
    List Int × Option Int × Int → Nat → Run (List Int × Option Int × Int)
  | (vTried, nOldest, nOldestPos), i => do
    let nPos := getRandInt (rnd i) (vTried.length - i) + i
    let nTemp ← slot vTried nPos
    let first ← slot vTried i
    let vTried := (vTried.set nPos first).set i nTemp
    match nOldest with
    | none => return (vTried, some nTemp, nPos)
    | some old =>
      let info ← m.info nTemp
      let infoOld ← m.info old
      return if info.nLastSuccess < infoOld.nLastSuccess then (vTried, some nTemp, nPos)
        else (vTried, some old, nOldestPos)

/-- `SelectTried`, with up to four random numbers.  The position is the one that the oldest was at before
it changed places. -/
def selectTried (m : CAddrMan) (nKBucket : Fin 64) (rnd : Nat → Nat) : Run (Int × CAddrMan) := do
  let vTried := m.vvTried nKBucket
  let (vTried, _, nOldestPos) ←
    (List.range (min 4 vTried.length)).foldlM (m.selectRound rnd) (vTried, none, -1)
  return (nOldestPos, { m with vvTried := Function.update m.vvTried nKBucket vTried })

/-- The end of `MakeTried`, when the tried bucket is full: an entry goes back to a new bucket. -/
def replaceTried (m : CAddrMan) (nId : Int) (nKBucket : Fin 64) (nOrigin : Fin 256)
    (rnd : Nat → Nat) : Run CAddrMan := do
  let (nPos, m) ← m.selectTried nKBucket rnd
  let nOld ← slot (m.vvTried nKBucket) nPos
  let infoOld ← m.info nOld
  let nUBucket := infoOld.getNewBucket K nKey infoOld.source
  let m := m.setInfo nOld { infoOld with fInTried := false, nRefCount := 1 }
  -- "move it to the new bucket nId came from (there is certainly place there)"
  let nBucket := if (m.vvNew nUBucket).card < 64 then nUBucket else nOrigin
  let info := m.mapInfo nId
  return { m with
    vvNew := Function.update m.vvNew nBucket (insert nOld (m.vvNew nBucket))
    nNew := m.nNew + 1
    vvTried := Function.update m.vvTried nKBucket ((m.vvTried nKBucket).set nPos.toNat nId)
    mapInfo := Function.update m.mapInfo nId { info with fInTried := true } }

def makeTried (m : CAddrMan) (nId : Int) (nOrigin : Fin 256) (rnd : Nat → Nat) : Run CAddrMan := do
  assertThat (nId ∈ m.vvNew nOrigin)
  -- "remove the entry from all new buckets"
  let info ← m.info nId
  let info := { info with nRefCount := info.nRefCount - holders m.vvNew nId }
  let m := m.setInfo nId info
  let m := { m with
    vvNew := fun b => (m.vvNew b).erase nId
    nNew := m.nNew - 1 }
  assertThat (info.nRefCount = 0)
  let nKBucket := info.getTriedBucket K nKey
  let vTried := m.vvTried nKBucket
  -- "first check whether there is place to just add it"
  if vTried.length < 64 then
    let m := m.setInfo nId { info with fInTried := true }
    return { m with
      vvTried := Function.update m.vvTried nKBucket (vTried ++ [nId])
      nTried := m.nTried + 1 }
  else m.replaceTried K nKey nId nKBucket nOrigin rnd

/-- `Good_`: the first random number is where the search for a bucket begins. -/
def good (m : CAddrMan) (addr : CService) (nTime : Int64) (rnd : Nat → Nat) : Run CAddrMan :=
  match m.find addr.addr with
  | none => .ok m
  | some nId =>
    let info := m.mapInfo nId
    if info.toCService.eq addr = false then .ok m
    else
      let info := { info with
        nLastSuccess := nTime, nLastTry := nTime, nTime := shortTime nTime, nAttempts := 0 }
      let m := m.setInfo nId info
      if info.fInTried then .ok m
      else
        let nRnd := getRandInt (rnd 0) 256
        let buckets := (List.range 256).map fun n => Fin.ofNat 256 (n + nRnd)
        match buckets.find? (fun nB => nId ∈ m.vvNew nB) with
        -- "if no bucket is found, something bad happened"
        | none => .ok m
        | some nUBucket => m.makeTried K nKey nId nUBucket fun i => rnd (i + 1)

/-! ## 7. The other operations -/

/-- `Attempt_` -/
def attempt (m : CAddrMan) (addr : CService) (nTime : Int64) : CAddrMan :=
  match m.find addr.addr with
  | none => m
  | some nId =>
    let info := m.mapInfo nId
    if info.toCService.eq addr = false then m
    else m.setInfo nId { info with
      nLastTry := nTime, nAttempts := min (max 0 info.nAttempts + 1) 27 }

/-- `Connected_` -/
def connected (m : CAddrMan) (addr : CService) (nTime : Int64) : CAddrMan :=
  match m.find addr.addr with
  | none => m
  | some nId =>
    let info := m.mapInfo nId
    if info.toCService.eq addr = false then m
    else if nTime - info.time > 20 * 60 then m.setInfo nId { info with nTime := shortTime nTime }
    else m

/-- A round of the loops of `Select_`: the bucket, the position, and whether the chance is taken. -/
structure Draw where
  nBucket : Nat
  nPos : Nat
  fTaken : Bool

/-- `Select_`: whether a tried node is used, and the rounds until the node shuts down. -/
def select (m : CAddrMan) (fUseTried : Bool) : List Draw → Run CAddress
  | [] => .ok default
  | draw :: draws =>
    -- `size()`
    if m.vRandom.length = 0 then .ok default
    else
      let bucket :=
        if fUseTried then m.vvTried (Fin.ofNat 64 draw.nBucket)
        else (m.vvNew (Fin.ofNat 256 draw.nBucket)).sort
      if bucket.length = 0 then select m fUseTried draws
      else do
        let nId ← slot bucket (getRandInt draw.nPos bucket.length)
        let info ← m.info nId
        if draw.fTaken then return info.toCAddress else select m fUseTried draws

/-- A round of `GetAddr_`. -/
def getAddrRound (rnd : Nat → Nat) :
    CAddrMan × List CAddress → Nat → Run (CAddrMan × List CAddress)
  | (m, vAddr), n => do
    let nRndPos := getRandInt (rnd n) (m.vRandom.length - n) + n
    let m ← m.swapRandom n nRndPos
    let nId ← slot m.vRandom n
    let info ← m.info nId
    return (m, vAddr ++ [info.toCAddress])

/-- `GetAddr_` -/
def getAddr (m : CAddrMan) (rnd : Nat → Nat) : Run (CAddrMan × List CAddress) :=
  (List.range (min (23 * m.vRandom.length / 100) 2500)).foldlM (getAddrRound rnd) (m, [])

/-! ## 8. `Check_` -/

/-- What `Check_` returns for an entry, zero when it goes on.  `mapAddr[info]` is zero where there is no
id. -/
def checkEntry (m : CAddrMan) (n : Int) : Int :=
  let info := m.mapInfo n
  if info.fInTried = true ∧ info.nLastSuccess = 0 then -1
  else if info.fInTried = true ∧ info.nRefCount ≠ 0 then -2
  else if info.fInTried = false ∧ (info.nRefCount < 0 ∨ info.nRefCount > 4) then -3
  else if info.fInTried = false ∧ info.nRefCount = 0 then -4
  else if (m.mapAddr info.addr.key).getD 0 ≠ n then -5
  else if info.nRandomPos < 0 ∨ m.vRandom[info.nRandomPos.toNat]? ≠ some n then -14
  else if info.nLastTry < 0 then -6
  else if info.nLastSuccess < 0 then -8
  else 0

/-- `setTried.insert(n)` for the tried entries -/
def setTried (m : CAddrMan) : Finset Int := m.ids.filter fun n => (m.mapInfo n).fInTried = true

/-- `mapNew[n] = info.nRefCount` for the others, and zero where there is none -/
def mapNew (m : CAddrMan) (n : Int) : Int :=
  if n ∈ m.ids ∧ (m.mapInfo n).fInTried = false then (m.mapInfo n).nRefCount else 0

/-- `if (!setTried.count(*it)) return -11; setTried.erase(*it);` -/
def checkTried (setTried : Finset Int) (n : Int) : Option (Finset Int) :=
  if n ∈ setTried then some (setTried.erase n) else none

/-- `if (!mapNew.count(*it)) return -12; if (--mapNew[*it] == 0) mapNew.erase(*it);` -/
def checkNew (mapNew : Int → Int) (n : Int) : Option (Int → Int) :=
  if mapNew n ≠ 0 then some (Function.update mapNew n (mapNew n - 1)) else none

/-- `Check_` -/
def check (m : CAddrMan) : Int :=
  if m.vRandom.length ≠ m.nTried + m.nNew then -7
  else
    match (m.ids.sort.map m.checkEntry).find? (· ≠ 0) with
    | some code => code
    | none =>
      if m.setTried.card ≠ m.nTried then -9
      else if (m.ids.filter (m.mapNew · ≠ 0)).card ≠ m.nNew then -10
      else
        match ((List.finRange 64).flatMap m.vvTried).foldlM checkTried m.setTried with
        | none => -11
        | some setTried =>
          match ((List.finRange 256).flatMap fun b => (m.vvNew b).sort).foldlM checkNew m.mapNew with
          | none => -12
          | some mapNew =>
            if setTried ≠ ∅ then -13
            else if m.ids.filter (mapNew · ≠ 0) ≠ ∅ then -15
            else 0

end CAddrMan

end Breakout
