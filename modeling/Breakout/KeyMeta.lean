/-
# What a locked wallet keeps of a stealth payment

A wallet that is locked cannot make the secret of a key that was paid to.  It writes a record
"sxKeyMeta" for the key, to make the secret later, and reads these records when it is loaded.

The id of a key is read through a pointer that is null, and that of a script through one that was
never set.  So a wallet with such a record cannot be loaded at all (`stealthKeyMeta_lost`).
-/
import Breakout.HexTx
import Breakout.Lib.Memory
import Breakout.SecMsgKeys

namespace Breakout

open Lib

namespace KeyMeta

open SecMsg (CKeyID)

/-! ## 1. Ids -/

/-- `CScriptID` has the members of `CKeyID`. -/
abbrev CScriptID := CKeyID

/-- `Serialize`, of both. -/
def serialize (id : CKeyID) : Valtype :=
  leBytes 20 id.id.toNat ++ leBytes 4 id.nColor.toUInt32.toNat

/-- `CDataStream::read` -/
def streamRead (s : Valtype) (nSize : Nat) : Run (Valtype × Valtype) :=
  if s.length < nSize then .error (.throw "CDataStream::read() : end of data")
  else .ok (s.take nSize, s.drop nSize)

/-- A `char` as an `int`. -/
def charToInt (c : UInt8) : Int32 := c.toInt8.toInt32

/-- `Unserialize`, of the object at `self`, once `pColor` is what it is. -/
def unserialize (pColor self : Nat) (m : Memory) (s : Valtype) : Run (Memory × Valtype) := do
  let (pn, s) ← streamRead s 20
  let m ← Memory.store self pn m
  let (nColor, s) ← streamRead s 4
  let m ← Memory.store pColor nColor m
  let c ← m.load pColor 1
  let m ← Memory.store (self + 20) (leBytes 4 (charToInt (c.getD 0 0)).toUInt32.toNat) m
  return (m, s)

/-- `CKeyID::Unserialize`: `char *pColor = NULL;` -/
def unserializeKeyID (self : Nat) (m : Memory) (s : Valtype) : Run (Memory × Valtype) :=
  unserialize 0 self m s

/-- `CScriptID::Unserialize`: `char *pColor;`, whatever it is. -/
def unserializeScriptID (pColor self : Nat) (m : Memory) (s : Valtype) : Run (Memory × Valtype) :=
  unserialize pColor self m s

/-- The object at `self`. -/
def keyIDAt (m : Memory) (self : Nat) : Run CKeyID := do
  let pn ← m.load self 20
  let nColor ← m.load (self + 20) 4
  return ⟨SecMsg.toUInt160 pn, Int32.ofBitVec (BitVec.ofNat 32 (leNat nColor))⟩

/-! ## 2. Records -/

/-- `CStealthKeyMetadata`; of the keys, what is written of them. -/
structure CStealthKeyMetadata where
  pkEphem : Valtype
  pkScan : Valtype
deriving DecidableEq

/-- `CPubKey::Unserialize` -/
def readPubKey (s : Valtype) : Run (Valtype × Valtype) :=
  match readCompactSize s with
  | none => .error (.throw "ReadCompactSize()")
  | some (len, s) => do
    let (vch, s) ← streamRead s len
    return (if len ≤ 65 then vch else [], s)

namespace CStealthKeyMetadata

def serialize (sxKeyMeta : CStealthKeyMetadata) : Valtype :=
  serBytes sxKeyMeta.pkEphem ++ serBytes sxKeyMeta.pkScan

def unserialize (s : Valtype) : Run CStealthKeyMetadata := do
  let (pkEphem, s) ← readPubKey s
  let (pkScan, _) ← readPubKey s
  return ⟨pkEphem, pkScan⟩

end CStealthKeyMetadata

/-- A record of the wallet database: its type, the rest of its key, and its value. -/
structure Record where
  strType : String
  ssKey : Valtype
  ssValue : Valtype
deriving DecidableEq

def writeStealthKeyMeta (keyId : CKeyID) (sxKeyMeta : CStealthKeyMetadata) (db : List Record) :
    List Record :=
  db.filter (fun r => !(r.strType == "sxKeyMeta" && r.ssKey == serialize keyId)) ++
    [⟨"sxKeyMeta", serialize keyId, sxKeyMeta.serialize⟩]

/-- `mapStealthKeyMeta`: ids are compared without their colours. -/
abbrev StealthKeyMetaMap := List (CKeyID × CStealthKeyMetadata)

/-- `mapStealthKeyMeta[keyId] = sxKeyMeta` -/
def assign (mapStealthKeyMeta : StealthKeyMetaMap) (keyId : CKeyID)
    (sxKeyMeta : CStealthKeyMetadata) : StealthKeyMetaMap :=
  if mapStealthKeyMeta.any (·.1.id == keyId.id) then
    mapStealthKeyMeta.map fun e => if e.1.id = keyId.id then (e.1, sxKeyMeta) else e
  else mapStealthKeyMeta ++ [(keyId, sxKeyMeta)]

/-- The process when a record is read: its memory, the address of `keyId`, and what becomes of a
record of another type, which leaves the map as it is. -/
structure Process where
  memory : Record → Memory
  keyId : Record → Nat
  readOther : Record → Run Unit

variable (E : Process)

def readKeyValue (r : Record) (mapStealthKeyMeta : StealthKeyMetaMap) : Run StealthKeyMetaMap :=
  if r.strType = "sxKeyMeta" then do
    let (m, _) ← unserializeKeyID (E.keyId r) (E.memory r) r.ssKey
    let keyId ← keyIDAt m (E.keyId r)
    let sxKeyMeta ← CStealthKeyMetadata.unserialize r.ssValue
    return assign mapStealthKeyMeta keyId sxKeyMeta
  else do
    E.readOther r
    return mapStealthKeyMeta

/-- The loop of `LoadWallet`.  `ReadKeyValue` catches what is thrown, and then the record is passed
over; bad memory ends the process. -/
def loadWallet : List Record → StealthKeyMetaMap → Run StealthKeyMetaMap
  | [], mapStealthKeyMeta => .ok mapStealthKeyMeta
  | r :: rs, mapStealthKeyMeta =>
    match readKeyValue E r mapStealthKeyMeta with
    | .ok mapStealthKeyMeta => loadWallet rs mapStealthKeyMeta
    | .error (.oob i) => .error (.oob i)
    | .error _ => loadWallet rs mapStealthKeyMeta

/-! ## 3. Nothing is restored -/

variable {E}

theorem streamRead_append {s rest : Valtype} {n : Nat} (h : s.length = n) :
    streamRead (s ++ rest) n = .ok (s, rest) := by
  rw [streamRead, if_neg (by simp [h]), List.take_left' h, List.drop_left' h]

/-- A store either leaves bytes or ends the process. -/
theorem store_cases (p : Nat) (bs : Valtype) (m : Memory) :
    (∃ m', Memory.store p bs m = .ok m') ∨ ∃ i, Memory.store p bs m = .error (.oob i) := by
  induction bs generalizing p m with
  | nil => exact Or.inl ⟨m, rfl⟩
  | cons b bs ih =>
    unfold Memory.store
    split_ifs
    · exact Or.inr ⟨p, rfl⟩
    · exact ih _ _

/-- **No id of a key is read back.** -/
theorem unserializeKeyID_serialize (keyId : CKeyID) (self : Nat) (m : Memory) :
    ∃ i, unserializeKeyID self m (serialize keyId) = .error (.oob i) := by
  have hpn := @streamRead_append (leBytes 20 keyId.id.toNat)
    (leBytes 4 keyId.nColor.toUInt32.toNat) 20 (length_leBytes ..)
  have hcolor := @streamRead_append (leBytes 4 keyId.nColor.toUInt32.toNat) [] 4 (length_leBytes ..)
  rw [List.append_nil] at hcolor
  simp only [unserializeKeyID, unserialize, serialize, hpn, bind, Except.bind]
  rcases store_cases self (leBytes 20 keyId.id.toNat) m with ⟨m', hstore⟩ | ⟨i, hstore⟩
  · have hnull : Memory.store 0 (leBytes 4 keyId.nColor.toUInt32.toNat) m' = .error (.oob 0) :=
      Memory.store_null (List.ne_nil_of_length_pos (by rw [length_leBytes]; decide))
    exact ⟨0, by simp only [hstore, hcolor, hnull]⟩
  · exact ⟨i, by simp only [hstore]⟩

theorem readKeyValue_of_sxKeyMeta {r : Record} {keyId : CKeyID} (htype : r.strType = "sxKeyMeta")
    (hkey : r.ssKey = serialize keyId) (mapStealthKeyMeta : StealthKeyMetaMap) :
    ∃ i, readKeyValue E r mapStealthKeyMeta = .error (.oob i) := by
  obtain ⟨i, hi⟩ := unserializeKeyID_serialize keyId (E.keyId r) (E.memory r)
  refine ⟨i, ?_⟩
  rw [readKeyValue, if_pos htype, hkey, hi]
  rfl

/-- Loading does not come to an end if there is such a record. -/
theorem loadWallet_ne_ok {r : Record} {keyId : CKeyID} {db : List Record} (hr : r ∈ db)
    (htype : r.strType = "sxKeyMeta") (hkey : r.ssKey = serialize keyId)
    (mapStealthKeyMeta loaded : StealthKeyMetaMap) :
    loadWallet E db mapStealthKeyMeta ≠ .ok loaded := by
  induction db generalizing mapStealthKeyMeta with
  | nil => cases hr
  | cons r' db ih =>
    rw [loadWallet]
    rcases List.mem_cons.mp hr with rfl | hmem
    · obtain ⟨i, hi⟩ := readKeyValue_of_sxKeyMeta (E := E) htype hkey mapStealthKeyMeta
      rw [hi]
      exact nofun
    · split
      · exact ih hmem _
      · exact nofun
      · exact ih hmem _

/-- **Metadata is never restored.**  Once it was written, loading the wallet does not come to an
end.  Neither is the id of a key read from what it is written as, nor can the id of a script be
relied on to be: there is a value that its pointer may have with which it is not. -/
theorem stealthKeyMeta_lost (E : Process) (db : List Record) (keyId : CKeyID)
    (sxKeyMeta : CStealthKeyMetadata) :
    (∀ mapStealthKeyMeta loaded,
      loadWallet E (writeStealthKeyMeta keyId sxKeyMeta db) mapStealthKeyMeta ≠ .ok loaded) ∧
    (∀ self m, ∃ i, unserializeKeyID self m (serialize keyId) = .error (.oob i)) ∧
    ∀ (id : CScriptID) (self : Nat) (m : Memory), ∃ pColor i,
      unserializeScriptID pColor self m (serialize id) = .error (.oob i) := by
  refine ⟨fun map loaded => ?_, unserializeKeyID_serialize keyId,
    fun id self m => ⟨0, unserializeKeyID_serialize id self m⟩⟩
  exact loadWallet_ne_ok (List.mem_append_right _ List.mem_cons_self) rfl rfl map loaded

/-- A process with all its memory mapped, and the metadata of one key. -/
def openProcess : Process where
  memory _ := ⟨fun p => if p = 0 then none else some 0, rfl⟩
  keyId _ := 1000
  readOther _ := .ok ()

/-- **A wallet that cannot be loaded**: a record was written for one key. -/
theorem loadWallet_ends :
    loadWallet openProcess (writeStealthKeyMeta ⟨1, 1⟩ ⟨[2], [3]⟩ []) [] = .error (.oob 0) := by
  decide

end KeyMeta

end Breakout
