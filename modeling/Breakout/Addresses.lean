/-
# Addresses as texts

An address is a version byte, a byte for the colour, and the hash of a key or of a script; its text is
these bytes and four bytes of their hash in base 58.  The version tells the network and whether it is a
key or a script, and the byte of a colour depends on the version.

A text that was made of a destination in a valid colour gives that destination back, in that colour
(`get_ofText_addressText`).  All others have one text, which is no address.
-/
import Breakout.Lib.Radix
import Breakout.Interpreter
import Breakout.HexText

namespace Breakout

open Lib

/-! ## 1. Base 58 -/

def pszBase58 : List Char :=
  "123456789ABCDEFGHJKLMNPQRSTUVWXYZabcdefghijkmnopqrstuvwxyz".toList

def encodeBase58 (vch : Valtype) : List Char :=
  (reradix 256 58 (vch.map UInt8.toNat)).map (pszBase58.getD · '1')

/-- The digits of a text, up to the spaces at its end. -/
def readBase58 : List Char → Option (List Nat)
  | [] => some []
  | c :: cs =>
    match pszBase58.idxOf? c with
    | some d => (readBase58 cs).map (d :: ·)
    | none => if ((c :: cs).dropWhile isSpace).isEmpty then some [] else none

def decodeBase58 (psz : List Char) : Option Valtype :=
  (readBase58 (psz.dropWhile isSpace)).map fun ds => (reradix 58 256 ds).map UInt8.ofNat

variable (K : Crypto)

/-- The first four bytes of the hash. -/
def checksum (vch : Valtype) : Valtype := (serUInt256 (K.hash vch)).take 4

def encodeBase58Check (vchIn : Valtype) : List Char := encodeBase58 (vchIn ++ checksum K vchIn)

/-- `DecodeBase58Check`: `vchRet`, which is empty if it fails. -/
def decodeBase58Check (psz : List Char) : Valtype :=
  match decodeBase58 psz with
  | none => []
  | some vch =>
    let body := vch.take (vch.length - 4)
    if vch.length < 4 then []
    else if checksum K body ≠ vch.drop (vch.length - 4) then []
    else body

variable {K} {vch : Valtype}

theorem idxOf?_pszBase58 : ∀ d < 58, pszBase58.idxOf? (pszBase58.getD d '1') = some d := by decide

theorem isSpace_pszBase58 : ∀ d < 58, isSpace (pszBase58.getD d '1') = false := by decide

theorem readBase58_map {ds : List Nat} (hds : ∀ d ∈ ds, d < 58) :
    readBase58 (ds.map (pszBase58.getD · '1')) = some ds := by
  induction ds with
  | nil => rfl
  | cons d ds ih =>
    obtain ⟨hd, hds⟩ := List.forall_mem_cons.mp hds
    rw [List.map_cons, readBase58, idxOf?_pszBase58 d hd, ih hds]
    rfl

/-- **What is encoded is decoded.** -/
theorem decodeBase58_encodeBase58 (vch : Valtype) : decodeBase58 (encodeBase58 vch) = some vch := by
  have hbytes : ∀ d ∈ vch.map UInt8.toNat, d < 256 := by
    intro d hd
    obtain ⟨b, -, rfl⟩ := List.mem_map.mp hd
    exact b.toNat_lt
  have hdigits : ∀ d ∈ reradix 256 58 (vch.map UInt8.toNat), d < 58 := reradix_lt (by decide)
  have hspace : (encodeBase58 vch).dropWhile isSpace = encodeBase58 vch := by
    unfold encodeBase58
    generalize reradix 256 58 (vch.map UInt8.toNat) = ds at hdigits
    cases ds with
    | nil => rfl
    | cons d ds =>
      rw [List.map_cons, List.dropWhile_cons_of_neg]
      rw [isSpace_pszBase58 d (hdigits d List.mem_cons_self)]
      exact Bool.false_ne_true
  rw [decodeBase58, hspace, encodeBase58, readBase58_map hdigits, Option.map_some,
    reradix_reradix (by decide) hbytes, List.map_map]
  simp [Function.comp_def]

theorem length_checksum : (checksum K vch).length = 4 := by
  rw [checksum, List.length_take, serUInt256, length_leBytes]
  rfl

theorem decodeBase58Check_encodeBase58Check (vch : Valtype) :
    decodeBase58Check K (encodeBase58Check K vch) = vch := by
  have hlength : (vch ++ checksum K vch).length - 4 = vch.length := by
    rw [List.length_append, length_checksum, Nat.add_sub_cancel]
  rw [decodeBase58Check, encodeBase58Check, decodeBase58_encodeBase58]
  dsimp only
  rw [hlength, List.take_left, List.drop_left, if_neg (by simp [length_checksum]),
    if_neg (by simp)]

/-! ## 2. Destinations -/

abbrev UInt160 := BitVec 160

namespace Wallet

/-- `CTxDestination`; the public key that stealth addresses are told apart by, and its colour. -/
inductive CTxDestination where
  | noDestination
  | keyID (id : UInt160) (nColor : Int32)
  | scriptID (id : UInt160) (nColor : Int32)
  | stealth (scanPubkey : Valtype) (nColor : Int32)
deriving DecidableEq

namespace CTxDestination

/-- `GetAddressColorVisitor` -/
def color : CTxDestination → Int32
  | noDestination => Color.none.toInt32
  | keyID _ nColor => nColor
  | scriptID _ nColor => nColor
  | stealth _ nColor => nColor

/-- The destination in another colour. -/
def recolor : CTxDestination → Int32 → CTxDestination
  | noDestination, _ => noDestination
  | keyID id _, nColor => keyID id nColor
  | scriptID id _, nColor => scriptID id nColor
  | stealth scanPubkey _, nColor => stealth scanPubkey nColor

/-- `which()` -/
def which : CTxDestination → Nat
  | noDestination => 0
  | keyID .. => 1
  | scriptID .. => 2
  | stealth .. => 3

/-- `operator<`: that of `CKeyID` and `CScriptID` is `uint160`'s, and "no destination" is always less
than itself. -/
def lt : CTxDestination → CTxDestination → Bool
  | noDestination, noDestination => true
  | keyID a _, keyID b _ => decide (a.toNat < b.toNat)
  | scriptID a _, scriptID b _ => decide (a.toNat < b.toNat)
  | stealth a _, stealth b _ => decide (a.take 33 < b.take 33)
  | a, b => decide (a.which < b.which)

end CTxDestination

/-! ## 3. `CBitcoinAddress` -/

/-- `aColorID`: the bytes of the colours for a version byte. -/
def colorIDs (nVersion : UInt8) : Option (List UInt8) :=
  if nVersion = 19 then
    some [0, 174, 160, 120, 5,
      16, 17, 18, 19, 20, 21, 22, 23, 24, 25, 26, 27, 29,
      30, 31, 32, 33, 34, 35, 36, 37, 38, 39, 40, 41, 42,
      43, 44, 45, 46, 47, 49, 50, 51, 52, 53, 54, 56, 57,
      58, 59, 60, 61, 62, 63, 64, 65, 66, 67, 68, 69, 71, 234]
  else if nVersion = 1 then
    some [0, 107, 203, 55, 9,
      72, 73, 74, 75, 76, 77, 78, 79, 80, 81, 82, 83, 84,
      85, 86, 87, 88, 89, 90, 91, 92, 93, 94, 95, 96, 97,
      98, 99, 100, 101, 102, 103, 104, 105, 106, 108, 109, 110, 111,
      112, 113, 114, 115, 116, 117, 118, 119, 121, 123, 124, 125, 126, 235]
  else if nVersion = 6 then
    some [0, 6, 28, 48, 11,
      127, 128, 129, 130, 131, 132, 133, 134, 135, 136, 137, 138, 139,
      140, 141, 142, 143, 144, 145, 146, 147, 148, 149, 150, 151, 152,
      153, 154, 155, 156, 157, 158, 159, 161, 162, 163, 164, 165, 166,
      167, 168, 169, 170, 171, 172, 173, 175, 176, 177, 178, 179, 180, 236]
  else if nVersion = 4 then
    some [0, 122, 70, 8, 13,
      181, 182, 183, 184, 185, 186, 187, 188, 189, 190, 191, 192, 193,
      194, 195, 196, 197, 198, 199, 200, 201, 202, 204, 205, 206, 207,
      208, 209, 210, 211, 212, 213, 214, 215, 216, 217, 218, 219, 220,
      221, 222, 223, 224, 225, 226, 227, 228, 229, 230, 231, 232, 233, 237]
  else none

def getVecColorID (nVersion : UInt8) (nColor : Int32) : Option UInt8 :=
  if checkColor nColor = false then none
  else (colorIDs nVersion).bind fun ids => ids[nColor.toInt.toNat]?

structure CBitcoinAddress where
  nVersion : UInt8
  vchData : Valtype
  nColor : Int32

namespace CBitcoinAddress

/-- `Set`: there is no text of a stealth address here. -/
def ofDestination (fTestNet : Bool) (dest : CTxDestination) (nColorIn : Int32) : CBitcoinAddress :=
  match dest with
  | .keyID id _ => ⟨if fTestNet then 6 else 19, leBytes 20 id.toNat, nColorIn⟩
  | .scriptID id _ => ⟨if fTestNet then 4 else 1, leBytes 20 id.toNat, nColorIn⟩
  | _ => ⟨0, [], nColorIn⟩

/-- `ToString` -/
def toText (K : Crypto) (a : CBitcoinAddress) : List Char :=
  match getVecColorID a.nVersion a.nColor with
  | none => "<not valid>".toList
  | some vecColorID => encodeBase58Check K (a.nVersion :: vecColorID :: a.vchData)

/-- What `SetString` leaves when it fails.  The colour is not assigned then, and a version of 0 is
not valid in any. -/
def cleared : CBitcoinAddress := ⟨0, [], 0⟩

/-- `SetString` -/
def ofText (K : Crypto) (psz : List Char) : CBitcoinAddress :=
  match decodeBase58Check K psz with
  | nVersion :: vColorByte :: vchData =>
    if vchData.length < 20 then cleared
    else
      match (colorIDs nVersion).bind (·.idxOf? vColorByte) with
      | none => cleared
      | some nColor => ⟨nVersion, vchData.take 20, Int32.ofNat nColor⟩
  | _ => cleared

def isValid (fTestNet : Bool) (a : CBitcoinAddress) : Bool :=
  if a.nColor.toInt < 1 ∨ a.nColor.toInt > nColors then false
  else if a.nVersion = 19 ∨ a.nVersion = 1 then !fTestNet && a.vchData.length == 20
  else if a.nVersion = 6 ∨ a.nVersion = 4 then fTestNet && a.vchData.length == 20
  else false

def get (fTestNet : Bool) (a : CBitcoinAddress) : CTxDestination :=
  if a.isValid fTestNet = false then .noDestination
  else if a.nVersion = 19 ∨ a.nVersion = 6 then .keyID (BitVec.ofNat 160 (leNat a.vchData)) a.nColor
  else if a.nVersion = 1 ∨ a.nVersion = 4 then
    .scriptID (BitVec.ofNat 160 (leNat a.vchData)) a.nColor
  else .noDestination

end CBitcoinAddress

/-- `CBitcoinAddress(address, nColor).ToString()` -/
def addressText (K : Crypto) (fTestNet : Bool) (address : CTxDestination) (nColor : Int32) :
    List Char :=
  (CBitcoinAddress.ofDestination fTestNet address nColor).toText K

/-- `CBitcoinAddress(strAddress).Get()` -/
def textAddress (K : Crypto) (fTestNet : Bool) (strAddress : List Char) : CTxDestination :=
  (CBitcoinAddress.ofText K strAddress).get fTestNet

/-! ## 4. Texts are read back -/

/-- A key or a script in a valid colour. -/
def CTxDestination.Encodes : CTxDestination → Prop
  | .keyID _ nColor => checkColor nColor = true
  | .scriptID _ nColor => checkColor nColor = true
  | _ => False

/-- The byte of a colour tells the colour: "Keys must be be unique within each version". -/
theorem colorIDs_unique : ∀ nVersion ∈ [(19 : UInt8), 1, 6, 4], ∀ n < nColors, ∃ b,
    ((colorIDs nVersion).bind fun ids => ids[n]?) = some b ∧
      (colorIDs nVersion).bind (·.idxOf? b) = some n := by
  decide +kernel

variable {nVersion : UInt8} {vchData : Valtype} {nColor : Int32} {fTestNet : Bool}
  {address : CTxDestination}

/-- What an address with a valid colour is read back as. -/
theorem ofText_toText (hversion : nVersion ∈ [(19 : UInt8), 1, 6, 4]) (hdata : vchData.length = 20)
    (hcolor : checkColor nColor = true) :
    CBitcoinAddress.ofText K (CBitcoinAddress.toText K ⟨nVersion, vchData, nColor⟩) =
      ⟨nVersion, vchData, nColor⟩ := by
  have hrange : 1 ≤ nColor.toInt ∧ nColor.toInt < nColors := by simpa [checkColor] using hcolor
  obtain ⟨b, hbyte, hindex⟩ := colorIDs_unique nVersion hversion nColor.toInt.toNat (by omega)
  have hback : Int32.ofNat nColor.toInt.toNat = nColor := by
    rw [← Int32.ofInt_eq_ofNat, Int.toNat_of_nonneg (by omega), Int32.ofInt_toInt]
  unfold CBitcoinAddress.toText getVecColorID
  dsimp only
  rw [if_neg (by simp [hcolor]), hbyte]
  unfold CBitcoinAddress.ofText
  dsimp only
  rw [decodeBase58Check_encodeBase58Check]
  dsimp only
  rw [if_neg (by omega), hindex, List.take_of_length_le hdata.le]
  dsimp only
  rw [hback]

theorem leNat_id (id : UInt160) : BitVec.ofNat 160 (leNat (leBytes 20 id.toNat)) = id := by
  rw [leNat_leBytes (by simpa using id.isLt), BitVec.ofNat_toNat, BitVec.setWidth_eq]

/-- An address of this network is valid in a valid colour. -/
theorem isValid_of_checkColor
    (hversion : nVersion ∈ if fTestNet then [(6 : UInt8), 4] else [19, 1])
    (hdata : vchData.length = 20) (hcolor : checkColor nColor = true) :
    CBitcoinAddress.isValid fTestNet ⟨nVersion, vchData, nColor⟩ = true := by
  have hrange : 1 ≤ nColor.toInt ∧ nColor.toInt < nColors := by simpa [checkColor] using hcolor
  unfold CBitcoinAddress.isValid
  dsimp only
  rw [if_neg (by omega)]
  cases fTestNet with
  | false =>
    rcases List.mem_pair.mp hversion with rfl | rfl
    · simp [hdata]
    · simp [hdata]
  | true =>
    rcases List.mem_pair.mp hversion with rfl | rfl
    · simp [hdata]
    · simp [hdata]

/-- **A text is read back as what it was made of.** -/
theorem textAddress_addressText (h : (address.recolor nColor).Encodes) :
    textAddress K fTestNet (addressText K fTestNet address nColor) = address.recolor nColor := by
  cases address with
  | noDestination => exact h.elim
  | stealth => exact h.elim
  | keyID id c =>
    have hvalid : CBitcoinAddress.isValid fTestNet
        ⟨if fTestNet then 6 else 19, leBytes 20 id.toNat, nColor⟩ = true :=
      isValid_of_checkColor (by cases fTestNet <;> decide) (length_leBytes ..) h
    unfold textAddress addressText CBitcoinAddress.ofDestination
    dsimp only
    rw [ofText_toText (by cases fTestNet <;> decide) (length_leBytes ..) h]
    unfold CBitcoinAddress.get
    dsimp only
    rw [if_neg (by simp [hvalid]), if_pos (by cases fTestNet <;> simp), leNat_id]
    rfl
  | scriptID id c =>
    have hvalid : CBitcoinAddress.isValid fTestNet
        ⟨if fTestNet then 4 else 1, leBytes 20 id.toNat, nColor⟩ = true :=
      isValid_of_checkColor (by cases fTestNet <;> decide) (length_leBytes ..) h
    unfold textAddress addressText CBitcoinAddress.ofDestination
    dsimp only
    rw [ofText_toText (by cases fTestNet <;> decide) (length_leBytes ..) h]
    unfold CBitcoinAddress.get
    dsimp only
    rw [if_neg (by simp [hvalid]), if_neg (by cases fTestNet <;> simp),
      if_pos (by cases fTestNet <;> simp), leNat_id]
    rfl

/-- The text of what has none. -/
def notValid : List Char := "<not valid>".toList

theorem addressText_of_not_encodes (h : ¬ (address.recolor nColor).Encodes) :
    addressText K fTestNet address nColor = notValid := by
  have hnone : getVecColorID (CBitcoinAddress.ofDestination fTestNet address nColor).nVersion
      (CBitcoinAddress.ofDestination fTestNet address nColor).nColor = none := by
    unfold getVecColorID CBitcoinAddress.ofDestination
    cases address with
    | noDestination => simp [colorIDs]
    | stealth => simp [colorIDs]
    | keyID id c => exact if_pos (Bool.eq_false_iff.mpr h)
    | scriptID id c => exact if_pos (Bool.eq_false_iff.mpr h)
  rw [addressText, CBitcoinAddress.toText, hnone]
  rfl

theorem textAddress_notValid :
    textAddress K fTestNet notValid = .noDestination := by
  have hdecode : decodeBase58 notValid = none := by decide
  unfold textAddress CBitcoinAddress.ofText decodeBase58Check
  rw [hdecode]
  rfl

end Wallet

end Breakout
