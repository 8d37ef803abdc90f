/-
# Addresses of hidden services

A `CNetAddr` has room for 64 bytes.  An onion address of version 3 takes 41 of them, a prefix and a
payload of 35; a garlic address takes 16.  Its name is the payload in base 32 and a suffix.

The array was widened for these names, and the functions that compare addresses, or make a key of
one, were not: they look at 16 bytes.  `SetSpecial` puts the onion prefix in front of a garlic
payload too.  `hiddenServices_iff` says what is left: names of onion addresses are read and written,
and two of them are told apart when their payloads differ in the first ten bytes.
-/
import Breakout.BaseCodecs

namespace Breakout

open Lib

/-! ## 1. `CNetAddr` -/

def pchOnionCat : Valtype := [0xFD, 0x87, 0xD8, 0x7E, 0xEB, 0x43]
def pchGarlicCat : Valtype := [0xFD, 0x60, 0xDB, 0x4D, 0xDD, 0xB5]
def strOnionSuffix : List Char := ".onion".toList
def strGarlicSuffix : List Char := ".oc.b32.i2p".toList
/-- `ONION_ADDRESS`, for names of version 3. -/
abbrev onionAddress : Nat := 35
abbrev garlicAddress : Nat := 10

/-- `CNetAddr`: the array.  `Init` zeroes 16 bytes of it, and the others are whatever was there. -/
structure CNetAddr where
  ip : Valtype
  size : ip.length = 64

namespace CNetAddr

theorem length_zeroes : (List.replicate 64 0 : Valtype).length = 64 := rfl

theorem length_numbered (n : Int) :
    (UInt8.ofNat n.toNat :: List.replicate 63 0 : Valtype).length = 64 := rfl

/-- A prefix and a payload are written to the front of the array. -/
def write (a : CNetAddr) (cat vchAddr : Valtype) (h : (cat ++ vchAddr).length ≤ 64) : CNetAddr where
  ip := cat ++ vchAddr ++ a.ip.drop (cat ++ vchAddr).length
  size := by rw [List.length_append, List.length_drop, a.size, Nat.add_sub_of_le h]

/-- `SetSpecial`: what it returns, and the address. -/
def setSpecial (a : CNetAddr) (strName : List Char) : Bool × CNetAddr :=
  let nSuffixStart := strName.length - strOnionSuffix.length
  if strName.length > strOnionSuffix.length ∧ strName.drop nSuffixStart = strOnionSuffix then
    let vchAddr := decodeBase32 (strName.take nSuffixStart)
    if h : vchAddr.length = onionAddress then
      (true, a.write pchOnionCat vchAddr (by rw [List.length_append, h]; decide))
    else (false, a)
  else
    let nSuffixStart := strName.length - strGarlicSuffix.length
    if strName.length > strGarlicSuffix.length ∧ strName.drop nSuffixStart = strGarlicSuffix then
      let vchAddr := decodeBase32 (strName.take nSuffixStart)
      if h : vchAddr.length = garlicAddress then
        (true, a.write pchOnionCat vchAddr (by rw [List.length_append, h]; decide))
      else (false, a)
    else (false, a)

def isTor (a : CNetAddr) : Bool := a.ip.take 6 == pchOnionCat

def isI2P (a : CNetAddr) : Bool := a.ip.take 6 == pchGarlicCat

/-- `ToStringIP`.  `plain` is the text of an address of neither network. -/
def toStringIP (plain : CNetAddr → List Char) (a : CNetAddr) : List Char :=
  if a.isTor then encodeBase32 ((a.ip.drop 6).take onionAddress) ++ strOnionSuffix
  else if a.isI2P then encodeBase32 ((a.ip.drop 6).take garlicAddress) ++ strGarlicSuffix
  else plain a

/-- `operator==` -/
def eq (a b : CNetAddr) : Bool := a.ip.take 16 == b.ip.take 16

/-- `operator<` -/
def lt (a b : CNetAddr) : Bool := decide (a.ip.take 16 < b.ip.take 16)

/-- `CService::GetKey`, with the port of the service. -/
def getKey (a : CNetAddr) (port : UInt16) : Valtype :=
  a.ip.take 16 ++ [UInt8.ofNat (port.toNat / 0x100), UInt8.ofNat (port.toNat % 0x100)]

def getHash (K : Crypto) (a : CNetAddr) : UInt64 := UInt64.ofNat (K.hash (a.ip.take 16)).toNat

/-- The comparisons and the keys tell two addresses apart. -/
structure ToldApart (K : Crypto) (a b : CNetAddr) : Prop where
  eq : a.eq b = false
  lt : a.lt b = true ∨ b.lt a = true
  getKey : ∀ port, a.getKey port ≠ b.getKey port
  getHash : a.getHash K ≠ b.getHash K

end CNetAddr

/-! ## 2. Hidden services -/

/-- The payload of an onion or of a garlic address. -/
inductive HiddenService where
  | onion (payload : { l : Valtype // l.length = onionAddress })
  | garlic (payload : { l : Valtype // l.length = garlicAddress })

namespace HiddenService

/-- The name. -/
def text : HiddenService → List Char
  | onion p => encodeBase32 p.val ++ strOnionSuffix
  | garlic p => encodeBase32 p.val ++ strGarlicSuffix

/-- The network it is of. -/
def isOf : HiddenService → CNetAddr → Bool
  | onion _, a => a.isTor
  | garlic _, a => a.isI2P

/-- The address that its name is read as. -/
def address (s : HiddenService) (a : CNetAddr) : CNetAddr := (a.setSpecial s.text).2

/-- The name is read as an address of the network, and the address is written as the name. -/
structure Named (plain : CNetAddr → List Char) (a : CNetAddr) (s : HiddenService) : Prop where
  set : (a.setSpecial s.text).1 = true
  network : s.isOf (s.address a) = true
  text : (s.address a).toStringIP plain = s.text

/-- **Two services are two peers**: their names are read and written, and addresses of different
names are told apart. -/
structure TwoPeers (K : Crypto) (plain : CNetAddr → List Char) (a b : CNetAddr)
    (s s' : HiddenService) : Prop where
  first : s.Named plain a
  second : s'.Named plain b
  apart : s.text ≠ s'.text → CNetAddr.ToldApart K (s.address a) (s'.address b)

/-- Two onion payloads that differ in the first ten bytes, if they differ, so that the hash of them
does not happen to be the same in 64 bits. -/
def DifferEarly (K : Crypto) : HiddenService → HiddenService → Prop
  | onion p, onion q =>
    p ≠ q → p.val.take 10 ≠ q.val.take 10 ∧
      UInt64.ofNat (K.hash (pchOnionCat ++ p.val.take 10)).toNat ≠
        UInt64.ofNat (K.hash (pchOnionCat ++ q.val.take 10)).toNat
  | _, _ => False

variable {K : Crypto} {plain : CNetAddr → List Char}

/-- What the name of an onion address is read as. -/
theorem setSpecial_onion (p : { l : Valtype // l.length = onionAddress }) (a : CNetAddr) :
    (a.setSpecial (onion p).text).1 = true ∧
      ((onion p).address a).ip = pchOnionCat ++ p.val ++ a.ip.drop 41 := by
  have hstart : (onion p).text.length - strOnionSuffix.length = (encodeBase32 p.val).length := by
    rw [text, List.length_append, Nat.add_sub_cancel]
  have hne : encodeBase32 p.val ≠ [] := by
    intro hnil
    have hback := decodeBase32_encodeBase32 p.val
    rw [hnil] at hback
    have hlength := p.property
    rw [← hback] at hlength
    cases hlength
  have hlong : (onion p).text.length > strOnionSuffix.length := by
    have hpos := List.length_pos_iff.mpr hne
    rw [text, List.length_append]
    omega
  have hdrop : (onion p).text.drop ((onion p).text.length - strOnionSuffix.length) =
      strOnionSuffix := List.drop_left' hstart.symm
  have htake : (onion p).text.take ((onion p).text.length - strOnionSuffix.length) =
      encodeBase32 p.val := List.take_left' hstart.symm
  have hdecode : decodeBase32 ((onion p).text.take
      ((onion p).text.length - strOnionSuffix.length)) = p.val := by
    rw [htake, decodeBase32_encodeBase32]
  have hlength := (congrArg List.length hdecode).trans p.property
  have h41 : (pchOnionCat ++ p.val).length = 41 := by
    rw [List.length_append, p.property]
    rfl
  unfold address CNetAddr.setSpecial
  dsimp only
  rw [if_pos ⟨hlong, hdrop⟩, dif_pos hlength]
  refine ⟨rfl, ?_⟩
  rw [CNetAddr.write]
  dsimp only
  rw [hdecode, h41]

/-- The name of a garlic address is read as an onion address. -/
theorem isTor_garlic (p : { l : Valtype // l.length = garlicAddress }) (a : CNetAddr)
    (hset : (a.setSpecial (garlic p).text).1 = true) : ((garlic p).address a).isTor = true := by
  unfold address
  unfold CNetAddr.setSpecial at hset ⊢
  dsimp only at hset ⊢
  have htake : ∀ vchAddr rest : Valtype, (pchOnionCat ++ vchAddr ++ rest).take 6 = pchOnionCat := by
    intro vchAddr rest
    rw [List.append_assoc]
    exact List.take_left' rfl
  split at hset
  · next honion =>
    rw [if_pos honion]
    split at hset
    · next hlength =>
      rw [dif_pos hlength]
      exact beq_iff_eq.mpr (htake _ _)
    · cases hset
  · next honion =>
    rw [if_neg honion]
    split at hset
    · next hgarlic =>
      rw [if_pos hgarlic]
      split at hset
      · next hlength =>
        rw [dif_pos hlength]
        exact beq_iff_eq.mpr (htake _ _)
      · cases hset
    · cases hset

/-- An address of one network is not of the other. -/
theorem not_isI2P {a : CNetAddr} (h : a.isTor = true) : a.isI2P = false := by
  unfold CNetAddr.isTor at h
  unfold CNetAddr.isI2P
  rw [beq_iff_eq.mp h]
  decide

theorem not_named_garlic (p : { l : Valtype // l.length = garlicAddress }) (a : CNetAddr) :
    ¬ (garlic p).Named plain a := by
  intro h
  have hnot := not_isI2P (isTor_garlic p a h.set)
  have hyes : ((garlic p).address a).isI2P = true := h.network
  rw [hnot] at hyes
  cases hyes

/-- **Names of onion addresses** are read and written. -/
theorem named_onion (p : { l : Valtype // l.length = onionAddress }) (a : CNetAddr) :
    (onion p).Named plain a := by
  obtain ⟨hset, hip⟩ := setSpecial_onion p a
  have htor : ((onion p).address a).isTor = true := by
    unfold CNetAddr.isTor
    rw [hip, List.append_assoc]
    exact beq_iff_eq.mpr (List.take_left' rfl)
  refine ⟨hset, htor, ?_⟩
  unfold CNetAddr.toStringIP
  rw [if_pos htor, hip, List.append_assoc]
  have hdrop : (pchOnionCat ++ (p.val ++ a.ip.drop 41)).drop 6 = p.val ++ a.ip.drop 41 :=
    List.drop_left' rfl
  rw [hdrop, List.take_left' p.property]
  rfl

theorem text_onion_inj {p q : { l : Valtype // l.length = onionAddress }} :
    (onion p).text = (onion q).text ↔ p = q := by
  refine ⟨fun h => Subtype.ext ?_, fun h => h ▸ rfl⟩
  have hcode := List.append_cancel_right h
  rw [← decodeBase32_encodeBase32 p.val, hcode, decodeBase32_encodeBase32]

/-- The bytes of an onion address that are compared. -/
theorem take_address (p : { l : Valtype // l.length = onionAddress }) (a : CNetAddr) :
    ((onion p).address a).ip.take 16 = pchOnionCat ++ p.val.take 10 := by
  have hlong : 10 ≤ p.val.length := by
    rw [p.property]
    decide
  rw [(setSpecial_onion p a).2, List.append_assoc]
  change (pchOnionCat ++ (p.val ++ a.ip.drop 41)).take (pchOnionCat.length + 10) = _
  rw [List.take_length_add_append, List.take_append_of_le_length hlong]

/-- **When two addresses are told apart.** -/
theorem toldApart_iff {a b : CNetAddr} : a.ToldApart K b ↔
    a.ip.take 16 ≠ b.ip.take 16 ∧ a.getHash K ≠ b.getHash K := by
  constructor
  · exact fun h => ⟨by simpa [CNetAddr.eq] using h.eq, h.getHash⟩
  · rintro ⟨hne, hhash⟩
    refine ⟨by simpa [CNetAddr.eq] using hne, ?_, fun port heq => hne ?_, hhash⟩
    · by_contra hneither
      rw [not_or, CNetAddr.lt, CNetAddr.lt, decide_eq_true_iff, decide_eq_true_iff] at hneither
      exact hne (List.le_antisymm (List.not_lt.mp hneither.2) (List.not_lt.mp hneither.1))
    · exact (List.append_inj' heq rfl).1

/-- **When hidden services are peers of their own**: for every two payloads, and whatever was in the
two arrays, the names are read and written and told apart exactly when both are of onion addresses
whose first ten bytes differ. -/
theorem hiddenServices_iff (K : Crypto) (plain : CNetAddr → List Char) (a b : CNetAddr)
    (s s' : HiddenService) : TwoPeers K plain a b s s' ↔ DifferEarly K s s' := by
  cases s with
  | garlic p => exact iff_of_false (fun h => not_named_garlic p a h.first) id
  | onion p =>
    cases s' with
    | garlic q => exact iff_of_false (fun h => not_named_garlic q b h.second) id
    | onion q =>
      have happ : (onion p).text ≠ (onion q).text → (CNetAddr.ToldApart K ((onion p).address a)
          ((onion q).address b) ↔ p.val.take 10 ≠ q.val.take 10 ∧
            UInt64.ofNat (K.hash (pchOnionCat ++ p.val.take 10)).toNat ≠
              UInt64.ofNat (K.hash (pchOnionCat ++ q.val.take 10)).toNat) := by
        intro _
        rw [toldApart_iff, CNetAddr.getHash, CNetAddr.getHash, take_address, take_address, Ne,
          List.append_right_inj]
      constructor
      · intro h hne
        have htext := mt text_onion_inj.mp hne
        exact (happ htext).mp (h.apart htext)
      · intro h
        refine ⟨named_onion p a, named_onion q b, fun htext => (happ htext).mpr (h ?_)⟩
        exact mt text_onion_inj.mpr htext

/-- An array that was zeroed. -/
def zeroed : CNetAddr := ⟨List.replicate 64 0, CNetAddr.length_zeroes⟩

/-- A payload of equal bytes. -/
def payload (n : Nat) (b : UInt8) : { l : Valtype // l.length = n } :=
  ⟨List.replicate n b, List.length_replicate⟩

/-- Two onion payloads that differ in the last byte. -/
def lastByte (b : UInt8) : { l : Valtype // l.length = onionAddress } :=
  ⟨List.replicate 34 7 ++ [b], rfl⟩

/-- **Two services for one**: a garlic name is not read as a garlic address, and two onion names
that differ in the last byte are read as one address. -/
theorem services_merged :
    ((garlic (payload garlicAddress 7)).address zeroed).isI2P = false ∧
      (onion (lastByte 1)).text ≠ (onion (lastByte 2)).text ∧
      ((onion (lastByte 1)).address zeroed).eq ((onion (lastByte 2)).address zeroed) = true := by
  refine ⟨by decide +kernel, ?_, by decide +kernel⟩
  rw [Ne, text_onion_inj]
  decide

end HiddenService

end Breakout
