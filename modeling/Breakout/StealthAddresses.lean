/-
# Stealth addresses as texts

The text of a stealth address is seventy-two bytes and four of their hash in base 58: a colour, a
version, the options, the key to scan with, a count, the key to spend with, a count and a reserved
byte.

`SetEncoded` skips the counts and the reserved byte, asks for no less than seventy-six bytes where
there should be no more, and says that a colour is not valid but goes on.  So it takes colours that
the tables have no entry for, and a sender looks them up (`setEncoded_iff`).
-/
import Breakout.AddressSpellings

namespace Breakout

open Lib

/-! ## 1. The format -/

/-- `stealth_version_byte` -/
def stealthVersionByte : UInt8 := 0x28

/-- `CStealthAddress`: what its text is made of. -/
structure CStealthAddress where
  options : UInt8
  scanPubkey : Valtype
  spendPubkey : Valtype
  nColor : Int32
deriving DecidableEq

variable (K : Crypto)

def bitcoinChecksum (p : Valtype) : UInt32 :=
  if p = [] then 0 else UInt32.ofNat (leNat ((K.sha256 (K.sha256 p)).take 4))

/-- `AppendChecksum`: sizes are cast to 32 bits. -/
def appendChecksum (data : Valtype) : Valtype :=
  data ++ leBytes 4 (bitcoinChecksum K (data.take (data.length % 2 ^ 32))).toNat

def verifyChecksum (data : Valtype) : Bool :=
  if data.length < 4 then false
  else
    let checksum := UInt32.ofNat (leNat (data.drop (data.length - 4)))
    bitcoinChecksum K (data.take ((data.length - 4) % 2 ^ 32)) == checksum

/-- The loop of `AppendColorBytes`; an `int` has four bytes. -/
def colorBytesLoop : Nat → Nat → Valtype
  | 0, n => [UInt8.ofNat n]
  | fuel + 1, n =>
    if n ≥ 256 then UInt8.ofNat n :: colorBytesLoop fuel (n / 256) else [UInt8.ofNat n]

/-- `AppendColorBytes`: the bytes that are appended; none for a colour that is not valid. -/
def appendColorBytes (n : Int32) (vch : Valtype) : Valtype :=
  if checkColor n = false then vch else vch ++ colorBytesLoop 3 n.toInt.toNat

namespace CStealthAddress

/-- What `Encoded` writes before the checksum. -/
def raw (a : CStealthAddress) : Valtype :=
  appendColorBytes a.nColor [] ++ [stealthVersionByte, a.options] ++ a.scanPubkey ++ [1] ++
    a.spendPubkey ++ [0, 0]

def encoded (a : CStealthAddress) : List Char := encodeBase58 (appendChecksum K a.raw)

/-- `SetEncoded`: what it returns, and the address. -/
def setEncoded (a : CStealthAddress) (encodedAddress : List Char) : Bool × CStealthAddress :=
  match decodeBase58 (cString encodedAddress) with
  | none => (false, a)
  | some raw =>
    if verifyChecksum K raw = false then (false, a)
    else if raw.length < 1 + 1 + 1 + 33 + 1 + 33 + 1 + 1 + 4 then (false, a)
    else
      -- a colour that is not valid is only reported
      let a := { a with nColor := Int32.ofNat (raw.getD 0 0).toNat }
      if raw.getD 1 0 ≠ stealthVersionByte then (false, a)
      else
        (true, { a with
          options := raw.getD 2 0
          scanPubkey := (raw.drop 3).take 33
          spendPubkey := (raw.drop 37).take 33 })

end CStealthAddress

variable {K}

theorem length_appendChecksum (data : Valtype) :
    (appendChecksum K data).length = data.length + 4 := by
  rw [appendChecksum, List.length_append, length_leBytes]

/-- What a checksum was appended to is verified. -/
theorem verifyChecksum_appendChecksum {data : Valtype} (h : data.length < 2 ^ 32) :
    verifyChecksum K (appendChecksum K data) = true := by
  have hlength : (appendChecksum K data).length - 4 = data.length := by
    rw [length_appendChecksum, Nat.add_sub_cancel]
  rw [verifyChecksum, if_neg (by rw [length_appendChecksum]; omega), hlength]
  dsimp only
  rw [Nat.mod_eq_of_lt h, appendChecksum, List.take_left, List.drop_left,
    leNat_leBytes (UInt32.toNat_lt _), UInt32.ofNat_toNat, Nat.mod_eq_of_lt h, List.take_length,
    beq_self_eq_true]

/-- What is verified has the checksum of its first bytes appended. -/
theorem appendChecksum_of_verifyChecksum {data : Valtype} (h : verifyChecksum K data = true)
    (hlt : data.length < 2 ^ 32) : appendChecksum K (data.take (data.length - 4)) = data := by
  unfold verifyChecksum at h
  split_ifs at h with hshort
  have hlength : (data.take (data.length - 4)).length = data.length - 4 := by
    rw [List.length_take, Nat.min_eq_left (Nat.sub_le ..)]
  have hfour : (data.drop (data.length - 4)).length = 4 := by
    rw [List.length_drop]
    omega
  have hsum : leNat (data.drop (data.length - 4)) < 2 ^ 32 := by
    simpa [hfour] using leNat_lt (data.drop (data.length - 4))
  have hlast : leBytes 4 (leNat (data.drop (data.length - 4))) = data.drop (data.length - 4) := by
    have h4 := leBytes_leNat (data.drop (data.length - 4))
    rwa [hfour] at h4
  rw [Nat.mod_eq_of_lt (by omega), beq_iff_eq] at h
  rw [appendChecksum, hlength, Nat.mod_eq_of_lt (by omega), List.take_take, Nat.min_self, h,
    UInt32.toNat_ofNat_of_lt' hsum, hlast, List.take_append_drop]

/-! ## 2. What is read -/

namespace CStealthAddress

variable {a : CStealthAddress} {s : List Char}

/-- A stealth address with a valid colour and keys of 33 bytes. -/
structure WellFormed (a : CStealthAddress) : Prop where
  color : checkColor a.nColor = true
  scan : a.scanPubkey.length = 33
  spend : a.spendPubkey.length = 33

/-- What `SetEncoded` makes of seventy-six bytes or more. -/
def ofRaw (raw : Valtype) : CStealthAddress where
  options := raw.getD 2 0
  scanPubkey := (raw.drop 3).take 33
  spendPubkey := (raw.drop 37).take 33
  nColor := Int32.ofNat (raw.getD 0 0).toNat

theorem setEncoded_eq_true (h : (setEncoded K a s).1 = true) :
    ∃ raw, decodeBase58 (cString s) = some raw ∧ verifyChecksum K raw = true ∧ 76 ≤ raw.length ∧
      raw.getD 1 0 = stealthVersionByte ∧ (setEncoded K a s).2 = ofRaw raw := by
  unfold setEncoded at *
  cases hdecode : decodeBase58 (cString s) with
  | none => simp [hdecode] at h
  | some raw =>
    simp only [hdecode] at h ⊢
    split_ifs at h ⊢ with hsum hshort hversion
    exact ⟨raw, rfl, Bool.not_eq_false _ ▸ hsum, not_lt.mp hshort, not_not.mp hversion, rfl⟩

/-- What it makes of bytes that are a stealth address. -/
theorem setEncoded_of_raw {raw : Valtype} (hdecode : decodeBase58 (cString s) = some raw)
    (hsum : verifyChecksum K raw = true) (hlength : 76 ≤ raw.length)
    (hversion : raw.getD 1 0 = stealthVersionByte) : setEncoded K a s = (true, ofRaw raw) := by
  unfold setEncoded
  rw [hdecode]
  dsimp only
  rw [if_neg (by simp [hsum]), if_neg (not_lt.mpr hlength), if_neg (not_not.mpr hversion)]
  rfl

theorem colorBytesLoop_of_lt {n : Nat} (h : n < 256) : colorBytesLoop 3 n = [UInt8.ofNat n] :=
  if_neg (by omega)

/-- The bytes of a stealth address, and what comes after its keys. -/
def layout (vColorByte options : UInt8) (scanPubkey : Valtype) (nSpendPubkeys : UInt8)
    (spendPubkey tail : Valtype) : Valtype :=
  vColorByte :: stealthVersionByte :: options ::
    (scanPubkey ++ nSpendPubkeys :: (spendPubkey ++ tail))

theorem WellFormed.raw_eq (h : a.WellFormed) :
    a.raw = layout (UInt8.ofNat a.nColor.toInt.toNat) a.options a.scanPubkey 1 a.spendPubkey
      [0, 0] := by
  have hcolor := h.color
  rw [checkColor, decide_eq_true_eq] at hcolor
  have hlt : a.nColor.toInt < (58 : Nat) := hcolor.2
  rw [raw, appendColorBytes, if_neg (by simp [h.color]), colorBytesLoop_of_lt (by omega), layout]
  simp only [List.nil_append, List.cons_append, List.append_assoc]

section Layout

variable {c o n : UInt8} {scan spend tail : Valtype}

theorem layout_append {last : Valtype} :
    layout c o scan n spend tail ++ last = layout c o scan n spend (tail ++ last) := by
  simp only [layout, List.cons_append, List.append_assoc]

theorem drop_layout (hscan : scan.length = 33) :
    (layout c o scan n spend tail).drop 36 = n :: (spend ++ tail) := by
  rw [layout]
  exact List.drop_left' hscan

theorem ofRaw_layout (hscan : scan.length = 33) (hspend : spend.length = 33) :
    ofRaw (layout c o scan n spend tail) = ⟨o, scan, spend, Int32.ofNat c.toNat⟩ := by
  have hfirst : ((layout c o scan n spend tail).drop 3).take 33 = scan := List.take_left' hscan
  have hsecond : ((layout c o scan n spend tail).drop 37).take 33 = spend := by
    rw [← List.drop_drop (i := 1) (j := 36), drop_layout hscan]
    exact List.take_left' hspend
  rw [ofRaw, hfirst, hsecond]
  rfl

theorem counts_layout (hscan : scan.length = 33) (hspend : spend.length = 33) :
    (layout c o scan n spend tail).getD 36 0 = n ∧
      (layout c o scan n spend tail).drop 70 = tail := by
  constructor
  · rw [List.getD_eq_getElem?_getD, ← List.head?_drop, drop_layout hscan]
    rfl
  · rw [← List.drop_drop (i := 34) (j := 36), drop_layout hscan]
    exact List.drop_left' hspend

/-- Bytes that are long enough and have the version are laid out so. -/
theorem eq_layout {raw : Valtype} (h : 70 ≤ raw.length)
    (hversion : raw.getD 1 0 = stealthVersionByte) :
    raw = layout (raw.getD 0 0) (raw.getD 2 0) ((raw.drop 3).take 33) (raw.getD 36 0)
      ((raw.drop 37).take 33) (raw.drop 70) := by
  obtain ⟨c, v, o, rest, rfl⟩ : ∃ c v o rest, raw = c :: v :: o :: rest := by
    match raw, h with
    | c :: v :: o :: rest, _ => exact ⟨c, v, o, rest, rfl⟩
  obtain rfl : v = stealthVersionByte := hversion
  have hrest : 67 ≤ rest.length := by simpa using h
  have hn : rest.drop 33 = rest.getD 33 0 :: rest.drop 34 := by
    rw [List.getD_eq_getElem _ _ (by omega), List.drop_eq_getElem_cons (by omega)]
  have hparts : rest =
      rest.take 33 ++ rest.getD 33 0 :: ((rest.drop 34).take 33 ++ rest.drop 67) := by
    rw [← List.drop_drop (i := 33) (j := 34), List.take_append_drop, ← hn, List.take_append_drop]
  exact congrArg (c :: stealthVersionByte :: o :: ·) hparts

end Layout

/-! ## 3. Which texts are those of an address -/

/-- What a text has to be: no spaces and no zero byte, seventy-six bytes, a valid colour, one key to
spend with, no signatures and nothing reserved. -/
def Spelled (s : List Char) : Prop :=
  Unspaced s ∧ Char.ofNat 0 ∉ s ∧ ∃ raw, decodeBase58 s = some raw ∧ raw.length = 76 ∧
    checkColor (Int32.ofNat (raw.getD 0 0).toNat) = true ∧ raw.getD 36 0 = 1 ∧
    raw.getD 70 0 = 0 ∧ raw.getD 71 0 = 0

theorem isSpace_encodeBase58 {vch : Valtype} {c : Char} (hc : c ∈ encodeBase58 vch) :
    isSpace c = false := by
  have hdigits : ∀ d ∈ reradix 256 58 (vch.map UInt8.toNat), d < 58 := reradix_lt (by decide)
  obtain ⟨d, hd, rfl⟩ := List.mem_map.mp hc
  exact isSpace_pszBase58 d (hdigits d hd)

theorem unspaced_encodeBase58 (vch : Valtype) : Unspaced (encodeBase58 vch) := by
  constructor
  · cases h : (encodeBase58 vch).head? with
    | none => rfl
    | some c => exact isSpace_encodeBase58 (List.mem_of_head? h)
  · cases h : (encodeBase58 vch).getLast? with
    | none => rfl
    | some c => exact isSpace_encodeBase58 (List.mem_of_getLast? h)

theorem WellFormed.colorByte (h : a.WellFormed) :
    Int32.ofNat (UInt8.ofNat a.nColor.toInt.toNat).toNat = a.nColor := by
  have hcolor := h.color
  rw [checkColor, decide_eq_true_eq] at hcolor
  have hlt : a.nColor.toInt < (58 : Nat) := hcolor.2
  rw [UInt8.toNat_ofNat_of_lt' (show a.nColor.toInt.toNat < 256 by omega), ← Int32.ofInt_eq_ofNat,
    Int.toNat_of_nonneg (by omega), Int32.ofInt_toInt]

theorem WellFormed.length_raw (h : a.WellFormed) : a.raw.length = 72 := by
  rw [h.raw_eq, layout]
  simp [h.scan, h.spend]

theorem WellFormed.exists_layout (h : a.WellFormed) (K : Crypto) : ∃ sum : Valtype,
    sum.length = 4 ∧ appendChecksum K a.raw = layout (UInt8.ofNat a.nColor.toInt.toNat) a.options
      a.scanPubkey 1 a.spendPubkey ([0, 0] ++ sum) := by
  refine ⟨leBytes 4 (bitcoinChecksum K (a.raw.take (a.raw.length % 2 ^ 32))).toNat,
    length_leBytes .., ?_⟩
  rw [← layout_append, ← h.raw_eq]
  rfl

/-- **What is written is read back.** -/
theorem WellFormed.setEncoded_encoded (h : a.WellFormed) (b : CStealthAddress) :
    setEncoded K b (encoded K a) = (true, a) := by
  have hdecode : decodeBase58 (cString (encoded K a)) = some (appendChecksum K a.raw) := by
    rw [encoded, Wallet.CBitcoinAddress.cString_encodeBase58, decodeBase58_encodeBase58]
  have hsum : verifyChecksum K (appendChecksum K a.raw) = true :=
    verifyChecksum_appendChecksum (by rw [h.length_raw]; decide)
  have hlength : 76 ≤ (appendChecksum K a.raw).length := by
    rw [length_appendChecksum, h.length_raw]
  obtain ⟨sum, -, hlayout⟩ := h.exists_layout K
  rw [setEncoded_of_raw hdecode hsum hlength (by rw [hlayout]; rfl), hlayout,
    ofRaw_layout h.scan h.spend, h.colorByte]

/-- What is written is spelled so. -/
theorem WellFormed.spelled (h : a.WellFormed) : Spelled (encoded K a) := by
  obtain ⟨sum, -, hlayout⟩ := h.exists_layout K
  obtain ⟨hn, htail⟩ := @counts_layout (UInt8.ofNat a.nColor.toInt.toNat) a.options 1 a.scanPubkey
    a.spendPubkey ([0, 0] ++ sum) h.scan h.spend
  have hzero : cString (encoded K a) = encoded K a :=
    Wallet.CBitcoinAddress.cString_encodeBase58 _
  refine ⟨unspaced_encodeBase58 _, Wallet.CBitcoinAddress.cString_eq_self_iff.mp hzero,
    appendChecksum K a.raw, decodeBase58_encodeBase58 _, ?_, ?_, ?_, ?_, ?_⟩
  · rw [length_appendChecksum, h.length_raw]
  · rw [hlayout]
    exact (congrArg checkColor h.colorByte).trans h.color
  · rw [hlayout, hn]
  · rw [hlayout, List.getD_eq_getElem?_getD, ← List.head?_drop, htail]
    rfl
  · rw [hlayout, List.getD_eq_getElem?_getD, ← List.head?_drop,
      ← List.drop_drop (i := 1) (j := 70), htail]
    rfl

/-- What is read from a text that is spelled so is written as that text. -/
theorem Spelled.encoded_setEncoded (hs : Spelled s) (h : (setEncoded K a s).1 = true) :
    (setEncoded K a s).2.WellFormed ∧ encoded K (setEncoded K a s).2 = s := by
  obtain ⟨hspace, hzero, raw, hdecode, hlength, hcolor, hn, hsigs, hreserved⟩ := hs
  obtain ⟨raw', hdecode', hsum, -, hversion, heq⟩ := setEncoded_eq_true h
  rw [Wallet.CBitcoinAddress.cString_eq_self_iff.mpr hzero, hdecode, Option.some.injEq] at hdecode'
  subst hdecode'
  rw [heq]
  have hwell : (ofRaw raw).WellFormed := by
    refine ⟨hcolor, ?_, ?_⟩
    · simp [ofRaw, hlength]
    · simp [ofRaw, hlength]
  have hbyte : UInt8.ofNat (ofRaw raw).nColor.toInt.toNat = raw.getD 0 0 := by
    have hlt := (raw.getD 0 0).toNat_lt
    rw [ofRaw, Int32.toInt_ofNat_of_lt (by omega), Int.toNat_natCast, UInt8.ofNat_toNat]
  have htail : raw.drop 70 = [0, 0] ++ raw.drop 72 := by
    rw [List.getD_eq_getElem _ _ (by omega)] at hsigs hreserved
    rw [List.drop_eq_getElem_cons (by omega), List.drop_eq_getElem_cons (by omega), hsigs,
      hreserved]
    rfl
  have hparts : raw = (ofRaw raw).raw ++ raw.drop 72 := by
    rw [hwell.raw_eq, layout_append, hbyte, ← htail]
    conv_lhs => rw [@eq_layout raw (by omega) hversion, hn]
    rfl
  have hbody : raw.take (raw.length - 4) = (ofRaw raw).raw := by
    rw [hlength]
    conv_lhs => rw [hparts]
    exact List.take_left' hwell.length_raw
  refine ⟨hwell, ?_⟩
  rw [encoded, ← hbody, appendChecksum_of_verifyChecksum hsum (by rw [hlength]; decide)]
  exact encodeBase58_of_decodeBase58 hspace hdecode

/-- **Stealth addresses and their texts.**  A stealth address with a valid colour and keys of 33
bytes is read back from its text.  A text that is accepted has a valid colour and is the text of
what is read from it exactly when it is spelled so. -/
theorem setEncoded_iff (K : Crypto) :
    (∀ a b : CStealthAddress, a.WellFormed → setEncoded K b (encoded K a) = (true, a)) ∧
    ∀ (a : CStealthAddress) (s : List Char), (setEncoded K a s).1 = true →
      ((checkColor (setEncoded K a s).2.nColor = true ∧ encoded K (setEncoded K a s).2 = s) ↔
        Spelled s) := by
  refine ⟨fun a b h => h.setEncoded_encoded b, fun a s h => ⟨?_, fun hs => ?_⟩⟩
  · rintro ⟨hcolor, hback⟩
    obtain ⟨raw, -, -, hlength, -, heq⟩ := setEncoded_eq_true h
    have hwell : (setEncoded K a s).2.WellFormed := by
      refine ⟨hcolor, ?_, ?_⟩
      · rw [heq]
        simp only [ofRaw, List.length_take, List.length_drop]
        omega
      · rw [heq]
        simp only [ofRaw, List.length_take, List.length_drop]
        omega
    exact hback ▸ hwell.spelled
  · obtain ⟨hwell, hback⟩ := hs.encoded_setEncoded h
    exact ⟨hwell.color, hback⟩

/-- The bytes of a stealth address in a colour that there is not. -/
def colorless : Valtype :=
  layout 200 0 (2 :: List.replicate 32 1) 1 (2 :: List.replicate 32 1) [0, 0]

/-- **A colour out of the tables**: the text is accepted, and the colour that a sender looks its fee
up by is past their end. -/
theorem colorless_is_read :
    (setEncoded (Crypto.sample []) ⟨0, [], [], 0⟩
      (encodeBase58 (appendChecksum (Crypto.sample []) colorless))).1 = true ∧
    (setEncoded (Crypto.sample []) ⟨0, [], [], 0⟩
      (encodeBase58 (appendChecksum (Crypto.sample []) colorless))).2.nColor = 200 ∧
    ¬ (200 : Int32).toInt < nColors := by
  decide +kernel

end CStealthAddress

end Breakout
