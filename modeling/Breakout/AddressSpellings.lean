/-
# Which texts an address is read from

An address has one text, and that text is read back as the address.  `SetString` takes others too.
It asks for at least a version byte, a byte for the colour and twenty bytes of hash, where its
comment says that an address is these and no more; the bytes after them are summed with the others
and then dropped.  And it takes a string as far as its first zero byte.

`toText_setString_iff` says that these are the only other texts: one that is accepted, that is valid
and that has no spaces around it is the text of its address exactly when it stands for twenty-two
bytes and has no zero byte in it.
-/
import Breakout.Addresses
import Breakout.AddressBytes

namespace Breakout

open Lib

/-! ## 1. A text is the text of what it stands for -/

/-- There are no spaces around it. -/
def Unspaced (s : List Char) : Prop :=
  s.head?.any isSpace = false ∧ s.getLast?.any isSpace = false

instance (s : List Char) : Decidable (Unspaced s) := inferInstanceAs (Decidable (_ ∧ _))

theorem Unspaced.dropWhile {s : List Char} (h : Unspaced s) : s.dropWhile isSpace = s := by
  cases s with
  | nil => rfl
  | cons c cs =>
    have hc : ¬ isSpace c = true := Bool.not_eq_true _ ▸ h.1
    exact List.dropWhile_cons_of_neg hc

theorem idxOf?_eq_some {c : Char} {d : Nat} (h : pszBase58.idxOf? c = some d) :
    d < 58 ∧ pszBase58.getD d '1' = c := by
  rw [List.idxOf?, List.findIdx?_eq_some_iff_getElem] at h
  obtain ⟨hd, hc, -⟩ := h
  exact ⟨hd, by rw [List.getD_eq_getElem _ _ hd, beq_iff_eq.mp hc]⟩

variable {ds : List Nat}

/-- Digits are read up to the spaces at the end; where there are none, they are all there is. -/
theorem readBase58_eq_some {s : List Char} (hlast : s.getLast?.any isSpace = false)
    (h : readBase58 s = some ds) :
    s = ds.map (pszBase58.getD · '1') ∧ ∀ d ∈ ds, d < 58 := by
  induction s generalizing ds with
  | nil =>
    rw [readBase58, Option.some.injEq] at h
    subst h
    exact ⟨rfl, by simp⟩
  | cons c cs ih =>
    rw [readBase58] at h
    cases hc : pszBase58.idxOf? c with
    | none =>
      simp only [hc, List.isEmpty_iff, List.dropWhile_eq_nil_iff] at h
      split at h
      · next hspaces =>
        obtain ⟨l, hl⟩ := Option.ne_none_iff_exists'.mp
          (mt List.getLast?_eq_none_iff.mp (List.cons_ne_nil c cs))
        rw [hl, Option.any_some, hspaces l (List.mem_of_getLast? hl)] at hlast
        cases hlast
      · cases h
    | some d =>
      simp only [hc, Option.map_eq_some_iff] at h
      obtain ⟨ds', hds', rfl⟩ := h
      have hcs : cs.getLast?.any isSpace = false := by
        cases cs with
        | nil => rfl
        | cons c' cs' => rwa [List.getLast?_cons_cons] at hlast
      obtain ⟨hd, hchar⟩ := idxOf?_eq_some hc
      obtain ⟨hmap, hlt⟩ := ih hcs hds'
      refine ⟨by rw [List.map_cons, hchar, ← hmap], ?_⟩
      exact List.forall_mem_cons.mpr ⟨hd, hlt⟩

theorem map_toNat_map_ofNat (hds : ∀ d ∈ ds, d < 256) :
    (ds.map UInt8.ofNat).map UInt8.toNat = ds := by
  rw [List.map_map]
  refine (List.map_congr_left fun d hd => ?_).trans (List.map_id ds)
  exact UInt8.toNat_ofNat_of_lt' (hds d hd)

/-- **What is decoded is encoded.** -/
theorem encodeBase58_of_decodeBase58 {s : List Char} {vch : Valtype} (hs : Unspaced s)
    (h : decodeBase58 s = some vch) : encodeBase58 vch = s := by
  rw [decodeBase58, hs.dropWhile, Option.map_eq_some_iff] at h
  obtain ⟨ds, hds, rfl⟩ := h
  obtain ⟨hmap, hlt⟩ := readBase58_eq_some hs.2 hds
  rw [encodeBase58, map_toNat_map_ofNat (reradix_lt (by decide)), reradix_reradix (by decide) hlt,
    ← hmap]

variable {K : Crypto}

theorem encodeBase58Check_of_decodeBase58Check {s : List Char} (hs : Unspaced s)
    (h : decodeBase58Check K s ≠ []) : encodeBase58Check K (decodeBase58Check K s) = s := by
  unfold decodeBase58Check at h ⊢
  cases hdecode : decodeBase58 s with
  | none => simp [hdecode] at h
  | some vch =>
    simp only [hdecode] at h ⊢
    split_ifs at h ⊢ with hshort hsum
    · exact absurd rfl h
    · exact absurd rfl h
    · rw [encodeBase58Check, not_not.mp hsum, List.take_append_drop]
      exact encodeBase58_of_decodeBase58 hs hdecode

theorem encodeBase58Check_injective : Function.Injective (encodeBase58Check K) :=
  Function.LeftInverse.injective decodeBase58Check_encodeBase58Check

/-! ## 2. `SetString` -/

namespace Wallet

namespace CBitcoinAddress

/-- `SetString` of a string: what it returns, and the address.  The colour stays what it was where
the string is not accepted. -/
def setString (K : Crypto) (a : CBitcoinAddress) (strAddress : List Char) :
    Bool × CBitcoinAddress :=
  match decodeBase58Check K (cString strAddress) with
  | nVersion :: vColorByte :: vchData =>
    if vchData.length < 20 then (false, { a with nVersion := 0, vchData := [] })
    else
      match (colorIDs nVersion).bind (·.idxOf? vColorByte) with
      | none => (false, { a with nVersion := 0, vchData := [] })
      | some nColor => (true, ⟨nVersion, vchData.take 20, Int32.ofNat nColor⟩)
  | _ => (false, { a with nVersion := 0, vchData := [] })

variable {a : CBitcoinAddress} {s : List Char}

/-- The bytes that an accepted string stands for. -/
theorem setString_eq_true (h : (setString K a s).1 = true) :
    ∃ nVersion vColorByte vchData nColor,
      decodeBase58Check K (cString s) = nVersion :: vColorByte :: vchData ∧ 20 ≤ vchData.length ∧
      (colorIDs nVersion).bind (·.idxOf? vColorByte) = some nColor ∧
      (setString K a s).2 = ⟨nVersion, vchData.take 20, Int32.ofNat nColor⟩ := by
  unfold setString at *
  split at h
  · next nVersion vColorByte vchData hbytes =>
    split_ifs at h with hshort
    rw [if_neg hshort]
    split at h
    · cases h
    · next nColor hcolor =>
      exact ⟨nVersion, vColorByte, vchData, nColor, hbytes, not_lt.mp hshort, hcolor,
        rfl⟩
  · cases h

/-- What is read where the string is accepted. -/
theorem setString_of_accepts (h : (setString K a s).1 = true) :
    (setString K a s).2 = ofText K (cString s) := by
  obtain ⟨nVersion, vColorByte, vchData, nColor, hbytes, hlong, hcolor, heq⟩ := setString_eq_true h
  rw [heq, ofText, hbytes]
  dsimp only
  rw [if_neg (not_lt.mpr hlong), hcolor]

/-- What has a destination was accepted. -/
theorem setString_of_get {fTestNet : Bool}
    (h : (ofText K (cString s)).get fTestNet ≠ .noDestination) :
    (setString K a s).1 = true := by
  have hcleared : cleared.get fTestNet = .noDestination := rfl
  unfold setString
  unfold ofText at h
  split
  · next hbytes =>
    simp only [hbytes] at h
    split_ifs at h ⊢ with hshort
    · exact absurd hcleared h
    · split
      · next hcolor =>
        simp only [hcolor] at h
        exact absurd hcleared h
      · rfl
  · next hbytes =>
    split at h
    · next heq => exact absurd heq (hbytes _ _ _)
    · exact absurd hcleared h

/-! ## 3. Its spellings -/

theorem length_of_colorIDs {nVersion : UInt8} {ids : List UInt8}
    (h : colorIDs nVersion = some ids) : ids.length = nColors := by
  unfold colorIDs at h
  split_ifs at h
  all_goals
    cases h
    rfl

/-- A colour that was found is written as the byte it was found by. -/
theorem getVecColorID_of_idxOf? {nVersion vColorByte : UInt8} {nColor : Nat}
    (h : (colorIDs nVersion).bind (·.idxOf? vColorByte) = some nColor)
    (hcolor : 1 ≤ (Int32.ofNat nColor).toInt) :
    getVecColorID nVersion (Int32.ofNat nColor) = some vColorByte := by
  obtain ⟨ids, hids, hindex⟩ := Option.bind_eq_some_iff.mp h
  rw [List.idxOf?, List.findIdx?_eq_some_iff_getElem] at hindex
  obtain ⟨hlt, hbyte, -⟩ := hindex
  have hlt' : nColor < 58 := by rwa [length_of_colorIDs hids] at hlt
  have htoInt : (Int32.ofNat nColor).toInt = nColor := Int32.toInt_ofNat_of_lt (by omega)
  have hvalid : checkColor (Int32.ofNat nColor) = true := by
    rw [checkColor, decide_eq_true_eq, htoInt]
    exact ⟨htoInt ▸ hcolor, Int.ofNat_lt.mpr hlt'⟩
  rw [getVecColorID, if_neg (by simp [hvalid]), hids, Option.bind_some, htoInt, Int.toNat_natCast,
    List.getElem?_eq_getElem hlt, beq_iff_eq.mp hbyte]

variable {fTestNet : Bool}

theorem one_le_of_isValid (h : a.isValid fTestNet = true) :
    1 ≤ a.nColor.toInt := by
  unfold isValid at h
  split_ifs at h with hcolor
  all_goals omega

/-- The text of an address that was read has twenty bytes of what was read. -/
theorem toText_setString (h : (setString K a s).1 = true)
    (hvalid : (setString K a s).2.isValid fTestNet = true) :
    ∃ nVersion vColorByte vchData,
      decodeBase58Check K (cString s) = nVersion :: vColorByte :: vchData ∧ 20 ≤ vchData.length ∧
      (setString K a s).2.toText K =
        encodeBase58Check K (nVersion :: vColorByte :: vchData.take 20) := by
  obtain ⟨nVersion, vColorByte, vchData, nColor, hbytes, hlong, hcolor, heq⟩ := setString_eq_true h
  have hone : 1 ≤ (setString K a s).2.nColor.toInt := one_le_of_isValid hvalid
  rw [heq] at hone
  refine ⟨nVersion, vColorByte, vchData, hbytes, hlong, ?_⟩
  rw [heq, toText]
  dsimp only
  rw [getVecColorID_of_idxOf? hcolor hone]

/-- There is no zero byte in what is encoded. -/
theorem cString_encodeBase58 (vch : Valtype) : cString (encodeBase58 vch) = encodeBase58 vch := by
  have hdigits : ∀ d ∈ reradix 256 58 (vch.map UInt8.toNat), d < 58 := reradix_lt (by decide)
  have hchars : ∀ d < 58, pszBase58.getD d '1' ≠ Char.ofNat 0 := by decide
  rw [cString, List.takeWhile_eq_self_iff, encodeBase58]
  intro c hc
  obtain ⟨d, hd, rfl⟩ := List.mem_map.mp hc
  exact decide_eq_true (hchars d (hdigits d hd))

theorem cString_toText (a : CBitcoinAddress) : cString (a.toText K) = a.toText K := by
  unfold toText
  split
  · decide
  · exact cString_encodeBase58 _

theorem cString_eq_self_iff : cString s = s ↔ Char.ofNat 0 ∉ s := by
  rw [cString, List.takeWhile_eq_self_iff]
  constructor
  · intro h hmem
    exact of_decide_eq_true (h _ hmem) rfl
  · intro h c hc
    exact decide_eq_true fun heq => h (heq ▸ hc)

/-- **The other texts of an address**: they stand for more bytes, or have a zero byte. -/
theorem toText_setString_iff (hs : Unspaced s) (h : (setString K a s).1 = true)
    (hvalid : (setString K a s).2.isValid fTestNet = true) :
    (setString K a s).2.toText K = s ↔
      Char.ofNat 0 ∉ s ∧ (decodeBase58Check K s).length = 22 := by
  obtain ⟨nVersion, vColorByte, vchData, hbytes, hlong, htext⟩ := toText_setString h hvalid
  rw [← cString_eq_self_iff, htext]
  by_cases hzero : cString s = s
  · rw [hzero] at hbytes
    have hback : encodeBase58Check K (nVersion :: vColorByte :: vchData) = s := by
      rw [← hbytes]
      exact encodeBase58Check_of_decodeBase58Check hs (by simp [hbytes])
    rw [← hback, encodeBase58Check_injective.eq_iff, hback, hbytes]
    simp only [hzero, true_and, List.cons.injEq, List.take_eq_self_iff, List.length_cons]
    omega
  · refine iff_of_false (fun heq => hzero ?_) fun hand => hzero hand.1
    rw [← heq]
    exact cString_encodeBase58 _

theorem leBytes_id {vchData : Valtype} (h : vchData.length = 20) :
    leBytes 20 (BitVec.ofNat 160 (leNat vchData)).toNat = vchData := by
  have hlt : leNat vchData < 2 ^ 160 := by simpa [h] using leNat_lt vchData
  rw [BitVec.toNat_ofNat, Nat.mod_eq_of_lt hlt, ← h, leBytes_leNat]

/-- A valid address is the address of its destination. -/
theorem ofDestination_get (h : a.isValid fTestNet = true) :
    ofDestination fTestNet (a.get fTestNet) a.nColor = a := by
  obtain ⟨nVersion, vchData, nColor⟩ := a
  have hget := h
  unfold isValid at h
  dsimp only at h
  unfold get
  rw [if_neg (by simp [hget])]
  split_ifs at h with hcolor hmain htest
  · rw [Bool.and_eq_true, Bool.not_eq_true', beq_iff_eq] at h
    obtain ⟨rfl, hlength⟩ := h
    rcases hmain with rfl | rfl
    · exact congrArg (CBitcoinAddress.mk 19 · nColor) (leBytes_id hlength)
    · exact congrArg (CBitcoinAddress.mk 1 · nColor) (leBytes_id hlength)
  · rw [Bool.and_eq_true, beq_iff_eq] at h
    obtain ⟨rfl, hlength⟩ := h
    rcases htest with rfl | rfl
    · exact congrArg (CBitcoinAddress.mk 6 · nColor) (leBytes_id hlength)
    · exact congrArg (CBitcoinAddress.mk 4 · nColor) (leBytes_id hlength)

/-- **The text of an address is accepted**, and read as the address. -/
theorem setString_addressText {fTestNet : Bool} {address : CTxDestination} {nColor : Int32}
    (h : (address.recolor nColor).Encodes) :
    (setString K a (addressText K fTestNet address nColor)).1 = true ∧
      (setString K a (addressText K fTestNet address nColor)).2.get fTestNet =
        address.recolor nColor := by
  have hzero : cString (addressText K fTestNet address nColor) =
      addressText K fTestNet address nColor := cString_toText _
  have hget : textAddress K fTestNet (addressText K fTestNet address nColor) =
      address.recolor nColor := textAddress_addressText h
  rw [textAddress, ← hzero] at hget
  have haccepts : (setString K a (addressText K fTestNet address nColor)).1 = true := by
    refine @setString_of_get _ _ _ fTestNet fun hnone => ?_
    rw [hget] at hnone
    rw [hnone] at h
    exact h
  exact ⟨haccepts, by rw [setString_of_accepts haccepts, hget]⟩

/-- **Addresses and their texts.**  What a text was made of is read back from it.  A text that is
accepted and valid, with no spaces around it, is the text of the destination and the colour that are
read from it exactly when it stands for twenty-two bytes and has no zero byte. -/
theorem spelling_of_address (K : Crypto) (fTestNet : Bool) :
    (∀ (a : CBitcoinAddress) (address : CTxDestination) (nColor : Int32),
      (address.recolor nColor).Encodes →
        (setString K a (addressText K fTestNet address nColor)).1 = true ∧
        (setString K a (addressText K fTestNet address nColor)).2.get fTestNet =
          address.recolor nColor) ∧
    ∀ (a : CBitcoinAddress) (s : List Char), Unspaced s → (setString K a s).1 = true →
      (setString K a s).2.isValid fTestNet = true →
        addressText K fTestNet ((setString K a s).2.get fTestNet) (setString K a s).2.nColor =
          (setString K a s).2.toText K ∧
        ((setString K a s).2.toText K = s ↔
          Char.ofNat 0 ∉ s ∧ (decodeBase58Check K s).length = 22) := by
  refine ⟨fun a address nColor h => setString_addressText h, fun a s hs h hvalid => ⟨?_, ?_⟩⟩
  · rw [addressText, ofDestination_get hvalid]
  · exact toText_setString_iff hs h hvalid

/-- A byte more than the address of a key that is zero. -/
def longer : List Char := encodeBase58Check (Crypto.sample []) (19 :: 174 :: List.replicate 21 0)

/-- **A second text of an address**: it is accepted and valid, and is read as an address whose text
is another. -/
theorem longer_is_read :
    longer = "3fGaYuNwFCEqz33eargnB4SQKFWx8M51kyZPM".toList ∧ Unspaced longer ∧
      (setString (Crypto.sample []) cleared longer).1 = true ∧
      (setString (Crypto.sample []) cleared longer).2.isValid false = true ∧
      (setString (Crypto.sample []) cleared longer).2.get false = .keyID 0 1 ∧
      (setString (Crypto.sample []) cleared longer).2.toText (Crypto.sample []) =
        "bxBmqa4gU1sX9AfRSJd4e2gGTrP1JhNz4co".toList := by
  decide +kernel

end CBitcoinAddress

end Wallet

end Breakout
