/-
# Decrypting secure messages

A message is sealed with a key that the sender and the recipient agree on: the hash of a point on
the curve, of which one half encrypts the payload and the other authenticates it.
`SecureMsgDecrypt` finds the point again from its own key and the one in the header, compares the
authentication code, and decrypts.

Whoever sends a message chooses the payload, and a payload with a right code can have any size and
claim any length for its text.  The code takes the inner header for granted, copies a short text
without asking whether it is there, and adds one to a length of 32 bits.
`inBounds_decryptMessage_iff` says which payloads are read and written inside.
-/
import Breakout.AddressSpellings
import Breakout.SecMsgKeys

namespace Breakout

open Lib

namespace SecMsg

open Wallet (CBitcoinAddress)

/-! ## 1. The header -/

/-- An array of a message's header. -/
abbrev Bytes (n : Nat) := { l : Valtype // l.length = n }

/-- `SecureMessage`, field by field; its size is that of its payload. -/
structure SmsgRecord where
  hash : Bytes 4
  version : Bytes 2
  flags : UInt8
  timestamp : Int64
  iv : Bytes 16
  cpkR : Bytes 33
  mac : Bytes 32
  nonse : Bytes 4
  pPayload : Valtype

namespace SmsgRecord

def nPayload (smsg : SmsgRecord) : UInt32 := UInt32.ofNat smsg.pPayload.length

/-- The header as it stands in memory, `&smsg.hash[0]`. -/
def header (smsg : SmsgRecord) : Valtype :=
  smsg.hash.val ++ (smsg.version.val ++ (smsg.flags :: (timeBytes smsg.timestamp ++ (smsg.iv.val ++
    (smsg.cpkR.val ++ (smsg.mac.val ++ (smsg.nonse.val ++ leBytes 4 smsg.nPayload.toNat)))))))

end SmsgRecord

/-- So many bytes of an array from `pos` on. -/
def bytesAt (l : Valtype) (pos n : Nat) : Bytes n :=
  ⟨(l.drop pos ++ List.replicate n 0).take n, by simp⟩

/-- `(SecureMessage*) pHeader` -/
def SmsgRecord.ofHeader (pHeader pPayload : Valtype) : SmsgRecord where
  hash := bytesAt pHeader 0 4
  version := bytesAt pHeader 4 2
  flags := pHeader.getD 6 0
  timestamp := Int64.ofNat (leNat (bytesAt pHeader 7 8).val)
  iv := bytesAt pHeader 15 16
  cpkR := bytesAt pHeader 31 33
  mac := bytesAt pHeader 64 32
  nonse := bytesAt pHeader 96 4
  pPayload := pPayload

/-! ## 2. The libraries -/

/-- What the libraries compute.  `SetPubKey`, `GetPubKey`, the recovery of a key from a compact
signature and LZ4's decompression are in `KeyLib`.  `pubKeyOf` is the public key of a private key,
and `signCompact` its signature; the cipher gives what `EVP_…Update` and `EVP_…Final_ex` write, and
nothing where one of them fails. -/
structure CipherLib where
  pubKeyOf : Valtype → Valtype
  ecdhComputeKey : Valtype → Valtype → Option (Bytes 32)
  sha512 : Valtype → Bytes 64
  aesEncrypt : Valtype → Valtype → Valtype → Option (Valtype × Valtype)
  aesDecrypt : Valtype → Valtype → Valtype → Option (Valtype × Valtype)
  lz4Compress : Valtype → Option Valtype
  signCompact : Valtype → UInt256 → Bytes 65

/-- What is documented of the calls that write or that may fail: what is decrypted is not longer
than what was encrypted, what is decompressed fits into the room it is given, and a failure is an
exception. -/
structure CipherLib.WithinBounds (L : CipherLib) (E : KeyLib) : Prop where
  aesDecrypt : ∀ key iv ciphertext update final,
    L.aesDecrypt key iv ciphertext = some (update, final) →
      update.length + final.length ≤ ciphertext.length
  lz4 : ∀ src dstCapacity out, E.lz4 src dstCapacity = some out → out.length ≤ dstCapacity
  getPubKey : ∀ vch, InBounds (E.getPubKey vch)
  recovered : ∀ hash vchSig, InBounds (E.recovered hash vchSig)

variable (K : Crypto) (C : SmsgCrypto) (E : KeyLib) (L : CipherLib)

/-! ## 3. `SecMsgCrypter` -/

/-- `SecMsgCrypter::Decrypt`: "plaintext will always be equal to or lesser than length of
ciphertext". -/
def CipherLib.decrypt (key_e iv chCiphertext : Valtype) : Run (Option Valtype) :=
  match L.aesDecrypt key_e iv chCiphertext with
  | none => .ok none
  | some (update, final) => do
    let vchPlaintext := List.replicate chCiphertext.length 0
    let vchPlaintext ← writeAt vchPlaintext 0 update
    let vchPlaintext ← writeAt vchPlaintext update.length final
    return some (vchPlaintext.take (update.length + final.length))

/-! ## 4. `SecureMsgDecrypt` -/

/-- The hash of the point that two keys agree on. -/
def agreedKey (vchPubKey vchPrivKey : Valtype) : Option (Bytes 64) :=
  (L.ecdhComputeKey vchPubKey vchPrivKey).map fun vchP => L.sha512 vchP.val

/-- The first 32 bytes of it. -/
def keyE (vchHashed : Bytes 64) : Valtype := vchHashed.val.take 32

/-- The last 32 bytes of it. -/
def keyM (vchHashed : Bytes 64) : Valtype := vchHashed.val.drop 32

/-- "Message authentication code, (hash of timestamp + destination + payload)", if there is no
error. -/
def messageMac (key_m : Valtype) (timestamp : Int64) (pPayload : Valtype) : Option (Bytes 32) :=
  match C.hmacSha256 key_m (timeBytes timestamp ++ pPayload) with
  | none => none
  | some mac => if h : mac.length = 32 then some ⟨mac, h⟩ else none

/-- `SecureMsgDecrypt` up to the comparison of the code: the key to decrypt with, or what is
returned.  `getKey` is the wallet's, by the id of a key. -/
def messageKey (getKey : UInt160 → Option Valtype) (address : List Char) (psmsg : SmsgRecord) :
    Run (Except Nat Valtype) :=
  if psmsg.version.val.head? ≠ some 1 then .ok (.error 2)
  else
    match CBitcoinAddress.setString K ⟨0, [], E.nColor⟩ address with
    | (false, _) => .ok (.error 3)
    | (true, coinAddrDest) =>
      match getKeyID E coinAddrDest with
      | none => .ok (.error 3)
      | some ckidDest =>
        match getKey ckidDest.id with
        | none => .ok (.error 3)
        | some keyDest =>
          if pubKeyIsValid psmsg.cpkR.val = false then .ok (.error 1)
          else if E.setPubKey psmsg.cpkR.val = false then .ok (.error 1)
          else E.getPubKey psmsg.cpkR.val >>= fun cpkR =>
            if pubKeyIsValid cpkR = false ∨ cpkR.length ≠ 33 then .ok (.error 1)
            else
              match agreedKey L cpkR keyDest with
              | none => .ok (.error 1)
              | some vchHashedDec =>
                match messageMac C (keyM vchHashedDec) psmsg.timestamp psmsg.pPayload with
                | none => .ok (.error 1)
                | some mac =>
                  if mac ≠ psmsg.mac then .ok (.error 1) else .ok (.ok (keyE vchHashedDec))

/-- `SecureMsgDecrypt`: what it returns, the message, and the directory. -/
def decryptMessage (getKey : UInt160 → Option Valtype) (fTestOnly : Bool) (address : List Char)
    (psmsg : SmsgRecord) (addrpkdb : KeyDirectory) :
    Run (Nat × Option MessageData × KeyDirectory) := do
  let key ← messageKey K C E L getKey address psmsg
  match key with
  | .error rv => return (rv, none, addrpkdb)
  | .ok key_e =>
    if fTestOnly then return (0, none, addrpkdb)
    else
      let plain ← L.decrypt key_e psmsg.iv.val psmsg.pPayload
      match plain with
      | none => return (1, none, addrpkdb)
      | some vchPayload =>
        let (msg, addrpkdb) ← readPayload K E psmsg.timestamp vchPayload addrpkdb
        match msg with
        | .error rv => return (rv, none, addrpkdb)
        | .ok msg => return (0, some msg, addrpkdb)

/-! ## 5. Which payloads are read and written inside -/

/-- There is the inner header that the first byte asks for, and, if the room for the text can be
had, the length that it claims is not the greatest of 32 bits, and a text that is not compressed is
there. -/
def PayloadFits (vchPayload : Valtype) : Prop :=
  let hdrLen := if vchPayload.head? = some 250 then 9 else smsgPlHdrLen
  let lenPlain := UInt32.ofNat (leNat ((vchPayload.drop (hdrLen - 4)).take 4))
  hdrLen ≤ vchPayload.length ∧ (E.resizes (lenPlain + 1) = true →
    lenPlain ≠ 0xFFFFFFFF ∧ (lenPlain ≤ 128 → hdrLen + lenPlain.toNat ≤ vchPayload.length))

/-- The payload that a sender has chosen: what a message with a right code decrypts to. -/
def chosenPayload (getKey : UInt160 → Option Valtype) (address : List Char) (psmsg : SmsgRecord) :
    Option Valtype :=
  match messageKey K C E L getKey address psmsg with
  | .ok (.ok key_e) =>
    (L.aesDecrypt key_e psmsg.iv.val psmsg.pPayload).map fun (update, final) => update ++ final
  | _ => none

variable {K C E L}

theorem toInt_toInt32 (n : UInt32) :
    n.toInt32.toInt = if n.toNat < 2 ^ 31 then (n.toNat : Int) else n.toNat - 2 ^ 32 := by
  change n.toBitVec.toInt = _
  rw [BitVec.toInt_eq_toNat_cond]
  change (if 2 * n.toNat < 2 ^ 32 then _ else _) = _
  split_ifs
  · rfl
  · omega
  · omega
  · rfl

theorem toInt32_lt_zero (n : UInt32) : n.toInt32 < 0 ↔ 2 ^ 31 ≤ n.toNat := by
  have hlt := n.toNat_lt
  rw [Int32.lt_iff_toInt_lt, toInt_toInt32, Int32.toInt_zero]
  split_ifs <;> omega

theorem toNatClampNeg_toInt32 {n : UInt32} (h : n.toNat < 2 ^ 31) :
    n.toInt32.toNatClampNeg = n.toNat := by
  rw [← Int32.toNat_toInt, toInt_toInt32, if_pos h]
  rfl

/-- What is left of a payload after its header, in 32 bits. -/
theorem lenData_le {hdrLen n : Nat} (h : hdrLen ≤ n) :
    (UInt32.ofNat n - UInt32.ofNat hdrLen).toNat ≤ n - hdrLen := by
  rw [← UInt32.ofNat_sub h, UInt32.toNat_ofNat']
  exact Nat.mod_le _ _

variable {src : Ptr} {dstCapacity nColor : Int32} {dst vchPayload : Valtype} {d : KeyDirectory}
  {getKey : UInt160 → Option Valtype} {psmsg : SmsgRecord}

/-- The decompression stays inside, whatever is claimed, if there is room for what it may write. -/
theorem inBounds_lz4DecompressSafe (hL : L.WithinBounds E) {srcSize : UInt32}
    (hsrc : src.Holds srcSize.toNat) (hdst : dstCapacity.toNatClampNeg ≤ dst.length) :
    InBounds (lz4DecompressSafe E src srcSize.toInt32 dstCapacity dst) := by
  unfold lz4DecompressSafe
  split_ifs with hcapacity hsize
  · exact inBounds_ok _
  · have hlong := (toInt32_lt_zero srcSize).mp hsize
    exact inBounds_bind.mpr ⟨Ptr.inBounds_read.mpr (hsrc.mono (by omega)), fun _ _ => inBounds_ok _⟩
  · have hshort : srcSize.toNat < 2 ^ 31 := not_le.mp fun h => hsize ((toInt32_lt_zero _).mpr h)
    rw [toNatClampNeg_toInt32 hshort]
    refine inBounds_bind.mpr ⟨Ptr.inBounds_read.mpr hsrc, fun bytes _ => ?_⟩
    cases hout : E.lz4 bytes dstCapacity.toNatClampNeg with
    | none => exact inBounds_pure _
    | some out =>
      have hfits := (hL.lz4 _ _ _ hout).trans hdst
      exact inBounds_bind.mpr ⟨inBounds_writeAt.mpr (by rwa [Nat.zero_add]),
        fun _ _ => inBounds_pure _⟩

/-- The output stays as long as it was. -/
theorem length_lz4DecompressSafe {srcSize rv : Int32} {dst' : Valtype}
    (h : lz4DecompressSafe E src srcSize dstCapacity dst = .ok (rv, dst')) :
    dst'.length = dst.length := by
  unfold lz4DecompressSafe at h
  split_ifs at h with hcapacity hsize
  · cases h
    rfl
  · obtain ⟨_, -, h⟩ := bind_eq_ok.mp h
    cases h
    rfl
  · obtain ⟨bytes, -, h⟩ := bind_eq_ok.mp h
    split at h
    · cases h
      rfl
    · obtain ⟨dst₁, hwrite, h⟩ := bind_eq_ok.mp h
      cases h
      exact length_writeAt hwrite

/-- **When the text is read and written inside.** -/
theorem inBounds_plainText_iff (hL : L.WithinBounds E) {hdrLen : Nat}
    (hhdr : hdrLen ≤ vchPayload.length) (lenPlain : UInt32) :
    InBounds (plainText E ⟨vchPayload, hdrLen⟩
        (UInt32.ofNat vchPayload.length - UInt32.ofNat hdrLen) lenPlain) ↔
      (E.resizes (lenPlain + 1) = true →
        lenPlain ≠ 0xFFFFFFFF ∧
          (lenPlain ≤ 128 → hdrLen + lenPlain.toNat ≤ vchPayload.length)) := by
  unfold plainText
  by_cases hresizes : E.resizes (lenPlain + 1) = false
  · rw [if_pos hresizes]
    exact iff_of_true (inBounds_ok _) fun h => absurd (hresizes.symm.trans h) Bool.false_ne_true
  rw [if_neg hresizes]
  have htrue : E.resizes (lenPlain + 1) = true := by simpa using hresizes
  have hlt := lenPlain.toNat_lt
  have hroom : lenPlain ≠ 0xFFFFFFFF → (lenPlain + 1).toNat = lenPlain.toNat + 1 := by
    intro hmax
    have hne : lenPlain.toNat ≠ 2 ^ 32 - 1 := fun h => hmax (UInt32.toNat_inj.mp h)
    rw [UInt32.toNat_add]
    exact Nat.mod_eq_of_lt (by change lenPlain.toNat + 1 < 2 ^ 32; omega)
  dsimp only
  by_cases hlong : lenPlain > 128
  · rw [if_pos hlong]
    have hnot : ¬ lenPlain ≤ 128 := UInt32.not_le.mpr hlong
    have hread : (⟨vchPayload, hdrLen⟩ : Ptr).Holds
        (UInt32.ofNat vchPayload.length - UInt32.ofNat hdrLen).toNat := by
      have hle := lenData_le hhdr
      change hdrLen + _ ≤ vchPayload.length
      omega
    have hcapacity : lenPlain.toInt32.toNatClampNeg ≤
        (List.replicate (lenPlain + 1).toNat (0 : UInt8)).length := by
      rw [List.length_replicate]
      by_cases hneg : lenPlain.toNat < 2 ^ 31
      · rw [toNatClampNeg_toInt32 hneg, hroom]
        · omega
        · rintro rfl
          exact absurd hneg (by decide)
      · rw [← Int32.toNat_toInt, toInt_toInt32, if_neg hneg]
        omega
    have hlz4 := inBounds_lz4DecompressSafe hL hread hcapacity
    constructor
    · rintro h -
      refine ⟨?_, fun hle => absurd hle hnot⟩
      rintro rfl
      -- the decompression fails with -1, which is the claimed length
      have hrun : lz4DecompressSafe E ⟨vchPayload, hdrLen⟩
          (UInt32.ofNat vchPayload.length - UInt32.ofNat hdrLen).toInt32
          (0xFFFFFFFF : UInt32).toInt32 (List.replicate ((0xFFFFFFFF : UInt32) + 1).toNat 0) =
            .ok (-1, []) := rfl
      rw [hrun, ok_bind] at h
      exact absurd h (by
        rw [if_neg (by decide)]
        exact fun hin => absurd (inBounds_writeAt.mp (inBounds_bind.mp hin).1) (by decide))
    · intro h
      obtain ⟨hmax, -⟩ := h htrue
      refine inBounds_bind.mpr ⟨hlz4, ?_⟩
      rintro ⟨rv, dst⟩ hrun
      have hlength := length_lz4DecompressSafe hrun
      dsimp only
      split_ifs
      · exact inBounds_pure _
      · refine inBounds_bind.mpr ⟨inBounds_writeAt.mpr ?_, fun _ _ => inBounds_pure _⟩
        rw [hlength, List.length_replicate, hroom hmax]
        rfl
  · rw [if_neg hlong]
    have hle : lenPlain ≤ 128 := UInt32.not_lt.mp hlong
    have hmax : lenPlain ≠ 0xFFFFFFFF := by
      rintro rfl
      exact absurd hle (by decide)
    rw [inBounds_bind, Ptr.inBounds_read]
    constructor
    · rintro ⟨hholds, -⟩ -
      exact ⟨hmax, fun _ => hholds⟩
    · intro h
      have hholds : (⟨vchPayload, hdrLen⟩ : Ptr).Holds lenPlain.toNat := (h htrue).2 hle
      refine ⟨hholds, fun bytes hbytes => ?_⟩
      obtain ⟨-, rfl⟩ := Ptr.read_eq_ok.mp hbytes
      have hlength := Ptr.length_slice hholds
      refine inBounds_bind.mpr ⟨inBounds_writeAt.mpr ?_, fun vchMessage hwrite => ?_⟩
      · rw [hlength, List.length_replicate, hroom hmax]
        omega
      · refine inBounds_bind.mpr ⟨inBounds_writeAt.mpr ?_, fun _ _ => inBounds_pure _⟩
        rw [length_writeAt hwrite, List.length_replicate, hroom hmax]
        rfl

/-- The sender is read from the header. -/
theorem inBounds_senderKey (hL : L.WithinBounds E) {vchMessage : Valtype}
    (h : smsgPlHdrLen ≤ vchPayload.length) :
    InBounds (senderKey K E vchPayload vchMessage d) := by
  have h90 : 90 ≤ vchPayload.length := h
  unfold senderKey
  refine inBounds_bind.mpr ⟨Ptr.inBounds_read.mpr (holds_start.mpr (by omega)), fun _ _ => ?_⟩
  dsimp only
  split_ifs
  · exact inBounds_pure _
  · refine inBounds_bind.mpr ⟨Ptr.inBounds_read.mpr (holds_start.mpr (by omega)), fun _ _ =>
      inBounds_bind.mpr ⟨hL.recovered _ _, fun _ _ => ?_⟩⟩
    split_ifs <;> exact inBounds_pure _

/-- **When a payload is read and written inside.** -/
theorem inBounds_readPayload_iff (hL : L.WithinBounds E) {timestamp : Int64} :
    InBounds (readPayload K E timestamp vchPayload d) ↔ PayloadFits E vchPayload := by
  cases vchPayload with
  | nil =>
    refine iff_of_false (fun h => ?_) fun h => ?_
    · exact absurd (Ptr.inBounds_read.mp (inBounds_bind.mp h).1) (by decide)
    · exact absurd h.1 (by decide)
  | cons b rest =>
    have hread : (⟨b :: rest, 0⟩ : Ptr).read 1 = .ok [b] :=
      Ptr.read_of_holds (holds_start.mpr (by rw [List.length_cons]; omega))
    have hfirst : decide ([b] = [(250 : UInt8)]) = decide ((b :: rest).head? = some 250) := by simp
    unfold readPayload PayloadFits
    dsimp only
    rw [hread, ok_bind, hfirst]
    simp only [decide_eq_true_eq]
    generalize hhdr : (if (b :: rest).head? = some 250 then 9 else smsgPlHdrLen) = hdrLen
    have hshort : 4 ≤ hdrLen ∧ ((b :: rest).head? ≠ some 250 → smsgPlHdrLen = hdrLen) := by
      split_ifs at hhdr with h
      · exact ⟨by omega, fun hne => absurd h hne⟩
      · exact ⟨hhdr ▸ by decide, fun _ => hhdr⟩
    generalize b :: rest = vchPayload at *
    have hholds : ((⟨vchPayload, 0⟩ : Ptr).add (hdrLen - 4)).Holds 4 ↔
        hdrLen ≤ vchPayload.length := by
      rw [Ptr.holds_add, holds_start]
      omega
    rw [inBounds_bind, inBounds_readUInt32, hholds]
    refine and_congr_right fun hlength => ?_
    have hlenPlain : readUInt32 ((⟨vchPayload, 0⟩ : Ptr).add (hdrLen - 4)) =
        .ok (UInt32.ofNat (leNat ((vchPayload.drop (hdrLen - 4)).take 4))) := by
      rw [readUInt32, Ptr.read_of_holds (hholds.mpr hlength), Ptr.slice, Ptr.add, Nat.zero_add]
      rfl
    rw [hlenPlain]
    have hadd : (⟨vchPayload, 0⟩ : Ptr).add hdrLen = ⟨vchPayload, hdrLen⟩ := by
      rw [Ptr.add, Nat.zero_add]
    rw [hadd, ← inBounds_plainText_iff hL hlength]
    constructor
    · intro h
      exact (inBounds_bind.mp (h _ rfl)).1
    · rintro h _ ⟨⟩
      refine inBounds_bind.mpr ⟨h, fun plain _ => ?_⟩
      cases plain with
      | error rv => exact inBounds_pure _
      | ok vchMessage =>
        dsimp only
        split_ifs with hanon
        · exact inBounds_pure _
        · refine inBounds_bind.mpr ⟨inBounds_senderKey hL ?_, fun r _ => ?_⟩
          · exact (hshort.2 hanon).trans_le hlength
          · obtain ⟨from_, d'⟩ := r
            cases from_ <;> exact inBounds_pure _

/-- What `SecMsgCrypter::Decrypt` gives. -/
theorem decrypt_eq (hL : L.WithinBounds E) (key_e iv chCiphertext : Valtype) :
    L.decrypt key_e iv chCiphertext =
      .ok ((L.aesDecrypt key_e iv chCiphertext).map fun (update, final) => update ++ final) := by
  unfold CipherLib.decrypt
  cases hdecrypt : L.aesDecrypt key_e iv chCiphertext with
  | none => rfl
  | some r =>
    obtain ⟨update, final⟩ := r
    have hle := hL.aesDecrypt _ _ _ _ _ hdecrypt
    have hupdate : writeAt (List.replicate chCiphertext.length 0) 0 update =
        .ok (update ++ List.replicate (chCiphertext.length - update.length) 0) :=
      writeAt_eq_ok.mpr ⟨by rw [List.length_replicate]; omega, by simp⟩
    have hfinal : writeAt (update ++ List.replicate (chCiphertext.length - update.length) 0)
        update.length final = .ok ((update ++ final) ++
          List.replicate (chCiphertext.length - update.length - final.length) 0) :=
      writeAt_eq_ok.mpr ⟨by rw [List.length_append, List.length_replicate]; omega, by simp⟩
    dsimp only
    rw [hupdate, ok_bind, hfinal, ok_bind, List.take_left' List.length_append]
    rfl

theorem inBounds_messageKey (hL : L.WithinBounds E) {address : List Char} :
    InBounds (messageKey K C E L getKey address psmsg) := by
  unfold messageKey
  split
  · exact inBounds_ok _
  split
  · exact inBounds_ok _
  split
  · exact inBounds_ok _
  split
  · exact inBounds_ok _
  split
  · exact inBounds_ok _
  split
  · exact inBounds_ok _
  refine inBounds_bind.mpr ⟨hL.getPubKey _, fun cpkR _ => ?_⟩
  split
  · exact inBounds_ok _
  split
  · exact inBounds_ok _
  split
  · exact inBounds_ok _
  split <;> exact inBounds_ok _

/-- The address of a key is read as it was written. -/
theorem setString_keyID (id : UInt160) (hcolor : checkColor nColor = true) :
    ∃ a, CBitcoinAddress.setString K ⟨0, [], E.nColor⟩
        (Wallet.addressText K E.fTestNet (.keyID id nColor) nColor) = (true, a) ∧
      getKeyID E a = some ⟨id, nColor⟩ := by
  have hencodes : ((.keyID id nColor : Wallet.CTxDestination).recolor nColor).Encodes := hcolor
  obtain ⟨haccepts, hdest⟩ := @CBitcoinAddress.setString_addressText K ⟨0, [], E.nColor⟩ E.fTestNet
    (.keyID id nColor) nColor hencodes
  refine ⟨_, Prod.ext haccepts rfl, ?_⟩
  rw [getKeyID, hdest]
  rfl

/-- The key that a message is decrypted with by whom it is for. -/
theorem messageKey_eq {id : UInt160} {keyDest : Valtype} {vchHashed : Bytes 64}
    (hversion : psmsg.version.val.head? = some 1) (hcolor : checkColor nColor = true)
    (hkey : getKey id = some keyDest) (hvalid : pubKeyIsValid psmsg.cpkR.val = true)
    (hset : E.setPubKey psmsg.cpkR.val = true)
    (hget : E.getPubKey psmsg.cpkR.val = .ok psmsg.cpkR.val)
    (hagreed : agreedKey L psmsg.cpkR.val keyDest = some vchHashed)
    (hmac : messageMac C (keyM vchHashed) psmsg.timestamp psmsg.pPayload = some psmsg.mac) :
    messageKey K C E L getKey (Wallet.addressText K E.fTestNet (.keyID id nColor) nColor) psmsg =
      .ok (.ok (keyE vchHashed)) := by
  obtain ⟨coinAddrDest, haccepts, hid⟩ := setString_keyID (K := K) (E := E) id hcolor
  unfold messageKey
  rw [if_neg (not_not.mpr hversion), haccepts]
  dsimp only
  rw [hid]
  dsimp only
  rw [hkey]
  dsimp only
  rw [if_neg (by simp [hvalid]), if_neg (by simp [hset]), hget, ok_bind,
    if_neg (by simp [hvalid, psmsg.cpkR.property]), hagreed]
  dsimp only
  rw [hmac]
  exact if_neg (not_not.mpr rfl)

/-! ## 6. The theorem -/

/-- **When a message is decrypted inside its buffers**: exactly when the payload that was chosen
fits. -/
theorem inBounds_decryptMessage_iff (K : Crypto) (C : SmsgCrypto) (E : KeyLib) (L : CipherLib)
    (hL : L.WithinBounds E) (getKey : UInt160 → Option Valtype) (fTestOnly : Bool)
    (address : List Char) (psmsg : SmsgRecord) (addrpkdb : KeyDirectory) :
    InBounds (decryptMessage K C E L getKey fTestOnly address psmsg addrpkdb) ↔
      (fTestOnly = false → ∀ vchPayload,
        chosenPayload K C E L getKey address psmsg = some vchPayload →
          PayloadFits E vchPayload) := by
  have hkey : InBounds (messageKey K C E L getKey address psmsg) := inBounds_messageKey hL
  unfold decryptMessage chosenPayload
  rw [inBounds_bind, and_iff_right hkey]
  cases messageKey K C E L getKey address psmsg with
  | error e => exact iff_of_true (fun _ h => by cases h) fun _ _ h => by cases h
  | ok key =>
    cases key with
    | error rv =>
      exact iff_of_true (fun _ h => by cases h; exact inBounds_pure _) fun _ _ h => by cases h
    | ok key_e =>
      have hrun := decrypt_eq hL key_e psmsg.iv.val psmsg.pPayload
      cases fTestOnly with
      | true => exact iff_of_true (fun _ h => by cases h; exact inBounds_pure _) nofun
      | false =>
        constructor
        · intro h _ vchPayload hchosen
          have hin := h _ rfl
          dsimp only at hin hchosen
          rw [if_neg Bool.false_ne_true, hrun, ok_bind, hchosen] at hin
          exact (inBounds_readPayload_iff hL).mp (inBounds_bind.mp hin).1
        · rintro h _ ⟨⟩
          dsimp only at h ⊢
          rw [if_neg Bool.false_ne_true, hrun, ok_bind]
          cases hchosen : (L.aesDecrypt key_e psmsg.iv.val psmsg.pPayload).map
              fun (update, final) => update ++ final with
          | none => exact inBounds_pure _
          | some vchPayload =>
            have hfits := h rfl vchPayload hchosen
            refine inBounds_bind.mpr ⟨(inBounds_readPayload_iff hL).mpr hfits, fun r _ => ?_⟩
            obtain ⟨msg, d'⟩ := r
            cases msg <;> exact inBounds_pure _

/-! ## 7. A payload of one byte -/

/-- Keys to evaluate examples with: a compressed key for every private key, and a signature that
begins with the key.  An address that is made without a colour has colour 1. -/
def sampleKeys : KeyLib :=
  { sampleKeyLib with
    recovered := fun _ vchSig => .ok (vchSig.take 33)
    lz4 := fun src dstCapacity => if src.length ≤ dstCapacity then some src else none }

/-- A cipher that hides nothing, but pads as the real one does, and signatures that have the key. -/
def sampleCipher : CipherLib where
  pubKeyOf key := 2 :: (key ++ List.replicate 32 0).take 32
  ecdhComputeKey _ _ := some ⟨List.replicate 32 0, by decide⟩
  sha512 _ := ⟨List.replicate 64 0, by decide⟩
  aesEncrypt _ _ plain :=
    some (plain, List.replicate (16 - plain.length % 16) (UInt8.ofNat (16 - plain.length % 16)))
  aesDecrypt _ _ ciphertext :=
    if ciphertext.length % 16 = 0 then
      ciphertext.getLast?.map fun n => (ciphertext.take (ciphertext.length - n.toNat), [])
    else none
  lz4Compress message := some message
  signCompact key _ := ⟨2 :: (key ++ List.replicate 32 0).take 32 ++ List.replicate 32 0, by simp⟩

theorem sampleCipher_withinBounds : sampleCipher.WithinBounds sampleKeys where
  aesDecrypt := by
    intro key iv ciphertext update final h
    unfold sampleCipher at h
    dsimp only at h
    split_ifs at h
    obtain ⟨n, -, hn⟩ := Option.map_eq_some_iff.mp h
    cases hn
    rw [List.length_nil, List.length_take]
    omega
  lz4 := by
    intro src dstCapacity out h
    unfold sampleKeys at h
    dsimp only at h
    split_ifs at h with hfits
    cases h
    exact hfits
  getPubKey _ := inBounds_ok _
  recovered _ _ := inBounds_ok _

theorem length_version : ([1, 1] : Valtype).length = 2 := rfl

/-- A message whose payload, when it is decrypted, is one byte. -/
def shortMessage : SmsgRecord where
  hash := ⟨[0, 0, 0, 0], rfl⟩
  version := ⟨[1, 1], length_version⟩
  flags := 0
  timestamp := 6000
  iv := ⟨List.replicate 16 0, rfl⟩
  cpkR := ⟨2 :: List.replicate 32 0, rfl⟩
  mac := ⟨List.replicate 32 0, rfl⟩
  nonse := ⟨[0, 0, 0, 0], rfl⟩
  pPayload := 0 :: List.replicate 15 15

/-- The only key of the wallet. -/
def sampleWallet (id : UInt160) : Option Valtype := if id = 0 then some [1] else none

theorem messageKey_shortMessage : messageKey (Crypto.sample []) sampleCrypto sampleKeys sampleCipher
    sampleWallet (Wallet.addressText (Crypto.sample []) sampleKeys.fTestNet (.keyID 0 1) 1)
      shortMessage = .ok (.ok (keyE ⟨List.replicate 64 0, by decide⟩)) :=
  messageKey_eq rfl (show checkColor 1 = true by decide) rfl
    (show pubKeyIsValid shortMessage.cpkR.val = true by decide) rfl rfl rfl rfl

theorem inBounds_decryptMessage_short :
    InBounds (decryptMessage (Crypto.sample []) sampleCrypto sampleKeys sampleCipher sampleWallet
      false (Wallet.addressText (Crypto.sample []) sampleKeys.fTestNet (.keyID 0 1) 1) shortMessage
        fun _ => none) ↔
      (false = false → ∀ vchPayload, chosenPayload (Crypto.sample []) sampleCrypto sampleKeys
        sampleCipher sampleWallet
          (Wallet.addressText (Crypto.sample []) sampleKeys.fTestNet (.keyID 0 1) 1) shortMessage =
            some vchPayload → PayloadFits sampleKeys vchPayload) :=
  inBounds_decryptMessage_iff _ _ _ _ sampleCipher_withinBounds ..

/-- **A payload of one byte is read past its end.** -/
theorem short_payload_read : decryptMessage (Crypto.sample []) sampleCrypto sampleKeys sampleCipher
    sampleWallet false (Wallet.addressText (Crypto.sample []) sampleKeys.fTestNet (.keyID 0 1) 1)
      shortMessage (fun _ => none) = .error (.oob 1) := by
  unfold decryptMessage
  rw [messageKey_shortMessage]
  rfl

end SecMsg

end Breakout
