/-
# Secure messages, there and back

`SecureMsgEncrypt` puts a text into one of two payloads: with the sender's address and signature, or
without.  The first byte tells them apart, the version of the address or 250; a text of more than
128 bytes is compressed.  `SecureMsgSetHash` looks for a number with which the message hashes to
enough zeros, and `SecureMsgValidate` asks for these and for a size that no text of 4096 bytes
exceeds.

What is decrypted is what was encrypted, but for the address of the sender.  The payload has no
colour, and `SecureMsgDecrypt` makes an address from the hash alone, so that its colour is whatever
was in memory: `round_trip_iff`.
-/
import Breakout.SecMsgCrypt

namespace Breakout

open Lib

namespace SecMsg

open Wallet (CBitcoinAddress)

/-! ## 1. LZ4 blocks

A block is a list of sequences, and then literals.  A sequence is a token, literals, an offset of
two bytes, and the length of a match of at least four bytes; a length that the token has no room for
goes into further bytes. -/

/-- A sequence of a block. -/
structure Lz4Sequence where
  literals : Nat
  matchLength : Nat
  minMatch : 4 ≤ matchLength

/-- A block: what its parts are as long as. -/
structure Lz4Block where
  sequences : List Lz4Sequence
  lastLiterals : Nat

/-- The bytes of a length after those that the token has room for. -/
def moreLength (n : Nat) : Nat := if n < 15 then 0 else (n - 15) / 255 + 1

/-- The bytes of a sequence. -/
def Lz4Sequence.size (s : Lz4Sequence) : Nat :=
  1 + moreLength s.literals + s.literals + 2 + moreLength (s.matchLength - 4)

/-- The bytes of a block. -/
def Lz4Block.size (b : Lz4Block) : Nat :=
  (b.sequences.map Lz4Sequence.size).sum + (1 + moreLength b.lastLiterals + b.lastLiterals)

/-- The bytes that a block stands for. -/
def Lz4Block.content (b : Lz4Block) : Nat :=
  (b.sequences.map fun s => s.literals + s.matchLength).sum + b.lastLiterals

theorem moreLength_le (n : Nat) : 255 * moreLength n ≤ n + 240 ∧ (n < 15 → moreLength n = 0) := by
  unfold moreLength
  split_ifs with h
  · exact ⟨by omega, fun _ => rfl⟩
  · exact ⟨by omega, fun h' => absurd h' h⟩

/-- A sequence is hardly longer than what it stands for. -/
theorem Lz4Sequence.size_le (s : Lz4Sequence) :
    255 * s.size ≤ 256 * (s.literals + s.matchLength) := by
  have hmatch := s.minMatch
  obtain ⟨hliterals, -⟩ := moreLength_le s.literals
  obtain ⟨hlong, hshort⟩ := moreLength_le (s.matchLength - 4)
  unfold size
  by_cases h : s.matchLength - 4 < 15
  · rw [hshort h]
    omega
  · omega

/-- **A block is hardly longer than what it stands for.** -/
theorem Lz4Block.size_le (b : Lz4Block) : 255 * b.size ≤ 256 * b.content + 495 := by
  obtain ⟨sequences, lastLiterals⟩ := b
  unfold size content
  dsimp only
  have hlast := (moreLength_le lastLiterals).1
  induction sequences with
  | nil =>
    rw [List.map_nil, List.map_nil]
    simp only [List.sum_nil, Nat.zero_add]
    omega
  | cons s rest ih =>
    have hs := s.size_le
    simp only [List.map_cons, List.sum_cons]
    omega

/-! ## 2. `SecureMsgEncrypt` -/

abbrev smsgMaxMsgBytes : Nat := 4096

variable (K : Crypto) (C : SmsgCrypto) (E : KeyLib) (L : CipherLib)

/-- `SecureMsgGetLocalKey`: the key is made compressed. -/
def getLocalKey (getKey : UInt160 → Option Valtype) (ckid : CKeyID) : Option Valtype :=
  match getKey ckid.id with
  | none => none
  | some key =>
    let cpkOut := L.pubKeyOf key
    if pubKeyIsValid cpkOut = false ∨ cpkOut.length ≠ 33 then none else some cpkOut

def CipherLib.encrypt (key_e iv chPlaintext : Valtype) : Option Valtype :=
  (L.aesEncrypt key_e iv chPlaintext).map fun (update, final) => update ++ final

/-- The text as it goes into the payload: "only compress if over 128 bytes". -/
def messageData (message : Valtype) : Except Nat Valtype :=
  if message.length > 128 then
    if E.resizes (UInt32.ofNat (message.length + message.length / 255 + 16)) = false then .error 8
    else
      match L.lz4Compress message with
      | none => .error 9
      | some vchCompressed => .ok vchCompressed
  else .ok message

/-- The payload of an anonymous message: "next 4 bytes are unused". -/
def anonymousPayload (lenMsg : UInt32) (pMsgData : Valtype) : Valtype :=
  250 :: ([0, 0, 0, 0] ++ (leBytes 4 lenMsg.toNat ++ pMsgData))

/-- The payload of a message with its sender: "Save some bytes by sending address raw". -/
def signedPayload (nVersion : UInt8) (ckidFrom : UInt160) (vchSignature : Bytes 65)
    (lenMsg : UInt32) (pMsgData : Valtype) : Valtype :=
  nVersion :: (leBytes 20 ckidFrom.toNat ++ (vchSignature.val ++
    (leBytes 4 lenMsg.toNat ++ pMsgData)))

/-- The payload of a message, from its sender's address and key id, if it has one. -/
def messagePayload (getKey : UInt160 → Option Valtype) (sender : Option (CBitcoinAddress × CKeyID))
    (message pMsgData : Valtype) : Except Nat Valtype :=
  let lenMsg := UInt32.ofNat message.length
  match sender with
  | none =>
    if E.resizes (9 + UInt32.ofNat pMsgData.length) = false then .error 8
    else .ok (anonymousPayload lenMsg pMsgData)
  | some (coinAddrFrom, ckidFrom) =>
    if E.resizes (UInt32.ofNat smsgPlHdrLen + UInt32.ofNat pMsgData.length) = false then .error 8
    else
      match getKey ckidFrom.id with
      | none => .error 7
      | some keyFrom =>
        .ok (signedPayload coinAddrFrom.nVersion ckidFrom.id
          (L.signCompact keyFrom (K.hash message)) lenMsg pMsgData)

/-- The address of the sender, if the message is not anonymous; or what is returned. -/
def senderOf (addressFrom : List Char) : Except Nat (Option (CBitcoinAddress × CKeyID)) :=
  if addressFrom = "anon".toList then .ok none
  else
    match CBitcoinAddress.setString K ⟨0, [], E.nColor⟩ addressFrom with
    | (false, _) => .error 3
    | (true, coinAddrFrom) =>
      match getKeyID E coinAddrFrom with
      | none => .error 3
      | some ckidFrom => .ok (some (coinAddrFrom, ckidFrom))

/-- The public key of the address that a message goes to, or what is returned. -/
def destinationKey (getKey : UInt160 → Option Valtype) (addrpkdb : KeyDirectory)
    (addressTo : List Char) : Except Nat Valtype :=
  match CBitcoinAddress.setString K ⟨0, [], E.nColor⟩ addressTo with
  | (false, _) => .error 4
  | (true, coinAddrDest) =>
    match getKeyID E coinAddrDest with
    | none => .error 4
    | some ckidDest =>
      match (addrpkdb ckidDest).or (getLocalKey L getKey ckidDest) with
      | none => .error 5
      | some cpkDestK => .ok cpkDestK

/-- What is drawn at random for a message: the start of the cipher and a private key. -/
structure Ephemeral where
  iv : Bytes 16
  keyR : Valtype

/-- `SecureMsgEncrypt`: the message, or what is returned. -/
def secureMsgEncrypt (getKey : UInt160 → Option Valtype) (addrpkdb : KeyDirectory) (now : Int64)
    (drawn : Ephemeral) (smsg : SmsgRecord) (addressFrom addressTo : List Char)
    (message : Valtype) : Except Nat SmsgRecord :=
  if message.length > smsgMaxMsgBytes then .error 2
  else do
    let sender ← senderOf K E addressFrom
    let cpkDestK ← destinationKey K E L getKey addrpkdb addressTo
    if E.setPubKey cpkDestK = false then .error 4
    else
      match agreedKey L cpkDestK drawn.keyR with
      | none => .error 6
      | some vchHashed =>
        let cpkR := L.pubKeyOf drawn.keyR
        if h : pubKeyIsValid cpkR = false ∨ cpkR.length ≠ 33 then .error 1
        else do
          let pMsgData ← messageData E L message
          let vchPayload ← messagePayload K E L getKey sender message pMsgData
          match L.encrypt (keyE vchHashed) drawn.iv.val vchPayload with
          | none => .error 11
          | some vchCiphertext =>
            if E.resizes (UInt32.ofNat vchCiphertext.length) = false then .error 8
            else
              match messageMac C (keyM vchHashed) now vchCiphertext with
              | none => .error 10
              | some mac =>
                .ok { smsg with
                  version := ⟨[1, 1], length_version⟩
                  timestamp := now
                  iv := drawn.iv
                  cpkR := ⟨cpkR, by simpa using (not_or.mp h).2⟩
                  mac := mac
                  pPayload := vchCiphertext }

/-! ## 3. `SecureMsgSetHash` -/

/-- `memcpy(&psmsg->nonse[0], &nonse, 4);` -/
def SmsgRecord.setNonse (smsg : SmsgRecord) (nonse : UInt32) : SmsgRecord :=
  { smsg with nonse := ⟨leBytes 4 nonse.toNat, length_leBytes ..⟩ }

/-- The hash of a message. -/
def messageHash (smsg : SmsgRecord) : Option Valtype :=
  C.hmacSha256 (List.replicate 8 smsg.nonse.val).flatten
    (smsg.header.drop 4 ++ smsg.pPayload ++ smsg.pPayload)

/-- The hash has the zeros that are asked for. -/
def enoughZeros (sha256Hash : Valtype) : Bool :=
  sha256Hash.getD 31 0 = 0 ∧ sha256Hash.getD 30 0 = 0 ∧ ~~~ sha256Hash.getD 29 0 &&& 1 ≠ 0

/-- The loop of `SecureMsgSetHash`, from the rounds that are left: the message, and the hash that
was found.  `fSecMsgEnabled` is asked in each round. -/
def setHashLoop (fSecMsgEnabled : UInt32 → Bool) :
    Nat → UInt32 → SmsgRecord → SmsgRecord × Option Valtype
  | 0, _, smsg => (smsg, none)
  | rounds + 1, nonse, smsg =>
    if fSecMsgEnabled nonse = false then (smsg, none)
    else
      let smsg := smsg.setNonse nonse
      match messageHash C smsg with
      | none => (smsg, none)
      | some sha256Hash =>
        if enoughZeros sha256Hash then (smsg, some sha256Hash)
        else setHashLoop fSecMsgEnabled rounds (nonse + 1) smsg

/-- `SecureMsgSetHash`: what it returns, and the message. -/
def secureMsgSetHash (fSecMsgEnabled : UInt32 → Bool) (fEnabledAfter : Bool) (smsg : SmsgRecord) :
    Nat × SmsgRecord :=
  match setHashLoop C fSecMsgEnabled (2 ^ 32) 0 smsg with
  | (smsg, found) =>
    if fEnabledAfter = false then (2, smsg)
    else
      match found with
      | none => (1, smsg)
      | some sha256Hash => (0, { smsg with hash := bytesAt sha256Hash 0 4 })

/-! ## 4. What the libraries invert

An ephemeral key is read back from the header, what is encrypted is padded to the next whole block
and decrypted, what is compressed is a block that is decompressed. -/

/-- What is documented of the codes, of the cipher, of LZ4 and of the keys that are drawn. -/
structure CipherLib.Inverts (L : CipherLib) (C : SmsgCrypto) (E : KeyLib) : Prop extends
    L.WithinBounds E where
  hmacSha256 : ∀ key data mac, C.hmacSha256 key data = some mac → mac.length = 32
  setPubKey : ∀ keyR, pubKeyIsValid (L.pubKeyOf keyR) = true → E.setPubKey (L.pubKeyOf keyR) = true
  getPubKey_eq : ∀ keyR, pubKeyIsValid (L.pubKeyOf keyR) = true →
    E.getPubKey (L.pubKeyOf keyR) = .ok (L.pubKeyOf keyR)
  aesEncrypt : ∀ key iv plain update final, L.aesEncrypt key iv plain = some (update, final) →
    (update ++ final).length = 16 * (plain.length / 16 + 1) ∧
      ∃ update' final', L.aesDecrypt key iv (update ++ final) = some (update', final') ∧
        update' ++ final' = plain
  lz4Compress : ∀ message out, L.lz4Compress message = some out →
    (∃ b : Lz4Block, b.content = message.length ∧ b.size = out.length) ∧
      E.lz4 out message.length = some message

/-- A public and a private key belong together: with any other key they agree on the same point. -/
def CipherLib.Pair (L : CipherLib) (cpk key : Valtype) : Prop :=
  ∀ keyR vchP, L.ecdhComputeKey cpk keyR = some vchP →
    L.ecdhComputeKey (L.pubKeyOf keyR) key = some vchP

/-- A private key belongs to a key id: from its signatures a key is recovered that hashes to it. -/
def CipherLib.SignsFor (K : Crypto) (E : KeyLib) (L : CipherLib) (key : Valtype) (id : UInt160) :
    Prop :=
  ∀ hash, ∃ cpk, E.recovered hash (L.signCompact key hash).val = .ok cpk ∧
    pubKeyIsValid cpk = true ∧ keyIdOf K cpk = id

/-! ## 5. `SecureMsgValidate` accepts -/

variable {K C E L} {smsg smsg' : SmsgRecord}

theorem length_header (smsg : SmsgRecord) : smsg.header.length = smsgHdrLen := by
  simp only [SmsgRecord.header, List.length_append, List.length_cons, smsg.hash.property,
    smsg.version.property, smsg.iv.property, smsg.cpkR.property, smsg.mac.property,
    smsg.nonse.property, timeBytes, length_leBytes]

theorem header_version (smsg : SmsgRecord) :
    ((⟨smsg.header, 0⟩ : Ptr).add 4).read 1 = .ok (smsg.version.val.take 1) := by
  have hone : (smsg.version.val.take 1).length = 1 := by
    rw [List.length_take, smsg.version.property]
    rfl
  have hsplit : smsg.header = smsg.hash.val ++ (smsg.version.val.take 1 ++
      (smsg.version.val.drop 1 ++ smsg.header.drop 6)) := by
    have hdrop : smsg.header.drop 6 = smsg.flags :: (timeBytes smsg.timestamp ++
        (smsg.iv.val ++ (smsg.cpkR.val ++ (smsg.mac.val ++
          (smsg.nonse.val ++ leBytes 4 smsg.nPayload.toNat))))) := by
      rw [SmsgRecord.header, ← List.append_assoc]
      exact List.drop_left' (by
        rw [List.length_append, smsg.hash.property, smsg.version.property])
    rw [hdrop, ← List.append_assoc (smsg.version.val.take 1), List.take_append_drop]
    rfl
  rw [Ptr.start_add, Ptr.read_part hsplit smsg.hash.property hone]

theorem header_nonse (smsg : SmsgRecord) :
    ((⟨smsg.header, 0⟩ : Ptr).add 96).read 4 = .ok smsg.nonse.val := by
  have hsplit : smsg.header = (smsg.hash.val ++ smsg.version.val ++ smsg.flags ::
      (timeBytes smsg.timestamp ++ smsg.iv.val ++ smsg.cpkR.val ++ smsg.mac.val)) ++
        (smsg.nonse.val ++ leBytes 4 smsg.nPayload.toNat) := by
    simp only [SmsgRecord.header, List.append_assoc, List.cons_append]
  rw [Ptr.start_add, Ptr.read_part hsplit ?_ smsg.nonse.property]
  simp only [List.length_append, List.length_cons, smsg.hash.property, smsg.version.property,
    smsg.iv.property, smsg.cpkR.property, smsg.mac.property, timeBytes, length_leBytes]

theorem header_hash (smsg : SmsgRecord) :
    (⟨smsg.header, 0⟩ : Ptr).read 4 = .ok smsg.hash.val := by
  have hsplit : smsg.header = [] ++ (smsg.hash.val ++ smsg.header.drop 4) := by
    have htake : smsg.header.take 4 = smsg.hash.val := List.take_left' smsg.hash.property
    rw [← htake, List.nil_append, List.take_append_drop]
  exact Ptr.read_part hsplit rfl smsg.hash.property

/-- The header after the hash. -/
theorem header_drop (smsg : SmsgRecord) : smsg.header.drop 4 =
    smsg.version.val ++ (smsg.flags :: (timeBytes smsg.timestamp ++ (smsg.iv.val ++
      (smsg.cpkR.val ++ (smsg.mac.val ++ (smsg.nonse.val ++ leBytes 4 smsg.nPayload.toNat)))))) :=
  List.drop_left' smsg.hash.property

theorem header_tail (smsg : SmsgRecord) :
    ((⟨smsg.header, 0⟩ : Ptr).add 4).read (smsgHdrLen - 4) = .ok (smsg.header.drop 4) := by
  have hsplit : smsg.header = smsg.hash.val ++ (smsg.header.drop 4 ++ []) := by
    rw [header_drop, List.append_nil]
    rfl
  have hlength : (smsg.header.drop 4).length = smsgHdrLen - 4 := by
    rw [List.length_drop, length_header]
  rw [Ptr.start_add, Ptr.read_part hsplit smsg.hash.property hlength]

/-- **What `SecureMsgValidate` returns**, of a message with its header. -/
theorem secureMsgValidate_eq (hsize : smsg.pPayload.length < 2 ^ 32) :
    secureMsgValidate C ⟨smsg.header, 0⟩ ⟨smsg.pPayload, 0⟩ smsg.nPayload =
      .ok (if smsg.version.val.take 1 ≠ [1] then 4
        else if smsg.pPayload.length > smsgMaxMsgWorst then 5
        else
          match messageHash C smsg with
          | none => 1
          | some sha256Hash =>
            if smsg.hash.val ≠ sha256Hash.take 4 then 3
            else if enoughZeros sha256Hash then 0 else 2) := by
  have hnPayload : smsg.nPayload.toNat = smsg.pPayload.length := by
    rw [SmsgRecord.nPayload, UInt32.toNat_ofNat', Nat.mod_eq_of_lt hsize]
  have hpayload : (⟨smsg.pPayload, 0⟩ : Ptr).read smsg.pPayload.length = .ok smsg.pPayload := by
    rw [Ptr.read_of_holds (holds_start.mpr (by omega)), Ptr.slice, List.drop_zero,
      List.take_length]
  unfold secureMsgValidate
  rw [version0, header_version, ok_bind, hnPayload]
  split_ifs with hversion hlarge
  · rfl
  · rfl
  · rw [header_nonse, ok_bind]
    dsimp only
    rw [header_tail, ok_bind, hpayload, ok_bind, header_hash]
    unfold messageHash
    cases C.hmacSha256 (List.replicate 8 smsg.nonse.val).flatten
        (smsg.header.drop 4 ++ smsg.pPayload ++ smsg.pPayload) with
    | none => rfl
    | some sha256Hash =>
      dsimp only
      rw [ok_bind]
      simp only [enoughZeros, decide_eq_true_eq]
      rfl

variable {fSecMsgEnabled : UInt32 → Bool} {fEnabledAfter fTestNet : Bool} {id : UInt160}

/-- What `setHashLoop` leaves of a message is the message with another number. -/
theorem setHashLoop_spec :
    ∀ {rounds : Nat} {nonse : UInt32} {smsg smsg' : SmsgRecord} {found : Option Valtype},
      setHashLoop C fSecMsgEnabled rounds nonse smsg = (smsg', found) →
        (∃ n, smsg' = { smsg with nonse := n }) ∧
          ∀ sha256Hash, found = some sha256Hash →
            messageHash C smsg' = some sha256Hash ∧ enoughZeros sha256Hash = true
  | 0, nonse, smsg, smsg', found, h => by
    cases h
    exact ⟨⟨smsg.nonse, rfl⟩, nofun⟩
  | rounds + 1, nonse, smsg, smsg', found, h => by
    rw [setHashLoop] at h
    split_ifs at h
    · cases h
      exact ⟨⟨smsg.nonse, rfl⟩, nofun⟩
    · dsimp only at h
      split at h
      · cases h
        exact ⟨⟨_, rfl⟩, nofun⟩
      · next sha256Hash hhash =>
        split_ifs at h with hzeros
        · cases h
          refine ⟨⟨_, rfl⟩, ?_⟩
          rintro _ ⟨⟩
          exact ⟨hhash, hzeros⟩
        · obtain ⟨⟨n, rfl⟩, hfound⟩ := setHashLoop_spec h
          exact ⟨⟨n, rfl⟩, hfound⟩

/-- The hash is not hashed. -/
theorem messageHash_setHash (smsg : SmsgRecord) (hash : Bytes 4) :
    messageHash C { smsg with hash := hash } = messageHash C smsg := by
  unfold messageHash
  rw [header_drop, header_drop]
  rfl

/-- What `SecureMsgSetHash` leaves of a message when it succeeds. -/
theorem secureMsgSetHash_spec
    (h : secureMsgSetHash C fSecMsgEnabled fEnabledAfter smsg = (0, smsg')) :
    (∃ hash nonse, smsg' = { smsg with hash := hash, nonse := nonse }) ∧
      ∃ sha256Hash, messageHash C smsg' = some sha256Hash ∧ enoughZeros sha256Hash = true ∧
        smsg'.hash = bytesAt sha256Hash 0 4 := by
  unfold secureMsgSetHash at h
  rcases hloop : setHashLoop C fSecMsgEnabled (2 ^ 32) 0 smsg with ⟨smsg₁, found⟩
  obtain ⟨⟨nonse, hnonse⟩, hfound⟩ := setHashLoop_spec hloop
  rw [hloop] at h
  dsimp only at h
  split_ifs at h
  · cases h
  · cases found with
    | none => cases h
    | some sha256Hash =>
      obtain ⟨hhash, hzeros⟩ := hfound sha256Hash rfl
      cases h
      refine ⟨⟨bytesAt sha256Hash 0 4, nonse, ?_⟩, sha256Hash, ?_, hzeros, rfl⟩
      · rw [hnonse]
      · rw [messageHash_setHash, hhash]

/-- **A message whose hash was set is accepted**, if it has the version and is not too large. -/
theorem secureMsgValidate_setHash
    (hhmac : ∀ key data mac, C.hmacSha256 key data = some mac → mac.length = 32)
    (h : secureMsgSetHash C fSecMsgEnabled fEnabledAfter smsg = (0, smsg'))
    (hversion : smsg.version.val.take 1 = [1]) (hsize : smsg.pPayload.length ≤ smsgMaxMsgWorst) :
    secureMsgValidate C ⟨smsg'.header, 0⟩ ⟨smsg'.pPayload, 0⟩ smsg'.nPayload = .ok 0 := by
  obtain ⟨⟨hash, nonse, hsmsg'⟩, sha256Hash, hhash, hzeros, hset⟩ := secureMsgSetHash_spec h
  have hversion' : smsg'.version.val.take 1 = [1] := by rwa [hsmsg']
  have hsize' : smsg'.pPayload.length ≤ smsgMaxMsgWorst := by rwa [hsmsg']
  have hlong : 4 ≤ sha256Hash.length := by
    rw [hhmac _ _ _ hhash]
    decide
  have hfirst : smsg'.hash.val = sha256Hash.take 4 := by
    rw [hset]
    exact List.take_append_of_le_length hlong
  rw [secureMsgValidate_eq (lt_of_le_of_lt hsize' (by decide)), if_neg (not_not.mpr hversion'),
    if_neg (not_lt.mpr hsize'), hhash]
  dsimp only
  rw [if_neg (not_not.mpr hfirst), if_pos hzeros]

/-! ## 6. The payload is read back -/

/-- The text in the payload is not much longer than the text. -/
theorem length_messageData_le (hL : L.Inverts C E) {message pMsgData : Valtype}
    (h : messageData E L message = .ok pMsgData) (hshort : message.length ≤ smsgMaxMsgBytes) :
    pMsgData.length ≤ 4114 := by
  have h4096 : message.length ≤ 4096 := hshort
  unfold messageData at h
  split_ifs at h with hlong
  · split at h
    · cases h
    · next vchCompressed hcompress =>
      cases h
      obtain ⟨⟨b, hcontent, hsize⟩, -⟩ := hL.lz4Compress _ _ hcompress
      have hle := b.size_le
      omega
  · cases h
    omega

/-- **The text is read back**, if there is room for it. -/
theorem plainText_eq (hL : L.Inverts C E) {before message pMsgData : Valtype} {hdrLen : Nat}
    (hbefore : before.length = hdrLen) (hdata : messageData E L message = .ok pMsgData)
    (hshort : message.length ≤ smsgMaxMsgBytes) :
    plainText E ⟨before ++ pMsgData, hdrLen⟩
        (UInt32.ofNat (before ++ pMsgData).length - UInt32.ofNat hdrLen)
        (UInt32.ofNat message.length) =
      .ok (if E.resizes (UInt32.ofNat message.length + 1) = true then .ok (message ++ [0])
        else .error 8) := by
  have h4096 : message.length ≤ 4096 := hshort
  have hsmall := length_messageData_le hL hdata hshort
  have hlenPlain : (UInt32.ofNat message.length).toNat = message.length :=
    UInt32.toNat_ofNat_of_lt' (by change message.length < 2 ^ 32; omega)
  have hlenData : UInt32.ofNat (before ++ pMsgData).length - UInt32.ofNat hdrLen =
      UInt32.ofNat pMsgData.length := by
    rw [← UInt32.ofNat_sub (by rw [List.length_append]; omega), List.length_append, hbefore,
      Nat.add_sub_cancel_left]
  have hdataLen : (UInt32.ofNat pMsgData.length).toNat = pMsgData.length :=
    UInt32.toNat_ofNat_of_lt' (by change pMsgData.length < 2 ^ 32; omega)
  have hroom : (UInt32.ofNat message.length + 1).toNat = message.length + 1 := by
    rw [UInt32.toNat_add, hlenPlain]
    exact Nat.mod_eq_of_lt (by change message.length + 1 < 2 ^ 32; omega)
  have hread : (⟨before ++ pMsgData, hdrLen⟩ : Ptr).read pMsgData.length = .ok pMsgData :=
    Ptr.read_part (show before ++ pMsgData = before ++ (pMsgData ++ []) by rw [List.append_nil])
      hbefore rfl
  have hcopy : writeAt (List.replicate (message.length + 1) 0) 0 message = .ok (message ++ [0]) :=
    writeAt_eq_ok.mpr ⟨by rw [List.length_replicate]; omega, by simp⟩
  have hend : writeAt (message ++ [0]) message.length [0] = .ok (message ++ [0]) :=
    writeAt_eq_ok.mpr ⟨by rw [List.length_append], by simp⟩
  unfold plainText
  by_cases hresizes : E.resizes (UInt32.ofNat message.length + 1) = true
  · rw [if_neg (by simp [hresizes]), if_pos hresizes, hlenData, hroom]
    dsimp only
    unfold messageData at hdata
    by_cases hlong : message.length > 128
    · rw [if_pos hlong] at hdata
      have hgt : UInt32.ofNat message.length > 128 := by
        rw [gt_iff_lt, UInt32.lt_iff_toNat_lt, hlenPlain]
        exact hlong
      have hlz4 : E.lz4 pMsgData message.length = some message := by
        split_ifs at hdata
        split at hdata
        · cases hdata
        · next vchCompressed hcompress =>
          cases hdata
          exact (hL.lz4Compress _ _ hcompress).2
      have hrun : lz4DecompressSafe E ⟨before ++ pMsgData, hdrLen⟩
          (UInt32.ofNat pMsgData.length).toInt32 (UInt32.ofNat message.length).toInt32
          (List.replicate (message.length + 1) 0) =
            .ok ((UInt32.ofNat message.length).toInt32, message ++ [0]) := by
        have hdst : ¬ (UInt32.ofNat message.length).toInt32 < 0 := by
          rw [toInt32_lt_zero, hlenPlain]
          omega
        have hsrc : ¬ (UInt32.ofNat pMsgData.length).toInt32 < 0 := by
          rw [toInt32_lt_zero, hdataLen]
          omega
        unfold lz4DecompressSafe
        rw [if_neg hdst, if_neg hsrc, toNatClampNeg_toInt32 (by omega),
          toNatClampNeg_toInt32 (by omega), hlenPlain, hdataLen, hread, ok_bind, hlz4]
        dsimp only
        rw [hcopy, ok_bind]
        rfl
      rw [if_pos hgt, hrun, ok_bind]
      dsimp only
      rw [if_neg (not_not.mpr rfl), hlenPlain, hend, ok_bind]
      rfl
    · rw [if_neg hlong] at hdata
      cases hdata
      have hle : ¬ UInt32.ofNat message.length > 128 := by
        rw [gt_iff_lt, UInt32.lt_iff_toNat_lt, hlenPlain]
        exact hlong
      rw [if_neg hle, hlenPlain, hread, ok_bind, hcopy, ok_bind, hend, ok_bind]
      rfl
  · rw [if_pos (by simpa using hresizes), if_neg hresizes]

/-- The length of the text, in the inner header. -/
theorem readUInt32_part {before rest : Valtype} {pos n : Nat} (hn : n < 2 ^ 32)
    (hpos : before.length = pos) :
    readUInt32 ((⟨before ++ (leBytes 4 n ++ rest), 0⟩ : Ptr).add pos) = .ok (UInt32.ofNat n) := by
  rw [readUInt32, Ptr.start_add, Ptr.read_part rfl hpos (length_leBytes 4 n), ok_bind,
    leNat_leBytes hn]
  rfl

/-- **An anonymous message is read back.** -/
theorem readPayload_anonymous (hL : L.Inverts C E) {timestamp : Int64} {message pMsgData : Valtype}
    {d : KeyDirectory} (hdata : messageData E L message = .ok pMsgData)
    (hshort : message.length ≤ smsgMaxMsgBytes) :
    readPayload K E timestamp (anonymousPayload (UInt32.ofNat message.length) pMsgData) d =
      .ok (if E.resizes (UInt32.ofNat message.length + 1) = true then
          .ok ⟨timestamp, "anon".toList, message ++ [0]⟩
        else .error 8, d) := by
  have h4096 : message.length ≤ 4096 := hshort
  have hlenPlain : (UInt32.ofNat message.length).toNat = message.length :=
    UInt32.toNat_ofNat_of_lt' (by change message.length < 2 ^ 32; omega)
  have hfirst : (⟨anonymousPayload (UInt32.ofNat message.length) pMsgData, 0⟩ : Ptr).read 1 =
      .ok [250] := Ptr.read_part (show _ = [] ++ ([250] ++ _) from rfl) rfl rfl
  have hsplit : anonymousPayload (UInt32.ofNat message.length) pMsgData =
      [250, 0, 0, 0, 0] ++ (leBytes 4 message.length ++ pMsgData) := by
    rw [anonymousPayload, hlenPlain]
    rfl
  have hnine : ([250, 0, 0, 0, 0] ++ leBytes 4 message.length).length = 9 := by
    rw [List.length_append, length_leBytes]
    rfl
  have hplain := plainText_eq hL hnine hdata hshort
  rw [List.append_assoc, ← hsplit] at hplain
  have hlength : readUInt32 ((⟨[250, 0, 0, 0, 0] ++ (leBytes 4 message.length ++ pMsgData), 0⟩ :
      Ptr).add 5) = .ok (UInt32.ofNat message.length) := readUInt32_part (by omega) rfl
  rw [← hsplit] at hlength
  unfold readPayload
  dsimp only
  rw [hfirst, ok_bind]
  rw [if_pos (by decide), hlength, ok_bind, Ptr.start_add, hplain, ok_bind]
  by_cases hresizes : E.resizes (UInt32.ofNat message.length + 1) = true
  · rw [if_pos hresizes, if_pos hresizes]
    exact if_pos (by decide)
  · rw [if_neg hresizes, if_neg hresizes]
    rfl

/-- **A message with its sender is read back**, but for the colour of the address. -/
theorem readPayload_signed (hL : L.Inverts C E) (timestamp : Int64) {message pMsgData : Valtype}
    {d : KeyDirectory} {nVersion : UInt8} {keyFrom : Valtype} (hversion : nVersion ≠ 250)
    (hkey : L.SignsFor K E keyFrom id) (hdata : messageData E L message = .ok pMsgData)
    (hshort : message.length ≤ smsgMaxMsgBytes) :
    ∃ d', readPayload K E timestamp (signedPayload nVersion id
        (L.signCompact keyFrom (K.hash message)) (UInt32.ofNat message.length) pMsgData) d =
      .ok (if E.resizes (UInt32.ofNat message.length + 1) = false then .error 8
        else if (CBitcoinAddress.ofDestination E.fTestNet (.keyID id E.nColor) E.nColor).isValid
            E.fTestNet = false then .error 1
        else .ok ⟨timestamp, Wallet.addressText K E.fTestNet (.keyID id E.nColor) E.nColor,
          message ++ [0]⟩, d') := by
  have h4096 : message.length ≤ 4096 := hshort
  have hlenPlain : (UInt32.ofNat message.length).toNat = message.length :=
    UInt32.toNat_ofNat_of_lt' (by change message.length < 2 ^ 32; omega)
  obtain ⟨cpk, hrecovered, hvalid, hid⟩ := hkey (K.hash message)
  generalize hsig : L.signCompact keyFrom (K.hash message) = vchSig at hrecovered
  generalize hpayload : signedPayload nVersion id vchSig (UInt32.ofNat message.length) pMsgData =
    vchPayload
  have hsplit : vchPayload = (nVersion :: (leBytes 20 id.toNat ++ vchSig.val)) ++
      (leBytes 4 message.length ++ pMsgData) := by
    rw [← hpayload, signedPayload, hlenPlain, List.cons_append, List.append_assoc]
  have hfirst : (⟨vchPayload, 0⟩ : Ptr).read 1 = .ok [nVersion] :=
    Ptr.read_part (show vchPayload = [] ++ ([nVersion] ++ _) by rw [hsplit]; rfl) rfl rfl
  have hidRead : (⟨vchPayload, 1⟩ : Ptr).read 20 = .ok (leBytes 20 id.toNat) := by
    refine Ptr.read_part (show vchPayload = [nVersion] ++ (leBytes 20 id.toNat ++ (vchSig.val ++
      (leBytes 4 message.length ++ pMsgData))) by rw [hsplit]; simp) rfl (length_leBytes ..)
  have hsigRead : (⟨vchPayload, 21⟩ : Ptr).read 65 = .ok vchSig.val := by
    refine Ptr.read_part (show vchPayload = (nVersion :: leBytes 20 id.toNat) ++ (vchSig.val ++
      (leBytes 4 message.length ++ pMsgData)) by rw [hsplit]; simp) ?_ vchSig.property
    rw [List.length_cons, length_leBytes]
  have hninety : ((nVersion :: (leBytes 20 id.toNat ++ vchSig.val)) ++
      leBytes 4 message.length).length = smsgPlHdrLen := by
    simp only [List.length_append, List.length_cons, length_leBytes, vchSig.property]
  have hplain := plainText_eq hL hninety hdata hshort
  rw [List.append_assoc, ← hsplit] at hplain
  have hlength : readUInt32 ((⟨(nVersion :: (leBytes 20 id.toNat ++ vchSig.val)) ++
      (leBytes 4 message.length ++ pMsgData), 0⟩ : Ptr).add 86) =
        .ok (UInt32.ofNat message.length) := by
    refine readUInt32_part (by omega) ?_
    simp only [List.length_append, List.length_cons, length_leBytes, vchSig.property]
  rw [← hsplit] at hlength
  have htoId : toUInt160 (leBytes 20 id.toNat) = id := Wallet.leNat_id id
  unfold readPayload
  dsimp only
  rw [hfirst, ok_bind]
  have hnot : ¬ decide ([nVersion] = [(250 : UInt8)]) = true := by simp [hversion]
  rw [if_neg hnot]
  change ∃ d', (readUInt32 ((⟨vchPayload, 0⟩ : Ptr).add 86) >>= _) = _
  rw [hlength, ok_bind, Ptr.start_add, hplain, ok_bind]
  by_cases hresizes : E.resizes (UInt32.ofNat message.length + 1) = false
  · rw [if_neg (by simp [hresizes]), if_pos hresizes]
    exact ⟨d, rfl⟩
  · rw [if_pos (by simpa using hresizes), if_neg hresizes]
    dsimp only
    rw [if_neg hnot]
    unfold senderKey
    rw [hidRead, ok_bind]
    dsimp only
    rw [htoId]
    by_cases haddress : (CBitcoinAddress.ofDestination E.fTestNet (.keyID id E.nColor)
        E.nColor).isValid E.fTestNet = false
    · rw [if_pos haddress, if_pos haddress]
      exact ⟨d, rfl⟩
    · rw [if_neg haddress, if_neg haddress, hsigRead, ok_bind, List.dropLast_concat, hrecovered,
        ok_bind, if_neg (by simp [hvalid]), hid, if_neg (not_not.mpr ⟨rfl, rfl⟩)]
      exact ⟨_, rfl⟩

/-! ## 7. What was encrypted -/

/-- What `SecureMsgEncrypt` did when it succeeded. -/
structure Encrypted (K : Crypto) (C : SmsgCrypto) (E : KeyLib) (L : CipherLib)
    (getKey : UInt160 → Option Valtype) (addrpkdb : KeyDirectory) (drawn : Ephemeral)
    (addressFrom addressTo : List Char) (message : Valtype) (smsg : SmsgRecord)
    (sender : Option (CBitcoinAddress × CKeyID)) (cpkDestK : Valtype) (vchHashed : Bytes 64)
    (pMsgData vchPayload : Valtype) : Prop where
  short : message.length ≤ smsgMaxMsgBytes
  sentBy : senderOf K E addressFrom = .ok sender
  destination : destinationKey K E L getKey addrpkdb addressTo = .ok cpkDestK
  agreed : agreedKey L cpkDestK drawn.keyR = some vchHashed
  valid : pubKeyIsValid (L.pubKeyOf drawn.keyR) = true
  data : messageData E L message = .ok pMsgData
  payload : messagePayload K E L getKey sender message pMsgData = .ok vchPayload
  encrypted : L.encrypt (keyE vchHashed) drawn.iv.val vchPayload = some smsg.pPayload
  mac : messageMac C (keyM vchHashed) smsg.timestamp smsg.pPayload = some smsg.mac
  version : smsg.version.val = [1, 1]
  iv : smsg.iv = drawn.iv
  cpkR : smsg.cpkR.val = L.pubKeyOf drawn.keyR

theorem secureMsgEncrypt_spec {getKey : UInt160 → Option Valtype} {addrpkdb : KeyDirectory}
    {now : Int64} {drawn : Ephemeral} {addressFrom addressTo : List Char} {message : Valtype}
    (h : secureMsgEncrypt K C E L getKey addrpkdb now drawn smsg addressFrom addressTo message =
      .ok smsg') : smsg'.timestamp = now ∧ ∃ sender cpkDestK vchHashed pMsgData vchPayload,
      Encrypted K C E L getKey addrpkdb drawn addressFrom addressTo message smsg' sender cpkDestK
        vchHashed pMsgData vchPayload := by
  unfold secureMsgEncrypt at h
  split_ifs at h with hlong
  cases hsender : senderOf K E addressFrom with
  | error rv =>
    rw [hsender] at h
    cases h
  | ok sender =>
    cases hdestination : destinationKey K E L getKey addrpkdb addressTo with
    | error rv =>
      rw [hsender, hdestination] at h
      cases h
    | ok cpkDestK =>
      rw [hsender, hdestination] at h
      change (if E.setPubKey cpkDestK = false then _ else _ : Except Nat SmsgRecord) = _ at h
      split_ifs at h with hset
      split at h
      · cases h
      · next vchHashed hagreed =>
        dsimp only at h
        split_ifs at h with hkey
        have hvalid : pubKeyIsValid (L.pubKeyOf drawn.keyR) = true := by
          simpa using (not_or.mp hkey).1
        cases hdata : messageData E L message with
        | error rv =>
          rw [hdata] at h
          cases h
        | ok pMsgData =>
          cases hpayload : messagePayload K E L getKey sender message pMsgData with
          | error rv =>
            rw [hdata] at h
            change (messagePayload K E L getKey sender message pMsgData >>= _) = _ at h
            rw [hpayload] at h
            cases h
          | ok vchPayload =>
            rw [hdata] at h
            change (messagePayload K E L getKey sender message pMsgData >>= _) = _ at h
            rw [hpayload] at h
            change (match L.encrypt (keyE vchHashed) drawn.iv.val vchPayload with
              | none => _
              | some _ => _ : Except Nat SmsgRecord) = _ at h
            split at h
            · cases h
            · next vchCiphertext hencrypted =>
              split_ifs at h with hresizes
              split at h
              · cases h
              · next mac hmac =>
                cases h
                exact ⟨rfl, sender, cpkDestK, vchHashed, pMsgData, vchPayload, not_lt.mp hlong,
                  hsender, hdestination, hagreed, hvalid, hdata, hpayload, hencrypted, hmac, rfl, rfl,
                  rfl⟩

/-! ## 8. The addresses -/

/-- What is the address of a key has the version of one, which is not that of an anonymous message.
-/
theorem nVersion_of_getKeyID {a : CBitcoinAddress} {ckid : CKeyID} (h : getKeyID E a = some ckid) :
    a.nVersion ≠ 250 := by
  rintro hversion
  unfold getKeyID CBitcoinAddress.get at h
  rw [hversion] at h
  by_cases hvalid : a.isValid E.fTestNet = false
  · rw [if_pos hvalid] at h
    cases h
  · rw [if_neg hvalid, if_neg (by decide), if_neg (by decide)] at h
    cases h

theorem textAddress_anon :
    Wallet.textAddress K fTestNet "anon".toList = .noDestination := by
  have hdecode : decodeBase58 "anon".toList = some [100, 153, 21] := by decide
  unfold Wallet.textAddress CBitcoinAddress.ofText decodeBase58Check
  rw [hdecode]
  rfl

/-- The address of a key is the sender. -/
theorem senderOf_addressText (id : UInt160) {nColor : Int32} (hcolor : checkColor nColor = true) :
    ∃ coinAddrFrom, coinAddrFrom.nVersion ≠ 250 ∧
      senderOf K E (Wallet.addressText K E.fTestNet (.keyID id nColor) nColor) =
        .ok (some (coinAddrFrom, ⟨id, nColor⟩)) := by
  have hencodes : ((.keyID id nColor : Wallet.CTxDestination).recolor nColor).Encodes := hcolor
  have hanon : Wallet.addressText K E.fTestNet (.keyID id nColor) nColor ≠ "anon".toList := by
    intro h
    have hread : Wallet.textAddress K E.fTestNet
        (Wallet.addressText K E.fTestNet (.keyID id nColor) nColor) = .keyID id nColor :=
      Wallet.textAddress_addressText hencodes
    rw [h, textAddress_anon] at hread
    cases hread
  obtain ⟨coinAddrFrom, haccepts, hid⟩ := setString_keyID (K := K) (E := E) id hcolor
  refine ⟨coinAddrFrom, nVersion_of_getKeyID hid, ?_⟩
  unfold senderOf
  rw [if_neg hanon, haccepts]
  dsimp only
  rw [hid]

/-- The colour is told by the text. -/
theorem addressText_color_eq {nColor nColor' : Int32} (hcolor : checkColor nColor = true)
    (h : Wallet.addressText K fTestNet (.keyID id nColor') nColor' =
      Wallet.addressText K fTestNet (.keyID id nColor) nColor) :
    nColor' = nColor := by
  have hread : Wallet.textAddress K fTestNet
      (Wallet.addressText K fTestNet (.keyID id nColor) nColor) = .keyID id nColor :=
    Wallet.textAddress_addressText
      (show ((.keyID id nColor : Wallet.CTxDestination).recolor nColor).Encodes from hcolor)
  rw [← h] at hread
  by_cases hencodes : ((.keyID id nColor' : Wallet.CTxDestination).recolor nColor').Encodes
  · rw [Wallet.textAddress_addressText hencodes] at hread
    cases hread
    rfl
  · rw [Wallet.addressText_of_not_encodes hencodes, Wallet.textAddress_notValid] at hread
    cases hread

/-! ## 9. There and back -/

/-- The text that stands for a sender: the address of a key in a colour, or nobody. -/
def senderText (K : Crypto) (fTestNet : Bool) : Option (UInt160 × Int32) → List Char
  | none => "anon".toList
  | some (id, nColor) => Wallet.addressText K fTestNet (.keyID id nColor) nColor

/-- The message is decrypted, and has the text, a zero after it, and the sender. -/
def Decrypts (K : Crypto) (C : SmsgCrypto) (E : KeyLib) (L : CipherLib)
    (getKey : UInt160 → Option Valtype) (addressFrom addressTo : List Char) (message : Valtype)
    (smsg : SmsgRecord) : Prop :=
  ∀ addrpkdb, ∃ addrpkdb', decryptMessage K C E L getKey false addressTo smsg addrpkdb =
    .ok (0, some ⟨smsg.timestamp, addressFrom, message ++ [0]⟩, addrpkdb')

/-- **There and back**: the message is decrypted, and once its hash is set it is accepted and still
decrypted. -/
structure RoundTrip (K : Crypto) (C : SmsgCrypto) (E : KeyLib) (L : CipherLib)
    (getKey : UInt160 → Option Valtype) (addressFrom addressTo : List Char) (message : Valtype)
    (smsg : SmsgRecord) : Prop where
  decrypts : Decrypts K C E L getKey addressFrom addressTo message smsg
  sent : ∀ fSecMsgEnabled fEnabledAfter smsg',
    secureMsgSetHash C fSecMsgEnabled fEnabledAfter smsg = (0, smsg') →
      secureMsgValidate C ⟨smsg'.header, 0⟩ ⟨smsg'.pPayload, 0⟩ smsg'.nPayload = .ok 0 ∧
        Decrypts K C E L getKey addressFrom addressTo message smsg'

section

variable {getKey getKeyTo : UInt160 → Option Valtype} {addrpkdb d : KeyDirectory}
  {drawn : Ephemeral} {addressFrom addressTo : List Char} {message pMsgData vchPayload : Valtype}
  {sender : Option (CBitcoinAddress × CKeyID)} {cpkDestK : Valtype} {vchHashed : Bytes 64}

/-- What was encrypted stays encrypted when the hash is set. -/
theorem Encrypted.setHash {fSecMsgEnabled : UInt32 → Bool} {fEnabledAfter : Bool}
    (henc : Encrypted K C E L getKey addrpkdb drawn addressFrom addressTo message smsg sender
      cpkDestK vchHashed pMsgData vchPayload)
    (h : secureMsgSetHash C fSecMsgEnabled fEnabledAfter smsg = (0, smsg')) :
    Encrypted K C E L getKey addrpkdb drawn addressFrom addressTo message smsg' sender cpkDestK
      vchHashed pMsgData vchPayload := by
  obtain ⟨⟨hash, nonse, rfl⟩, -⟩ := secureMsgSetHash_spec h
  exact { henc with }

/-- The payload is at most ninety bytes longer than the text in it. -/
theorem length_messagePayload_le
    (h : messagePayload K E L getKey sender message pMsgData = .ok vchPayload) :
    vchPayload.length ≤ smsgPlHdrLen + pMsgData.length := by
  have hplHdr : smsgPlHdrLen = 90 := rfl
  unfold messagePayload at h
  dsimp only at h
  cases sender with
  | none =>
    dsimp only at h
    split_ifs at h
    cases h
    simp only [anonymousPayload, List.length_cons, List.length_append, length_leBytes,
      List.length_nil]
    omega
  | some from_ =>
    dsimp only at h
    split_ifs at h
    split at h
    · cases h
    · next keyFrom _ =>
      cases h
      simp only [signedPayload, List.length_cons, List.length_append, length_leBytes,
        (L.signCompact keyFrom (K.hash message)).property]
      omega

/-- **No message is too large for who receives it.** -/
theorem Encrypted.size_le (hL : L.Inverts C E)
    (henc : Encrypted K C E L getKey addrpkdb drawn addressFrom addressTo message smsg sender
      cpkDestK vchHashed pMsgData vchPayload) : smsg.pPayload.length ≤ smsgMaxMsgWorst := by
  have hdata := length_messageData_le hL henc.data henc.short
  have hpayload := length_messagePayload_le henc.payload
  obtain ⟨⟨update, final⟩, haes, hcipher⟩ := Option.map_eq_some_iff.mp henc.encrypted
  have hblocks := (hL.aesEncrypt _ _ _ _ _ haes).1
  rw [← hcipher]
  dsimp only
  rw [hblocks]
  have hplHdr : smsgPlHdrLen = 90 := rfl
  have hworst : smsgMaxMsgWorst = 4218 := rfl
  omega

variable {id : UInt160} {nColor : Int32} {keyDest : Valtype}

/-- **What is decrypted is the payload that was encrypted.** -/
theorem Encrypted.decryptMessage_eq (hL : L.Inverts C E)
    (henc : Encrypted K C E L getKey addrpkdb drawn addressFrom addressTo message smsg sender
      cpkDestK vchHashed pMsgData vchPayload)
    (hcolor : checkColor nColor = true) (hkey : getKeyTo id = some keyDest)
    (hpair : L.Pair cpkDestK keyDest) :
    decryptMessage K C E L getKeyTo false
        (Wallet.addressText K E.fTestNet (.keyID id nColor) nColor) smsg d = (do
      let (msg, addrpkdb) ← readPayload K E smsg.timestamp vchPayload d
      match msg with
      | .error rv => return (rv, none, addrpkdb)
      | .ok msg => return (0, some msg, addrpkdb)) := by
  have hvalid : pubKeyIsValid smsg.cpkR.val = true := henc.cpkR ▸ henc.valid
  have hset : E.setPubKey smsg.cpkR.val = true := henc.cpkR ▸ hL.setPubKey _ henc.valid
  have hget : E.getPubKey smsg.cpkR.val = .ok smsg.cpkR.val :=
    henc.cpkR ▸ hL.getPubKey_eq _ henc.valid
  have hagreed : agreedKey L smsg.cpkR.val keyDest = some vchHashed := by
    obtain ⟨vchP, hecdh, hhash⟩ := Option.map_eq_some_iff.mp henc.agreed
    rw [henc.cpkR, agreedKey, hpair _ _ hecdh, Option.map_some, hhash]
  have hversion : smsg.version.val.head? = some 1 := by
    rw [henc.version]
    rfl
  have hmessageKey : messageKey K C E L getKeyTo
      (Wallet.addressText K E.fTestNet (.keyID id nColor) nColor) smsg =
        .ok (.ok (keyE vchHashed)) :=
    messageKey_eq hversion hcolor hkey hvalid hset hget hagreed henc.mac
  obtain ⟨⟨update, final⟩, haes, hcipher⟩ := Option.map_eq_some_iff.mp henc.encrypted
  obtain ⟨-, update', final', hdecrypt, hplain⟩ := hL.aesEncrypt _ _ _ _ _ haes
  dsimp only at hcipher
  unfold decryptMessage
  rw [hmessageKey, ok_bind]
  dsimp only
  rw [if_neg Bool.false_ne_true, decrypt_eq hL.toWithinBounds, ← hcipher, henc.iv, hdecrypt,
    ok_bind]
  change (readPayload K E smsg.timestamp (update' ++ final') d >>= _) = _
  subst hplain
  rfl

/-- **An anonymous message is decrypted** when there is room for the text. -/
theorem Encrypted.decrypts_anonymous (hL : L.Inverts C E)
    (henc : Encrypted K C E L getKey addrpkdb drawn addressFrom addressTo message smsg none cpkDestK
      vchHashed pMsgData vchPayload)
    (hcolor : checkColor nColor = true) (hkey : getKeyTo id = some keyDest)
    (hpair : L.Pair cpkDestK keyDest) :
    Decrypts K C E L getKeyTo "anon".toList
        (Wallet.addressText K E.fTestNet (.keyID id nColor) nColor) message smsg ↔
      E.resizes (UInt32.ofNat message.length + 1) = true := by
  have hpayload : vchPayload = anonymousPayload (UInt32.ofNat message.length) pMsgData := by
    have h := henc.payload
    unfold messagePayload at h
    dsimp only at h
    split_ifs at h
    cases h
    rfl
  have hrun := fun d => henc.decryptMessage_eq (d := d) hL hcolor hkey hpair
  simp only [hpayload, readPayload_anonymous hL henc.data henc.short, ok_bind] at hrun
  constructor
  · intro h
    by_contra hresizes
    obtain ⟨d', hd'⟩ := h fun _ => none
    rw [hrun, if_neg hresizes] at hd'
    cases hd'
  · intro hresizes d
    refine ⟨d, ?_⟩
    rw [hrun, if_pos hresizes]
    rfl

/-- **A message with its sender is decrypted** when there is room for the text, as from an address
in the colour that happens to be in memory. -/
theorem Encrypted.decrypts_signed (hL : L.Inverts C E) {coinAddrFrom : CBitcoinAddress}
    {ckidFrom : CKeyID}
    (henc : Encrypted K C E L getKey addrpkdb drawn addressFrom addressTo message smsg
      (some (coinAddrFrom, ckidFrom)) cpkDestK vchHashed pMsgData vchPayload)
    (hversion : coinAddrFrom.nVersion ≠ 250)
    (hsigns : ∀ key, getKey ckidFrom.id = some key → L.SignsFor K E key ckidFrom.id)
    (hcolor : checkColor nColor = true) (hkey : getKeyTo id = some keyDest)
    (hpair : L.Pair cpkDestK keyDest) (text : List Char) :
    Decrypts K C E L getKeyTo text (Wallet.addressText K E.fTestNet (.keyID id nColor) nColor)
        message smsg ↔
      E.resizes (UInt32.ofNat message.length + 1) = true ∧
        (CBitcoinAddress.ofDestination E.fTestNet (.keyID ckidFrom.id E.nColor) E.nColor).isValid
          E.fTestNet = true ∧
        Wallet.addressText K E.fTestNet (.keyID ckidFrom.id E.nColor) E.nColor = text := by
  obtain ⟨keyFrom, hkeyFrom, hpayload⟩ : ∃ keyFrom, getKey ckidFrom.id = some keyFrom ∧
      vchPayload = signedPayload coinAddrFrom.nVersion ckidFrom.id
        (L.signCompact keyFrom (K.hash message)) (UInt32.ofNat message.length) pMsgData := by
    have h := henc.payload
    unfold messagePayload at h
    dsimp only at h
    split_ifs at h
    split at h
    · cases h
    · next keyFrom hkeyFrom =>
      cases h
      exact ⟨keyFrom, hkeyFrom, rfl⟩
  have hrun := fun d => henc.decryptMessage_eq (d := d) hL hcolor hkey hpair
  have hread := fun d => readPayload_signed (d := d) hL smsg.timestamp hversion
    (hsigns keyFrom hkeyFrom) henc.data henc.short
  rw [← hpayload] at hread
  constructor
  · intro h
    obtain ⟨d', hd'⟩ := h fun _ => none
    obtain ⟨d₁, hd₁⟩ := hread fun _ => none
    rw [hrun, hd₁, ok_bind] at hd'
    split_ifs at hd' with hresizes hinvalid
    · cases hd'
    · cases hd'
    · cases hd'
      exact ⟨by simpa using hresizes, by simpa using hinvalid, rfl⟩
  · rintro ⟨hresizes, hvalid, rfl⟩ d
    obtain ⟨d₁, hd₁⟩ := hread d
    refine ⟨d₁, ?_⟩
    rw [hrun, hd₁, ok_bind, if_neg (by simp [hresizes]), if_neg (by simp [hvalid])]
    rfl

/-- **When a message is decrypted with its text and its sender.** -/
theorem Encrypted.decrypts_iff (hL : L.Inverts C E) {from_ : Option (UInt160 × Int32)}
    (hfrom : ∀ id nColor, from_ = some (id, nColor) →
      checkColor nColor = true ∧ ∀ key, getKey id = some key → L.SignsFor K E key id)
    (henc : Encrypted K C E L getKey addrpkdb drawn (senderText K E.fTestNet from_) addressTo
      message smsg sender cpkDestK vchHashed pMsgData vchPayload)
    (hcolor : checkColor nColor = true) (hkey : getKeyTo id = some keyDest)
    (hpair : L.Pair cpkDestK keyDest) :
    Decrypts K C E L getKeyTo (senderText K E.fTestNet from_)
        (Wallet.addressText K E.fTestNet (.keyID id nColor) nColor) message smsg ↔
      E.resizes (UInt32.ofNat message.length + 1) = true ∧
        ∀ id nColor, from_ = some (id, nColor) → E.nColor = nColor := by
  have hsentBy := henc.sentBy
  cases from_ with
  | none =>
    rw [senderText, senderOf, if_pos rfl] at hsentBy
    cases hsentBy
    rw [senderText, henc.decrypts_anonymous hL hcolor hkey hpair]
    exact ⟨fun h => ⟨h, nofun⟩, And.left⟩
  | some from_ =>
    obtain ⟨idFrom, nColorFrom⟩ := from_
    obtain ⟨hcolorFrom, hsigns⟩ := hfrom _ _ rfl
    obtain ⟨coinAddrFrom, hversion, hsender⟩ :=
      senderOf_addressText (K := K) (E := E) idFrom hcolorFrom
    rw [senderText, hsender] at hsentBy
    cases hsentBy
    rw [senderText, henc.decrypts_signed hL hversion hsigns hcolor hkey hpair]
    refine and_congr_right fun _ => ⟨?_, fun h => ?_⟩
    · rintro ⟨-, htext⟩ _ _ ⟨⟩
      exact addressText_color_eq hcolorFrom htext
    · obtain rfl := h _ _ rfl
      exact ⟨Wallet.isValid_of_checkColor (by cases E.fTestNet <;> decide) (length_leBytes ..)
        hcolorFrom, rfl⟩

end

/-- **When a message goes there and back.**  It is always accepted once its hash is set.  It is
decrypted with its text and its sender exactly when there is room for the text, and the sender is
nobody or the colour that an address is made with, when none is given, is that of the sender's. -/
theorem round_trip_iff (K : Crypto) (C : SmsgCrypto) (E : KeyLib) (L : CipherLib)
    (hL : L.Inverts C E) (getKey getKeyTo : UInt160 → Option Valtype) (addrpkdb : KeyDirectory)
    (now : Int64) (drawn : Ephemeral) (smsg smsg' : SmsgRecord) (message : Valtype)
    (from_ : Option (UInt160 × Int32))
    (hfrom : ∀ id nColor, from_ = some (id, nColor) →
      checkColor nColor = true ∧ ∀ key, getKey id = some key → L.SignsFor K E key id)
    (id : UInt160) (nColor : Int32) (hcolor : checkColor nColor = true) (keyDest : Valtype)
    (hkey : getKeyTo id = some keyDest)
    (hpair : ∀ cpkDestK, destinationKey K E L getKey addrpkdb
      (Wallet.addressText K E.fTestNet (.keyID id nColor) nColor) = .ok cpkDestK →
        L.Pair cpkDestK keyDest)
    (hrun : secureMsgEncrypt K C E L getKey addrpkdb now drawn smsg (senderText K E.fTestNet from_)
      (Wallet.addressText K E.fTestNet (.keyID id nColor) nColor) message = .ok smsg') :
    RoundTrip K C E L getKeyTo (senderText K E.fTestNet from_)
        (Wallet.addressText K E.fTestNet (.keyID id nColor) nColor) message smsg' ↔
      E.resizes (UInt32.ofNat message.length + 1) = true ∧
        ∀ id nColor, from_ = some (id, nColor) → E.nColor = nColor := by
  obtain ⟨-, sender, cpkDestK, vchHashed, pMsgData, vchPayload, henc⟩ := secureMsgEncrypt_spec hrun
  have hpair' : L.Pair cpkDestK keyDest := hpair _ henc.destination
  have hdecrypts := henc.decrypts_iff hL hfrom hcolor hkey hpair'
  constructor
  · intro h
    exact hdecrypts.mp h.decrypts
  · intro h
    refine ⟨hdecrypts.mpr h, fun fSecMsgEnabled fEnabledAfter sent hset => ⟨?_, ?_⟩⟩
    · have hversion : smsg'.version.val.take 1 = [1] := by
        rw [henc.version]
        rfl
      exact secureMsgValidate_setHash hL.hmacSha256 hset hversion (henc.size_le hL)
    · exact ((henc.setHash hset).decrypts_iff hL hfrom hcolor hkey hpair').mpr h

/-! ## 10. A sender in the second colour -/

/-- A block of literals. -/
def literalBlock (message : Valtype) : Valtype :=
  if message.length < 15 then UInt8.ofNat (16 * message.length) :: message
  else 240 :: (List.replicate ((message.length - 15) / 255) 255 ++
    UInt8.ofNat ((message.length - 15) % 255) :: message)

theorem literalBlock_eq (message : Valtype) : ∃ lengths,
    literalBlock message = lengths ++ message ∧ lengths.length = 1 + moreLength message.length := by
  unfold literalBlock moreLength
  split_ifs
  · exact ⟨[UInt8.ofNat (16 * message.length)], rfl, rfl⟩
  · refine ⟨240 :: (List.replicate ((message.length - 15) / 255) 255 ++
      [UInt8.ofNat ((message.length - 15) % 255)]), by simp, ?_⟩
    rw [List.length_cons, List.length_append, List.length_replicate, List.length_singleton,
      Nat.add_comm]

/-- Compression that finds no matches. -/
def literalCipher : CipherLib := { sampleCipher with lz4Compress := some ∘ literalBlock }

/-- Blocks of literals are read, and everything else is refused. -/
def literalKeys : KeyLib :=
  { sampleKeys with
    lz4 := fun src dstCapacity =>
      let out := src.drop (1 + moreLength dstCapacity)
      if literalBlock out = src ∧ out.length ≤ dstCapacity then some out else none }

theorem literalCipher_inverts : literalCipher.Inverts sampleCrypto literalKeys where
  aesDecrypt := sampleCipher_withinBounds.aesDecrypt
  lz4 := by
    intro src dstCapacity out h
    unfold literalKeys at h
    dsimp only at h
    split_ifs at h with hfits
    cases h
    exact hfits.2
  getPubKey := sampleCipher_withinBounds.getPubKey
  recovered := sampleCipher_withinBounds.recovered
  hmacSha256 := by
    rintro key data mac ⟨⟩
    rfl
  setPubKey _ _ := rfl
  getPubKey_eq _ _ := rfl
  aesEncrypt := by
    rintro key iv plain update final h
    cases h
    have hpos : 16 - plain.length % 16 ≠ 0 := by omega
    have hlength : (plain ++ List.replicate (16 - plain.length % 16)
        (UInt8.ofNat (16 - plain.length % 16))).length = 16 * (plain.length / 16 + 1) := by
      rw [List.length_append, List.length_replicate]
      omega
    have hlast : (plain ++ List.replicate (16 - plain.length % 16)
        (UInt8.ofNat (16 - plain.length % 16))).getLast? =
          some (UInt8.ofNat (16 - plain.length % 16)) := by
      rw [List.getLast?_append, List.getLast?_replicate, if_neg hpos]
      rfl
    have hbyte : (UInt8.ofNat (16 - plain.length % 16)).toNat = 16 - plain.length % 16 :=
      UInt8.toNat_ofNat_of_lt' (by change _ < 256; omega)
    refine ⟨hlength, plain, [], ?_, List.append_nil _⟩
    change (if _ % 16 = 0 then _ else none) = _
    rw [if_pos (by rw [hlength]; exact Nat.mul_mod_right ..), hlast, Option.map_some, hbyte,
      List.length_append, List.length_replicate, Nat.add_sub_cancel, List.take_left]
  lz4Compress := by
    rintro message out ⟨⟩
    obtain ⟨lengths, hblock, hlengths⟩ := literalBlock_eq message
    have hout : (literalBlock message).drop (1 + moreLength message.length) = message := by
      rw [hblock, List.drop_left' hlengths]
    refine ⟨⟨⟨[], message.length⟩, ?_, ?_⟩, ?_⟩
    · simp [Lz4Block.content]
    · rw [hblock, List.length_append, hlengths]
      simp [Lz4Block.size]
    · unfold literalKeys
      dsimp only [Function.comp_apply]
      rw [hout, if_pos ⟨rfl, le_rfl⟩]

/-- The wallet of the sender: the private key 1, whose public key hashes to 258. -/
def senderWallet (id : UInt160) : Option Valtype := if id = 258 then some [1] else none

theorem senderWallet_signs (key : Valtype) (h : senderWallet 258 = some key) :
    literalCipher.SignsFor (Crypto.sample []) literalKeys key 258 := by
  cases h
  exact fun hash => ⟨2 :: 1 :: List.replicate 31 0, rfl, by decide, by decide⟩

/-- What is drawn for the example. -/
def sampleDrawn : Ephemeral := ⟨⟨List.replicate 16 7, rfl⟩, [9]⟩

/-- A directory with a key for every address. -/
def sampleDirectory : KeyDirectory := fun _ => some (2 :: List.replicate 32 0)

/-- The address of the recipient. -/
def sampleAddressTo : List Char :=
  Wallet.addressText (Crypto.sample []) literalKeys.fTestNet (.keyID 0 1) 1

/-- Two letters are encrypted for it. -/
def encryptSample (nColor : Int32) : Except Nat SmsgRecord :=
  secureMsgEncrypt (Crypto.sample []) sampleCrypto literalKeys literalCipher senderWallet
    sampleDirectory 6000 sampleDrawn shortMessage
      (senderText (Crypto.sample []) literalKeys.fTestNet (some (258, nColor))) sampleAddressTo
        [104, 105]

/-- An address that is written is a destination. -/
theorem destinationKey_addressText {getKey : UInt160 → Option Valtype} {addrpkdb : KeyDirectory}
    {id : UInt160} {nColor : Int32} {cpkDestK : Valtype} (hcolor : checkColor nColor = true)
    (hkey : addrpkdb ⟨id, nColor⟩ = some cpkDestK) :
    destinationKey K E L getKey addrpkdb
      (Wallet.addressText K E.fTestNet (.keyID id nColor) nColor) = .ok cpkDestK := by
  obtain ⟨coinAddrDest, haccepts, hid⟩ := setString_keyID (K := K) (E := E) id hcolor
  unfold destinationKey
  rw [haccepts]
  dsimp only
  rw [hid]
  dsimp only
  rw [hkey]
  rfl

theorem encryptSample_isOk (nColor : Int32) (hcolor : checkColor nColor = true) :
    ∃ smsg, encryptSample nColor = .ok smsg := by
  obtain ⟨coinAddrFrom, -, hsender⟩ :=
    senderOf_addressText (K := Crypto.sample []) (E := literalKeys) 258 hcolor
  have hdest : destinationKey (Crypto.sample []) literalKeys literalCipher senderWallet
      sampleDirectory sampleAddressTo = .ok (2 :: List.replicate 32 0) :=
    destinationKey_addressText (by decide) rfl
  unfold encryptSample secureMsgEncrypt
  rw [if_neg (by decide), senderText, hsender, hdest]
  exact ⟨_, rfl⟩

/-- A message from an address in the first colour goes there and back. -/
theorem round_trip_first_color : ∃ smsg, encryptSample 1 = .ok smsg ∧
    RoundTrip (Crypto.sample []) sampleCrypto literalKeys literalCipher sampleWallet
      (senderText (Crypto.sample []) literalKeys.fTestNet (some (258, 1))) sampleAddressTo
        [104, 105] smsg := by
  obtain ⟨smsg, hrun⟩ := encryptSample_isOk 1 (by decide)
  refine ⟨smsg, hrun, ?_⟩
  refine (round_trip_iff _ _ _ _ literalCipher_inverts senderWallet sampleWallet sampleDirectory
    6000 sampleDrawn shortMessage smsg [104, 105] (some (258, 1)) ?_ 0 1 (by decide) [1] rfl
    (fun _ _ _ _ h => h) hrun).mpr ⟨rfl, ?_⟩
  · rintro _ _ ⟨⟩
    exact ⟨by decide, senderWallet_signs⟩
  · rintro _ _ ⟨⟩
    rfl

/-- **A message from an address in the second colour is read as from the one in the first.** -/
theorem second_color_lost : ∃ smsg, encryptSample 2 = .ok smsg ∧
    Decrypts (Crypto.sample []) sampleCrypto literalKeys literalCipher sampleWallet
      (senderText (Crypto.sample []) literalKeys.fTestNet (some (258, 1))) sampleAddressTo
        [104, 105] smsg ∧
    ¬ Decrypts (Crypto.sample []) sampleCrypto literalKeys literalCipher sampleWallet
      (senderText (Crypto.sample []) literalKeys.fTestNet (some (258, 2))) sampleAddressTo
        [104, 105] smsg := by
  obtain ⟨smsg, hrun⟩ := encryptSample_isOk 2 (by decide)
  obtain ⟨-, sender, cpkDestK, vchHashed, pMsgData, vchPayload, henc⟩ := secureMsgEncrypt_spec hrun
  have hsentBy := henc.sentBy
  obtain ⟨coinAddrFrom, hversion, hsender⟩ := senderOf_addressText (K := Crypto.sample [])
    (E := literalKeys) 258 (show checkColor 2 = true by decide)
  rw [senderText, hsender] at hsentBy
  cases hsentBy
  have hdecrypts := henc.decrypts_signed literalCipher_inverts hversion senderWallet_signs
    (show checkColor 1 = true by decide) (show sampleWallet 0 = some [1] from rfl) fun _ _ h => h
  refine ⟨smsg, hrun, (hdecrypts _).mpr ⟨rfl, by decide, rfl⟩, fun h => ?_⟩
  have htext := ((hdecrypts _).mp h).2.2
  exact absurd (addressText_color_eq (by decide) htext) (by decide)

end SecMsg

end Breakout
