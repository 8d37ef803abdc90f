/-
# The directory of public keys

To encrypt a message for an address one needs the public key that hashes to it.  The directory has
these, from three sources, and keeps the first record for an address for ever.
`SecureMsgInsertAddress` checks nothing, so that each source has to.

`SecureMsgDecrypt` does: the key that signed must hash to the sender's address.
`SecureMsgAddAddress` means to, but compares the address that it was given with itself.  `ScanBlock`
takes the first push of 33 bytes that is a key, whatever else an input pushes.

`keyed_run_iff` says which runs have the right keys in the directory.
-/
import Breakout.Addresses
import Breakout.Explore
import Breakout.SecMsgReceive

namespace Breakout

open Lib

namespace SecMsg

open Wallet (CBitcoinAddress)

/-! ## 1. The directory -/

/-- `CKeyID`; its colour is part of what a record is found by. -/
structure CKeyID where
  id : UInt160
  nColor : Int32
deriving DecidableEq

/-- The bytes of a `uint160`. -/
def toUInt160 (vch : Valtype) : UInt160 := BitVec.ofNat 160 (leNat vch)

/-- The bytes of a `CPubKey` made from these, `Raw()`; none if it is not valid. -/
def rawPubKey (vch : Valtype) : Valtype := if pubKeyIsValid vch then vch else []

/-- The records `pk` of `SecMsgDB`. -/
abbrev KeyDirectory := CKeyID → Option Valtype

def secureMsgInsertAddress (hashKey : CKeyID) (pubKey : Valtype) (addrpkdb : KeyDirectory) :
    Nat × KeyDirectory :=
  if (addrpkdb hashKey).isSome then (4, addrpkdb)
  else (0, Function.update addrpkdb hashKey (some pubKey))

/-- What the libraries and `CKey` do: `SetPubKey`; `GetPubKey` after `SetPubKey` and
`SetCompressedPubKey`; `GetPubKey` after `SetCompactSignature`.  The colour is that of an address or
a key id that is made without one.  For `SecureMsgDecrypt`: what it returns up to the comparison of
the MAC, the payload as `SecMsgCrypter` decrypts it, whether so many bytes can be had, and LZ4. -/
structure KeyLib where
  fTestNet : Bool
  setPubKey : Valtype → Bool
  getPubKey : Valtype → Run Valtype
  recovered : UInt256 → Valtype → Run Valtype
  nColor : Int32
  checkMac : List Char → Valtype → Valtype → Nat
  decryptPayload : List Char → Valtype → Valtype → Option Valtype
  resizes : UInt32 → Bool
  lz4 : Valtype → Nat → Option Valtype

variable (K : Crypto) (E : KeyLib)

def getKeyID (address : CBitcoinAddress) : Option CKeyID :=
  match address.get E.fTestNet with
  | .keyID id nColor => some ⟨id, nColor⟩
  | _ => none

/-- `pubKey.GetID()` -/
def keyIdOf (pubKey : Valtype) : UInt160 := toUInt160 (hash160 K pubKey)

/-! ## 2. `SecureMsgAddAddress` -/

/-- The key that a text in base 58 is. -/
def textKey (publicKey : List Char) : Valtype := rawPubKey ((decodeBase58 publicKey).getD [])

def secureMsgAddAddress (address publicKey : List Char) (addrpkdb : KeyDirectory) :
    Nat × KeyDirectory :=
  let coinAddress := CBitcoinAddress.ofText K address
  if coinAddress.isValid E.fTestNet = false then (5, addrpkdb)
  else
    match getKeyID E coinAddress with
    | none => (5, addrpkdb)
    | some hashKey =>
      let pubKey := textKey publicKey
      if E.setPubKey pubKey = false then (2, addrpkdb)
      else
        -- "check that public key matches address hash"
        let addressT := CBitcoinAddress.ofText K address
        if addressT.toText K ≠ address then (3, addrpkdb)
        else secureMsgInsertAddress hashKey pubKey addrpkdb

/-! ## 3. `SecureMsgScanBlock` -/

/-- `CBitcoinAddress coinAddress(addressRet)` -/
def addressOf : CTxDestination → CBitcoinAddress
  | .keyID id => .ofDestination E.fTestNet (.keyID (toUInt160 id) E.nColor) E.nColor
  | .scriptID id => .ofDestination E.fTestNet (.scriptID (toUInt160 id) E.nColor) E.nColor

/-- The loop over an input's script: what it inserts when it ends. -/
def scanScript (readDiskTx : UInt256 → Option CTransaction) (txin : CTxIn) :
    Nat → CScript → Run (Option (CKeyID × Valtype))
  | 0, _ => .ok none
  | fuel + 1, script =>
    match getOp script with
    | none => .ok none
    | some (opcode, vch, rest) =>
      -- "opcode is the length of the following data, compressed public key is always 33"
      if opcode ≠ 33 then scanScript readDiskTx txin fuel rest
      else E.getPubKey vch >>= fun pubKey =>
        if !pubKeyIsValid pubKey || pubKey.length ≠ 33 then scanScript readDiskTx txin fuel rest
        else
          match readDiskTx txin.prevout.hash with
          | none => scanScript readDiskTx txin fuel rest
          | some txOfPrevOutput =>
            match txOfPrevOutput.vout[txin.prevout.n.toNat]? with
            | none => scanScript readDiskTx txin fuel rest
            | some txOut =>
              match extractDestination K txOut.scriptPubKey with
              | none => .ok none
              | some addressRet =>
                match getKeyID E (addressOf E addressRet) with
                | none => .ok none
                | some hashKey => .ok (some (hashKey, pubKey))

/-- An input. -/
def scanInput (readDiskTx : UInt256 → Option CTransaction) (addrpkdb : KeyDirectory) (txin : CTxIn) :
    Run KeyDirectory := do
  let found ← scanScript K E readDiskTx txin txin.scriptSig.length txin.scriptSig
  match found with
  | none => return addrpkdb
  | some (hashKey, pubKey) => return (secureMsgInsertAddress hashKey pubKey addrpkdb).2

/-- The inputs of a block's standard transactions: "leave out coinbase and others". -/
def standardInputs (isStandard : CTransaction → Bool) (block : CBlock) : List CTxIn :=
  (block.vtx.filter isStandard).flatMap CTransaction.vin

/-- `SecureMsgScanBlock`: when an exception leaves `ScanBlock`, nothing is committed. -/
def secureMsgScanBlock (isStandard : CTransaction → Bool)
    (readDiskTx : UInt256 → Option CTransaction) (block : CBlock) (addrpkdb : KeyDirectory) :
    Run KeyDirectory :=
  (standardInputs isStandard block).foldlM (scanInput K E readDiskTx) addrpkdb

/-! ## 4. `SecureMsgDecrypt` -/

abbrev smsgPlHdrLen : Nat := 1 + 20 + 65 + 4

/-- `MessageData`, as `SecureMsgDecrypt` fills it in; the text ends with a zero. -/
structure MessageData where
  timestamp : Int64
  sFromAddress : List Char
  vchMessage : Valtype

/-- `LZ4_decompress_safe(src, dst, srcSize, dstCapacity)`: what it returns, and `dst`, of which it
writes nothing past the capacity.  The sizes are `int`s, and a negative capacity is refused at once;
of a negative `srcSize` the first byte is read, and then the end is passed.  -/
def lz4DecompressSafe (src : Ptr) (srcSize dstCapacity : Int32) (dst : Valtype) :
    Run (Int32 × Valtype) :=
  if dstCapacity < 0 then .ok (-1, dst)
  else if srcSize < 0 then src.read 1 >>= fun _ => .ok (-1, dst)
  else do
    let bytes ← src.read srcSize.toNatClampNeg
    match E.lz4 bytes dstCapacity.toNatClampNeg with
    | none => return (-1, dst)
    | some out =>
      let dst ← writeAt dst 0 out
      return (Int32.ofNat out.length, dst)

/-- The text of a message, decompressed if it is long: `vchMessage`, or what is returned.  The
lengths are `uint32_t`s. -/
def plainText (pMsgData : Ptr) (lenData lenPlain : UInt32) : Run (Except Nat Valtype) :=
  if E.resizes (lenPlain + 1) = false then .ok (.error 8)
  else
    let vchMessage := List.replicate (lenPlain + 1).toNat 0
    if lenPlain > 128 then do
      let (rv, vchMessage) ←
        lz4DecompressSafe E pMsgData lenData.toInt32 lenPlain.toInt32 vchMessage
      if rv ≠ lenPlain.toInt32 then return .error 1
      else
        let vchMessage ← writeAt vchMessage lenPlain.toNat [0]
        return .ok vchMessage
    else do
      let bytes ← pMsgData.read lenPlain.toNat
      let vchMessage ← writeAt vchMessage 0 bytes
      let vchMessage ← writeAt vchMessage lenPlain.toNat [0]
      return .ok vchMessage

/-- The sender of a message, by the key that signed it, and the record of that key; or what is
returned. -/
def senderKey (vchPayload vchMessage : Valtype) (addrpkdb : KeyDirectory) :
    Run (Except Nat (List Char) × KeyDirectory) := do
  let vchUint160 ← (⟨vchPayload, 1⟩ : Ptr).read 20
  let ckidFrom : CKeyID := ⟨toUInt160 vchUint160, E.nColor⟩
  let coinAddrFrom := CBitcoinAddress.ofDestination E.fTestNet (.keyID ckidFrom.id E.nColor) E.nColor
  if coinAddrFrom.isValid E.fTestNet = false then return (.error 1, addrpkdb)
  else
    let vchSig ← (⟨vchPayload, 21⟩ : Ptr).read 65
    let cpkFromSig ← E.recovered (K.hash vchMessage.dropLast) vchSig
    if pubKeyIsValid cpkFromSig = false then return (.error 1, addrpkdb)
    else
      let coinAddrFromSig :=
        CBitcoinAddress.ofDestination E.fTestNet (.keyID (keyIdOf K cpkFromSig) E.nColor) E.nColor
      if ¬ (coinAddrFrom.nVersion = coinAddrFromSig.nVersion ∧
          coinAddrFrom.vchData = coinAddrFromSig.vchData) then return (.error 1, addrpkdb)
      else
        return (.ok (coinAddrFrom.toText K),
          (secureMsgInsertAddress ckidFrom cpkFromSig addrpkdb).2)

/-- What `SecureMsgDecrypt` does with the payload it has decrypted: the message, or what is
returned.  The header of a payload is short if there is no sender in it. -/
def readPayload (timestamp : Int64) (vchPayload : Valtype) (addrpkdb : KeyDirectory) :
    Run (Except Nat MessageData × KeyDirectory) := do
  let p : Ptr := ⟨vchPayload, 0⟩
  let first ← p.read 1
  let fFromAnonymous := decide (first = [250])
  let hdrLen := if fFromAnonymous then 9 else smsgPlHdrLen
  let lenData := UInt32.ofNat vchPayload.length - UInt32.ofNat hdrLen
  let lenPlain ← readUInt32 (p.add (hdrLen - 4))
  let plain ← plainText E (p.add hdrLen) lenData lenPlain
  match plain with
  | .error rv => return (.error rv, addrpkdb)
  | .ok vchMessage =>
    if fFromAnonymous then return (.ok ⟨timestamp, "anon".toList, vchMessage⟩, addrpkdb)
    else
      let (from_, addrpkdb) ← senderKey K E vchPayload vchMessage addrpkdb
      match from_ with
      | .error rv => return (.error rv, addrpkdb)
      | .ok sFromAddress => return (.ok ⟨timestamp, sFromAddress, vchMessage⟩, addrpkdb)

/-- `SecureMsgDecrypt`: what it returns, and the directory. -/
def secureMsgDecrypt (fTestOnly : Bool) (address : List Char) (header payload : Valtype)
    (addrpkdb : KeyDirectory) : Run (Nat × KeyDirectory) :=
  if E.checkMac address header payload ≠ 0 then .ok (E.checkMac address header payload, addrpkdb)
  else if fTestOnly then .ok (0, addrpkdb)
  else
    match E.decryptPayload address header payload with
    | none => .ok (1, addrpkdb)
    | some vchPayload => do
      let timestamp ← timestamp ⟨header, 0⟩
      let (msg, addrpkdb) ← readPayload K E timestamp vchPayload addrpkdb
      match msg with
      | .error rv => return (rv, addrpkdb)
      | .ok _ => return (0, addrpkdb)

/-! ## 5. Runs -/

/-- What changes the directory. -/
inductive KeyOp where
  | addAddress (address publicKey : List Char)
  | scanBlock (isStandard : CTransaction → Bool) (readDiskTx : UInt256 → Option CTransaction)
      (block : CBlock)
  | decrypt (fTestOnly : Bool) (address : List Char) (header payload : Valtype)

/-- The directory after an operation; an exception leaves it as it was. -/
def KeyOp.apply (addrpkdb : KeyDirectory) : KeyOp → KeyDirectory
  | addAddress address publicKey => (secureMsgAddAddress K E address publicKey addrpkdb).2
  | scanBlock isStandard readDiskTx block =>
    match secureMsgScanBlock K E isStandard readDiskTx block addrpkdb with
    | .ok addrpkdb' => addrpkdb'
    | .error _ => addrpkdb
  | decrypt fTestOnly address header payload =>
    match secureMsgDecrypt K E fTestOnly address header payload addrpkdb with
    | .ok (_, addrpkdb') => addrpkdb'
    | .error _ => addrpkdb

/-- The directory after a run. -/
def keyRun (ops : List KeyOp) (addrpkdb : KeyDirectory) : KeyDirectory :=
  ops.foldl (KeyOp.apply K E) addrpkdb

/-- Every key hashes to the key id that it is recorded for. -/
def Keyed (addrpkdb : KeyDirectory) : Prop :=
  ∀ hashKey pubKey, addrpkdb hashKey = some pubKey → keyIdOf K pubKey = hashKey.id

/-! ## 6. The first record stays -/

/-- Records are inserted in their order. -/
def insertAll (l : List (CKeyID × Valtype)) (addrpkdb : KeyDirectory) : KeyDirectory :=
  l.foldl (fun d r => (secureMsgInsertAddress r.1 r.2 d).2) addrpkdb

variable {K E} {d : KeyDirectory} {l : List (CKeyID × Valtype)}

theorem secureMsgInsertAddress_apply (hashKey : CKeyID) (pubKey : Valtype) (k : CKeyID) :
    (secureMsgInsertAddress hashKey pubKey d).2 k =
      (d k).or (if k = hashKey then some pubKey else none) := by
  unfold secureMsgInsertAddress
  by_cases hsome : (d hashKey).isSome
  · rw [if_pos hsome]
    split_ifs with hk
    · subst hk
      obtain ⟨found, hfound⟩ := Option.isSome_iff_exists.mp hsome
      rw [hfound, Option.some_or, ← hfound]
    · rw [Option.or_none]
  · rw [if_neg hsome]
    dsimp only
    rw [Function.update_apply]
    split_ifs with hk
    · subst hk
      rw [Option.not_isSome_iff_eq_none.mp hsome, Option.none_or]
    · rw [Option.or_none]

/-- **The first record stays**, and of those that are inserted the first that is for it. -/
theorem insertAll_apply (k : CKeyID) : insertAll l d k = (d k).or (l.lookup k) := by
  induction l generalizing d with
  | nil => exact (Option.or_none).symm
  | cons r l ih =>
    obtain ⟨hashKey, pubKey⟩ := r
    change insertAll l (secureMsgInsertAddress hashKey pubKey d).2 k = _
    rw [ih, secureMsgInsertAddress_apply, Option.or_assoc, List.lookup_cons]
    by_cases hk : k = hashKey
    · rw [if_pos hk, hk, beq_self_eq_true, Option.some_or]
    · rw [if_neg hk, beq_eq_false_iff_ne.mpr hk, Option.none_or]

/-- What is new and first for its key id is right. -/
def FirstRight (K : Crypto) (l : List (CKeyID × Valtype)) (d : KeyDirectory) : Prop :=
  ∀ hashKey pubKey, l.lookup hashKey = some pubKey → d hashKey = none →
    keyIdOf K pubKey = hashKey.id

theorem keyed_insertAll_iff : Keyed K (insertAll l d) ↔ Keyed K d ∧ FirstRight K l d := by
  constructor
  · intro h
    refine ⟨fun hashKey pubKey hrecord => h hashKey pubKey ?_,
      fun hashKey pubKey hfirst hnone => h hashKey pubKey ?_⟩
    · rw [insertAll_apply, hrecord, Option.some_or]
    · rw [insertAll_apply, hnone, Option.none_or, hfirst]
  · rintro ⟨hd, hfirst⟩ hashKey pubKey hrecord
    rw [insertAll_apply] at hrecord
    cases hold : d hashKey with
    | some found =>
      rw [hold, Option.some_or] at hrecord
      exact hd hashKey pubKey (hold.trans hrecord)
    | none =>
      rw [hold, Option.none_or] at hrecord
      exact hfirst hashKey pubKey hrecord hold

/-! ## 7. What each source inserts -/

variable (K E)

/-- The key id and the key of a call that `SecureMsgAddAddress` does not refuse. -/
def givenRecord (address publicKey : List Char) : Option (CKeyID × Valtype) :=
  let coinAddress := CBitcoinAddress.ofText K address
  if coinAddress.isValid E.fTestNet = true ∧ coinAddress.toText K = address ∧
      E.setPubKey (textKey publicKey) = true then
    (getKeyID E coinAddress).map (·, textKey publicKey)
  else none

/-- What the loop over each input finds. -/
def foundKeys (readDiskTx : UInt256 → Option CTransaction) :
    List CTxIn → Run (List (CKeyID × Valtype))
  | [] => .ok []
  | txin :: rest => do
    let found ← scanScript K E readDiskTx txin txin.scriptSig.length txin.scriptSig
    let l ← foundKeys readDiskTx rest
    return found.toList ++ l

/-- A key that is given for an address without a record hashes to its key id, and so does the first
that is found for such an address in a block. -/
def KeyOp.Fits (addrpkdb : KeyDirectory) : KeyOp → Prop
  | addAddress address publicKey => FirstRight K (givenRecord K E address publicKey).toList addrpkdb
  | scanBlock isStandard readDiskTx block =>
    ∀ l, foundKeys K E readDiskTx (standardInputs isStandard block) = .ok l → FirstRight K l addrpkdb
  | decrypt .. => True

/-- Each operation fits the directory that it finds. -/
def RunFits : List KeyOp → KeyDirectory → Prop
  | [], _ => True
  | op :: ops, addrpkdb => op.Fits K E addrpkdb ∧ RunFits ops (op.apply K E addrpkdb)

variable {K E}

theorem secureMsgAddAddress_eq (address publicKey : List Char) :
    (secureMsgAddAddress K E address publicKey d).2 =
      insertAll (givenRecord K E address publicKey).toList d := by
  unfold secureMsgAddAddress givenRecord
  dsimp only
  by_cases hvalid : (CBitcoinAddress.ofText K address).isValid E.fTestNet = true
  · rw [if_neg (by simp [hvalid])]
    cases hkey : getKeyID E (CBitcoinAddress.ofText K address) with
    | none =>
      rw [Option.map_none, ite_self]
      rfl
    | some hashKey =>
      dsimp only
      by_cases hset : E.setPubKey (textKey publicKey) = false
      · rw [if_pos hset, if_neg fun hgiven => absurd hgiven.2.2 (by simp [hset])]
        rfl
      by_cases htext : (CBitcoinAddress.ofText K address).toText K = address
      · rw [if_neg hset, if_neg (not_not.mpr htext),
          if_pos ⟨hvalid, htext, by simpa using hset⟩]
        rfl
      · rw [if_neg hset, if_pos htext, if_neg fun hgiven => htext hgiven.2.1]
        rfl
  · rw [if_pos (by simpa using hvalid), if_neg fun h => hvalid h.1]
    rfl

theorem scanInputs_eq {readDiskTx : UInt256 → Option CTransaction} {inputs : List CTxIn} :
    inputs.foldlM (scanInput K E readDiskTx) d =
      foundKeys K E readDiskTx inputs >>= fun l => .ok (insertAll l d) := by
  induction inputs generalizing d with
  | nil => rfl
  | cons txin rest ih =>
    rw [List.foldlM_cons, foundKeys]
    unfold scanInput
    cases scanScript K E readDiskTx txin txin.scriptSig.length txin.scriptSig with
    | error e => rfl
    | ok found =>
      cases found with
      | none =>
        refine ih.trans ?_
        cases foundKeys K E readDiskTx rest <;> rfl
      | some r =>
        refine ih.trans ?_
        cases foundKeys K E readDiskTx rest <;> rfl

variable {vchPayload pubKey : Valtype} {d' : KeyDirectory}

/-- **The sender's key is checked**: what is inserted hashes to the key id it is inserted for. -/
theorem senderKey_cases {vchMessage : Valtype} {r : Except Nat (List Char)}
    (h : senderKey K E vchPayload vchMessage d = .ok (r, d')) :
    d' = d ∨ ∃ hashKey pubKey, keyIdOf K pubKey = hashKey.id ∧
      d' = insertAll [(hashKey, pubKey)] d := by
  unfold senderKey at h
  obtain ⟨vchUint160, -, h⟩ := bind_eq_ok.mp h
  dsimp only at h
  split at h
  · cases h
    exact Or.inl rfl
  · obtain ⟨vchSig, -, h⟩ := bind_eq_ok.mp h
    obtain ⟨cpkFromSig, -, h⟩ := bind_eq_ok.mp h
    split at h
    · cases h
      exact Or.inl rfl
    · split at h
      · cases h
        exact Or.inl rfl
      · next hsame =>
        cases h
        refine Or.inr ⟨⟨toUInt160 vchUint160, E.nColor⟩, cpkFromSig, ?_, rfl⟩
        -- the two addresses have the same twenty bytes
        have hbytes := (not_not.mp hsame).2
        have hid := congrArg (fun vch => BitVec.ofNat 160 (leNat vch)) hbytes
        exact ((Wallet.leNat_id _).symm.trans (hid.trans (Wallet.leNat_id _))).symm

theorem readPayload_cases {timestamp : Int64} {r : Except Nat MessageData}
    (h : readPayload K E timestamp vchPayload d = .ok (r, d')) :
    d' = d ∨ ∃ hashKey pubKey, keyIdOf K pubKey = hashKey.id ∧
      d' = insertAll [(hashKey, pubKey)] d := by
  unfold readPayload at h
  obtain ⟨first, -, h⟩ := bind_eq_ok.mp h
  obtain ⟨lenPlain, -, h⟩ := bind_eq_ok.mp h
  obtain ⟨plain, -, h⟩ := bind_eq_ok.mp h
  split at h
  · cases h
    exact Or.inl rfl
  · split at h
    · cases h
      exact Or.inl rfl
    · obtain ⟨⟨from_, d₁⟩, hsender, h⟩ := bind_eq_ok.mp h
      dsimp only at h
      cases from_ with
      | error rv =>
        cases h
        exact senderKey_cases hsender
      | ok sFromAddress =>
        cases h
        exact senderKey_cases hsender

theorem secureMsgDecrypt_cases {fTestOnly : Bool} {address : List Char} {header payload : Valtype}
    {rv : Nat} (h : secureMsgDecrypt K E fTestOnly address header payload d = .ok (rv, d')) :
    d' = d ∨ ∃ hashKey pubKey, keyIdOf K pubKey = hashKey.id ∧
      d' = insertAll [(hashKey, pubKey)] d := by
  unfold secureMsgDecrypt at h
  split at h
  · cases h
    exact Or.inl rfl
  split at h
  · cases h
    exact Or.inl rfl
  split at h
  · cases h
    exact Or.inl rfl
  · obtain ⟨timestamp, -, h⟩ := bind_eq_ok.mp h
    obtain ⟨⟨msg, d₁⟩, hread, h⟩ := bind_eq_ok.mp h
    dsimp only at h
    cases msg with
    | error rv =>
      cases h
      exact readPayload_cases hread
    | ok msg =>
      cases h
      exact readPayload_cases hread

/-! ## 8. The theorem -/

theorem firstRight_nil : FirstRight K [] d := by
  intro hashKey pubKey hfirst
  cases hfirst

theorem firstRight_singleton {hashKey : CKeyID} (h : keyIdOf K pubKey = hashKey.id) :
    FirstRight K [(hashKey, pubKey)] d := by
  intro k found hfirst _
  rw [List.lookup_cons] at hfirst
  split at hfirst
  · next hk =>
    cases hfirst
    rw [beq_iff_eq.mp hk]
    exact h
  · cases hfirst

/-- What an operation inserts is right exactly if it fits. -/
theorem KeyOp.apply_eq (op : KeyOp) :
    ∃ l, op.apply K E d = insertAll l d ∧ (FirstRight K l d ↔ op.Fits K E d) := by
  cases op with
  | addAddress address publicKey => exact ⟨_, secureMsgAddAddress_eq address publicKey, Iff.rfl⟩
  | scanBlock isStandard readDiskTx block =>
    dsimp only [KeyOp.apply, KeyOp.Fits]
    unfold secureMsgScanBlock
    rw [scanInputs_eq]
    cases foundKeys K E readDiskTx (standardInputs isStandard block) with
    | error e => exact ⟨[], rfl, iff_of_true firstRight_nil fun l hl => by cases hl⟩
    | ok l =>
      refine ⟨l, rfl, fun hl l' hl' => ?_, fun h => h l rfl⟩
      cases hl'
      exact hl
  | decrypt fTestOnly address header payload =>
    dsimp only [KeyOp.apply, KeyOp.Fits]
    cases hdecrypt : secureMsgDecrypt K E fTestOnly address header payload d with
    | error e => exact ⟨[], rfl, iff_of_true firstRight_nil trivial⟩
    | ok r =>
      obtain ⟨rv, d'⟩ := r
      rcases secureMsgDecrypt_cases hdecrypt with rfl | ⟨hashKey, pubKey, hright, rfl⟩
      · exact ⟨[], rfl, iff_of_true firstRight_nil trivial⟩
      · exact ⟨_, rfl, iff_of_true (firstRight_singleton hright) trivial⟩

/-- **When an operation keeps the directory right.** -/
theorem keyed_apply_iff (op : KeyOp) : Keyed K (op.apply K E d) ↔ Keyed K d ∧ op.Fits K E d := by
  obtain ⟨l, heq, hfits⟩ := op.apply_eq (K := K) (E := E) (d := d)
  rw [heq, keyed_insertAll_iff, hfits]

theorem keyed_foldl_iff : ∀ {ops : List KeyOp} {d : KeyDirectory},
    Keyed K (keyRun K E ops d) ↔ Keyed K d ∧ RunFits K E ops d
  | [], _ => (and_iff_left trivial).symm
  | op :: ops, d => by
    rw [keyRun, List.foldl_cons, RunFits, ← and_assoc, ← keyed_apply_iff]
    exact keyed_foldl_iff

/-- **When the keys are right**: after a run, every key in the directory hashes to the key id of its
record exactly if each operation fits the directory that it finds. -/
theorem keyed_run_iff (K : Crypto) (E : KeyLib) (ops : List KeyOp) :
    Keyed K (keyRun K E ops fun _ => none) ↔ RunFits K E ops fun _ => none := by
  rw [keyed_foldl_iff, and_iff_right]
  intro hashKey pubKey hrecord
  cases hrecord

/-! ## 9. A key that is not the address's -/

/-- **Any key is entered for any address** without a record: the address of a key id in a valid
colour, and any key that `SetPubKey` takes. -/
theorem secureMsgAddAddress_any {id : UInt160} {nColor : Int32} (hcolor : checkColor nColor = true)
    (hvalid : pubKeyIsValid pubKey = true) (hset : E.setPubKey pubKey = true)
    (hnone : d ⟨id, nColor⟩ = none) :
    secureMsgAddAddress K E (Wallet.addressText K E.fTestNet (.keyID id nColor) nColor)
        (encodeBase58 pubKey) d = (0, Function.update d ⟨id, nColor⟩ (some pubKey)) := by
  have hversion : (if E.fTestNet then (6 : UInt8) else 19) ∈ [(19 : UInt8), 1, 6, 4] := by
    cases E.fTestNet <;> decide
  have hback := Wallet.ofText_toText (K := K) hversion (length_leBytes 20 id.toNat) hcolor
  have haddress : CBitcoinAddress.isValid E.fTestNet
      ⟨if E.fTestNet then 6 else 19, leBytes 20 id.toNat, nColor⟩ = true :=
    Wallet.isValid_of_checkColor (by cases E.fTestNet <;> decide) (length_leBytes ..) hcolor
  have hget : CBitcoinAddress.get E.fTestNet
      ⟨if E.fTestNet then 6 else 19, leBytes 20 id.toNat, nColor⟩ = .keyID id nColor := by
    have htext : Wallet.textAddress K E.fTestNet
        (Wallet.addressText K E.fTestNet (.keyID id nColor) nColor) = .keyID id nColor :=
      Wallet.textAddress_addressText hcolor
    rwa [Wallet.textAddress, Wallet.addressText, CBitcoinAddress.ofDestination, hback] at htext
  have hkey : textKey (encodeBase58 pubKey) = pubKey := by
    rw [textKey, decodeBase58_encodeBase58, Option.getD_some, rawPubKey, if_pos hvalid]
  unfold secureMsgAddAddress getKeyID Wallet.addressText CBitcoinAddress.ofDestination
  dsimp only
  rw [hback, if_neg (by simp [haddress]), hget]
  dsimp only
  rw [hkey, if_neg (by simp [hset]), if_neg (not_not.mpr rfl), secureMsgInsertAddress, hnone,
    if_neg (by simp)]

/-- A library in which every key is one. -/
def sampleKeyLib : KeyLib where
  fTestNet := false
  setPubKey _ := true
  getPubKey vch := .ok vch
  recovered _ _ := .error (.throw "CKey::GetPubKey() : i2o_ECPublicKey failed")
  nColor := 1
  checkMac _ _ _ := 1
  decryptPayload _ _ _ := none
  resizes _ := true
  lz4 _ _ := none

/-- A compressed key. -/
def foreignKey : Valtype := 2 :: List.replicate 32 7

/-- The address of the key id zero, and a key of someone else. -/
def foreignAdd : KeyOp :=
  .addAddress (Wallet.addressText (Crypto.sample []) false (.keyID 0 1) 1) (encodeBase58 foreignKey)

/-- **A key that does not hash to the address is entered for it.** -/
theorem foreign_key_added :
    ¬ Keyed (Crypto.sample []) (keyRun (Crypto.sample []) sampleKeyLib [foreignAdd] fun _ => none) := by
  have hadded : secureMsgAddAddress (Crypto.sample []) sampleKeyLib
      (Wallet.addressText (Crypto.sample []) sampleKeyLib.fTestNet (.keyID 0 1) 1)
      (encodeBase58 foreignKey) (fun _ => none) =
        (0, Function.update (fun _ => none) ⟨0, 1⟩ (some foreignKey)) :=
    secureMsgAddAddress_any (by decide) (by decide) rfl rfl
  have hrun : keyRun (Crypto.sample []) sampleKeyLib [foreignAdd] (fun _ => none) =
      Function.update (fun _ => none) ⟨0, 1⟩ (some foreignKey) := congrArg Prod.snd hadded
  intro h
  rw [hrun] at h
  exact absurd (h ⟨0, 1⟩ foreignKey (Function.update_self ..)) (by decide)

end SecMsg

end Breakout
