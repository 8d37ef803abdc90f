/-
# Blocks: hash, work, signature, and `CheckBlock`

A block's id is one of three hashes of its header, by the fork its time falls in and by its
version: the double SHA-256 of the serialised header, scrypt of the eighty classic bytes, or
ProgPoW with the header's own mix hash.  `CheckBlock` is the check a node makes before it
keeps a block, and again when it connects one.

`CheckBlock` takes the transaction store as an argument because one path of the block signature
check reads the staked output from it.
-/
import Breakout.Lib.Merkle
import Breakout.CheckTransaction
import Breakout.Interpreter
import Breakout.TxIndex

namespace Breakout

open Lib

variable (K : Crypto)

/-! ## 1. Headers and ids -/

structure CBlock where
  nVersion : Int32
  hashPrevBlock : UInt256
  hashMerkleRoot : UInt256
  nTime : UInt32
  nBits : UInt32
  nNonce : UInt32
  nHeight : UInt32
  nNonce64 : UInt64
  mixHash : UInt256
  vtx : List CTransaction
  vchBlockSig : Valtype
deriving DecidableEq

namespace CBlock

def kawpowVersion : Int32 := 7

def genesisVersion : Int32 := 6

def currentVersion : Int32 := kawpowVersion

/-- The version `SetNull(nVersionIn)` gives a block. -/
def defaultVersion (nAdjustedTime : Nat) (nVersionIn : Int32) : Int32 :=
  if nVersionIn > 0 then nVersionIn
  else if getFork nAdjustedTime < .fork007 then genesisVersion
  else currentVersion

def isKawpowBlock (block : CBlock) : Bool := block.nVersion == kawpowVersion

/-- The header fields every version has, before the nonce. -/
def commonHeader (block : CBlock) : List UInt8 :=
  serInt32 block.nVersion ++ (serUInt256 block.hashPrevBlock ++
    (serUInt256 block.hashMerkleRoot ++ (serUInt32 block.nTime ++ serUInt32 block.nBits)))

/-- The eighty bytes from `nVersion` on, as they lie in memory. -/
def classicHeader (block : CBlock) : List UInt8 := block.commonHeader ++ serUInt32 block.nNonce

/-- The serialised header. -/
def serializeHeader (block : CBlock) : List UInt8 :=
  if block.nVersion < kawpowVersion then block.classicHeader
  else block.commonHeader ++ (serUInt32 block.nHeight ++
    (leBytes 8 block.nNonce64.toNat ++ serUInt256 block.mixHash))

/-- The serialised block. -/
def serialize (block : CBlock) : List UInt8 :=
  block.serializeHeader ++ (encVec CTransaction.serialize block.vtx ++ serBytes block.vchBlockSig)

/-- `CBlock::GetKAWPOWHeaderHash`: the hash of a `CKAWPOWInput`. -/
def getKAWPOWHeaderHash (block : CBlock) : UInt256 :=
  K.hash (block.commonHeader ++ serUInt32 block.nHeight)

/-- `KAWPOWHash_OnlyMix` -/
def kawpowHashOnlyMix (block : CBlock) : UInt256 :=
  K.progpowNoVerify block.nHeight.toNat (block.getKAWPOWHeaderHash K) block.mixHash block.nNonce64

def getHash (block : CBlock) : Run UInt256 :=
  if getFork block.nTime.toNat < .fork003 then .ok (K.hash block.serializeHeader)
  else if block.isKawpowBlock = false then .ok (K.scryptBlockhash block.classicHeader)
  else if block.mixHash = 0 then .error (.throw "CBlock::GetHash(): TSNH mix_hash is null")
  else .ok (block.kawpowHashOnlyMix K)

def isProofOfStake (block : CBlock) : Bool :=
  match block.vtx with
  | _ :: tx1 :: _ => tx1.isCoinStake
  | _ => false

/-- `CBlock::BuildMerkleTree`, the root it returns. -/
def buildMerkleTree (block : CBlock) : UInt256 :=
  (merkleRoot (fun a b => K.hash (serUInt256 a ++ serUInt256 b))
    (block.vtx.map (·.getHash K))).getD 0

end CBlock

/-! ## 2. Work -/

def setCompact (nCompact : UInt32) : Int :=
  let n := nCompact.toNat
  let nSize := n / 2 ^ 24
  let mantissa := n % 2 ^ 23
  let magnitude : Nat :=
    if nSize ≤ 3 then mantissa / 256 ^ (3 - nSize) else mantissa * 256 ^ (nSize - 3)
  if n / 2 ^ 23 % 2 = 1 ∧ 1 ≤ nSize then -(magnitude : Int) else magnitude

/-- `GetTargetLimit` for proof of work. -/
def powTargetLimit (fTestNet : Bool) (nTime : Nat) : Int :=
  if getFork nTime < .fork007 then (if fTestNet then 2 ^ 232 - 1 else 2 ^ 230 - 1)
  else (if fTestNet then 2 ^ 248 - 1 else 2 ^ 244 - 1)

/-- `BRK_GENESIS_TIME` -/
def genesisTime : Nat := 1465544351
/-- `nKAWPOWActivationTime` -/
def kawpowActivationTime : Nat := 1777836782

def checkSHA256ProofOfWork (fTestNet : Bool) (hash : UInt256) (nBits : UInt32) : Bool :=
  let bnTarget := setCompact nBits
  decide (0 < bnTarget ∧ bnTarget ≤ powTargetLimit fTestNet genesisTime) &&
    decide ((hash.toNat : Int) ≤ bnTarget)

def checkKawpowProofOfWork (fTestNet : Bool) (block : CBlock) : Run Bool :=
  let bnTarget := setCompact block.nBits
  if bnTarget ≤ 0 ∨ bnTarget > powTargetLimit fTestNet kawpowActivationTime then .ok false
  else if block.mixHash = 0 then .error (.throw "CBlock::GetHash(): TSNH mix_hash is null")
  else .ok (decide (((block.kawpowHashOnlyMix K).toNat : Int) ≤ bnTarget))

def checkProofOfWork (fTestNet : Bool) (hash : UInt256) (block : CBlock) : Run Bool :=
  if block.isKawpowBlock then checkKawpowProofOfWork K fTestNet block
  else .ok (checkSHA256ProofOfWork fTestNet hash block.nBits)

/-! ## 3. The block signature -/

inductive BlockSigStatus where
  | sigOk | powSigNotEmpty | posSigIsEmpty | txUnreadable | txPrevVoutTooSmall | solverFailed
  | prevoutNotTxPubkey | verifyFailed | pubkeyExtractFailed | scriptGetopFailed | notOpReturn
  | notCompressedPubkey
deriving DecidableEq, Repr

inductive ScriptSigType where
  | p2pk | p2pkh | unknown
deriving DecidableEq, Repr

def getScriptSigType (scriptSig : CScript) : ScriptSigType :=
  match getOp scriptSig with
  | none => .unknown
  | some (_, vchSig, pc) =>
    if checkSignatureEncoding vchSig 0 = false then .unknown
    else if pc = [] then .p2pk
    else
      match getOp pc with
      | none => .unknown
      | some (_, vchPubKey, pc) =>
        if pc ≠ [] then .unknown
        else if vchPubKey.length = 33 ∨ vchPubKey.length = 65 then .p2pkh
        else .unknown

/-- The items a push-only script pushes, first to last; `none` when it is not push-only. -/
def pushedItems : Nat → CScript → Option (List Valtype)
  | 0, _ => some []
  | fuel + 1, s =>
    if s = [] then some []
    else
      match getOp s with
      | none => none
      | some (opcode, vch, rest) =>
        if opcode > op16 then none else (pushedItems fuel rest).map (vch :: ·)

def getPubKeyFromP2PKH (sig : CScript) : Option Valtype :=
  match pushedItems sig.length sig with
  | some [_, vchPubkey] =>
    if vchPubkey.length ≠ 33 ∧ vchPubkey.length ≠ 65 then none else some vchPubkey
  | _ => none

/-- What a node holds of its best chain: the transaction index and the block files. -/
structure TxStore where
  txdb : TxDB
  disk : Disk

/-- The block signature against one public key. -/
def verifyBlockSig (block : CBlock) (vchPubKey : Valtype) : Run BlockSigStatus := do
  let hash ← block.getHash K
  return if pubKeyVerify K vchPubKey hash block.vchBlockSig then .sigOk else .verifyFailed

/-- From the seventh fork on, a coinstake that spends a pay-to-pubkey output: the key is that of
the previous output, which has to be read from the store. -/
def checkSigP2PK (st : TxStore) (block : CBlock) (txin : CTxIn) : Run BlockSigStatus :=
  match readFromDisk st.txdb st.disk txin.prevout with
  | none => .ok .txUnreadable
  | some (txPrev, _) =>
    match txPrev.vout[txin.prevout.n.toNat]? with
    | none => .ok .txPrevVoutTooSmall
    | some prevout =>
      match solver prevout.scriptPubKey with
      | (false, _, _) => .ok .solverFailed
      | (true, .pubkey, vchPubKey :: _) => verifyBlockSig K block vchPubKey
      | (true, _, _) => .ok .prevoutNotTxPubkey

/-- The key in the second output of the coinstake: pay-to-pubkey, or a push after `OP_RETURN`. -/
def checkSigVout1 (block : CBlock) (script : CScript) : Run BlockSigStatus :=
  match solver script with
  | (false, _, _) => .ok .solverFailed
  | (true, .pubkey, vchPubKey :: _) => verifyBlockSig K block vchPubKey
  | (true, _, _) =>
    match getOp script with
    | none => .ok .scriptGetopFailed
    | some (opcode, _, pc) =>
      if opcode ≠ opReturn then .ok .notOpReturn
      else
        match getOp pc with
        | none => .ok .scriptGetopFailed
        | some (_, vchPushValue, _) =>
          if isCompressedOrUncompressedPubKey vchPushValue = false then .ok .notCompressedPubkey
          else verifyBlockSig K block vchPushValue

/-- The signature check of a coinstake with first input `txin` and second output `out1`. -/
def checkSigCoinStake (st : TxStore) (block : CBlock) (txin : CTxIn) (out1 : CTxOut) :
    Run BlockSigStatus :=
  if Fork.fork007 ≤ getFork block.nTime.toNat then
    match getScriptSigType txin.scriptSig with
    | .p2pk => checkSigP2PK K st block txin
    | .p2pkh =>
      match getPubKeyFromP2PKH txin.scriptSig with
      | some vchPubKey => verifyBlockSig K block vchPubKey
      | none => .ok .pubkeyExtractFailed
    | .unknown => checkSigVout1 K block out1.scriptPubKey
  else checkSigVout1 K block out1.scriptPubKey

/-- `CBlock::CheckBlockSignature`, the code it returns. -/
def checkBlockSignature (st : TxStore) (block : CBlock) : Run BlockSigStatus :=
  if block.isProofOfStake = false then
    .ok (if block.vchBlockSig = [] then .sigOk else .powSigNotEmpty)
  else if block.vchBlockSig = [] then .ok .posSigIsEmpty
  else
    match block.vtx with
    | _ :: ⟨_, _, txin :: _, _ :: out1 :: _, _, _, _⟩ :: _ => checkSigCoinStake K st block txin out1
    | _ => .error (.oob 1)

/-! ## 4. `CheckBlock` -/

/-- What the checks read besides the block: the network and the adjusted clock. -/
structure Clock where
  fTestNet : Bool
  nAdjustedTime : Nat

def maxBlockSigops : Nat := maxBlockSize / 50

def checkCoinStakeTimestamp (fTestNet : Bool) (nTimeBlock nTimeTx : Nat) : Bool :=
  decide (nTimeBlock = nTimeTx ∧ nTimeTx &&& getStakeTimestampMask fTestNet = 0)

/-- "Check proof of work matches claimed amount" -/
def checkWork (clock : Clock) (block : CBlock) (fCheckPOW : Bool) : Run Unit :=
  if fCheckPOW && !block.isProofOfStake then do
    let hash ← block.getHash K
    let fOk ← checkProofOfWork K clock.fTestNet hash block
    refuse (fOk = false) 50 "CheckBlock() : proof of work failed"
  else .ok ()

/-- The block signature as `CheckBlock` sees it; an unreadable previous transaction costs the
sender less. -/
def checkStakeSig (st : TxStore) (block : CBlock) (fCheckSig : Bool) : Run Unit :=
  if fCheckSig then do
    let code ← checkBlockSignature K st block
    refuse (code ≠ .sigOk) (if code = .txUnreadable then 5 else 100)
      "CheckBlock() : bad proof-of-stake block signature"
  else .ok ()

/-- The checks only a proof-of-stake block gets. -/
def checkStake (clock : Clock) (st : TxStore) (block : CBlock) (fCheckSig : Bool) : Run Unit :=
  if block.isProofOfStake then do
    let times := block.vtx.map fun tx => tx.nTime.toNat
    refuse (∃ tx ∈ block.vtx.drop 2, tx.isCoinStake = true) 100
      "CheckBlock() : more than one coinstake"
    refuse (checkCoinStakeTimestamp clock.fTestNet block.nTime.toNat (times.getD 0 0) = false) 50
      "CheckBlock() : coinmint timestamp violation"
    refuse (checkCoinStakeTimestamp clock.fTestNet block.nTime.toNat (times.getD 1 0) = false) 50
      "CheckBlock() : coinstake timestamp violation"
    checkStakeSig K st block fCheckSig
  else .ok ()

/-- A failed `CheckTransaction` as `CheckBlock` reports it: the transaction's own score. -/
def relayCheck : Run Unit → Run Unit
  | .error (.reject nDoS _) => .error (.reject nDoS "CheckBlock() : CheckTransaction failed")
  | r => r

/-- The loop over the transactions. -/
def checkTransactions (clock : Clock) (nBlockTime : Nat) : List CTransaction → Run Unit
  | [] => .ok ()
  | tx :: vtx => do
    relayCheck (checkTransaction clock.fTestNet clock.nAdjustedTime tx)
    refuse (nBlockTime < tx.nTime.toNat) 50
      "CheckBlock() : block timestamp earlier than transaction timestamp"
    checkTransactions clock nBlockTime vtx

def checkBlock (clock : Clock) (st : TxStore) (block : CBlock)
    (fCheckPOW fCheckMerkleRoot fCheckSig : Bool) : Run Unit := do
  refuse (block.vtx = [] ∨ block.vtx.length > maxBlockSize ∨
    block.serialize.length > maxBlockSize) 100 "CheckBlock() : size limits failed"
  checkWork K clock block fCheckPOW
  refuse (block.nTime.toNat > futureDrift clock.fTestNet clock.nAdjustedTime) 0
    "CheckBlock() : block timestamp too far in the future"
  refuse (¬ ∃ tx ∈ block.vtx.head?, tx.isCoinBase = true) 100
    "CheckBlock() : first tx is not coinbase"
  refuse (∃ tx ∈ block.vtx.tail, tx.isCoinBase = true) 100
    "CheckBlock() : more than one coinbase"
  refuse (∃ tx ∈ block.vtx.head?, block.nTime.toNat > futureDrift clock.fTestNet tx.nTime.toNat)
    50 "CheckBlock() : coinbase timestamp is too early for block"
  checkStake K clock st block fCheckSig
  checkTransactions clock block.nTime.toNat block.vtx
  refuse (¬ (block.vtx.map (·.getHash K)).Nodup) 100 "CheckBlock() : duplicate transaction"
  refuse ((block.vtx.map (·.getLegacySigOpCount)).sum > maxBlockSigops) 100
    "CheckBlock() : out-of-bounds SigOpCount"
  refuse (fCheckMerkleRoot ∧ block.hashMerkleRoot ≠ block.buildMerkleTree K) 100
    "CheckBlock() : hashMerkleRoot mismatch"

/-! ## 5. What a checked block satisfies -/

/-- What `CheckBlock` establishes, whichever of its optional checks are made. -/
structure CheckedBlock (clock : Clock) (block : CBlock) : Prop where
  size_le : block.serialize.length ≤ maxBlockSize
  coinbase_first : ∃ coinbase rest, block.vtx = coinbase :: rest ∧ coinbase.isCoinBase = true ∧
    (∀ tx ∈ rest, tx.isCoinBase = false) ∧
    block.nTime.toNat ≤ futureDrift clock.fTestNet coinbase.nTime.toNat
  coinstake_second : block.isProofOfStake = true → ∀ tx ∈ block.vtx.drop 2, tx.isCoinStake = false
  checked : ∀ tx ∈ block.vtx, CheckedTx tx ∧ tx.nTime.toNat ≤ block.nTime.toNat
  txids_nodup : (block.vtx.map (·.getHash K)).Nodup

variable {K}

theorem relayCheck_eq_ok {r : Run Unit} {u : Unit} : relayCheck r = .ok u ↔ r = .ok u := by
  match r with
  | .ok _ => rfl
  | .error (.reject _ _) => simp [relayCheck]
  | .error (.throw _) => simp [relayCheck]
  | .error (.oob _) => simp [relayCheck]

theorem checkTransactions_spec {clock : Clock} {nBlockTime : Nat} :
    ∀ {vtx : List CTransaction}, checkTransactions clock nBlockTime vtx = .ok () →
      ∀ tx ∈ vtx, CheckedTx tx ∧ tx.nTime.toNat ≤ nBlockTime
  | [], _, tx, htx => by cases htx
  | tx :: vtx, h, tx', htx' => by
    simp only [checkTransactions, bind_eq_ok, refuse_eq_ok, relayCheck_eq_ok] at h
    obtain ⟨_, hcheck, -, htime, hrest⟩ := h
    rcases List.mem_cons.mp htx' with rfl | htx'
    · exact ⟨checkTransaction_spec hcheck, not_lt.mp htime⟩
    · exact checkTransactions_spec hrest tx' htx'

theorem checkBlock_spec {clock : Clock} {st : TxStore} {block : CBlock} {fPOW fMerkle fSig : Bool}
    (h : checkBlock K clock st block fPOW fMerkle fSig = .ok ()) :
    CheckedBlock K clock block := by
  simp only [checkBlock, bind_eq_ok, refuse_eq_ok] at h
  obtain ⟨-, hsize, -, -, -, -, -, hcb, -, hcbs, -, htime, _, hstake, _, htxs, -, hnd, -⟩ := h
  simp only [not_or, not_lt] at hsize
  cases hv : block.vtx with
  | nil => exact absurd hv hsize.1
  | cons coinbase rest =>
    simp only [hv, List.head?_cons, Option.mem_some_iff, not_not, exists_eq_left'] at hcb
    simp only [hv, List.head?_cons, List.tail_cons, Option.mem_some_iff, exists_eq_left',
      not_exists, not_and, Bool.not_eq_true, not_lt] at hcbs htime
    refine ⟨hsize.2.2, ⟨coinbase, rest, hv, hcb, hcbs, htime⟩, ?_, checkTransactions_spec htxs,
      not_not.mp hnd⟩
    intro hpos tx htx
    simp only [checkStake, hpos, if_true, bind_eq_ok, refuse_eq_ok] at hstake
    obtain ⟨-, hcs, -⟩ := hstake
    simp only [not_exists, not_and, Bool.not_eq_true] at hcs
    exact hcs tx htx

end Breakout
