/-
# `AcceptBlock`

The checks a block gets once its parent is known, in the order of the source: its times, the target
it claims, its transactions, the proof of stake, and the height in its coinbase.  The proof of work
is not among them ("PoW is checked in CheckBlock()").  A block that passes is written to the block
file and indexed, and its pointer is its own from then on.

What a node reads besides the tree of blocks is in `AcceptEnv`: the clock, what its database and
block files hold, the stake modifiers of the indices, and whether the disk has room.
-/
import Breakout.Retarget
import Breakout.Headers

namespace Breakout

open Lib

variable (K : Crypto)

/-! ## 1. Small checks -/

def lockTimeThreshold : Nat := 500000000

/-- `nLaunchTime` -/
def launchTime : Nat := 1465542000

def CTxIn.isFinal (txin : CTxIn) : Bool := txin.nSequence == 0xffffffff

/-- `CTransaction::IsFinal`; zero stands for the node's own height and time. -/
def CTransaction.isFinal (nBestHeight : Int) (nAdjustedTime : Nat) (tx : CTransaction)
    (nBlockHeight : Int) (nBlockTime : Nat) : Bool :=
  let height := if nBlockHeight = 0 then nBestHeight else nBlockHeight
  let time := if nBlockTime = 0 then nAdjustedTime else nBlockTime
  tx.nLockTime == 0 ||
    decide ((tx.nLockTime.toNat : Int) <
      if tx.nLockTime.toNat < lockTimeThreshold then height else (time : Int)) ||
    tx.vin.all (·.isFinal)

/-- `CScript() << n` for a number that is not negative. -/
def scriptInt (n : Nat) : CScript :=
  if 1 ≤ n ∧ n ≤ 16 then [UInt8.ofNat (n + 0x50)]
  else pushData (leBytes (if n = 0 then 0 else Nat.size n / 8 + 1) n)

/-- `Checkpoints::CheckHardened`: the genesis block is the only hardened checkpoint. -/
def checkHardened (hashGenesisBlock : UInt256) (nHeight : Nat) (hash : UInt256) : Bool :=
  decide (nHeight = 0 → hash = hashGenesisBlock)

/-- `vtx[i]` -/
def CBlock.txAt (block : CBlock) (i : Nat) : Run CTransaction :=
  match block.vtx[i]? with
  | some tx => .ok tx
  | none => .error (.oob i)

/-- `vin[0]` -/
def CTransaction.firstIn (tx : CTransaction) : Run CTxIn :=
  match tx.vin with
  | txin :: _ => .ok txin
  | [] => .error (.oob 0)

theorem txAt_zero_eq_ok {block : CBlock} {tx : CTransaction} :
    block.txAt 0 = .ok tx ↔ block.vtx.head? = some tx := by
  unfold CBlock.txAt
  cases block.vtx with
  | nil => simp
  | cons t vtx => simp

theorem firstIn_eq_ok {tx : CTransaction} {txin : CTxIn} :
    tx.firstIn = .ok txin ↔ tx.vin.head? = some txin := by
  unfold CTransaction.firstIn
  cases tx.vin with
  | nil => simp
  | cons t vin => simp

/-! ## 2. The node around a block -/

/-- What `CheckProofOfStake` reads of an index: its place, height and time.  It does not look at the
counters. -/
def BlockPtr.stakeIndex (p : BlockPtr) : CBlockIndex where
  nFile := p.top.pos.nFile
  nBlockPos := p.top.pos.nBlockPos
  nHeight := p.height
  nTime := p.top.block.nTime
  nVersion := p.top.block.nVersion
  vTotalMint _ := 0
  vMoneySupply _ := 0
  vCoinbase _ := 0
  nStakeColor := Color.none.toInt32
  nCoinbaseColor := Color.none.toInt32

variable {DB E : Type}

/-- What a node reads while it accepts a block, besides the tree of blocks.  `hasBlock` tells where
`CBlock::ReadFromDisk` succeeds, `writeToDisk` where the block file has room for a block, and
`modifierOk` whether the stake modifier on top of an index can be computed and passes its
checkpoints. -/
structure AcceptEnv (DB E : Type) where
  clock : Clock
  hashGenesisBlock : UInt256
  ops : BlockOps DB E
  store : DB → TxStore
  hasBlock : DB → UInt32 → UInt32 → Bool
  bnStakeModifier : BlockPtr → UInt256
  modifierOk : BlockPtr → Bool
  checkDiskSpace : CBlock → Bool
  writeToDisk : CBlock → Option DiskBlockPos
  isInitialBlockDownload : Node DB E → Bool

/-- The node as `CheckProofOfStake` sees it on top of `pindexPrev`. -/
def AcceptEnv.stakeNode (env : AcceptEnv DB E) (db : DB) (pindexPrev : BlockPtr) : StakeNode where
  store := env.store db
  hasBlock := env.hasBlock db
  pindexPrev := pindexPrev.stakeIndex
  ancestors := (pindexPrev.ancestors.map BlockPtr.stakeIndex).tail

/-! ## 3. The checks -/

/-- "Verify hash target and signature of coinstake tx".  A failure leaves the block's score alone. -/
def acceptStake (env : AcceptEnv DB E) (db : DB) (pindexPrev : BlockPtr) (block : CBlock) :
    Run Unit :=
  if block.isProofOfStake then do
    let coinstake ← block.txAt 1
    match checkProofOfStake K env.clock.fTestNet (env.bnStakeModifier pindexPrev)
        (env.stakeNode db pindexPrev) coinstake block.nBits with
    | .ok _ => .ok ()
    | .error (.reject _ _) =>
      .error (.reject 0 "WARNING: AcceptBlock(): check proof-of-stake failed for block")
    | .error e => .error e
  else .ok ()

/-- "Check coinstake timestamp" -/
def acceptStakeTime (env : AcceptEnv DB E) (block : CBlock) : Run Unit :=
  if block.isProofOfStake then do
    let coinstake ← block.txAt 1
    refuse (checkCoinStakeTimestamp env.clock.fTestNet block.nTime.toNat coinstake.nTime.toNat =
      false) 50 "AcceptBlock() : coinstake timestamp violation"
  else .ok ()

/-- The checks of `AcceptBlock` once the parent is found, and where the block was written. -/
def acceptOn (env : AcceptEnv DB E) (n : Node DB E) (pindexPrev : BlockPtr) (hash : UInt256)
    (block : CBlock) : Run IndexedBlock := do
  let fTestNet := env.clock.fTestNet
  let nHeight := pindexPrev.height + 1
  let coinbase ← block.txAt 0
  refuse (block.nTime.toNat > futureDrift fTestNet coinbase.nTime.toNat) 50
    "AcceptBlock() : coinbase timestamp is too early"
  acceptStakeTime env block
  refuse (block.nBits ≠
      getNextTargetRequired fTestNet block.nTime pindexPrev block.isProofOfStake) 100
    (if block.isProofOfStake then "AcceptBlock() : incorrect proof-of-stake"
      else "AcceptBlock() : incorrect proof-of-work")
  refuse (block.nTime ≤ pindexPrev.top.block.nTime ∨
      futureDrift fTestNet block.nTime.toNat < pindexPrev.top.block.nTime.toNat) 0
    "AcceptBlock() : block's timestamp is too early"
  refuse (block.nTime.toNat < launchTime) 100 "AcceptBlock(): timestamp is prior to launch"
  refuse (∃ tx ∈ block.vtx, tx.isFinal n.nBestHeight env.clock.nAdjustedTime nHeight
      block.nTime.toNat = false) 10 "AcceptBlock() : contains a non-final transaction"
  refuse (checkHardened env.hashGenesisBlock nHeight hash = false) 100
    "AcceptBlock() : rejected by hardened checkpoint lock-in"
  acceptStake K env n.txdb pindexPrev block
  let txin ← coinbase.firstIn
  refuse (¬ scriptInt nHeight <+: txin.scriptSig) 100
    "AcceptBlock() : block height mismatch in coinbase"
  refuse (env.checkDiskSpace block = false) 0 "AcceptBlock() : out of disk space"
  match env.writeToDisk block with
  | none => .error (.reject 0 "AcceptBlock() : WriteToDisk failed")
  | some pos => return ⟨hash, pos, block⟩

/-- Everything `AcceptBlock` does before it calls `AddToBlockIndex`. -/
def acceptChecks (env : AcceptEnv DB E) (n : Node DB E) (block : CBlock) : Run IndexedBlock := do
  let hash ← block.getHash K
  refuse ((n.mapBlockIndex hash).isSome = true) 0
    "AcceptBlock() : block already in mapBlockIndex"
  match n.mapBlockIndex block.hashPrevBlock with
  | none => .error (.reject 10 "AcceptBlock() : prev block not found")
  | some pindexPrev => acceptOn K env n pindexPrev hash block

variable {K} {env : AcceptEnv DB E} {n : Node DB E} {block : CBlock} {b : IndexedBlock}

/-- What is known of a block that passed: it is new, its parent is known, and it is indexed under
its hash. -/
theorem acceptChecks_spec (h : acceptChecks K env n block = .ok b) :
    block.getHash K = .ok b.hash ∧ b.block = block ∧ n.mapBlockIndex b.hash = none ∧
      ∃ pindexPrev, n.mapBlockIndex block.hashPrevBlock = some pindexPrev ∧
        acceptOn K env n pindexPrev b.hash block = .ok b := by
  simp only [acceptChecks, bind_eq_ok, refuse_eq_ok] at h
  obtain ⟨hash, hhash, _, hnew, h⟩ := h
  split at h
  · cases h
  · next pindexPrev hprev =>
    have hon := h
    simp only [acceptOn, bind_eq_ok] at h
    obtain ⟨_, -, _, -, _, -, _, -, _, -, _, -, _, -, _, -, _, -, _, -, _, -, _, -, h⟩ := h
    split at h
    · cases h
    · cases h
      exact ⟨hhash, rfl, by simpa using hnew, pindexPrev, hprev, hon⟩

/-- The pointer a block gets that passed. -/
theorem newPtr_of_acceptChecks (h : acceptChecks K env n block = .ok b) :
    ∃ pindexPrev, n.mapBlockIndex block.hashPrevBlock = some pindexPrev ∧
      n.newPtr b = .child b pindexPrev := by
  obtain ⟨-, hblock, -, pindexPrev, hprev, -⟩ := acceptChecks_spec h
  refine ⟨pindexPrev, hprev, ?_⟩
  unfold Node.newPtr
  rw [hblock, hprev]

end Breakout
