/-
# The id that an index gives back

A `CBlockIndex` does not hold its block.  It holds the fields of the header, and `GetBlockHeader` and
`CDiskBlockIndex::GetBlockHash` put a header together from them, two of which are not the block's
own: the id of the parent is taken from the parent, and the height is the one that `AddToBlockIndex`
counted.  No check compares that height with the one in the header.

Where the id of a block is a hash of its height, the header that is put together has the block's id
if and only if the sender of the block told the truth (`storedHash_iff`).
-/
import Breakout.ProcessBlock
import Breakout.ChainRuns

namespace Breakout

open Lib

variable (K : Crypto)

/-! ## 1. Headers from indices -/

namespace BlockPtr

/-- `CBlockIndex::GetBlockHeader`.  The constructor of `CBlockIndex` copies the height of the header;
with a parent it is overwritten. -/
def getBlockHeader : BlockPtr → CBlock
  | .root b => { b.block with hashPrevBlock := 0, vtx := [], vchBlockSig := [] }
  | .child b p =>
    { b.block with
      hashPrevBlock := hash p, nHeight := UInt32.ofNat (p.height + 1), vtx := [], vchBlockSig := [] }

end BlockPtr

/-- `CDiskBlockIndex`, with what `GetBlockHash` reads. -/
structure CDiskBlockIndex where
  header : CBlock
  hashPrev : UInt256
  blockHash : UInt256

namespace CDiskBlockIndex

/-- `CDiskBlockIndex(pindex)`; the cached hash is null. -/
def ofIndex (p : BlockPtr) : CDiskBlockIndex where
  header := p.getBlockHeader
  hashPrev := (p.parent?.map BlockPtr.hash).getD 0
  blockHash := 0

def getBlockHash (fUseFastIndex : Bool) (nAdjustedTime : Nat) (d : CDiskBlockIndex) : Run UInt256 :=
  if fUseFastIndex = true ∧ d.header.nTime.toNat + 24 * 60 * 60 < nAdjustedTime ∧ d.blockHash ≠ 0 then
    .ok d.blockHash
  else ({ d.header with hashPrevBlock := d.hashPrev } : CBlock).getHash K

/-- A new disk index has no hash to return. -/
theorem getBlockHash_ofIndex (fUseFastIndex : Bool) (nAdjustedTime : Nat) (p : BlockPtr) :
    (ofIndex p).getBlockHash K fUseFastIndex nAdjustedTime = p.getBlockHeader.getHash K := by
  have hnull : (ofIndex p).blockHash = 0 := rfl
  rw [getBlockHash, if_neg fun h => h.2.2 hnull]
  cases p with
  | root b => rfl
  | child b p => rfl

end CDiskBlockIndex

/-! ## 2. The height -/

/-- The header put together from an index does not collide with its block. -/
def NoCollision (p : BlockPtr) : Prop :=
  p.getBlockHeader.getHash K = p.top.block.getHash K →
    p.getBlockHeader.headerPreimage = p.top.block.headerPreimage

/-- The height in the header is not hashed, or it is the block's height in the tree. -/
def HonestHeight (p : BlockPtr) : Prop :=
  ¬ p.top.block.HashesExtended ∨ p.top.block.nHeight = UInt32.ofNat p.height

variable {K} {DB E : Type} {r r' : Receiver DB E} {h : UInt256} {p : BlockPtr}

/-- **When the stored id can be recomputed.**  Of every entry that a run of `ProcessBlock` adds to the
index, both headers that are put together have the id it is stored under, if and only if its height
is honest. -/
theorem storedHash_iff (run : ProcessRun K r r') (hhashes : r.node.HashesOk)
    (hnone : r.mapOrphanBlocksByPrev = []) (hnew : r.node.mapBlockIndex h = none)
    (hp : r'.node.mapBlockIndex h = some p) (hcollision : NoCollision K p)
    (fUseFastIndex : Bool) (nAdjustedTime : Nat) :
    ((CDiskBlockIndex.ofIndex p).getBlockHash K fUseFastIndex nAdjustedTime = .ok h ∧
      p.getBlockHeader.getHash K = .ok h) ↔ HonestHeight p := by
  rw [CDiskBlockIndex.getBlockHash_ofIndex, and_self]
  obtain ⟨w, b, ⟨-, hpassed⟩, hw, hptr, rfl⟩ := run.admitted hhashes hnone hnew hp
  obtain ⟨hhash, -, -, -⟩ := acceptChecks_spec hpassed
  obtain ⟨q, hprev, hchild⟩ := newPtr_of_acceptChecks hpassed
  obtain rfl : p = .child b q := hptr.symm.trans hchild
  -- the parent's id is the one in the header, so that only the height can differ
  have hheader : BlockPtr.getBlockHeader (.child b q) =
      b.block.withExtended (UInt32.ofNat (q.height + 1)) b.block.nNonce64 b.block.mixHash := by
    rw [BlockPtr.getBlockHeader, hw _ _ hprev]
    rfl
  have hhonest : HonestHeight (.child b q) ↔
      (BlockPtr.getBlockHeader (.child b q)).headerPreimage = b.block.headerPreimage := by
    rw [hheader, CBlock.headerPreimage_withExtended]
    exact or_congr_right ⟨fun hheight => ⟨hheight.symm, rfl, rfl⟩, fun h => h.1.symm⟩
  rw [hhonest, ← hhash]
  constructor
  · exact hcollision
  · intro hsame
    rw [CBlock.getHash_eq, CBlock.getHash_eq, hsame]

/-! ## 3. A block that lies about its height -/

/-- The example's node when it has the genesis block. -/
def forkReceiver : Receiver ChainState Unit := ⟨forkStart, fun _ => none, [], ∅, ∅⟩

/-- What it reads while it processes a block. -/
def forkEnv : ProcessEnv ChainState Unit where
  clock := ⟨false, 1465544500⟩
  hashGenesisBlock := forkGenesis.hash
  ops := forkOps true
  store s := ⟨s.txdb, fun _ => none⟩
  hasBlock _ _ _ := true
  bnStakeModifier _ := 0
  modifierOk _ := true
  checkDiskSpace _ := true
  writeToDisk _ := some ⟨1, 1000, firstFile_notNull⟩
  isInitialBlockDownload _ := true
  maxOrphanBlocks := 100
  rand := 0

/-- A first block of version 7 that claims a height. -/
def earlyBlock (nHeight : UInt32) : CBlock :=
  let coinbase : CTransaction :=
    ⟨1, 1465544400, [⟨⟨0, 0xffffffff⟩, [0x51, 1], 0⟩], [⟨0, Color.brx.toInt32, [op1]⟩], 0, [], 0⟩
  let block : CBlock :=
    ⟨7, forkGenesis.hash, 0, 1465544400, 0x1d3fffff, 0, nHeight, 0, 1, [coinbase], []⟩
  { block with hashMerkleRoot := block.buildMerkleTree forkCrypto }

/-- The entry it gets. -/
def earlyPtr (nHeight : UInt32) : BlockPtr :=
  .child ⟨forkCrypto.hash (earlyBlock nHeight).serializeHeader, ⟨1, 1000, firstFile_notNull⟩,
    earlyBlock nHeight⟩ (.root forkGenesis)

theorem forkReceiver_hashesOk : forkReceiver.node.HashesOk :=
  fun _ _ hp => forkStart_arrivals.calls.inv.1.hash_eq hp

/-- The block came off the wire. -/
theorem earlyBlock_reread (nHeight : UInt32) : (earlyBlock nHeight).reread = earlyBlock nHeight := by
  have hversion : ¬ (earlyBlock nHeight).nVersion < CBlock.kawpowVersion := by
    have h7 : (earlyBlock nHeight).nVersion = 7 := rfl
    rw [h7]
    decide
  rw [CBlock.reread, CBlock.headerRead, if_neg hversion]
  rfl

/-- The run in which it arrives. -/
theorem earlyBlock_run (nHeight : UInt32) :
    ProcessRun forkCrypto forkReceiver
      (processBlock forkCrypto forkEnv forkReceiver true false (earlyBlock nHeight)).2 :=
  ProcessRun.step forkEnv true false (earlyBlock nHeight) (ProcessRun.nil forkReceiver)
    fun _ => earlyBlock_reread nHeight

/-- The block that tells its height gets its own id back. -/
theorem storedHash_early :
    (CDiskBlockIndex.ofIndex (earlyPtr 1)).getBlockHash forkCrypto true 1465544500 =
        .ok (earlyPtr 1).hash ∧
      (earlyPtr 1).getBlockHeader.getHash forkCrypto = .ok (earlyPtr 1).hash :=
  (storedHash_iff (earlyBlock_run 1) forkReceiver_hashesOk rfl (by decide +kernel)
    (by decide +kernel) (fun _ => by decide +kernel) true 1465544500).mpr (.inr (by decide +kernel))

/-- **An id that cannot be recomputed.**  The block that claims height 7 is accepted as the first
block and becomes the best one; what the index gives back has another id. -/
theorem storedHash_lost :
    let r := processBlock forkCrypto forkEnv forkReceiver true false (earlyBlock 7)
    r.1 = .ok false ∧ r.2.node.mapBlockIndex (earlyPtr 7).hash = some (earlyPtr 7) ∧
      r.2.node.pindexBest = some (earlyPtr 7) ∧
      (earlyBlock 7).getHash forkCrypto = .ok (earlyPtr 7).hash ∧
      (earlyPtr 7).getBlockHeader.getHash forkCrypto ≠ .ok (earlyPtr 7).hash ∧
      (CDiskBlockIndex.ofIndex (earlyPtr 7)).getBlockHash forkCrypto true 1465544500 ≠
        .ok (earlyPtr 7).hash :=
  ⟨by decide +kernel, by decide +kernel, by decide +kernel, by decide +kernel, by decide +kernel,
    by decide +kernel⟩

end Breakout
