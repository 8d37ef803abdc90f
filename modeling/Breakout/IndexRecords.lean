/-
# The block index on disk

The index of blocks is kept on disk as one record for each block.  `AddToBlockIndex` writes the
record of a new block, `ConnectBlock` writes it again with the counters of the block, and
`ConnectBlock` and `DisconnectBlock` write the record of the parent with or without a link forward.
A record is made from the index in memory when it is written, and holds ids where the index in
memory holds pointers.  The trust of the chain and the checksum of the stake modifiers are not in
it.

The records are part of the batch of a call.  The index in memory is not: `ConnectBlock` enters the
counters as it goes, and a call that fails leaves them there.
-/
import Breakout.DiskIndex

namespace Breakout

open Lib Node

variable (K : Crypto)

/-! ## 1. The index in memory -/

/-- What `AddToBlockIndex` enters for a block and nothing changes later. -/
structure StakeFields where
  nFlags : UInt32
  bnStakeModifier : UInt256
  prevoutStake : COutPoint
  nStakeTime : UInt32
  hashProof : UInt256

/-- What `ConnectBlock` enters. -/
structure SupplyFields where
  vCoinbase : Color → Int64
  nCoinbaseColor : Int32
  nStakeColor : Int32
  vMoneySupply : Color → Int64
  vTotalMint : Color → Int64

/-- A `CBlockIndex`, without its header and its place in the tree. -/
structure IndexFields where
  stake : StakeFields
  nStakeModifierChecksum : UInt32
  supply : SupplyFields

/-- The index in memory, at the blocks that are in the tree. -/
abbrev IndexMemory := BlockPtr → IndexFields

def blockProofOfStake : UInt32 := 1

def blockStakeEntropy : UInt32 := 2

def blockStakeModifier : UInt32 := 4

def CBlock.getStakeColor (block : CBlock) : Int32 :=
  if block.isProofOfStake then ((block.vtx[1]?).map (·.getColor)).getD Color.none.toInt32
  else Color.none.toInt32

def CBlock.getCoinbaseColor (block : CBlock) : Int32 :=
  if block.isProofOfStake then (block.vtx.head?.map (·.getColor)).getD Color.none.toInt32
  else Color.none.toInt32

namespace StakeFields

def isProofOfStake (s : StakeFields) : Bool := s.nFlags &&& blockProofOfStake != 0

/-- The fields `AddToBlockIndex` enters: those of the constructor, `SetStakeEntropyBit`, `hashProof`
and `SetStakeModifier`. -/
def new (block : CBlock) (hash hashProof bnStakeModifier : UInt256)
    (fGeneratedStakeModifier : Bool) : StakeFields where
  nFlags :=
    (if block.isProofOfStake then blockProofOfStake else 0) |||
      (if hash.getLsbD 0 then blockStakeEntropy else 0) |||
      (if fGeneratedStakeModifier then blockStakeModifier else 0)
  bnStakeModifier := bnStakeModifier
  prevoutStake := block.getProofOfStake.1
  nStakeTime := block.getProofOfStake.2
  hashProof := hashProof

/-- The fields as a record has them: the stake itself only of a proof of stake. -/
def stored (s : StakeFields) : StakeFields :=
  if s.isProofOfStake then s else { s with prevoutStake := ⟨0, 0xffffffff⟩, nStakeTime := 0 }

theorem isProofOfStake_new (block : CBlock) (hash hashProof bnStakeModifier : UInt256)
    (fGenerated : Bool) :
    (new block hash hashProof bnStakeModifier fGenerated).isProofOfStake =
      block.isProofOfStake := by
  have hbit : ∀ stake entropy modifier : Bool,
      (((if stake then blockProofOfStake else 0) ||| (if entropy then blockStakeEntropy else 0) |||
        (if modifier then blockStakeModifier else 0)) &&& blockProofOfStake != 0) = stake := by
    decide
  exact hbit _ _ _

/-- A record has all the fields of a new block. -/
theorem stored_new (block : CBlock) (hash hashProof bnStakeModifier : UInt256)
    (fGenerated : Bool) :
    (new block hash hashProof bnStakeModifier fGenerated).stored =
      new block hash hashProof bnStakeModifier fGenerated := by
  unfold stored
  rw [isProofOfStake_new]
  split
  · rfl
  · next hwork =>
    have hnone : block.getProofOfStake = (⟨0, 0xffffffff⟩, 0) := by
      unfold CBlock.getProofOfStake
      simp [hwork]
    simp [new, hnone]

end StakeFields

/-- The counters of the constructor. -/
def SupplyFields.new (block : CBlock) : SupplyFields where
  vCoinbase _ := 0
  nCoinbaseColor := block.getCoinbaseColor
  nStakeColor := block.getStakeColor
  vMoneySupply _ := 0
  vTotalMint _ := 0

/-- `GetStakeModifierChecksum`, of an index whose parent has the checksum `prev`. -/
def getStakeModifierChecksum (hashGenesisBlock : UInt256) (prev : Option UInt32) (hash : UInt256)
    (s : StakeFields) : Run UInt32 :=
  if prev = none ∧ hash ≠ hashGenesisBlock then
    .error (.throw "GetStakeModifierChecksum() : a block without a parent")
  else
    let hashChecksum := K.hash ((prev.map serUInt32).getD [] ++ (serUInt32 s.nFlags ++
      (serUInt256 (if s.isProofOfStake then s.hashProof else 0) ++ serUInt256 s.bnStakeModifier)))
    .ok (UInt32.ofNat (hashChecksum >>> (256 - 32)).toNat)

/-- `CheckStakeModifierCheckpoints`, for the table of the network. -/
def checkStakeModifierCheckpoints (checkpoints : Nat → Option UInt32) (nHeight : Nat)
    (nStakeModifierChecksum : UInt32) : Bool :=
  match checkpoints nHeight with
  | some checksum => nStakeModifierChecksum == checksum
  | none => true

/-! ## 2. Records -/

/-- `CDiskBlockIndex`, with everything that is serialised. -/
structure IndexRecord extends CDiskBlockIndex where
  hashNext : UInt256
  nFile : UInt32
  nBlockPos : UInt32
  nHeight : Nat
  stake : StakeFields
  supply : SupplyFields

/-- The header as it is serialised in a record. -/
def storedHeader (header : CBlock) : CBlock :=
  if header.nVersion < CBlock.kawpowVersion then { header with nNonce64 := 0, mixHash := 0 }
  else { header with nNonce := 0 }

namespace IndexRecord

/-- `CDiskBlockIndex(pindex)`, for an index with these fields and this `pnext`. -/
def ofIndex (fields : IndexFields) (pnext : Option BlockPtr) (p : BlockPtr) : IndexRecord where
  toCDiskBlockIndex := .ofIndex p
  hashNext := (pnext.map BlockPtr.hash).getD 0
  nFile := p.top.pos.nFile
  nBlockPos := p.top.pos.nBlockPos
  nHeight := p.height
  stake := fields.stake
  supply := fields.supply

/-- The record as it is read back, with the hash that `GetBlockHash` cached in it. -/
def stored (r : IndexRecord) (blockHash : UInt256) : IndexRecord :=
  { r with header := storedHeader r.header, blockHash := blockHash, stake := r.stake.stored }

end IndexRecord

/-- The records by the id they are stored under. -/
abbrev Records := UInt256 → Option IndexRecord

/-- What a `GetBlockHash` of a record reads besides it. -/
structure IndexClock where
  fUseFastIndex : Bool
  nAdjustedTime : Nat

/-- `CTxDB::WriteBlockIndex`.  The key is computed first, and caches the hash in the record. -/
def writeBlockIndex (clock : IndexClock) (r : IndexRecord) (records : Records) : Run Records := do
  let hash ← r.getBlockHash K clock.fUseFastIndex clock.nAdjustedTime
  return Function.update records hash (some (r.stored hash))

/-! ## 3. Blocks whose records say who they are -/

/-- A block in the tree whose header tells the truth: its id is the hash of the header, the parent is
the one in the header, the height is honest, and the header has only the fields that its layout
sends.  The null hash is nobody's id. -/
structure HonestIndex (p : BlockPtr) : Prop where
  hash_ne : p.hash ≠ 0
  id : p.top.block.getHash K = .ok p.hash
  prev : p.hashPrevBlock = (p.parent?.map BlockPtr.hash).getD 0
  height : HonestHeight p
  reread : p.top.block.reread = p.top.block

variable {K} {p : BlockPtr}

theorem HonestIndex.getBlockHeader (h : HonestIndex K p) :
    p.getBlockHeader.getHash K = .ok p.hash := by
  obtain ⟨-, hid, hprev, hheight, -⟩ := h
  rw [← hid, CBlock.getHash_eq, CBlock.getHash_eq]
  congr 1
  cases p with
  | root b =>
    have hheader : BlockPtr.getBlockHeader (.root b) =
        b.block.withExtended b.block.nHeight b.block.nNonce64 b.block.mixHash := by
      rw [BlockPtr.getBlockHeader, ← show b.block.hashPrevBlock = 0 from hprev]
      rfl
    rw [hheader]
    exact (CBlock.headerPreimage_withExtended _ _ _ _).mpr (.inr ⟨rfl, rfl, rfl⟩)
  | child b q =>
    have hheader : BlockPtr.getBlockHeader (.child b q) =
        b.block.withExtended (UInt32.ofNat (q.height + 1)) b.block.nNonce64 b.block.mixHash := by
      rw [BlockPtr.getBlockHeader, ← show b.block.hashPrevBlock = BlockPtr.hash q from hprev]
      rfl
    rw [hheader]
    refine (CBlock.headerPreimage_withExtended _ _ _ _).mpr ?_
    rcases hheight with hnot | hheight
    · exact .inl hnot
    · exact .inr ⟨hheight.symm, rfl, rfl⟩

/-- The header of a record loses nothing. -/
theorem HonestIndex.storedHeader (h : HonestIndex K p) :
    storedHeader p.getBlockHeader = p.getBlockHeader := by
  have hread := h.reread
  have hversion : p.getBlockHeader.nVersion = p.top.block.nVersion := by
    cases p with
    | root b => rfl
    | child b q => rfl
  unfold CBlock.reread CBlock.headerRead at hread
  unfold Breakout.storedHeader
  rw [hversion]
  split
  · next hlt =>
    rw [if_pos hlt] at hread
    have hnonce : p.top.block.nNonce64 = 0 := (congrArg CBlock.nNonce64 hread).symm
    have hmix : p.top.block.mixHash = 0 := (congrArg CBlock.mixHash hread).symm
    cases p with
    | root b => simp [BlockPtr.getBlockHeader, ← hnonce, ← hmix, Branch.top]
    | child b q => simp [BlockPtr.getBlockHeader, ← hnonce, ← hmix, Branch.top]
  · next hlt =>
    rw [if_neg hlt] at hread
    have hnonce : p.top.block.nNonce = 0 := (congrArg CBlock.nNonce hread).symm
    cases p with
    | root b => simp [BlockPtr.getBlockHeader, ← hnonce, Branch.top]
    | child b q => simp [BlockPtr.getBlockHeader, ← hnonce, Branch.top]

/-- The record of a block, as it is read back. -/
def storedRecord (fields : IndexFields) (pnext : Option BlockPtr) (p : BlockPtr) : IndexRecord :=
  (IndexRecord.ofIndex fields pnext p).stored p.hash

/-- A record of an honest block is written under the block's id. -/
theorem HonestIndex.write (h : HonestIndex K p) (clock : IndexClock) (fields : IndexFields)
    (pnext : Option BlockPtr) (records : Records) :
    writeBlockIndex K clock (.ofIndex fields pnext p) records =
      .ok (Function.update records p.hash (some (storedRecord fields pnext p))) := by
  have hhash : (CDiskBlockIndex.ofIndex p).getBlockHash K clock.fUseFastIndex clock.nAdjustedTime =
      .ok p.hash := by
    rw [CDiskBlockIndex.getBlockHash_ofIndex, h.getBlockHeader]
  unfold writeBlockIndex
  rw [show (IndexRecord.ofIndex fields pnext p).toCDiskBlockIndex = .ofIndex p from rfl, hhash]
  rfl

/-- And it gives that id back. -/
theorem HonestIndex.getBlockHash_stored (h : HonestIndex K p) (clock : IndexClock)
    (fields : IndexFields) (pnext : Option BlockPtr) :
    (storedRecord fields pnext p).getBlockHash K clock.fUseFastIndex clock.nAdjustedTime =
      .ok p.hash := by
  have hheader : ({ Breakout.storedHeader p.getBlockHeader with
      hashPrevBlock := (p.parent?.map BlockPtr.hash).getD 0 } : CBlock) = p.getBlockHeader := by
    rw [h.storedHeader]
    cases p with
    | root b => rfl
    | child b q => rfl
  unfold CDiskBlockIndex.getBlockHash
  split
  · rfl
  · exact (congrArg (CBlock.getHash K) hheader).trans h.getBlockHeader

end Breakout
