/-
# The kernel of a proof of stake

`CheckProofOfStake` looks at a coinstake on the branch of `pindexPrev`.  The depth of what is
staked is measured along that branch, and so is the modifier; but the staked transaction and its
place on disk are read from the transaction database, which describes the node's best chain,
whatever branch the block is on.  The source says so beside the read: "previous transaction not in
main chain, may occur during initial download".

So the verdict is not a function of the branch alone (`checkProofOfStake_depends_on_store`).  What
the database adds to it is the place of one transaction: nodes that have it in the same block of
the branch agree (`checkProofOfStake_agrees`).
-/
import Breakout.BlockContext
import Breakout.Inputs

namespace Breakout

open Lib

variable (K : Crypto)

/-! ## 1. The check -/

/-- `CBigNum::getuint256`: the low 256 bits of the magnitude. -/
def getuint256 (bn : Int) : UInt256 := BitVec.ofNat 256 bn.natAbs

def getWeightMultiplier (c : Color) (nTime : Nat) : Int64 :=
  if isDeck c.toInt32 = true ∧ getFork nTime < .fork002 then weightMultiplier c / 256
  else weightMultiplier c

/-- The bytes the kernel hash is taken over. -/
def kernelPreimage (bnStakeModifier : UInt256) (nTimeTxPrev : UInt32) (prevout : COutPoint)
    (nTimeTx : UInt32) : List UInt8 :=
  serUInt256 bnStakeModifier ++ (serUInt32 nTimeTxPrev ++ (serUInt256 prevout.hash ++
    (serUInt32 prevout.n ++ serUInt32 nTimeTx)))

/-- `CheckStakeKernelHash`: `hashProofOfStake` and `targetProofOfStake` when it returns true.
`bnStakeModifier` and `nTimePrev` are fields of `pindexPrev`. -/
def checkStakeKernelHash (bnStakeModifier : UInt256) (nTimePrev : UInt32) (nBits : UInt32)
    (txPrev : CTransaction) (prevout : COutPoint) (nTimeTx : UInt32) :
    Run (UInt256 × UInt256) := do
  refuse (nTimeTx < txPrev.nTime) 0 "CheckStakeKernelHash() : nTime violation"
  match txPrev.vout[prevout.n.toNat]? with
  | none => .error (.oob prevout.n.toNat)
  | some txout =>
    refuse (checkColor txout.nColor = false) 0 ""
    let c ← tableIndex txout.nColor
    refuse (canStake c = false) 0 ""
    let bnTarget := setCompact nBits * txout.nValue.toInt
    let hashProofOfStake := K.hash (kernelPreimage bnStakeModifier txPrev.nTime prevout nTimeTx)
    refuse ((hashProofOfStake.toNat : Int) >
      bnTarget * (getWeightMultiplier c nTimePrev.toNat).toInt) 0 ""
    return (hashProofOfStake, getuint256 bnTarget)

/-- A node that checks a coinstake on the branch of `pindexPrev`.  `hasBlock` tells at which
places of its block files `CBlock::ReadFromDisk` succeeds. -/
structure StakeNode where
  store : TxStore
  hasBlock : UInt32 → UInt32 → Bool
  pindexPrev : CBlockIndex
  ancestors : List CBlockIndex

/-- A failed kernel check as `CheckProofOfStake` reports it. -/
def relayKernel {α : Type} : Run α → Run α
  | .error (.reject _ _) => .error (.reject 1 "CheckProofOfStake() : INFO: check kernel failed")
  | r => r

/-- `CheckProofOfStake`: the proof's hash and target when it returns true. -/
def checkProofOfStake (fTestNet : Bool) (bnStakeModifier : UInt256) (node : StakeNode)
    (tx : CTransaction) (nBits : UInt32) : Run (UInt256 × UInt256) :=
  match tx.vin with
  | [] => .error (.reject 0 "CheckProofOfStake() : called on non-coinstake")
  | txin :: _ => do
    refuse (tx.isCoinStake = false) 0 "CheckProofOfStake() : called on non-coinstake"
    match readFromDisk node.store.txdb node.store.disk txin.prevout with
    | none => .error (.reject 1 "CheckProofOfStake() : INFO: read txPrev failed")
    | some (txPrev, txindex) =>
      refuse (verifySignature K txPrev tx 0 0 0 = false) 100
        "CheckProofOfStake() : VerifySignature failed on coinstake"
      refuse (node.hasBlock txindex.pos.nFile txindex.pos.nBlockPos = false) 0
        "CheckProofOfStake() : read block failed"
      refuse (isConfirmedInNPrevBlocks txindex.pos node.pindexPrev node.ancestors
        ((getStakeMinConfirmations fTestNet tx.getStakeColor : Int) - 1) = true) 100
        "CheckProofOfStake() : tried to stake at depth"
      relayKernel (checkStakeKernelHash K bnStakeModifier node.pindexPrev.nTime nBits txPrev
        txin.prevout tx.nTime)

/-! ## 2. Nodes on the same branch -/

/-- One block in the indices of two nodes: all but its place on disk is the same. -/
def SameBlock (p q : CBlockIndex) : Prop :=
  p = { q with nFile := p.nFile, nBlockPos := p.nBlockPos }

/-- The branch a node checks on, the newest first. -/
def StakeNode.branch (node : StakeNode) : List CBlockIndex := node.pindexPrev :: node.ancestors

/-- Two nodes hold the same ancestors. -/
def SameBranch (node node' : StakeNode) : Prop :=
  List.Forall₂ SameBlock node.branch node'.branch

/-- The place `pos` is that of block number `i` of the branch and of no other; a number past the
end says that it is not on the branch. -/
def PlacedAt (branch : List CBlockIndex) (pos : CDiskTxPos) (i : Nat) : Prop :=
  ∀ j p, branch[j]? = some p →
    ((p.nBlockPos = pos.nBlockPos ∧ p.nFile = pos.nFile) ↔ j = i)

/-- The node's database has the previous transaction, in a block it can read, and that is block
number `i` of the branch. -/
def StakeNode.Places (node : StakeNode) (prevout : COutPoint) (i : Nat) : Prop :=
  ∃ tx idx, readFromDisk node.store.txdb node.store.disk prevout = some (tx, idx) ∧
    node.hasBlock idx.pos.nFile idx.pos.nBlockPos = true ∧ PlacedAt node.branch idx.pos i

variable {K}

/-- Where the branches and the places agree, so does the search for a block that is not deep
enough. -/
theorem any_takeWhile_eq {pos pos' : CDiskTxPos} {i : Nat} {f : Nat → Bool} :
    ∀ {l l' : List CBlockIndex} {k : Nat}, List.Forall₂ SameBlock l l' →
      (∀ j p, l[j]? = some p →
        ((p.nBlockPos = pos.nBlockPos ∧ p.nFile = pos.nFile) ↔ k + j = i)) →
      (∀ j p, l'[j]? = some p →
        ((p.nBlockPos = pos'.nBlockPos ∧ p.nFile = pos'.nFile) ↔ k + j = i)) →
      ((l.takeWhile fun p => f p.nHeight).any fun p =>
          p.nBlockPos == pos.nBlockPos && p.nFile == pos.nFile) =
        ((l'.takeWhile fun p => f p.nHeight).any fun p =>
          p.nBlockPos == pos'.nBlockPos && p.nFile == pos'.nFile)
  | _, _, _, .nil, _, _ => rfl
  | _, _, k, @List.Forall₂.cons _ _ _ p q l l' hpq hrest, hl, hl' => by
    have hheight : p.nHeight = q.nHeight := by rw [hpq]
    have hmatch : (p.nBlockPos == pos.nBlockPos && p.nFile == pos.nFile) =
        (q.nBlockPos == pos'.nBlockPos && q.nFile == pos'.nFile) := by
      rw [Bool.eq_iff_iff, Bool.and_eq_true, Bool.and_eq_true, beq_iff_eq, beq_iff_eq, beq_iff_eq,
        beq_iff_eq, hl 0 p rfl, hl' 0 q rfl]
    have ih := any_takeWhile_eq (i := i) (f := f) (k := k + 1) hrest
      (fun j r hr => by rw [hl (j + 1) r hr]; omega)
      (fun j r hr => by rw [hl' (j + 1) r hr]; omega)
    rw [List.takeWhile_cons, List.takeWhile_cons, hheight]
    split
    · rw [List.any_cons, List.any_cons, hmatch, ih]
    · rfl

theorem isConfirmed_eq {node node' : StakeNode} (hbranch : SameBranch node node')
    {pos pos' : CDiskTxPos} {i : Nat} (hp : PlacedAt node.branch pos i)
    (hp' : PlacedAt node'.branch pos' i) (nMaxDepth : Int) :
    isConfirmedInNPrevBlocks pos node.pindexPrev node.ancestors nMaxDepth =
      isConfirmedInNPrevBlocks pos' node'.pindexPrev node'.ancestors nMaxDepth := by
  have hheight : node.pindexPrev.nHeight = node'.pindexPrev.nHeight := by
    cases hbranch with
    | cons hpq _ => rw [hpq]
  unfold isConfirmedInNPrevBlocks
  rw [hheight]
  exact any_takeWhile_eq (i := i) (k := 0)
    (f := fun n => decide ((node'.pindexPrev.nHeight : Int) - n < nMaxDepth)) hbranch
    (fun j p h => by rw [hp j p h]; omega) (fun j p h => by rw [hp' j p h]; omega)

/-- What is read at an outpoint lies where its entry says. -/
theorem readFromDisk_disk {txdb : TxDB} {disk : Disk} {prevout : COutPoint} {tx : CTransaction}
    {idx : CTxIndex} (h : readFromDisk txdb disk prevout = some (tx, idx)) :
    disk idx.pos = some tx := by
  unfold readFromDisk at h
  cases hdb : txdb prevout.hash with
  | none => simp [hdb] at h
  | some txindex =>
    cases hd : disk txindex.pos with
    | none => simp [hdb, hd] at h
    | some tx' =>
      simp only [hdb, hd] at h
      split at h
      · cases h
      · cases h
        exact hd

/-- The outputs and the id are all a signature check sees of the previous transaction. -/
theorem verifySignature_congr {a b tx : CTransaction} {nIn : Nat} {flags : UInt32}
    {nHashType : Int32} (hid : a.getHash K = b.getHash K) (hvout : a.vout = b.vout) :
    verifySignature K a tx nIn flags nHashType = verifySignature K b tx nIn flags nHashType := by
  unfold verifySignature
  rw [hid, hvout]

/-- The outputs and the time are all a kernel sees of it. -/
theorem checkStakeKernelHash_congr {a b : CTransaction} {bnStakeModifier : UInt256}
    {nTimePrev nBits nTimeTx : UInt32} {prevout : COutPoint} (htime : a.nTime = b.nTime)
    (hvout : a.vout = b.vout) :
    checkStakeKernelHash K bnStakeModifier nTimePrev nBits a prevout nTimeTx =
      checkStakeKernelHash K bnStakeModifier nTimePrev nBits b prevout nTimeTx := by
  unfold checkStakeKernelHash
  rw [htime, hvout]

/-! ## 3. When two nodes agree -/

/-- **Nodes that place the staked transaction alike agree.**  They hold the same ancestors, their
stores are consistent and free of collisions, and both have the previous transaction of the
coinstake in the same block of the branch, or outside it.  Then verdict, hash and target are the
same, whatever else the two databases hold. -/
theorem checkProofOfStake_agrees {T : Set CTransaction} (hT : CollisionFree K T)
    {node node' : StakeNode} (hbranch : SameBranch node node')
    (hst : node.store.Consistent K) (hst' : node'.store.Consistent K)
    (hdisk : ∀ pos tx, node.store.disk pos = some tx → tx ∈ T)
    (hdisk' : ∀ pos tx, node'.store.disk pos = some tx → tx ∈ T)
    {tx : CTransaction} {txin : CTxIn} {ins : List CTxIn} (hin : tx.vin = txin :: ins) {i : Nat}
    (hplace : node.Places txin.prevout i) (hplace' : node'.Places txin.prevout i)
    (fTestNet : Bool) (bnStakeModifier : UInt256) (nBits : UInt32) :
    checkProofOfStake K fTestNet bnStakeModifier node tx nBits =
      checkProofOfStake K fTestNet bnStakeModifier node' tx nBits := by
  obtain ⟨a, idx, hread, hblock, hpos⟩ := hplace
  obtain ⟨b, idx', hread', hblock', hpos'⟩ := hplace'
  have ha : a ∈ T := hdisk _ _ (readFromDisk_disk hread)
  have hb : b ∈ T := hdisk' _ _ (readFromDisk_disk hread')
  have hid : a.getHash K = b.getHash K := by
    rw [readFromDisk_spec hst hread, readFromDisk_spec hst' hread']
  have hvout := hT.vout_eq ha hb hid
  have htime := hT.nTime_eq ha hb hid
  have hprev : node.pindexPrev.nTime = node'.pindexPrev.nTime := by
    cases hbranch with
    | cons hpq _ => rw [hpq]
  simp only [checkProofOfStake, hin, hread, hread', verifySignature_congr hid hvout, hblock, hblock',
    isConfirmed_eq hbranch hpos hpos', checkStakeKernelHash_congr htime hvout, hprev]

/-- Twelve blocks of the test network above the genesis block, the newest first, as they lie in
the block file `nFile` of a node. -/
def sampleBranch (nFile : UInt32) : List CBlockIndex :=
  (List.range 12).map fun n =>
    { genesisIndex ⟨1, 0, firstFile_notNull⟩ with
      nFile := nFile
      nBlockPos := UInt32.ofNat (12 - n)
      nHeight := 12 - n
      nTime := 1470000000 }

/-- A transaction of the first of them. -/
def sampleStaked : CTransaction :=
  ⟨1, 1470000000, [⟨⟨7, 0⟩, [], 0⟩], [⟨100000000, Color.brx.toInt32, []⟩], 0, [], 0⟩

/-- A coinstake on top of the branch that stakes it. -/
def sampleCoinstake : CTransaction :=
  ⟨1, 1470000100, [⟨⟨sampleStaked.getHash (Crypto.sample []), 0⟩, [1, 1], 0⟩],
    [⟨0, Color.brx.toInt32, []⟩, ⟨100000000, Color.brx.toInt32, []⟩], 0, [], 0⟩

/-- A node with a store of its own on that branch. -/
def sampleNode (nFile : UInt32) (store : TxStore) : StakeNode where
  store := store
  hasBlock _ _ := true
  pindexPrev := (sampleBranch nFile).headD (genesisIndex ⟨1, 0, firstFile_notNull⟩)
  ancestors := (sampleBranch nFile).tail

/-- The store of a node whose best chain has the staked transaction in the branch's first block. -/
def sampleStore (nFile : UInt32) : TxStore where
  txdb hash :=
    if hash = sampleStaked.getHash (Crypto.sample []) then some (.new ⟨nFile, 1, 0⟩ 1) else none
  disk _ := some sampleStaked

theorem sampleStore_consistent (nFile : UInt32) :
    (sampleStore nFile).Consistent (Crypto.sample []) := by
  intro hash idx tx h htx
  simp only [sampleStore] at h htx
  split at h
  · next hh =>
    cases htx
    exact hh.symm
  · cases h

/-- The block of the staked transaction is number eleven from the top. -/
theorem sampleNode_places (nFile : UInt32) :
    (sampleNode nFile (sampleStore nFile)).Places
      ⟨sampleStaked.getHash (Crypto.sample []), 0⟩ 11 := by
  refine ⟨sampleStaked, .new ⟨nFile, 1, 0⟩ 1, ?_, rfl, ?_⟩
  · simp [readFromDisk, sampleNode, sampleStore, sampleStaked]
  · intro j p h
    obtain ⟨hj, rfl⟩ := List.getElem?_eq_some_iff.mp h
    have key : ∀ k : Fin 12, UInt32.ofNat (12 - k.val) = 1 ↔ k.val = 11 := by decide
    have hbranch : (sampleNode nFile (sampleStore nFile)).branch = sampleBranch nFile := rfl
    simp only [hbranch, sampleBranch, List.getElem_map, List.getElem_range, CTxIndex.new,
      and_true]
    exact key ⟨j, by simpa [hbranch, sampleBranch] using hj⟩

/-- Two nodes with the branch in different block files agree on the coinstake. -/
theorem checkProofOfStake_agrees_moved :
    let K := Crypto.sample []
    checkProofOfStake K true 0 (sampleNode 1 (sampleStore 1)) sampleCoinstake 0x1d3fffff =
      checkProofOfStake K true 0 (sampleNode 2 (sampleStore 2)) sampleCoinstake 0x1d3fffff := by
  refine checkProofOfStake_agrees (T := {sampleStaked}) ⟨?_, ?_⟩ ?_ (sampleStore_consistent 1)
    (sampleStore_consistent 2) ?_ ?_ (i := 11) rfl (sampleNode_places 1) (sampleNode_places 2) true 0
    0x1d3fffff
  · rintro tx rfl
    show sampleStaked.serialize.length < 2 ^ 64
    decide
  · rintro a rfl b rfl _
    rfl
  · show List.Forall₂ SameBlock (sampleBranch 1) (sampleBranch 2)
    rw [sampleBranch, sampleBranch, List.forall₂_map_left_iff, List.forall₂_map_right_iff]
    exact List.forall₂_same.mpr fun n _ => rfl
  · rintro pos tx h
    exact (Option.some_inj.mp h).symm
  · rintro pos tx h
    exact (Option.some_inj.mp h).symm

/-- **The verdict depends on the best chain.**  Both nodes hold the same ancestors; the one whose
best chain has the staked transaction accepts the coinstake, the other does not. -/
theorem checkProofOfStake_depends_on_store :
    let K := Crypto.sample []
    SameBranch (sampleNode 1 (sampleStore 1)) (sampleNode 1 .empty) ∧
      (sampleStore 1).Consistent K ∧ TxStore.empty.Consistent K ∧
      (checkProofOfStake K true 0 (sampleNode 1 (sampleStore 1)) sampleCoinstake
        0x1d3fffff).accepts = true ∧
      (checkProofOfStake K true 0 (sampleNode 1 .empty) sampleCoinstake 0x1d3fffff).accepts =
        false :=
  ⟨List.forall₂_same.mpr fun _ _ => rfl, sampleStore_consistent 1, TxStore.empty_consistent,
    by decide +kernel, by decide +kernel⟩

end Breakout
