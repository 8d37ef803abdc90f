/-
# What the wallet takes for mature

The wallet counts how deep the block of a coinbase or coinstake lies below the best block
(`GetBlocksToMaturity`).  `ConnectInputs` walks back from a block's index for as long as it is less
than the maturity deep, and refuses the input if it meets the place that the transaction index has
for the previous transaction.

The two agree because an entry with a depth lies in the block it names (`depth_pos_mem`), because no
transaction id comes back in a chain of accepted blocks (`AcceptedRun.inv`), so that the index has
the place of that very block, and because different blocks lie at different places: `WriteToDisk`
appends.  `maturity_agrees` says so for the memory pool, where the walk starts at the best block, and
for any block on top of it.
-/
import Mathlib.Data.List.TakeWhile
import Breakout.AcceptedRuns
import Breakout.Committed
import Breakout.MerkleTx
import Breakout.ExploreRuns

namespace Breakout

open Lib

variable {K : Crypto} {T : Set CTransaction} {P : Set (UInt256 × UInt256)}
  {mapBlockIndex : UInt256 → Option CBlock} {fTestNet : Bool} {g : DiskBlockPos}

/-! ## 1. The walk of `ConnectInputs` -/

/-- "If prev is coinbase or coinstake, check that it's matured". -/
def checkMaturity (fTestNet : Bool) (pindexBlock : CBlockIndex) (ancestors : List CBlockIndex)
    (txindex : CTxIndex) (txPrev : CTransaction) : Run Unit :=
  refuse (txPrev.doesMature = true ∧ isConfirmedInNPrevBlocks txindex.pos pindexBlock ancestors
    (getCoinbaseMaturity fTestNet) = true) 0 "ConnectInputs() : tried to spend at depth"

/-- Where a block lies on disk. -/
def CBlockIndex.place (p : CBlockIndex) : UInt32 × UInt32 := (p.nFile, p.nBlockPos)

/-- No two blocks of a branch lie at one place. -/
def PlacesOk (branch : List CBlockIndex) : Prop := (branch.map CBlockIndex.place).Nodup

/-- The walk does not meet a place whose block lies deep enough. -/
theorem isConfirmed_of_deep {pos : CDiskTxPos} {pindexFrom p : CBlockIndex}
    {ancestors : List CBlockIndex} {d : Int} (hplaces : PlacesOk (pindexFrom :: ancestors))
    (hp : p ∈ pindexFrom :: ancestors) (hfile : p.nFile = pos.nFile)
    (hpos : p.nBlockPos = pos.nBlockPos) (hdeep : d ≤ (pindexFrom.nHeight : Int) - p.nHeight) :
    isConfirmedInNPrevBlocks pos pindexFrom ancestors d = false := by
  by_contra hmet
  rw [Bool.not_eq_false, isConfirmedInNPrevBlocks, List.any_eq_true] at hmet
  obtain ⟨q, hq, hplace⟩ := hmet
  have hnear := List.mem_takeWhile_imp hq
  rw [decide_eq_true_eq] at hnear
  have hmem := (List.takeWhile_sublist _).subset hq
  rw [Bool.and_eq_true, beq_iff_eq, beq_iff_eq] at hplace
  have hsame : q.place = p.place := by
    unfold CBlockIndex.place
    rw [hplace.1, hplace.2, hfile, hpos]
  rw [List.inj_on_of_nodup_map hplaces hmem hp hsame] at hnear
  omega

/-! ## 2. The two counts -/

/-- The main chain of a node, down to the genesis block. -/
def ChainState.mainChain (s : ChainState) (mapBlockIndex : UInt256 → Option CBlock)
    (g : DiskBlockPos) (genesis : CBlock) (pool : UInt256 → Bool) : MainChain where
  mapBlockIndex := mapBlockIndex
  pindexBest := tipOf g s.blocks
  blocks := s.blocks ++ [(genesisIndex g, genesis)]
  pool := pool

/-- What matures has a depth beyond the maturity when there is no block left to wait for. -/
theorem depth_of_blocksToMaturity {c : MainChain} {w : CMerkleTx} (hdoes : w.tx.doesMature = true)
    (h : w.getBlocksToMaturity K fTestNet c = 0) :
    (getCoinbaseMaturity fTestNet : Int) < w.getDepthInMainChain K c := by
  unfold CMerkleTx.getBlocksToMaturity at h
  rw [if_neg (by simp [hdoes])] at h
  omega

/-- The place the index has for a transaction of a chain is that of its block. -/
theorem AcceptedInv.place_eq {s : ChainState} (hinv : AcceptedInv K fTestNet g s)
    {b : CBlockIndex × CBlock} (hb : b ∈ s.blocks) {id : UInt256}
    (hid : id ∈ b.2.vtx.map (·.getHash K)) {txindex : CTxIndex} (hidx : s.txdb id = some txindex) :
    b.1.nFile = txindex.pos.nFile ∧ b.1.nBlockPos = txindex.pos.nBlockPos := by
  obtain ⟨tx, htx, rfl⟩ := List.mem_map.mp hid
  obtain ⟨b', hb', hfile, hpos, tx', htx', hid'⟩ := hinv.stored _ _ hidx
  have hbb : b.1 = b'.1 := block_unique hinv.txids hb hb' htx htx' hid'.symm
  rw [hbb]
  exact ⟨hfile, hpos⟩

/-- **The wallet and `ConnectInputs` agree on maturity.**  Let an entry of a wallet have no block to
wait for, in a node at the end of any run over accepted blocks.  An input that spends one of its
outputs, so that the index has an entry for its id and a transaction with the id is read, passes the
check in the memory pool, and it passes in any block on top of the best one.  The genesis block's
coinbase, which pays nobody, is not in a wallet. -/
theorem maturity_agrees (hT : CollisionFree K T) (hroots : RootsOk K T P mapBlockIndex)
    {s : ChainState} (hrun : AcceptedRun K T fTestNet g s)
    (hplaces : PlacesOk (tipOf g s.blocks :: ancestorsOf g s.blocks)) {genesis : CBlock}
    {pool : UInt256 → Bool} {w : CMerkleTx} (hw : Noted K P mapBlockIndex w) (hwT : w.tx ∈ T)
    (hpairs : ∀ p ∈ w.branchPairs K, p ∈ P)
    (hgenesis : w.tx.getHash K ∉ genesis.vtx.map (·.getHash K))
    (hmature : w.getBlocksToMaturity K fTestNet (s.mainChain mapBlockIndex g genesis pool) = 0)
    {txindex : CTxIndex} (hidx : s.txdb (w.tx.getHash K) = some txindex) {txPrev : CTransaction}
    (hprev : txPrev ∈ T) (hid : txPrev.getHash K = w.tx.getHash K) :
    checkMaturity fTestNet (tipOf g s.blocks) (ancestorsOf g s.blocks) txindex txPrev = .ok () ∧
      ∀ (pos : DiskBlockPos) (block : CBlock),
        PlacesOk (newBlockIndex pos block (tipOf g s.blocks) :: tipOf g s.blocks ::
          ancestorsOf g s.blocks) →
        checkMaturity fTestNet (newBlockIndex pos block (tipOf g s.blocks))
          (tipOf g s.blocks :: ancestorsOf g s.blocks) txindex txPrev = .ok () := by
  have hdoes : txPrev.doesMature = w.tx.doesMature := by
    rw [← CTransaction.doesMature_hashed txPrev, hT.hashed_eq hprev hwT hid,
      CTransaction.doesMature_hashed]
  unfold checkMaturity
  simp only [refuse_eq_ok]
  cases hkind : w.tx.doesMature with
  | false =>
    rw [hkind] at hdoes
    simp [hdoes]
  | true =>
    have hdepth := depth_of_blocksToMaturity hkind hmature
    obtain ⟨pindex, block, hmem, hin, hcount⟩ := depth_pos_mem hroots hw hwT hpairs
      (c := s.mainChain mapBlockIndex g genesis pool) rfl (by omega)
    rw [hcount] at hdepth
    -- the entry is not in the genesis block, so its block is one of the chain's
    have hchain : (pindex, block) ∈ s.blocks := by
      rcases List.mem_append.mp hmem with hmem | hmem
      · exact hmem
      · obtain ⟨-, rfl⟩ := Prod.mk.inj (List.mem_singleton.mp hmem)
        exact absurd hin hgenesis
    obtain ⟨hfile, hpos⟩ := (hrun.inv hT).place_eq hchain hin hidx
    have hbranch : pindex ∈ tipOf g s.blocks :: ancestorsOf g s.blocks := by
      rw [branch_eq]
      exact List.mem_append_left _ (List.mem_map_of_mem (f := Prod.fst) hchain)
    have hbest : (s.mainChain mapBlockIndex g genesis pool).pindexBest = tipOf g s.blocks := rfl
    rw [hbest] at hdepth
    refine ⟨?_, ?_⟩
    · rintro ⟨-, hmet⟩
      have hdeep := isConfirmed_of_deep (d := getCoinbaseMaturity fTestNet) hplaces hbranch hfile
        hpos (by omega)
      exact absurd (hmet.symm.trans hdeep) (by simp)
    · rintro pos block' hplaces' ⟨-, hmet⟩
      have hheight : (newBlockIndex pos block' (tipOf g s.blocks)).nHeight =
          (tipOf g s.blocks).nHeight + 1 := rfl
      have hdeep := isConfirmed_of_deep (d := getCoinbaseMaturity fTestNet) hplaces'
        (List.mem_cons_of_mem _ hbranch) hfile hpos (by omega)
      exact absurd (hmet.symm.trans hdeep) (by simp)

/-! ## 3. A coinbase twelve blocks deep -/

/-- The wallet's entry for the coinbase of the first block. -/
def firstEntry : CMerkleTx := ⟨firstCoinbase [op1], 1, [], some 0, false⟩

/-- The first block, under the id the entry names. -/
def firstIndexed (hash : UInt256) : Option CBlock :=
  if hash = 1 then some (tallPtr 1).top.block else none

theorem firstIndexed_rootsOk :
    RootsOk forkCrypto {tx | tx ∈ tallTxs} ∅ firstIndexed := by
  have hvtx : (tallPtr 1).top.block.vtx = [firstCoinbase [op1]] := rfl
  have honly : ∀ {h block}, firstIndexed h = some block → block = (tallPtr 1).top.block := by
    intro h block hblock
    unfold firstIndexed at hblock
    split at hblock
    · exact (Option.some_inj.mp hblock).symm
    · cases hblock
  refine ⟨by simp, by simp, ?_, ?_, ?_, ?_⟩
  · intro h block hblock
    rw [honly hblock, hvtx]
    exact List.cons_ne_nil _ _
  · intro h block hblock
    rw [honly hblock]
    decide +kernel
  · intro h block hblock tx htx
    rw [honly hblock, hvtx] at htx
    rw [List.mem_singleton.mp htx]
    exact tall_computed.1.2.2.1.1
  · intro h block hblock p hp
    rw [honly hblock, CBlock.hashedPairs, hvtx] at hp
    cases hp

/-- On the test network a coinbase twelve blocks deep is mature. -/
theorem maturity_agrees_tall :
    firstEntry.getBlocksToMaturity forkCrypto true
        (tallChain.mainChain firstIndexed testGenesis.pos testGenesis.block fun _ => false) = 0 ∧
      ∃ txindex, tallChain.txdb (firstEntry.tx.getHash forkCrypto) = some txindex ∧
        checkMaturity true (tipOf testGenesis.pos tallChain.blocks)
          (ancestorsOf testGenesis.pos tallChain.blocks) txindex firstEntry.tx = .ok () := by
  have hmature : firstEntry.getBlocksToMaturity forkCrypto true
      (tallChain.mainChain firstIndexed testGenesis.pos testGenesis.block fun _ => false) = 0 := by
    decide +kernel
  have hplaces : PlacesOk (tipOf testGenesis.pos tallChain.blocks ::
      ancestorsOf testGenesis.pos tallChain.blocks) := by
    unfold PlacesOk
    decide +kernel
  have hgenesis : firstEntry.tx.getHash forkCrypto ∉
      testGenesis.block.vtx.map (·.getHash forkCrypto) := by
    decide +kernel
  obtain ⟨txindex, hidx⟩ := Option.isSome_iff_exists.mp
    (show (tallChain.txdb (firstEntry.tx.getHash forkCrypto)).isSome = true by decide +kernel)
  have hmem : firstEntry.tx ∈ {tx | tx ∈ tallTxs} := tall_computed.1.2.2.1.1
  have hpairs : ∀ p ∈ firstEntry.branchPairs forkCrypto, p ∈ (∅ : Set (UInt256 × UInt256)) := nofun
  have hnoted : Noted forkCrypto ∅ firstIndexed firstEntry := .read rfl
  exact ⟨hmature, txindex, hidx, (maturity_agrees tallTxs_collisionFree firstIndexed_rootsOk
    tallChain_run.1 hplaces hnoted hmem hpairs hgenesis hmature hidx hmem rfl).1⟩

end Breakout
