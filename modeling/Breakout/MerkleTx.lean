/-
# A transaction and the block it says it is in

A `CMerkleTx` is a transaction with the id of a block, a branch of the block's Merkle tree and its
index there.  `GetDepthInMainChain` counts from that block to the best one, once the branch has led
from the transaction's id to the root in the block's header; that it has is remembered in
`fMerkleVerified`, which is not forgotten when the wallet enters another block.

So the flag speaks of the block that is named only because of how a wallet comes to name it
(`Noted`): it reads an entry from its file, it asks for a depth, or it is told of a block with the
transaction.  `Noted.mem_block` says that a flagged entry lies in the block it names, and
`depth_pos_mem` that any entry with a depth does.
-/
import Breakout.MemPool
import Breakout.MerkleTree

namespace Breakout

open Lib

variable (K : Crypto)

/-! ## 1. Depths -/

/-- `CMerkleTx`; an `nIndex` of `-1` is `none`. -/
structure CMerkleTx where
  tx : CTransaction
  hashBlock : UInt256
  vMerkleBranch : List UInt256
  nIndex : Option Nat
  fMerkleVerified : Bool

/-- What a depth is measured in: the blocks by their ids, the best block's index, the main chain from
there down to the genesis block, and the ids in the memory pool. -/
structure MainChain where
  mapBlockIndex : UInt256 → Option CBlock
  pindexBest : CBlockIndex
  blocks : Blocks
  pool : UInt256 → Bool

/-- The entry of the main chain for a known block, if it has one. -/
def MainChain.find (c : MainChain) (hash : UInt256) : Option (CBlockIndex × CBlock) :=
  (c.mapBlockIndex hash).bind fun block => c.blocks.find? fun b => decide (b.2 = block)

namespace CMerkleTx

/-- `CMerkleTx(txIn)` -/
def ofTx (tx : CTransaction) : CMerkleTx := ⟨tx, 0, [], none, false⟩

/-- `CMerkleTx::SetMerkleBranch` at a given block with its id. -/
def setMerkleBranch (w : CMerkleTx) (hash : UInt256) (block : CBlock) : CMerkleTx :=
  match block.vtx.findIdx? fun tx => tx.opEq w.tx with
  | none => { w with hashBlock := hash, vMerkleBranch := [], nIndex := none }
  | some nIndex =>
    { w with
      hashBlock := hash
      vMerkleBranch := block.getMerkleBranch K nIndex
      nIndex := some nIndex }

/-- What `AddToWallet` takes over from `wtxIn` where there is an entry already ("Merge"). -/
def merge (w wtxIn : CMerkleTx) : CMerkleTx :=
  let w := if wtxIn.hashBlock ≠ 0 then { w with hashBlock := wtxIn.hashBlock } else w
  if wtxIn.nIndex ≠ none then
    { w with vMerkleBranch := wtxIn.vMerkleBranch, nIndex := wtxIn.nIndex }
  else w

/-- `CMerkleTx::GetDepthInMainChainINTERNAL`, and the entry with its flag. -/
def getDepthInMainChainInternal (c : MainChain) (w : CMerkleTx) : Int × CMerkleTx :=
  if w.hashBlock = 0 ∨ w.nIndex = none then (0, w)
  else
    match c.find w.hashBlock with
    | none => (0, w)
    | some (pindex, block) =>
      if w.fMerkleVerified = false ∧
          checkMerkleBranch K (w.tx.getHash K) w.vMerkleBranch w.nIndex ≠ block.hashMerkleRoot then
        (0, w)
      else ((c.pindexBest.nHeight : Int) - pindex.nHeight + 1, { w with fMerkleVerified := true })

def getDepthInMainChain (c : MainChain) (w : CMerkleTx) : Int :=
  let nResult := (w.getDepthInMainChainInternal K c).1
  if nResult = 0 ∧ c.pool (w.tx.getHash K) = false then -1 else nResult

def getBlocksToMaturity (fTestNet : Bool) (c : MainChain) (w : CMerkleTx) : Int :=
  if w.tx.doesMature = false then 0
  else max 0 (getCoinbaseMaturity fTestNet + 1 - w.getDepthInMainChain K c)

end CMerkleTx

/-- A transaction that names no block has no depth. -/
theorem getDepthInMainChain_ofTx (c : MainChain) (tx : CTransaction) :
    (CMerkleTx.ofTx tx).getDepthInMainChain K c = if c.pool (tx.getHash K) then 0 else -1 := by
  have hnull : (CMerkleTx.ofTx tx).hashBlock = 0 ∨ (CMerkleTx.ofTx tx).nIndex = none := Or.inl rfl
  have hzero : ((CMerkleTx.ofTx tx).getDepthInMainChainInternal K c).1 = 0 := by
    unfold CMerkleTx.getDepthInMainChainInternal
    rw [if_pos hnull]
  have hid : (CMerkleTx.ofTx tx).tx = tx := rfl
  unfold CMerkleTx.getDepthInMainChain
  rw [hzero, hid]
  cases c.pool (tx.getHash K) <;> simp

/-! ## 2. Branches that check -/

/-- The way up along a branch. -/
def branchSteps : List UInt256 → Nat → List (Bool × UInt256)
  | [], _ => []
  | otherside :: vMerkleBranch, nIndex =>
    (decide (nIndex &&& 1 = 1), otherside) :: branchSteps vMerkleBranch (nIndex >>> 1)

/-- The pairs `CheckMerkleBranch` hashes for an entry. -/
def CMerkleTx.branchPairs (w : CMerkleTx) : List (UInt256 × UInt256) :=
  ascendPairs (pairHash K) (w.tx.getHash K) (branchSteps w.vMerkleBranch (w.nIndex.getD 0))

variable {K}

theorem climbBranch_eq_ascend :
    ∀ (vMerkleBranch : List UInt256) (hash : UInt256) (nIndex : Nat),
      climbBranch K hash vMerkleBranch nIndex =
        ascend (pairHash K) hash (branchSteps vMerkleBranch nIndex)
  | [], _, _ => rfl
  | otherside :: vMerkleBranch, hash, nIndex => by
    rw [climbBranch, climbBranch_eq_ascend vMerkleBranch]
    simp only [branchSteps, ascend, List.foldl_cons, decide_eq_true_eq]

/-- The pair hash does not collide on the pairs of `P`, none of which has an id of `T` for its hash,
and the blocks that are indexed have passed `CheckBlock`: they have transactions, of `T`, and the
root of these in their header, which is hashed from pairs of `P`. -/
structure RootsOk (K : Crypto) (T : Set CTransaction) (P : Set (UInt256 × UInt256))
    (mapBlockIndex : UInt256 → Option CBlock) : Prop where
  inj : ∀ p ∈ P, ∀ q ∈ P, pairHash K p.1 p.2 = pairHash K q.1 q.2 → p = q
  leaf : ∀ tx ∈ T, ∀ p ∈ P, tx.getHash K ≠ pairHash K p.1 p.2
  vtx_ne : ∀ h block, mapBlockIndex h = some block → block.vtx ≠ []
  root : ∀ h block, mapBlockIndex h = some block → block.hashMerkleRoot = block.buildMerkleTree K
  txs : ∀ h block, mapBlockIndex h = some block → ∀ tx ∈ block.vtx, tx ∈ T
  pairs : ∀ h block, mapBlockIndex h = some block → ∀ p ∈ block.hashedPairs K, p ∈ P

variable {T : Set CTransaction} {P : Set (UInt256 × UInt256)}
  {mapBlockIndex : UInt256 → Option CBlock}

variable {w : CMerkleTx} {block : CBlock}

/-- **A branch that leads to the root of an indexed block starts at one of its transactions.** -/
theorem RootsOk.mem_block (h : RootsOk K T P mapBlockIndex) (hw : w.tx ∈ T)
    (hpairs : ∀ p ∈ w.branchPairs K, p ∈ P) {hash : UInt256}
    (hblock : mapBlockIndex hash = some block) (hindex : w.nIndex ≠ none)
    (hcheck : checkMerkleBranch K (w.tx.getHash K) w.vMerkleBranch w.nIndex =
      block.hashMerkleRoot) :
    w.tx.getHash K ∈ block.vtx.map (·.getHash K) := by
  obtain ⟨nIndex, hn⟩ := Option.ne_none_iff_exists'.mp hindex
  have hne : block.vtx.map (·.getHash K) ≠ [] := by
    simpa using h.vtx_ne hash block hblock
  have hroot : merkleRoot (pairHash K) (block.vtx.map (·.getHash K)) =
      some (ascend (pairHash K) (w.tx.getHash K) (branchSteps w.vMerkleBranch nIndex)) := by
    obtain ⟨t, ht⟩ := exists_rootTree hne
    have hbuild : block.buildMerkleTree K =
        (merkleRoot (pairHash K) (block.vtx.map (·.getHash K))).getD 0 := rfl
    have hvalue := merkleRoot_eq_eval (h := pairHash K) ht
    rw [← climbBranch_eq_ascend]
    rw [hn, h.root hash block hblock, hbuild, hvalue] at hcheck
    rw [hvalue]
    exact congrArg some hcheck.symm
  rw [CMerkleTx.branchPairs, hn, Option.getD_some] at hpairs
  refine mem_of_ascend (P := fun a b => (a, b) ∈ P) (L := fun x => ∃ tx ∈ T, tx.getHash K = x)
    ?_ ?_ ⟨w.tx, hw, rfl⟩ hne ?_ (h.pairs hash block hblock) hpairs hroot
  · intro a b c d hab hcd heq
    exact Prod.mk.inj (h.inj (a, b) hab (c, d) hcd heq)
  · rintro _ a b ⟨tx, htx, rfl⟩ hab
    exact h.leaf tx htx (a, b) hab
  · intro x hx
    obtain ⟨tx, htx, rfl⟩ := List.mem_map.mp hx
    exact ⟨tx, h.txs hash block hblock tx htx, rfl⟩

/-! ## 3. Entries of a wallet -/

/-- **How an entry comes about**: it is read from the wallet's file, or made, without its flag; a
depth is asked for, of any main chain; the wallet is told of a block with the transaction. -/
inductive Noted (K : Crypto) (P : Set (UInt256 × UInt256))
    (mapBlockIndex : UInt256 → Option CBlock) : CMerkleTx → Prop
  | read {w : CMerkleTx} : w.fMerkleVerified = false → Noted K P mapBlockIndex w
  | asked {w : CMerkleTx} {c : MainChain} :
      Noted K P mapBlockIndex w → c.mapBlockIndex = mapBlockIndex →
      (∀ p ∈ w.branchPairs K, p ∈ P) →
      Noted K P mapBlockIndex (w.getDepthInMainChainInternal K c).2
  | told {w : CMerkleTx} {hash : UInt256} {block : CBlock} {tx : CTransaction} :
      Noted K P mapBlockIndex w → mapBlockIndex hash = some block → tx ∈ block.vtx →
      tx.getHash K = w.tx.getHash K →
      Noted K P mapBlockIndex (w.merge ((CMerkleTx.ofTx tx).setMerkleBranch K hash block))

/-- What a depth other than zero rests on. -/
theorem getDepthInMainChainInternal_cases (c : MainChain) (w : CMerkleTx) :
    (w.getDepthInMainChainInternal K c).1 = 0 ∧ (w.getDepthInMainChainInternal K c).2 = w ∨
      ∃ pindex block, c.mapBlockIndex w.hashBlock = some block ∧ (pindex, block) ∈ c.blocks ∧
        w.nIndex ≠ none ∧
        (w.fMerkleVerified = true ∨
          checkMerkleBranch K (w.tx.getHash K) w.vMerkleBranch w.nIndex = block.hashMerkleRoot) ∧
        w.getDepthInMainChainInternal K c =
          ((c.pindexBest.nHeight : Int) - pindex.nHeight + 1,
            { w with fMerkleVerified := true }) := by
  unfold CMerkleTx.getDepthInMainChainInternal
  by_cases hnone : w.hashBlock = 0 ∨ w.nIndex = none
  · rw [if_pos hnone]
    exact Or.inl ⟨rfl, rfl⟩
  · rw [if_neg hnone]
    cases hfind : c.find w.hashBlock with
    | none => exact Or.inl ⟨rfl, rfl⟩
    | some b =>
      obtain ⟨pindex, block⟩ := b
      obtain ⟨block', hblock, hb⟩ := Option.bind_eq_some_iff.mp hfind
      obtain rfl : block = block' := by simpa using List.find?_some hb
      dsimp only
      by_cases hbad : w.fMerkleVerified = false ∧
          checkMerkleBranch K (w.tx.getHash K) w.vMerkleBranch w.nIndex ≠ block.hashMerkleRoot
      · rw [if_pos hbad]
        exact Or.inl ⟨rfl, rfl⟩
      · rw [if_neg hbad]
        refine Or.inr ⟨pindex, block, hblock, List.mem_of_find?_eq_some hb,
          fun hn => hnone (Or.inr hn), ?_, rfl⟩
        rw [not_and_or, Bool.not_eq_false, not_not] at hbad
        exact hbad

/-- **A flagged entry lies in the block it names.** -/
theorem Noted.mem_block (hroots : RootsOk K T P mapBlockIndex) (h : Noted K P mapBlockIndex w)
    (hw : w.tx ∈ T) (hflag : w.fMerkleVerified = true)
    (hblock : mapBlockIndex w.hashBlock = some block) :
    w.tx.getHash K ∈ block.vtx.map (·.getHash K) := by
  induction h generalizing block with
  | read hfalse =>
    rw [hfalse] at hflag
    cases hflag
  | @asked w c _ hmap hpairs ih =>
    rcases @getDepthInMainChainInternal_cases K c w with ⟨-, hsame⟩ |
      ⟨_, block', hblock', -, hindex, hverified, hdepth⟩
    · rw [hsame] at hw hflag hblock ⊢
      exact ih hw hflag hblock
    · rw [hdepth] at hw hblock ⊢
      dsimp only at hw hblock ⊢
      rw [hmap, hblock, Option.some_inj] at hblock'
      subst hblock'
      rcases hverified with hold | hcheck
      · exact ih hw hold hblock
      · exact hroots.mem_block hw hpairs hblock hindex hcheck
  | @told w hash block' tx _ hblock' htx hid ih =>
    have hsame : ∀ wtxIn : CMerkleTx, (w.merge wtxIn).tx = w.tx ∧
        (w.merge wtxIn).fMerkleVerified = w.fMerkleVerified ∧
        (w.merge wtxIn).hashBlock = if wtxIn.hashBlock ≠ 0 then wtxIn.hashBlock else w.hashBlock := by
      intro wtxIn
      unfold CMerkleTx.merge
      split_ifs <;> exact ⟨rfl, rfl, rfl⟩
    have hset : ((CMerkleTx.ofTx tx).setMerkleBranch K hash block').hashBlock = hash := by
      unfold CMerkleTx.setMerkleBranch
      split <;> rfl
    obtain ⟨htxs, hverified, hhash⟩ := hsame ((CMerkleTx.ofTx tx).setMerkleBranch K hash block')
    rw [hset] at hhash
    rw [htxs] at hw ⊢
    rw [hverified] at hflag
    rw [hhash] at hblock
    split at hblock
    · rw [hblock', Option.some_inj] at hblock
      subst hblock
      exact List.mem_map.mpr ⟨tx, htx, hid⟩
    · exact ih hw hflag hblock

/-- **An entry with a depth lies in a block of the main chain**, and the depth is that block's. -/
theorem depth_pos_mem (hroots : RootsOk K T P mapBlockIndex) (h : Noted K P mapBlockIndex w)
    (hw : w.tx ∈ T) (hpairs : ∀ p ∈ w.branchPairs K, p ∈ P) {c : MainChain}
    (hmap : c.mapBlockIndex = mapBlockIndex) (hdepth : 0 < w.getDepthInMainChain K c) :
    ∃ pindex block, (pindex, block) ∈ c.blocks ∧
      w.tx.getHash K ∈ block.vtx.map (·.getHash K) ∧
      w.getDepthInMainChain K c = (c.pindexBest.nHeight : Int) - pindex.nHeight + 1 := by
  have hinternal : w.getDepthInMainChain K c = (w.getDepthInMainChainInternal K c).1 := by
    unfold CMerkleTx.getDepthInMainChain at hdepth ⊢
    dsimp only at hdepth ⊢
    split at hdepth
    · omega
    · next hno => exact if_neg hno
  rcases @getDepthInMainChainInternal_cases K c w with ⟨hzero, -⟩ |
    ⟨pindex, block, hblock, hmem, hindex, hverified, heq⟩
  · omega
  · rw [hmap] at hblock
    refine ⟨pindex, block, hmem, ?_, ?_⟩
    · rcases hverified with hold | hcheck
      · exact h.mem_block hroots hw hold hblock
      · exact hroots.mem_block hw hpairs hblock hindex hcheck
    · rw [hinternal, heq]

end Breakout
