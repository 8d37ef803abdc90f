/-
# The Merkle tree of a block, its branches, and what the root says

`BuildMerkleTree` lays the tree out in one vector, level after level, each level after the one it
was made of.  The last hash of the vector is the root (`CBlock.vMerkleTree_root`), and the branch
that `GetMerkleBranch` reads out of the vector leads back to it (`checkMerkleBranch_getMerkleBranch`).

A level of odd length has its last hash paired with itself, so that a block whose last transactions
are repeated has the root of the block without them.  `CheckBlock` refuses a block with the same
transaction twice, and that is enough: two blocks it lets pass with the same `hashMerkleRoot` have
the same transaction ids (`txids_eq_of_same_root`).
-/
import Mathlib.Data.Nat.Bitwise
import Breakout.Commitment

namespace Breakout

open Lib

variable (K : Crypto)

/-! ## 1. The vector -/

/-- The inner loop of `BuildMerkleTree`: the parents of the `nSize` hashes from place `j` on are
pushed, two by two. -/
def pushParents (j nSize : Nat) (vMerkleTree : List UInt256) : List UInt256 :=
  (List.range' 0 ((nSize + 1) / 2) 2).foldl
    (fun tree i =>
      let i2 := min (i + 1) (nSize - 1)
      tree ++ [pairHash K (tree.getD (j + i) 0) (tree.getD (j + i2) 0)])
    vMerkleTree

/-- The outer loop; a level is at least halved in every round, so that there are no more rounds than
hashes in the first. -/
def buildLevels : Nat → Nat → Nat → List UInt256 → List UInt256
  | 0, _, _, vMerkleTree => vMerkleTree
  | fuel + 1, j, nSize, vMerkleTree =>
    if nSize > 1 then
      buildLevels fuel (j + nSize) ((nSize + 1) / 2) (pushParents K j nSize vMerkleTree)
    else vMerkleTree

/-- `vMerkleTree` as `BuildMerkleTree` leaves it. -/
def CBlock.vMerkleTree (block : CBlock) : List UInt256 :=
  buildLevels K block.vtx.length 0 block.vtx.length (block.vtx.map (·.getHash K))

/-- The loop of `GetMerkleBranch`. -/
def branchLoop (vMerkleTree : List UInt256) : Nat → Nat → Nat → Nat → List UInt256
  | 0, _, _, _ => []
  | fuel + 1, j, nSize, nIndex =>
    if nSize > 1 then
      let i := min (nIndex ^^^ 1) (nSize - 1)
      vMerkleTree.getD (j + i) 0 ::
        branchLoop vMerkleTree fuel (j + nSize) ((nSize + 1) / 2) (nIndex >>> 1)
    else []

def CBlock.getMerkleBranch (block : CBlock) (nIndex : Nat) : List UInt256 :=
  branchLoop (block.vMerkleTree K) block.vtx.length 0 block.vtx.length nIndex

/-- The loop of `CheckMerkleBranch`. -/
def climbBranch : UInt256 → List UInt256 → Nat → UInt256
  | hash, [], _ => hash
  | hash, otherside :: vMerkleBranch, nIndex =>
    climbBranch (if nIndex &&& 1 = 1 then pairHash K otherside hash else pairHash K hash otherside)
      vMerkleBranch (nIndex >>> 1)

/-- `CBlock::CheckMerkleBranch`; an index of `-1` is that of a transaction that was not found. -/
def checkMerkleBranch (hash : UInt256) (vMerkleBranch : List UInt256) (nIndex : Option Nat) :
    UInt256 :=
  match nIndex with
  | none => 0
  | some nIndex => climbBranch K hash vMerkleBranch nIndex

variable {K}

/-! ## 2. The vector, level by level -/

/-- What the inner loop pushes is one level up. -/
theorem pushParents_eq (pre level : List UInt256) :
    pushParents K pre.length level.length (pre ++ level) =
      pre ++ level ++ pairUp (pairHash K) level := by
  -- what is read lies in the level, whatever has been pushed behind it
  have hfold : ∀ (l : List Nat) (acc : List UInt256), (∀ i ∈ l, i < level.length) →
      l.foldl (fun tree i =>
        let i2 := min (i + 1) (level.length - 1)
        tree ++ [pairHash K (tree.getD (pre.length + i) 0) (tree.getD (pre.length + i2) 0)])
        (pre ++ level ++ acc) =
      pre ++ level ++ acc ++
        l.map fun i => pairHash K (level.getD i 0) (level.getD (min (i + 1) (level.length - 1)) 0) := by
    intro l
    induction l with
    | nil =>
      intro acc _
      simp
    | cons i l ih =>
      intro acc hl
      obtain ⟨hi, hl⟩ := List.forall_mem_cons.mp hl
      have hread : ∀ k, k < level.length →
          (pre ++ level ++ acc).getD (pre.length + k) 0 = level.getD k 0 := by
        intro k hk
        simp only [List.getD_eq_getElem?_getD]
        rw [List.append_assoc, List.getElem?_append_right (by omega), Nat.add_sub_cancel_left,
          List.getElem?_append_left hk]
      rw [List.foldl_cons]
      dsimp only
      rw [hread i hi, hread _ (by omega), List.append_assoc (pre ++ level), ih _ hl, List.map_cons]
      simp
  have hmem : ∀ i ∈ List.range' 0 ((level.length + 1) / 2) 2, i < level.length := by
    intro i hi
    obtain ⟨k, hk, rfl⟩ := List.mem_range'.mp hi
    omega
  have hfold' := hfold _ [] hmem
  rw [List.append_nil] at hfold'
  unfold pushParents
  rw [hfold', pairUp_eq_map (pairHash K) 0]

/-- The vector ends with what the climb ends with. -/
theorem buildLevels_eq : ∀ (fuel : Nat) (pre level : List UInt256),
    ∃ lower, buildLevels K fuel pre.length level.length (pre ++ level) =
      lower ++ climb (pairHash K) fuel level
  | 0, pre, level => ⟨pre, rfl⟩
  | fuel + 1, pre, level => by
    rw [buildLevels, climb]
    by_cases hsize : level.length > 1
    · rw [if_pos hsize, if_neg (by omega), pushParents_eq, ← List.length_append,
        ← length_pairUp (pairHash K)]
      exact buildLevels_eq fuel (pre ++ level) (pairUp (pairHash K) level)
    · rw [if_neg hsize, if_pos (by omega)]
      exact ⟨pre, rfl⟩

/-- **The root is the last hash of the vector.** -/
theorem CBlock.vMerkleTree_root (block : CBlock) :
    (block.vMerkleTree K).getLastD 0 = block.buildMerkleTree K := by
  by_cases hne : block.vtx = []
  · simp [CBlock.vMerkleTree, CBlock.buildMerkleTree, hne, buildLevels, merkleRoot, climb]
  · obtain ⟨lower, hlevels⟩ := buildLevels_eq (K := K) block.vtx.length []
      (block.vtx.map (·.getHash K))
    rw [List.length_map, List.length_nil, List.nil_append] at hlevels
    have hone : (climb (pairHash K) block.vtx.length (block.vtx.map (·.getHash K))).length = 1 :=
      length_climb (pairHash K) (by simp) (by simpa using hne)
    obtain ⟨root, hroot⟩ := List.length_eq_one_iff.mp hone
    have hmerkle : merkleRoot (pairHash K) (block.vtx.map (·.getHash K)) = some root := by
      rw [merkleRoot, List.length_map, hroot]
      rfl
    have hbuild : block.buildMerkleTree K =
        (merkleRoot (pairHash K) (block.vtx.map (·.getHash K))).getD 0 := rfl
    rw [hbuild, hmerkle, CBlock.vMerkleTree, hlevels, hroot]
    simp

/-! ## 3. Branches -/

/-- Nothing that has been pushed is changed. -/
theorem buildLevels_prefix : ∀ (fuel : Nat) (pre level : List UInt256),
    ∃ upper, buildLevels K fuel pre.length level.length (pre ++ level) = pre ++ level ++ upper
  | 0, pre, level => ⟨[], (List.append_nil _).symm⟩
  | fuel + 1, pre, level => by
    rw [buildLevels]
    by_cases hsize : level.length > 1
    · rw [if_pos hsize, pushParents_eq, ← List.length_append, ← length_pairUp (pairHash K)]
      obtain ⟨upper, hupper⟩ := buildLevels_prefix fuel (pre ++ level) (pairUp (pairHash K) level)
      exact ⟨pairUp (pairHash K) level ++ upper, by rw [hupper, List.append_assoc]⟩
    · rw [if_neg hsize]
      exact ⟨[], (List.append_nil _).symm⟩

/-- A hash and its neighbour, in their order, are the pair above them. -/
theorem pairUp_getD_half (level : List UInt256) {nIndex : Nat} (hlt : nIndex < level.length) :
    (if nIndex &&& 1 = 1 then
        pairHash K (level.getD (min (nIndex ^^^ 1) (level.length - 1)) 0) (level.getD nIndex 0)
      else
        pairHash K (level.getD nIndex 0) (level.getD (min (nIndex ^^^ 1) (level.length - 1)) 0)) =
      (pairUp (pairHash K) level).getD (nIndex >>> 1) 0 := by
  have hshift : nIndex >>> 1 = nIndex / 2 := rfl
  have hhalf : nIndex / 2 < (level.length + 1) / 2 := by omega
  have hpair : (pairUp (pairHash K) level).getD (nIndex >>> 1) 0 =
      pairHash K (level.getD (0 + 2 * (nIndex / 2)) 0)
        (level.getD (min (0 + 2 * (nIndex / 2) + 1) (level.length - 1)) 0) := by
    have hplace : nIndex / 2 < (List.range' 0 ((level.length + 1) / 2) 2).length := by
      rwa [List.length_range']
    rw [hshift, pairUp_eq_map (pairHash K) 0, List.getD_eq_getElem?_getD, List.getElem?_map,
      List.getElem?_eq_getElem hplace, List.getElem_range']
    rfl
  rw [hpair, Nat.and_one_is_mod]
  rcases Nat.mod_two_eq_zero_or_one nIndex with heven | hodd
  · have hown : 0 + 2 * (nIndex / 2) = nIndex := by omega
    rw [if_neg (by omega), Nat.xor_one_of_even (Nat.even_iff.mpr heven), hown]
  · have hown : min (0 + 2 * (nIndex / 2) + 1) (level.length - 1) = nIndex := by omega
    have hother : min (nIndex - 1) (level.length - 1) = 0 + 2 * (nIndex / 2) := by omega
    rw [if_pos hodd, Nat.xor_one_of_odd (Nat.odd_iff.mpr hodd), hown, hother]

/-- A branch leads from a hash of a level to the end of the climb. -/
theorem climbBranch_branchLoop : ∀ (fuel : Nat) (pre level : List UInt256) (nIndex : Nat),
    nIndex < level.length → level.length ≤ fuel →
      climbBranch K (level.getD nIndex 0)
        (branchLoop (buildLevels K fuel pre.length level.length (pre ++ level)) fuel pre.length
          level.length nIndex) nIndex =
      (climb (pairHash K) fuel level).headD 0
  | 0, _, level, nIndex, hlt, hfuel => absurd hlt (by omega)
  | fuel + 1, pre, level, nIndex, hlt, hfuel => by
    obtain ⟨upper, hupper⟩ := buildLevels_prefix (K := K) (fuel + 1) pre level
    by_cases hsize : level.length > 1
    · have hread : (pre ++ level ++ upper).getD
          (pre.length + min (nIndex ^^^ 1) (level.length - 1)) 0 =
          level.getD (min (nIndex ^^^ 1) (level.length - 1)) 0 := by
        simp only [List.getD_eq_getElem?_getD]
        rw [List.append_assoc, List.getElem?_append_right (by omega), Nat.add_sub_cancel_left,
          List.getElem?_append_left (by omega)]
      have hlevels : buildLevels K (fuel + 1) pre.length level.length (pre ++ level) =
          buildLevels K fuel (pre ++ level).length (pairUp (pairHash K) level).length
            (pre ++ level ++ pairUp (pairHash K) level) := by
        rw [buildLevels, if_pos hsize, pushParents_eq, ← List.length_append,
          ← length_pairUp (pairHash K)]
      have hlen := length_pairUp (pairHash K) level
      have hhalf : nIndex / 2 < (pairUp (pairHash K) level).length := by omega
      have ih := climbBranch_branchLoop fuel (pre ++ level) (pairUp (pairHash K) level)
        (nIndex >>> 1) hhalf (by omega)
      rw [← hlevels, List.length_append, hlen] at ih
      rw [branchLoop, if_pos hsize]
      dsimp only
      rw [climbBranch, climb, if_neg (Nat.not_le.mpr hsize), ← ih, hupper, hread, pairUp_getD_half level hlt]
    · have hzero : nIndex = 0 := by omega
      rw [branchLoop, if_neg hsize, climb, if_pos (by omega), hzero]
      cases level with
      | nil => cases hlt
      | cons a level => rfl

/-- **A branch leads back to the root**: the branch `GetMerkleBranch` gives for a transaction of the
block is one `CheckMerkleBranch` computes the root from. -/
theorem checkMerkleBranch_getMerkleBranch (block : CBlock) {nIndex : Nat} {tx : CTransaction}
    (htx : block.vtx[nIndex]? = some tx) :
    checkMerkleBranch K (tx.getHash K) (block.getMerkleBranch K nIndex) (some nIndex) =
      block.buildMerkleTree K := by
  have hid : (block.vtx.map (·.getHash K)).getD nIndex 0 = tx.getHash K := by
    rw [List.getD_eq_getElem?_getD, List.getElem?_map, htx]
    rfl
  have hlt : nIndex < (block.vtx.map (·.getHash K)).length := by
    rw [List.length_map]
    exact (List.getElem?_eq_some_iff.mp htx).1
  have hclimb := climbBranch_branchLoop (K := K) block.vtx.length [] _ nIndex hlt (by simp)
  rw [hid, List.length_map, List.length_nil, List.nil_append] at hclimb
  have hbuild : block.buildMerkleTree K =
      ((climb (pairHash K) (block.vtx.map (·.getHash K)).length
        (block.vtx.map (·.getHash K))).head?).getD 0 := rfl
  rw [hbuild, List.length_map, ← List.headD_eq_head?_getD, ← hclimb]
  rfl

/-- `GetMerkleBranch` at a block whose vector is already there, or is empty. -/
def CBlock.cachedMerkleBranch (K : Crypto) (block : CBlock) (vMerkleTree : List UInt256)
    (nIndex : Nat) : List UInt256 :=
  branchLoop (if vMerkleTree.isEmpty then block.vMerkleTree K else vMerkleTree) block.vtx.length 0
    block.vtx.length nIndex

/-- **Every index has a branch that checks.**  For each index below the number of transactions, what
`CheckMerkleBranch` computes from the id and the branch at the index is what `BuildMerkleTree`
returns, the last hash of the vector; the branch may be read out of a vector that is made for it, or
out of the one `BuildMerkleTree` has left in the block. -/
theorem checkMerkleBranch_index (block : CBlock) (nIndex : Fin block.vtx.length)
    (vMerkleTree : List UInt256) (hcached : vMerkleTree = [] ∨ vMerkleTree = block.vMerkleTree K) :
    checkMerkleBranch K (block.vtx[nIndex].getHash K)
        (block.cachedMerkleBranch K vMerkleTree nIndex) (some nIndex) =
      (block.vMerkleTree K).getLastD 0 := by
  have hbranch : block.cachedMerkleBranch K vMerkleTree nIndex =
      block.getMerkleBranch K nIndex := by
    unfold CBlock.cachedMerkleBranch CBlock.getMerkleBranch
    rcases hcached with hnone | hbuilt
    · rw [hnone]
      rfl
    · rw [hbuilt, ite_self]
  have htx : block.vtx[(nIndex : Nat)]? = some block.vtx[nIndex] :=
    List.getElem?_eq_getElem nIndex.isLt
  rw [hbranch, checkMerkleBranch_getMerkleBranch block htx, block.vMerkleTree_root]

/-- A block of three transactions, whose third id is paired with itself. -/
theorem checkMerkleBranch_index_three :
    ∃ block : CBlock, ∃ nIndex : Fin block.vtx.length, nIndex.val = 2 ∧
      checkMerkleBranch forkCrypto (block.vtx[nIndex].getHash forkCrypto)
          (block.cachedMerkleBranch forkCrypto [] nIndex) (some nIndex) =
        (block.vMerkleTree forkCrypto).getLastD 0 := by
  let tx : UInt32 → CTransaction := fun nTime =>
    { nVersion := 1, nTime := nTime, vin := [], vout := [], nLockTime := 0, strTxComment := [],
      nServiceTypeID := 0 }
  let block : CBlock := { spendBlock goodSig with vtx := [tx 1, tx 2, tx 3] }
  exact ⟨block, ⟨2, by decide⟩, rfl, checkMerkleBranch_index block ⟨2, by decide⟩ [] (Or.inl rfl)⟩

/-! ## 4. What the root says -/

/-- The pairs that are hashed for the root. -/
def CBlock.hashedPairs (K : Crypto) (block : CBlock) : List (UInt256 × UInt256) :=
  merklePairs (pairHash K) (block.vtx.map (·.getHash K))

/-- The root of a block that passes is the one in its header. -/
theorem checkBlock_root {clock : Clock} {st : TxStore} {block : CBlock} {fCheckPOW fCheckSig : Bool}
    (h : checkBlock K clock st block fCheckPOW true fCheckSig = .ok ()) :
    block.hashMerkleRoot = block.buildMerkleTree K := by
  simp only [checkBlock, bind_eq_ok, refuse_eq_ok] at h
  obtain ⟨-, -, -, -, -, -, -, -, -, -, -, -, -, -, -, -, -, -, -, -, hroot⟩ := h
  simpa using hroot

/-- **The root says which transactions a block has.**  Two blocks pass `CheckBlock`, whichever of its
other optional checks are made and whenever, and have the same `hashMerkleRoot`.  If the pair hash
does not collide on the pairs that are hashed for the two roots, and none of the transaction ids is
such a hash, the transaction ids are the same, in the same order. -/
theorem txids_eq_of_same_root {a b : CBlock} {clock clock' : Clock} {st st' : TxStore}
    {fCheckPOW fCheckSig fCheckPOW' fCheckSig' : Bool}
    (ha : checkBlock K clock st a fCheckPOW true fCheckSig = .ok ())
    (hb : checkBlock K clock' st' b fCheckPOW' true fCheckSig' = .ok ())
    (hinj : ∀ p ∈ a.hashedPairs K ++ b.hashedPairs K, ∀ q ∈ a.hashedPairs K ++ b.hashedPairs K,
      pairHash K p.1 p.2 = pairHash K q.1 q.2 → p = q)
    (hid : ∀ tx ∈ a.vtx ++ b.vtx, ∀ p ∈ a.hashedPairs K ++ b.hashedPairs K,
      tx.getHash K ≠ pairHash K p.1 p.2)
    (hroot : a.hashMerkleRoot = b.hashMerkleRoot) :
    a.vtx.map (·.getHash K) = b.vtx.map (·.getHash K) := by
  have hchecked := checkBlock_spec ha
  have hchecked' := checkBlock_spec hb
  have hne : ∀ {block : CBlock} {clock : Clock}, CheckedBlock K clock block →
      block.vtx.map (·.getHash K) ≠ [] := by
    intro block clock hc
    obtain ⟨coinbase, rest, hv, -⟩ := hc.coinbase_first
    simp [hv]
  have hleaf : ∀ ⦃x c d⦄, x ∈ (a.vtx ++ b.vtx).map (·.getHash K) →
      (c, d) ∈ a.hashedPairs K ++ b.hashedPairs K → x ≠ pairHash K c d := by
    intro x c d hx hcd
    obtain ⟨tx, htx, rfl⟩ := List.mem_map.mp hx
    exact hid tx htx (c, d) hcd
  have hpair : ∀ ⦃c d e f⦄, (c, d) ∈ a.hashedPairs K ++ b.hashedPairs K →
      (e, f) ∈ a.hashedPairs K ++ b.hashedPairs K → pairHash K c d = pairHash K e f →
      c = e ∧ d = f := by
    intro c d e f hcd hef heq
    exact Prod.mk.inj (hinj (c, d) hcd (e, f) hef heq)
  refine merkleRoot_inj hpair hleaf (hne hchecked) (hne hchecked') hchecked.txids_nodup
    hchecked'.txids_nodup ?_ ?_ ?_ ?_ ?_
  · intro x hx
    rw [List.map_append]
    exact List.mem_append_left _ hx
  · intro x hx
    rw [List.map_append]
    exact List.mem_append_right _ hx
  · exact fun p hp => List.mem_append_left _ hp
  · exact fun p hp => List.mem_append_right _ hp
  · rw [hchecked.buildMerkleTree_eq, hchecked'.buildMerkleTree_eq,
      ← checkBlock_root ha, ← checkBlock_root hb, hroot]

/-- Two blocks that differ in an input script have the same root and the same transaction ids. -/
theorem txids_eq_of_same_root_padded :
    (spendBlock goodSig).vtx.map (·.getHash spendCrypto) =
      (spendBlock paddedSig).vtx.map (·.getHash spendCrypto) := by
  have hpairs : ((spendBlock goodSig).hashedPairs spendCrypto ++
      (spendBlock paddedSig).hashedPairs spendCrypto).all (fun p =>
        ((spendBlock goodSig).hashedPairs spendCrypto ++
          (spendBlock paddedSig).hashedPairs spendCrypto).all fun q =>
        decide (pairHash spendCrypto p.1 p.2 = pairHash spendCrypto q.1 q.2 → p = q)) = true := by
    decide +kernel
  have hids : ((spendBlock goodSig).vtx ++ (spendBlock paddedSig).vtx).all (fun tx =>
      ((spendBlock goodSig).hashedPairs spendCrypto ++
        (spendBlock paddedSig).hashedPairs spendCrypto).all fun p =>
      decide (tx.getHash spendCrypto ≠ pairHash spendCrypto p.1 p.2)) = true := by
    decide +kernel
  exact txids_eq_of_same_root spendBlock_checked.1 spendBlock_checked.2
    (fun p hp q hq => of_decide_eq_true (List.all_eq_true.mp (List.all_eq_true.mp hpairs p hp) q hq))
    (fun tx htx p hp => of_decide_eq_true (List.all_eq_true.mp (List.all_eq_true.mp hids tx htx) p hp))
    (by decide +kernel)

end Breakout
