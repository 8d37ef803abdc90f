/-
# Where the coinbase and the coinstake stand

A block is a proof-of-stake block when its second transaction is a coinstake.  `CheckBlock` lets no
other transaction of such a block be one; of a block that is not, it asks nothing of the kind, so that
a coinstake can stand anywhere from the third place on.

`checkBlock_placed_iff` is the exact statement.
-/
import Breakout.BlockContext

namespace Breakout

open Lib

variable {K : Crypto}

/-- **The two places**: the first transaction is the only coinbase, and none but the second is a
coinstake. -/
def CBlock.Placed (block : CBlock) : Prop :=
  ∀ i tx, block.vtx[i]? = some tx → (tx.isCoinBase = true ↔ i = 0) ∧ (tx.isCoinStake = true → i = 1)

/-- The branch that looks for coinstakes is taken, or there is none for it to find. -/
def CBlock.StakesLookedFor (block : CBlock) : Prop :=
  block.isProofOfStake = true ∨ ∀ tx ∈ block.vtx.drop 2, tx.isCoinStake = false

/-- Coinstakes stand in the second place of a block whose first transaction is a coinbase when none
stands further back. -/
theorem isCoinStake_place {coinbase : CTransaction} {rest : List CTransaction}
    (hcb : coinbase.isCoinBase = true)
    (hnone : ∀ tx ∈ (coinbase :: rest).drop 2, tx.isCoinStake = false) {i : Nat}
    {tx : CTransaction} (htx : (coinbase :: rest)[i]? = some tx) (hstake : tx.isCoinStake = true) :
    i = 1 := by
  match i with
  | 0 =>
    rw [List.getElem?_cons_zero, Option.some_inj] at htx
    rw [← htx, CTransaction.isCoinBase_not_isCoinStake hcb] at hstake
    cases hstake
  | 1 => rfl
  | i + 2 =>
    have hmem : tx ∈ (coinbase :: rest).drop 2 := by
      refine List.mem_of_getElem? (i := i) ?_
      rwa [List.getElem?_drop, Nat.add_comm]
    rw [hnone tx hmem] at hstake
    cases hstake

/-- **When the places of an accepted block are right**, whichever optional checks were made. -/
theorem checkBlock_placed_iff {clock : Clock} {st : TxStore} {block : CBlock}
    {fPOW fMerkle fSig : Bool} (h : checkBlock K clock st block fPOW fMerkle fSig = .ok ()) :
    block.Placed ↔ block.StakesLookedFor := by
  have hchecked := checkBlock_spec h
  obtain ⟨coinbase, rest, hvtx, hcb, hrest, -⟩ := hchecked.coinbase_first
  constructor
  · intro hplaced
    refine Or.inr fun tx htx => ?_
    obtain ⟨i, hi⟩ := List.getElem?_of_mem htx
    rw [List.getElem?_drop] at hi
    by_contra hstake
    have hone := (hplaced _ tx hi).2 (Bool.not_eq_false _ ▸ hstake)
    omega
  · intro hlooked i tx htx
    have hnone : ∀ tx ∈ block.vtx.drop 2, tx.isCoinStake = false := by
      rcases hlooked with hpos | hnone
      · exact hchecked.coinstake_second hpos
      · exact hnone
    rw [hvtx] at htx hnone
    refine ⟨?_, isCoinStake_place hcb hnone htx⟩
    match i with
    | 0 =>
      rw [List.getElem?_cons_zero, Option.some_inj] at htx
      rw [← htx]
      exact iff_of_true hcb rfl
    | i + 1 =>
      rw [List.getElem?_cons_succ] at htx
      rw [hrest tx (List.mem_of_getElem? htx)]
      exact iff_of_false Bool.false_ne_true (Nat.succ_ne_zero i)

theorem checkBlock_placed_iff_staked :
    stakedBlock.Placed ↔ stakedBlock.StakesLookedFor :=
  @checkBlock_placed_iff (Crypto.sample stakerSigned) ⟨false, 1777836782⟩
    (.single (Crypto.sample stakerSigned) stakedTx) stakedBlock true true true (by decide +kernel)

/-- A block of work between the third and the fourth fork: after the coinbase and a payment stands a
coinstake. -/
def lateStakeBlock : CBlock :=
  let coinbase : CTransaction :=
    ⟨1, 1502434816, [⟨⟨0, 0xffffffff⟩, [1, 1], 0⟩], [⟨0, Color.brk.toInt32, [op1]⟩], 0, [], 0⟩
  let payment : CTransaction :=
    ⟨2, 1502434816, [⟨⟨7, 0⟩, [], 0⟩], [⟨5, Color.brk.toInt32, [op1]⟩], 0, [], 0⟩
  let coinstake : CTransaction :=
    ⟨3, 1502434816, [⟨⟨8, 0⟩, [], 0⟩],
      [⟨0, Color.brx.toInt32, []⟩, ⟨5, Color.brx.toInt32, [op1]⟩], 0, [], 0⟩
  let block : CBlock :=
    ⟨6, 0, 0, 1502434816, 0x1d3fffff, 0, 0, 0, 0, [coinbase, payment, coinstake], []⟩
  { block with hashMerkleRoot := block.buildMerkleTree (Crypto.sample []) }

/-- **A coinstake in the third place** of a block that `CheckBlock` accepts. -/
theorem lateStakeBlock_accepted :
    checkBlock (Crypto.sample []) ⟨false, 1502434816⟩ .empty lateStakeBlock true true true = .ok () ∧
      lateStakeBlock.isProofOfStake = false ∧ ¬ lateStakeBlock.Placed := by
  refine ⟨by decide +kernel, by decide +kernel, fun h => ?_⟩
  have hone := (h 2 _ rfl).2 (by decide +kernel)
  cases hone

end Breakout
