/-
# A chain that overruns 64 bits

No rule of `ConnectBlock` bounds its counters, and the blocks of the plan show it.  At height 300
the minted total of SIS is past `MAX_MONEY`; at height 600 it wraps and falls below the money
supply; at height 4701 the money supply itself wraps.

That every block of the plan connects is proved by induction on the height (`plan_reached`): the
state at a height (`PlanState`) holds the blocks of the plan, and its counters are the plan's
totals as 64-bit numbers.
-/
import Breakout.DoubleSpend
import Breakout.Limits
import Breakout.Plan
import Mathlib.Data.List.TakeWhile

namespace Breakout

open Lib

/-! ## 1. The chain of the plan -/

/-- A block of the plan with its index. -/
structure PlanBlock (h : Nat) (b : CBlockIndex × CBlock) : Prop where
  block : b.2 = blockAt h
  nHeight : b.1.nHeight = h
  nTime : b.1.nTime = timeAt h
  nFile : b.1.nFile = 1
  nBlockPos : b.1.nBlockPos = UInt32.ofNat h

/-- The blocks of the plan up to a height, the newest first. -/
def PlanBlocks : Nat → Blocks → Prop
  | 0, blocks => blocks = []
  | h + 1, blocks => ∃ b rest, blocks = b :: rest ∧ PlanBlock (h + 1) b ∧ PlanBlocks h rest

theorem PlanBlocks.of_mem {b : CBlockIndex × CBlock} :
    ∀ {h : Nat} {blocks : Blocks}, PlanBlocks h blocks → b ∈ blocks →
      ∃ k, 1 ≤ k ∧ k ≤ h ∧ PlanBlock k b
  | 0, _, hp, hb => by
    rw [hp] at hb
    cases hb
  | h + 1, _, ⟨b', rest, rfl, hb', hrest⟩, hb => by
    rcases List.mem_cons.mp hb with rfl | hb
    · exact ⟨h + 1, by omega, le_rfl, hb'⟩
    · obtain ⟨k, h1, hk, hkb⟩ := hrest.of_mem hb
      exact ⟨k, h1, by omega, hkb⟩

variable {k : Nat} {blocks : Blocks} {s : ChainState} {tx : CTransaction}

theorem PlanBlocks.exists_mem (hk : 1 ≤ k) :
    ∀ {h : Nat} {blocks : Blocks}, PlanBlocks h blocks → k ≤ h → ∃ b ∈ blocks, PlanBlock k b
  | 0, _, _, hkh => by omega
  | h + 1, _, ⟨b, rest, rfl, hb, hrest⟩, hkh => by
    rcases Nat.lt_or_ge h k with hlt | hge
    · obtain rfl : k = h + 1 := by omega
      exact ⟨b, List.mem_cons_self, hb⟩
    · obtain ⟨b', hb', hkb⟩ := hrest.exists_mem hk hge
      exact ⟨b', List.mem_cons_of_mem _ hb', hkb⟩

/-- The top of the plan's chain. -/
theorem PlanBlocks.tip :
    ∀ {h : Nat}, PlanBlocks h blocks → (tipOf planGenesis blocks).nHeight = h ∧
      (1 ≤ h → (tipOf planGenesis blocks).nTime = timeAt h)
  | 0, hp => by
    rw [hp]
    exact ⟨rfl, by omega⟩
  | h + 1, ⟨b, rest, hb, hpb, _⟩ => by
    rw [hb]
    exact ⟨hpb.nHeight, fun _ => hpb.nTime⟩

/-- An index of the plan lies where its height says. -/
theorem PlanBlocks.branch {h : Nat} (hp : PlanBlocks h blocks) {p : CBlockIndex}
    (hmem : p ∈ tipOf planGenesis blocks :: ancestorsOf planGenesis blocks) :
    p.nBlockPos = UInt32.ofNat p.nHeight ∧ p.nHeight ≤ h := by
  rw [branch_eq, List.mem_append, List.mem_singleton] at hmem
  rcases hmem with hmem | rfl
  · obtain ⟨b, hb, rfl⟩ := List.mem_map.mp hmem
    obtain ⟨k, -, hk, hkb⟩ := hp.of_mem hb
    exact ⟨by rw [hkb.nBlockPos, hkb.nHeight], by rw [hkb.nHeight]; exact hk⟩
  · exact ⟨rfl, Nat.zero_le _⟩

/-- The state of a node that has connected the plan up to a height. -/
structure PlanState (h : Nat) (s : ChainState) : Prop where
  accepted : Accepted planCrypto planTxs false planGenesis s
  blocks : PlanBlocks h s.blocks
  amount_eq : ∀ c : Color, c ≠ .none →
    amount planCrypto planTxs planGenesis s.blocks c = paidBy c h
  total_eq : ∀ c : Color, c ≠ .none →
    (tipOf planGenesis s.blocks).vTotalMint c = Int64.ofInt (mintedBy c h)

theorem PlanState.supply_eq {h : Nat} (hs : PlanState h s) {c : Color} (hc : c ≠ .none) :
    (tipOf planGenesis s.blocks).vMoneySupply c = Int64.ofInt (paidBy c h) := by
  rw [moneySupply_eq_ofInt planTxs_collisionFree hc
    (hs.accepted.reachable.inv planTxs_collisionFree).1, hs.amount_eq c hc]

/-- An entry of the index belongs to a transaction of a height already connected. -/
theorem PlanState.entry {h : Nat} (hs : PlanState h s) (hh : h ≤ lastHeight) (hk : k ≤ lastHeight)
    (htx : tx ∈ vtxAt k) {idx : CTxIndex} (hidx : s.txdb (tx.getHash planCrypto) = some idx) :
    k ≤ h ∧ idx.pos.nFile = 1 ∧ idx.pos.nBlockPos = UInt32.ofNat k := by
  obtain ⟨b, hb, hfile, hpos, t, ht, hid⟩ :=
    (hs.accepted.inv planTxs_collisionFree).stored _ _ hidx
  obtain ⟨j, -, hj, hjb⟩ := hs.blocks.of_mem hb
  rw [hjb.block] at ht
  obtain rfl := height_of_getHash (hj.trans hh) hk ht htx hid
  exact ⟨hj, by rw [← hfile, hjb.nFile], by rw [← hpos, hjb.nBlockPos]⟩

/-- The ids of the next height are new. -/
theorem PlanState.fresh {h : Nat} (hs : PlanState h s) (hh : h + 1 ≤ lastHeight)
    (htx : tx ∈ vtxAt (h + 1)) : s.txdb (tx.getHash planCrypto) = none := by
  cases hidx : s.txdb (tx.getHash planCrypto) with
  | none => rfl
  | some idx =>
    have := (hs.entry (by omega) hh htx hidx).1
    omega

/-! ## 2. One more height -/

section Rewards

variable {h : Nat} {pprev : CBlockIndex}

/-- What mining earns at a height. -/
theorem getPoWSubsidy_plan (hh : h + 1 ≤ lastHeight) (hheight : pprev.nHeight = h)
    (htime : 1 ≤ h → pprev.nTime = timeAt h) :
    (getPoWSubsidy pprev).nColor = colorAt (h + 1) ∧
      ((getPoWSubsidy pprev).nValue =
        if h + 1 < nColors then powSubsidy (colorAt (h + 1)) else 5000000000) := by
  unfold getPoWSubsidy
  rw [hheight]
  by_cases hlt : h + 1 < nColors
  · rw [dif_pos hlt, if_pos hlt, colorAt, dif_pos hlt]
    exact ⟨rfl, rfl⟩
  · have hfork := getFork_timeAt (h := h) (by omega)
    have hhalf : (h + 1) / 2103840 = 0 := by
      unfold lastHeight at hh
      omega
    rw [dif_neg hlt, if_neg hlt, colorAt, dif_neg hlt, hhalf,
      htime (by simp only [nColors] at hlt; omega), hfork]
    exact ⟨rfl, by decide⟩

/-- What staking earns at a height. -/
theorem getProofOfStakeReward_plan (hh : h + 1 ≤ lastHeight) (hheight : pprev.nHeight = h)
    (htime : 1 ≤ h → pprev.nTime = timeAt h) {card : Color} (hc : cardAt (h + 1) = some card) :
    (getProofOfStakeReward pprev card).nValue.toInt = mintAt (h + 1) := by
  have hspec := cardAt_spec hc
  obtain ⟨-, hmint, -, hpos, hlt, hvalue, -⟩ := card_reward card (by omega)
  have hge : ¬ h + 1 < nColors := by simp only [nColors]; omega
  have hfork : getFork pprev.nTime.toNat = .fork003 := by
    rw [htime (by omega), getFork_timeAt (by omega)]
  rw [getProofOfStakeReward, if_pos hpos, if_pos hlt, hmint, deckReward, hfork,
    if_neg (by decide), if_pos (by decide), (getPoWSubsidy_plan hh hheight htime).2, if_neg hge,
    mintAt, if_neg hge, hc]
  exact hvalue

theorem blockReward_plan (hh : h + 1 ≤ lastHeight) (hheight : pprev.nHeight = h)
    (htime : 1 ≤ h → pprev.nTime = timeAt h) :
    (blockReward pprev (blockAt (h + 1))).nColor = colorAt (h + 1) ∧
      (blockReward pprev (blockAt (h + 1))).nValue.toInt = mintAt (h + 1) := by
  have hvtx : (blockAt (h + 1)).vtx = vtxAt (h + 1) := rfl
  cases hc : cardAt (h + 1) with
  | none =>
    obtain ⟨hcolor, hvalue⟩ := getPoWSubsidy_plan hh hheight htime
    have hpos : (blockAt (h + 1)).isProofOfStake = false := by
      simp [CBlock.isProofOfStake, hvtx, vtxAt_of_cardAt_none hc]
    rw [blockReward, hpos, if_neg (by simp), getProofOfWorkReward, hcolor, hvalue, mintAt, hc]
    refine ⟨rfl, ?_⟩
    split_ifs <;> rfl
  | some card =>
    have hspec := cardAt_spec hc
    obtain ⟨-, hmint, -⟩ := card_reward card (by omega)
    have hstake : (blockAt (h + 1)).isProofOfStake = true := by
      simp [CBlock.isProofOfStake, hvtx, vtxAt, hc, CTransaction.isCoinStake, coinstakeAt,
        COutPoint.isNull, CTxOut.isEmpty]
    have hcolor : (coinstakeAt (h + 1) card).getColor = card.toInt32 := rfl
    have hreward : blockReward pprev (blockAt (h + 1)) = getProofOfStakeReward pprev card := by
      simp only [blockReward, hstake, if_true, hvtx, vtxAt, hc, Option.map_some,
        Option.toList_some, hcolor, tableIndex_toInt32]
    rw [hreward, colorAt_of_le (by simp only [nColors]; omega)]
    exact ⟨hmint, getProofOfStakeReward_plan hh hheight htime hc⟩

end Rewards

theorem burnedBy_plan (pprev : CBlockIndex) (h : Nat) (c : Color) :
    burnedBy pprev (blockAt h).vtx c = 0 := by
  have hblank : ∀ tx ∈ vtxAt h, burnSum tx.vout c.toInt32 = 0 := by
    intro tx htx
    rcases mem_vtxAt.mp htx with rfl | ⟨card, -, rfl⟩ <;> rfl
  unfold burnedBy
  split
  · refine List.sum_eq_zero fun x hx => ?_
    obtain ⟨tx, htx, rfl⟩ := List.mem_map.mp hx
    exact hblank tx htx
  · rfl

variable {card : Color} {s : ChainState} {b : CBlockIndex × CBlock}

/-- What a card's premine is worth. -/
theorem valueIn_card {h : Nat} (hc : cardAt h = some card) (c : Color) :
    valueIn planCrypto planTxs c ⟨(coinbaseAt card.val).getHash planCrypto, 0⟩ =
      colorSum (coinstakeAt h card).vout c.toInt32 := by
  have hspec := cardAt_spec hc
  obtain ⟨-, -, hone, -⟩ := card_reward card (by omega)
  have hmem : coinbaseAt card.val ∈ planTxs :=
    ⟨card.val, by unfold lastHeight; omega, mem_vtxAt.mpr (Or.inl rfl)⟩
  have hcolor : colorAt card.val = card := by rw [colorAt, dif_pos card.isLt]
  have hpay : payAt card.val = 1 := by rw [payAt, if_pos card.isLt, hcolor, hone]
  have hout := planTxs_collisionFree.outputIn_eq hmem
    (o := ⟨(coinbaseAt card.val).getHash planCrypto, 0⟩) (Eq.refl _)
  have hvout : (coinbaseAt card.val).vout[(0 : UInt32).toNat]? = some ⟨1, card.toInt32, []⟩ := by
    simp [coinbaseAt, hcolor, hpay]
  rw [valueIn, hout, hvout]
  simp [coinstakeAt, colorValue]

theorem fees_plan {h : Nat} {ctx : ConnectCtx} {pindex' : CBlockIndex} {txdb' : TxDB}
    {l : List (CTransaction × List CTxOut)} (hholds : ∀ tx, ctx.env.Holds tx → tx ∈ planTxs)
    (hb : ConnectedBlock planCrypto ctx (blockAt h) pindex' txdb' l) (c : Color) :
    sumOver (fun tx prevs => feeOf tx prevs c) l = 0 := by
  have hin := hb.connected.sum_spends planTxs_collisionFree hholds c
  have hnet := hb.net c
  have hmap : ∀ f : CTransaction → Int, (l.map fun p => f p.1).sum = ((vtxAt h).map f).sum := by
    intro f
    rw [show vtxAt h = l.map Prod.fst from hb.txs.symm, List.map_map]
    rfl
  have hout : sumOver (fun tx _ => colorSum tx.vout c.toInt32) l =
      ((vtxAt h).map fun tx => colorSum tx.vout c.toInt32).sum :=
    hmap fun tx => colorSum tx.vout c.toInt32
  rw [← hin, hout, hmap fun tx => (tx.spends.map (valueIn planCrypto planTxs c)).sum] at hnet
  have hpays : coinbasePays (blockAt h) c = colorSum (coinbaseAt h).vout c.toInt32 := rfl
  have hspend : (coinbaseAt h).spends = [] := rfl
  cases hc : cardAt h with
  | none =>
    rw [vtxAt_of_cardAt_none hc, hpays] at hnet
    simp only [List.map_cons, List.map_nil, List.sum_cons, List.sum_nil, hspend] at hnet
    omega
  | some card =>
    have hvalue := valueIn_card hc c
    have hcs : (coinstakeAt h card).spends =
        [⟨(coinbaseAt card.val).getHash planCrypto, 0⟩] := by
      simp [CTransaction.spends, CTransaction.isCoinBase, coinstakeAt, COutPoint.isNull]
    rw [vtxAt, hc, hpays] at hnet
    simp only [Option.map_some, Option.toList_some, List.map_cons, List.map_nil, List.sum_cons,
      List.sum_nil, hspend, hcs, hvalue] at hnet
    omega

/-- **Connecting the next height of the plan moves the totals as planned.** -/
theorem PlanState.step {h : Nat} {s : ChainState} (hs : PlanState h s) (hh : h + 1 ≤ lastHeight)
    {pindex' : CBlockIndex} {txdb' : TxDB}
    (hconn : connectBlock planCrypto planEnv s.txdb
      (newBlockIndex (planPos (h + 1)) (blockAt (h + 1)) (tipOf planGenesis s.blocks))
      (tipOf planGenesis s.blocks) (ancestorsOf planGenesis s.blocks) (blockAt (h + 1)) false =
        .ok (pindex', txdb')) :
    PlanState (h + 1) ⟨txdb', (pindex', blockAt (h + 1)) :: s.blocks⟩ := by
  obtain ⟨hheight, htime⟩ := hs.blocks.tip
  have hnext := toNat_timeAt hh
  have hlater : (tipOf planGenesis s.blocks).nTime < (blockAt (h + 1)).nTime := by
    show (tipOf planGenesis s.blocks).nTime < timeAt (h + 1)
    rw [UInt32.lt_iff_toNat_lt, hnext]
    rcases Nat.eq_zero_or_pos h with rfl | hpos
    · rw [show s.blocks = [] from hs.blocks]
      decide
    · rw [htime hpos, toNat_timeAt (by omega)]
      omega
  have hmem : ∀ tx ∈ (blockAt (h + 1)).vtx, tx ∈ planTxs := fun tx htx => ⟨h + 1, hh, htx⟩
  have hacc := Accepted.connect hs.accepted rfl (fun _ => planEnv_holds) hmem hlater hconn
  obtain ⟨l, hb⟩ := connectBlock_spec hconn
  have hok := (hacc.reachable.inv planTxs_collisionFree).1.ledgerOk planTxs_collisionFree
  obtain ⟨hcolor, hvalue⟩ := blockReward_plan hh hheight htime
  refine ⟨hacc, ⟨_, _, rfl, ⟨rfl, ?_, hb.nTime, hb.nFile, hb.nBlockPos⟩, hs.blocks⟩, ?_, ?_⟩
  · rw [← hheight]
    exact hb.nHeight
  · intro c hc
    rw [amount_cons planTxs_collisionFree hok (fun _ => planEnv_holds) hb c, hs.amount_eq c hc,
      fees_plan (fun _ => planEnv_holds) hb c, burnedBy_plan, paidBy, totalBy]
    have hpays : coinbasePays (blockAt (h + 1)) c =
        if colorAt (h + 1) = c then (payAt (h + 1)).toInt else 0 := by
      show colorSum [⟨payAt (h + 1), (colorAt (h + 1)).toInt32, []⟩] c.toInt32 = _
      simp
    rw [hpays]
    omega
  · intro c hc
    have hstep := hb.accounts c hc
    have hbase : mintBase (tipOf planGenesis s.blocks) (newBlockIndex (planPos (h + 1))
        (blockAt (h + 1)) (tipOf planGenesis s.blocks)) (blockAt (h + 1)) c =
        (tipOf planGenesis s.blocks).vTotalMint c := by
      have hreset : fReset (tipOf planGenesis s.blocks) (newBlockIndex (planPos (h + 1))
          (blockAt (h + 1)) (tipOf planGenesis s.blocks)) = false := by
        simp [fReset, newBlockIndex, blockAt, getFork_timeAt hh]
      simp [mintBase, totalMintPrev, hreset]
    have htotal := hstep.total
    rw [show (ctxOf planEnv s.txdb (planPos (h + 1)) (blockAt (h + 1)) (tipOf planGenesis s.blocks)
        (ancestorsOf planGenesis s.blocks)).pprev = tipOf planGenesis s.blocks from rfl,
      show (ctxOf planEnv s.txdb (planPos (h + 1)) (blockAt (h + 1)) (tipOf planGenesis s.blocks)
        (ancestorsOf planGenesis s.blocks)).pindex = newBlockIndex (planPos (h + 1))
          (blockAt (h + 1)) (tipOf planGenesis s.blocks) from rfl, hbase, hs.total_eq c hc,
      burnedBy_plan, mintOf, hcolor, hvalue] at htotal
    rw [tipOf, htotal, ← Int64.ofInt_add, mintedBy, totalBy]
    congr 2
    by_cases hcc : c = colorAt (h + 1)
    · simp [hcc]
    · simp [hcc, Ne.symm hcc]

/-! ## 3. Every height is reached -/

/-- The next height connects. -/
def Extends (h : Nat) (s : ChainState) : Prop :=
  ∃ pindex' txdb', connectBlock planCrypto planEnv s.txdb
    (newBlockIndex (planPos (h + 1)) (blockAt (h + 1)) (tipOf planGenesis s.blocks))
    (tipOf planGenesis s.blocks) (ancestorsOf planGenesis s.blocks) (blockAt (h + 1)) false =
      .ok (pindex', txdb')

/-- A height that stakes nothing connects. -/
theorem PlanState.work {h : Nat} (hs : PlanState h s) (hh : h + 1 ≤ lastHeight)
    (hc : cardAt (h + 1) = none) : Extends h s := by
  obtain ⟨hheight, htime⟩ := hs.blocks.tip
  have hvtx : (blockAt (h + 1)).vtx = [coinbaseAt (h + 1)] := vtxAt_of_cardAt_none hc
  have hpos : (blockAt (h + 1)).isProofOfStake = false := by simp [CBlock.isProofOfStake, hvtx]
  have hnone : colorAt (h + 1) ≠ .none := colorAt_ne_none (by omega)
  obtain ⟨hcolor, hvalue⟩ := blockReward_plan hh hheight htime
  rw [show blockReward (tipOf planGenesis s.blocks) (blockAt (h + 1)) =
    getProofOfWorkReward (tipOf planGenesis s.blocks) by simp [blockReward, hpos]] at hcolor hvalue
  refine connectBlock_work_ok rfl (checkBlock_work hh hc ⟨s.txdb, planEnv.disk⟩) hvtx rfl
    rfl hnone ?_ ?_ ?_ hcolor ?_
  · rw [show (coinbaseAt (h + 1)).nTime = timeAt (h + 1) from rfl, getFork_timeAt hh]
    decide
  · exact hs.fresh hh (mem_vtxAt.mpr (Or.inl rfl))
  · simp [fReset, newBlockIndex, blockAt, getFork_timeAt hh]
  · obtain ⟨h0, hfit, hle⟩ := payAt_le hh hc
    have hmint := getProofOfWorkReward_nonneg (tipOf planGenesis s.blocks)
    rw [hs.total_eq _ hnone, hs.supply_eq hnone, ← Int64.ofInt_sub,
      ← Int64.ofInt_toInt (getProofOfWorkReward (tipOf planGenesis s.blocks)).nValue, hvalue,
      ← Int64.ofInt_add, Int64.le_iff_toInt_le, toInt_ofInt_of_fits ⟨by omega, hfit⟩]
    exact hle

/-- The card a height stakes has not been spent. -/
theorem PlanState.card_unspent {h : Nat} (hs : PlanState h s) (hc : cardAt (h + 1) = some card) :
    Unspent s.txdb ⟨(coinbaseAt card.val).getHash planCrypto, 0⟩ := by
  have hspec := cardAt_spec hc
  obtain ⟨hchain, hset⟩ := hs.accepted.reachable.inv planTxs_collisionFree
  obtain ⟨b, hb, hkb⟩ := hs.blocks.exists_mem (k := card.val) (by omega) (by omega)
  rw [← mem_unspentSet, hset]
  by_contra hspent
  have hcreated : (⟨(coinbaseAt card.val).getHash planCrypto, 0⟩ : COutPoint) ∈
      created (ledgerOf planCrypto (txsOf s.blocks)) := by
    rw [created, List.mem_flatMap]
    refine ⟨(coinbaseAt card.val).toMove planCrypto, List.mem_map_of_mem (mem_txsOf.mpr
      ⟨b, hb, ?_⟩), ?_⟩
    · rw [hkb.block]
      exact mem_vtxAt.mpr (Or.inl rfl)
    · exact (CTransaction.mem_creates (by simp [coinbaseAt])).mpr ⟨Eq.refl _, Nat.one_pos⟩
  have hcons := mem_consumed_of_not_unspent hcreated hspent
  rw [consumed_ledgerOf, List.mem_flatMap] at hcons
  obtain ⟨tx, htx, ho⟩ := hcons
  obtain ⟨b', hb', htx⟩ := mem_txsOf.mp htx
  obtain ⟨k, -, hk, hkb'⟩ := hs.blocks.of_mem hb'
  rw [hkb'.block] at htx
  rcases mem_vtxAt.mp htx with rfl | ⟨card', hc', rfl⟩
  · cases ho
  · -- only the coinstake of this card's own height spends it, and that height is still to come
    have hspec' := cardAt_spec hc'
    have hspends : (coinstakeAt k card').spends =
        [⟨(coinbaseAt card'.val).getHash planCrypto, 0⟩] := by
      simp [CTransaction.spends, CTransaction.isCoinBase, coinstakeAt, COutPoint.isNull]
    rw [hspends, List.mem_singleton] at ho
    have hid := congrArg COutPoint.hash ho
    have := height_of_getHash (by unfold lastHeight; omega) (by unfold lastHeight; omega)
      (mem_vtxAt.mpr (Or.inl rfl)) (mem_vtxAt.mpr (Or.inl rfl)) hid
    omega

/-- A height that stakes connects. -/
theorem PlanState.stake {h : Nat} (hs : PlanState h s) (hh : h + 1 ≤ lastHeight)
    (hc : cardAt (h + 1) = some card) : Extends h s := by
  have hspec := cardAt_spec hc
  obtain ⟨hdeck, hmint, hone, hpos, hlt, hreward, hmark⟩ := card_reward card (by omega)
  obtain ⟨hheight, htime⟩ := hs.blocks.tip
  have hvtx : (blockAt (h + 1)).vtx = [coinbaseAt (h + 1), coinstakeAt (h + 1) card] := by
    show vtxAt (h + 1) = _
    simp [vtxAt, hc]
  have hge : nColors ≤ h + 1 := by simp only [nColors]; omega
  have hcolor : colorAt card.val = card := by rw [colorAt, dif_pos card.isLt]
  have hpay : payAt card.val = 1 := by rw [payAt, if_pos card.isLt, hcolor, hone]
  have hpay0 : payAt (h + 1) = 0 := by
    rw [payAt, if_neg (not_lt.mpr hge), if_pos (Or.inr (by rw [hc]; rfl))]
  have hsmall : card.val ≤ lastHeight := by unfold lastHeight; omega
  obtain ⟨idx, pos, hidx, hspent, hnull⟩ := hs.card_unspent hc
  obtain ⟨-, hfile, hblock⟩ := hs.entry (k := card.val) (by omega) hsmall
    (mem_vtxAt.mpr (Or.inl rfl)) hidx
  have hn : (UInt32.ofNat card.val).toNat = card.val := by
    rw [UInt32.toNat_ofNat', Nat.mod_eq_of_lt (by omega)]
  refine connectBlock_stake_ok rfl (checkBlock_stake hc ⟨s.txdb, planEnv.disk⟩) hvtx rfl ?_
    (?_ : MovesCard _ _ _ _ card ⟨⟨(coinbaseAt card.val).getHash planCrypto, 0⟩, [1, 1], 0⟩ idx
      (coinbaseAt card.val) _) ?_ ?_ hidx ?_
  · simp [coinbaseAt, hpay0, colorAt_of_le hge]
  · refine ⟨hdeck, rfl, rfl, ?_, rfl, by simp [COutPoint.isNull], ⟨pos, hspent, hnull⟩, ?_, ?_, ?_, ?_⟩
    · simp [coinbaseAt, hpay, hcolor]
    · have hne : idx.pos ≠ ⟨1, 1, 1⟩ := by
        intro he
        have := congrArg (fun p => p.nBlockPos.toNat) he
        simp only [hblock, hn] at this
        exact absurd this (by show ¬ card.val = 1; omega)
      simp only [readPrev, if_neg hne, planEnv, hblock, hn, if_pos hsmall]
    · -- the card lies deeper than the maturity
      rw [isConfirmedInNPrevBlocks, List.any_eq_false]
      intro p hp
      have hdepth := List.mem_takeWhile_imp hp
      have hmem := (List.takeWhile_sublist _).subset hp
      have hposp : p.nBlockPos = UInt32.ofNat p.nHeight ∧ p.nHeight ≤ h + 1 := by
        rcases List.mem_cons.mp hmem with rfl | hmem
        · exact ⟨by simp [newBlockIndex, hheight, planPos], by simp [newBlockIndex, hheight]⟩
        · obtain ⟨h1, h2⟩ := hs.blocks.branch hmem
          exact ⟨h1, by omega⟩
      have hfrom : (newBlockIndex (planPos (h + 1)) (blockAt (h + 1))
          (tipOf planGenesis s.blocks)).nHeight = h + 1 := by simp [newBlockIndex, hheight]
      simp only [hfrom, getCoinbaseMaturity, planEnv, Bool.false_eq_true, if_false,
        decide_eq_true_eq] at hdepth
      simp only [hposp.1, hblock, Bool.and_eq_true, beq_iff_eq, not_and]
      intro he
      have := congrArg UInt32.toNat he
      unfold lastHeight at hh
      rw [hn, UInt32.toNat_ofNat', Nat.mod_eq_of_lt (by omega)] at this
      omega
    · show (timeAt card.val).toNat ≤ (timeAt (h + 1)).toNat
      rw [toNat_timeAt hsmall, toNat_timeAt hh]
      omega
    · have hscript : ∀ ctx, verifyScript planCrypto ctx [1, 1] [] = true := fun _ => rfl
      simp [verifySignature, coinstakeAt, coinbaseAt, hscript]
  · intro tx htx
    rw [nTime_of_mem_vtxAt (h := h + 1) htx, getFork_timeAt hh]
    decide
  · exact fun tx htx => hs.fresh hh htx
  · rw [Int64.le_iff_toInt_le, getProofOfStakeReward_plan hh hheight htime hc, mintAt,
      if_neg (not_lt.mpr hge), hc]
    show (0 : Int) ≤ 10 ^ 18 + 10 ^ 16 * (basePosReward card).toInt
    omega

/-- **One more height of the plan connects.** -/
theorem PlanState.extend {h : Nat} (hs : PlanState h s) (hh : h + 1 ≤ lastHeight) :
    ∃ b txdb', PlanBlock (h + 1) b ∧ PlanState (h + 1) ⟨txdb', b :: s.blocks⟩ := by
  have hlater : ∀ b txdb', PlanState (h + 1) ⟨txdb', b :: s.blocks⟩ →
      PlanBlock (h + 1) b ∧ PlanState (h + 1) ⟨txdb', b :: s.blocks⟩ := by
    intro b txdb' hnext
    obtain ⟨b', rest, heq, hb', -⟩ := hnext.blocks
    obtain ⟨rfl, rfl⟩ := List.cons.inj heq
    exact ⟨hb', hnext⟩
  cases hc : cardAt (h + 1) with
  | none =>
    obtain ⟨pindex', txdb', hconn⟩ := hs.work hh hc
    exact ⟨_, _, hlater _ _ (hs.step hh hconn)⟩
  | some card =>
    obtain ⟨pindex', txdb', hconn⟩ := hs.stake hh hc
    exact ⟨_, _, hlater _ _ (hs.step hh hconn)⟩

/-- The plan is reached up to a height, with whatever each of its blocks keeps. -/
theorem plan_reached_with {n : Nat} (hn : n ≤ lastHeight) {Q : Blocks → Prop} (hnil : Q [])
    (hstep : ∀ h s b, h + 1 ≤ n → PlanState h s → PlanBlock (h + 1) b → Q s.blocks →
      Q (b :: s.blocks)) :
    ∀ {h : Nat}, h ≤ n → ∃ s, PlanState h s ∧ Q s.blocks
  | 0, _ => by
    refine ⟨⟨fun _ => none, []⟩, ⟨.genesis, rfl, ?_, ?_⟩, hnil⟩
    · intro c _
      simp [amount, burnedTotal, unspent, paidBy, totalBy]
    · intro c _
      rfl
  | h + 1, hh => by
    obtain ⟨s, hs, hq⟩ := plan_reached_with hn hnil hstep (h := h) (by omega)
    obtain ⟨b, txdb', hb, hnext⟩ := hs.extend (by omega)
    exact ⟨_, hnext, hstep h s b hh hs hb hq⟩

/-- **Every height of the plan is reached.** -/
theorem plan_reached {h : Nat} (hh : h ≤ lastHeight) : ∃ s, PlanState h s := by
  obtain ⟨s, hs, -⟩ := @plan_reached_with lastHeight le_rfl (fun _ => True) trivial
    (fun _ _ _ _ _ _ _ => trivial) h hh
  exact ⟨s, hs⟩

/-! ## 4. What the plan shows -/

/-- **The money supply wraps.**  At height 4701 the unspent SIS is worth more than 64 bits hold,
and the counter is negative. -/
theorem moneySupply_wraps :
    ∃ s, CollisionFree planCrypto planTxs ∧ Reachable planCrypto planTxs false planGenesis s ∧
      (tipOf planGenesis s.blocks).nHeight = 4701 ∧
      unspentTotal planCrypto s .sis - burnedTotal planGenesis s.blocks .sis =
        9225300000000000000 ∧
      (tipOf planGenesis s.blocks).vMoneySupply .sis = -9221444073709551616 ∧
      ((tipOf planGenesis s.blocks).vMoneySupply .sis).toInt ≠
        unspentTotal planCrypto s .sis - burnedTotal planGenesis s.blocks .sis := by
  obtain ⟨s, hs⟩ := plan_reached (h := 4701) le_rfl
  have hpaid : paidBy .sis 4701 = 9225300000000000000 := (sis_overrun (by decide)).2
  have hexact : unspentTotal planCrypto s .sis - burnedTotal planGenesis s.blocks .sis =
      9225300000000000000 := by
    rw [unspentTotal_sub_burned planTxs_collisionFree hs.accepted.reachable,
      hs.amount_eq .sis (by decide), hpaid]
  have hcounter : (tipOf planGenesis s.blocks).vMoneySupply .sis = -9221444073709551616 := by
    rw [hs.supply_eq (by decide), hpaid]
    decide
  refine ⟨s, planTxs_collisionFree, hs.accepted.reachable, hs.blocks.tip.1, hexact, hcounter, ?_⟩
  rw [hexact, hcounter]
  decide

/-- **The minted total falls below the money supply.**  At height 600 it wraps. -/
theorem totalMint_wraps :
    ∃ s, CollisionFree planCrypto planTxs ∧ Reachable planCrypto planTxs false planGenesis s ∧
      scavengable .sis = true ∧ (tipOf planGenesis s.blocks).nHeight = 600 ∧
      (tipOf planGenesis s.blocks).vMoneySupply .sis = 613200000000000000 ∧
      (tipOf planGenesis s.blocks).vTotalMint .sis = -8816741403709551616 ∧
      ¬ (tipOf planGenesis s.blocks).vMoneySupply .sis ≤
        (tipOf planGenesis s.blocks).vTotalMint .sis := by
  obtain ⟨s, hs⟩ := plan_reached (h := 600) (by decide)
  obtain ⟨hminted, hpaid⟩ := sis_overrun (h := 600) le_rfl
  have hsupply : (tipOf planGenesis s.blocks).vMoneySupply .sis = 613200000000000000 := by
    rw [hs.supply_eq (by decide), hpaid]
    decide
  have htotal : (tipOf planGenesis s.blocks).vTotalMint .sis = -8816741403709551616 := by
    rw [hs.total_eq _ (by decide), hminted]
    decide
  refine ⟨s, planTxs_collisionFree, hs.accepted.reachable, rfl, hs.blocks.tip.1, hsupply, htotal, ?_⟩
  rw [hsupply, htotal]
  decide

/-- **The minted total leaves its range.**  At height 300 one stake has minted five hundred times
what `MAX_MONEY` allows of SIS. -/
theorem totalMint_leaves_range :
    ∃ s, CollisionFree planCrypto planTxs ∧ Reachable planCrypto planTxs false planGenesis s ∧
      (tipOf planGenesis s.blocks).vTotalMint .sis = 1140001210000000000 ∧
      moneyRange ((tipOf planGenesis s.blocks).vTotalMint .sis) .sis = false ∧
      ¬ AccountsOk planCrypto planGenesis s.blocks := by
  obtain ⟨s, hs⟩ := plan_reached (h := 300) (by decide)
  have hminted : mintedBy .sis 300 = 1140001210000000000 := by decide +kernel
  have htotal := hs.total_eq .sis (by decide)
  rw [hminted] at htotal
  have hrange : moneyRange ((tipOf planGenesis s.blocks).vTotalMint .sis) .sis = false := by
    rw [htotal]
    decide
  refine ⟨s, planTxs_collisionFree, hs.accepted.reachable, by rw [htotal]; decide, hrange, ?_⟩
  intro hok
  obtain ⟨b, rest, hb, -⟩ := hs.blocks
  rw [hb] at hok hrange
  have hin := (hok.1 .sis (by decide)).2.2
  rw [show b.1.vTotalMint .sis = (tipOf planGenesis (b :: rest)).vTotalMint .sis from rfl,
    hrange] at hin
  cases hin

/-- At height 600, with nine cards staked, the counters of SIS and BRX are what the ledger says. -/
theorem moneySupply_eq_at_600 :
    ∃ s, Reachable planCrypto planTxs false planGenesis s ∧
      (tipOf planGenesis s.blocks).nHeight = 600 ∧
      ((tipOf planGenesis s.blocks).vMoneySupply .sis).toInt =
        unspentTotal planCrypto s .sis - burnedTotal planGenesis s.blocks .sis ∧
      ((tipOf planGenesis s.blocks).vMoneySupply .brx).toInt =
        unspentTotal planCrypto s .brx - burnedTotal planGenesis s.blocks .brx := by
  obtain ⟨s, hs⟩ := plan_reached (h := 600) (by decide)
  refine ⟨s, hs.accepted.reachable, hs.blocks.tip.1,
    (moneySupply_eq_iff planTxs_collisionFree hs.accepted.reachable (by decide)).mpr ?_,
    (moneySupply_eq_iff planTxs_collisionFree hs.accepted.reachable (by decide)).mpr ?_⟩
  · rw [unspentTotal_sub_burned planTxs_collisionFree hs.accepted.reachable,
      hs.amount_eq .sis (by decide), (sis_overrun le_rfl).2]
    decide
  · rw [unspentTotal_sub_burned planTxs_collisionFree hs.accepted.reachable,
      hs.amount_eq .brx (by decide), paidBy, totalBy_premined (by decide) (by decide)]
    decide

/-- At height 600 nine cards have been spent, each once. -/
theorem no_double_spend_at_600 :
    ∃ s, Accepted planCrypto planTxs false planGenesis s ∧
      (tipOf planGenesis s.blocks).nHeight = 600 ∧
      ((txsOf s.blocks).flatMap CTransaction.spends).Nodup := by
  obtain ⟨s, hs⟩ := plan_reached (h := 600) (by decide)
  exact ⟨s, hs.accepted, hs.blocks.tip.1, (no_double_spend planTxs_collisionFree hs.accepted).1⟩

/-- At height 57 everything is premined, and within its premine. -/
theorem premined_supply_at_57 :
    ∃ s, Reachable planCrypto planTxs false planGenesis s ∧
      (tipOf planGenesis s.blocks).nHeight = 57 ∧
      (tipOf planGenesis s.blocks).vMoneySupply .brx ≤ powSubsidy .brx := by
  obtain ⟨s, hs⟩ := plan_reached (h := 57) (by decide)
  exact ⟨s, hs.accepted.reachable, hs.blocks.tip.1,
    (premined_supply_le planTxs_collisionFree hs.accepted.reachable).2.1⟩

/-- The reward of a height, and the exact total it makes. -/
theorem PlanState.newTotal_eq {h : Nat} (hs : PlanState h s) (hh : h + 1 ≤ lastHeight)
    (hb : PlanBlock (h + 1) b) :
    (blockReward (tipOf planGenesis s.blocks) b.2).nColor = colorAt (h + 1) ∧
      newTotal (tipOf planGenesis s.blocks) b.1 b.2 (colorAt (h + 1)) =
        (Int64.ofInt (mintedBy (colorAt (h + 1)) h)).toInt + mintAt (h + 1) := by
  obtain ⟨hheight, htime⟩ := hs.blocks.tip
  obtain ⟨hcolor, hvalue⟩ := blockReward_plan hh hheight htime
  have hreset : fReset (tipOf planGenesis s.blocks) b.1 = false := by
    simp [fReset, hb.nTime, getFork_timeAt hh]
  have hbase : mintBase (tipOf planGenesis s.blocks) b.1 b.2 (colorAt (h + 1)) =
      (tipOf planGenesis s.blocks).vTotalMint (colorAt (h + 1)) := by
    simp [mintBase, totalMintPrev, hreset]
  rw [newTotal, hbase, hs.total_eq _ (colorAt_ne_none (by omega)), mintOf, hb.block, hcolor,
    if_pos rfl, hvalue, burnedBy_plan, sub_zero]
  exact ⟨rfl, rfl⟩

/-- Up to height 599 no total wraps. -/
theorem PlanState.newTotal_fits {h : Nat} (hs : PlanState h s) (hh : h + 1 ≤ 599)
    (hb : PlanBlock (h + 1) b) :
    newTotal (tipOf planGenesis s.blocks) b.1 b.2 (colorAt (h + 1)) =
      mintedBy (colorAt (h + 1)) (h + 1) := by
  have hfits := mintedBy_fits (colorAt (h + 1)) (h := h) (by omega)
  rw [(hs.newTotal_eq (by unfold lastHeight; omega) hb).2, toInt_ofInt_of_fits hfits, mintedBy,
    totalBy, if_pos rfl]

theorem totalOut_vtxAt {h : Nat} (hc : cardAt (h + 1) = none) {c : Color} :
    paidBy c h + totalOut (vtxAt (h + 1)) c = paidBy c (h + 1) := by
  rw [vtxAt_of_cardAt_none hc, paidBy, totalBy]
  simp [totalOut, coinbaseAt]

/-- At height 599, with eight cards staked, the totals fit and bound the money supply. -/
theorem moneySupply_le_totalMint_at_599 :
    ∃ s, Reachable planCrypto planTxs false planGenesis s ∧
      (tipOf planGenesis s.blocks).nHeight = 599 ∧ TotalsFit planGenesis s.blocks ∧
      (tipOf planGenesis s.blocks).vMoneySupply .sis ≤
        (tipOf planGenesis s.blocks).vTotalMint .sis := by
  obtain ⟨s, hs, hfit⟩ := @plan_reached_with 599 (by decide) (TotalsFit planGenesis) trivial
    (fun h s b hh hs hb hfit => ⟨by
      rw [(hs.newTotal_eq (by unfold lastHeight; omega) hb).1, hs.newTotal_fits hh hb]
      exact (mintedBy_fits _ hh).2, hfit⟩) 599 le_rfl
  exact ⟨s, hs.accepted.reachable, hs.blocks.tip.1, hfit,
    moneySupply_le_totalMint planTxs_collisionFree hs.accepted.reachable hfit rfl⟩

/-- At height 299, the last before a total leaves its range, the accounts are within their limits. -/
theorem accountsOk_at_299 :
    ∃ s, Reachable planCrypto planTxs false planGenesis s ∧ WithinLimits planGenesis s.blocks ∧
      (tipOf planGenesis s.blocks).nHeight = 299 ∧ AccountsOk planCrypto planGenesis s.blocks := by
  obtain ⟨s, hs, hlim⟩ := @plan_reached_with 299 (by decide) (WithinLimits planGenesis) trivial
    (fun h s b hh hs hb hlim => by
      have hnew := hs.newTotal_fits (by omega) hb
      refine ⟨?_, fun c hc => ?_, hlim⟩
      · rw [(hs.newTotal_eq (by unfold lastHeight; omega) hb).1, hnew]
        exact (mintedBy_mono _ hh).trans (totals_bounded _).2.1
      · have hpaid := paidBy_fits c (h := h) (by omega)
        rw [hs.supply_eq hc, toInt_ofInt_of_fits hpaid, hb.block]
        show paidBy c h + totalOut (vtxAt (h + 1)) c < 2 ^ 63
        rw [totalOut_vtxAt (cardAt_eq_none (Or.inl (by omega)) (by omega))]
        exact (paidBy_fits c hh).2) 299 le_rfl
  exact ⟨s, hs.accepted.reachable, hlim, hs.blocks.tip.1,
    accountsOk_of_withinLimits planTxs_collisionFree hs.accepted.reachable hlim⟩

end Breakout
