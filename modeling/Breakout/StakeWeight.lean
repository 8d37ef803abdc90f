/-
# The weight a wallet stakes with

`GetStakeWeight` goes through the staking colours with one accumulator.  For each of them
`GetStakeWeightByColor` adds the whole coins that are deep enough to it, and then multiplies it by
the weight multiplier of the colour: not what it has added, but all there is, what the colours
before have left included.  For a colour of which the wallet has nothing to stake it fails, and with
it `GetStakeWeight`, at the first such colour.

There are fifty-four staking colours, and fifty-three of them are cards, whose multiplier is a
multiple of `2^20`.  So in 64 bits nothing is left of any colour but the last three cards
(`getStakeWeight_iff`).  The weight is what it should be for a wallet that can stake every colour
and, within the money range, has mature whole coins of the last card at most.
-/
import Breakout.AvailableCoins
import Breakout.BlockIndex
import Breakout.Kernel

namespace Breakout

open Lib

/-! ## 1. The weight -/

/-- What is read of the node: the network, `GetTime()` and `pindexBest->nTime`. -/
structure StakingNode where
  fTestNet : Bool
  nTime : UInt32
  nTimeBest : UInt32

namespace CoinWallet

variable {K : Crypto} (w : CoinWallet K) (node : StakingNode)

/-- What `GetStakeWeightByColor` chooses: "staking is not for multisigs". -/
def stakeChoice (c : Color) : Chosen :=
  w.selectCoinsSimple (w.getSpendable c - w.vReserveBalance c) c node.nTime
    (getCoinbaseMaturity node.fTestNet + 1) false

/-- The coins it goes through. -/
def stakeCoins (c : Color) : List COutput :=
  coinsOf (w.availableCoinsMinConf c (getCoinbaseMaturity node.fTestNet + 1) false)
    (w.stakeChoice node c).setCoinsRet

/-- What a coin adds to `nWeight`. -/
def addStakeCoin (c : Color) (nWeight : UInt64) (o : COutput) : UInt64 :=
  if getStakeMinConfirmations node.fTestNet c.toInt32 ≤ o.nDepth then
    nWeight + (o.nValue / coin c).toUInt64
  else nWeight

/-- `CWallet::GetStakeWeightByColor`: what it returns, and `nWeight` afterwards. -/
def getStakeWeightByColor (c : Color) (nWeight : UInt64) : Bool × UInt64 :=
  if canStake c = false then (false, nWeight)
  else if w.getSpendable c ≤ w.vReserveBalance c then (false, nWeight)
  else if (w.stakeChoice node c).setCoinsRet = ∅ then (false, nWeight)
  else
    let nWeight := (w.stakeCoins node c).foldl (addStakeCoin node c) nWeight
    (true, nWeight * (getWeightMultiplier c node.nTimeBest.toNat).toUInt64)

/-- The loop of `GetStakeWeight`. -/
def stakeWeightLoop : List Color → UInt64 → Bool × UInt64
  | [], nWeight => (true, nWeight)
  | c :: colors, nWeight =>
    if canStake c then
      match w.getStakeWeightByColor node c nWeight with
      | (false, nWeight) => (false, nWeight)
      | (true, nWeight) => stakeWeightLoop colors nWeight
    else stakeWeightLoop colors nWeight

def getStakeWeight : Bool × UInt64 := w.stakeWeightLoop node realColors 0

/-! ## 2. What it should be -/

/-- The staking colours. -/
def stakingColors : List Color := realColors.filter canStake

/-- There is something to stake of a colour: the balance is above the reserve, and there is a coin
to choose. -/
def Stakable (c : Color) : Prop :=
  w.vReserveBalance c < w.getSpendable c ∧ (w.stakeChoice node c).setCoinsRet ≠ ∅

instance (c : Color) : Decidable (w.Stakable node c) := inferInstanceAs (Decidable (_ ∧ _))

/-- The whole coins that a coin is worth, where it is deep enough. -/
def matureCoins (c : Color) (o : COutput) : Int :=
  if getStakeMinConfirmations node.fTestNet c.toInt32 ≤ o.nDepth then (o.nValue / coin c).toInt
  else 0

/-- The mature staking coins of a colour, in whole coins. -/
def wholeCoins (c : Color) : Int := ((w.stakeCoins node c).map (matureCoins node c)).sum

/-- The mature staking coins of a colour, and none where there is nothing to stake. -/
def stakeOf (c : Color) : Int := if w.Stakable node c then w.wholeCoins node c else 0

/-- `GetWeightMultiplier`, now. -/
def multiplierOf (c : Color) : Int := (getWeightMultiplier c node.nTimeBest.toNat).toInt

/-- **The weight**: over all staking colours, the mature coins times the multiplier. -/
def stakeWeight : Int :=
  (stakingColors.map fun c => w.stakeOf node c * multiplierOf node c).sum

/-- `GetStakeWeight` succeeds, with the weight. -/
def WeighsRight : Prop :=
  (w.getStakeWeight node).1 = true ∧ ((w.getStakeWeight node).2.toNat : Int) = w.stakeWeight node

instance : Decidable (w.WeighsRight node) := inferInstanceAs (Decidable (_ ∧ _))

/-- What 64 bits leave of the mature coins: those of the last three cards, each times the multiplier
once for every card from there on. -/
def lastCards : Int :=
  w.stakeOf node 54 * multiplierOf node .kingOfHearts ^ 3 +
    w.stakeOf node 55 * multiplierOf node .kingOfHearts ^ 2 +
    w.stakeOf node 56 * multiplierOf node .kingOfHearts

/-- No colour has more mature coins than there can be of it. -/
def CoinsInRange : Prop :=
  ∀ c ∈ stakingColors, 0 ≤ w.stakeOf node c ∧ w.stakeOf node c * (coin c).toInt ≤ (maxMoney c).toInt

instance : Decidable (w.CoinsInRange node) := inferInstanceAs (Decidable (∀ c ∈ stakingColors, _))

/-! ## 3. The accumulator -/

variable {w node}

theorem addStakeCoin_modEq (c : Color) (nWeight : UInt64) (o : COutput) :
    ((addStakeCoin node c nWeight o).toNat : Int) ≡ nWeight.toNat + matureCoins node c o
      [ZMOD 2 ^ 64] := by
  unfold addStakeCoin matureCoins
  split
  · exact (toNat_add_modEq _ _).trans ((toNat_toUInt64_modEq _).add_left _)
  · rw [add_zero]

theorem foldl_addStakeCoin_modEq (c : Color) (coins : List COutput) (nWeight : UInt64) :
    ((coins.foldl (addStakeCoin node c) nWeight).toNat : Int) ≡
      nWeight.toNat + (coins.map (matureCoins node c)).sum [ZMOD 2 ^ 64] := by
  induction coins generalizing nWeight with
  | nil => rw [List.map_nil, List.sum_nil, add_zero, List.foldl_nil]
  | cons o coins ih =>
    rw [List.foldl_cons, List.map_cons, List.sum_cons, ← add_assoc]
    exact (ih _).trans ((addStakeCoin_modEq c nWeight o).add_right _)

variable {c : Color}

/-- **One colour**: it fails, and leaves the accumulator as it was, or adds its coins to what there
is and multiplies the whole. -/
theorem getStakeWeightByColor_cases (w : CoinWallet K) (node : StakingNode)
    (hc : canStake c = true) (nWeight : UInt64) :
    (¬ w.Stakable node c ∧ w.getStakeWeightByColor node c nWeight = (false, nWeight)) ∨
      (w.Stakable node c ∧ ∃ n : UInt64, w.getStakeWeightByColor node c nWeight = (true, n) ∧
        (n.toNat : Int) ≡ (nWeight.toNat + w.stakeOf node c) * multiplierOf node c
          [ZMOD 2 ^ 64]) := by
  unfold getStakeWeightByColor
  rw [if_neg (by rw [hc]; decide)]
  by_cases hstakable : w.Stakable node c
  · right
    have hbalance : ¬ w.getSpendable c ≤ w.vReserveBalance c := Int64.not_le.mpr hstakable.1
    rw [if_neg hbalance, if_neg hstakable.2, stakeOf, if_pos hstakable]
    refine ⟨hstakable, _, rfl, (toNat_mul_modEq _ _).trans ?_⟩
    exact (foldl_addStakeCoin_modEq c _ nWeight).mul (toNat_toUInt64_modEq _)
  · left
    refine ⟨hstakable, ?_⟩
    by_cases hbalance : w.getSpendable c ≤ w.vReserveBalance c
    · rw [if_pos hbalance]
    · have hempty : (w.stakeChoice node c).setCoinsRet = ∅ := by
        by_contra hne
        exact hstakable ⟨Int64.not_le.mp hbalance, hne⟩
      rw [if_neg hbalance, if_pos hempty]

/-- The exact value that the accumulator stands for, colour after colour. -/
def scaled (w : CoinWallet K) (node : StakingNode) : List Color → Int → Int
  | [], t => t
  | c :: colors, t => scaled w node colors ((t + w.stakeOf node c) * multiplierOf node c)

/-- **The loop** ends well exactly when every staking colour of it has something to stake. -/
theorem stakeWeightLoop_spec (w : CoinWallet K) (node : StakingNode) (colors : List Color)
    {nWeight : UInt64} {t : Int} (ht : (nWeight.toNat : Int) ≡ t [ZMOD 2 ^ 64]) :
    ((w.stakeWeightLoop node colors nWeight).1 = true ↔
        ∀ c ∈ colors.filter canStake, w.Stakable node c) ∧
      ((w.stakeWeightLoop node colors nWeight).1 = true →
        ((w.stakeWeightLoop node colors nWeight).2.toNat : Int) ≡
          scaled w node (colors.filter canStake) t [ZMOD 2 ^ 64]) := by
  induction colors generalizing nWeight t with
  | nil => exact ⟨iff_of_true rfl nofun, fun _ => ht⟩
  | cons c colors ih =>
    rw [stakeWeightLoop]
    by_cases hc : canStake c = true
    · rw [if_pos hc, List.filter_cons_of_pos hc, scaled, List.forall_mem_cons]
      rcases getStakeWeightByColor_cases w node hc nWeight with
        ⟨hnot, heq⟩ | ⟨hstakable, n, heq, hn⟩
      · rw [heq]
        exact ⟨iff_of_false Bool.false_ne_true fun h => hnot h.1, nofun⟩
      · rw [heq]
        have hstep := ih (hn.trans ((ht.add_right _).mul_right _))
        exact ⟨hstep.1.trans (and_iff_right hstakable).symm, hstep.2⟩
    · rw [if_neg hc, List.filter_cons_of_neg hc]
      exact ih ht

/-! ## 4. What is left of it -/

theorem scaled_append (colors colors' : List Color) (t : Int) :
    scaled w node (colors ++ colors') t = scaled w node colors' (scaled w node colors t) := by
  induction colors generalizing t with
  | nil => rfl
  | cons c colors ih => exact ih _

/-- The staking colours: BRX, and then the cards up to the last. -/
theorem stakingColors_eq : stakingColors = stakingColors.take 50 ++ [53, 54, 55, 56] := by decide

theorem multiplierOf_card (hc : isDeck c.toInt32 = true) :
    multiplierOf node c = multiplierOf node .kingOfHearts := by
  have hcards : ∀ c : Color, isDeck c.toInt32 = true →
      weightMultiplier c = weightMultiplier .kingOfHearts := by
    decide
  have hking : isDeck Color.kingOfHearts.toInt32 = true := by decide
  rw [multiplierOf, multiplierOf, getWeightMultiplier, getWeightMultiplier, hc, hking, hcards c hc]

/-- The multiplier of the cards, before the fork and after it. -/
theorem multiplierOf_kingOfHearts (node : StakingNode) :
    multiplierOf node .kingOfHearts = 409600000000 ∨
      multiplierOf node .kingOfHearts = 104857600000000 := by
  unfold multiplierOf getWeightMultiplier
  split
  · exact Or.inl (by decide)
  · exact Or.inr (by decide)

/-- **Of the whole accumulator the last three cards are left.** -/
theorem scaled_modEq_lastCards :
    scaled w node stakingColors 0 ≡ w.lastCards node [ZMOD 2 ^ 64] := by
  have hfourth : multiplierOf node .kingOfHearts ^ 4 ≡ 0 [ZMOD 2 ^ 64] := by
    rcases multiplierOf_kingOfHearts node with h | h <;> rw [h] <;> decide
  have h53 : multiplierOf node 53 = multiplierOf node .kingOfHearts := multiplierOf_card (by decide)
  have h54 : multiplierOf node 54 = multiplierOf node .kingOfHearts := multiplierOf_card (by decide)
  have h55 : multiplierOf node 55 = multiplierOf node .kingOfHearts := multiplierOf_card (by decide)
  have h56 : multiplierOf node 56 = multiplierOf node .kingOfHearts := rfl
  rw [stakingColors_eq, scaled_append]
  generalize scaled w node (stakingColors.take 50) 0 = t
  simp only [scaled, h53, h54, h55, h56, lastCards]
  generalize multiplierOf node .kingOfHearts = m at hfourth ⊢
  calc ((((t + w.stakeOf node 53) * m + w.stakeOf node 54) * m + w.stakeOf node 55) * m +
        w.stakeOf node 56) * m
      = (t + w.stakeOf node 53) * m ^ 4 + (w.stakeOf node 54 * m ^ 3 + w.stakeOf node 55 * m ^ 2 +
        w.stakeOf node 56 * m) := by ring
    _ ≡ (t + w.stakeOf node 53) * 0 + (w.stakeOf node 54 * m ^ 3 + w.stakeOf node 55 * m ^ 2 +
        w.stakeOf node 56 * m) [ZMOD 2 ^ 64] := (hfourth.mul_left _).add_right _
    _ = w.stakeOf node 54 * m ^ 3 + w.stakeOf node 55 * m ^ 2 + w.stakeOf node 56 * m := by
        rw [mul_zero, zero_add]

/-- **When the weight is right**, for any wallet. -/
theorem weighsRight_iff : w.WeighsRight node ↔ (∀ c ∈ stakingColors, w.Stakable node c) ∧
    0 ≤ w.stakeWeight node ∧ w.stakeWeight node < 2 ^ 64 ∧
      w.stakeWeight node ≡ w.lastCards node [ZMOD 2 ^ 64] := by
  have hzero : ((0 : UInt64).toNat : Int) ≡ 0 [ZMOD 2 ^ 64] := rfl
  obtain ⟨hends, hvalue⟩ := stakeWeightLoop_spec w node realColors hzero
  rw [WeighsRight, getStakeWeight, hends]
  refine and_congr_right fun hall => ?_
  exact toNat_eq_iff_of_modEq ((hvalue (hends.mpr hall)).trans scaled_modEq_lastCards)

/-! ## 5. In the money range -/

/-- The staking colours but the last card. -/
def othersOf : List Color := stakingColors.dropLast

theorem stakingColors_split : stakingColors = othersOf ++ [.kingOfHearts] := by decide

theorem mem_othersOf : c ∈ othersOf ↔ c ∈ stakingColors ∧ c ≠ .kingOfHearts := by
  revert c
  decide

/-- What the staking colours but the last card add to the weight. -/
def othersWeight (w : CoinWallet K) (node : StakingNode) : Int :=
  (othersOf.map fun c => w.stakeOf node c * multiplierOf node c).sum

theorem stakeWeight_eq : w.stakeWeight node =
    w.othersWeight node + w.stakeOf node 56 * multiplierOf node .kingOfHearts := by
  rw [stakeWeight, stakingColors_split, List.map_append, List.sum_append, List.map_singleton,
    List.sum_singleton]
  rfl

theorem multiplierOf_brx : multiplierOf node .brx = 1 := by
  have hdeck : ¬ (isDeck Color.brx.toInt32 = true ∧ getFork node.nTimeBest.toNat < .fork002) :=
    fun h => absurd h.1 (by decide)
  rw [multiplierOf, getWeightMultiplier, if_neg hdeck]
  decide

/-- A staking colour is BRX or a card. -/
theorem stakingColor_cases (h : c ∈ stakingColors) :
    c = .brx ∨ isDeck c.toInt32 = true ∧ coin c = 1 ∧ maxMoney c = 1 := by
  revert c
  decide

/-- In range, a colour adds a weight that is not negative and at most that of one card. -/
theorem CoinsInRange.weight_bounds (h : w.CoinsInRange node) (hc : c ∈ stakingColors) :
    0 ≤ w.stakeOf node c * multiplierOf node c ∧
      w.stakeOf node c * multiplierOf node c ≤ multiplierOf node .kingOfHearts := by
  obtain ⟨h0, hmax⟩ := h c hc
  have hking := multiplierOf_kingOfHearts node
  rcases stakingColor_cases hc with rfl | ⟨hdeck, hcoin, hmoney⟩
  · have hcoin : (coin Color.brx).toInt = 100000000 := by decide
    have hmoney : (maxMoney Color.brx).toInt = 1250000000000000 := by decide
    rw [hcoin, hmoney] at hmax
    rw [multiplierOf_brx]
    omega
  · rw [hcoin, hmoney] at hmax
    have hone : (1 : Int64).toInt = 1 := rfl
    rw [hone] at hmax
    rw [multiplierOf_card hdeck]
    rcases hking with hm | hm <;> rw [hm] <;> omega

theorem CoinsInRange.othersWeight_bounds (h : w.CoinsInRange node) : 0 ≤ w.othersWeight node ∧
    w.othersWeight node ≤ 53 * multiplierOf node .kingOfHearts := by
  have hbounds : ∀ x ∈ othersOf.map fun c => w.stakeOf node c * multiplierOf node c,
      0 ≤ x ∧ x ≤ multiplierOf node .kingOfHearts := by
    intro x hx
    obtain ⟨c, hc, rfl⟩ := List.mem_map.mp hx
    exact h.weight_bounds (mem_othersOf.mp hc).1
  refine ⟨List.sum_nonneg fun x hx => (hbounds x hx).1, ?_⟩
  have hle := List.sum_le_card_nsmul _ _ fun x hx => (hbounds x hx).2
  rw [List.length_map, nsmul_eq_mul] at hle
  exact hle

/-- In range, the others add nothing exactly when none of them has a mature coin. -/
theorem CoinsInRange.othersWeight_eq_zero_iff (h : w.CoinsInRange node) :
    w.othersWeight node = 0 ↔ ∀ c ∈ stakingColors, c ≠ .kingOfHearts → w.stakeOf node c = 0 := by
  constructor
  · intro hzero c hc hking
    obtain ⟨h0, -⟩ := h.weight_bounds hc
    have hle : w.stakeOf node c * multiplierOf node c ≤ w.othersWeight node := by
      refine List.single_le_sum (fun x hx => ?_) _
        (List.mem_map_of_mem (mem_othersOf.mpr ⟨hc, hking⟩))
      obtain ⟨d, hd, rfl⟩ := List.mem_map.mp hx
      exact (h.weight_bounds (mem_othersOf.mp hd).1).1
    have hmultiplier : multiplierOf node c ≠ 0 := by
      rcases stakingColor_cases hc with rfl | ⟨hdeck, -⟩
      · rw [multiplierOf_brx]
        decide
      · rw [multiplierOf_card hdeck]
        rcases multiplierOf_kingOfHearts node with hm | hm <;> rw [hm] <;> decide
    exact (mul_eq_zero.mp (by omega)).resolve_right hmultiplier
  · intro hall
    refine List.sum_eq_zero fun x hx => ?_
    obtain ⟨c, hc, rfl⟩ := List.mem_map.mp hx
    obtain ⟨hmem, hking⟩ := mem_othersOf.mp hc
    rw [hall c hmem hking, zero_mul]

theorem CoinsInRange.card_bounds (h : w.CoinsInRange node) (hc : c ∈ stakingColors)
    (hdeck : isDeck c.toInt32 = true) : w.stakeOf node c = 0 ∨ w.stakeOf node c = 1 := by
  have hcards : ∀ c : Color, isDeck c.toInt32 = true → coin c = 1 ∧ maxMoney c = 1 := by decide
  obtain ⟨hcoin, hmoney⟩ := hcards c hdeck
  obtain ⟨h0, hmax⟩ := h c hc
  have hone : (1 : Int64).toInt = 1 := rfl
  rw [hcoin, hmoney, hone, mul_one] at hmax
  omega

/-- In range, what 64 bits leave is the weight only where the last card has it all. -/
theorem CoinsInRange.exact_iff (h : w.CoinsInRange node) :
    (0 ≤ w.stakeWeight node ∧ w.stakeWeight node < 2 ^ 64 ∧
      w.stakeWeight node ≡ w.lastCards node [ZMOD 2 ^ 64]) ↔ w.othersWeight node = 0 := by
  obtain ⟨h0, hle⟩ := h.othersWeight_bounds
  have h54 := h.card_bounds (c := 54) (by decide) (by decide)
  have h55 := h.card_bounds (c := 55) (by decide) (by decide)
  have h56 := h.card_bounds (c := 56) (by decide) (by decide)
  have hking := multiplierOf_kingOfHearts node
  constructor
  · rintro ⟨-, -, hmod⟩
    -- the others are worth less than what 64 bits make of the square or the cube
    rw [stakeWeight_eq, lastCards, Int.modEq_iff_dvd] at hmod
    obtain ⟨k, hk⟩ := hmod
    generalize w.othersWeight node = others at *
    rcases hking with hm | hm <;> rw [hm] at hk hle <;> rcases h54 with h54 | h54 <;>
      rcases h55 with h55 | h55 <;> rw [h54, h55] at hk <;> omega
  · intro hzero
    have hnone := h.othersWeight_eq_zero_iff.mp hzero
    rw [stakeWeight_eq, hzero, lastCards, hnone 54 (by decide) (by decide),
      hnone 55 (by decide) (by decide), zero_mul, zero_mul]
    refine ⟨?_, ?_, rfl⟩ <;> rcases hking with hm | hm <;> rw [hm] <;> omega

/-- **When the weight is right.**  For any wallet: there is something to stake of every staking
colour, and the weight fits 64 bits and is congruent to what they leave of the last three cards.
And where no colour has more coins than there can be of it: there is something to stake of every
staking colour, and of none but the last card a mature whole coin. -/
theorem getStakeWeight_iff (w : CoinWallet K) (node : StakingNode) :
    (w.WeighsRight node ↔ (∀ c ∈ stakingColors, w.Stakable node c) ∧
      0 ≤ w.stakeWeight node ∧ w.stakeWeight node < 2 ^ 64 ∧
        w.stakeWeight node ≡ w.lastCards node [ZMOD 2 ^ 64]) ∧
    (w.CoinsInRange node → (w.WeighsRight node ↔ (∀ c ∈ stakingColors, w.Stakable node c) ∧
      ∀ c ∈ stakingColors, c ≠ .kingOfHearts → w.wholeCoins node c = 0)) := by
  refine ⟨weighsRight_iff, fun h => weighsRight_iff.trans (and_congr_right fun hall => ?_)⟩
  rw [h.exact_iff, h.othersWeight_eq_zero_iff]
  refine forall₂_congr fun c hc => imp_congr_right fun _ => ?_
  rw [stakeOf, if_pos (hall c hc)]

end CoinWallet

/-! ## 6. Two wallets -/

/-- A wallet of one entry with the given outputs, all confirmed long ago. -/
def oldCoins (outputs : List CTxOut) (h : outputs.length ≤ 2 ^ 32) : CoinWallet (.sample []) where
  mapWallet :=
    [⟨⟨0, ⟨1, 0, [], outputs, 0, [], 0⟩, fun _ => true⟩, true, true, 0, 20000, fun _ => false⟩]
  nodup_address := List.nodup_singleton _
  nodup_hash := List.nodup_singleton _
  sized := List.forall_mem_singleton.mpr h
  isMine _ _ := isMineSpendable
  maps := Function.update BalanceMaps.clear .confirmed
    (outputs.foldl (fun m txout => m.add txout.nColor txout.nValue) .empty)
  vMinimumInputValue _ := 0
  vReserveBalance _ := 0

/-- A node of the main net, long after the forks. -/
def weighingNode : StakingNode := ⟨false, 1700000000, 1700000000⟩

/-- A wallet without coins. -/
def noCoins : CoinWallet (.sample []) := oldCoins [] (by decide)

/-- A wallet with a coin of every staking colour. -/
def wholeDeck : CoinWallet (.sample []) :=
  oldCoins (CoinWallet.stakingColors.map fun c => ⟨coin c, c.toInt32, []⟩) (by decide)

/-- A wallet with a coin of every staking colour, of which only the last card is mature. -/
def kingDeck : CoinWallet (.sample []) where
  mapWallet :=
    [⟨⟨0, ⟨1, 0, [], [⟨coin .kingOfHearts, Color.kingOfHearts.toInt32, []⟩], 0, [], 0⟩,
        fun _ => true⟩, true, true, 0, 20000, fun _ => false⟩,
      ⟨⟨1, ⟨1, 1, [], CoinWallet.othersOf.map fun c => ⟨coin c, c.toInt32, []⟩, 0, [], 0⟩,
        fun _ => true⟩, true, true, 0, 300, fun _ => false⟩]
  nodup_address := by decide
  nodup_hash := by decide +kernel
  sized := by decide
  isMine _ _ := isMineSpendable
  maps := wholeDeck.maps
  vMinimumInputValue _ := 0
  vReserveBalance _ := 0

/-- Three wallets in range: without coins, with a mature coin of every colour, and with a mature coin
of the last card alone. -/
theorem getStakeWeight_iff_deck :
    ¬ noCoins.WeighsRight weighingNode ∧ ¬ wholeDeck.WeighsRight weighingNode ∧
      kingDeck.WeighsRight weighingNode := by
  refine ⟨fun h => ?_, fun h => ?_, ?_⟩
  · have hall := ((CoinWallet.getStakeWeight_iff noCoins weighingNode).2 (by decide +kernel)).mp h
    exact absurd hall.1 (by decide +kernel)
  · have hall := ((CoinWallet.getStakeWeight_iff wholeDeck weighingNode).2 (by decide +kernel)).mp h
    exact absurd (hall.2 .brx (by decide) (by decide)) (by decide +kernel)
  · refine ((CoinWallet.getStakeWeight_iff kingDeck weighingNode).2 (by decide +kernel)).mpr ?_
    exact ⟨by decide +kernel, by decide +kernel⟩

/-- **Two wallets weighed wrong.**  One without coins, whose weight is zero, fails; and one with a
coin of every colour gets what 64 bits leave of the last two cards. -/
theorem weighed_wrong :
    (¬ noCoins.WeighsRight weighingNode ∧
      noCoins.getStakeWeight weighingNode = (false, 0) ∧
      noCoins.stakeWeight weighingNode = 0) ∧
    ¬ wholeDeck.WeighsRight weighingNode ∧
      wholeDeck.getStakeWeight weighingNode = (true, 13907220506920091648) ∧
      wholeDeck.stakeWeight weighingNode = 5557452800000001 := by
  decide +kernel

end Breakout
