/-
# The minted total against the money supply

`vTotalMint` counts what was ever minted of a colour, claimed or not, less what was burned.  A
proof-of-work block may pay the difference between it and the money supply to its miner, so the
supply should never exceed it.

One lemma carries everything here, `ColorStep.le_total`: a block that leaves the new total below
`2^63` keeps the amount of the colour at most the minted total.  The bound on what a coinbase may
pay is computed in 64 bits, and a reduction to 64 bits never makes a non-negative number larger;
so the bound is at most the exact one even where it wraps.
-/
import Breakout.MoneySupply

namespace Breakout

open Lib

variable {K : Crypto} {T : Set CTransaction} {fTestNet : Bool} {g : DiskBlockPos}

/-! ## 1. One block -/

/-- The exact minted total of a colour after a block. -/
def newTotal (pprev pindex : CBlockIndex) (block : CBlock) (c : Color) : Int :=
  (mintBase pprev pindex block c).toInt + mintOf pprev block c - burnedBy pprev block.vtx c

variable {pprev pindex' pindex : CBlockIndex} {c : Color} {base : Int64}
  {cb fees burned mint A : Int} {block : CBlock}

/-- What the coinbase pays does not exceed the exact bound. -/
theorem ColorStep.cb_le_exact (h : ColorStep pprev pindex' c base cb fees burned mint)
    (hsupply : pprev.vMoneySupply c = Int64.ofInt A) (hbase : A ≤ base.toInt) :
    cb ≤ mint + fees + (base.toInt - A) := by
  have hfees := h.fees_nonneg
  have hmint := h.mint_nonneg
  rcases h.bound with hle | hle
  · omega
  · have hword : Int64.ofInt (mint + fees) + (base - pprev.vMoneySupply c) =
        Int64.ofInt (mint + fees + (base.toInt - A)) := by
      simp only [hsupply, Int64.ofInt_add, Int64.ofInt_sub, Int64.ofInt_toInt]
    rw [hword] at hle
    exact hle.trans (toInt_ofInt_le_of_nonneg (by omega))

/-- **A block whose new total fits keeps the amount at most the total.** -/
theorem ColorStep.le_total {A' : Int} (h : ColorStep pprev pindex' c base cb fees burned mint)
    (hsupply : pprev.vMoneySupply c = Int64.ofInt A) (hbase : A ≤ base.toInt)
    (hA' : A' = A + cb - fees - burned) (h0 : 0 ≤ A') (hfit : base.toInt + mint - burned < 2 ^ 63) :
    (pindex'.vTotalMint c).toInt = base.toInt + mint - burned ∧
      A' ≤ base.toInt + mint - burned := by
  have hcb := h.cb_le_exact hsupply hbase
  have hle : A' ≤ base.toInt + mint - burned := by omega
  refine ⟨?_, hle⟩
  have hword : pindex'.vTotalMint c = Int64.ofInt (base.toInt + mint - burned) := by
    rw [h.total, Int64.ofInt_sub, Int64.ofInt_sub, Int64.ofInt_add, Int64.ofInt_toInt]
    grind
  rw [hword, toInt_ofInt_of_fits ⟨by omega, hfit⟩]

/-- The counter a mint is added to is the parent's total, or its supply after the reset. -/
theorem mintBase_cases (pprev pindex : CBlockIndex) (block : CBlock) (c : Color) :
    mintBase pprev pindex block c = pprev.vTotalMint c ∨
      (c = .sis ∧ mintBase pprev pindex block c = pprev.vMoneySupply c) := by
  unfold mintBase totalMintPrev
  split_ifs with h1 h2
  · exact Or.inl rfl
  · exact Or.inr ⟨h2.1, rfl⟩
  · exact Or.inl rfl

theorem le_mintBase (hsupply : (pprev.vMoneySupply c).toInt = A)
    (htotal : A ≤ (pprev.vTotalMint c).toInt) :
    A ≤ (mintBase pprev pindex block c).toInt := by
  rcases mintBase_cases pprev pindex block c with h | ⟨-, h⟩
  · rw [h]
    exact htotal
  · rw [h, hsupply]

/-- The time of the index is all the reset looks at. -/
theorem mintBase_congr (block : CBlock) (c : Color) (h : pindex'.nTime = pindex.nTime) :
    mintBase pprev pindex' block c = mintBase pprev pindex block c := by
  have hreset : fReset pprev pindex' = fReset pprev pindex := by
    unfold fReset
    rw [h]
  unfold mintBase totalMintPrev
  rw [hreset]

/-- Only the reward's colour gains from a block. -/
theorem newTotal_le_of_ne (hne : c ≠ (blockReward pprev block).nColor)
    (hburn : 0 ≤ burnedBy pprev block.vtx c) :
    newTotal pprev pindex block c ≤ (mintBase pprev pindex block c).toInt := by
  rw [newTotal, mintOf, if_neg hne]
  omega

/-! ## 2. Runs whose totals fit -/

/-- The counters of an index agree with the ledger and are in order. -/
structure CounterOk (p : CBlockIndex) (c : Color) (A : Int) : Prop where
  supply : (p.vMoneySupply c).toInt = A
  le_total : A ≤ (p.vTotalMint c).toInt

/-- **The step**: from a parent in order, a block whose new total fits leads to an index in
order. -/
theorem CounterOk.step (hT : CollisionFree K T) {rest : Blocks} {pindex : CBlockIndex}
    {block : CBlock} {env : NodeEnv} {txdb txdb' : TxDB} {pos : DiskBlockPos}
    {l : List (CTransaction × List CTxOut)} (hrest : ChainOk K T fTestNet g rest)
    (htest : env.clock.fTestNet = fTestNet) (hholds : ∀ tx, env.Holds tx → tx ∈ T)
    (hmem : ∀ tx ∈ block.vtx, tx ∈ T)
    (hset : unspentSet txdb = unspent (ledgerOf K (txsOf rest)))
    (hb : ConnectedBlock K (ctxOf env txdb pos block (tipOf g rest) (ancestorsOf g rest)) block
      pindex txdb' l) {c : Color} (hc : c ≠ .none)
    (hok : CounterOk (tipOf g rest) c (amount K T g rest c))
    (hfit : newTotal (tipOf g rest) pindex block c < 2 ^ 63) :
    CounterOk pindex c (amount K T g ((pindex, block) :: rest) c) ∧
      (pindex.vTotalMint c).toInt = newTotal (tipOf g rest) pindex block c := by
  have hchain := ChainOk.block hrest htest hholds hmem hset hb
  have hbase : mintBase (tipOf g rest) pindex block c =
      mintBase (tipOf g rest) (newBlockIndex pos block (tipOf g rest)) block c :=
    mintBase_congr block c hb.nTime
  rw [newTotal, hbase] at hfit
  obtain ⟨htotal, hle⟩ := (hb.accounts c hc).le_total (moneySupply_eq_ofInt hT hc hrest)
    (le_mintBase hok.supply hok.le_total)
    (amount_cons hT (hchain.ledgerOk hT) hholds hb c) (amount_nonneg hT hchain c) hfit
  have htotal' : (pindex.vTotalMint c).toInt = newTotal (tipOf g rest) pindex block c := by
    rw [newTotal, hbase]
    exact htotal
  refine ⟨⟨?_, ?_⟩, htotal'⟩
  · have hword := moneySupply_eq_ofInt hT hc hchain
    have h0 := amount_nonneg hT hchain c
    rw [tipOf] at hword
    rw [hword]
    exact toInt_ofInt_of_fits ⟨by omega, lt_of_le_of_lt hle hfit⟩
  · rw [htotal', newTotal, hbase]
    exact hle

/-- The genesis index is in order. -/
theorem counterOk_genesis (c : Color) : CounterOk (genesisIndex g) c (amount K T g [] c) := by
  constructor <;> simp [genesisIndex, amount, burnedTotal, unspent]

/-- Every block leaves the total of the colour it mints below `2^63`. -/
def TotalsFit (g : DiskBlockPos) : Blocks → Prop
  | [] => True
  | (pindex, block) :: rest =>
    newTotal (tipOf g rest) pindex block (blockReward (tipOf g rest) block).nColor < 2 ^ 63 ∧
      TotalsFit g rest

theorem ChainOk.counterOk (hT : CollisionFree K T) (hc : c ≠ .none) :
    ∀ {blocks : Blocks}, ChainOk K T fTestNet g blocks → TotalsFit g blocks →
      CounterOk (tipOf g blocks) c (amount K T g blocks c)
  | _, .genesis, _ => counterOk_genesis c
  | _, @ChainOk.block _ _ _ _ rest pindex blk _ _ _ _ _ hrest htest hholds hmem hset hb,
      hfit => by
    have ih := ChainOk.counterOk hT hc hrest hfit.2
    refine (CounterOk.step hT hrest htest hholds hmem hset hb hc ih ?_).1
    by_cases hrc : c = (blockReward (tipOf g rest) blk).nColor
    · rw [hrc]
      exact hfit.1
    · refine lt_of_le_of_lt (newTotal_le_of_ne hrc ?_) (Int64.toInt_lt _)
      exact burnedBy_nonneg (fun tx htx => (hb.checked.checked tx htx).1) c

/-- **The supply never exceeds the minted total in a run whose totals fit.** -/
theorem moneySupply_le_totalMint (hT : CollisionFree K T) {s : ChainState}
    (h : Reachable K T fTestNet g s) (hfit : TotalsFit g s.blocks) {c : Color}
    (hc : scavengable c = true) :
    (tipOf g s.blocks).vMoneySupply c ≤ (tipOf g s.blocks).vTotalMint c := by
  have hok := (h.inv hT).1.counterOk hT ((scavengable_iff c).mp hc) hfit
  rw [Int64.le_iff_toInt_le, hok.supply]
  exact hok.le_total

/-! ## 3. Premined colours -/

/-- What may have been minted of a premined colour by the height of an index. -/
def premineBound (p : CBlockIndex) (c : Color) : Int :=
  if c.val ≤ p.nHeight then (powSubsidy c).toInt else 0

/-- A colour that is neither BRK nor SIS is minted at one height, and then its premine: staking
mints no such colour. -/
theorem mintOf_premined (pprev : CBlockIndex) (block : CBlock) (hc : c ≠ .none) (hbrk : c ≠ .brk)
    (hsis : c ≠ .sis) :
    mintOf pprev block c = 0 ∨
      (pprev.nHeight + 1 = c.val ∧ mintOf pprev block c = (powSubsidy c).toInt) := by
  have hmint : ∀ stake : Color, c ≠ mintColor stake := by
    intro stake he
    rcases mintColor_cases stake with h | ⟨-, h⟩ | ⟨-, h⟩
    · exact hc (he.trans h)
    · exact hbrk (he.trans h)
    · exact hsis (he.trans h)
  unfold mintOf
  split
  · next hrc =>
    unfold blockReward at hrc ⊢
    split at hrc
    · -- staked: the reward's colour is a mint colour, or none
      split at hrc
      · split at hrc
        · exact absurd hrc (hmint _)
        · exact absurd hrc hc
      · exact absurd hrc hc
    · next hpos =>
      obtain ⟨hheight, hval⟩ := getProofOfWorkReward_premine hrc.symm hsis
      rw [if_neg hpos, hval]
      exact Or.inr ⟨hheight, rfl⟩
  · exact Or.inl rfl

theorem ChainOk.premined (hT : CollisionFree K T) (hc : c ≠ .none) (hbrk : c ≠ .brk)
    (hsis : c ≠ .sis) :
    ∀ {blocks : Blocks}, ChainOk K T fTestNet g blocks →
      CounterOk (tipOf g blocks) c (amount K T g blocks c) ∧
        ((tipOf g blocks).vTotalMint c).toInt ≤ premineBound (tipOf g blocks) c := by
  intro blocks h
  induction h with
  | genesis =>
    refine ⟨counterOk_genesis c, ?_⟩
    have := (powSubsidy_bounds c).1
    show (0 : Int64).toInt ≤ premineBound (genesisIndex g) c
    unfold premineBound
    split_ifs
    · exact this
    · exact le_rfl
  | @block rest pindex blk _ _ _ _ _ hrest htest hholds hmem hset hb hprev =>
    obtain ⟨ih, hbound⟩ := hprev
    have hburn : 0 ≤ burnedBy (tipOf g rest) blk.vtx c :=
      burnedBy_nonneg (fun tx htx => (hb.checked.checked tx htx).1) c
    have hheight : pindex.nHeight = (tipOf g rest).nHeight + 1 := hb.nHeight
    have hbase : mintBase (tipOf g rest) pindex blk c = (tipOf g rest).vTotalMint c := by
      rcases mintBase_cases (tipOf g rest) pindex blk c with h | ⟨h, -⟩
      · exact h
      · exact absurd h hsis
    have hpow := powSubsidy_bounds c
    have hnew : newTotal (tipOf g rest) pindex blk c ≤ premineBound pindex c := by
      rw [newTotal, hbase]
      unfold premineBound at hbound ⊢
      rw [hheight]
      rcases mintOf_premined (tipOf g rest) blk hc hbrk hsis with h | ⟨hh, h⟩
      · rw [h]
        split_ifs at hbound ⊢ <;> omega
      · rw [h]
        split_ifs at hbound ⊢ <;> omega
    have hlt : newTotal (tipOf g rest) pindex blk c < 2 ^ 63 := by
      unfold premineBound at hnew
      split_ifs at hnew <;> omega
    obtain ⟨hok, htotal⟩ := CounterOk.step hT hrest htest hholds hmem hset hb hc ih hlt
    exact ⟨hok, by rw [tipOf, htotal]; exact hnew⟩

/-- **The premined colours never exceed their premines**: one of each card, and the premines of
BRX and BAM. -/
theorem premined_supply_le (hT : CollisionFree K T) {s : ChainState}
    (h : Reachable K T fTestNet g s) :
    (∀ c : Color, isDeck c.toInt32 = true → ((tipOf g s.blocks).vMoneySupply c).toInt ≤ 1) ∧
      (tipOf g s.blocks).vMoneySupply .brx ≤ powSubsidy .brx ∧
      (tipOf g s.blocks).vMoneySupply .bam ≤ powSubsidy .bam := by
  have key : ∀ c : Color, c ≠ .none → c ≠ .brk → c ≠ .sis →
      ((tipOf g s.blocks).vMoneySupply c).toInt ≤ (powSubsidy c).toInt := by
    intro c hc hbrk hsis
    obtain ⟨hok, hbound⟩ := (h.inv hT).1.premined hT hc hbrk hsis
    have hpow := (powSubsidy_bounds c).1
    have hle := hok.le_total
    rw [hok.supply]
    unfold premineBound at hbound
    split_ifs at hbound <;> omega
  have hdeck : ∀ c : Color, isDeck c.toInt32 = true →
      c ≠ .none ∧ c ≠ .brk ∧ c ≠ .sis ∧ (powSubsidy c).toInt = 1 := by decide
  refine ⟨?_, ?_, ?_⟩
  · intro c hc
    obtain ⟨h1, h2, h3, h4⟩ := hdeck c hc
    exact h4 ▸ key c h1 h2 h3
  · rw [Int64.le_iff_toInt_le]
    exact key .brx (by decide) (by decide) (by decide)
  · rw [Int64.le_iff_toInt_le]
    exact key .bam (by decide) (by decide) (by decide)

end Breakout
