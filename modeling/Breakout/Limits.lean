/-
# Staying inside 64 bits and inside `MAX_MONEY`

`ConnectBlock` adds plain `int64_t` values and compares none of its totals with a limit.  What
keeps them small is looked at here block by block.  Two things can go wrong: a reward can take
the minted total of a colour past `MAX_MONEY`, and one block can move the same coins so often that
the total of its outputs does not fit in 64 bits.  In a run where neither happens, no addition
into the counters or the fee totals overflows and every counter stays within its money range
(`accountsOk_of_withinLimits`).
-/
import Breakout.TotalMint

namespace Breakout

open Lib

variable {K : Crypto} {T : Set CTransaction} {fTestNet : Bool} {g : DiskBlockPos}

/-! ## 1. The exact totals of a block -/

/-- What transactions pay out in a colour. -/
def totalOut (vtx : List CTransaction) (c : Color) : Int :=
  (vtx.map fun tx => colorSum tx.vout c.toInt32).sum

/-- What a transaction of the chain `txs` spends in a colour. -/
def txIn (K : Crypto) (txs : List CTransaction) (tx : CTransaction) (c : Color) : Int :=
  (tx.spends.map fun o => colorValue c (outputAt K txs o)).sum

/-- What transactions of the chain `txs` spend in a colour. -/
def totalIn (K : Crypto) (txs vtx : List CTransaction) (c : Color) : Int :=
  (vtx.map fun tx => txIn K txs tx c).sum

/-- What transactions of the chain `txs` leave as fees in a colour. -/
def feesIn (K : Crypto) (txs vtx : List CTransaction) (c : Color) : Int :=
  (vtx.map fun tx =>
    if tx.isCoinBase then 0 else txIn K txs tx c - colorSum tx.vout c.toInt32).sum

/-- Every sum `ConnectBlock` forms for a colour fits in 64 bits: the new minted total, the new
supply, the fees after each transaction, what is scavenged, and the reward with all of it. -/
structure NoOverflow (K : Crypto) (g : DiskBlockPos) (rest : Blocks) (pindex : CBlockIndex)
    (block : CBlock) (c : Color) : Prop where
  totalMint : FitsInt64 ((mintBase (tipOf g rest) pindex block c).toInt +
    mintOf (tipOf g rest) block c)
  supplyOut : FitsInt64 (((tipOf g rest).vMoneySupply c).toInt + totalOut block.vtx c)
  supply : FitsInt64 (((tipOf g rest).vMoneySupply c).toInt + totalOut block.vtx c -
    totalIn K (txsOf ((pindex, block) :: rest)) block.vtx c)
  fees : ∀ n, FitsInt64 (feesIn K (txsOf ((pindex, block) :: rest)) (block.vtx.take n) c)
  scavenged : FitsInt64 ((mintBase (tipOf g rest) pindex block c).toInt -
    ((tipOf g rest).vMoneySupply c).toInt)
  feeTotal : FitsInt64 (feesIn K (txsOf ((pindex, block) :: rest)) block.vtx c +
    ((mintBase (tipOf g rest) pindex block c).toInt - ((tipOf g rest).vMoneySupply c).toInt))
  reward : FitsInt64 (mintOf (tipOf g rest) block c +
    (feesIn K (txsOf ((pindex, block) :: rest)) block.vtx c +
      ((mintBase (tipOf g rest) pindex block c).toInt - ((tipOf g rest).vMoneySupply c).toInt)))

/-- Both counters of a colour are within its money range. -/
def InRange (p : CBlockIndex) (c : Color) : Prop :=
  moneyRange (p.vMoneySupply c) c = true ∧ moneyRange (p.vTotalMint c) c = true

/-- Every block of the chain was accounted for without overflow and within the ranges. -/
def AccountsOk (K : Crypto) (g : DiskBlockPos) : Blocks → Prop
  | [] => True
  | (pindex, block) :: rest =>
    (∀ c : Color, c ≠ .none → NoOverflow K g rest pindex block c ∧ InRange pindex c) ∧
      AccountsOk K g rest

/-- Every block left the total of the colour it mints within the money range, and paid out, with
the parent's supply, less than `2^63` of each colour. -/
def WithinLimits (g : DiskBlockPos) : Blocks → Prop
  | [] => True
  | (pindex, block) :: rest =>
    newTotal (tipOf g rest) pindex block (blockReward (tipOf g rest) block).nColor ≤
        (maxMoney (blockReward (tipOf g rest) block).nColor).toInt ∧
      (∀ c : Color, c ≠ .none →
        ((tipOf g rest).vMoneySupply c).toInt + totalOut block.vtx c < 2 ^ 63) ∧
      WithinLimits g rest

/-! ## 2. The looked-up totals are those of the accounts -/

variable {tx : CTransaction} {txs : List CTransaction} {ctx : ConnectCtx} {c : Color}

theorem LedgerOk.spends_created {o : COutPoint} (ho : o ∈ tx.spends) :
    ∀ {txs : List CTransaction}, LedgerOk K T txs → tx ∈ txs → ∃ t ∈ txs, o ∈ t.creates K
  | [], _, h => by cases h
  | t :: txs, hok, h => by
    rcases List.mem_cons.mp h with rfl | h
    · obtain ⟨t', ht', hcr⟩ := exists_creator (hok.1.move.ins_mem o ho)
      exact ⟨t', List.mem_cons_of_mem _ ht', hcr⟩
    · obtain ⟨t', ht', hcr⟩ := LedgerOk.spends_created ho hok.2 h
      exact ⟨t', List.mem_cons_of_mem _ ht', hcr⟩

theorem txIn_eq (hT : CollisionFree K T) (hok : LedgerOk K T txs) (htx : tx ∈ txs) (c : Color) :
    txIn K txs tx c = (tx.spends.map (valueIn K T c)).sum := by
  unfold txIn
  refine congrArg List.sum (List.map_congr_left fun o ho => ?_)
  rw [outputAt_eq hT hok (hok.spends_created ho htx)]
  rfl

/-- Each connected transaction spends what the accounts say, and leaves a fee. -/
theorem ConnectedTxs.fee_eq (hT : CollisionFree K T) (hholds : ∀ t, ctx.env.Holds t → t ∈ T)
    (hok : LedgerOk K T txs) (hc : c ≠ .none) :
    ∀ {l : List (CTransaction × List CTxOut)} {view view' : TxDB},
      ConnectedTxs K ctx view l view' → (∀ p ∈ l, p.1 ∈ txs) →
      ∀ p ∈ l, txIn K txs p.1 c = colorSum p.2 c.toInt32 ∧ 0 ≤ feeOf p.1 p.2 c
  | _, _, _, .nil _, _, p, hp => by cases hp
  | _, _, _, @ConnectedTxs.cons _ _ _ _ _ tx prevs _ htx hrest, hmem, p, hp => by
    rcases List.mem_cons.mp hp with rfl | hp
    · refine ⟨?_, ?_⟩
      · rw [txIn_eq hT hok (hmem _ List.mem_cons_self) c, htx.sum_spends hT hholds c]
      · have h := ConnectedTxs.fees_nonneg hc (ConnectedTxs.cons htx (.nil _))
        simpa using h
    · exact ConnectedTxs.fee_eq hT hholds hok hc hrest
        (fun q hq => hmem q (List.mem_cons_of_mem _ hq)) p hp

/-- Partial sums of terms that are not negative. -/
theorem sum_take_bounds {l : List Int} (h : ∀ x ∈ l, 0 ≤ x) (n : Nat) :
    0 ≤ (l.take n).sum ∧ (l.take n).sum ≤ l.sum := by
  have h1 : 0 ≤ (l.take n).sum := List.sum_nonneg fun x hx => h x (List.mem_of_mem_take hx)
  have h2 : 0 ≤ (l.drop n).sum := List.sum_nonneg fun x hx => h x (List.mem_of_mem_drop hx)
  have h3 : (l.take n).sum + (l.drop n).sum = l.sum := by
    rw [← List.sum_append, List.take_append_drop]
  exact ⟨h1, by omega⟩

/-! ## 3. Runs within the limits -/

/-- The totals of one connected block, looked up in the chain. -/
theorem block_totals (hT : CollisionFree K T) {rest : Blocks} {pindex : CBlockIndex}
    {block : CBlock} {txdb' : TxDB} {l : List (CTransaction × List CTxOut)}
    (hok : LedgerOk K T (txsOf ((pindex, block) :: rest)))
    (hholds : ∀ tx, ctx.env.Holds tx → tx ∈ T) (hb : ConnectedBlock K ctx block pindex txdb' l)
    (hc : c ≠ .none) :
    let txs := txsOf ((pindex, block) :: rest)
    feesIn K txs block.vtx c = sumOver (fun tx prevs => feeOf tx prevs c) l ∧
      totalOut block.vtx c - totalIn K txs block.vtx c =
        coinbasePays block c - feesIn K txs block.vtx c ∧
      ∀ n, 0 ≤ feesIn K txs (block.vtx.take n) c ∧
        feesIn K txs (block.vtx.take n) c ≤ feesIn K txs block.vtx c := by
  intro txs
  have hmem : ∀ p ∈ l, p.1 ∈ txs := by
    intro p hp
    refine List.mem_append_left _ (List.mem_reverse.mpr ?_)
    rw [← hb.txs]
    exact List.mem_map_of_mem hp
  have hfact := hb.connected.fee_eq hT hholds hok hc hmem
  have hterm : ∀ p ∈ l, (if p.1.isCoinBase then 0 else
      txIn K txs p.1 c - colorSum p.1.vout c.toInt32) = feeOf p.1 p.2 c := by
    intro p hp
    rw [feeOf, (hfact p hp).1]
  have hfees : feesIn K txs block.vtx c = sumOver (fun tx prevs => feeOf tx prevs c) l := by
    rw [feesIn, ← hb.txs, List.map_map, sumOver]
    exact congrArg List.sum (List.map_congr_left hterm)
  have hin : totalIn K txs block.vtx c = sumOver (fun _ prevs => colorSum prevs c.toInt32) l := by
    rw [totalIn, ← hb.txs, List.map_map, sumOver]
    exact congrArg List.sum (List.map_congr_left fun p hp => (hfact p hp).1)
  have hout : totalOut block.vtx c = sumOver (fun tx _ => colorSum tx.vout c.toInt32) l := by
    rw [totalOut, ← hb.txs, List.map_map, sumOver]
    rfl
  refine ⟨hfees, ?_, ?_⟩
  · rw [hin, hout, hfees]
    exact hb.net c
  · intro n
    have hnonneg : ∀ x ∈ block.vtx.map fun tx =>
        if tx.isCoinBase then 0 else txIn K txs tx c - colorSum tx.vout c.toInt32, 0 ≤ x := by
      intro x hx
      rw [← hb.txs, List.map_map] at hx
      obtain ⟨p, hp, rfl⟩ := List.mem_map.mp hx
      rw [Function.comp_apply, hterm p hp]
      exact (hfact p hp).2
    have := sum_take_bounds hnonneg n
    rwa [← List.map_take] at this

theorem ChainOk.accountsOk (hT : CollisionFree K T) :
    ∀ {blocks : Blocks}, ChainOk K T fTestNet g blocks → WithinLimits g blocks →
      AccountsOk K g blocks ∧ ∀ c : Color, c ≠ .none →
        CounterOk (tipOf g blocks) c (amount K T g blocks c) ∧ InRange (tipOf g blocks) c := by
  intro blocks h
  induction h with
  | genesis =>
    intro _
    refine ⟨trivial, fun c _ => ⟨counterOk_genesis c, ?_⟩⟩
    have h0 : ∀ d : Color, moneyRange 0 d = true := by decide
    exact ⟨h0 c, h0 c⟩
  | @block rest pindex blk _ _ _ _ _ hrest htest hholds hmem hset hb ih =>
    rintro ⟨hmint, hout, hlim⟩
    obtain ⟨hacc, hprev⟩ := ih hlim
    have hchain := ChainOk.block hrest htest hholds hmem hset hb
    have hblock : ∀ c : Color, c ≠ .none → NoOverflow K g rest pindex blk c ∧
        CounterOk pindex c (amount K T g ((pindex, blk) :: rest) c) ∧ InRange pindex c := by
      intro c hc
      obtain ⟨hok, hsr, htr⟩ := hprev c hc
      have hsr := moneyRange_iff.mp hsr
      have htr := moneyRange_iff.mp htr
      have hmax := maxMoney_bounds c
      have hacct := hb.accounts c hc
      have hbase : (mintBase (tipOf g rest) pindex blk c).toInt ≤ (maxMoney c).toInt ∧
          ((tipOf g rest).vMoneySupply c).toInt ≤
            (mintBase (tipOf g rest) pindex blk c).toInt := by
        rcases mintBase_cases (tipOf g rest) pindex blk c with h | ⟨-, h⟩
        · rw [h, hok.supply]
          exact ⟨htr.2, hok.le_total⟩
        · rw [h]
          exact ⟨hsr.2, le_rfl⟩
      have hburn : 0 ≤ burnedBy (tipOf g rest) blk.vtx c := hacct.burned_nonneg
      have hnew : newTotal (tipOf g rest) pindex blk c ≤ (maxMoney c).toInt := by
        by_cases hrc : c = (blockReward (tipOf g rest) blk).nColor
        · rw [hrc]
          exact hmint
        · exact (newTotal_le_of_ne hrc hburn).trans hbase.1
      obtain ⟨hok', htotal⟩ := CounterOk.step hT hrest htest hholds hmem hset hb hc hok (by omega)
      have h0 := amount_nonneg hT hchain c
      have hsupply := hok'.supply
      have hle := hok'.le_total
      obtain ⟨hfees, hnet, hpartial⟩ := block_totals hT (hchain.ledgerOk hT) hholds hb hc
      have hstep := amount_cons (g := g) hT (hchain.ledgerOk hT) hholds hb c
      rw [← hfees] at hstep
      have hcb := hacct.cb_le
      have hcb0 := hacct.cb_nonneg
      have hmint0 := hacct.mint_nonneg
      have hfee0 := hacct.fees_nonneg
      rw [← hfees] at hfee0
      have houtc := hout c hc
      rw [← hok.supply] at hstep
      have houtTotal : 0 ≤ totalOut blk.vtx c := by
        refine List.sum_nonneg fun x hx => ?_
        obtain ⟨tx, htx, rfl⟩ := List.mem_map.mp hx
        exact colorSum_nonneg (hb.checked.checked tx htx).1.values.nonneg _
      rw [newTotal] at hnew htotal
      simp only [show (ctxOf _ _ _ blk (tipOf g rest) _).pprev = tipOf g rest from rfl] at hmint0
      refine ⟨⟨⟨by omega, by omega⟩, ⟨by omega, by omega⟩, ⟨by omega, by omega⟩, fun n => ?_,
        ⟨by omega, by omega⟩, ⟨by omega, by omega⟩, ⟨by omega, by omega⟩⟩, hok',
        moneyRange_iff.mpr ⟨by omega, by omega⟩, moneyRange_iff.mpr ⟨by omega, by omega⟩⟩
      have := hpartial n
      exact ⟨by omega, by omega⟩
    exact ⟨⟨fun c hc => ⟨(hblock c hc).1, (hblock c hc).2.2⟩, hacc⟩, fun c hc => (hblock c hc).2⟩

/-- **In a run within the limits nothing overflows** and every counter stays in its range. -/
theorem accountsOk_of_withinLimits (hT : CollisionFree K T) {s : ChainState}
    (h : Reachable K T fTestNet g s) (hlim : WithinLimits g s.blocks) :
    AccountsOk K g s.blocks :=
  ((h.inv hT).1.accountsOk hT hlim).1

end Breakout
