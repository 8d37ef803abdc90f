/-
# The money supply counter against the ledger

The amount of a colour on a chain is what its unspent outputs are worth, less the null-data
outputs that were burned: those stay unspent for ever, since nothing can spend them.  The
counter `vMoneySupply` follows this amount through every connected and disconnected block, in
64-bit arithmetic: it is the amount modulo `2^64` (`moneySupply_eq_ofInt`).  Hence it IS the amount
exactly as long as the amount is below `2^63` (`moneySupply_eq_iff`).
-/
import Breakout.Chain

namespace Breakout

open Lib

variable {K : Crypto} {T : Set CTransaction} {fTestNet : Bool} {g : DiskBlockPos}

/-! ## 1. Burned outputs stay unspent -/

/-- What the blocks of a chain burned of a colour. -/
def burnedTotal (g : DiskBlockPos) : Blocks → Color → Int
  | [], _ => 0
  | (_, block) :: rest, c => burnedBy (tipOf g rest) block.vtx c + burnedTotal g rest c

/-- The null-data outputs of a transaction, where burning is on. -/
noncomputable def burnedOuts (K : Crypto) (T : Set CTransaction) (active : Prop) [Decidable active]
    (tx : CTransaction) : List COutPoint :=
  if active then (tx.creates K).filter (burnIn K T) else []

/-- The burned outputs of a chain, newest first. -/
noncomputable def burnedOf (K : Crypto) (T : Set CTransaction) (g : DiskBlockPos) :
    Blocks → List COutPoint
  | [] => []
  | (_, block) :: rest =>
    block.vtx.reverse.flatMap
      (burnedOuts K T (burnProtocolStartTime ≤ (tipOf g rest).nTime.toNat)) ++ burnedOf K T g rest

/-- Distinct outputs, all null data and all unspent. -/
structure BurnsKept (K : Crypto) (T : Set CTransaction) (txs : List CTransaction)
    (burned : List COutPoint) : Prop where
  nodup : burned.Nodup
  isBurn : ∀ o ∈ burned, burnIn K T o = true
  unspent : ∀ o ∈ burned, o ∈ unspent (ledgerOf K txs)

variable {tx : CTransaction} {o : COutPoint} {txs : List CTransaction} {c : Color}
  {ctx : ConnectCtx}

theorem mem_burnedOuts {active : Prop} [Decidable active] (h : o ∈ burnedOuts K T active tx) :
    o ∈ tx.creates K ∧ burnIn K T o = true := by
  unfold burnedOuts at h
  split at h
  · exact List.mem_filter.mp h
  · cases h

/-- One more transaction burns new outputs and spends none of the burned ones. -/
theorem BurnsKept.cons (active : Prop) [Decidable active] {tx : CTransaction}
    {txs : List CTransaction} {burned : List COutPoint} (h : BurnsKept K T txs burned)
    (htx : TxOk K T (Lib.unspent (ledgerOf K txs)) tx) :
    BurnsKept K T (tx :: txs) (burnedOuts K T active tx ++ burned) := by
  refine ⟨List.nodup_append.mpr ⟨?_, h.nodup, ?_⟩, ?_, ?_⟩
  · unfold burnedOuts
    split
    · exact htx.move.nodup_outs.filter _
    · exact List.nodup_nil
  · rintro o ho _ ho' rfl
    exact htx.move.outs_fresh o (mem_burnedOuts ho).1 (h.unspent o ho')
  · intro o ho
    rcases List.mem_append.mp ho with ho | ho
    · exact (mem_burnedOuts ho).2
    · exact h.isBurn o ho
  · intro o ho
    rw [ledgerOf_cons, Lib.unspent, Move.mem_apply]
    rcases List.mem_append.mp ho with ho | ho
    · exact Or.inr (mem_burnedOuts ho).1
    · refine Or.inl ⟨h.unspent o ho, fun hs => ?_⟩
      have hb := h.isBurn o ho
      rw [htx.spendable o hs] at hb
      cases hb

theorem BurnsKept.block (active : Prop) [Decidable active] {txs : List CTransaction}
    {burned : List COutPoint} (h : BurnsKept K T txs burned) :
    ∀ {l : List CTransaction}, LedgerOk K T (l ++ txs) →
      BurnsKept K T (l ++ txs) (l.flatMap (burnedOuts K T active) ++ burned)
  | [], _ => h
  | tx :: l, hok => by
    have ih := BurnsKept.block active h hok.2
    simpa using BurnsKept.cons active ih hok.1

theorem ChainOk.burnsKept (hT : CollisionFree K T) :
    ∀ {blocks : Blocks}, ChainOk K T fTestNet g blocks →
      BurnsKept K T (txsOf blocks) (burnedOf K T g blocks)
  | _, .genesis => ⟨List.nodup_nil, by simp [burnedOf], by simp [burnedOf]⟩
  | _, .block hrest htest hholds hmem hset hb =>
    (ChainOk.burnsKept hT hrest).block _
      ((ChainOk.block hrest htest hholds hmem hset hb).ledgerOk hT)

/-- The burned outputs of a transaction are worth what the program takes off the counters. -/
theorem sum_burned_creates (hT : CollisionFree K T) (htx : tx ∈ T) (hlen : tx.vout.length ≤ 2 ^ 32)
    (c : Color) :
    (((tx.creates K).filter (burnIn K T)).map (valueIn K T c)).sum =
      burnSum tx.vout c.toInt32 := by
  have h : ((tx.creates K).filter (burnIn K T)).map (valueIn K T c) =
      (((tx.creates K).map (outputIn K T)).filter (Option.any isBurn)).map (colorValue c) := by
    rw [List.filter_map, List.map_map]
    rfl
  rw [h, hT.map_creates htx hlen, List.filter_map, List.map_map]
  rfl

theorem sum_burnedOf (hT : CollisionFree K T) (c : Color) :
    ∀ {blocks : Blocks}, ChainOk K T fTestNet g blocks →
      ((burnedOf K T g blocks).map (valueIn K T c)).sum = burnedTotal g blocks c
  | _, .genesis => rfl
  | _, @ChainOk.block _ _ _ _ rest _ block _ _ _ _ _ hrest htest hholds hmem hset hb => by
    rw [burnedOf, burnedTotal, List.map_append, List.sum_append, sum_burnedOf hT c hrest]
    congr 1
    have hone : ∀ tx ∈ block.vtx, ((burnedOuts K T
        (burnProtocolStartTime ≤ (tipOf g rest).nTime.toNat) tx).map (valueIn K T c)).sum =
        if burnProtocolStartTime ≤ (tipOf g rest).nTime.toNat then burnSum tx.vout c.toInt32
        else 0 := by
      intro tx htx
      unfold burnedOuts
      split
      · exact sum_burned_creates hT (hmem tx htx) (hb.checked.checked tx htx).1.vout_length c
      · rfl
    have hsum : ((block.vtx.reverse.flatMap (burnedOuts K T
        (burnProtocolStartTime ≤ (tipOf g rest).nTime.toNat))).map (valueIn K T c)).sum =
        (block.vtx.map fun tx => ((burnedOuts K T
          (burnProtocolStartTime ≤ (tipOf g rest).nTime.toNat) tx).map (valueIn K T c)).sum).sum := by
      rw [List.map_flatMap, List.flatMap_def, List.sum_flatten, List.map_map, List.map_reverse,
        List.sum_reverse]
      rfl
    rw [hsum, List.map_congr_left hone]
    unfold burnedBy
    split <;> simp

/-! ## 2. The amount of a colour -/

/-- What the unspent outputs are worth, less what was burned. -/
noncomputable def amount (K : Crypto) (T : Set CTransaction) (g : DiskBlockPos) (blocks : Blocks)
    (c : Color) : Int :=
  ∑ o ∈ unspent (ledgerOf K (txsOf blocks)), valueIn K T c o - burnedTotal g blocks c

theorem LedgerOk.of_mem :
    ∀ {txs : List CTransaction}, LedgerOk K T txs → tx ∈ txs → tx ∈ T ∧ CheckedTx tx
  | [], _, h => by cases h
  | t :: txs, hok, h => by
    rcases List.mem_cons.mp h with rfl | h
    · exact ⟨hok.1.mem, hok.1.checked⟩
    · exact LedgerOk.of_mem hok.2 h

/-- An unspent output was created by a transaction of the list. -/
theorem exists_creator (h : o ∈ unspent (ledgerOf K txs)) : ∃ tx ∈ txs, o ∈ tx.creates K := by
  have hcr := mem_created_of_mem_unspent h
  rw [created, List.mem_flatMap] at hcr
  obtain ⟨m, hm, ho⟩ := hcr
  obtain ⟨tx, htx, rfl⟩ := List.mem_map.mp hm
  exact ⟨tx, htx, ho⟩

theorem valueIn_nonneg (hT : CollisionFree K T) (hok : LedgerOk K T txs)
    (ho : o ∈ unspent (ledgerOf K txs)) (c : Color) :
    0 ≤ valueIn K T c o := by
  obtain ⟨tx, htx, hcr⟩ := exists_creator ho
  obtain ⟨hmem, hchk⟩ := hok.of_mem htx
  obtain ⟨hid, hn⟩ := (CTransaction.mem_creates hchk.vout_length).mp hcr
  rw [valueIn, hT.outputIn_eq hmem hid.symm, List.getElem?_eq_getElem hn, colorValue]
  split
  · exact hchk.values.nonneg _ (List.getElem_mem hn)
  · exact le_rfl

/-- The amount is not negative: the burned outputs are among the unspent ones. -/
theorem amount_nonneg (hT : CollisionFree K T) {blocks : Blocks}
    (h : ChainOk K T fTestNet g blocks) (c : Color) : 0 ≤ amount K T g blocks c := by
  have hkept := h.burnsKept hT
  have hsub : (burnedOf K T g blocks).toFinset ⊆ unspent (ledgerOf K (txsOf blocks)) :=
    fun o ho => hkept.unspent o (List.mem_toFinset.mp ho)
  have hle := Finset.sum_le_sum_of_subset_of_nonneg (f := valueIn K T c) hsub
    fun o ho _ => valueIn_nonneg hT (h.ledgerOk hT) ho c
  rw [List.sum_toFinset _ hkept.nodup, sum_burnedOf hT c h] at hle
  unfold amount
  omega

/-- The transactions of a block move the total of a colour by what they create less what they
spend. -/
theorem sum_ledger_append {h : List CTransaction} :
    ∀ {l : List CTransaction}, LedgerOk K T (l ++ h) →
      ∑ o ∈ unspent (ledgerOf K (l ++ h)), valueIn K T c o =
        ∑ o ∈ unspent (ledgerOf K h), valueIn K T c o +
          (l.map fun tx => ((tx.creates K).map (valueIn K T c)).sum -
            (tx.spends.map (valueIn K T c)).sum).sum
  | [], _ => by simp
  | tx :: l, hok => by
    obtain ⟨htx, hok⟩ : TxOk K T (unspent (ledgerOf K (l ++ h))) tx ∧ LedgerOk K T (l ++ h) := hok
    rw [List.cons_append, ledgerOf_cons, unspent, htx.move.sum_apply (valueIn K T c),
      sum_ledger_append hok, List.map_cons, List.sum_cons]
    simp only [CTransaction.toMove]
    ring

theorem ConnectedTxs.sum_spends (hT : CollisionFree K T) (hholds : ∀ t, ctx.env.Holds t → t ∈ T)
    (c : Color) :
    ∀ {l : List (CTransaction × List CTxOut)} {view view' : TxDB},
      ConnectedTxs K ctx view l view' →
      (l.map fun p => (p.1.spends.map (valueIn K T c)).sum).sum =
        sumOver (fun _ prevs => colorSum prevs c.toInt32) l
  | _, _, _, .nil _ => rfl
  | _, _, _, .cons htx hrest => by
    rw [sumOver_cons, List.map_cons, List.sum_cons, htx.sum_spends hT hholds c,
      ConnectedTxs.sum_spends hT hholds c hrest]

theorem sum_map_sub {α : Type} (f f' : α → Int) :
    ∀ l : List α, (l.map fun a => f a - f' a).sum = (l.map f).sum - (l.map f').sum
  | [] => rfl
  | a :: l => by
    rw [List.map_cons, List.map_cons, List.map_cons, List.sum_cons, List.sum_cons, List.sum_cons,
      sum_map_sub f f' l]
    ring

/-- **One block moves the amount** by what its coinbase pays, less the fees and what it burns. -/
theorem amount_cons (hT : CollisionFree K T) {rest : Blocks} {pindex : CBlockIndex}
    {block : CBlock} {txdb' : TxDB} {l : List (CTransaction × List CTxOut)}
    (hok : LedgerOk K T (txsOf ((pindex, block) :: rest)))
    (hholds : ∀ tx, ctx.env.Holds tx → tx ∈ T) (hb : ConnectedBlock K ctx block pindex txdb' l)
    (c : Color) :
    amount K T g ((pindex, block) :: rest) c = amount K T g rest c + coinbasePays block c -
      sumOver (fun tx prevs => feeOf tx prevs c) l - burnedBy (tipOf g rest) block.vtx c := by
  have hcreates : ∀ tx ∈ block.vtx,
      ((tx.creates K).map (valueIn K T c)).sum = colorSum tx.vout c.toInt32 := by
    intro tx htx
    obtain ⟨hmem, hchk⟩ := hok.of_mem (List.mem_append_left _ (List.mem_reverse.mpr htx))
    exact hT.sum_creates hmem hchk.vout_length c
  have hmove : ((block.vtx.reverse.map fun tx => ((tx.creates K).map (valueIn K T c)).sum -
      (tx.spends.map (valueIn K T c)).sum)).sum =
      sumOver (fun tx _ => colorSum tx.vout c.toInt32) l -
        sumOver (fun _ prevs => colorSum prevs c.toInt32) l := by
    rw [List.map_reverse, List.sum_reverse, ← hb.connected.sum_spends hT hholds c,
      List.map_congr_left (g := fun tx => colorSum tx.vout c.toInt32 -
        (tx.spends.map (valueIn K T c)).sum) fun tx htx => by rw [hcreates tx htx]]
    rw [← hb.txs, List.map_map, sumOver, ← sum_map_sub]
    rfl
  rw [txsOf_cons] at hok
  rw [amount, amount, txsOf_cons, sum_ledger_append hok, hmove, hb.net c, burnedTotal]
  ring

/-! ## 3. The counter -/

/-- **The counter is the amount, reduced to 64 bits.** -/
theorem moneySupply_eq_ofInt (hT : CollisionFree K T) (hc : c ≠ .none) :
    ∀ {blocks : Blocks}, ChainOk K T fTestNet g blocks →
      (tipOf g blocks).vMoneySupply c = Int64.ofInt (amount K T g blocks c) := by
  intro blocks h
  induction h with
  | genesis => simp [tipOf, genesisIndex, amount, burnedTotal, unspent]
  | @block rest _ _ _ _ _ _ _ hrest htest hholds hmem hset hb ih =>
    have hok := (ChainOk.block hrest htest hholds hmem hset hb).ledgerOk hT
    rw [tipOf, (hb.accounts c hc).supply, amount_cons hT hok hholds hb c]
    rw [show (ctxOf _ _ _ _ (tipOf g rest) _).pprev = tipOf g rest from rfl, ih, ← Int64.ofInt_add]
    congr 1
    ring

/-- The output an outpoint names, looked up in the transactions of a chain. -/
def outputAt (K : Crypto) (txs : List CTransaction) (o : COutPoint) : Option CTxOut :=
  (txs.find? fun tx => decide (tx.getHash K = o.hash)).bind fun tx => tx.vout[o.n.toNat]?

/-- What the outputs of a colour that the transaction index holds unspent are worth. -/
noncomputable def unspentTotal (K : Crypto) (s : ChainState) (c : Color) : Int :=
  ∑ o ∈ unspentSet s.txdb, colorValue c (outputAt K (txsOf s.blocks) o)

theorem outputAt_eq (hT : CollisionFree K T) (hok : LedgerOk K T txs)
    (ho : ∃ tx ∈ txs, o ∈ tx.creates K) :
    outputAt K txs o = outputIn K T o := by
  obtain ⟨tx, htx, hcr⟩ := ho
  have hid := ((CTransaction.mem_creates (hok.of_mem htx).2.vout_length).mp hcr).1
  have hsome : (txs.find? fun tx => decide (tx.getHash K = o.hash)).isSome := by
    rw [List.find?_isSome]
    exact ⟨tx, htx, by simp [hid]⟩
  obtain ⟨t, ht⟩ := Option.isSome_iff_exists.mp hsome
  have htid : t.getHash K = o.hash := by simpa using List.find?_some ht
  rw [outputAt, ht, Option.bind_some,
    hT.outputIn_eq (hok.of_mem (List.mem_of_find?_eq_some ht)).1 htid]

theorem unspentTotal_sub_burned (hT : CollisionFree K T) {s : ChainState}
    (h : Reachable K T fTestNet g s) (c : Color) :
    unspentTotal K s c - burnedTotal g s.blocks c = amount K T g s.blocks c := by
  obtain ⟨hchain, hset⟩ := h.inv hT
  rw [unspentTotal, amount, hset]
  congr 1
  refine Finset.sum_congr rfl fun o ho => ?_
  rw [outputAt_eq hT (hchain.ledgerOk hT) (exists_creator ho)]
  rfl

/-- **When the money supply is what the ledger says.**  On every reachable chain and for every
colour, the counter is the worth of the unspent outputs less the burned ones, precisely when that
is below `2^63`. -/
theorem moneySupply_eq_iff (hT : CollisionFree K T) {s : ChainState}
    (h : Reachable K T fTestNet g s) {c : Color} (hc : c ≠ .none) :
    ((tipOf g s.blocks).vMoneySupply c).toInt =
        unspentTotal K s c - burnedTotal g s.blocks c ↔
      unspentTotal K s c - burnedTotal g s.blocks c < 2 ^ 63 := by
  obtain ⟨hchain, -⟩ := h.inv hT
  have h0 := amount_nonneg hT hchain c
  rw [unspentTotal_sub_burned hT h c, moneySupply_eq_ofInt hT hc hchain, toInt_ofInt_eq_iff]
  exact ⟨fun hf => hf.2, fun hlt => ⟨by omega, hlt⟩⟩

end Breakout
