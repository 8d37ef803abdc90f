/-
# What a connected block establishes

The specification of `ConnectBlock`, in the two forms the rest of the development uses.

* For the ledger: transaction by transaction, what was spent and entered (`ConnectedTxs`).
* For the accounts: colour by colour, how the two counters of the new index come from those of
  the parent (`ColorStep`).  The program adds up in `int64_t`, so the equations are between
  64-bit words; the exact integers are those under `Int64.ofInt`.
-/
import Breakout.ConnectBlock

namespace Breakout

open Lib

variable {K : Crypto}

/-! ## 1. One transaction -/

/-- What the body of the loop establishes about one transaction that spends the outputs `prevs`;
`view` and `view'` are the database as the block sees it before and after. -/
structure ConnectedTx (K : Crypto) (ctx : ConnectCtx) (view view' : TxDB) (tx : CTransaction)
    (prevs : List CTxOut) : Prop where
  colors : ∀ o ∈ tx.vout, checkColor o.nColor = true
  fresh : ∀ o, Unspent ctx.txdb o → o.hash ≠ tx.getHash K
  entered : ∃ mid nTxPos,
    (tx.isCoinBase = true ∧ prevs = [] ∧ mid = view ∨
      tx.isCoinBase = false ∧
        ConnectedInputs K ctx.env view mid ctx.pindex (ctx.pprev :: ctx.ancestors) tx prevs) ∧
    view' = mid.update (tx.getHash K)
      (.new ⟨ctx.pindex.nFile, ctx.pindex.nBlockPos, nTxPos⟩ tx.vout.length)

/-- The fee a transaction leaves in a colour. -/
def feeOf (tx : CTransaction) (prevs : List CTxOut) (c : Color) : Int :=
  if tx.isCoinBase then 0 else colorSum prevs c.toInt32 - colorSum tx.vout c.toInt32

/-- How one transaction moves the running totals. -/
structure TalliedTx (s s' : ConnectState) (tx : CTransaction) (prevs : List CTxOut) : Prop where
  valueOut : ∀ c : Color, s'.vValueOut c = s.vValueOut c + Int64.ofInt (colorSum tx.vout c.toInt32)
  valueIn : ∀ c : Color, s'.vValueIn c = s.vValueIn c + Int64.ofInt (colorSum prevs c.toInt32)
  fees : ∀ c : Color, c ≠ .none → s'.vFees c = s.vFees c + Int64.ofInt (feeOf tx prevs c)

variable {v' vFees vTotalMint : Color → Int64} {ctx : ConnectCtx} {s s' : ConnectState}
  {tx coinbase : CTransaction} {o : CTxOut} {l : List CTxOut} {k k' : Counters}
  {pprev pindex pindex' : CBlockIndex} {vtx : List CTransaction} {block : CBlock} {c : Color}

theorem tally_get {m : ColorsMap} {v : Color → Int64} (h : tally m.mapAmounts v = .ok v')
    (c : Color) : v' c = v c + m.get c.toInt32 :=
  tally_spec m.ascending h c

/-- The fees of the colours visited are added, each once. -/
theorem addFees_spec {mIn mOut : ColorsMap} :
    ∀ {colors : List Color} {v : Color → Int64}, colors.Nodup →
      addFees mIn mOut colors v = .ok v' →
      (∀ c ∈ colors, scavengable c = true →
        v' c = v c + (mIn.get c.toInt32 - mOut.get c.toInt32)) ∧ ∀ c ∉ colors, v' c = v c
  | [], v, _, h => by
    cases h
    simp
  | d :: colors, v, hnd, h => by
    obtain ⟨hd, hnd⟩ := List.nodup_cons.mp hnd
    unfold addFees at h
    split at h
    · next hscav =>
      obtain ⟨hin, hout⟩ := addFees_spec hnd h
      refine ⟨?_, fun c hc => hout c fun hc' => hc (List.mem_cons_of_mem _ hc')⟩
      intro c hc hs
      rcases List.mem_cons.mp hc with rfl | hc
      · rw [hscav] at hs
        cases hs
      · exact hin c hc hs
    · simp only [bind_eq_ok, refuse_eq_ok] at h
      obtain ⟨-, -, h⟩ := h
      obtain ⟨hin, hout⟩ := addFees_spec hnd h
      refine ⟨?_, ?_⟩
      · intro c hc hs
        rcases List.mem_cons.mp hc with rfl | hc
        · rw [hout c hd, Function.update_self]
        · have hne : c ≠ d := fun he => hd (he ▸ hc)
          rw [hin c hc hs, Function.update_of_ne hne]
      · intro c hc
        rw [List.mem_cons, not_or] at hc
        rw [hout c hc.2, Function.update_of_ne hc.1]

theorem nodup_realColors : realColors.Nodup := by decide

/-- The branch for a transaction that spends. -/
theorem connectSpender_spec {posThisTx : CDiskTxPos} (hcb : tx.isCoinBase = false)
    (hpos : posThisTx.isNull = false) (h : connectSpender K ctx s tx posThisTx = .ok s') :
    ∃ prevs, ConnectedInputs K ctx.env (s.mapQueuedChanges.over ctx.txdb)
        (s'.mapQueuedChanges.over ctx.txdb) ctx.pindex (ctx.pprev :: ctx.ancestors) tx prevs ∧
      s'.vValueOut = s.vValueOut ∧
      (∀ c : Color, s'.vValueIn c = s.vValueIn c + Int64.ofInt (colorSum prevs c.toInt32)) ∧
      (∀ c : Color, c ≠ .none → s'.vFees c = s.vFees c + Int64.ofInt (feeOf tx prevs c)) ∧
      s'.nMintValue = s.nMintValue ∧ s'.nMintColor = s.nMintColor := by
  simp only [connectSpender, bind_eq_ok, pure_eq_ok, refuse_eq_ok] at h
  obtain ⟨inputs, hfetch, nP2SH, -, -, -, mIn, hIn, vIn, htally, _, -, vFees, hfees, queued, hconn,
    rfl⟩ := h
  obtain ⟨prevs, hprevs, hci⟩ := connectInputs_spec hcb hpos (fetchInputs_spec hfetch) hconn
  have hget : ∀ n, mIn.get n = Int64.ofInt (colorSum prevs n) := by
    intro n
    simp only [CTransaction.fillValuesIn, hcb, Bool.false_eq_true, if_false] at hIn
    simpa using get_addInputs n hprevs hIn
  refine ⟨prevs, hci, rfl, ?_, ?_, rfl, rfl⟩
  · intro c
    rw [← hget]
    exact tally_get htally c
  · intro c hc
    obtain ⟨hfee, -⟩ := addFees_spec nodup_realColors hfees
    show vFees c = _
    rw [hfee c (mem_realColors.mpr hc) ((scavengable_iff c).mpr hc), hget, get_fillValuesOut,
      ← Int64.ofInt_sub, feeOf, hcb]
    rfl

/-- The coinbase branch changes nothing but what it notes of the mint. -/
theorem connectCoinBase_spec (h : connectCoinBase ctx s tx = .ok s') :
    ∃ out0 rest, tx.vout = out0 :: rest ∧ (ctx.fProofOfStake = true → rest = []) ∧
      s' = { s with nMintValue := out0.nValue, nMintColor := out0.nColor } := by
  unfold connectCoinBase at h
  split at h
  · cases h
  · next out0 rest hv =>
    simp only [bind_eq_ok, refuse_eq_ok, pure_eq_ok, not_and, not_not] at h
    obtain ⟨-, hpos, rfl⟩ := h
    exact ⟨out0, rest, hv, hpos, rfl⟩

/-- **What the body of the loop establishes.** -/
theorem connectTx_spec (hfile : ctx.pindex.nFile ≠ 0xffffffff) (h : connectTx K ctx s tx = .ok s') :
    ∃ prevs, ConnectedTx K ctx (s.mapQueuedChanges.over ctx.txdb)
        (s'.mapQueuedChanges.over ctx.txdb) tx prevs ∧ TalliedTx s s' tx prevs ∧
      (tx.isCoinBase = true → ∃ out0 rest, tx.vout = out0 :: rest ∧
        (ctx.fProofOfStake = true → rest = []) ∧ s'.nMintValue = out0.nValue ∧
        s'.nMintColor = out0.nColor) ∧
      (tx.isCoinBase = false → s'.nMintValue = s.nMintValue ∧ s'.nMintColor = s.nMintColor) := by
  simp only [connectTx, bind_eq_ok, refuse_eq_ok, pure_eq_ok] at h
  obtain ⟨-, hbip30, -, -, -, hcolors, vOut, htally, s₁, hbranch, rfl⟩ := h
  have hcol : ∀ o ∈ tx.vout, checkColor o.nColor = true := by
    simpa using hcolors
  have hfresh : ∀ o, Unspent ctx.txdb o → o.hash ≠ tx.getHash K := by
    rintro o ⟨idx, pos, hdb, hspent, hnull⟩ hh
    exact hbip30 ⟨idx, hh ▸ hdb, pos, List.mem_of_getElem? hspent, hnull⟩
  have hout : ∀ c : Color,
      vOut c = s.vValueOut c + Int64.ofInt (colorSum tx.vout c.toInt32) := by
    intro c
    rw [← get_fillValuesOut]
    exact tally_get htally c
  unfold connectBranch at hbranch
  cases hcb : tx.isCoinBase with
  | true =>
    simp only [hcb, if_true] at hbranch
    obtain ⟨out0, rest, hv, hpos, rfl⟩ := connectCoinBase_spec hbranch
    refine ⟨[], ⟨hcol, hfresh, _, s.nTxPos, Or.inl ⟨hcb, rfl, rfl⟩, ?_⟩, ⟨hout, ?_, ?_⟩, ?_, ?_⟩
    · exact TxDB.over_update _ _ _ _
    · simp [ConnectState.advance]
    · simp [ConnectState.advance, feeOf, hcb]
    · exact fun _ => ⟨out0, rest, hv, hpos, rfl, rfl⟩
    · simp
  | false =>
    simp only [hcb, Bool.false_eq_true, if_false] at hbranch
    have hnull : CDiskTxPos.isNull ⟨ctx.pindex.nFile, ctx.pindex.nBlockPos, s.nTxPos⟩ = false := by
      simpa [CDiskTxPos.isNull] using hfile
    obtain ⟨prevs, hci, hvo, hvi, hfe, hmv, hmc⟩ := connectSpender_spec hcb hnull hbranch
    refine ⟨prevs, ⟨hcol, hfresh, _, s.nTxPos, Or.inr ⟨hcb, hci⟩, ?_⟩, ⟨?_, hvi, hfe⟩, ?_, ?_⟩
    · exact TxDB.over_update _ _ _ _
    · intro c
      rw [hvo]
      exact hout c
    · simp
    · exact fun _ => ⟨hmv, hmc⟩

/-! ## 2. The loop -/

/-- The transactions of a block connected one after another. -/
inductive ConnectedTxs (K : Crypto) (ctx : ConnectCtx) :
    TxDB → List (CTransaction × List CTxOut) → TxDB → Prop
  | nil (view : TxDB) : ConnectedTxs K ctx view [] view
  | cons {view view₁ view' : TxDB} {tx : CTransaction} {prevs : List CTxOut}
      {rest : List (CTransaction × List CTxOut)} :
      ConnectedTx K ctx view view₁ tx prevs → ConnectedTxs K ctx view₁ rest view' →
      ConnectedTxs K ctx view ((tx, prevs) :: rest) view'

/-- The exact totals of a block, by colour. -/
def sumOver (f : CTransaction → List CTxOut → Int) (l : List (CTransaction × List CTxOut)) : Int :=
  (l.map fun p => f p.1 p.2).sum

@[simp] theorem sumOver_nil (f : CTransaction → List CTxOut → Int) : sumOver f [] = 0 := rfl

@[simp] theorem sumOver_cons (f : CTransaction → List CTxOut → Int) (tx : CTransaction)
    (prevs : List CTxOut) (l : List (CTransaction × List CTxOut)) :
    sumOver f ((tx, prevs) :: l) = f tx prevs + sumOver f l := by
  simp [sumOver]

theorem connectTxs_spec (hfile : ctx.pindex.nFile ≠ 0xffffffff) :
    ∀ {vtx : List CTransaction} {s : ConnectState}, connectTxs K ctx vtx s = .ok s' →
      ∃ l : List (CTransaction × List CTxOut), l.map Prod.fst = vtx ∧
        ConnectedTxs K ctx (s.mapQueuedChanges.over ctx.txdb) l
          (s'.mapQueuedChanges.over ctx.txdb) ∧
        (∀ c : Color, s'.vValueOut c = s.vValueOut c +
          Int64.ofInt (sumOver (fun tx _ => colorSum tx.vout c.toInt32) l)) ∧
        (∀ c : Color, s'.vValueIn c = s.vValueIn c +
          Int64.ofInt (sumOver (fun _ prevs => colorSum prevs c.toInt32) l)) ∧
        (∀ c : Color, c ≠ .none → s'.vFees c = s.vFees c +
          Int64.ofInt (sumOver (fun tx prevs => feeOf tx prevs c) l)) ∧
        ((∀ tx ∈ vtx, tx.isCoinBase = false) →
          s'.nMintValue = s.nMintValue ∧ s'.nMintColor = s.nMintColor)
  | [], s, h => by
    cases h
    exact ⟨[], rfl, .nil _, by simp, by simp, by simp, fun _ => ⟨rfl, rfl⟩⟩
  | tx :: vtx, s, h => by
    simp only [connectTxs, bind_eq_ok] at h
    obtain ⟨s₁, htx, hrest⟩ := h
    obtain ⟨prevs, hct, htal, -, hmint⟩ := connectTx_spec hfile htx
    obtain ⟨l, rfl, hcts, hvo, hvi, hfe, hmints⟩ := connectTxs_spec hfile hrest
    refine ⟨(tx, prevs) :: l, rfl, .cons hct hcts, ?_, ?_, ?_, ?_⟩
    · intro c
      rw [hvo c, htal.valueOut c, sumOver_cons, Int64.ofInt_add, Int64.add_assoc]
    · intro c
      rw [hvi c, htal.valueIn c, sumOver_cons, Int64.ofInt_add, Int64.add_assoc]
    · intro c hc
      rw [hfe c hc, htal.fees c hc, sumOver_cons, Int64.ofInt_add, Int64.add_assoc]
    · intro hall
      obtain ⟨h1, h2⟩ := hmints fun t ht => hall t (List.mem_cons_of_mem _ ht)
      obtain ⟨h3, h4⟩ := hmint (hall tx List.mem_cons_self)
      exact ⟨h1.trans h3, h2.trans h4⟩

/-! ## 3. Burned outputs -/

/-- Is the output null data? -/
def isBurn (o : CTxOut) : Bool :=
  match solver o.scriptPubKey with
  | (true, .nullData, _) => true
  | _ => false

/-- Null data starts with `OP_RETURN`, so no input can spend it. -/
theorem isOpReturn_of_isBurn (h : isBurn o = true) :
    isOpReturn o.scriptPubKey = true := by
  unfold isBurn at h
  split at h
  · next sols hs => exact isOpReturn_of_solver_nullData (by rw [hs])
  · cases h

/-- The burned total of a colour among some outputs. -/
def burnSum (vout : List CTxOut) (n : Int32) : Int := colorSum (vout.filter isBurn) n

@[simp] theorem burnSum_nil (n : Int32) : burnSum [] n = 0 := rfl

theorem burnSum_cons (o : CTxOut) (l : List CTxOut) (n : Int32) :
    burnSum (o :: l) n =
      (if isBurn o = true ∧ o.nColor = n then o.nValue.toInt else 0) + burnSum l n := by
  unfold burnSum
  by_cases h : isBurn o = true
  · rw [List.filter_cons_of_pos h, colorSum_cons]
    simp [h]
  · rw [List.filter_cons_of_neg h]
    simp [h]

theorem burnSum_nonneg (h : ∀ o ∈ l, 0 ≤ o.nValue.toInt) (n : Int32) :
    0 ≤ burnSum l n :=
  colorSum_nonneg (fun o ho => h o (List.mem_of_mem_filter ho)) n

/-- Both counters lose the burned total. -/
def Burned (k k' : Counters) (total : Color → Int) : Prop :=
  ∀ c : Color, k'.vTotalMint c = k.vTotalMint c - Int64.ofInt (total c) ∧
    k'.vMoneySupply c = k.vMoneySupply c - Int64.ofInt (total c)

theorem Burned.trans {k'' : Counters} {f g : Color → Int} (h : Burned k k' f)
    (h' : Burned k' k'' g) : Burned k k'' fun c => f c + g c := by
  intro c
  obtain ⟨h1, h2⟩ := h c
  obtain ⟨h3, h4⟩ := h' c
  rw [h3, h4, h1, h2, Int64.ofInt_add]
  exact ⟨by grind, by grind⟩

theorem burned_burn (k : Counters) (c : Color) (v : Int64) :
    Burned k (k.burn c v) fun d => if c.toInt32 = d.toInt32 then v.toInt else 0 := by
  intro d
  by_cases hd : d = c
  · subst hd
    simp [Counters.burn]
  · have : ¬ c = d := fun he => hd he.symm
    simp [Counters.burn, Function.update_of_ne hd, this]

theorem burnOutputs_spec {nTime : Nat} :
    ∀ {vout : List CTxOut} {k : Counters}, burnOutputs nTime vout k = .ok k' →
      Burned k k' fun c => burnSum vout c.toInt32
  | [], k, h => by
    cases h
    intro c
    simp
  | o :: vout, k, h => by
    have hskip : isBurn o = false → burnOutputs nTime vout k = .ok k' →
        Burned k k' fun c => burnSum (o :: vout) c.toInt32 := by
      intro hb hrest
      have := burnOutputs_spec hrest
      simpa [burnSum_cons, hb] using this
    unfold burnOutputs at h
    split at h
    · next hs =>
      split at h
      · cases h
      · exact hskip (by simp [isBurn, hs]) h
    · next hs =>
      simp only [bind_eq_ok, tableIndex_eq_ok] at h
      obtain ⟨c, hc, h⟩ := h
      have hstep := (burned_burn k c o.nValue).trans (burnOutputs_spec h)
      have hb : isBurn o = true := by simp [isBurn, hs]
      intro d
      simpa [burnSum_cons, hb, hc] using hstep d
    · next hnull hs =>
      refine hskip ?_ h
      unfold isBurn
      rw [hs]
      split
      · next heq =>
        cases heq
        exact (hnull rfl).elim
      · rfl

theorem burnTxs_spec :
    ∀ {vtx : List CTransaction} {k : Counters}, burnTxs vtx k = .ok k' →
      Burned k k' fun c => (vtx.map fun tx => burnSum tx.vout c.toInt32).sum
  | [], k, h => by
    cases h
    intro c
    simp
  | tx :: vtx, k, h => by
    simp only [burnTxs, bind_eq_ok] at h
    obtain ⟨k₁, h1, h2⟩ := h
    simpa using (burnOutputs_spec h1).trans (burnTxs_spec h2)

/-- What a block on the parent `pprev` burns of a colour. -/
def burnedBy (pprev : CBlockIndex) (vtx : List CTransaction) (c : Color) : Int :=
  if burnProtocolStartTime ≤ pprev.nTime.toNat then
    (vtx.map fun tx => burnSum tx.vout c.toInt32).sum
  else 0

theorem connectBurns_spec (h : connectBurns pprev vtx k = .ok k') :
    Burned k k' (burnedBy pprev vtx) := by
  unfold connectBurns at h
  unfold burnedBy
  split at h
  · next hb => simpa [hb] using burnTxs_spec h
  · next hb =>
    cases h
    intro c
    simp [hb]

/-! ## 4. The reward -/

theorem lookupAmount_eq_zero_or_mem (n : Int32) :
    ∀ m : List (Int32 × Int64), lookupAmount n m = 0 ∨ (n, lookupAmount n m) ∈ m
  | [] => Or.inl rfl
  | (d, w) :: m => by
    unfold lookupAmount
    split
    · next h => exact Or.inr (by simp [h])
    · rcases lookupAmount_eq_zero_or_mem n m with h | h
      · exact Or.inl h
      · exact Or.inr (List.mem_cons_of_mem _ h)

theorem checkCoinBaseFees_spec {reward : Color} :
    ∀ {m : List (Int32 × Int64)}, checkCoinBaseFees reward vFees m = .ok () →
      ∀ (c : Color) (x : Int64), (c.toInt32, x) ∈ m → c ≠ reward ∧ x ≤ vFees c
  | [], _, c, x, hx => by cases hx
  | (n, y) :: m, h, c, x, hx => by
    simp only [checkCoinBaseFees, bind_eq_ok, refuse_eq_ok, tableIndex_eq_ok,
      Int64.not_lt] at h
    obtain ⟨-, hne, d, rfl, -, hle, hrest⟩ := h
    rcases List.mem_cons.mp hx with hx | hx
    · obtain ⟨hc, rfl⟩ := Prod.mk.inj hx
      obtain rfl := Color.toInt32_inj.mp hc
      exact ⟨fun he => hne (by rw [he]), hle⟩
    · exact checkCoinBaseFees_spec hrest c x hx

/-- A total in the money range is what the counter holds. -/
theorem toInt_ofInt_colorSum {outs : List CTxOut} (h : ValuesOk outs) (c : Color) :
    (Int64.ofInt (colorSum outs c.toInt32)).toInt = colorSum outs c.toInt32 := by
  have h0 := colorSum_nonneg h.nonneg c.toInt32
  have hle := h.total_le c
  have hmax := maxMoney_bounds c
  exact toInt_ofInt_of_fits ⟨by omega, by omega⟩

theorem ValuesOk.tail (h : ValuesOk (o :: l)) : ValuesOk l := by
  refine ⟨fun p hp => h.nonneg p (List.mem_cons_of_mem _ hp),
    fun p hp => h.inTable p (List.mem_cons_of_mem _ hp), fun c => ?_⟩
  have hle := h.total_le c
  have h0 := h.nonneg o List.mem_cons_self
  rw [colorSum_cons] at hle
  split_ifs at hle <;> omega

/-- **What a proof-of-work coinbase may pay**, colour by colour. -/
theorem connectWork_spec (hval : ValuesOk coinbase.vout)
    (h : connectWork pprev pindex coinbase vFees = .ok vTotalMint) :
    vTotalMint = Function.update (totalMintPrev pprev pindex) (getProofOfWorkReward pprev).nColor
      (totalMintPrev pprev pindex (getProofOfWorkReward pprev).nColor +
        (getProofOfWorkReward pprev).nValue) ∧
    ∀ c : Color,
      (c = (getProofOfWorkReward pprev).nColor → colorSum coinbase.vout c.toInt32 ≤
        ((getProofOfWorkReward pprev).nValue + vFees c).toInt) ∧
      (c ≠ (getProofOfWorkReward pprev).nColor → colorSum coinbase.vout c.toInt32 = 0 ∨
        colorSum coinbase.vout c.toInt32 ≤ (vFees c).toInt) := by
  unfold connectWork at h
  cases hv : coinbase.vout with
  | nil => simp [hv] at h
  | cons out0 rest =>
    simp only [hv, bind_eq_ok, refuse_eq_ok, pure_eq_ok, not_not, Int64.not_lt,
      Int64.le_iff_toInt_le] at h
    obtain ⟨-, hcolor, -, hle, _, hfees, rfl⟩ := h
    rw [hv] at hval
    have hrest : ValuesOk rest := hval.tail
    have hget : ∀ c : Color, lookupAmount c.toInt32 (coinbase.fillValuesOut true).mapAmounts =
        Int64.ofInt (colorSum rest c.toInt32) := by
      intro c
      show (coinbase.fillValuesOut true).get c.toInt32 = _
      rw [CTransaction.fillValuesOut, get_addOutputs]
      simp [hv]
    have hcolor0 : out0.nColor = (getProofOfWorkReward pprev).nColor.toInt32 := by
      simpa [CTransaction.getColor, hv] using hcolor
    -- an entry of the map is not in the reward's colour and does not exceed the fees
    have hentry : ∀ c : Color, colorSum rest c.toInt32 = 0 ∨
        (c ≠ (getProofOfWorkReward pprev).nColor ∧
          colorSum rest c.toInt32 ≤ (vFees c).toInt) := by
      intro c
      have hexact := toInt_ofInt_colorSum hrest c
      rcases lookupAmount_eq_zero_or_mem c.toInt32 (coinbase.fillValuesOut true).mapAmounts
        with h0 | hmem
      · rw [hget] at h0
        rw [h0] at hexact
        exact Or.inl (by simpa using hexact.symm)
      · obtain ⟨hne, hx⟩ := checkCoinBaseFees_spec hfees c _ hmem
        rw [hget, Int64.le_iff_toInt_le, hexact] at hx
        exact Or.inr ⟨hne, hx⟩
    refine ⟨rfl, fun c => ⟨?_, ?_⟩⟩
    · rintro rfl
      rcases hentry (getProofOfWorkReward pprev).nColor with h0 | ⟨hne, -⟩
      · rw [colorSum_cons, if_pos hcolor0, h0]
        omega
      · exact absurd rfl hne
    · intro hc
      rw [colorSum_cons, hcolor0, if_neg (by simpa using Ne.symm hc), Int.zero_add]
      rcases hentry c with h0 | ⟨-, hx⟩
      · exact Or.inl h0
      · exact Or.inr hx

theorem connectStake_spec {coinstake : CTransaction} {nMintValue : Int64} {nMintColor : Int32}
    (h : connectStake pprev pindex coinstake nMintValue nMintColor = .ok vTotalMint) :
    ∃ stake : Color, coinstake.getColor = stake.toInt32 ∧
      nMintColor = (getProofOfStakeReward pprev stake).nColor.toInt32 ∧
      nMintValue.toInt ≤ (getProofOfStakeReward pprev stake).nValue.toInt ∧
      vTotalMint = Function.update (totalMintPrev pprev pindex)
        (getProofOfStakeReward pprev stake).nColor
        (pprev.vTotalMint (getProofOfStakeReward pprev stake).nColor +
          (getProofOfStakeReward pprev stake).nValue) := by
  simp only [connectStake, bind_eq_ok, refuse_eq_ok, pure_eq_ok, tableIndex_eq_ok, not_not,
    Int64.not_lt, Int64.le_iff_toInt_le] at h
  obtain ⟨-, -, stake, hstake, -, hmint, -, hle, rfl⟩ := h
  exact ⟨stake, hstake, hmint, hle, rfl⟩

/-! ## 5. The accounts of a block -/

/-- The reward of a block: by the colour it stakes, or by its height. -/
def blockReward (pprev : CBlockIndex) (block : CBlock) : Amount :=
  if block.isProofOfStake then
    match block.vtx with
    | _ :: coinstake :: _ =>
      match tableIndex coinstake.getColor with
      | .ok stake => getProofOfStakeReward pprev stake
      | .error _ => ⟨0, .none⟩
    | _ => ⟨0, .none⟩
  else getProofOfWorkReward pprev

/-- What a block adds to the minted total of a colour. -/
def mintOf (pprev : CBlockIndex) (block : CBlock) (c : Color) : Int :=
  if c = (blockReward pprev block).nColor then (blockReward pprev block).nValue.toInt else 0

/-- The parent's counter the mint is added to.  A proof-of-stake block takes the reward's colour
from before the reset. -/
def mintBase (pprev pindex : CBlockIndex) (block : CBlock) (c : Color) : Int64 :=
  if block.isProofOfStake = true ∧ c = (blockReward pprev block).nColor then pprev.vTotalMint c
  else totalMintPrev pprev pindex c

/-- **One block in the accounts of one colour.**  `cb` is what its coinbase pays, `fees` what its
other transactions leave, `burned` what it burns and `mint` what it adds to the minted total; all
four are exact. -/
structure ColorStep (pprev pindex' : CBlockIndex) (c : Color) (base : Int64)
    (cb fees burned mint : Int) : Prop where
  cb_nonneg : 0 ≤ cb
  cb_le : cb ≤ (maxMoney c).toInt
  fees_nonneg : 0 ≤ fees
  burned_nonneg : 0 ≤ burned
  mint_nonneg : 0 ≤ mint
  supply : pindex'.vMoneySupply c = pprev.vMoneySupply c + Int64.ofInt (cb - fees - burned)
  total : pindex'.vTotalMint c = base + Int64.ofInt (mint - burned)
  bound : cb ≤ mint ∨
    cb ≤ (Int64.ofInt (mint + fees) + (base - pprev.vMoneySupply c)).toInt

/-- What the reward part establishes. -/
theorem connectReward_spec {rest : List CTransaction}
    (hpos : ctx.fProofOfStake = block.isProofOfStake) (hv : block.vtx = coinbase :: rest)
    (hval : ValuesOk coinbase.vout)
    (hmint : ∃ out0 outs, coinbase.vout = out0 :: outs ∧ (ctx.fProofOfStake = true → outs = []) ∧
      s.nMintValue = out0.nValue ∧ s.nMintColor = out0.nColor)
    (h : connectReward ctx block.vtx s = .ok vTotalMint) (hc : c ≠ .none) :
    0 ≤ mintOf ctx.pprev block c ∧
    vTotalMint c = mintBase ctx.pprev ctx.pindex block c +
      Int64.ofInt (mintOf ctx.pprev block c) ∧
    (colorSum coinbase.vout c.toInt32 ≤ mintOf ctx.pprev block c ∨
      colorSum coinbase.vout c.toInt32 ≤ (Int64.ofInt (mintOf ctx.pprev block c) + s.vFees c +
        (mintBase ctx.pprev ctx.pindex block c - ctx.pprev.vMoneySupply c)).toInt) := by
  simp only [connectReward, hv] at h
  cases hp : ctx.fProofOfStake with
  | false =>
    rw [hp] at hpos
    have hreward : blockReward ctx.pprev block = getProofOfWorkReward ctx.pprev := by
      simp [blockReward, ← hpos]
    have hbase : mintBase ctx.pprev ctx.pindex block c = totalMintPrev ctx.pprev ctx.pindex c := by
      simp [mintBase, ← hpos]
    simp only [hp, Bool.false_eq_true, if_false] at h
    obtain ⟨rfl, hbound⟩ := connectWork_spec hval h
    have hfees : totalFees ctx s c = s.vFees c +
        (totalMintPrev ctx.pprev ctx.pindex c - ctx.pprev.vMoneySupply c) := by
      simp [totalFees, hp, vScavengedFees, hc, (scavengable_iff c).mpr hc]
    obtain ⟨heq, hne⟩ := hbound c
    rw [hfees] at heq hne
    rw [hbase, mintOf, hreward]
    by_cases hrc : c = (getProofOfWorkReward ctx.pprev).nColor
    · rw [if_pos hrc]
      refine ⟨getProofOfWorkReward_nonneg _, ?_, Or.inr ?_⟩
      · rw [Int64.ofInt_toInt, ← hrc, Function.update_self]
      · rw [Int64.ofInt_toInt, Int64.add_assoc]
        exact heq hrc
    · rw [if_neg hrc, Function.update_of_ne hrc]
      refine ⟨le_rfl, by simp, ?_⟩
      rcases hne hrc with h0 | hle
      · exact Or.inl h0.le
      · exact Or.inr (by simpa using hle)
  | true =>
    rw [hp] at hpos
    simp only [hp, if_true] at h
    cases rest with
    | nil => simp at h
    | cons coinstake vtx =>
      obtain ⟨stake, hstake, hcol, hle, rfl⟩ := connectStake_spec h
      have hreward : blockReward ctx.pprev block = getProofOfStakeReward ctx.pprev stake := by
        simp [blockReward, ← hpos, hv, hstake]
      obtain ⟨out0, outs, hout, houts, hmv, hmc⟩ := hmint
      rw [houts hp] at hout
      have h0 : 0 ≤ out0.nValue.toInt := hval.nonneg out0 (by simp [hout])
      rw [hmv] at hle
      rw [hmc] at hcol
      rw [mintOf, hreward, hout, colorSum_cons, hcol]
      by_cases hrc : c = (getProofOfStakeReward ctx.pprev stake).nColor
      · have hbase : mintBase ctx.pprev ctx.pindex block c = ctx.pprev.vTotalMint c := by
          simp [mintBase, ← hpos, hreward, hrc]
        rw [if_pos hrc, hbase, ← hrc, Function.update_self, Int64.ofInt_toInt]
        exact ⟨h0.trans hle, rfl, Or.inl (by simpa using hle)⟩
      · have hbase : mintBase ctx.pprev ctx.pindex block c =
            totalMintPrev ctx.pprev ctx.pindex c := by
          simp [mintBase, hreward, hrc]
        rw [if_neg hrc, hbase, Function.update_of_ne hrc]
        refine ⟨le_rfl, by simp, Or.inl ?_⟩
        rw [if_neg (by simpa using Ne.symm hrc)]
        simp

/-- What the coinbase of a block pays in a colour. -/
def coinbasePays (block : CBlock) (c : Color) : Int :=
  match block.vtx with
  | [] => 0
  | coinbase :: _ => colorSum coinbase.vout c.toInt32

/-- **What a connected block establishes**; `l` are its transactions with the outputs they
spend. -/
structure ConnectedBlock (K : Crypto) (ctx : ConnectCtx) (block : CBlock) (pindex' : CBlockIndex)
    (txdb' : TxDB) (l : List (CTransaction × List CTxOut)) : Prop where
  checked : CheckedBlock K ctx.env.clock block
  txs : l.map Prod.fst = block.vtx
  connected : ConnectedTxs K ctx ctx.txdb l txdb'
  nHeight : pindex'.nHeight = ctx.pindex.nHeight
  nTime : pindex'.nTime = ctx.pindex.nTime
  nFile : pindex'.nFile = ctx.pindex.nFile
  nBlockPos : pindex'.nBlockPos = ctx.pindex.nBlockPos
  net : ∀ c : Color, sumOver (fun tx _ => colorSum tx.vout c.toInt32) l -
      sumOver (fun _ prevs => colorSum prevs c.toInt32) l =
    coinbasePays block c - sumOver (fun tx prevs => feeOf tx prevs c) l
  accounts : ∀ c : Color, c ≠ .none →
    ColorStep ctx.pprev pindex' c (mintBase ctx.pprev ctx.pindex block c) (coinbasePays block c)
      (sumOver (fun tx prevs => feeOf tx prevs c) l) (burnedBy ctx.pprev block.vtx c)
      (mintOf ctx.pprev block c)

/-- The fees of transactions that spend are what their inputs exceed their outputs by. -/
theorem sumOver_fees {c : Color} :
    ∀ {l : List (CTransaction × List CTxOut)}, (∀ p ∈ l, p.1.isCoinBase = false) →
      sumOver (fun tx prevs => feeOf tx prevs c) l =
        sumOver (fun _ prevs => colorSum prevs c.toInt32) l -
          sumOver (fun tx _ => colorSum tx.vout c.toInt32) l
  | [], _ => by simp
  | (tx, prevs) :: l, h => by
    have htx : tx.isCoinBase = false := h (tx, prevs) List.mem_cons_self
    have ih := sumOver_fees (l := l) (c := c) fun p hp => h p (List.mem_cons_of_mem _ hp)
    rw [sumOver_cons, sumOver_cons, sumOver_cons, ih]
    have hfee : feeOf tx prevs c = colorSum prevs c.toInt32 - colorSum tx.vout c.toInt32 := by
      simp [feeOf, htx]
    omega

theorem ConnectedTxs.fees_nonneg (hc : c ≠ .none) :
    ∀ {view view' : TxDB} {l : List (CTransaction × List CTxOut)},
      ConnectedTxs K ctx view l view' → 0 ≤ sumOver (fun tx prevs => feeOf tx prevs c) l
  | _, _, _, .nil _ => by simp
  | _, _, _, @ConnectedTxs.cons _ _ _ _ _ tx prevs _ htx hrest => by
    have ih := ConnectedTxs.fees_nonneg hc hrest
    have hfee : 0 ≤ feeOf tx prevs c := by
      obtain ⟨mid, nTxPos, ⟨hcb, -⟩ | ⟨hcb, hci⟩, -⟩ := htx.entered
      · simp [feeOf, hcb]
      · have := hci.values c hc
        simp only [feeOf, hcb, Bool.false_eq_true, if_false]
        omega
    rw [sumOver_cons]
    omega

theorem burnedBy_nonneg (h : ∀ tx ∈ vtx, CheckedTx tx) (c : Color) : 0 ≤ burnedBy pprev vtx c := by
  unfold burnedBy
  split
  · refine List.sum_nonneg ?_
    intro x hx
    obtain ⟨tx, htx, rfl⟩ := List.mem_map.mp hx
    exact burnSum_nonneg (h tx htx).values.nonneg _
  · exact le_rfl

theorem TxDB.empty_over (db : TxDB) : TxDB.over (fun _ => none) db = db := by
  funext h
  simp [TxDB.over]

/-- **The specification of `ConnectBlock`.** -/
theorem connectBody_spec (ctx : ConnectCtx) {queued : TxDB}
    (hpos : ctx.fProofOfStake = block.isProofOfStake) (hfile : ctx.pindex.nFile ≠ 0xffffffff)
    (h : connectBody K ctx block = .ok (pindex', queued)) :
    ∃ l, ConnectedBlock K ctx block pindex' (queued.over ctx.txdb) l := by
  simp only [connectBody, bind_eq_ok, pure_eq_ok, Prod.mk.injEq] at h
  obtain ⟨_, hcheck, s, hloop, vTotalMint, hreward, k, hburn, rfl, rfl⟩ := h
  have hchk := checkBlock_spec hcheck
  obtain ⟨coinbase, rest, hv, hcb, hrest, -⟩ := hchk.coinbase_first
  rw [hv] at hloop
  simp only [connectTxs, bind_eq_ok] at hloop
  obtain ⟨s₁, hfirst, hloop⟩ := hloop
  obtain ⟨prevs, hct, htal, hmint, -⟩ := connectTx_spec hfile hfirst
  obtain ⟨l, hl, hcts, hvo, hvi, hfe, hmints⟩ := connectTxs_spec hfile hloop
  have hval : ValuesOk coinbase.vout := (hchk.checked coinbase (by simp [hv])).1.values
  have hprevs : prevs = [] := by
    obtain ⟨mid, nTxPos, ⟨-, hp, -⟩ | ⟨hcb', -⟩, -⟩ := hct.entered
    · exact hp
    · rw [hcb] at hcb'
      cases hcb'
  subst hprevs
  have hmintS : ∃ out0 outs, coinbase.vout = out0 :: outs ∧
      (ctx.fProofOfStake = true → outs = []) ∧ s.nMintValue = out0.nValue ∧
      s.nMintColor = out0.nColor := by
    obtain ⟨out0, outs, hout, houts, hmv, hmc⟩ := hmint hcb
    obtain ⟨h1, h2⟩ := hmints hrest
    exact ⟨out0, outs, hout, houts, h1.trans hmv, h2.trans hmc⟩
  have hctAll : ConnectedTxs K ctx ctx.txdb ((coinbase, []) :: l)
      (s.mapQueuedChanges.over ctx.txdb) := by
    have := ConnectedTxs.cons hct hcts
    rwa [ConnectState.init, TxDB.empty_over] at this
  have hpays : ∀ c : Color, coinbasePays block c = colorSum coinbase.vout c.toInt32 := by
    intro c
    simp [coinbasePays, hv]
  have hfee0 : ∀ c : Color, feeOf coinbase [] c = 0 := by
    intro c
    simp [feeOf, hcb]
  have hnotcb : ∀ p ∈ l, p.1.isCoinBase = false := by
    intro p hp
    exact hrest p.1 (hl ▸ List.mem_map_of_mem hp)
  have hnet : ∀ c : Color,
      sumOver (fun tx _ => colorSum tx.vout c.toInt32) ((coinbase, []) :: l) -
        sumOver (fun _ prevs => colorSum prevs c.toInt32) ((coinbase, []) :: l) =
      coinbasePays block c -
        sumOver (fun tx prevs => feeOf tx prevs c) ((coinbase, []) :: l) := by
    intro c
    have hfees := sumOver_fees (c := c) hnotcb
    rw [sumOver_cons, sumOver_cons, sumOver_cons, hfee0 c, hpays c, colorSum_nil]
    omega
  refine ⟨(coinbase, []) :: l, hchk, by simp [hl, hv], hctAll, rfl, rfl, rfl, rfl, hnet, ?_⟩
  intro c hc
  obtain ⟨hmint0, htotal, hbound⟩ := connectReward_spec hpos hv hval hmintS hreward hc
  obtain ⟨hkt, hks⟩ := connectBurns_spec hburn c
  -- the running totals are the exact ones, reduced
  have hvFees : s.vFees c =
      Int64.ofInt (sumOver (fun tx prevs => feeOf tx prevs c) ((coinbase, []) :: l)) := by
    rw [hfe c hc, htal.fees c hc, sumOver_cons, hfee0 c]
    simp [ConnectState.init]
  have hvalue : s.vValueOut c - s.vValueIn c = Int64.ofInt (coinbasePays block c -
      sumOver (fun tx prevs => feeOf tx prevs c) ((coinbase, []) :: l)) := by
    rw [← hnet c, sumOver_cons, sumOver_cons, hvo c, hvi c, htal.valueOut c, htal.valueIn c]
    simp only [ConnectState.init, Int64.ofInt_sub, Int64.ofInt_add]
    grind
  refine ⟨?_, ?_, hctAll.fees_nonneg hc, ?_, hmint0, ?_, ?_, ?_⟩
  · rw [hpays c]
    exact colorSum_nonneg hval.nonneg _
  · rw [hpays c]
    exact hval.total_le c
  · exact burnedBy_nonneg (fun tx htx => (hchk.checked tx htx).1) c
  · show k.vMoneySupply c = _
    rw [hks, Int64.ofInt_sub, ← hvalue]
    simp only [moneySupply, if_neg hc]
    grind
  · show k.vTotalMint c = _
    rw [hkt, Int64.ofInt_sub]
    simp only [htotal]
    grind
  · rw [hpays c, Int64.ofInt_add, ← hvFees]
    exact hbound

/-- What stays fixed while `block`, stored at `pos`, is connected to the branch of `pprev`. -/
def ctxOf (env : NodeEnv) (txdb : TxDB) (pos : DiskBlockPos) (block : CBlock)
    (pprev : CBlockIndex) (ancestors : List CBlockIndex) : ConnectCtx :=
  ⟨env, txdb, newBlockIndex pos block pprev, pprev, ancestors, block.isProofOfStake, false⟩

theorem connectBlock_spec {env : NodeEnv} {txdb txdb' : TxDB} {pos : DiskBlockPos}
    {ancestors : List CBlockIndex}
    (h : connectBlock K env txdb (newBlockIndex pos block pprev) pprev ancestors block false =
      .ok (pindex', txdb')) :
    ∃ l, ConnectedBlock K (ctxOf env txdb pos block pprev ancestors) block pindex' txdb' l := by
  simp only [connectBlock, bind_eq_ok, pure_eq_ok, Prod.mk.injEq, Prod.exists] at h
  obtain ⟨pindex₁, queued, hbody, -, -, rfl, rfl⟩ := h
  exact connectBody_spec (ctxOf env txdb pos block pprev ancestors) rfl pos.notNull hbody

end Breakout
