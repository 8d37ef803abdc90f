/-
# What `ConnectInputs` lets through

`Inputs` translates `ConnectInputs` as `ConnectBlock` calls it.  The memory pool and the miner call it
too, with other flags: the outputs may not be queued, the signatures may not be looked at below the
last checkpoint, and a failure may say nothing.  None of these touch the amounts.

`connectInputs_conserves` says what is known of the amounts when it returns true, for every
transaction that is not a coinbase and whatever inputs were fetched.  There is no exception for a
coinstake: what it mints is in the coinbase.
-/
import Breakout.Inputs

namespace Breakout

open Lib

variable (K : Crypto)

/-! ## 1. `ConnectInputs` for every caller -/

/-- `Checkpoints::GetTotalBlocksEstimate`: the height of the last checkpoint, the genesis block. -/
def getTotalBlocksEstimate : Int := 0

/-- The flags of a call of `ConnectInputs`, and the height it compares with the checkpoint's. -/
structure ConnectMode where
  fBlock : Bool
  fMiner : Bool
  nBestHeight : Int

/-- "Skip ECDSA signature verification when connecting blocks before the last blockchain
checkpoint." -/
def ConnectMode.skipsSignatures (mode : ConnectMode) : Bool :=
  mode.fBlock && decide (mode.nBestHeight < getTotalBlocksEstimate)

/-- The second loop of `ConnectInputs`. -/
def spendInputsAs (mode : ConnectMode) (tx : CTransaction) (flags : UInt32)
    (posThisTx : CDiskTxPos) : Nat → List CTxIn → MapPrevTx → TxDB → Run TxDB
  | _, [], _, queued => .ok queued
  | i, txin :: vin, inputs, queued =>
    match inputs txin.prevout.hash with
    | none => .error (.throw "assert(inputs.count(prevout.hash) > 0)")
    | some (txindex, txPrev) =>
      match txindex.vSpent[txin.prevout.n.toNat]? with
      | none => .error (.oob txin.prevout.n.toNat)
      | some pos => do
        refuse (pos.isNull = false) 0
          (if mode.fMiner then "" else "ConnectInputs() : prev tx already used")
        refuse (mode.skipsSignatures = false ∧ verifySignature K txPrev tx i flags 0 = false) 100
          "ConnectInputs() : VerifySignature failed"
        let txindex' := txindex.setSpent txin.prevout.n posThisTx
        spendInputsAs mode tx flags posThisTx (i + 1) vin
          (Function.update inputs txin.prevout.hash (some (txindex', txPrev)))
          (if mode.fBlock || mode.fMiner then queued.update txin.prevout.hash txindex' else queued)

/-- "Tally transaction fees -- coinstake has no tx fees" -/
def checkFeesAs (fBlock : Bool) (tx : CTransaction) (vValueIn : Color → Int64) : Run Unit :=
  if tx.isCoinStake then .ok ()
  else do
    let c ← tableIndex tx.getColor
    let (nTxFee, nTxChangeFee) ← txFees tx vValueIn c
    refuse (nTxFee < 0) 100 "ConnectInputs() : nTxFee < 0"
    refuse (nTxChangeFee < 0) 100 "ConnectInputs() : nTxChangeFee < 0"
    let nMinFee ← tx.getMinFee 1 .gmfBlock 0
    refuse (nTxFee < nMinFee) (if fBlock then 100 else 0)
      (if fBlock then "ConnectInputs() : not paying required fee" else "")
    refuse (moneyRange nTxFee (feeColor c) = false) 100 "ConnectInputs() : nFees out of range"
    refuse (moneyRange nTxChangeFee c = false) 100 "ConnectInputs() : nChangeFees out of range"

/-- `CTransaction::ConnectInputs`, with the flags it is called with. -/
def connectInputsAs (mode : ConnectMode) (fTestNet : Bool) (tx : CTransaction) (inputs : MapPrevTx)
    (mapTestPool : TxDB) (posThisTx : CDiskTxPos) (pindexBlock : CBlockIndex)
    (ancestors : List CBlockIndex) (flags : UInt32) : Run TxDB :=
  if tx.isCoinBase then .ok mapTestPool
  else do
    let vValueIn ← checkPrevouts fTestNet pindexBlock ancestors tx.nTime inputs tx.vin fun _ => 0
    let _ ← tableIndex tx.getColor
    let mapTestPool ← spendInputsAs K mode tx flags posThisTx 0 tx.vin inputs mapTestPool
    checkValuesOut tx vValueIn realColors
    checkFeesAs mode.fBlock tx vValueIn
    return mapTestPool

variable {mode : ConnectMode} {c : Color} {r : Int64} {tx : CTransaction}

theorem spendInputsAs_block (hblock : mode.fBlock = true) (hminer : mode.fMiner = false)
    (hbest : mode.skipsSignatures = false) (tx : CTransaction) (flags : UInt32)
    (posThisTx : CDiskTxPos) :
    ∀ (vin : List CTxIn) (i : Nat) (inputs : MapPrevTx) (queued : TxDB),
      spendInputsAs K mode tx flags posThisTx i vin inputs queued =
        spendInputs K tx flags posThisTx i vin inputs queued
  | [], _, _, _ => rfl
  | txin :: vin, i, inputs, queued => by
    cases hin : inputs txin.prevout.hash with
    | none => simp only [spendInputsAs, spendInputs, hin]
    | some p =>
      obtain ⟨txindex, txPrev⟩ := p
      cases hspent : txindex.vSpent[txin.prevout.n.toNat]? with
      | none => simp only [spendInputsAs, spendInputs, hin, hspent]
      | some pos =>
        simp only [spendInputsAs, spendInputs, hin, hspent, hblock, hminer, hbest,
          Bool.false_eq_true, if_false, true_and, Bool.true_or, if_true,
          spendInputsAs_block hblock hminer hbest tx flags posThisTx vin]

/-- As `ConnectBlock` calls it, it is the function of `Inputs`. -/
theorem connectInputsAs_block (hblock : mode.fBlock = true) (hminer : mode.fMiner = false)
    (hbest : 0 ≤ mode.nBestHeight) (fTestNet : Bool) (tx : CTransaction) (inputs : MapPrevTx)
    (queued : TxDB) (posThisTx : CDiskTxPos) (pindexBlock : CBlockIndex)
    (ancestors : List CBlockIndex) (flags : UInt32) :
    connectInputsAs K mode fTestNet tx inputs queued posThisTx pindexBlock ancestors flags =
      connectInputs K fTestNet tx inputs queued posThisTx pindexBlock ancestors flags := by
  have hskip : mode.skipsSignatures = false := by
    rw [ConnectMode.skipsSignatures, getTotalBlocksEstimate, decide_eq_false (not_lt.mpr hbest),
      Bool.and_false]
  simp only [connectInputsAs, connectInputs, checkFeesAs, checkFees, hblock, if_true,
    spendInputsAs_block K hblock hminer hskip]

/-! ## 2. Totals of beginnings -/

/-- The totals of a colour grow along a list in which its amounts are not negative. -/
theorem colorSum_take {n : Int32} :
    ∀ {l : List CTxOut}, (∀ o ∈ l, o.nColor = n → 0 ≤ o.nValue.toInt) →
      ∀ k, 0 ≤ colorSum (l.take k) n ∧ colorSum (l.take k) n ≤ colorSum l n
  | [], _, k => by simp
  | o :: l, h, 0 => by
    have hrest := colorSum_take (fun p hp => h p (List.mem_cons_of_mem _ hp)) l.length
    rw [List.take_length] at hrest
    have ho := h o List.mem_cons_self
    rw [List.take_zero, colorSum_nil, colorSum_cons]
    split_ifs with hn
    · have := ho hn
      omega
    · omega
  | o :: l, h, k + 1 => by
    have hrest := colorSum_take (fun p hp => h p (List.mem_cons_of_mem _ hp)) k
    have ho := h o List.mem_cons_self
    rw [List.take_succ_cons, colorSum_cons, colorSum_cons]
    split_ifs with hn
    · have := ho hn
      omega
    · omega

/-- No total of a beginning of the list leaves 64 bits when the whole is in the money range. -/
theorem fits_colorSum_take {l : List CTxOut}
    (h : ∀ o ∈ l, o.nColor = c.toInt32 → 0 ≤ o.nValue.toInt)
    (htotal : colorSum l c.toInt32 ≤ (maxMoney c).toInt) (k : Nat) :
    FitsInt64 (colorSum (l.take k) c.toInt32) := by
  have hmax := maxMoney_bounds c
  obtain ⟨hlow, hhigh⟩ := colorSum_take h k
  exact ⟨by omega, by omega⟩

/-! ## 3. The two loops over the amounts -/

/-- The inputs' amounts are in range, and so are their totals. -/
theorem checkPrevouts_amounts {fTestNet : Bool} {pindexBlock : CBlockIndex}
    {ancestors : List CBlockIndex} {nTime : UInt32} {inputs : MapPrevTx} {v' : Color → Int64} :
    ∀ {vin : List CTxIn} {prevs : List CTxOut} {v : Color → Int64}, PrevOutputs inputs vin prevs →
      (∀ c, moneyRange (v c) c = true) →
      checkPrevouts fTestNet pindexBlock ancestors nTime inputs vin v = .ok v' →
      (∀ c, moneyRange (v' c) c = true) ∧ (∀ o ∈ prevs, 0 ≤ o.nValue.toInt) ∧
        ∀ c : Color, (v' c).toInt = (v c).toInt + colorSum prevs c.toInt32 := by
  intro vin prevs v hprevs hv h
  induction hprevs generalizing v with
  | nil =>
    cases h
    exact ⟨hv, by simp, by simp⟩
  | @cons txin o vin prevs ho hrest ih =>
    obtain ⟨idx, txPrev, hin, hout⟩ := getOutputFor_eq_ok.mp ho
    rw [checkPrevouts, hin] at h
    simp only [hout, bind_eq_ok, refuse_eq_ok, tableIndex_eq_ok, not_or, Bool.not_eq_false] at h
    obtain ⟨_, -, c, hc, -, ⟨hval, hsum⟩, h⟩ := h
    have hv' : ∀ d, moneyRange (Function.update v c (v c + o.nValue) d) d = true := by
      intro d
      by_cases hd : d = c
      · subst hd
        rwa [Function.update_self]
      · rw [Function.update_of_ne hd]
        exact hv d
    obtain ⟨hrange, hnonneg, htotal⟩ := ih hv' h
    refine ⟨hrange, ?_, fun d => ?_⟩
    · intro p hp
      rcases List.mem_cons.mp hp with rfl | hp
      · exact (moneyRange_iff.mp hval).1
      · exact hnonneg p hp
    · rw [htotal d, colorSum_cons, hc]
      by_cases hd : d = c
      · subst hd
        rw [Function.update_self, toInt_add_of_moneyRange (hv d) hval, if_pos rfl]
        omega
      · rw [Function.update_of_ne hd, if_neg (by simpa using Ne.symm hd)]
        omega

/-- A total that `GetValueOut` returns has no negative amount in it. -/
theorem valueOutLoop_nonneg :
    ∀ {l : List CTxOut} {acc : Int64}, valueOutLoop c l acc = .ok r →
      ∀ o ∈ l, o.nColor = c.toInt32 → 0 ≤ o.nValue.toInt
  | [], _, _, o, ho, _ => by cases ho
  | p :: l, acc, h, o, ho, hc => by
    rw [valueOutLoop] at h
    split at h
    · next hp =>
      rcases List.mem_cons.mp ho with rfl | ho
      · exact absurd hc hp
      · exact valueOutLoop_nonneg h o ho hc
    · split at h
      · cases h
      · next hrange =>
        simp only [not_or, Bool.not_eq_false] at hrange
        rcases List.mem_cons.mp ho with rfl | ho
        · exact (moneyRange_iff.mp hrange.1).1
        · exact valueOutLoop_nonneg h o ho hc

theorem getValueOut_nonneg (h : tx.getValueOut c.toInt32 = .ok r) :
    ∀ o ∈ tx.vout, o.nColor = c.toInt32 → 0 ≤ o.nValue.toInt := by
  unfold CTransaction.getValueOut at h
  split_ifs at h
  simp only [tableIndex_toInt32, bind_eq_ok, Except.ok.injEq, exists_eq_left'] at h
  exact valueOutLoop_nonneg h

/-- `GetValueOut` was asked for every colour, and no answer was above the inputs'. -/
theorem checkValuesOut_getValueOut {v : Color → Int64} :
    ∀ {colors : List Color}, checkValuesOut tx v colors = .ok () →
      ∀ c ∈ colors, ∃ r, tx.getValueOut c.toInt32 = .ok r ∧ r.toInt ≤ (v c).toInt
  | [], _, c, hc => by cases hc
  | d :: colors, h, c, hc => by
    simp only [checkValuesOut, bind_eq_ok, refuse_eq_ok, Int64.not_lt,
      Int64.le_iff_toInt_le] at h
    obtain ⟨r, hout, -, hle, hrest⟩ := h
    rcases List.mem_cons.mp hc with rfl | hc
    · exact ⟨r, hout, hle⟩
    · exact checkValuesOut_getValueOut hrest c hc

/-! ## 4. What is conserved -/

/-- **The amounts of a transaction are conserved.**  `prevs` are the outputs it spends. -/
structure Conserved (tx : CTransaction) (prevs : List CTxOut) : Prop where
  /-- No colour's outputs exceed its inputs. -/
  total_le : ∀ nColor, checkColor nColor = true →
    colorSum tx.vout nColor ≤ colorSum prevs nColor
  /-- Every total on the way fits the accumulator it is in. -/
  exact : ∀ nColor, checkColor nColor = true → ∀ k,
    FitsInt64 (colorSum (tx.vout.take k) nColor) ∧ FitsInt64 (colorSum (prevs.take k) nColor)
  /-- What is left in the fee colour is the fee. -/
  paid : tx.isCoinStake = false → ∃ c nMinFee, tx.getColor = c.toInt32 ∧
    tx.getMinFee 1 .gmfBlock 0 = .ok nMinFee ∧
    nMinFee.toInt ≤ colorSum prevs (feeColor c).toInt32 - colorSum tx.vout (feeColor c).toInt32

variable {K}

variable {c : Color}

/-- Subtracting inside the money range does not wrap. -/
theorem toInt_sub_of_moneyRange {a b : Int64} (ha : moneyRange a c = true)
    (hb : moneyRange b c = true) : (a - b).toInt = a.toInt - b.toInt := by
  have ha := moneyRange_iff.mp ha
  have hb := moneyRange_iff.mp hb
  have hmax := maxMoney_bounds c
  rw [Int64.toInt_sub, Int.bmod_eq_of_le (by omega) (by omega)]

theorem feeColor_ne_none : c ≠ .none → feeColor c ≠ .none := by
  revert c
  decide

/-- The fee is what the inputs have more than the outputs in the fee colour. -/
theorem txFees_exact {tx : CTransaction} {v : Color → Int64} {nTxFee nChange : Int64}
    (hv : ∀ d, moneyRange (v d) d = true)
    (hout : ∀ d : Color, d ≠ .none → ∃ r, tx.getValueOut d.toInt32 = .ok r)
    (h : txFees tx v c = .ok (nTxFee, nChange)) :
    nTxFee.toInt = (v (feeColor c)).toInt - colorSum tx.vout (feeColor c).toInt32 := by
  unfold txFees at h
  split_ifs at h with hc
  · simp only [bind_eq_ok, pure_eq_ok, Prod.mk.injEq] at h
    obtain ⟨r, hr, rfl, -⟩ := h
    obtain ⟨hrange, hsum⟩ := getValueOut_spec hr
    rw [toInt_sub_of_moneyRange (hv c) hrange, hsum, ← hc]
  · cases h
    have hnone : c ≠ .none := by
      rintro rfl
      exact hc rfl
    obtain ⟨r, hr⟩ := hout _ (feeColor_ne_none hnone)
    obtain ⟨hrange, hsum⟩ := getValueOut_spec hr
    have hget : (tx.fillValuesOut false).get (feeColor c).toInt32 = r := by
      rw [get_fillValuesOut, ← hsum, Int64.ofInt_toInt]
    rw [hget, toInt_sub_of_moneyRange (hv _) hrange, hsum]

/-- **What `ConnectInputs` establishes about the amounts**, for every transaction that is not a
coinbase, every map of fetched inputs and every caller. -/
theorem connectInputs_conserves {mode : ConnectMode} {fTestNet : Bool} {tx : CTransaction}
    {inputs : MapPrevTx} {mapTestPool mapTestPool' : TxDB} {posThisTx : CDiskTxPos}
    {pindexBlock : CBlockIndex} {ancestors : List CBlockIndex} {flags : UInt32}
    (hcb : tx.isCoinBase = false)
    (h : connectInputsAs K mode fTestNet tx inputs mapTestPool posThisTx pindexBlock ancestors
      flags = .ok mapTestPool') :
    ∃ prevs, PrevOutputs inputs tx.vin prevs ∧ Conserved tx prevs := by
  simp only [connectInputsAs, hcb, Bool.false_eq_true, if_false, bind_eq_ok, pure_eq_ok] at h
  obtain ⟨v, hv, -, -, _, -, _, hvalues, _, hfees, -⟩ := h
  have hzero : ∀ c, moneyRange 0 c = true := by decide
  obtain ⟨prevs, hprevs, -, -⟩ := checkPrevouts_spec hzero hv
  obtain ⟨hrange, hnonneg, htotal⟩ := checkPrevouts_amounts hprevs hzero hv
  have htotal' : ∀ c : Color, (v c).toInt = colorSum prevs c.toInt32 := by simpa using htotal
  have hout : ∀ c : Color, c ≠ .none → ∃ r, tx.getValueOut c.toInt32 = .ok r ∧
      r.toInt ≤ (v c).toInt :=
    fun c hc => checkValuesOut_getValueOut hvalues c (mem_realColors.mpr hc)
  have hcolor : ∀ {nColor}, checkColor nColor = true →
      ∃ c : Color, nColor = c.toInt32 ∧ c ≠ .none := by
    intro nColor hcheck
    obtain ⟨c, rfl⟩ : ∃ c : Color, nColor = c.toInt32 := by
      refine inTable_iff.mp ?_
      simp only [checkColor, decide_eq_true_eq] at hcheck
      exact ⟨by omega, hcheck.2⟩
    exact ⟨c, rfl, (checkColor_toInt32 c).mp hcheck⟩
  refine ⟨prevs, hprevs, ?_, ?_, ?_⟩
  · intro nColor hcheck
    obtain ⟨c, rfl, hc⟩ := hcolor hcheck
    obtain ⟨r, hr, hle⟩ := hout c hc
    rw [← htotal' c, ← (getValueOut_spec hr).2]
    exact hle
  · intro nColor hcheck k
    obtain ⟨c, rfl, hc⟩ := hcolor hcheck
    obtain ⟨r, hr, -⟩ := hout c hc
    obtain ⟨hr', hsum⟩ := getValueOut_spec hr
    have hin := (moneyRange_iff.mp (hrange c)).2
    rw [htotal' c] at hin
    have hmax := (moneyRange_iff.mp hr').2
    rw [hsum] at hmax
    exact ⟨fits_colorSum_take (getValueOut_nonneg hr) hmax k,
      fits_colorSum_take (fun o ho _ => hnonneg o ho) hin k⟩
  · intro hstake
    simp only [checkFeesAs, hstake, Bool.false_eq_true, if_false, bind_eq_ok, refuse_eq_ok,
      tableIndex_eq_ok, Prod.exists] at hfees
    obtain ⟨c, hc, nTxFee, nChange, htx, -, -, -, -, nMinFee, hmin, -, hpaid, -⟩ := hfees
    refine ⟨c, nMinFee, hc, hmin, ?_⟩
    rw [Int64.not_lt, Int64.le_iff_toInt_le] at hpaid
    rw [← htotal' (feeColor c),
      ← txFees_exact hrange (fun d hd => (hout d hd).imp fun _ hr => hr.1) htx]
    exact hpaid

/-- An output in BRK, and a transaction that spends it and pays the fee. -/
def paidTx : CTransaction :=
  ⟨1, 1501000000, [⟨⟨6, 0⟩, [], 0⟩], [⟨5000000, Color.brk.toInt32, [op1]⟩], 0, [], 0⟩

def payingTx : CTransaction :=
  ⟨1, 1502000000, [⟨⟨paidTx.getHash (Crypto.sample []), 0⟩, [], 0⟩],
    [⟨4000000, Color.brk.toInt32, [op1]⟩], 0, [], 0⟩

/-- What is fetched for it. -/
def payingInputs : MapPrevTx :=
  Function.update (fun _ => none) (paidTx.getHash (Crypto.sample []))
    (some (.new ⟨1, 0, 0⟩ 1, paidTx))

/-- The index of a block that would hold it. -/
def payingIndex : CBlockIndex :=
  ⟨1, 5, 1, 1502000000, 6, fun _ => 0, fun _ => 0, fun _ => 0, 0, 0⟩

theorem connectInputs_conserves_paying :
    ∃ prevs, PrevOutputs payingInputs payingTx.vin prevs ∧ Conserved payingTx prevs := by
  have hacc : (connectInputsAs (Crypto.sample []) ⟨false, false, 0⟩ false payingTx payingInputs
      (fun _ => none) ⟨1, 1, 1⟩ payingIndex [] 0).accepts = true := by decide +kernel
  obtain ⟨mapTestPool, h⟩ := accepts_iff.mp hacc
  exact connectInputs_conserves (by decide) h

end Breakout
