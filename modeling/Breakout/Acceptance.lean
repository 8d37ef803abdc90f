/-
# Blocks that connect

`ConnectSpec` says what follows when a block connects.  This module goes the other way: two
kinds of blocks are shown to connect under conditions one can check beforehand.

* A block of a single coinbase with one output connects when the output has the reward's colour
  and is within the reward and what may be scavenged (`connectBlock_work_ok`).
* A block of a coinbase that pays nothing and a coinstake that moves one card connects when the
  card's output is unspent, mature and signed for (`connectBlock_stake_ok`).

Neither says anything about the size of the counters: there is no such condition.
-/
import Breakout.ConnectSpec

namespace Breakout

open Lib

variable {K : Crypto}

/-! ## 1. Parts that go through -/

/-- Entries whose colours are in the tables can be added up. -/
theorem tally_ok :
    ∀ {m : List (Int32 × Int64)} {v : Color → Int64}, (∀ p ∈ m, InTable p.1) →
      ∃ v', tally m v = .ok v'
  | [], v, _ => ⟨v, rfl⟩
  | (n, x) :: m, v, h => by
    obtain ⟨c, hc⟩ := inTable_iff.mp (h (n, x) List.mem_cons_self)
    obtain ⟨v', hv'⟩ := tally_ok (v := Function.update v c (v c + x)) fun p hp =>
      h p (List.mem_cons_of_mem _ hp)
    refine ⟨v', ?_⟩
    simp only [tally, bind_eq_ok]
    exact ⟨c, tableIndex_eq_ok.mpr hc, hv'⟩

/-- The keys of a map come from the outputs added to it. -/
theorem mem_addOutputs {p : Int32 × Int64} :
    ∀ {outs : List CTxOut} {m : ColorsMap}, p ∈ (addOutputs outs m).mapAmounts →
      (∃ o ∈ outs, o.nColor = p.1) ∨ ∃ q ∈ m.mapAmounts, q.1 = p.1
  | [], _, h => Or.inr ⟨p, h, rfl⟩
  | o :: outs, m, h => by
    rw [addOutputs] at h
    rcases mem_addOutputs h with ⟨o', ho', hc⟩ | ⟨q, hq, hqp⟩
    · exact Or.inl ⟨o', List.mem_cons_of_mem _ ho', hc⟩
    · split_ifs at hq
      · rcases mem_insertAmount hq with hq | ⟨q', hq', hqq⟩
        · exact Or.inl ⟨o, List.mem_cons_self, by rw [← hq, hqp]⟩
        · exact Or.inr ⟨q', hq', hqq.trans hqp⟩
      · exact Or.inr ⟨q, hq, hqp⟩

/-- The outputs of a transaction with colours in the tables can be added up. -/
theorem tally_fillValuesOut_ok (tx : CTransaction) (v : Color → Int64)
    (h : ∀ o ∈ tx.vout, InTable o.nColor) :
    ∃ v', tally (tx.fillValuesOut false).mapAmounts v = .ok v' := by
  refine tally_ok fun p hp => ?_
  rcases mem_addOutputs hp with ⟨o, ho, hc⟩ | ⟨q, hq, -⟩
  · rw [← hc]
    exact h o ho
  · cases hq

theorem inTable_of_checkColor {n : Int32} (h : checkColor n = true) : InTable n := by
  simp only [checkColor, decide_eq_true_eq] at h
  exact ⟨by omega, h.2⟩

/-- Outputs without a script are passed over from the first fork on. -/
theorem burnOutputs_blank {nTime : Nat} (hfork : Fork.fork001 ≤ getFork nTime) {k : Counters} :
    ∀ {vout : List CTxOut}, (∀ o ∈ vout, o.scriptPubKey = []) → burnOutputs nTime vout k = .ok k
  | [], _ => rfl
  | o :: vout, h => by
    have hs : solver o.scriptPubKey = (false, .nonstandard, []) := by
      rw [h o List.mem_cons_self]
      rfl
    have hlt : ¬ getFork nTime < .fork001 := Nat.not_lt.mpr hfork
    simp only [burnOutputs, hs, if_neg hlt]
    exact burnOutputs_blank hfork fun p hp => h p (List.mem_cons_of_mem _ hp)

theorem connectBurns_blank {pprev : CBlockIndex} {vtx : List CTransaction} {k : Counters}
    (h : ∀ tx ∈ vtx, Fork.fork001 ≤ getFork tx.nTime.toNat ∧ ∀ o ∈ tx.vout, o.scriptPubKey = []) :
    connectBurns pprev vtx k = .ok k := by
  have htxs : ∀ {vtx : List CTransaction},
      (∀ tx ∈ vtx, Fork.fork001 ≤ getFork tx.nTime.toNat ∧ ∀ o ∈ tx.vout, o.scriptPubKey = []) →
      burnTxs vtx k = .ok k := by
    intro vtx
    induction vtx with
    | nil => intro _; rfl
    | cons tx vtx ih =>
      intro h
      obtain ⟨hfork, hblank⟩ := h tx List.mem_cons_self
      simp only [burnTxs, bind_eq_ok]
      exact ⟨k, burnOutputs_blank hfork hblank, ih fun t ht => h t (List.mem_cons_of_mem _ ht)⟩
  unfold connectBurns
  split
  · exact htxs h
  · rfl

/-- The coinbase of a block goes through the loop when its id is new. -/
theorem connectTx_coinBase_ok (ctx : ConnectCtx) {s : ConnectState} {tx : CTransaction}
    {out0 : CTxOut} (hcb : tx.isCoinBase = true) (hout : tx.vout = [out0])
    (hcolor : checkColor out0.nColor = true) (hnew : ctx.txdb (tx.getHash K) = none)
    (hsig : s.nSigOps + tx.getLegacySigOpCount ≤ maxBlockSigops) :
    ∃ s', connectTx K ctx s tx = .ok s' ∧ s'.vFees = s.vFees ∧
      s'.nSigOps = s.nSigOps + tx.getLegacySigOpCount ∧ s'.nMintValue = out0.nValue ∧
      s'.nMintColor = out0.nColor ∧
      ∀ hash, hash ≠ tx.getHash K → s'.mapQueuedChanges hash = s.mapQueuedChanges hash := by
  obtain ⟨v, hv⟩ := tally_fillValuesOut_ok tx s.vValueOut fun o ho => by
    rw [hout, List.mem_singleton] at ho
    rw [ho]
    exact inTable_of_checkColor hcolor
  refine ⟨{ s.advance ctx.fJustCheck tx v with
    nMintValue := out0.nValue
    nMintColor := out0.nColor
    mapQueuedChanges := s.mapQueuedChanges.update (tx.getHash K)
      (.new ⟨ctx.pindex.nFile, ctx.pindex.nBlockPos, s.nTxPos⟩ tx.vout.length) }, ?_, rfl, rfl, rfl,
    rfl, fun hash hne => Function.update_of_ne hne _ _⟩
  simp only [connectTx, bind_eq_ok, refuse_eq_ok, pure_eq_ok, connectBranch, hcb, if_true]
  refine ⟨(), by simp [hnew], (), not_lt.mpr hsig, (), by simp [hout, hcolor], v, hv, ?_⟩
  refine ⟨{ s.advance ctx.fJustCheck tx v with
    nMintValue := out0.nValue
    nMintColor := out0.nColor }, ?_, rfl⟩
  simp only [connectCoinBase, hout, bind_eq_ok, refuse_eq_ok, pure_eq_ok]
  exact ⟨(), by simp, trivial⟩

/-! ## 2. A block of one coinbase -/

/-- The signature operations of a checked block. -/
theorem checkBlock_sigops {clock : Clock} {st : TxStore} {block : CBlock} {fPOW fMerkle fSig : Bool}
    (h : checkBlock K clock st block fPOW fMerkle fSig = .ok ()) :
    (block.vtx.map (·.getLegacySigOpCount)).sum ≤ maxBlockSigops := by
  simp only [checkBlock, bind_eq_ok, refuse_eq_ok] at h
  obtain ⟨-, -, -, -, -, -, -, -, -, -, -, -, _, -, _, -, -, -, -, hsig, -⟩ := h
  exact not_lt.mp hsig

/-- Without the block signature the store is not read. -/
theorem checkBlock_unsigned (clock : Clock) (st st' : TxStore) (block : CBlock)
    (fPOW fMerkle : Bool) :
    checkBlock K clock st block fPOW fMerkle false =
      checkBlock K clock st' block fPOW fMerkle false := rfl

section

variable {env : NodeEnv} {txdb : TxDB} {pos : DiskBlockPos} {block : CBlock}
  {pprev : CBlockIndex} {ancestors : List CBlockIndex} {st : TxStore}

/-- A block connects when its loop, its reward and its burns go through. -/
theorem connectBlock_ok (hexp : env.fExplore = true)
    (hcheck : checkBlock K env.clock st block true true false = .ok ()) {s : ConnectState}
    (hloop : connectTxs K (ctxOf env txdb pos block pprev ancestors) block.vtx
      (.init env.clock.nAdjustedTime (newBlockIndex pos block pprev) false block.vtx) = .ok s)
    {vTotalMint : Color → Int64}
    (hreward : connectReward (ctxOf env txdb pos block pprev ancestors) block.vtx s =
      .ok vTotalMint)
    (hburn : ∀ tx ∈ block.vtx,
      Fork.fork001 ≤ getFork tx.nTime.toNat ∧ ∀ o ∈ tx.vout, o.scriptPubKey = []) :
    ∃ pindex' txdb', connectBlock K env txdb (newBlockIndex pos block pprev) pprev ancestors block
      false = .ok (pindex', txdb') := by
  simp only [connectBlock, connectBody, bind_eq_ok, refuse_eq_ok, pure_eq_ok, Prod.exists]
  rw [checkBlock_unsigned env.clock st ⟨txdb, env.disk⟩] at hcheck
  exact ⟨_, _, _, _, ⟨(), hcheck, s, hloop, vTotalMint, hreward, _, connectBurns_blank hburn, rfl⟩,
    (), by simp [hexp], rfl⟩

/-- **A block of one coinbase connects** when it pays the reward's colour, within the reward and
what may be scavenged of it. -/
theorem connectBlock_work_ok (hexp : env.fExplore = true)
    (hcheck : checkBlock K env.clock st block true true false = .ok ())
    {coinbase : CTransaction} {v : Int64} {c : Color} (hv : block.vtx = [coinbase])
    (hcb : coinbase.isCoinBase = true) (hout : coinbase.vout = [⟨v, c.toInt32, []⟩])
    (hc : c ≠ .none) (hfork : Fork.fork001 ≤ getFork coinbase.nTime.toNat)
    (hnew : txdb (coinbase.getHash K) = none)
    (hreset : fReset pprev (newBlockIndex pos block pprev) = false)
    (hcolor : (getProofOfWorkReward pprev).nColor = c)
    (hle : v ≤ (getProofOfWorkReward pprev).nValue +
      (pprev.vTotalMint c - pprev.vMoneySupply c)) :
    ∃ pindex' txdb', connectBlock K env txdb (newBlockIndex pos block pprev) pprev ancestors block
      false = .ok (pindex', txdb') := by
  have hsig := checkBlock_sigops hcheck
  have hpos : block.isProofOfStake = false := by simp [CBlock.isProofOfStake, hv]
  obtain ⟨s, hs, hfees, -⟩ := connectTx_coinBase_ok (K := K)
    (ctxOf env txdb pos block pprev ancestors)
    (s := .init env.clock.nAdjustedTime (newBlockIndex pos block pprev) false block.vtx) hcb hout
    ((checkColor_toInt32 c).mpr hc) hnew (by simpa [hv, ConnectState.init] using hsig)
  refine connectBlock_ok (s := s) hexp hcheck ?_ (?_ : connectReward _ _ _ = .ok (Function.update
    (totalMintPrev pprev (newBlockIndex pos block pprev)) (getProofOfWorkReward pprev).nColor
    (totalMintPrev pprev (newBlockIndex pos block pprev) (getProofOfWorkReward pprev).nColor +
      (getProofOfWorkReward pprev).nValue))) ?_
  · rw [hv] at hs ⊢
    simp only [connectTxs, bind_eq_ok]
    exact ⟨s, hs, rfl⟩
  · have hscav : totalFees ⟨env, txdb, newBlockIndex pos block pprev, pprev, ancestors, false, false⟩
        s c = pprev.vTotalMint c - pprev.vMoneySupply c := by
      simp [totalFees, hfees, ConnectState.init, vScavengedFees, totalMintPrev, hreset, hc,
        (scavengable_iff c).mpr hc]
    simp only [connectReward, ctxOf, hpos, hv, Bool.false_eq_true, if_false, connectWork, hout,
      bind_eq_ok, refuse_eq_ok, pure_eq_ok]
    refine ⟨(), by simp [CTransaction.getColor, hout, hcolor], (), ?_, (), ?_, trivial⟩
    · rw [Int64.not_lt, hcolor, hscav]
      exact hle
    · simp [CTransaction.fillValuesOut, hout, addOutputs, ColorsMap.empty, checkCoinBaseFees]
  · intro tx htx
    rw [hv, List.mem_singleton] at htx
    subst htx
    exact ⟨hfork, by simp [hout]⟩

end

/-! ## 3. A block that stakes a card -/

/-- A coinstake that moves one card: `txPrev`, entered as `idx`, has the card's output. -/
structure MovesCard (K : Crypto) (env : NodeEnv) (pindexBlock : CBlockIndex)
    (ancestors : List CBlockIndex) (card : Color) (txin : CTxIn) (idx : CTxIndex)
    (txPrev tx : CTransaction) : Prop where
  isCard : isDeck card.toInt32 = true
  vin : tx.vin = [txin]
  vout : tx.vout = [⟨0, card.toInt32, []⟩, ⟨1, card.toInt32, []⟩]
  prevout : txPrev.vout = [⟨1, card.toInt32, []⟩]
  n : txin.prevout.n = 0
  notNull : txin.prevout.isNull = false
  unspent : ∃ pos, idx.vSpent[0]? = some pos ∧ pos.isNull = true
  read : readPrev env txin.prevout.hash idx = some txPrev
  mature : isConfirmedInNPrevBlocks idx.pos pindexBlock ancestors
    (getCoinbaseMaturity env.clock.fTestNet) = false
  time_le : txPrev.nTime.toNat ≤ tx.nTime.toNat
  signed : verifySignature K txPrev tx 0 blockScriptFlags 0 = true

namespace MovesCard

variable {env : NodeEnv} {pindexBlock : CBlockIndex} {ancestors : List CBlockIndex} {card : Color}
  {txin : CTxIn} {idx : CTxIndex} {txPrev tx : CTransaction}

/-- What is fetched for the one input. -/
def inputs (txin : CTxIn) (idx : CTxIndex) (txPrev : CTransaction) : MapPrevTx :=
  Function.update (fun _ => none) txin.prevout.hash (some (idx, txPrev))

theorem color_ne (h : MovesCard K env pindexBlock ancestors card txin idx txPrev tx) :
    card ≠ .none ∧ mintColor card = .sis ∧ maxMoney card = 1 := by
  have key : ∀ c : Color, isDeck c.toInt32 = true →
      c ≠ .none ∧ mintColor c = .sis ∧ maxMoney c = 1 := by decide
  exact key card h.isCard

theorem isCoinBase (h : MovesCard K env pindexBlock ancestors card txin idx txPrev tx) :
    tx.isCoinBase = false := by
  simp [CTransaction.isCoinBase, h.vin, h.notNull]

theorem isCoinStake (h : MovesCard K env pindexBlock ancestors card txin idx txPrev tx) :
    tx.isCoinStake = true := by
  simp [CTransaction.isCoinStake, h.vin, h.vout, h.notNull, CTxOut.isEmpty]

theorem vSpent_pos (h : MovesCard K env pindexBlock ancestors card txin idx txPrev tx) :
    0 < idx.vSpent.length := by
  obtain ⟨pos, hpos, -⟩ := h.unspent
  exact (List.getElem?_eq_some_iff.mp hpos).1

theorem getOutputFor_eq (h : MovesCard K env pindexBlock ancestors card txin idx txPrev tx) :
    getOutputFor (inputs txin idx txPrev) txin = .ok ⟨1, card.toInt32, []⟩ := by
  refine getOutputFor_eq_ok.mpr ⟨idx, txPrev, by simp [inputs], ?_⟩
  simp [h.n, h.prevout]

theorem fetchInputs_eq (h : MovesCard K env pindexBlock ancestors card txin idx txPrev tx)
    {view : TxDB} (hview : view txin.prevout.hash = some idx) :
    fetchInputs env view tx = .ok (inputs txin idx txPrev) := by
  have hrange : prevoutInRange (inputs txin idx txPrev) txin = true := by
    simp [prevoutInRange, inputs, h.n, h.prevout, h.vSpent_pos]
  have hloop : fetchLoop env view tx.vin (fun _ => none) = .ok (inputs txin idx txPrev) := by
    simp [fetchLoop, h.vin, hview, h.read, inputs]
  simp only [fetchInputs, h.isCoinBase, Bool.false_eq_true, if_false, bind_eq_ok, refuse_eq_ok,
    pure_eq_ok]
  exact ⟨_, hloop, (), by simp [h.vin, hrange], rfl⟩

theorem fillValuesIn_eq (h : MovesCard K env pindexBlock ancestors card txin idx txPrev tx) :
    tx.fillValuesIn (inputs txin idx txPrev) = .ok (ColorsMap.empty.add card.toInt32 1) := by
  simp only [CTransaction.fillValuesIn, h.isCoinBase, Bool.false_eq_true, if_false, h.vin,
    addInputs, bind_eq_ok]
  exact ⟨_, h.getOutputFor_eq, rfl⟩

/-- Nothing is left over: the card goes in and comes out. -/
theorem get_in_eq_out (h : MovesCard K env pindexBlock ancestors card txin idx txPrev tx)
    (n : Int32) :
    (ColorsMap.empty.add card.toInt32 1).get n = (tx.fillValuesOut false).get n := by
  rw [ColorsMap.get_add, get_fillValuesOut, h.vout]
  by_cases hn : card.toInt32 = n
  · simp [hn]
  · simp [hn, Ne.symm hn]

theorem addFees_ok (h : MovesCard K env pindexBlock ancestors card txin idx txPrev tx) :
    ∀ (colors : List Color) (vFees : Color → Int64),
      addFees (ColorsMap.empty.add card.toInt32 1) (tx.fillValuesOut false) colors vFees = .ok vFees
  | [], _ => rfl
  | c :: colors, vFees => by
    unfold addFees
    split
    · exact addFees_ok h colors vFees
    · simp only [h.get_in_eq_out, Int64.sub_self, Int64.add_zero, Function.update_eq_self,
        bind_eq_ok, refuse_eq_ok]
      exact ⟨(), by decide, addFees_ok h colors vFees⟩

theorem checkCoinStake_ok (h : MovesCard K env pindexBlock ancestors card txin idx txPrev tx) :
    checkCoinStake tx (ColorsMap.empty.add card.toInt32 1) (tx.fillValuesOut false) = .ok () := by
  simp only [checkCoinStake, h.isCoinStake, if_true, h.get_in_eq_out, Int64.sub_self, bind_eq_ok,
    refuse_eq_ok, h.vout]
  exact ⟨(), by decide, (), by simp, by simp⟩

/-- The one input passes the first loop. -/
theorem checkPrevouts_eq (h : MovesCard K env pindexBlock ancestors card txin idx txPrev tx) :
    checkPrevouts env.clock.fTestNet pindexBlock ancestors tx.nTime (inputs txin idx txPrev) tx.vin
      (fun _ => 0) = .ok (Function.update (fun _ => 0) card 1) := by
  obtain ⟨-, -, hmax⟩ := h.color_ne
  have hin : inputs txin idx txPrev txin.prevout.hash = some (idx, txPrev) := by simp [inputs]
  have hout : txPrev.vout[txin.prevout.n.toNat]? = some ⟨1, card.toInt32, []⟩ := by
    simp [h.n, h.prevout]
  have hlen := h.vSpent_pos
  rw [h.vin]
  simp only [checkPrevouts, hin, hout, checkPrevout, bind_eq_ok, refuse_eq_ok, tableIndex_toInt32,
    Except.ok.injEq, exists_eq_left']
  refine ⟨(), ⟨(), by simpa [h.n] using hlen.ne', (), by simp [h.mature], (), not_lt.mpr h.time_le, ?_⟩, (),
    ?_, ?_⟩
  · simp [CTxOut.isEmpty]
  · simp [moneyRange, hmax]
  · rfl

/-- No colour pays out more than came in. -/
theorem checkValuesOut_ok (h : MovesCard K env pindexBlock ancestors card txin idx txPrev tx) :
    ∀ {colors : List Color}, (∀ c ∈ colors, c ≠ .none) →
      checkValuesOut tx (Function.update (fun _ => 0) card 1) colors = .ok ()
  | [], _ => rfl
  | c :: colors, hc => by
    obtain ⟨-, -, hmax⟩ := h.color_ne
    have hcol := (checkColor_toInt32 c).mpr (hc c List.mem_cons_self)
    have hvalue : tx.getValueOut c.toInt32 =
        .ok (Function.update (fun _ => (0 : Int64)) card 1 c) := by
      simp only [CTransaction.getValueOut, h.isCoinBase, hcol, Bool.false_eq_true,
        if_false, Bool.true_eq_false, tableIndex_toInt32, h.vout, bind_eq_ok, Except.ok.injEq,
        exists_eq_left']
      by_cases hcc : c = card
      · subst hcc
        simp [valueOutLoop, moneyRange, hmax]
      · have : ¬ card = c := fun he => hcc he.symm
        simp [valueOutLoop, this, Function.update_of_ne hcc]
    simp only [checkValuesOut, bind_eq_ok, refuse_eq_ok]
    refine ⟨_, hvalue, (), Int64.lt_irrefl, ?_⟩
    exact checkValuesOut_ok h fun d hd => hc d (List.mem_cons_of_mem _ hd)

theorem connectInputs_ok (h : MovesCard K env pindexBlock ancestors card txin idx txPrev tx)
    (queued : TxDB) (posThisTx : CDiskTxPos) :
    ∃ queued', connectInputs K env.clock.fTestNet tx (inputs txin idx txPrev) queued posThisTx
      pindexBlock ancestors blockScriptFlags = .ok queued' := by
  obtain ⟨pos, hpos, hnull⟩ := h.unspent
  have hin : inputs txin idx txPrev txin.prevout.hash = some (idx, txPrev) := by simp [inputs]
  have hspent : idx.vSpent[txin.prevout.n.toNat]? = some pos := by simpa [h.n] using hpos
  have hspend : ∃ queued', spendInputs K tx blockScriptFlags posThisTx 0 tx.vin
      (inputs txin idx txPrev) queued = .ok queued' := by
    rw [h.vin]
    simp only [spendInputs, hin, hspent, bind_eq_ok, refuse_eq_ok]
    exact ⟨_, (), by simp [hnull], (), by simp [h.signed], rfl⟩
  obtain ⟨queued', hq⟩ := hspend
  have hcolor : tableIndex tx.getColor = .ok card := by simp [CTransaction.getColor, h.vout]
  have hfees : checkFees tx (Function.update (fun _ => 0) card 1) = .ok () := by
    simp [checkFees, h.isCoinStake]
  refine ⟨queued', ?_⟩
  simp only [connectInputs, h.isCoinBase, Bool.false_eq_true, if_false, bind_eq_ok, pure_eq_ok]
  exact ⟨_, h.checkPrevouts_eq, card, hcolor, queued', hq, (),
    h.checkValuesOut_ok fun c hc => mem_realColors.mp hc, (), hfees, rfl⟩

/-- The branch for a transaction that spends goes through. -/
theorem connectSpender_ok {ctx : ConnectCtx} {s : ConnectState} (posThisTx : CDiskTxPos)
    (h : MovesCard K ctx.env ctx.pindex (ctx.pprev :: ctx.ancestors) card txin idx txPrev tx)
    (hview : s.mapQueuedChanges.over ctx.txdb txin.prevout.hash = some idx)
    (hsig : s.nSigOps ≤ maxBlockSigops) :
    ∃ s', connectSpender K ctx s tx posThisTx = .ok s' ∧ s'.nMintValue = s.nMintValue ∧
      s'.nMintColor = s.nMintColor := by
  have hsigops : tx.getP2SHSigOpCount (inputs txin idx txPrev) = .ok 0 := by
    simp only [CTransaction.getP2SHSigOpCount, h.isCoinBase, Bool.false_eq_true, if_false, h.vin,
      p2shSigOps, bind_eq_ok]
    exact ⟨_, h.getOutputFor_eq, rfl⟩
  obtain ⟨v, hv⟩ := tally_ok (m := (ColorsMap.empty.add card.toInt32 1).mapAmounts)
    (v := s.vValueIn) fun p hp => by
      rcases mem_insertAmount hp with hp | ⟨q, hq, -⟩
      · exact inTable_iff.mpr ⟨card, hp⟩
      · cases hq
  obtain ⟨queued, hq⟩ := h.connectInputs_ok s.mapQueuedChanges posThisTx
  simp only [connectSpender, bind_eq_ok, refuse_eq_ok, pure_eq_ok]
  exact ⟨_, ⟨_, h.fetchInputs_eq hview, 0, hsigops, (), not_lt.mpr hsig, _, h.fillValuesIn_eq, v, hv,
    (), h.checkCoinStake_ok, _, h.addFees_ok _ _, queued, hq, rfl⟩, rfl, rfl⟩

end MovesCard

/-- The coinstake of a block goes through the loop when it moves a card. -/
theorem connectTx_card_ok (ctx : ConnectCtx) {s : ConnectState} {card : Color} {txin : CTxIn}
    {idx : CTxIndex} {txPrev tx : CTransaction}
    (h : MovesCard K ctx.env ctx.pindex (ctx.pprev :: ctx.ancestors) card txin idx txPrev tx)
    (hnew : ctx.txdb (tx.getHash K) = none)
    (hview : s.mapQueuedChanges.over ctx.txdb txin.prevout.hash = some idx)
    (hsig : s.nSigOps + tx.getLegacySigOpCount ≤ maxBlockSigops) :
    ∃ s', connectTx K ctx s tx = .ok s' ∧ s'.nMintValue = s.nMintValue ∧
      s'.nMintColor = s.nMintColor := by
  have hcolor : ∀ o ∈ tx.vout, checkColor o.nColor = true := by
    simp [h.vout, (checkColor_toInt32 card).mpr h.color_ne.1]
  obtain ⟨v, hv⟩ := tally_fillValuesOut_ok tx s.vValueOut fun o ho =>
    inTable_of_checkColor (hcolor o ho)
  obtain ⟨s', hs', hmint⟩ := MovesCard.connectSpender_ok (s := s.advance ctx.fJustCheck tx v)
    ⟨ctx.pindex.nFile, ctx.pindex.nBlockPos, s.nTxPos⟩ h hview hsig
  simp only [connectTx, bind_eq_ok, refuse_eq_ok, pure_eq_ok, connectBranch, h.isCoinBase,
    Bool.false_eq_true, if_false]
  exact ⟨_, ⟨(), by simp [hnew], (), not_lt.mpr hsig, (), by simpa using hcolor, v, hv, s', hs', rfl⟩,
    hmint⟩

section

variable {env : NodeEnv} {txdb : TxDB} {pos : DiskBlockPos} {block : CBlock}
  {pprev : CBlockIndex} {ancestors : List CBlockIndex} {st : TxStore}

/-- **A block that stakes a card connects** when the reward is not negative and the coinbase pays
none of it. -/
theorem connectBlock_stake_ok (hexp : env.fExplore = true)
    (hcheck : checkBlock K env.clock st block true true false = .ok ())
    {coinbase coinstake : CTransaction} (hv : block.vtx = [coinbase, coinstake])
    (hcb : coinbase.isCoinBase = true) (hout : coinbase.vout = [⟨0, Color.sis.toInt32, []⟩])
    {card : Color} {txin : CTxIn} {idx : CTxIndex} {txPrev : CTransaction}
    (h : MovesCard K env (newBlockIndex pos block pprev) (pprev :: ancestors) card txin idx txPrev
      coinstake)
    (hfork : ∀ tx ∈ block.vtx, Fork.fork001 ≤ getFork tx.nTime.toNat)
    (hnew : ∀ tx ∈ block.vtx, txdb (tx.getHash K) = none)
    (hentry : txdb txin.prevout.hash = some idx)
    (hreward : 0 ≤ (getProofOfStakeReward pprev card).nValue) :
    ∃ pindex' txdb', connectBlock K env txdb (newBlockIndex pos block pprev) pprev ancestors block
      false = .ok (pindex', txdb') := by
  obtain ⟨hcard, hmint, -⟩ := h.color_ne
  have hsig := checkBlock_sigops hcheck
  have hpos : block.isProofOfStake = true := by simp [CBlock.isProofOfStake, hv, h.isCoinStake]
  rw [hv] at hfork hnew
  have hne : txin.prevout.hash ≠ coinbase.getHash K := by
    intro he
    rw [he, hnew coinbase List.mem_cons_self] at hentry
    cases hentry
  obtain ⟨s₁, hs₁, -, hops, hmv, hmc, hqueued⟩ := connectTx_coinBase_ok (K := K)
    (ctxOf env txdb pos block pprev ancestors)
    (s := .init env.clock.nAdjustedTime (newBlockIndex pos block pprev) false block.vtx) hcb hout (by decide)
    (hnew coinbase List.mem_cons_self) (by simp [hv] at hsig; simp [ConnectState.init]; omega)
  obtain ⟨s, hs, hmv', hmc'⟩ := connectTx_card_ok (K := K)
    (ctxOf env txdb pos block pprev ancestors) (s := s₁) h
    (hnew coinstake (List.mem_cons_of_mem _ List.mem_cons_self))
    (by simp [TxDB.over, hqueued _ hne, ConnectState.init, ctxOf, hentry])
    (by simp [hv] at hsig; simp [hops, ConnectState.init]; omega)
  refine connectBlock_ok (s := s) hexp hcheck ?_ (?_ : connectReward _ _ _ = .ok (Function.update
    (totalMintPrev pprev (newBlockIndex pos block pprev)) (getProofOfStakeReward pprev card).nColor
    (pprev.vTotalMint (getProofOfStakeReward pprev card).nColor +
      (getProofOfStakeReward pprev card).nValue))) ?_
  · rw [hv] at hs₁ ⊢
    simp only [connectTxs, bind_eq_ok]
    exact ⟨s₁, hs₁, s, hs, rfl⟩
  · simp only [connectReward, ctxOf, hpos, hv, if_true, connectStake, bind_eq_ok, refuse_eq_ok,
      pure_eq_ok, CTransaction.getColor, h.vout, tableIndex_toInt32, Except.ok.injEq,
      exists_eq_left']
    refine ⟨(), by simp [checkColor_toInt32, hcard], (), ?_, (), ?_, trivial⟩
    · simp [hmc', hmc, hmint]
    · simpa [hmv', hmv] using hreward
  · rw [hv]
    intro tx htx
    refine ⟨hfork tx htx, ?_⟩
    rcases List.mem_cons.mp htx with rfl | htx
    · simp [hout]
    · rw [List.mem_singleton] at htx
      subst htx
      simp [h.vout]

end

end Breakout
