/-
# The colours of a coinstake

Three places read a colour off a coinstake, and each from somewhere else.  The depth that
`CheckProofOfStake` asks for comes from the second output (`CTransaction::GetStakeColor`), the
weight of the kernel from the output that input 0 stakes, and the mint colour and the limit of the
reward from the first output, the empty marker (`CTransaction::GetColor`).  `CreateCoinStake` gives
all three the colour it stakes.  No check asks a received block for that.

What the checks do tie together is less.  `CheckTransaction` lets the second output have the
colour of the marker or the colour its fees are paid in, and the latter, where it is another one,
cannot be staked.  `ConnectBlock` sees to it that the second output is paid from some input: its
value is positive and no colour pays out more than it takes in.  So the colours agree unless the
coinstake has inputs of several colours and its second output is paid from one that is not the
kernel (`stakeColorsAgree_iff`).
-/
import Breakout.Kernel
import Breakout.Commitment

namespace Breakout

open Lib

/-! ## 1. The three colours -/

/-- The output that input 0 stakes, as `CheckProofOfStake` reads it. -/
def StakeNode.kernelOutput (node : StakeNode) (tx : CTransaction) : Option CTxOut :=
  tx.vin.head?.bind fun txin =>
    (readFromDisk node.store.txdb node.store.disk txin.prevout).bind fun prev =>
      prev.1.vout[txin.prevout.n.toNat]?

/-- The three places name one colour. -/
def StakeColorsAgree (node : StakeNode) (tx : CTransaction) : Prop :=
  ∃ out, node.kernelOutput tx = some out ∧ tx.getStakeColor = out.nColor ∧
    tx.getColor = out.nColor

/-- No input past the kernel brings another colour that the second output pays out. -/
def PaidFromKernel (K : Crypto) (T : Set CTransaction) (node : StakeNode) (tx : CTransaction) :
    Prop :=
  ∀ txin ∈ tx.vin.tail, ∀ out, outputIn K T txin.prevout = some out →
    out.nColor = tx.getStakeColor → ∃ kernel, node.kernelOutput tx = some kernel ∧
      out.nColor = kernel.nColor

/-! ## 2. Where the second output is paid from -/

variable {K : Crypto}

variable {tx : CTransaction} {ctx : ConnectCtx}

/-- A transaction of a checked block passed `CheckTransaction`. -/
theorem checkTransactions_mem {clock : Clock} {nBlockTime : Nat} :
    ∀ {vtx : List CTransaction}, checkTransactions clock nBlockTime vtx = .ok () → tx ∈ vtx →
      checkTransaction clock.fTestNet clock.nAdjustedTime tx = .ok ()
  | [], _, htx => by cases htx
  | t :: vtx, h, htx => by
    simp only [checkTransactions, bind_eq_ok, refuse_eq_ok, relayCheck_eq_ok] at h
    obtain ⟨_, hcheck, -, -, hrest⟩ := h
    rcases List.mem_cons.mp htx with rfl | htx
    · exact hcheck
    · exact checkTransactions_mem hrest htx

/-- The colours of the outputs past the first. -/
theorem checkTransaction_colors {fTestNet : Bool} {nAdjustedTime : Nat}
    (hcb : tx.isCoinBase = false) (h : checkTransaction fTestNet nAdjustedTime tx = .ok ()) :
    ∃ c, tx.getColor = c.toInt32 ∧ ∀ out ∈ tx.vout.tail,
      out.nColor = c.toInt32 ∨ out.nColor = (feeColor c).toInt32 := by
  simp only [checkTransaction, checkOutputColors, hcb, Bool.false_eq_true, if_false, bind_eq_ok,
    refuse_eq_ok, tableIndex_eq_ok, not_not] at h
  obtain ⟨_, -, _, -, _, -, _, -, _, ⟨c, hc, hcolors⟩, -⟩ := h
  exact ⟨c, hc, hcolors⟩

/-- A transaction of a connected block went through the body of the loop. -/
theorem connectTxs_mem {s' : ConnectState} :
    ∀ {vtx : List CTransaction} {s : ConnectState}, connectTxs K ctx vtx s = .ok s' → tx ∈ vtx →
      ∃ s₁ s₂, connectTx K ctx s₁ tx = .ok s₂
  | [], _, _, htx => by cases htx
  | t :: vtx, s, h, htx => by
    simp only [connectTxs, bind_eq_ok] at h
    obtain ⟨s₁, ht, hrest⟩ := h
    rcases List.mem_cons.mp htx with rfl | htx
    · exact ⟨s, s₁, ht⟩
    · exact connectTxs_mem hrest htx

/-- The outputs of a coinstake past its marker are not zero. -/
theorem connectTx_coinStake {s s' : ConnectState} (hcb : tx.isCoinBase = false)
    (hcs : tx.isCoinStake = true) (h : connectTx K ctx s tx = .ok s') :
    ∀ out ∈ tx.vout.tail, out.nValue ≠ 0 := by
  simp only [connectTx, connectBranch, hcb, Bool.false_eq_true, if_false, connectSpender,
    bind_eq_ok, pure_eq_ok, refuse_eq_ok] at h
  obtain ⟨_, -, _, -, _, -, _, -, _, ⟨_, -, _, -, _, -, _, -, _, -, _, hstake, -⟩, -⟩ := h
  simp only [checkCoinStake, hcs, if_true, bind_eq_ok, refuse_eq_ok] at hstake
  obtain ⟨_, -, _, -, hzero⟩ := hstake
  intro out hout h0
  exact hzero ⟨out, hout, h0⟩

theorem exists_vout_of_isCoinStake (h : tx.isCoinStake = true) :
    tx.isCoinBase = false ∧ ∃ txin ins out0 out1 outs, tx.vin = txin :: ins ∧
      tx.vout = out0 :: out1 :: outs := by
  unfold CTransaction.isCoinStake at h
  unfold CTransaction.isCoinBase
  match hin : tx.vin, hout : tx.vout with
  | [], _ => simp [hin] at h
  | _ :: _, [] => simp [hin, hout] at h
  | _ :: _, [_] => simp [hin, hout] at h
  | txin :: ins, out0 :: out1 :: outs =>
    refine ⟨?_, txin, ins, out0, out1, outs, rfl, rfl⟩
    simp only [hin, hout] at h
    cases ins <;> simp_all

/-- An output that is paid is paid from an output of its colour. -/
theorem exists_mem_of_colorSum_pos {n : Int32} :
    ∀ {outs : List CTxOut}, 0 < colorSum outs n → ∃ out ∈ outs, out.nColor = n
  | [], h => by simp at h
  | out :: outs, h => by
    by_cases hn : out.nColor = n
    · exact ⟨out, List.mem_cons_self, hn⟩
    · rw [colorSum_cons, if_neg hn, Int.zero_add] at h
      obtain ⟨o, ho, hc⟩ := exists_mem_of_colorSum_pos h
      exact ⟨o, List.mem_cons_of_mem _ ho, hc⟩

theorem le_colorSum_of_mem {outs : List CTxOut} (h : ∀ o ∈ outs, 0 ≤ o.nValue.toInt)
    {out : CTxOut} (hout : out ∈ outs) : out.nValue.toInt ≤ colorSum outs out.nColor := by
  obtain ⟨l, l', rfl⟩ := List.append_of_mem hout
  have hl := colorSum_nonneg (fun o ho => h o (List.mem_append_left _ ho)) out.nColor
  have hl' := colorSum_nonneg
    (fun o ho => h o (List.mem_append_right _ (List.mem_cons_of_mem _ ho))) out.nColor
  rw [colorSum_append, colorSum_cons, if_pos rfl]
  omega

section

variable {T : Set CTransaction} {env : NodeEnv} {txdb txdb' : TxDB} {pos : DiskBlockPos}
  {block : CBlock} {pprev pindex' : CBlockIndex} {ancestors : List CBlockIndex}

/-- **The second output is paid from an input of its colour.** -/
theorem stakeColor_from_input (hT : CollisionFree K T) (hholds : ∀ tx, env.Holds tx → tx ∈ T)
    (hconn : connectBlock K env txdb (newBlockIndex pos block pprev) pprev ancestors block false =
      .ok (pindex', txdb')) {coinstake : CTransaction} (hmem : coinstake ∈ block.vtx)
    (hcs : coinstake.isCoinStake = true) :
    ∃ txin ∈ coinstake.vin, ∃ out, outputIn K T txin.prevout = some out ∧
      out.nColor = coinstake.getStakeColor := by
  obtain ⟨hcb, _, _, out0, out1, outs, -, hv⟩ := exists_vout_of_isCoinStake hcs
  obtain ⟨l, hblock⟩ := connectBlock_spec hconn
  simp only [connectBlock, connectBody, bind_eq_ok, pure_eq_ok, Prod.mk.injEq, Prod.exists] at hconn
  obtain ⟨_, _, ⟨_, -, s, hloop, -⟩, -⟩ := hconn
  obtain ⟨s₁, s₂, htx⟩ := connectTxs_mem hloop hmem
  have hfile : (ctxOf env txdb pos block pprev ancestors).pindex.nFile ≠ 0xffffffff := pos.notNull
  obtain ⟨prevs, hct, -⟩ := connectTx_spec hfile htx
  obtain ⟨mid, _, ⟨hcb', -⟩ | ⟨-, hci⟩, -⟩ := hct.entered
  · rw [hcb] at hcb'
    cases hcb'
  · have hvalues := (hblock.checked.checked coinstake hmem).1.values
    have hout1 : out1 ∈ coinstake.vout := by simp [hv]
    have hstake : coinstake.getStakeColor = out1.nColor := by
      simp [CTransaction.getStakeColor, hcs, hv]
    obtain ⟨c, hc⟩ := inTable_iff.mp (hvalues.inTable out1 hout1)
    have hne : c ≠ .none := (checkColor_toInt32 c).mp (hc ▸ hct.colors out1 hout1)
    have h0 := hvalues.nonneg out1 hout1
    have hnz : out1.nValue.toInt ≠ 0 := by
      intro hz
      exact connectTx_coinStake hcb hcs htx out1 (by simp [hv]) (Int64.toInt_inj.mp hz)
    have hle := le_colorSum_of_mem hvalues.nonneg hout1
    have hin := hci.values c hne
    rw [hc] at hle
    have hpos : 0 < colorSum prevs c.toInt32 := by omega
    obtain ⟨prev, hprev, hcolor⟩ := exists_mem_of_colorSum_pos hpos
    have hspent := (List.forall₂_and_left _ _).mpr ⟨fun txin htxin => htxin, hci.spent⟩
    obtain ⟨txin, htxin, txPrev, idx, hs⟩ := exists_of_forall₂ hspent.flip prev hprev
    exact ⟨txin, htxin, prev, hs.outputIn_eq hT hholds, by rw [hstake, hcolor, hc]⟩

theorem relayKernel_eq_ok {α : Type} {r : Run α} {a : α} : relayKernel r = .ok a ↔ r = .ok a := by
  match r with
  | .ok _ => rfl
  | .error (.reject _ _) => simp [relayKernel]
  | .error (.throw _) => simp [relayKernel]
  | .error (.oob _) => simp [relayKernel]

variable {fTestNet : Bool} {tx : CTransaction}

/-- What `CheckProofOfStake` establishes of the kernel: the output it read is the one its outpoint
names. -/
theorem checkProofOfStake_kernel (hT : CollisionFree K T) {node : StakeNode}
    (hst : node.store.Consistent K) (hdisk : ∀ pos tx, node.store.disk pos = some tx → tx ∈ T)
    {bnStakeModifier : UInt256} {nBits : UInt32} {r : UInt256 × UInt256}
    (h : checkProofOfStake K fTestNet bnStakeModifier node tx nBits = .ok r) :
    tx.isCoinStake = true ∧ ∃ txin ins out c, tx.vin = txin :: ins ∧
      node.kernelOutput tx = some out ∧ outputIn K T txin.prevout = some out ∧
      out.nColor = c.toInt32 ∧ canStake c = true := by
  unfold checkProofOfStake at h
  split at h
  · cases h
  · next txin ins hvin =>
    simp only [bind_eq_ok, refuse_eq_ok, Bool.not_eq_false] at h
    obtain ⟨_, hcs, h⟩ := h
    split at h
    · cases h
    · next txPrev txindex hread =>
      simp only [bind_eq_ok, refuse_eq_ok] at h
      obtain ⟨_, -, _, -, _, -, h⟩ := h
      have hid := readFromDisk_spec hst hread
      have hmem := hdisk _ _ (readFromDisk_disk hread)
      cases hout : txPrev.vout[txin.prevout.n.toNat]? with
      | none =>
        simp only [relayKernel_eq_ok, checkStakeKernelHash, hout, bind_eq_ok] at h
        obtain ⟨_, -, h⟩ := h
        cases h
      | some out =>
        simp only [relayKernel_eq_ok, checkStakeKernelHash, hout, bind_eq_ok, refuse_eq_ok,
          tableIndex_eq_ok, Bool.not_eq_false] at h
        obtain ⟨_, -, _, -, c, hc, _, hcan, -⟩ := h
        refine ⟨hcs, txin, ins, out, c, hvin, ?_, ?_, hc, hcan⟩
        · simp [StakeNode.kernelOutput, hvin, hread, hout]
        · rw [hT.outputIn_eq hmem hid, hout]

/-- The fees of a colour are paid in itself or in SIS. -/
theorem feeColor_cases (c : Color) : feeColor c = c ∨ feeColor c = .sis := by
  revert c
  decide

/-- **The marker has the colour of a stakeable second output.** -/
theorem getColor_of_getStakeColor {nAdjustedTime : Nat} (hcs : tx.isCoinStake = true)
    (h : checkTransaction fTestNet nAdjustedTime tx = .ok ()) {c : Color}
    (hc : tx.getStakeColor = c.toInt32) (hcan : canStake c = true) :
    tx.getColor = c.toInt32 := by
  obtain ⟨hcb, _, _, out0, out1, outs, -, hv⟩ := exists_vout_of_isCoinStake hcs
  obtain ⟨m, hm, hcolors⟩ := checkTransaction_colors hcb h
  have hout1 : out1.nColor = c.toInt32 := by
    simpa [CTransaction.getStakeColor, hcs, hv] using hc
  rw [hm]
  rcases hcolors out1 (by simp [hv]) with heq | heq
  · rw [← heq, hout1]
  · rcases feeColor_cases m with hfee | hfee
    · rw [← hfee, ← heq, hout1]
    · rw [hfee, hout1, Color.toInt32_inj] at heq
      subst heq
      exact absurd hcan (by decide)

/-- **When the three colours of an accepted coinstake agree**: no input past the kernel brings
another colour that the second output pays out. -/
theorem stakeColorsAgree_iff (hT : CollisionFree K T) {node : StakeNode}
    (hst : node.store.Consistent K) (hdisk : ∀ pos tx, node.store.disk pos = some tx → tx ∈ T)
    (hholds : ∀ tx, env.Holds tx → tx ∈ T) {fTestNet : Bool} {bnStakeModifier : UInt256}
    {coinbase coinstake : CTransaction} {vtx : List CTransaction} {nBits : UInt32}
    {r : UInt256 × UInt256} (hv : block.vtx = coinbase :: coinstake :: vtx)
    (hpos : checkProofOfStake K fTestNet bnStakeModifier node coinstake nBits = .ok r)
    (hconn : connectBlock K env txdb (newBlockIndex pos block pprev) pprev ancestors block false =
      .ok (pindex', txdb')) :
    StakeColorsAgree node coinstake ↔ PaidFromKernel K T node coinstake := by
  obtain ⟨hcs, txin, ins, kernel, c, hvin, hkernel, hout, hc, hcan⟩ :=
    checkProofOfStake_kernel hT hst hdisk hpos
  have hmem : coinstake ∈ block.vtx := by simp [hv]
  constructor
  · rintro ⟨out, hk, hstake, -⟩ t - o - hcolor
    exact ⟨out, hk, by rw [hcolor, hstake]⟩
  · intro hpaid
    -- the second output is paid from the kernel, or from an input of the kernel's colour
    have hstake : coinstake.getStakeColor = kernel.nColor := by
      obtain ⟨t, ht, o, ho, hcolor⟩ := stakeColor_from_input hT hholds hconn hmem hcs
      rw [hvin, List.mem_cons] at ht
      rcases ht with rfl | ht
      · rw [hout] at ho
        cases ho
        exact hcolor.symm
      · obtain ⟨k, hk, hck⟩ := hpaid t (by rw [hvin]; exact ht) o ho hcolor
        rw [hkernel] at hk
        cases hk
        rw [← hcolor, hck]
    simp only [connectBlock, connectBody, checkBlock, bind_eq_ok] at hconn
    obtain ⟨_, ⟨_, ⟨_, -, _, -, _, -, _, -, _, -, _, -, _, -, _, hchecks, -⟩, -⟩, -⟩ := hconn
    refine ⟨kernel, hkernel, hstake, ?_⟩
    rw [hc] at hstake ⊢
    exact getColor_of_getStakeColor hcs (checkTransactions_mem hchecks hmem) hstake hcan

end

/-! ## 3. A coinstake of two colours -/

/-- A card, to be spent with the key of `stakedTx`. -/
def cardTx : CTransaction :=
  { stakedTx with vout := [⟨1, Color.joker.toInt32, 0x21 :: samplePubKey ++ [opChecksig]⟩] }

/-- An input that spends the only output of a transaction. -/
def spendOf (tx : CTransaction) (scriptSig : CScript) : CTxIn :=
  ⟨⟨tx.getHash unsignedCrypto, 0⟩, scriptSig, 0⟩

/-- A coinstake that pays to BRX, whatever it stakes. -/
def brxCoinstake (staked : List CTransaction) (scriptSig : CScript) : CTransaction :=
  ⟨1, 1777836782, staked.map (spendOf · scriptSig),
    [⟨0, Color.brx.toInt32, []⟩, ⟨100000000, Color.brx.toInt32, [op1]⟩], 0, [], 0⟩

/-- The staker has signed the coinstake of BRX alone, the one that stakes the card, and the block
id zero. -/
def stakeCrypto : Crypto :=
  { unsignedCrypto with
    verify := fun pubkey hash sig =>
      let signed := fun staked nIn => signatureHash unsignedCrypto
        (0x21 :: samplePubKey ++ [opChecksig]) (brxCoinstake staked []) nIn 1
      pubkey == samplePubKey &&
        (sig == [0x30] && hash == 0 || sig == [0x30, 6, 2, 1, 1, 2, 1, 1] &&
          (hash == signed [stakedTx] 0 || hash == signed [cardTx, stakedTx] 0 ||
            hash == signed [cardTx, stakedTx] 1)) }

/-- A block that mints BRK for a coinstake of BRX. -/
def brxBlock (staked : List CTransaction) : CBlock :=
  let block : CBlock :=
    ⟨7, 0, 0, 1777836782, 0x207fffff, 0, 13, 0, 1,
      [⟨1, 1777836782, [⟨⟨0, 0xffffffff⟩, [1, 1], 0⟩],
        [⟨400000000, Color.brk.toInt32, [op1]⟩], 0, [], 0⟩, brxCoinstake staked goodSig], [0x30]⟩
  { block with hashMerkleRoot := block.buildMerkleTree stakeCrypto }

/-- The twelve blocks of the sample branch, after the seventh fork. -/
def stakeBranch : List CBlockIndex :=
  (sampleBranch 1).map fun p => { p with nTime := 1777836700 }

/-- Their tip; the first of them has the card and the BRX. -/
def stakeTip : Tip where
  env := ⟨⟨true, 1777836782⟩, fun pos =>
      if pos = ⟨1, 1, 0⟩ then some stakedTx else if pos = ⟨1, 1, 300⟩ then some cardTx else none,
    fun _ => none, true⟩
  txdb hash :=
    if hash = stakedTx.getHash stakeCrypto then some (.new ⟨1, 1, 0⟩ 1)
    else if hash = cardTx.getHash stakeCrypto then some (.new ⟨1, 1, 300⟩ 1) else none
  pos := ⟨1, 2000, firstFile_notNull⟩
  pprev := stakeBranch.headD (genesisIndex ⟨1, 0, firstFile_notNull⟩)
  ancestors := stakeBranch.tail

/-- The node that checks the kernel on that branch. -/
def stakeNode : StakeNode where
  store := ⟨stakeTip.txdb, stakeTip.env.disk⟩
  hasBlock _ _ := true
  pindexPrev := stakeTip.pprev
  ancestors := stakeTip.ancestors

/-- The transactions of the example. -/
def stakeTxs : List CTransaction := [stakedTx, cardTx]

theorem stakeTxs_collisionFree : CollisionFree stakeCrypto {tx | tx ∈ stakeTxs} := by
  have hsized : ∀ tx ∈ stakeTxs, tx.serialize.length < 2 ^ 64 := by decide +kernel
  have hinj : ∀ a ∈ stakeTxs, ∀ b ∈ stakeTxs, a.getHash stakeCrypto = b.getHash stakeCrypto →
      a.hashed.serialize = b.hashed.serialize := by decide +kernel
  exact ⟨hsized, hinj⟩

theorem stakeTip_disk (pos : CDiskTxPos) (tx : CTransaction)
    (h : stakeTip.env.disk pos = some tx) : tx ∈ stakeTxs := by
  simp only [stakeTip] at h
  split at h
  · cases h
    simp [stakeTxs]
  · split at h
    · cases h
      simp [stakeTxs]
    · cases h

theorem stakeTip_holds (tx : CTransaction)
    (h : (stakeTip.envWith stakeTip.env.disk).Holds tx) : tx ∈ stakeTxs := by
  rcases h with ⟨pos, hpos⟩ | ⟨_, hpool⟩
  · exact stakeTip_disk pos tx hpos
  · cases hpool

theorem stakeNode_consistent : stakeNode.store.Consistent stakeCrypto := by
  intro hash idx tx h htx
  simp only [stakeNode, stakeTip] at h htx
  split at h
  · next hh =>
    cases h
    cases htx
    exact hh.symm
  · split at h
    · next hh =>
      cases h
      cases htx
      exact hh.symm
    · cases h

/-- A coinstake with one input is paid from its kernel, so its colours agree. -/
theorem stakeColorsAgree_brx : StakeColorsAgree stakeNode (brxCoinstake [stakedTx] goodSig) := by
  have hconn : (stakeTip.connect stakeCrypto stakeTip.env.disk
      (brxBlock [stakedTx])).accepts = true := by decide +kernel
  have hkernel : (checkProofOfStake stakeCrypto true 0 stakeNode
      (brxCoinstake [stakedTx] goodSig) 0x207fffff).accepts = true := by decide +kernel
  obtain ⟨⟨pindex', txdb'⟩, hconn⟩ := accepts_iff.mp hconn
  obtain ⟨r, hkernel⟩ := accepts_iff.mp hkernel
  refine (stakeColorsAgree_iff stakeTxs_collisionFree stakeNode_consistent stakeTip_disk
    stakeTip_holds rfl hkernel hconn).mpr ?_
  intro txin htxin
  cases htxin

/-- **A card staked as if it were BRX.**  The kernel is a card; marker and second output are BRX,
so the block needs the depth of BRX and mints its reward.  Every check passes. -/
theorem card_staked_as_brx :
    checkBlock stakeCrypto stakeTip.env.clock stakeNode.store (brxBlock [cardTx, stakedTx]) true
        true true = .ok () ∧
      (checkProofOfStake stakeCrypto true 0 stakeNode (brxCoinstake [cardTx, stakedTx] goodSig)
        0x207fffff).accepts = true ∧
      (stakeTip.connect stakeCrypto stakeTip.env.disk (brxBlock [cardTx, stakedTx])).accepts =
        true ∧
      (brxBlock [cardTx, stakedTx]).vtx[1]? = some (brxCoinstake [cardTx, stakedTx] goodSig) ∧
      ¬ StakeColorsAgree stakeNode (brxCoinstake [cardTx, stakedTx] goodSig) := by
  refine ⟨by decide +kernel, by decide +kernel, by decide +kernel, rfl, ?_⟩
  rintro ⟨out, hout, hstake, -⟩
  have hkernel : (stakeNode.kernelOutput (brxCoinstake [cardTx, stakedTx] goodSig)).map
      CTxOut.nColor = some Color.joker.toInt32 := by decide +kernel
  rw [hout, Option.map_some, Option.some_inj, ← hstake] at hkernel
  exact absurd hkernel (by decide +kernel)

end Breakout
