/-
# What of a block its transactions' ids commit to

A transaction's id leaves out its input scripts (`CTransaction.hashed`).  `ConnectBlock` reads
them in two places only: it counts their signature operations and it runs them.  This module
takes `ConnectBlock` apart along that line.

* `connectTxsCommitted` is the loop of `ConnectBlock` without these two checks.  It runs on what
  the ids commit to, and finds the previous transactions by id.
* `ScriptsPass` are the two checks.

A block that passed `CheckBlock` connects exactly when its committed part connects and its scripts
pass (`connectBlock_accepts_iff`).  The proof runs the two loops in step (`InStep`): the program's
entries and those of the committed loop have their outputs spent alike, and the transaction the
program reads at an entry hashes to what the committed loop finds under the id.
-/
import Breakout.Chain
import Breakout.Acceptance
import Breakout.BlockContext

namespace Breakout

open Lib

/-! ## 1. The committed part of a transaction -/

/-- Inputs that spend the same outputs, in order. -/
def SameVin (vin vin' : List CTxIn) : Prop :=
  List.Forall₂ (fun a b => a.prevout = b.prevout) vin vin'

namespace CTransaction

theorem sameVin_hashed (tx : CTransaction) : SameVin tx.vin tx.hashed.vin := by
  unfold CTransaction.hashed
  split
  · exact List.forall₂_same.mpr fun _ _ => rfl
  · exact List.forall₂_map_right_iff.mpr (List.forall₂_same.mpr fun _ _ => rfl)

@[simp] theorem isCoinBase_hashed (tx : CTransaction) : tx.hashed.isCoinBase = tx.isCoinBase :=
  CTransaction.isCoinBase_congr tx.hashed_prevouts tx.hashed_vout

@[simp] theorem isCoinStake_hashed (tx : CTransaction) : tx.hashed.isCoinStake = tx.isCoinStake := by
  have h := tx.sameVin_hashed
  unfold isCoinStake
  rw [hashed_vout]
  generalize tx.hashed.vin = vin' at h ⊢
  generalize tx.vin = vin at h ⊢
  cases h with
  | nil => rfl
  | cons h _ =>
    cases tx.vout with
    | nil => rfl
    | cons out0 outs => cases outs <;> simp [h]

@[simp] theorem doesMature_hashed (tx : CTransaction) : tx.hashed.doesMature = tx.doesMature := by
  rw [doesMature, doesMature, isCoinBase_hashed, isCoinStake_hashed]

@[simp] theorem getColor_hashed (tx : CTransaction) : tx.hashed.getColor = tx.getColor := by
  rw [getColor, getColor, hashed_vout]

@[simp] theorem fillValuesOut_hashed (tx : CTransaction) (fFeesOnly : Bool) :
    tx.hashed.fillValuesOut fFeesOnly = tx.fillValuesOut fFeesOnly := by
  rw [fillValuesOut, fillValuesOut, hashed_vout]

@[simp] theorem getValueOut_hashed (tx : CTransaction) (n : Int32) :
    tx.hashed.getValueOut n = tx.getValueOut n := by
  rw [getValueOut, getValueOut, isCoinBase_hashed, hashed_vout]

@[simp] theorem strTxComment_hashed (tx : CTransaction) :
    tx.hashed.strTxComment = tx.strTxComment := by
  unfold hashed
  split <;> rfl

theorem getServiceFee_hashed (tx : CTransaction) (c : Color) :
    tx.hashed.getServiceFee c = tx.getServiceFee c := by
  rw [getServiceFee, getServiceFee, strTxComment_hashed]

theorem getOpRetFee_hashed (tx : CTransaction) (c : Color) :
    tx.hashed.getOpRetFee c = tx.getOpRetFee c := by
  unfold getOpRetFee
  rw [hashed_vout]

@[simp] theorem getMinFee_hashed (tx : CTransaction) (nBlockSize nBytes : UInt32)
    (mode : GetMinFeeMode) :
    tx.hashed.getMinFee nBlockSize mode nBytes = tx.getMinFee nBlockSize mode nBytes := by
  unfold getMinFee
  simp only [getServiceFee_hashed, getOpRetFee_hashed, doesMature_hashed, getColor_hashed,
    hashed_vout, hashed_nTime]

end CTransaction

@[simp] theorem checkCoinStake_hashed (tx : CTransaction) (mIn mOut : ColorsMap) :
    checkCoinStake tx.hashed mIn mOut = checkCoinStake tx mIn mOut := by
  simp only [checkCoinStake, CTransaction.isCoinStake_hashed, CTransaction.getColor_hashed,
    CTransaction.hashed_vout]

@[simp] theorem checkFees_hashed (tx : CTransaction) (v : Color → Int64) :
    checkFees tx.hashed v = checkFees tx v := by
  simp only [checkFees, txFees, CTransaction.isCoinStake_hashed, CTransaction.getColor_hashed,
    CTransaction.getValueOut_hashed, CTransaction.fillValuesOut_hashed,
    CTransaction.getMinFee_hashed]

@[simp] theorem checkValuesOut_hashed (tx : CTransaction) (v : Color → Int64) :
    ∀ colors : List Color, checkValuesOut tx.hashed v colors = checkValuesOut tx v colors
  | [] => rfl
  | c :: colors => by
    simp only [checkValuesOut, CTransaction.getValueOut_hashed, checkValuesOut_hashed tx v colors]

/-! ## 2. Connecting the committed part -/

section

variable (K : Crypto) (prev : UInt256 → Option CTransaction)

/-- The first loop of `FetchInputs`, with the previous transactions found by id. -/
def fetchCommitted (view : TxDB) : List CTxIn → MapPrevTx → Run MapPrevTx
  | [], inputs => .ok inputs
  | txin :: vin, inputs =>
    if (inputs txin.prevout.hash).isSome then fetchCommitted view vin inputs
    else
      match view txin.prevout.hash with
      | none => .error (.reject 0 "FetchInputs() : prev tx index entry not found")
      | some txindex =>
        match prev txin.prevout.hash with
        | none => .error (.reject 0 "FetchInputs() : ReadFromDisk prev tx failed")
        | some txPrev =>
          fetchCommitted view vin
            (Function.update inputs txin.prevout.hash (some (txindex, txPrev)))

/-- `FetchInputs` -/
def fetchInputsCommitted (view : TxDB) (tx : CTransaction) : Run MapPrevTx := do
  let inputs ← fetchCommitted prev view tx.vin fun _ => none
  refuse (∃ txin ∈ tx.vin, prevoutInRange inputs txin = false) 100
    "FetchInputs() : prevout.n out of range"
  return inputs

/-- The second loop of `ConnectInputs`, with the signatures left out. -/
def spendCommitted (posThisTx : CDiskTxPos) : List CTxIn → MapPrevTx → TxDB → Run TxDB
  | [], _, queued => .ok queued
  | txin :: vin, inputs, queued =>
    match inputs txin.prevout.hash with
    | none => .error (.throw "assert(inputs.count(prevout.hash) > 0)")
    | some (txindex, txPrev) =>
      match txindex.vSpent[txin.prevout.n.toNat]? with
      | none => .error (.oob txin.prevout.n.toNat)
      | some pos => do
        refuse (pos.isNull = false) 0 "ConnectInputs() : prev tx already used"
        let txindex' := txindex.setSpent txin.prevout.n posThisTx
        spendCommitted posThisTx vin
          (Function.update inputs txin.prevout.hash (some (txindex', txPrev)))
          (queued.update txin.prevout.hash txindex')

/-- `ConnectInputs` -/
def connectInputsCommitted (ctx : ConnectCtx) (tx : CTransaction) (inputs : MapPrevTx)
    (queued : TxDB) : Run TxDB := do
  let vValueIn ← checkPrevouts ctx.env.clock.fTestNet ctx.pindex (ctx.pprev :: ctx.ancestors)
    tx.nTime inputs tx.vin fun _ => 0
  let _ ← tableIndex tx.getColor
  let queued ← spendCommitted ⟨ctx.pindex.nFile, ctx.pindex.nBlockPos, 0⟩ tx.vin inputs queued
  checkValuesOut tx vValueIn realColors
  checkFees tx vValueIn
  return queued

/-- The branch for a transaction that spends. -/
def connectSpenderCommitted (ctx : ConnectCtx) (s : ConnectState) (tx : CTransaction) :
    Run ConnectState := do
  let mapInputs ← fetchInputsCommitted prev (s.mapQueuedChanges.over ctx.txdb) tx
  let mapValuesIn ← addInputs mapInputs tx.vin .empty
  let vValueIn ← tally mapValuesIn.mapAmounts s.vValueIn
  checkCoinStake tx mapValuesIn (tx.fillValuesOut false)
  let vFees ← addFees mapValuesIn (tx.fillValuesOut false) realColors s.vFees
  let queued ← connectInputsCommitted ctx tx mapInputs s.mapQueuedChanges
  return { s with
    mapQueuedChanges := queued
    vFees := vFees
    vValueIn := vValueIn }

/-- The body of the loop; `tx` is what an id commits to. -/
def connectTxCommitted (ctx : ConnectCtx) (s : ConnectState) (tx : CTransaction) :
    Run ConnectState := do
  let hash := K.hash tx.serialize
  refuse (∃ idx ∈ ctx.txdb hash, ∃ pos ∈ idx.vSpent, pos.isNull = true) 100
    "ConnectBlock() : tried to overwrite transaction"
  refuse (∃ txout ∈ tx.vout, checkColor txout.nColor = false) 100
    "ConnectBlock() : invalid color for output"
  let vValueOut ← tally (tx.fillValuesOut false).mapAmounts s.vValueOut
  let s' ← (if tx.isCoinBase then connectCoinBase ctx { s with vValueOut := vValueOut } tx
    else connectSpenderCommitted prev ctx { s with vValueOut := vValueOut } tx : Run ConnectState)
  return { s' with
    mapQueuedChanges := s'.mapQueuedChanges.update hash
      (.new ⟨ctx.pindex.nFile, ctx.pindex.nBlockPos, 0⟩ tx.vout.length) }

/-- The loop. -/
def connectTxsCommitted (ctx : ConnectCtx) : List CTransaction → ConnectState → Run ConnectState
  | [], s => .ok s
  | tx :: vtx, s => do
    let s' ← connectTxCommitted K prev ctx s tx
    connectTxsCommitted ctx vtx s'

/-- `ConnectBlock` on what the ids of a block's transactions commit to, without `CheckBlock`. -/
def connectCommitted (ctx : ConnectCtx) (vtx : List CTransaction) : Run Unit := do
  let s ← connectTxsCommitted K prev ctx vtx
    (.init ctx.env.clock.nAdjustedTime ctx.pindex false vtx)
  let vTotalMint ← connectReward ctx vtx s
  let _ ← connectBurns ctx.pprev vtx ⟨vTotalMint, moneySupply ctx s⟩
  refuse (ctx.env.fExplore = false) 0 "ConnectBlock() : ExploreConnectBlock failed"
  return ()

end

/-- The same node without its block files and its memory pool. -/
def ConnectCtx.diskless (ctx : ConnectCtx) : ConnectCtx :=
  { ctx with env := { ctx.env with disk := fun _ => none, mempool := fun _ => none } }

/-! ## 3. The scripts -/

section

variable (K : Crypto) (T : Set CTransaction)

open Classical in
/-- The committed part of the transaction of `T` with an id. -/
noncomputable def prevIn (hash : UInt256) : Option CTransaction :=
  if h : ∃ tx ∈ T, tx.getHash K = hash then some h.choose.hashed else none

/-- Do the inputs from number `i` on satisfy the scripts of the outputs they spend? -/
def Signed (tx : CTransaction) : Nat → List CTxIn → Prop
  | _, [] => True
  | i, txin :: vin =>
    (∀ txout, outputIn K T txin.prevout = some txout →
      verifyScript K ⟨tx, i, blockScriptFlags, 0⟩ txin.scriptSig txout.scriptPubKey = true) ∧
      Signed tx (i + 1) vin

/-- The signature operations an input adds by the pay-to-script-hash output it spends. -/
noncomputable def p2shOps (txin : CTxIn) : Nat :=
  match outputIn K T txin.prevout with
  | some txout =>
    if isPayToScriptHash txout.scriptPubKey then
      getSigOpCountSpending txout.scriptPubKey txin.scriptSig
    else 0
  | none => 0

/-- All signature operations of a transaction. -/
noncomputable def sigOps (tx : CTransaction) : Nat :=
  tx.getLegacySigOpCount + if tx.isCoinBase then 0 else (tx.vin.map (p2shOps K T)).sum

/-- What is checked of the scripts of transactions, when `n` signature operations came before. -/
def ScriptsFrom : Nat → List CTransaction → Prop
  | _, [] => True
  | n, tx :: vtx =>
    (n + sigOps K T tx ≤ maxBlockSigops ∧ (tx.isCoinBase = false → Signed K T tx 0 tx.vin)) ∧
      ScriptsFrom (n + sigOps K T tx) vtx

/-- **The input scripts of a block pass**: each satisfies the output it spends, and together they do
not have too many signature operations. -/
def ScriptsPass (vtx : List CTransaction) : Prop :=
  (vtx.map (sigOps K T)).sum ≤ maxBlockSigops ∧
    ∀ tx ∈ vtx, tx.isCoinBase = false → Signed K T tx 0 tx.vin

end

variable {K : Crypto} {T : Set CTransaction}

theorem CollisionFree.prevIn_eq (hT : CollisionFree K T) {tx : CTransaction} (htx : tx ∈ T)
    {hash : UInt256} (hid : tx.getHash K = hash) : prevIn K T hash = some tx.hashed := by
  have hex : ∃ tx ∈ T, tx.getHash K = hash := ⟨tx, htx, hid⟩
  rw [prevIn, dif_pos hex,
    hT.hashed_eq hex.choose_spec.1 htx (hex.choose_spec.2.trans hid.symm)]

theorem scriptsFrom_iff :
    ∀ {vtx : List CTransaction} {n : Nat}, n ≤ maxBlockSigops →
      (ScriptsFrom K T n vtx ↔ n + (vtx.map (sigOps K T)).sum ≤ maxBlockSigops ∧
        ∀ tx ∈ vtx, tx.isCoinBase = false → Signed K T tx 0 tx.vin)
  | [], n, hn => by simpa [ScriptsFrom] using hn
  | tx :: vtx, n, hn => by
    rw [ScriptsFrom, List.map_cons, List.sum_cons, List.forall_mem_cons]
    constructor
    · rintro ⟨⟨hops, hsig⟩, hrest⟩
      obtain ⟨h1, h2⟩ := (scriptsFrom_iff hops).mp hrest
      exact ⟨by omega, hsig, h2⟩
    · rintro ⟨hops, hsig, hall⟩
      exact ⟨⟨by omega, hsig⟩, (scriptsFrom_iff (by omega)).mpr ⟨by omega, hall⟩⟩

theorem scriptsFrom_zero {vtx : List CTransaction} :
    ScriptsFrom K T 0 vtx ↔ ScriptsPass K T vtx := by
  rw [scriptsFrom_iff (Nat.zero_le _), Nat.zero_add, ScriptsPass]

/-! ## 4. The two loops in step -/

/-- Two entries for one transaction: in the same block, with the same outputs spent. -/
structure SameEntry (a b : CTxIndex) : Prop where
  nFile : a.pos.nFile = b.pos.nFile
  nBlockPos : a.pos.nBlockPos = b.pos.nBlockPos
  spent : a.vSpent.map CDiskTxPos.isNull = b.vSpent.map CDiskTxPos.isNull

namespace SameEntry

variable {a b : CTxIndex}

theorem refl (a : CTxIndex) : SameEntry a a := ⟨rfl, rfl, rfl⟩

theorem length_eq (h : SameEntry a b) : a.vSpent.length = b.vSpent.length := by
  simpa using congrArg List.length h.spent

theorem getElem? (h : SameEntry a b) (n : Nat) :
    (a.vSpent[n]?).map CDiskTxPos.isNull = (b.vSpent[n]?).map CDiskTxPos.isNull := by
  rw [← List.getElem?_map, ← List.getElem?_map, h.spent]

theorem setSpent (h : SameEntry a b) (n : UInt32) {p q : CDiskTxPos} (hpq : p.isNull = q.isNull) :
    SameEntry (a.setSpent n p) (b.setSpent n q) := by
  refine ⟨h.nFile, h.nBlockPos, ?_⟩
  simp only [CTxIndex.setSpent, List.map_set, h.spent, hpq]

/-- Whether a transaction is deep enough is seen from its block. -/
theorem isConfirmed (h : SameEntry a b) (pindexFrom : CBlockIndex) (ancestors : List CBlockIndex)
    (nMaxDepth : Int) :
    isConfirmedInNPrevBlocks a.pos pindexFrom ancestors nMaxDepth =
      isConfirmedInNPrevBlocks b.pos pindexFrom ancestors nMaxDepth := by
  unfold isConfirmedInNPrevBlocks
  rw [h.nFile, h.nBlockPos]

end SameEntry

/-- What the program reads under an id, against what the committed loop finds. -/
structure SamePrev (K : Crypto) (T : Set CTransaction) (env : NodeEnv) (hash : UInt256)
    (p q : CTxIndex × CTransaction) : Prop where
  entry : SameEntry p.1 q.1
  read : readPrev env hash p.1 = some p.2
  tx : q.2 = p.2.hashed
  mem : p.2 ∈ T
  getHash : p.2.getHash K = hash

/-- The fetched inputs agree. -/
def SameInputs (K : Crypto) (T : Set CTransaction) (env : NodeEnv) (inputs inputs' : MapPrevTx) :
    Prop :=
  ∀ hash, Option.Rel (SamePrev K T env hash) (inputs hash) (inputs' hash)

/-- An entry, and that the transaction it is for can be read. -/
structure ReadEntry (K : Crypto) (T : Set CTransaction) (env : NodeEnv) (hash : UInt256)
    (a b : CTxIndex) : Prop where
  entry : SameEntry a b
  read : ∃ tx ∈ T, readPrev env hash a = some tx ∧ tx.getHash K = hash

/-- Two indices agree, and everything in the first can be read. -/
def SameView (K : Crypto) (T : Set CTransaction) (env : NodeEnv) (view view' : TxDB) : Prop :=
  ∀ hash, Option.Rel (ReadEntry K T env hash) (view hash) (view' hash)

theorem relUpdate {α β : Type} {R : UInt256 → α → β → Prop} {f : UInt256 → Option α}
    {f' : UInt256 → Option β} (h : ∀ hash, Option.Rel (R hash) (f hash) (f' hash))
    {hash : UInt256} {a : α} {b : β} (hab : R hash a b) :
    ∀ x, Option.Rel (R x) (Function.update f hash (some a) x)
      (Function.update f' hash (some b) x) := by
  intro x
  by_cases hx : x = hash
  · subst hx
    rw [Function.update_self, Function.update_self]
    exact .some hab
  · rw [Function.update_of_ne hx, Function.update_of_ne hx]
    exact h x

theorem SameView.over {env : NodeEnv} {q q' txdb : TxDB} (h : SameView K T env q q')
    (hdb : SameView K T env txdb txdb) : SameView K T env (q.over txdb) (q'.over txdb) := by
  intro hash
  unfold TxDB.over
  have hq := h hash
  generalize q hash = x at hq ⊢
  generalize q' hash = y at hq ⊢
  cases hq with
  | none => exact hdb hash
  | some hab => exact .some hab

theorem fetchLoop_inStep (hT : CollisionFree K T) {env : NodeEnv} {view view' : TxDB}
    (hview : SameView K T env view view') :
    ∀ {vin vin' : List CTxIn} {inputs inputs' : MapPrevTx}, SameVin vin vin' →
      SameInputs K T env inputs inputs' →
      InStep True (SameInputs K T env) (fetchLoop env view vin inputs)
        (fetchCommitted (prevIn K T) view' vin' inputs') := by
  intro vin vin' inputs inputs' hvin hin
  induction hvin generalizing inputs inputs' with
  | nil => exact .ok hin
  | @cons txin txin' vin vin' hp hrest ih =>
    rw [fetchLoop, fetchCommitted, ← hp]
    have hat := hin txin.prevout.hash
    have hvat := hview txin.prevout.hash
    generalize hx : inputs txin.prevout.hash = x at hat ⊢
    generalize hy : inputs' txin.prevout.hash = y at hat ⊢
    cases hat with
    | some _ => exact ih hin
    | none =>
      generalize view txin.prevout.hash = v at hvat ⊢
      generalize view' txin.prevout.hash = v' at hvat ⊢
      cases hvat with
      | none => exact .error _ _
      | some hab =>
        obtain ⟨tx, htx, hread, hid⟩ := hab.read
        simp only [hread, hT.prevIn_eq htx hid]
        exact ih (relUpdate (R := SamePrev K T env) hin ⟨hab.entry, hread, rfl, htx, hid⟩)

namespace SameInputs

variable {env : NodeEnv} {inputs inputs' : MapPrevTx}

variable {txin txin' : CTxIn}

theorem prevoutInRange_eq (h : SameInputs K T env inputs inputs')
    (hp : txin.prevout = txin'.prevout) :
    prevoutInRange inputs txin = prevoutInRange inputs' txin' := by
  unfold prevoutInRange
  rw [← hp]
  have hat := h txin.prevout.hash
  generalize inputs txin.prevout.hash = x at hat ⊢
  generalize inputs' txin.prevout.hash = y at hat ⊢
  cases hat with
  | none => rfl
  | some hab => simp only [hab.tx, CTransaction.hashed_vout, hab.entry.length_eq]

theorem inRange_iff (h : SameInputs K T env inputs inputs') :
    ∀ {vin vin' : List CTxIn}, SameVin vin vin' →
      ((∃ txin ∈ vin, prevoutInRange inputs txin = false) ↔
        ∃ txin ∈ vin', prevoutInRange inputs' txin = false)
  | _, _, .nil => by simp
  | _, _, .cons hp hrest => by
    rw [List.exists_mem_cons_iff, List.exists_mem_cons_iff, h.prevoutInRange_eq hp,
      h.inRange_iff hrest]

theorem getOutputFor_eq (h : SameInputs K T env inputs inputs')
    (hp : txin.prevout = txin'.prevout) : getOutputFor inputs txin = getOutputFor inputs' txin' := by
  unfold getOutputFor
  rw [← hp]
  have hat := h txin.prevout.hash
  generalize inputs txin.prevout.hash = x at hat ⊢
  generalize inputs' txin.prevout.hash = y at hat ⊢
  cases hat with
  | none => rfl
  | some hab => simp only [hab.tx, CTransaction.hashed_vout]

theorem addInputs_eq (h : SameInputs K T env inputs inputs') :
    ∀ {vin vin' : List CTxIn} {m : ColorsMap}, SameVin vin vin' →
      addInputs inputs vin m = addInputs inputs' vin' m := by
  intro vin vin' m hvin
  induction hvin generalizing m with
  | nil => rfl
  | cons hp hrest ih =>
    rw [addInputs, addInputs, h.getOutputFor_eq hp]
    congr 1
    funext txout
    exact ih

/-- The first loop of `ConnectInputs` gives the same totals. -/
theorem checkPrevouts_eq (h : SameInputs K T env inputs inputs') {fTestNet : Bool}
    {pindexBlock : CBlockIndex} {ancestors : List CBlockIndex} {nTime : UInt32} :
    ∀ {vin vin' : List CTxIn} {v : Color → Int64}, SameVin vin vin' →
      checkPrevouts fTestNet pindexBlock ancestors nTime inputs vin v =
        checkPrevouts fTestNet pindexBlock ancestors nTime inputs' vin' v := by
  intro vin vin' v hvin
  induction hvin generalizing v with
  | nil => rfl
  | @cons txin txin' vin vin' hp hrest ih =>
    rw [checkPrevouts, checkPrevouts, ← hp]
    have hat := h txin.prevout.hash
    generalize inputs txin.prevout.hash = x at hat ⊢
    generalize inputs' txin.prevout.hash = y at hat ⊢
    cases hat with
    | none => rfl
    | @some p q hab =>
      obtain ⟨idx, txPrev⟩ := p
      obtain ⟨idx', txPrev'⟩ := q
      obtain rfl : txPrev' = txPrev.hashed := hab.tx
      simp only [CTransaction.hashed_vout]
      cases txPrev.vout[txin.prevout.n.toNat]? with
      | none => rfl
      | some prevout =>
        have hcheck : checkPrevout fTestNet pindexBlock ancestors nTime txin idx txPrev prevout =
            checkPrevout fTestNet pindexBlock ancestors nTime txin' idx' txPrev.hashed prevout := by
          simp only [checkPrevout, ← hp, hab.entry.length_eq, CTransaction.doesMature_hashed,
            hab.entry.isConfirmed, CTransaction.hashed_nTime]
        simp only [hcheck, ih]

/-- An input in range spends the output its outpoint names. -/
theorem outputIn_eq (h : SameInputs K T env inputs inputs') (hT : CollisionFree K T)
    (hr : prevoutInRange inputs txin = true) :
    ∃ txout, getOutputFor inputs txin = .ok txout ∧ outputIn K T txin.prevout = some txout := by
  unfold prevoutInRange at hr
  have hat := h txin.prevout.hash
  generalize hx : inputs txin.prevout.hash = x at hat hr
  generalize inputs' txin.prevout.hash = y at hat
  cases hat with
  | none => cases hr
  | @some p q hab =>
    obtain ⟨idx, txPrev⟩ := p
    simp only [Bool.and_eq_true, decide_eq_true_eq] at hr
    have hout := List.getElem?_eq_getElem hr.1
    exact ⟨_, getOutputFor_eq_ok.mpr ⟨idx, txPrev, hx, hout⟩,
      (hT.outputIn_eq hab.mem hab.getHash).trans hout⟩

/-- The program counts the signature operations of the outputs that are spent. -/
theorem p2shSigOps_eq (h : SameInputs K T env inputs inputs') (hT : CollisionFree K T) :
    ∀ {vin : List CTxIn} {n : Nat}, (∀ txin ∈ vin, prevoutInRange inputs txin = true) →
      p2shSigOps inputs vin n = .ok (n + (vin.map (p2shOps K T)).sum)
  | [], n, _ => rfl
  | txin :: vin, n, hr => by
    obtain ⟨txout, hout, hin⟩ := h.outputIn_eq hT (hr txin List.mem_cons_self)
    have hrest := fun m => h.p2shSigOps_eq hT (n := m) fun t ht =>
      hr t (List.mem_cons_of_mem _ ht)
    simp only [p2shSigOps, hout, List.map_cons, List.sum_cons, p2shOps, hin]
    change p2shSigOps inputs vin _ = _
    rw [hrest]
    split
    · rw [Nat.add_assoc]
    · rw [Nat.zero_add]

end SameInputs

/-- What `VerifySignature` decides about an input. -/
theorem verifySignature_iff (hT : CollisionFree K T) {tx txPrev : CTransaction} {i : Nat}
    {txin : CTxIn} (hin : tx.vin[i]? = some txin) (hmem : txPrev ∈ T)
    (hid : txPrev.getHash K = txin.prevout.hash) {txout : CTxOut}
    (hout : outputIn K T txin.prevout = some txout) :
    ¬ verifySignature K txPrev tx i blockScriptFlags 0 = false ↔
      ∀ txout, outputIn K T txin.prevout = some txout →
        verifyScript K ⟨tx, i, blockScriptFlags, 0⟩ txin.scriptSig txout.scriptPubKey = true := by
  have hprev : txPrev.vout[txin.prevout.n.toNat]? = some txout :=
    (hT.outputIn_eq hmem hid).symm.trans hout
  simp only [verifySignature, hin, hprev, hid, ne_eq, not_true_eq_false, if_false,
    Bool.not_eq_false, hout, Option.some.injEq, forall_eq']

/-- **Spending**: the program also verifies the signatures. -/
theorem spendInputs_inStep (hT : CollisionFree K T) {env : NodeEnv} {tx : CTransaction}
    {posThisTx posThisTx' : CDiskTxPos} (hpos : posThisTx.isNull = posThisTx'.isNull) :
    ∀ {i : Nat} {vin vin' : List CTxIn} {inputs inputs' : MapPrevTx} {queued queued' : TxDB},
      SameVin vin vin' → SameInputs K T env inputs inputs' →
      (∀ txin ∈ vin, ∃ txout, outputIn K T txin.prevout = some txout) →
      SameView K T env queued queued' → tx.vin.drop i = vin →
      InStep (Signed K T tx i vin) (SameView K T env)
        (spendInputs K tx blockScriptFlags posThisTx i vin inputs queued)
        (spendCommitted posThisTx' vin' inputs' queued') := by
  intro i vin vin' inputs inputs' queued queued' hvin hin hout hq hdrop
  induction hvin generalizing i inputs inputs' queued queued' with
  | nil => exact .ok hq
  | @cons txin txin' vin vin' hp hrest ih =>
    rw [spendInputs, spendCommitted, ← hp, Signed]
    have hat := hin txin.prevout.hash
    generalize inputs txin.prevout.hash = x at hat ⊢
    generalize inputs' txin.prevout.hash = y at hat ⊢
    cases hat with
    | none => exact .error _ _
    | @some p q hab =>
      obtain ⟨idx, txPrev⟩ := p
      obtain ⟨idx', txPrev'⟩ := q
      have hspent := hab.entry.getElem? txin.prevout.n.toNat
      simp only
      generalize idx.vSpent[txin.prevout.n.toNat]? = a at hspent ⊢
      generalize idx'.vSpent[txin.prevout.n.toNat]? = b at hspent ⊢
      rcases a with _ | pos
      · obtain rfl : b = none := by simpa using hspent.symm
        exact .error _ _
      · obtain ⟨pos', rfl, hnull⟩ : ∃ pos', b = some pos' ∧ pos.isNull = pos'.isNull := by
          cases b with
          | none => simp at hspent
          | some pos' => exact ⟨pos', rfl, by simpa using hspent⟩
        obtain ⟨txout, ho⟩ := hout txin List.mem_cons_self
        have hvin : tx.vin[i]? = some txin := by
          rw [← List.head?_drop, hdrop]
          rfl
        have hentry := hab.entry.setSpent txin.prevout.n hpos
        have hread : readPrev env txin.prevout.hash (idx.setSpent txin.prevout.n posThisTx) =
            some txPrev := hab.read
        refine .then (.refuse (by rw [hnull])) fun _ _ _ => ?_
        refine (InStep.guard ?_).congr
          (and_congr_left' (verifySignature_iff hT hvin hab.mem hab.getHash ho))
        refine ih
          (relUpdate (R := SamePrev K T env) hin ⟨hentry, hread, hab.tx, hab.mem, hab.getHash⟩)
          (fun t ht => hout t (List.mem_cons_of_mem _ ht))
          (relUpdate (R := ReadEntry K T env) hq ⟨hentry, txPrev, hab.mem, hread, hab.getHash⟩) ?_
        rw [← List.tail_drop, hdrop]
        rfl

section

variable {ctx : ConnectCtx} {tx : CTransaction}

theorem fetchInputs_inStep (hT : CollisionFree K T) {env : NodeEnv} {view view' : TxDB}
    (hview : SameView K T env view view') (hcb : tx.isCoinBase = false) :
    InStep True (fun inputs inputs' => SameInputs K T env inputs inputs' ∧
        ∀ txin ∈ tx.vin, prevoutInRange inputs txin = true)
      (fetchInputs env view tx) (fetchInputsCommitted (prevIn K T) view' tx.hashed) := by
  rw [fetchInputs, if_neg (by simp [hcb]), fetchInputsCommitted]
  refine .then (fetchLoop_inStep hT hview tx.sameVin_hashed fun _ => .none) ?_
  intro inputs inputs' hin
  refine .then (.refuse (hin.inRange_iff tx.sameVin_hashed)) fun _ _ hr => .ok ⟨hin, ?_⟩
  simpa using hr

theorem connectInputs_inStep (hT : CollisionFree K T) (hcb : tx.isCoinBase = false)
    {inputs inputs' : MapPrevTx} (hin : SameInputs K T ctx.env inputs inputs')
    (hr : ∀ txin ∈ tx.vin, prevoutInRange inputs txin = true) {queued queued' : TxDB}
    (hq : SameView K T ctx.env queued queued') (nTxPos : UInt32) :
    InStep (Signed K T tx 0 tx.vin) (SameView K T ctx.env)
      (connectInputs K ctx.env.clock.fTestNet tx inputs queued
        ⟨ctx.pindex.nFile, ctx.pindex.nBlockPos, nTxPos⟩ ctx.pindex (ctx.pprev :: ctx.ancestors)
        blockScriptFlags)
      (connectInputsCommitted ctx.diskless tx.hashed inputs' queued') := by
  rw [connectInputs, if_neg (by simp [hcb]), connectInputsCommitted]
  simp only [CTransaction.hashed_nTime, CTransaction.getColor_hashed, checkValuesOut_hashed,
    checkFees_hashed]
  have hout : ∀ txin ∈ tx.vin, ∃ txout, outputIn K T txin.prevout = some txout := by
    intro txin htx
    obtain ⟨txout, -, ho⟩ := hin.outputIn_eq hT (hr txin htx)
    exact ⟨txout, ho⟩
  refine .then (.of_eq (hin.checkPrevouts_eq tx.sameVin_hashed)) ?_
  rintro v _ rfl
  refine .then (.of_eq rfl) fun _ _ _ => ?_
  have hpos : (⟨ctx.pindex.nFile, ctx.pindex.nBlockPos, nTxPos⟩ : CDiskTxPos).isNull =
      (⟨ctx.pindex.nFile, ctx.pindex.nBlockPos, 0⟩ : CDiskTxPos).isNull := rfl
  refine .last (spendInputs_inStep hT hpos tx.sameVin_hashed hin hout hq rfl) fun q q' hqq => ?_
  exact .then (.of_eq rfl) fun _ _ _ => .then (.of_eq rfl) fun _ _ _ => .ok hqq

/-- The states of the two loops: the same totals, and queued changes that agree. -/
structure SameState (K : Crypto) (T : Set CTransaction) (env : NodeEnv) (s s' : ConnectState) :
    Prop where
  queued : SameView K T env s.mapQueuedChanges s'.mapQueuedChanges
  vFees : s.vFees = s'.vFees
  vValueIn : s.vValueIn = s'.vValueIn
  vValueOut : s.vValueOut = s'.vValueOut
  nMintValue : s.nMintValue = s'.nMintValue
  nMintColor : s.nMintColor = s'.nMintColor

/-- The states, with the two counts only the program keeps. -/
structure StateAt (K : Crypto) (T : Set CTransaction) (env : NodeEnv) (nSigOps : Nat)
    (nTxPos : UInt32) (s s' : ConnectState) : Prop extends SameState K T env s s' where
  nSigOps : s.nSigOps = nSigOps
  nTxPos : s.nTxPos = nTxPos

variable {s s' : ConnectState} {n : Nat} {t : UInt32}

/-- The branch for a transaction that spends. -/
theorem connectSpender_inStep (hT : CollisionFree K T)
    (hdb : SameView K T ctx.env ctx.txdb ctx.txdb) (hcb : tx.isCoinBase = false)
    (hs : StateAt K T ctx.env n t s s') (nTxPos : UInt32) :
    InStep (n + (tx.vin.map (p2shOps K T)).sum ≤ maxBlockSigops ∧ Signed K T tx 0 tx.vin)
      (StateAt K T ctx.env (n + (tx.vin.map (p2shOps K T)).sum) t)
      (connectSpender K ctx s tx ⟨ctx.pindex.nFile, ctx.pindex.nBlockPos, nTxPos⟩)
      (connectSpenderCommitted (prevIn K T) ctx.diskless s' tx.hashed) := by
  rw [connectSpender, connectSpenderCommitted]
  refine .then (fetchInputs_inStep hT (hs.queued.over hdb) hcb) ?_
  rintro inputs inputs' ⟨hin, hr⟩
  have hops : tx.getP2SHSigOpCount inputs = .ok (tx.vin.map (p2shOps K T)).sum := by
    rw [CTransaction.getP2SHSigOpCount, if_neg (by simp [hcb]), hin.p2shSigOps_eq hT hr,
      Nat.zero_add]
  refine .skip hops ((InStep.guard ?_).congr (and_congr_left' (by rw [hs.nSigOps]; exact not_lt)))
  have hvalues : tx.fillValuesIn inputs = addInputs inputs' tx.hashed.vin .empty := by
    rw [CTransaction.fillValuesIn, if_neg (by simp [hcb]), hin.addInputs_eq tx.sameVin_hashed]
  simp only [hvalues, checkCoinStake_hashed, CTransaction.fillValuesOut_hashed, ← hs.vValueIn,
    ← hs.vFees]
  refine .then (.of_eq rfl) ?_
  rintro mapValuesIn _ rfl
  refine .then (.of_eq rfl) ?_
  rintro vValueIn _ rfl
  refine .then (.of_eq rfl) fun _ _ _ => ?_
  refine .then (.of_eq rfl) ?_
  rintro vFees _ rfl
  refine .last (connectInputs_inStep hT hcb hin hr hs.queued nTxPos) fun q q' hq => ?_
  exact .ok ⟨⟨hq, rfl, rfl, hs.vValueOut, hs.nMintValue, hs.nMintColor⟩, by rw [hs.nSigOps],
    hs.nTxPos⟩

/-- The branch for the coinbase reads nothing but its outputs. -/
theorem connectCoinBase_inStep (tx : CTransaction) (hs : StateAt K T ctx.env n t s s') :
    InStep True (StateAt K T ctx.env n t) (connectCoinBase ctx s tx)
      (connectCoinBase ctx.diskless s' tx.hashed) := by
  unfold connectCoinBase
  rw [CTransaction.hashed_vout]
  cases tx.vout with
  | nil => exact .error _ _
  | cons out0 rest =>
    exact .then (.refuse Iff.rfl) fun _ _ _ =>
      .ok ⟨⟨hs.queued, hs.vFees, hs.vValueIn, hs.vValueOut, rfl, rfl⟩, hs.nSigOps, hs.nTxPos⟩

/-- Can each transaction of the block be read from where its entry says it is? -/
def StoredFrom (K : Crypto) (env : NodeEnv) (pindex : CBlockIndex) :
    UInt32 → List CTransaction → Prop
  | _, [] => True
  | t, tx :: vtx =>
    readPrev env (tx.getHash K) (.new ⟨pindex.nFile, pindex.nBlockPos, t⟩ tx.vout.length) =
      some tx ∧ StoredFrom K env pindex (t + UInt32.ofNat tx.serialize.length) vtx

theorem connectTx_inStep (hT : CollisionFree K T) (hdb : SameView K T ctx.env ctx.txdb ctx.txdb)
    (hjust : ctx.fJustCheck = false) (hmem : tx ∈ T)
    (hread : readPrev ctx.env (tx.getHash K)
      (.new ⟨ctx.pindex.nFile, ctx.pindex.nBlockPos, t⟩ tx.vout.length) = some tx)
    (hs : StateAt K T ctx.env n t s s') :
    InStep (n + sigOps K T tx ≤ maxBlockSigops ∧ (tx.isCoinBase = false → Signed K T tx 0 tx.vin))
      (StateAt K T ctx.env (n + sigOps K T tx) (t + UInt32.ofNat tx.serialize.length))
      (connectTx K ctx s tx) (connectTxCommitted K (prevIn K T) ctx.diskless s' tx.hashed) := by
  rw [connectTx, connectTxCommitted]
  simp only [CTransaction.hashed_vout, CTransaction.fillValuesOut_hashed, ← hs.vValueOut,
    CTransaction.isCoinBase_hashed]
  refine InStep.congr (G := ¬ (s.nSigOps + tx.getLegacySigOpCount > maxBlockSigops) ∧
    (tx.isCoinBase = false → n + sigOps K T tx ≤ maxBlockSigops ∧ Signed K T tx 0 tx.vin)) ?_ ?_
  · refine .then (.refuse Iff.rfl) fun _ _ _ => .guard ?_
    refine .then (.refuse Iff.rfl) fun _ _ _ => ?_
    refine .then (.of_eq rfl) ?_
    rintro vValueOut _ rfl
    have hadv : StateAt K T ctx.env (n + tx.getLegacySigOpCount)
        (t + UInt32.ofNat tx.serialize.length) (s.advance ctx.fJustCheck tx vValueOut)
        { s' with vValueOut := vValueOut } :=
      ⟨⟨hs.queued, hs.vFees, hs.vValueIn, rfl, hs.nMintValue, hs.nMintColor⟩,
        by simp [ConnectState.advance, hs.nSigOps], by simp [ConnectState.advance, hjust, hs.nTxPos]⟩
    have hbranch : InStep (tx.isCoinBase = false → n + sigOps K T tx ≤ maxBlockSigops ∧
          Signed K T tx 0 tx.vin)
        (StateAt K T ctx.env (n + sigOps K T tx) (t + UInt32.ofNat tx.serialize.length))
        (connectBranch K ctx (s.advance ctx.fJustCheck tx vValueOut) tx
          ⟨ctx.pindex.nFile, ctx.pindex.nBlockPos, s.nTxPos⟩)
        (if tx.isCoinBase = true then
          connectCoinBase ctx.diskless { s' with vValueOut := vValueOut } tx.hashed
        else connectSpenderCommitted (prevIn K T) ctx.diskless { s' with vValueOut := vValueOut }
          tx.hashed) := by
      unfold connectBranch sigOps
      cases hcb : tx.isCoinBase with
      | true =>
        have h := connectCoinBase_inStep tx hadv
        simp only [if_true, Nat.add_zero]
        exact h.congr (by simp)
      | false =>
        have h := connectSpender_inStep hT hdb hcb hadv s.nTxPos
        simp only [Bool.false_eq_true, if_false, forall_const, ← Nat.add_assoc]
        exact h
    refine .last hbranch fun a b hab => .ok ?_
    refine ⟨⟨relUpdate (R := ReadEntry K T ctx.env) hab.queued ⟨⟨rfl, rfl, ?_⟩, tx, hmem, ?_, rfl⟩,
      hab.vFees, hab.vValueIn, hab.vValueOut, hab.nMintValue, hab.nMintColor⟩, hab.nSigOps,
      hab.nTxPos⟩
    · rfl
    · rw [hs.nTxPos]
      exact hread
  · rw [hs.nSigOps, not_lt]
    cases hcb : tx.isCoinBase with
    | true => simp [sigOps, hcb]
    | false =>
      simp only [forall_const]
      refine ⟨fun h => h.2, fun h => ⟨?_, h⟩⟩
      have := h.1
      unfold sigOps at this
      omega

theorem connectTxs_inStep (ctx : ConnectCtx) (hT : CollisionFree K T)
    (hdb : SameView K T ctx.env ctx.txdb ctx.txdb)
    (hjust : ctx.fJustCheck = false) :
    ∀ {vtx : List CTransaction} {n : Nat} {t : UInt32} {s s' : ConnectState},
      (∀ tx ∈ vtx, tx ∈ T) → StoredFrom K ctx.env ctx.pindex t vtx →
      StateAt K T ctx.env n t s s' →
      InStep (ScriptsFrom K T n vtx) (SameState K T ctx.env) (connectTxs K ctx vtx s)
        (connectTxsCommitted K (prevIn K T) ctx.diskless (vtx.map (·.hashed)) s')
  | [], _, _, _, _, _, _, hs => .ok hs.toSameState
  | tx :: vtx, n, t, s, s', hmem, hst, hs => by
    rw [connectTxs, List.map_cons, connectTxsCommitted, ScriptsFrom]
    refine .bind (connectTx_inStep hT hdb hjust (hmem tx List.mem_cons_self) hst.1 hs) ?_
    intro a b hab
    exact connectTxs_inStep ctx hT hdb hjust (fun tx' h => hmem tx' (List.mem_cons_of_mem _ h)) hst.2 hab

end

/-! ## 5. The whole block -/

theorem burnTxs_hashed :
    ∀ (vtx : List CTransaction) (k : Counters), burnTxs (vtx.map (·.hashed)) k = burnTxs vtx k
  | [], _ => rfl
  | tx :: vtx, k => by
    rw [List.map_cons, burnTxs, burnTxs, CTransaction.hashed_nTime, CTransaction.hashed_vout]
    congr 1
    funext k'
    exact burnTxs_hashed vtx k'

theorem connectBurns_hashed (pprev : CBlockIndex) (vtx : List CTransaction) (k : Counters) :
    connectBurns pprev (vtx.map (·.hashed)) k = connectBurns pprev vtx k := by
  unfold connectBurns
  rw [burnTxs_hashed]

section

variable {ctx : ConnectCtx} {s s' : ConnectState}

theorem SameState.totalFees_eq (hs : SameState K T ctx.env s s') :
    totalFees ctx.diskless s' = totalFees ctx s := by
  funext c
  rw [totalFees, totalFees, hs.vFees]
  rfl

theorem SameState.moneySupply_eq (hs : SameState K T ctx.env s s') :
    moneySupply ctx.diskless s' = moneySupply ctx s := by
  funext c
  rw [moneySupply, moneySupply, hs.vValueOut, hs.vValueIn]
  rfl

theorem SameState.connectReward_eq (hs : SameState K T ctx.env s s') (vtx : List CTransaction) :
    connectReward ctx.diskless (vtx.map (·.hashed)) s' = connectReward ctx vtx s := by
  have hstake : ctx.diskless.fProofOfStake = ctx.fProofOfStake := rfl
  cases vtx with
  | nil => rfl
  | cons coinbase rest =>
    simp only [List.map_cons, connectReward, hstake, hs.totalFees_eq]
    cases rest with
    | nil => 
      simp only [List.map_nil, connectWork, CTransaction.hashed_vout, CTransaction.getColor_hashed,
        CTransaction.fillValuesOut_hashed]
      rfl
    | cons coinstake rest =>
      simp only [List.map_cons, connectWork, connectStake, CTransaction.hashed_vout,
        CTransaction.getColor_hashed, CTransaction.fillValuesOut_hashed, hs.nMintValue,
        hs.nMintColor]
      rfl

end

variable {block : CBlock}

theorem checkBlock_drop_sig {clock : Clock} {st st' : TxStore}
    (h : checkBlock K clock st block true true true = .ok ()) :
    checkBlock K clock st' block true true false = .ok () := by
  simp only [checkBlock, bind_eq_ok, checkStake_eq_ok_iff] at h ⊢
  obtain ⟨_, h1, _, h2, _, h3, _, h4, _, h5, _, h6, _, ⟨h7, -⟩, hrest⟩ := h
  exact ⟨(), h1, (), h2, (), h3, (), h4, (), h5, (), h6, (), h7, hrest⟩

/-- **A checked block connects exactly when its committed part does and its scripts pass.** -/
theorem connectBlock_accepts_iff (hT : CollisionFree K T) {env : NodeEnv} {txdb : TxDB}
    {pos : DiskBlockPos} {pprev : CBlockIndex} {ancestors : List CBlockIndex} {st : TxStore}
    (hcheck : checkBlock K env.clock st block true true true = .ok ())
    (hdb : SameView K T env txdb txdb) (hmem : ∀ tx ∈ block.vtx, tx ∈ T)
    (hst : StoredFrom K env (newBlockIndex pos block pprev)
      (ConnectState.init env.clock.nAdjustedTime (newBlockIndex pos block pprev) false
        block.vtx).nTxPos block.vtx) :
    (connectBlock K env txdb (newBlockIndex pos block pprev) pprev ancestors block
        false).accepts = true ↔
      (connectCommitted K (prevIn K T) (ctxOf env txdb pos block pprev ancestors).diskless
        (block.vtx.map (·.hashed))).accepts = true ∧ ScriptsPass K T block.vtx := by
  rw [← scriptsFrom_zero]
  refine InStep.accepts_iff (R := fun _ _ => True) ?_
  simp only [connectBlock, connectBody, bind_assoc, pure_bind]
  refine .skip (checkBlock_drop_sig hcheck) ?_
  have hinit : StateAt K T env 0
      (ConnectState.init env.clock.nAdjustedTime (newBlockIndex pos block pprev) false
        block.vtx).nTxPos
      (ConnectState.init env.clock.nAdjustedTime (newBlockIndex pos block pprev) false block.vtx)
      (ConnectState.init env.clock.nAdjustedTime (newBlockIndex pos block pprev) false
        (block.vtx.map (·.hashed))) :=
    ⟨⟨fun _ => .none, rfl, rfl, rfl, rfl, rfl⟩, rfl, rfl⟩
  refine .last (connectTxs_inStep (ctxOf env txdb pos block pprev ancestors) hT hdb rfl hmem
    hst hinit) fun s s' hs => ?_
  refine .then (.of_eq (hs.connectReward_eq block.vtx).symm) ?_
  rintro vTotalMint _ rfl
  refine .then (.of_eq ?_) fun _ _ _ => ?_
  · rw [hs.moneySupply_eq, connectBurns_hashed]
    rfl
  · refine .then (.refuse ?_) fun _ _ _ => .ok trivial
    exact and_iff_right trivial

end Breakout
