/-
# Fetching, connecting and disconnecting inputs

`FetchInputs` reads the previous transactions of a transaction, through the changes its block
has queued; `ConnectInputs` checks them and marks the outputs spent; `DisconnectInputs` undoes
it.  Both connecting routines are translated as `ConnectBlock` calls them (`fBlock` true,
`fMiner` false).  No checkpoint lies above the genesis block, so the signature of every input is
verified.

`connectInputs_spec` is all the rest of the development knows about them.  It speaks of the view
a block's changes give of the database: the inputs are distinct unspent outputs of the view, the
new view is the old one without them, and each was read from a transaction that has the id the
input names.
-/
import Breakout.BlockIndex

namespace Breakout

open Lib

variable (K : Crypto)

/-! ## 1. Reading the previous transactions -/

/-- What a node reads besides the transaction index: the clock, the block files and the memory
pool.  `fExplore` is the verdict of the explorer's own index, where one is kept. -/
structure NodeEnv where
  clock : Clock
  disk : Disk
  mempool : UInt256 → Option CTransaction
  fExplore : Bool

/-- The transactions the node can read. -/
def NodeEnv.Holds (env : NodeEnv) (tx : CTransaction) : Prop :=
  (∃ pos, env.disk pos = some tx) ∨ ∃ hash, env.mempool hash = some tx

abbrev MapPrevTx := UInt256 → Option (CTxIndex × CTransaction)

/-- The previous transaction at an index entry; the position `(1,1,1)` means the memory pool. -/
def readPrev (env : NodeEnv) (hash : UInt256) (txindex : CTxIndex) : Option CTransaction :=
  if txindex.pos = ⟨1, 1, 1⟩ then env.mempool hash else env.disk txindex.pos

/-- The first loop of `FetchInputs`, over the view of the database the queued changes give. -/
def fetchLoop (env : NodeEnv) (view : TxDB) : List CTxIn → MapPrevTx → Run MapPrevTx
  | [], inputs => .ok inputs
  | txin :: vin, inputs =>
    if (inputs txin.prevout.hash).isSome then fetchLoop env view vin inputs
    else
      match view txin.prevout.hash with
      | none => .error (.reject 0 "FetchInputs() : prev tx index entry not found")
      | some txindex =>
        match readPrev env txin.prevout.hash txindex with
        | none => .error (.reject 0 "FetchInputs() : ReadFromDisk prev tx failed")
        | some txPrev =>
          fetchLoop env view vin
            (Function.update inputs txin.prevout.hash (some (txindex, txPrev)))

/-- Does the input name an output its previous transaction has? -/
def prevoutInRange (inputs : MapPrevTx) (txin : CTxIn) : Bool :=
  match inputs txin.prevout.hash with
  | none => false
  | some (txindex, txPrev) =>
    decide (txin.prevout.n.toNat < txPrev.vout.length) &&
      decide (txin.prevout.n.toNat < txindex.vSpent.length)

def fetchInputs (env : NodeEnv) (view : TxDB) (tx : CTransaction) : Run MapPrevTx :=
  if tx.isCoinBase then .ok fun _ => none
  else do
    let inputs ← fetchLoop env view tx.vin fun _ => none
    refuse (∃ txin ∈ tx.vin, prevoutInRange inputs txin = false) 100
      "FetchInputs() : prevout.n out of range"
    return inputs

def getOutputFor (inputs : MapPrevTx) (txin : CTxIn) : Run CTxOut :=
  match inputs txin.prevout.hash with
  | none => .error (.throw "CTransaction::GetOutputFor() : prevout.hash not found")
  | some (_, txPrev) =>
    match txPrev.vout[txin.prevout.n.toNat]? with
    | none => .error (.throw "CTransaction::GetOutputFor() : prevout.n out of range")
    | some txout => .ok txout

/-- The loop of `FillValuesIn`. -/
def addInputs (inputs : MapPrevTx) : List CTxIn → ColorsMap → Run ColorsMap
  | [], m => .ok m
  | txin :: vin, m => do
    let txout ← getOutputFor inputs txin
    addInputs inputs vin (m.add txout.nColor txout.nValue)

def CTransaction.fillValuesIn (tx : CTransaction) (inputs : MapPrevTx) : Run ColorsMap :=
  if tx.isCoinBase then .ok .empty else addInputs inputs tx.vin .empty

/-- The loop of `GetP2SHSigOpCount`. -/
def p2shSigOps (inputs : MapPrevTx) : List CTxIn → Nat → Run Nat
  | [], nSigOps => .ok nSigOps
  | txin :: vin, nSigOps => do
    let prevout ← getOutputFor inputs txin
    p2shSigOps inputs vin
      (if isPayToScriptHash prevout.scriptPubKey then
        nSigOps + getSigOpCountSpending prevout.scriptPubKey txin.scriptSig
       else nSigOps)

def CTransaction.getP2SHSigOpCount (tx : CTransaction) (inputs : MapPrevTx) : Run Nat :=
  if tx.isCoinBase then .ok 0 else p2shSigOps inputs tx.vin 0

/-! ## 2. `ConnectInputs` -/

/-- `IsConfirmedInNPrevBlocks`: does the transaction lie in one of the blocks, from `pindexFrom`
back, that are less than `nMaxDepth` deep?  `ConnectInputs` asks the same of a coinbase or
coinstake with a loop of its own. -/
def isConfirmedInNPrevBlocks (pos : CDiskTxPos) (pindexFrom : CBlockIndex)
    (ancestors : List CBlockIndex) (nMaxDepth : Int) : Bool :=
  ((pindexFrom :: ancestors).takeWhile fun pindex =>
    decide ((pindexFrom.nHeight : Int) - pindex.nHeight < nMaxDepth)).any fun pindex =>
      pindex.nBlockPos == pos.nBlockPos && pindex.nFile == pos.nFile

/-- The inexpensive checks of one input, whose previous output is `prevout`. -/
def checkPrevout (fTestNet : Bool) (pindexBlock : CBlockIndex) (ancestors : List CBlockIndex)
    (nTime : UInt32) (txin : CTxIn) (txindex : CTxIndex) (txPrev : CTransaction)
    (prevout : CTxOut) : Run Unit := do
  refuse (txindex.vSpent.length ≤ txin.prevout.n.toNat) 100
    "ConnectInputs() : prevout.n out of range"
  refuse (txPrev.doesMature = true ∧ isConfirmedInNPrevBlocks txindex.pos pindexBlock ancestors
    (getCoinbaseMaturity fTestNet) = true) 0 "ConnectInputs() : tried to spend at depth"
  refuse (txPrev.nTime.toNat > nTime.toNat) 100
    "ConnectInputs() : transaction timestamp earlier than input transaction"
  refuse (prevout.isEmpty = true) 1 "ConnectInputs() : special marker is not spendable"

/-- The first loop of `ConnectInputs`; `vValueIn` holds the totals so far. -/
def checkPrevouts (fTestNet : Bool) (pindexBlock : CBlockIndex) (ancestors : List CBlockIndex)
    (nTime : UInt32) (inputs : MapPrevTx) : List CTxIn → (Color → Int64) → Run (Color → Int64)
  | [], vValueIn => .ok vValueIn
  | txin :: vin, vValueIn =>
    match inputs txin.prevout.hash with
    | none => .error (.throw "assert(inputs.count(prevout.hash) > 0)")
    | some (txindex, txPrev) =>
      match txPrev.vout[txin.prevout.n.toNat]? with
      | none => .error (.reject 100 "ConnectInputs() : prevout.n out of range")
      | some prevout => do
        checkPrevout fTestNet pindexBlock ancestors nTime txin txindex txPrev prevout
        let c ← tableIndex prevout.nColor
        refuse (moneyRange prevout.nValue c = false ∨
          moneyRange (vValueIn c + prevout.nValue) c = false) 100
          "ConnectInputs() : txin values out of range"
        checkPrevouts fTestNet pindexBlock ancestors nTime inputs vin
          (Function.update vValueIn c (vValueIn c + prevout.nValue))

/-- The second loop of `ConnectInputs`, from input `i` on: spend the outputs one by one, in the
fetched entries and in the queued changes. -/
def spendInputs (tx : CTransaction) (flags : UInt32) (posThisTx : CDiskTxPos) :
    Nat → List CTxIn → MapPrevTx → TxDB → Run TxDB
  | _, [], _, queued => .ok queued
  | i, txin :: vin, inputs, queued =>
    match inputs txin.prevout.hash with
    | none => .error (.throw "assert(inputs.count(prevout.hash) > 0)")
    | some (txindex, txPrev) =>
      match txindex.vSpent[txin.prevout.n.toNat]? with
      | none => .error (.oob txin.prevout.n.toNat)
      | some pos => do
        refuse (pos.isNull = false) 0 "ConnectInputs() : prev tx already used"
        refuse (verifySignature K txPrev tx i flags 0 = false) 100
          "ConnectInputs() : VerifySignature failed"
        let txindex' := txindex.setSpent txin.prevout.n posThisTx
        spendInputs tx flags posThisTx (i + 1) vin
          (Function.update inputs txin.prevout.hash (some (txindex', txPrev)))
          (queued.update txin.prevout.hash txindex')

/-- No colour's outputs exceed its inputs. -/
def checkValuesOut (tx : CTransaction) (vValueIn : Color → Int64) : List Color → Run Unit
  | [] => .ok ()
  | c :: colors => do
    let nValueOut ← tx.getValueOut c.toInt32
    refuse (vValueIn c < nValueOut) 100 "ConnectInputs() : value in < value out"
    checkValuesOut tx vValueIn colors

/-- The fee, and the change that went to the fee's side, of a transaction of colour `c`. -/
def txFees (tx : CTransaction) (vValueIn : Color → Int64) (c : Color) : Run (Int64 × Int64) :=
  if c = feeColor c then do
    let nValueOut ← tx.getValueOut c.toInt32
    return (vValueIn c - nValueOut, 0)
  else
    .ok (vValueIn (feeColor c) - (tx.fillValuesOut false).get (feeColor c).toInt32,
      vValueIn c - (tx.fillValuesOut false).get c.toInt32)

/-- "Tally transaction fees -- coinstake has no tx fees" -/
def checkFees (tx : CTransaction) (vValueIn : Color → Int64) : Run Unit :=
  if tx.isCoinStake then .ok ()
  else do
    let c ← tableIndex tx.getColor
    let (nTxFee, nTxChangeFee) ← txFees tx vValueIn c
    refuse (nTxFee < 0) 100 "ConnectInputs() : nTxFee < 0"
    refuse (nTxChangeFee < 0) 100 "ConnectInputs() : nTxChangeFee < 0"
    let nMinFee ← tx.getMinFee 1 .gmfBlock 0
    refuse (nTxFee < nMinFee) 100 "ConnectInputs() : not paying required fee"
    refuse (moneyRange nTxFee (feeColor c) = false) 100 "ConnectInputs() : nFees out of range"
    refuse (moneyRange nTxChangeFee c = false) 100 "ConnectInputs() : nChangeFees out of range"

/-- `CTransaction::ConnectInputs`: the queued changes it leaves. -/
def connectInputs (fTestNet : Bool) (tx : CTransaction) (inputs : MapPrevTx) (queued : TxDB)
    (posThisTx : CDiskTxPos) (pindexBlock : CBlockIndex) (ancestors : List CBlockIndex)
    (flags : UInt32) : Run TxDB :=
  if tx.isCoinBase then .ok queued
  else do
    let vValueIn ← checkPrevouts fTestNet pindexBlock ancestors tx.nTime inputs tx.vin fun _ => 0
    let _ ← tableIndex tx.getColor
    let queued ← spendInputs K tx flags posThisTx 0 tx.vin inputs queued
    checkValuesOut tx vValueIn realColors
    checkFees tx vValueIn
    return queued

/-! ## 3. `DisconnectInputs` -/

/-- The loop of `DisconnectInputs`. -/
def giveBackInputs : List CTxIn → TxDB → Run TxDB
  | [], txdb => .ok txdb
  | txin :: vin, txdb =>
    match txdb txin.prevout.hash with
    | none => .error (.reject 0 "DisconnectInputs() : ReadTxIndex failed")
    | some txindex => do
      refuse (txindex.vSpent.length ≤ txin.prevout.n.toNat) 0
        "DisconnectInputs() : prevout.n out of range"
      giveBackInputs vin
        (txdb.update txin.prevout.hash (txindex.setSpent txin.prevout.n .null))

def disconnectInputs (txdb : TxDB) (tx : CTransaction) : Run TxDB :=
  if tx.isCoinBase then .ok (txdb.erase (tx.getHash K))
  else do
    let txdb ← giveBackInputs tx.vin txdb
    return txdb.erase (tx.getHash K)

/-! ## 4. What connecting the inputs establishes -/

/-- The fetched entries are those of the view, and the transactions are ones the node holds. -/
def Fetched (env : NodeEnv) (view : TxDB) (inputs : MapPrevTx) : Prop :=
  ∀ hash idx tx, inputs hash = some (idx, tx) → view hash = some idx ∧ env.Holds tx

/-- `prevs` are the outputs the inputs spend, in order. -/
def PrevOutputs (inputs : MapPrevTx) (vin : List CTxIn) (prevs : List CTxOut) : Prop :=
  List.Forall₂ (fun txin txout => getOutputFor inputs txin = .ok txout) vin prevs

/-- What is known of an input whose block was connected. -/
structure SpentInput (env : NodeEnv) (view : TxDB) (pindexBlock : CBlockIndex)
    (ancestors : List CBlockIndex) (txin : CTxIn) (txPrev : CTransaction) (txindex : CTxIndex)
    (txout : CTxOut) : Prop where
  holds : env.Holds txPrev
  getHash : txPrev.getHash K = txin.prevout.hash
  index : view txin.prevout.hash = some txindex
  output : txPrev.vout[txin.prevout.n.toNat]? = some txout
  spendable : isOpReturn txout.scriptPubKey = false
  unspent : Unspent view txin.prevout
  mature : txPrev.doesMature = true → isConfirmedInNPrevBlocks txindex.pos pindexBlock ancestors
    (getCoinbaseMaturity env.clock.fTestNet) = false

variable {K}

variable {env : NodeEnv} {tx : CTransaction} {view txdb queued' txdb' : TxDB}
  {P : UInt256 → CTxIndex → CTransaction → Prop} {inputs : MapPrevTx} {pindexBlock : CBlockIndex}
  {ancestors : List CBlockIndex} {flags : UInt32} {posThisTx : CDiskTxPos}

theorem readPrev_holds {hash : UInt256} {idx : CTxIndex} (h : readPrev env hash idx = some tx) :
    env.Holds tx := by
  unfold readPrev at h
  split at h
  · exact Or.inr ⟨hash, h⟩
  · exact Or.inl ⟨idx.pos, h⟩

/-- What holds of everything that can be read holds of everything fetched. -/
theorem fetchLoop_forall {inputs' : MapPrevTx}
    (hread : ∀ hash idx tx, view hash = some idx → readPrev env hash idx = some tx →
      P hash idx tx) :
    ∀ {vin : List CTxIn} {inputs : MapPrevTx},
      (∀ hash idx tx, inputs hash = some (idx, tx) → P hash idx tx) →
      fetchLoop env view vin inputs = .ok inputs' →
      ∀ hash idx tx, inputs' hash = some (idx, tx) → P hash idx tx
  | [], inputs, hf, h => by
    cases h
    exact hf
  | txin :: vin, inputs, hf, h => by
    unfold fetchLoop at h
    split at h
    · exact fetchLoop_forall hread hf h
    · split at h
      · cases h
      · next txindex hview =>
        split at h
        · cases h
        · next txPrev htx =>
          refine fetchLoop_forall hread ?_ h
          intro hash idx tx hin
          by_cases hh : hash = txin.prevout.hash
          · subst hh
            rw [Function.update_self, Option.some_inj, Prod.mk.injEq] at hin
            rw [← hin.1, ← hin.2]
            exact hread _ _ _ hview htx
          · rw [Function.update_of_ne hh] at hin
            exact hf hash idx tx hin

theorem fetchInputs_forall
    (hread : ∀ hash idx tx, view hash = some idx → readPrev env hash idx = some tx → P hash idx tx)
    (h : fetchInputs env view tx = .ok inputs) :
    ∀ hash idx tx, inputs hash = some (idx, tx) → P hash idx tx := by
  have hempty : ∀ hash idx tx, (none : Option (CTxIndex × CTransaction)) = some (idx, tx) →
      P hash idx tx := by
    intro hash idx tx hin
    cases hin
  unfold fetchInputs at h
  split at h
  · cases h
    exact hempty
  · simp only [bind_eq_ok, pure_eq_ok] at h
    obtain ⟨inputs', hloop, _, _, rfl⟩ := h
    exact fetchLoop_forall hread hempty hloop

theorem fetchInputs_spec (h : fetchInputs env view tx = .ok inputs) : Fetched env view inputs :=
  fetchInputs_forall (fun _ _ _ hview hread => ⟨hview, readPrev_holds hread⟩) h

theorem getOutputFor_eq_ok {txin : CTxIn} {txout : CTxOut} :
    getOutputFor inputs txin = .ok txout ↔
      ∃ idx txPrev, inputs txin.prevout.hash = some (idx, txPrev) ∧
        txPrev.vout[txin.prevout.n.toNat]? = some txout := by
  unfold getOutputFor
  cases hin : inputs txin.prevout.hash with
  | none => simp
  | some p =>
    obtain ⟨idx, txPrev⟩ := p
    cases hout : txPrev.vout[txin.prevout.n.toNat]? with
    | none => simp [hout]
    | some o => simp [hout]

/-- The inputs' totals by colour, as `FillValuesIn` adds them up. -/
theorem get_addInputs {m' : ColorsMap} (n : Int32) :
    ∀ {vin : List CTxIn} {prevs : List CTxOut} {m : ColorsMap}, PrevOutputs inputs vin prevs →
      addInputs inputs vin m = .ok m' → m'.get n = m.get n + Int64.ofInt (colorSum prevs n) := by
  intro vin prevs m hprevs h
  induction hprevs generalizing m with
  | nil =>
    cases h
    simp
  | @cons txin o vin prevs ho hrest ih =>
    simp only [addInputs, bind_eq_ok, ho, Except.ok.injEq, exists_eq_left'] at h
    rw [ih h, ColorsMap.get_add, colorSum_cons, Int64.ofInt_add,
      Int64.add_assoc]
    by_cases hn : n = o.nColor
    · rw [if_pos hn, if_pos hn.symm, Int64.ofInt_toInt]
    · rw [if_neg hn, if_neg (Ne.symm hn)]
      rfl

/-- The first loop finds every previous output, and its totals do not wrap. -/
theorem checkPrevouts_spec {fTestNet : Bool} {nTime : UInt32} {v' : Color → Int64} :
    ∀ {vin : List CTxIn} {v : Color → Int64}, (∀ c, moneyRange (v c) c = true) →
      checkPrevouts fTestNet pindexBlock ancestors nTime inputs vin v = .ok v' →
      ∃ prevs, PrevOutputs inputs vin prevs ∧
        (∀ c : Color, (v' c).toInt = (v c).toInt + colorSum prevs c.toInt32) ∧
        ∀ txin ∈ vin, ∀ idx txPrev, inputs txin.prevout.hash = some (idx, txPrev) →
          txPrev.doesMature = true → isConfirmedInNPrevBlocks idx.pos pindexBlock ancestors
            (getCoinbaseMaturity fTestNet) = false
  | [], v, _, h => by
    cases h
    exact ⟨[], .nil, by simp, by simp⟩
  | txin :: vin, v, hv, h => by
    unfold checkPrevouts at h
    split at h
    · cases h
    · next idx txPrev hin =>
      split at h
      · cases h
      · next prevout hout =>
        simp only [checkPrevout, bind_eq_ok, refuse_eq_ok, tableIndex_eq_ok, not_or, not_and,
          Bool.not_eq_false, Bool.not_eq_true] at h
        obtain ⟨_, ⟨-, -, -, hmature, -⟩, c, hc, -, ⟨hval, hsum⟩, h⟩ := h
        have hv' : ∀ d, moneyRange (Function.update v c (v c + prevout.nValue) d) d = true := by
          intro d
          by_cases hd : d = c
          · subst hd
            rwa [Function.update_self]
          · rw [Function.update_of_ne hd]
            exact hv d
        obtain ⟨prevs, hprevs, htotal, hm⟩ := checkPrevouts_spec hv' h
        refine ⟨prevout :: prevs, .cons (getOutputFor_eq_ok.mpr ⟨idx, txPrev, hin, hout⟩) hprevs,
          ?_, ?_⟩
        · intro d
          rw [htotal d, colorSum_cons, hc]
          by_cases hd : d = c
          · subst hd
            rw [Function.update_self, toInt_add_of_moneyRange (hv d) hval, if_pos rfl]
            omega
          · rw [Function.update_of_ne hd, if_neg (by simpa using Ne.symm hd)]
            omega
        · intro txin' hmem idx' txPrev' hin' hdoes
          rcases List.mem_cons.mp hmem with rfl | hmem
          · rw [hin, Option.some_inj, Prod.mk.injEq] at hin'
            rw [← hin'.1]
            exact hmature (by rw [hin'.2]; exact hdoes)
          · exact hm txin' hmem idx' txPrev' hin' hdoes

/-- What the second loop finds of one input. -/
def SignedSpend (K : Crypto) (inputs : MapPrevTx) (txin : CTxIn) : Prop :=
  ∃ idx txPrev txout, inputs txin.prevout.hash = some (idx, txPrev) ∧
    txPrev.getHash K = txin.prevout.hash ∧
    txPrev.vout[txin.prevout.n.toNat]? = some txout ∧ isOpReturn txout.scriptPubKey = false

/-- The fetched entries are those of the view. -/
def InputsAgree (inputs : MapPrevTx) (view : TxDB) : Prop :=
  ∀ hash idx txPrev, inputs hash = some (idx, txPrev) → view hash = some idx

theorem Fetched.agree (h : Fetched env view inputs) : InputsAgree inputs view :=
  fun hash idx txPrev hin => (h hash idx txPrev hin).1

/-- A change made in both places. -/
theorem InputsAgree.update {inputs : MapPrevTx} {queued txdb : TxDB}
    (h : InputsAgree inputs (queued.over txdb)) (hash : UInt256) (idx : CTxIndex)
    (txPrev : CTransaction) :
    InputsAgree (Function.update inputs hash (some (idx, txPrev)))
      ((queued.update hash idx).over txdb) := by
  intro hash' i t hi
  rw [TxDB.over_update]
  by_cases hh : hash' = hash
  · subst hh
    rw [Function.update_self, Option.some_inj, Prod.mk.injEq] at hi
    rw [TxDB.update, Function.update_self, hi.1]
  · rw [Function.update_of_ne hh] at hi
    rw [TxDB.update, Function.update_of_ne hh]
    exact h hash' i t hi

/-- **The second loop spends distinct unspent outputs.**  The fetched entries and the view stay
in step, so an entry that serves two inputs is seen with the first spend in it. -/
theorem spendInputs_spec (hpos : posThisTx.isNull = false) :
    ∀ {vin : List CTxIn} (pre : List CTxIn) {inputs : MapPrevTx} {queued : TxDB},
      tx.vin = pre ++ vin →
      InputsAgree inputs (queued.over txdb) →
      spendInputs K tx flags posThisTx pre.length vin inputs queued = .ok queued' →
      (∀ o, Unspent (queued'.over txdb) o ↔
        Unspent (queued.over txdb) o ∧ o ∉ vin.map CTxIn.prevout) ∧
      (vin.map CTxIn.prevout).Nodup ∧ (∀ txin ∈ vin, Unspent (queued.over txdb) txin.prevout) ∧
      (∀ txin ∈ vin, SignedSpend K inputs txin) ∧
      (∀ hash idx', queued'.over txdb hash = some idx' →
        ∃ idx, queued.over txdb hash = some idx ∧ idx.pos = idx'.pos)
  | [], pre, inputs, queued, _, _, h => by
    cases h
    exact ⟨by simp, by simp, by simp, by simp, fun _ idx' h => ⟨idx', h, rfl⟩⟩
  | txin :: vin, pre, inputs, queued, hvin, hagree, h => by
    unfold spendInputs at h
    split at h
    · cases h
    · next idx txPrev hin =>
      split at h
      · cases h
      · next pos hspent =>
        simp only [bind_eq_ok, refuse_eq_ok, Bool.not_eq_false] at h
        obtain ⟨-, hnull, -, hsig, h⟩ := h
        have hview := hagree _ _ _ hin
        have hagree' := hagree.update txin.prevout.hash (idx.setSpent txin.prevout.n posThisTx)
          txPrev
        have hlen : pre.length + 1 = (pre ++ [txin]).length := by simp
        rw [hlen] at h
        obtain ⟨hset, hnd, hmem, hsigned, hposEq⟩ := spendInputs_spec hpos
          (pre ++ [txin]) (by simp [hvin]) hagree' h
        have hspend : ∀ o, Unspent ((queued.update txin.prevout.hash
            (idx.setSpent txin.prevout.n posThisTx)).over txdb) o ↔
              Unspent (queued.over txdb) o ∧ o ≠ txin.prevout := by
          intro o
          rw [TxDB.over_update]
          exact unspent_spend hview hpos
        obtain ⟨txin', txout, hin', hout, hhash, hop⟩ := verifySignature_spec hsig
        have htxin : txin' = txin := by
          rw [hvin] at hin'
          simpa using hin'.symm
        subst htxin
        refine ⟨?_, ?_, ?_, ?_, ?_⟩
        · intro o
          rw [hset, hspend]
          simp [and_assoc]
        · rw [List.map_cons, List.nodup_cons]
          refine ⟨?_, hnd⟩
          intro hdup
          obtain ⟨t, ht, hte⟩ := List.mem_map.mp hdup
          exact ((hspend _).mp (hmem t ht)).2 hte
        · intro t ht
          rcases List.mem_cons.mp ht with rfl | ht
          · exact ⟨idx, pos, hview, hspent, hnull⟩
          · exact ((hspend _).mp (hmem t ht)).1
        · intro t ht
          rcases List.mem_cons.mp ht with rfl | ht
          · exact ⟨idx, txPrev, txout, hin, hhash.symm, hout, hop⟩
          · obtain ⟨i, p, o, hi, hrest⟩ := hsigned t ht
            by_cases hh : t.prevout.hash = txin'.prevout.hash
            · rw [hh, Function.update_self, Option.some_inj, Prod.mk.injEq] at hi
              exact ⟨idx, p, o, by rw [hh, hin, hi.2], hrest⟩
            · rw [Function.update_of_ne hh] at hi
              exact ⟨i, p, o, hi, hrest⟩
        · intro hash idx' hi
          obtain ⟨i, hi, hpe⟩ := hposEq hash idx' hi
          rw [TxDB.over_update] at hi
          by_cases hh : hash = txin'.prevout.hash
          · subst hh
            rw [TxDB.update, Function.update_self, Option.some_inj] at hi
            exact ⟨idx, hview, by rw [← hpe, ← hi]; rfl⟩
          · rw [TxDB.update, Function.update_of_ne hh] at hi
            exact ⟨i, hi, hpe⟩

theorem checkValuesOut_spec {v : Color → Int64} :
    ∀ {colors : List Color}, checkValuesOut tx v colors = .ok () →
      ∀ c ∈ colors, colorSum tx.vout c.toInt32 ≤ (v c).toInt
  | [], _, c, hc => by cases hc
  | d :: colors, h, c, hc => by
    simp only [checkValuesOut, bind_eq_ok, refuse_eq_ok, Int64.not_lt,
      Int64.le_iff_toInt_le] at h
    obtain ⟨nValueOut, hout, -, hle, hrest⟩ := h
    rcases List.mem_cons.mp hc with rfl | hc
    · rw [← (getValueOut_spec hout).2]
      exact hle
    · exact checkValuesOut_spec hrest c hc

/-- **What connecting the inputs of a transaction establishes**: `prevs` are the outputs it spends,
`view` and `view'` are the database as its block sees it before and after. -/
structure ConnectedInputs (K : Crypto) (env : NodeEnv) (view view' : TxDB)
    (pindexBlock : CBlockIndex) (ancestors : List CBlockIndex) (tx : CTransaction)
    (prevs : List CTxOut) : Prop where
  spent : List.Forall₂ (fun txin txout => ∃ txPrev idx,
    SpentInput K env view pindexBlock ancestors txin txPrev idx txout) tx.vin prevs
  nodup : (tx.vin.map CTxIn.prevout).Nodup
  view_iff : ∀ o, Unspent view' o ↔ Unspent view o ∧ o ∉ tx.vin.map CTxIn.prevout
  values : ∀ c : Color, c ≠ .none → colorSum tx.vout c.toInt32 ≤ colorSum prevs c.toInt32
  pos_eq : ∀ hash idx', view' hash = some idx' →
    ∃ idx, view hash = some idx ∧ idx.pos = idx'.pos

theorem connectInputs_spec {queued : TxDB} (hcb : tx.isCoinBase = false)
    (hpos : posThisTx.isNull = false) (hf : Fetched env (queued.over txdb) inputs)
    (h : connectInputs K env.clock.fTestNet tx inputs queued posThisTx pindexBlock ancestors
      flags = .ok queued') :
    ∃ prevs, PrevOutputs inputs tx.vin prevs ∧
      ConnectedInputs K env (queued.over txdb) (queued'.over txdb) pindexBlock ancestors tx
        prevs := by
  simp only [connectInputs, hcb, Bool.false_eq_true, if_false, bind_eq_ok, pure_eq_ok] at h
  obtain ⟨v, hv, -, -, q, hspend, _, hvalues, -, -, rfl⟩ := h
  have hzero : ∀ c, moneyRange 0 c = true := by decide
  obtain ⟨prevs, hprevs, htotal, hmature⟩ := checkPrevouts_spec hzero hv
  obtain ⟨hset, hnd, hmem, hsigned, hposEq⟩ := spendInputs_spec hpos [] rfl hf.agree hspend
  refine ⟨prevs, hprevs, ?_, hnd, hset, ?_, hposEq⟩
  · have hboth := (List.forall₂_and_left _ _).mpr ⟨fun txin htx => (⟨htx, hsigned txin htx⟩ :
      txin ∈ tx.vin ∧ SignedSpend K inputs txin), hprevs⟩
    refine hboth.imp ?_
    rintro txin txout ⟨⟨htx, idx, txPrev, txout', hin, hhash, hout, hop⟩, hget⟩
    obtain ⟨idx', txPrev', hin', hout'⟩ := getOutputFor_eq_ok.mp hget
    rw [hin, Option.some_inj, Prod.mk.injEq] at hin'
    obtain ⟨rfl, rfl⟩ := hin'
    rw [hout, Option.some_inj] at hout'
    subst hout'
    obtain ⟨hview, hholds⟩ := hf _ _ _ hin
    exact ⟨txPrev, idx, hholds, hhash, hview, hout, hop, hmem txin htx,
      hmature txin htx idx txPrev hin⟩
  · intro c hc
    have hle := checkValuesOut_spec hvalues c (mem_realColors.mpr hc)
    rw [htotal c] at hle
    simpa using hle

/-! ## 5. What disconnecting them does -/

theorem giveBackInputs_spec :
    ∀ {vin : List CTxIn} {txdb : TxDB}, giveBackInputs vin txdb = .ok txdb' →
      ∀ o, Unspent txdb' o ↔ Unspent txdb o ∨ o ∈ vin.map CTxIn.prevout
  | [], txdb, h, o => by
    cases h
    simp
  | txin :: vin, txdb, h, o => by
    unfold giveBackInputs at h
    split at h
    · cases h
    · next idx hidx =>
      simp only [bind_eq_ok, refuse_eq_ok, not_le] at h
      obtain ⟨-, hn, h⟩ := h
      rw [giveBackInputs_spec h o, unspent_giveBack hidx hn, List.map_cons, List.mem_cons]
      tauto

/-- **Disconnecting a transaction** gives back what it spent and removes what is under its id. -/
theorem disconnectInputs_spec (h : disconnectInputs K txdb tx = .ok txdb') (o : COutPoint) :
    Unspent txdb' o ↔ (Unspent txdb o ∨ o ∈ tx.spends) ∧ o.hash ≠ tx.getHash K := by
  unfold disconnectInputs at h
  unfold CTransaction.spends
  split at h
  · next hcb =>
    cases h
    rw [unspent_erase, if_pos hcb]
    simp
  · next hcb =>
    simp only [bind_eq_ok, pure_eq_ok] at h
    obtain ⟨db, hgive, rfl⟩ := h
    rw [unspent_erase, giveBackInputs_spec hgive o, if_neg hcb]

end Breakout
