/-
# The making of a payment

`CreateTransaction` pays some recipients in one colour.  With a fee to begin with, it selects coins,
and coins of the fee colour where that is another; puts the change among the outputs at a random
place, and the change of the fee at another, neither between an output and the narration behind it;
signs; and starts again with a larger fee until the fee is enough.

It also tells where it has put the change and the change of the fee, as the distance of an iterator
from the beginning.  But the iterator is the one it has inserted at.  An insertion that moves the
outputs to where there is more room leaves it dangling; and the second insertion moves the change on
when it is in front of it.  So both are where they are said to be exactly when neither insertion
moves the outputs and the change of the fee comes behind the change, but for a change that looks
like the output it comes behind (`changePositions_iff`).
-/
import Breakout.StakeWeight

namespace Breakout

open Lib
open scoped List

variable {K : Crypto}

/-! ## 1. The coins -/

/-- `CWallet::SelectCoins`, with the luck of each of the tries. -/
def CoinWallet.selectCoins (w : CoinWallet K) (nTargetValue : Int64) (c : Color)
    (nSpendTime : UInt32) (fMultiSig : Bool) (coinControl : Option CCoinControl)
    (luck : Nat → Luck) : Run (Bool × Chosen) := do
  let vCoins := w.availableCoins c fMultiSig true coinControl
  if coinControl.any CCoinControl.hasSelected then
    -- "we want all selected to go into the transaction for sure"
    let r := Chosen.none.addAll (vCoins.map COutput.coin)
    return (decide (r.nValueRet ≥ nTargetValue), r)
  else
    let (f, r) ← selectCoinsMinConf ⟨nTargetValue, nSpendTime, 1, 6, fMultiSig⟩ (luck 0) vCoins
    if f then return (true, r)
    else
      let (f, r) ← selectCoinsMinConf ⟨nTargetValue, nSpendTime, 1, 1, fMultiSig⟩ (luck 1) vCoins
      if f then return (true, r)
      else selectCoinsMinConf ⟨nTargetValue, nSpendTime, 0, 1, fMultiSig⟩ (luck 2) vCoins

/-! ## 2. The places of the change -/

def setDestination : Wallet.CTxDestination → CScript
  | .keyID id _ => [opDup, opHash160, 20] ++ leBytes 20 id.toNat ++ [opEqualverify, opChecksig]
  | .scriptID id _ => [opHash160, 20] ++ leBytes 20 id.toNat ++ [opEqual]
  | .noDestination => []
  | .stealth .. => []

/-- The loop that goes back, to an output with a value or to the first. -/
def walkBack (vout : List CTxOut) : Nat → Nat
  | 0 => 0
  | position + 1 =>
    match vout[position + 1]? with
    | some txout => if txout.nValue ≠ 0 then position + 1 else walkBack vout position
    | none => position + 1

/-- "Insert change txn at random position": where, for a random number up to the number of
outputs. -/
def changePosition (vout : List CTxOut) (position : Nat) : Nat :=
  if position > 0 ∧ position < vout.length then walkBack vout position else position

/-- "But not first, which indicates the transaction color": where the change of the fee goes, for a
random number below the number of outputs. -/
def feeChangePosition (vout : List CTxOut) (n : Nat) : Nat :=
  if 1 + n < vout.length then
    if walkBack vout (1 + n) = 0 then vout.length else walkBack vout (1 + n)
  else 1 + n

/-- What an attempt draws: the luck of the coins and, for the change and the change of the fee,
`GetRandInt`, the key out of the pool, and whether the insertion moves the outputs to where there is
more room. -/
structure Draws where
  luck : Bool → Nat → Luck
  getRandInt : Bool → Nat → Nat
  getRandInt_lt : ∀ fFee nMax, 0 < nMax → getRandInt fFee nMax < nMax
  reservedKey : Bool → UInt160
  fMoves : Bool → Bool

/-- An output that was put in, where, and whether that moved the outputs. -/
structure Placed where
  txout : CTxOut
  position : Nat
  fMoved : Bool
deriving DecidableEq

/-- `distance(wtxNew.vout.begin(), position)`, after the insertion: anything where `position`
dangles. -/
def Placed.distance (p : Placed) (dangling : Int) : Int :=
  if p.fMoved then dangling else p.position

/-- The outputs, with an output put in or not. -/
def place (vout : List CTxOut) : Option Placed → List CTxOut
  | none => vout
  | some p => vout.insertIdx p.position p.txout

/-! ## 3. The attempts -/

/-- What `CreateTransaction` is called with. -/
structure CreateArgs where
  vecSend : List (CScript × Int64)
  nColor : Int32
  wtxNew : CTransaction
  strTxComment : List UInt8
  nServiceTypeID : UInt32
  coinControl : Option CCoinControl

/-- "vouts to the payees" -/
def CreateArgs.outputs (args : CreateArgs) (c : Color) : List CTxOut :=
  args.vecSend.map fun s => ⟨s.2, c.toInt32, s.1⟩

/-- What is read of the wallet and the node, and what the attempts draw. -/
structure CreateEnv (K : Crypto) where
  wallet : CoinWallet K
  vTransactionFee : Color → Int64
  sign : CTransaction → Nat → CScript → Option CScript
  draws : Nat → Draws

/-- What `CreateTransaction` returns: the transaction, the fee, how many attempts came before, and
what the last of them put among the outputs. -/
structure Created where
  wtxNew : CTransaction
  nFeeRet : Int64
  attempt : Nat
  change : Option Placed
  feeChange : Option Placed
deriving DecidableEq

/-- What an attempt comes to: the end, the transaction, or a larger fee. -/
inductive CreateAttempt where
  | fail
  | done (r : Created)
  | retry (nFeeRet : Int64)

/-- The coins of an attempt. -/
structure PaymentCoins where
  coins : List COutput
  nValueIn : Int64
  feeCoins : List COutput
  nFeeValueIn : Int64

/-- "Choose coins to use": for the value and the fee where they are of one colour, and else for the
value, and of the other colour for the fee. -/
def choosePayment (env : CreateEnv K) (args : CreateArgs) (c : Color) (nValue nFeeRet : Int64)
    (d : Draws) : Run (Option PaymentCoins) := do
  let fSame := decide (c = feeColor c)
  let nTotalValue := if fSame then nValue + nFeeRet else nValue
  let nFeeValue := if fSame then 0 else nFeeRet
  let nTime := args.wtxNew.nTime
  let (f, r) ← env.wallet.selectCoins nTotalValue c nTime false args.coinControl (d.luck false)
  let coins := coinsOf (env.wallet.availableCoins c false true args.coinControl) r.setCoinsRet
  if f = false then return none
  else if nFeeValue > 0 then
    let (f, rFee) ← env.wallet.selectCoins nFeeValue (feeColor c) nTime false none (d.luck true)
    if f = false then return none
    else
      return some ⟨coins, r.nValueRet,
        coinsOf (env.wallet.availableCoins (feeColor c) false true none) rFee.setCoinsRet,
        rFee.nValueRet⟩
  else return some ⟨coins, r.nValueRet, [], 0⟩

/-- The change, the change of the fee and the fee. -/
structure PaymentChange where
  nChange : Int64
  nFeeChange : Int64
  nFeeRet : Int64

/-- "If sub-cent/10 change is required, the fee must be raised to at least MIN_TX_FEE" -/
def paymentChange (c : Color) (nValue nFeeRet : Int64) (p : PaymentCoins) : PaymentChange :=
  let minFee := minTxFee (feeColor c)
  if c = feeColor c then
    let nChange := p.nValueIn - nValue - nFeeRet
    if nFeeRet < minFee ∧ nChange > 0 ∧ nChange < cent c / 10 then
      let nMoveToFee := min nChange (minFee - nFeeRet)
      ⟨nChange - nMoveToFee, 0, nFeeRet + nMoveToFee⟩
    else ⟨nChange, 0, nFeeRet⟩
  else
    let nChange := p.nValueIn - nValue
    let nFeeChange := p.nFeeValueIn - nFeeRet
    if nFeeRet < minFee ∧ nChange > 0 ∧ nChange < cent c / 10 then
      let nMoveToFee := min nFeeChange (minFee - nFeeRet)
      ⟨nChange, nFeeChange - nMoveToFee, nFeeRet + nMoveToFee⟩
    else ⟨nChange, nFeeChange, nFeeRet⟩

/-- Where the change goes. -/
def CreateArgs.changeAt (args : CreateArgs) (c : Color) (d : Draws) : Nat :=
  changePosition (args.outputs c) (d.getRandInt false ((args.outputs c).length + 1))

/-- "Fill a vout to ourself", to the custom address or to the reserved key. -/
def placeChange (args : CreateArgs) (c : Color) (d : Draws) (nChange : Int64) : Option Placed :=
  if nChange > cent c / 10 then
    let destChange := match args.coinControl with
      | some ⟨.noDestination, _⟩ => .keyID (d.reservedKey false) c.toInt32
      | some ⟨destChange, _⟩ => destChange
      | none => .keyID (d.reservedKey false) c.toInt32
    some ⟨⟨nChange, c.toInt32, setDestination destChange⟩, args.changeAt c d, d.fMoves false⟩
  else none

/-- The change of the fee, where the fee is of another colour. -/
def placeFeeChange (c : Color) (d : Draws) (vout : List CTxOut) (nFeeChange : Int64) :
    Option Placed :=
  if c ≠ feeColor c ∧ nFeeChange > cent (feeColor c) / 10 then
    let destChange := .keyID (d.reservedKey true) (feeColor c).toInt32
    some ⟨⟨nFeeChange, (feeColor c).toInt32, setDestination destChange⟩,
      feeChangePosition vout (d.getRandInt true vout.length), d.fMoves true⟩
  else none


/-- The transaction before it is signed. -/
def paymentTx (args : CreateArgs) (vout : List CTxOut) (coins : List COutput) : CTransaction :=
  { args.wtxNew with
    vin := coins.map fun o => .ofOutPoint (o.outPoint K)
    vout := vout
    strTxComment := args.strTxComment.take maxTxCommentLen
    nServiceTypeID := args.nServiceTypeID }

/-- An attempt with a fee. -/
def createAttempt (env : CreateEnv K) (args : CreateArgs) (c : Color) (nValue : Int64)
    (attempt : Nat) (nFeeRet : Int64) : Run CreateAttempt := do
  let d := env.draws attempt
  match ← choosePayment env args c nValue nFeeRet d with
  | none => return .fail
  | some p =>
    let ⟨nChange, nFeeChange, nFeeRet⟩ := paymentChange c nValue nFeeRet p
    let change := placeChange args c d nChange
    let vout := place (args.outputs c) change
    let feeChange := placeFeeChange c d vout nFeeChange
    let coins := p.coins ++ p.feeCoins
    match signLoop env.sign 0 coins (paymentTx (K := K) args (place vout feeChange) coins) with
    | none => return .fail
    | some wtxNew =>
      let nBytes := wtxNew.serialize.length
      if nBytes ≥ maxBlockSizeGen / 5 then return .fail
      else
        let nPayFee := env.vTransactionFee (feeColor c) * (1 + Int64.ofNat (nBytes / 1000))
        let nMinFee ← wtxNew.getMinFee (maxBlockSize / 50).toUInt32 .gmfSend nBytes.toUInt32
        return if nFeeRet < max nPayFee nMinFee then .retry (max nPayFee nMinFee)
          else .done ⟨wtxNew, nFeeRet, attempt, change, feeChange⟩

/-- Attempt after attempt. -/
def createLoop (env : CreateEnv K) (args : CreateArgs) (c : Color) (nValue : Int64) :
    Nat → Nat → Int64 → Run (Option Created)
  | 0, _, _ => .ok none
  | fuel + 1, attempt, nFeeRet => do
    match ← createAttempt env args c nValue attempt nFeeRet with
    | .fail => return none
    | .done r => return some r
    | .retry nFeeRet => createLoop env args c nValue fuel (attempt + 1) nFeeRet

/-- The sum of what is sent, which must not become negative on the way. -/
def sumSend : List (CScript × Int64) → Int64 → Option Int64
  | [], nValue => some nValue
  | s :: vecSend, nValue => if nValue < 0 then none else sumSend vecSend (nValue + s.2)

/-- `CWallet::CreateTransaction`: what it returns where it succeeds. -/
def createTransaction (env : CreateEnv K) (fuel : Nat) (args : CreateArgs) : Run (Option Created) :=
  if args.nColor < 1 ∨ args.nColor > Int32.ofNat nColors then .ok none
  else do
    let c ← tableIndex args.nColor
    match sumSend args.vecSend 0 with
    | none => return none
    | some nValue =>
      if args.vecSend = [] ∨ nValue < 0 then return none
      else createLoop env args c nValue fuel 0 (minTxFee c)

/-! ## 4. What an attempt has done -/

/-- The larger of two words is the larger number. -/
theorem toInt_max (a b : Int64) : (max a b).toInt = max a.toInt b.toInt := by
  change (if a ≤ b then b else a).toInt = _
  rw [apply_ite Int64.toInt, max_def]
  exact if_congr Int64.le_iff_toInt_le rfl rfl

/-- The smaller of two words is the smaller number. -/
theorem toInt_min (a b : Int64) : (min a b).toInt = min a.toInt b.toInt := by
  change (if a ≤ b then a else b).toInt = _
  rw [apply_ite Int64.toInt, min_def]
  exact if_congr Int64.le_iff_toInt_le rfl rfl

/-- **A transaction as an attempt has made it**, out of the sum that is sent and the fee that the
attempt began with. -/
structure Created.Made (env : CreateEnv K) (args : CreateArgs) (c : Color) (nValue nFee : Int64)
    (p : PaymentCoins) (r : Created) : Prop where
  chosen : choosePayment env args c nValue nFee (env.draws r.attempt) = .ok (some p)
  fee : r.nFeeRet = (paymentChange c nValue nFee p).nFeeRet
  change : r.change =
    placeChange args c (env.draws r.attempt) (paymentChange c nValue nFee p).nChange
  feeChange : r.feeChange =
    placeFeeChange c (env.draws r.attempt) (place (args.outputs c) r.change)
      (paymentChange c nValue nFee p).nFeeChange
  vout : r.wtxNew.vout = place (place (args.outputs c) r.change) r.feeChange
  vin : r.wtxNew.vin.map CTxIn.prevout = (p.coins ++ p.feeCoins).map fun o => o.outPoint K
  minFee : ∃ nMinFee, r.wtxNew.getMinFee (maxBlockSize / 50).toUInt32 .gmfSend
    r.wtxNew.serialize.length.toUInt32 = .ok nMinFee ∧ nMinFee.toInt ≤ r.nFeeRet.toInt

variable {attempt fuel : Nat}

theorem createAttempt_done {env : CreateEnv K} {args : CreateArgs} {c : Color}
    {nValue nFee : Int64} {r : Created}
    (h : createAttempt env args c nValue attempt nFee = .ok (.done r)) :
    r.attempt = attempt ∧ ∃ p, r.Made env args c nValue nFee p := by
  unfold createAttempt at h
  obtain ⟨chosen, hchosen, h⟩ := bind_eq_ok.mp h
  cases chosen with
  | none => cases h
  | some p =>
    dsimp only at h
    split at h
    · cases h
    · next wtxNew hsign =>
      split at h
      · cases h
      · obtain ⟨nMinFee, hmin, h⟩ := bind_eq_ok.mp h
        split at h
        · cases h
        · next hfee =>
          cases h
          obtain ⟨hvout, hvin⟩ := signLoop_spec hsign
          refine ⟨rfl, p, hchosen, rfl, rfl, rfl, hvout, ?_, nMinFee, hmin, ?_⟩
          · rw [hvin, paymentTx, List.map_map]
            rfl
          · rw [Int64.lt_iff_toInt_lt, toInt_max, not_lt] at hfee
            exact (le_max_right _ _).trans hfee

/-- An attempt that asks for a larger fee asks for one that is not negative. -/
theorem createAttempt_retry {env : CreateEnv K} {args : CreateArgs} {c : Color}
    {nValue nFee nFeeRet : Int64}
    (h : createAttempt env args c nValue attempt nFee = .ok (.retry nFeeRet)) :
    0 ≤ nFeeRet.toInt := by
  unfold createAttempt at h
  obtain ⟨chosen, hchosen, h⟩ := bind_eq_ok.mp h
  cases chosen with
  | none => cases h
  | some p =>
    dsimp only at h
    split at h
    · cases h
    · split at h
      · cases h
      · obtain ⟨nMinFee, hmin, h⟩ := bind_eq_ok.mp h
        split at h
        · cases h
          rw [toInt_max]
          exact (getMinFee_nonneg hmin).trans (le_max_right _ _)
        · cases h

/-- The attempt that a transaction comes from began with a fee that is not negative. -/
theorem createLoop_some {env : CreateEnv K} {args : CreateArgs} {c : Color} {nValue : Int64}
    {nFeeRet : Int64} {r : Created} (hfee : 0 ≤ nFeeRet.toInt)
    (h : createLoop env args c nValue fuel attempt nFeeRet = .ok (some r)) :
    ∃ nFee p, 0 ≤ nFee.toInt ∧ r.Made env args c nValue nFee p := by
  induction fuel generalizing attempt nFeeRet with
  | zero => cases h
  | succ fuel ih =>
    obtain ⟨result, hresult, h⟩ := bind_eq_ok.mp h
    cases result with
    | fail => cases h
    | done r' =>
      cases h
      obtain ⟨-, p, hmade⟩ := createAttempt_done hresult
      exact ⟨nFeeRet, p, hfee, hmade⟩
    | retry nFeeRet => exact ih (createAttempt_retry hresult) h

theorem minTxFee_nonneg : ∀ c : Color, 0 ≤ (minTxFee c).toInt := by decide

/-- **A created transaction**: what is sent adds up, and the transaction was made by an attempt. -/
theorem createTransaction_some {env : CreateEnv K} {args : CreateArgs} {r : Created}
    (h : createTransaction env fuel args = .ok (some r)) :
    ∃ c : Color, c ≠ .none ∧ args.nColor = c.toInt32 ∧ args.vecSend ≠ [] ∧
      ∃ nValue nFee p, sumSend args.vecSend 0 = some nValue ∧ 0 ≤ nValue.toInt ∧ 0 ≤ nFee.toInt ∧
        r.Made env args c nValue nFee p := by
  unfold createTransaction at h
  split at h
  · cases h
  · next hcolor =>
    obtain ⟨c, hc, h⟩ := bind_eq_ok.mp h
    split at h
    · cases h
    · next nValue hsum =>
      split at h
      · cases h
      · next hsend =>
        obtain ⟨nFee, p, hfee, hmade⟩ := createLoop_some (minTxFee_nonneg c) h
        rw [not_or, Int64.lt_iff_toInt_lt, not_lt] at hsend
        have hn := tableIndex_eq_ok.mp hc
        refine ⟨c, ?_, hn, hsend.1, nValue, nFee, p, hsum, hsend.2, hfee, hmade⟩
        rintro rfl
        exact hcolor (Or.inl (by rw [hn]; decide))

/-! ## 5. The way back -/

variable {vout vout' : List CTxOut} {i k : Nat}

theorem walkBack_le (vout : List CTxOut) (i : Nat) : walkBack vout i ≤ i := by
  induction i with
  | zero => exact le_rfl
  | succ i ih =>
    rw [walkBack]
    split
    · split
      · exact le_rfl
      · exact ih.trans i.le_succ
    · exact le_rfl

/-- The way back ends at the first output or at one with a value. -/
theorem walkBack_cases (h : i < vout.length) :
    walkBack vout i = 0 ∨ ∃ txout, vout[walkBack vout i]? = some txout ∧ txout.nValue ≠ 0 := by
  induction i with
  | zero => exact Or.inl rfl
  | succ i ih =>
    rw [walkBack, List.getElem?_eq_getElem h]
    dsimp only
    split
    · next hvalue => exact Or.inr ⟨_, List.getElem?_eq_getElem h, hvalue⟩
    · exact ih (i.lt_succ_self.trans h)

/-- It does not pass an output with a value. -/
theorem le_walkBack {txout : CTxOut} (hk : vout[k]? = some txout) (hvalue : txout.nValue ≠ 0)
    (hle : k ≤ i) : k ≤ walkBack vout i := by
  induction i with
  | zero => exact hle
  | succ i ih =>
    rw [walkBack]
    split
    · next txout' htxout' =>
      split
      · exact hle
      · next hzero =>
        refine ih (Nat.lt_succ_iff.mp (lt_of_le_of_ne hle ?_))
        rintro rfl
        exact hzero (by rwa [← Option.some.inj (hk.symm.trans htxout')])
    · exact hle

theorem walkBack_congr (h : ∀ j ≤ i, vout[j]? = vout'[j]?) :
    walkBack vout i = walkBack vout' i := by
  induction i with
  | zero => rfl
  | succ i ih => rw [walkBack, walkBack, h _ le_rfl, ih fun j hj => h j (hj.trans i.le_succ)]

/-- **The change goes in front of all, behind all or in front of an output with a value.** -/
theorem changePosition_spec {position : Nat} (h : position ≤ vout.length) :
    changePosition vout position ≤ vout.length ∧
      (changePosition vout position = 0 ∨ changePosition vout position = vout.length ∨
        ∃ txout, vout[changePosition vout position]? = some txout ∧ txout.nValue ≠ 0) := by
  rw [changePosition]
  split
  · next hinside =>
    refine ⟨(walkBack_le _ _).trans h, ?_⟩
    exact (walkBack_cases hinside.2).imp_right Or.inr
  · next hends => exact ⟨h, by omega⟩

/-- **The change of the fee goes behind all or in front of an output with a value**, but not in
front of all. -/
theorem feeChangePosition_spec {n : Nat} (h : n < vout.length) :
    0 < feeChangePosition vout n ∧ feeChangePosition vout n ≤ vout.length ∧
      (feeChangePosition vout n = vout.length ∨
        ∃ txout, vout[feeChangePosition vout n]? = some txout ∧ txout.nValue ≠ 0) := by
  rw [feeChangePosition]
  split
  · next hinside =>
    split
    · exact ⟨by omega, le_rfl, Or.inl rfl⟩
    · next hpos =>
      have hle := walkBack_le vout (1 + n)
      exact ⟨Nat.pos_of_ne_zero hpos, by omega, Or.inr ((walkBack_cases hinside).resolve_left hpos)⟩
  · exact ⟨by omega, by omega, Or.inl (by omega)⟩

/-- **Where the change of the fee goes beside a change**, which has a value: behind it, exactly when
the random number is no less than the place of the change or all outputs on the way back are without
a value; else in front of it, and that right in front of it only from there. -/
theorem feeChangePosition_insertIdx {c f n : Nat} {change : CTxOut} (hc : c ≤ vout.length)
    (hplace : c = 0 ∨ c = vout.length ∨ ∃ txout, vout[c]? = some txout ∧ txout.nValue ≠ 0)
    (hn : n < vout.length + 1) (hchange : change.nValue ≠ 0)
    (hf : f = feeChangePosition (vout.insertIdx c change) n) :
    (c < f ∧ (c ≤ n ∨ walkBack vout (1 + n) = 0)) ∨
      (f < c ∧ n + 1 < c ∧ walkBack vout (1 + n) ≠ 0) ∨
      (f = c ∧ n + 1 = c ∧ walkBack vout (1 + n) ≠ 0) := by
  have hlength : (vout.insertIdx c change).length = vout.length + 1 :=
    List.length_insertIdx_of_le_length hc change
  have hat : (vout.insertIdx c change)[c]? = some change := by
    rw [List.getElem?_insertIdx_self, if_pos hc]
  rw [feeChangePosition, hlength] at hf
  by_cases hlast : 1 + n < vout.length + 1
  swap
  · rw [if_neg hlast] at hf
    exact Or.inl ⟨by omega, Or.inl (by omega)⟩
  rw [if_pos hlast] at hf
  rcases lt_trichotomy (n + 1) c with hlt | heq | hgt
  · -- the way back begins in front of the change
    have hsame : walkBack (vout.insertIdx c change) (1 + n) = walkBack vout (1 + n) :=
      walkBack_congr fun j hj => List.getElem?_insertIdx_of_lt (by omega)
    have hle := walkBack_le vout (1 + n)
    rw [hsame] at hf
    by_cases hzero : walkBack vout (1 + n) = 0
    · rw [if_pos hzero] at hf
      exact Or.inl ⟨by omega, Or.inr hzero⟩
    · rw [if_neg hzero] at hf
      exact Or.inr (Or.inl ⟨by omega, hlt, hzero⟩)
  · -- at the change, where it ends
    have hle := walkBack_le (vout.insertIdx c change) (1 + n)
    have hge : c ≤ walkBack (vout.insertIdx c change) (1 + n) := le_walkBack hat hchange (by omega)
    rw [if_neg (by omega)] at hf
    refine Or.inr (Or.inr ⟨by omega, heq, ?_⟩)
    rcases hplace with hfirst | hend | ⟨txout, htxout, hvalue⟩
    · omega
    · have hnone : vout[n + 1]? = none := List.getElem?_eq_none (by omega)
      rw [Nat.add_comm, walkBack, hnone]
      exact Nat.succ_ne_zero n
    · have hback := le_walkBack htxout hvalue (show c ≤ 1 + n by omega)
      omega
  · -- behind the change, in front of which there is an output with a value
    refine Or.inl ⟨?_, Or.inl (by omega)⟩
    by_cases hzero : walkBack (vout.insertIdx c change) (1 + n) = 0
    · rw [if_pos hzero] at hf
      omega
    · rw [if_neg hzero] at hf
      rcases hplace with hfirst | hend | ⟨txout, htxout, hvalue⟩
      · omega
      · omega
      · have hnext : (vout.insertIdx c change)[c + 1]? = some txout := by
          rw [List.getElem?_insertIdx_of_gt c.lt_succ_self]
          exact htxout
        have hback := le_walkBack hnext hvalue (show c + 1 ≤ 1 + n by omega)
        omega

/-! ## 6. Where the change is -/

/-- The output at a distance from the beginning. -/
def outputFrom (vout : List CTxOut) (distance : Int) : Option CTxOut :=
  if 0 ≤ distance then vout[distance.toNat]? else none

/-- **The place that is told of an output is its place**, whatever a dangling iterator gives. -/
def Placed.RightIn (p : Placed) (vout : List CTxOut) : Prop :=
  ∀ dangling : Int, outputFrom vout (p.distance dangling) = some p.txout

/-- **Both places are right**: `vout[nChangePos]` is the change, and `vout[nFeeChangePos]` the
change of the fee, of those that were added. -/
structure Created.RightPositions (r : Created) : Prop where
  change : ∀ p, r.change = some p → p.RightIn r.wtxNew.vout
  feeChange : ∀ p, r.feeChange = some p → p.RightIn r.wtxNew.vout

variable {p : Placed} {d : Draws}

theorem Placed.rightIn_iff :
    p.RightIn vout ↔ p.fMoved = false ∧ vout[p.position]? = some p.txout := by
  unfold RightIn distance outputFrom
  cases p.fMoved with
  | true =>
    refine iff_of_false (fun h => ?_) (fun h => Bool.noConfusion h.1)
    have hnone := h (-1)
    exact absurd hnone (by simp)
  | false => simp

theorem cent_tenth_nonneg : ∀ c : Color, 0 ≤ (cent c / 10).toInt := by decide

theorem placeChange_some {args : CreateArgs} {c : Color} {nChange : Int64}
    (h : placeChange args c d nChange = some p) :
    p.position = args.changeAt c d ∧ p.fMoved = d.fMoves false ∧ p.txout.nValue = nChange ∧
      p.txout.nColor = c.toInt32 ∧ 0 < nChange.toInt := by
  unfold placeChange at h
  split at h
  · next hmore =>
    cases h
    exact ⟨rfl, rfl, rfl, rfl, (cent_tenth_nonneg c).trans_lt (Int64.lt_iff_toInt_lt.mp hmore)⟩
  · cases h

theorem placeFeeChange_some {c : Color} {nFeeChange : Int64}
    (h : placeFeeChange c d vout nFeeChange = some p) :
    p.position = feeChangePosition vout (d.getRandInt true vout.length) ∧
      p.fMoved = d.fMoves true ∧ p.txout.nValue = nFeeChange ∧
      p.txout.nColor = (feeColor c).toInt32 ∧ c ≠ feeColor c ∧ 0 < nFeeChange.toInt := by
  unfold placeFeeChange at h
  split at h
  · next hmore =>
    cases h
    exact ⟨rfl, rfl, rfl, rfl, hmore.1,
      (cent_tenth_nonneg (feeColor c)).trans_lt (Int64.lt_iff_toInt_lt.mp hmore.2)⟩
  · cases h

/-- What keeps a change at its place when the change of the fee is put in: that goes behind it, or
the output that is moved to its place is just like it. -/
def ChangeKept (args : CreateArgs) (c : Color) (d : Draws) (change : CTxOut) : Prop :=
  let n := d.getRandInt true (args.vecSend.length + 1)
  args.changeAt c d ≤ n ∨ walkBack (args.outputs c) (1 + n) = 0 ∨
    (n + 1 < args.changeAt c d ∧ (args.outputs c)[args.changeAt c d - 1]? = some change)

/-- **What keeps both in their places**: neither insertion that is made moves the outputs, and where
both are made, the second keeps the change at its place. -/
structure PlacesKept (args : CreateArgs) (c : Color) (d : Draws)
    (change feeChange : Option Placed) : Prop where
  steady : change.isSome → d.fMoves false = false
  steadyFee : feeChange.isSome → d.fMoves true = false
  kept : ∀ p, change = some p → feeChange.isSome → ChangeKept args c d p.txout

section Made

variable {env : CreateEnv K} {args : CreateArgs} {c : Color} {nValue nFee : Int64}
  {coins : PaymentCoins} {r : Created}

theorem CreateArgs.length_outputs (args : CreateArgs) (c : Color) :
    (args.outputs c).length = args.vecSend.length := by
  rw [CreateArgs.outputs, List.length_map]

theorem CreateArgs.changeAt_spec (args : CreateArgs) (c : Color) (d : Draws) :
    args.changeAt c d ≤ (args.outputs c).length ∧
      (args.changeAt c d = 0 ∨ args.changeAt c d = (args.outputs c).length ∨
        ∃ txout, (args.outputs c)[args.changeAt c d]? = some txout ∧ txout.nValue ≠ 0) :=
  changePosition_spec (Nat.lt_succ_iff.mp (d.getRandInt_lt false _ (Nat.succ_pos _)))

theorem length_le_length_place {vout : List CTxOut} {change : Option Placed} :
    vout.length ≤ (place vout change).length := by
  cases change with
  | none => exact le_rfl
  | some p => exact (List.sublist_insertIdx vout p.position p.txout).length_le

variable {p : Placed}

theorem Created.Made.feeChange_spec (h : r.Made env args c nValue nFee coins)
    (hsend : args.vecSend ≠ []) (hp : r.feeChange = some p) :
    0 < p.position ∧ p.position ≤ (place (args.outputs c) r.change).length ∧
      (p.position = (place (args.outputs c) r.change).length ∨
        ∃ txout, (place (args.outputs c) r.change)[p.position]? = some txout ∧
          txout.nValue ≠ 0) := by
  have hplace := placeFeeChange_some (h.feeChange.symm.trans hp)
  rw [hplace.1]
  refine feeChangePosition_spec ((env.draws r.attempt).getRandInt_lt true _ ?_)
  refine lt_of_lt_of_le ?_ length_le_length_place
  rw [args.length_outputs]
  exact List.length_pos_iff.mpr hsend

/-- **Where the change is** in the end: at its place, unless the change of the fee goes in front of
it and the output that is moved to its place is another. -/
theorem Created.Made.change_iff (h : r.Made env args c nValue nFee coins) (hp : r.change = some p) :
    r.wtxNew.vout[p.position]? = some p.txout ↔
      (r.feeChange.isSome → ChangeKept args c (env.draws r.attempt) p.txout) := by
  obtain ⟨hposition, -, hnValue, hnColor, hpos⟩ := placeChange_some (h.change.symm.trans hp)
  obtain ⟨hle, hplace⟩ := args.changeAt_spec c (env.draws r.attempt)
  have hvout := h.vout
  have hplaced := h.feeChange
  rw [hp, place, hposition] at hvout hplaced
  rw [hposition]
  unfold ChangeKept
  generalize env.draws r.attempt = d at *
  generalize args.changeAt c d = position at *
  cases hfee : r.feeChange with
  | none =>
    rw [hfee, place] at hvout
    refine iff_of_true ?_ (fun hsome => Bool.noConfusion hsome)
    rw [hvout, List.getElem?_insertIdx_self, if_pos hle]
  | some pFee =>
    rw [hfee, place] at hvout
    obtain ⟨hf, -, -, hfColor, hother, -⟩ := placeFeeChange_some (hplaced.symm.trans hfee)
    rw [List.length_insertIdx_of_le_length hle, args.length_outputs] at hf
    have hchange : p.txout.nValue ≠ 0 := by
      intro hzero
      rw [← hnValue, hzero] at hpos
      exact absurd hpos (by decide)
    have hn : d.getRandInt true (args.vecSend.length + 1) < (args.outputs c).length + 1 := by
      rw [args.length_outputs]
      exact d.getRandInt_lt true _ (Nat.succ_pos _)
    rw [hvout, Option.isSome_some, imp_iff_right rfl]
    rcases feeChangePosition_insertIdx hle hplace hn hchange hf with
      ⟨hlt, hbehind⟩ | ⟨hgt, hfront, hback⟩ | ⟨heq, hfront, hback⟩
    · refine iff_of_true ?_ (hbehind.imp_right Or.inl)
      rw [List.getElem?_insertIdx_of_lt hlt, List.getElem?_insertIdx_self, if_pos hle]
    · rw [List.getElem?_insertIdx_of_gt hgt, List.getElem?_insertIdx_of_lt (by omega),
        or_iff_right (by omega), or_iff_right hback, and_iff_right hfront]
    · refine iff_of_false ?_ (by omega)
      rw [heq, List.getElem?_insertIdx_self, List.length_insertIdx_of_le_length hle,
        if_pos (by omega)]
      -- the change of the fee stands there, which is of another colour
      intro hsame
      rw [Option.some.inj hsame, hnColor, Color.toInt32_inj] at hfColor
      exact hother hfColor

theorem Created.Made.feeChange_getElem? (h : r.Made env args c nValue nFee coins)
    (hsend : args.vecSend ≠ []) (hp : r.feeChange = some p) :
    r.wtxNew.vout[p.position]? = some p.txout := by
  obtain ⟨-, hle, -⟩ := h.feeChange_spec hsend hp
  rw [h.vout, hp]
  change ((place (args.outputs c) r.change).insertIdx p.position p.txout)[p.position]? = _
  rw [List.getElem?_insertIdx_self, if_pos hle]

end Made

/-- **When the places are right.**  `vout[nChangePos]` is the change and `vout[nFeeChangePos]` the
change of the fee, of those that are added, exactly when neither of their insertions moves the
outputs, and the second, where there are two, keeps the change at its place. -/
theorem changePositions_iff (env : CreateEnv K) (fuel : Nat) (args : CreateArgs) {c : Color}
    (hc : args.nColor = c.toInt32) {r : Created}
    (h : createTransaction env fuel args = .ok (some r)) :
    r.RightPositions ↔ PlacesKept args c (env.draws r.attempt) r.change r.feeChange := by
  obtain ⟨c', -, hc', hsend, nValue, nFee, coins, -, -, -, hmade⟩ := createTransaction_some h
  obtain rfl : c = c' := Color.toInt32_injective (hc.symm.trans hc')
  have hright : ∀ p, r.change = some p → (p.RightIn r.wtxNew.vout ↔
      (env.draws r.attempt).fMoves false = false ∧
        (r.feeChange.isSome → ChangeKept args c (env.draws r.attempt) p.txout)) := by
    intro p hp
    rw [Placed.rightIn_iff, hmade.change_iff hp,
      (placeChange_some (hmade.change.symm.trans hp)).2.1]
  have hrightFee : ∀ p, r.feeChange = some p → (p.RightIn r.wtxNew.vout ↔
      (env.draws r.attempt).fMoves true = false) := by
    intro p hp
    rw [Placed.rightIn_iff, (placeFeeChange_some (hmade.feeChange.symm.trans hp)).2.1]
    exact and_iff_left (hmade.feeChange_getElem? hsend hp)
  constructor
  · rintro ⟨hchange, hfee⟩
    refine ⟨fun hsome => ?_, fun hsome => ?_, fun p hp => ?_⟩
    · obtain ⟨p, hp⟩ := Option.isSome_iff_exists.mp hsome
      exact ((hright p hp).mp (hchange p hp)).1
    · obtain ⟨p, hp⟩ := Option.isSome_iff_exists.mp hsome
      exact (hrightFee p hp).mp (hfee p hp)
    · exact ((hright p hp).mp (hchange p hp)).2
  · rintro ⟨hsteady, hsteadyFee, hkept⟩
    refine ⟨fun p hp => (hright p hp).mpr ⟨hsteady ?_, hkept p hp⟩, fun p hp =>
      (hrightFee p hp).mpr (hsteadyFee ?_)⟩
    · rw [hp]
      rfl
    · rw [hp]
      rfl

/-! ## 7. Three payments -/

/-- Draws of some random numbers, as far as they are below the bound. -/
def drawsOf (position : Bool → Nat) (fMoves : Bool) : Draws where
  luck _ _ := steadyLuck
  getRandInt fFee nMax := min (position fFee) (nMax - 1)
  getRandInt_lt _ _ h := (min_le_right _ _).trans_lt (Nat.sub_one_lt_of_lt h)
  reservedKey _ := 7
  fMoves _ := fMoves

/-- A wallet of some coins that signs with an empty script. -/
def payingEnv (wallet : CoinWallet (.sample [])) (draws : Draws) : CreateEnv (.sample []) :=
  ⟨wallet, minTxFee, fun _ _ _ => some [], fun _ => draws⟩

/-- A payment of some amounts. -/
def paymentOf (c : Color) (amounts : List Int64) : CreateArgs :=
  ⟨amounts.map fun nValue => ([opReturn], nValue), c.toInt32, ⟨1, 0, [], [], 0, [], 0⟩, [], 0, none⟩

/-- Three BRX. -/
def threeBrx : CoinWallet (.sample []) := oldCoins [⟨300000000, Color.brx.toInt32, []⟩] (by decide)

/-- Three of a card, and SIS for the fee. -/
def threeCards : CoinWallet (.sample []) :=
  oldCoins [⟨3, 5, []⟩, ⟨3000000, Color.sis.toInt32, []⟩] (by decide)

/-- A transaction of a payment that had some coins and puts in some outputs. -/
def createdOf (args : CreateArgs) (c : Color) (coins : List COutput) (nFeeRet : Int64)
    (change feeChange : Option Placed) : Created :=
  ⟨paymentTx (K := .sample []) args (place (place (args.outputs c) change) feeChange) coins,
    nFeeRet, 0, change, feeChange⟩

/-- The change of a payment, to the key of the pool. -/
def changeOf (nValue : Int64) (c : Color) (position : Nat) (fMoved : Bool) : Placed :=
  ⟨⟨nValue, c.toInt32, setDestination (.keyID 7 c.toInt32)⟩, position, fMoved⟩

/-- One BRX paid, with the change behind it. -/
def paidBrx (fMoved : Bool) : Created :=
  createdOf (paymentOf .brx [100000000]) .brx
    (threeBrx.availableCoins .brx false true none) 1500000
    (some (changeOf 198500000 .brx 1 fMoved)) none

/-- Two of a card paid to five, with the change behind all and the change of the fee behind the
first. -/
def paidCards : Created :=
  createdOf (paymentOf 5 [1, 1, 0, 0, 0]) 5
    (threeCards.availableCoins 5 false true none ++ threeCards.availableCoins .sis false true none)
    1000000 (some (changeOf 1 5 5 false)) (some (changeOf 2000000 .sis 1 false))

/-- Where there is room for the change, it is where it is said to be. -/
theorem changePositions_iff_room : (paidBrx false).RightPositions :=
  (changePositions_iff (payingEnv threeBrx (drawsOf (fun _ => 1) false)) 1
    (paymentOf .brx [100000000]) (show _ = Color.brx.toInt32 from rfl) (by decide +kernel)).mpr
    ⟨fun _ => rfl, fun _ => rfl, fun _ _ h => Bool.noConfusion h⟩

/-- **Two payments whose change is not where it is said to be.**  The change of the one is put in
where there is no room for it, behind the only output; and in front of the change of the other,
which is behind all, the change of the fee is put in. -/
theorem places_lost :
    (createTransaction (payingEnv threeBrx (drawsOf (fun _ => 1) true)) 1
        (paymentOf .brx [100000000]) = .ok (some (paidBrx true)) ∧
      ¬ (paidBrx true).RightPositions) ∧
    createTransaction
        (payingEnv threeCards (drawsOf (fun fFee => if fFee then 0 else 5) false)) 1
        (paymentOf 5 [1, 1, 0, 0, 0]) = .ok (some paidCards) ∧
      ¬ paidCards.RightPositions :=
  ⟨⟨by decide +kernel, fun h => absurd (h.change _ rfl (-1)) (by decide +kernel)⟩,
    by decide +kernel, fun h => absurd (h.change _ rfl 0) (by decide +kernel)⟩

end Breakout
