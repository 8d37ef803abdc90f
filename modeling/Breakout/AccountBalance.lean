/-
# The balance of an account

`GetAccountBalance` tallies, in one colour, what the wallet's transactions brought to an account and
took from it, and adds what was moved to it or from it inside the wallet.  The transactions are
tallied by colour; the entries of the transfers have a colour too, but `GetAccountCreditDebit` adds
them all up.

So the balance in a colour is off by what the account's entries in other colours add up to
(`getAccountBalance_iff`).  The sum over the accounts is not: what an entry takes from one, the
entry beside it brings to another.

The two entries of a transfer are written in one transaction of the database.
-/
import Breakout.Wallet
import Breakout.Explore

namespace Breakout

open Lib

namespace Accounting

/-! ## 1. What a transaction is for an account -/

/-- What is read of a wallet for its accounts.  The transactions go by their ids, and a destination
that is none by `none`; `wallet.isMine` is `IsMine` with or without multisig, as it is asked for,
and `isMineAddress` is `IsMine` of an address, with it. -/
structure Book where
  wallet : CWallet
  isFinal : UInt256 → Bool
  nDepth : UInt256 → Int
  nBlocksToMaturity : UInt256 → Int
  strFromAccount : UInt256 → String
  isMineAddress : CTxDestination → UInt8
  mapAddressBook : Option CTxDestination → Option String

/-- What `CWalletTx::GetAmounts` lists of a transaction in a colour. -/
structure TxAmounts where
  listReceived : List (Option CTxDestination × Int64)
  listSent : List (Option CTxDestination × Int64)
  nFee : Int64

namespace Book

variable (K : Crypto) (B : Book)

def getDebit (tx : CTransaction) (nColor : Int32) : Run Int64 :=
  if tx.vin = [] then .ok 0
  else if checkColor nColor = false then
    .error (.throw "CWallet::GetDebit() : invalid currency")
  else do
    let mapDebit ← B.wallet.fillDebits tx
    return mapDebit.get nColor

/-- `IsMine(txout) & ISMINE_SIGNABLE` -/
def isSignable (txout : CTxOut) : Bool :=
  B.wallet.isMine txout.scriptPubKey &&& isMineSignable ≠ 0

def isChange (txout : CTxOut) : Bool :=
  match extractDestination K txout.scriptPubKey with
  | none => false
  | some address =>
    decide (B.isMineAddress address &&& isMineSignable ≠ 0) && (B.mapAddressBook address).isNone

/-- Is the output tallied?  It has the colour, is not the special stake out, and carries no data. -/
def isTallied (nColor : Int32) (txout : CTxOut) : Bool :=
  decide (txout.nColor = nColor) && decide (txout.scriptPubKey ≠ []) &&
    !isOpReturn txout.scriptPubKey

/-- How an output is listed. -/
def listedOut (txout : CTxOut) : Option CTxDestination × Int64 :=
  (extractDestination K txout.scriptPubKey, txout.nValue)

/-- The fee in a colour. -/
def feeOf (tx : CTransaction) (nColor : Int32) (nDebit : Int64) : Run Int64 :=
  if 0 < nDebit then do
    let nValueOut ← tx.getValueOut nColor
    return nDebit - nValueOut
  else .ok 0

/-- `CWalletTx::GetAmounts` in a colour, without change. -/
def getAmounts (tx : CTransaction) (nColor : Int32) : Run TxAmounts :=
  if checkColor nColor = false then
    .error (.throw "CWalletTx::GetAmounts(): invalid color")
  else do
    let nDebit ← B.getDebit tx nColor
    let nFee ← feeOf tx nColor nDebit
    let outs := tx.vout.filter (isTallied nColor)
    -- debit > 0 means we signed/sent this transaction
    if 0 < nDebit then
      let sent := outs.filter fun txout => !B.isChange K txout
      return ⟨(sent.filter B.isSignable).map (listedOut K), sent.map (listedOut K), nFee⟩
    else return ⟨(outs.filter B.isSignable).map (listedOut K), [], nFee⟩

/-- Is what an address received the account's? -/
def isOf (strAccount : String) (r : Option CTxDestination × Int64) : Bool :=
  match B.mapAddressBook r.1 with
  | some strName => strName == strAccount
  | none => strAccount == ""

/-- The amounts of a list. -/
def amounts (l : List (Option CTxDestination × Int64)) : Int64 := (l.map Prod.snd).sum

/-- `CWalletTx::GetAccountAmounts`: what was received, what was sent, and the fee. -/
def getAccountAmounts (hash : UInt256) (tx : CTransaction) (nColor : Int32) (strAccount : String) :
    Run (Int64 × Int64 × Int64) := do
  let a ← B.getAmounts K tx nColor
  let nReceived := amounts (a.listReceived.filter (B.isOf strAccount))
  if strAccount = B.strFromAccount hash then return (nReceived, amounts a.listSent, a.nFee)
  else return (nReceived, 0, 0)

/-- One transaction of the tally. -/
def tallyTx (strAccount : String) (nMinDepth : Int) (nColor : Int32) (nBalance : Int64)
    (e : UInt256 × CMerkleTx) : Run Int64 :=
  if B.isFinal e.1 = false ∨ B.nDepth e.1 < 0 then .ok nBalance
  else do
    let (nReceived, nSent, nFee) ← B.getAccountAmounts K e.1 e.2.tx nColor strAccount
    let nBalance :=
      if nReceived ≠ 0 ∧ nMinDepth ≤ B.nDepth e.1 ∧ B.nBlocksToMaturity e.1 = 0 then
        nBalance + nReceived
      else nBalance
    return nBalance - (nSent + nFee)

/-- The tally of the wallet's transactions. -/
def tally (strAccount : String) (nMinDepth : Int) (nColor : Int32) : Run Int64 :=
  B.wallet.mapWallet.entries.foldlM (B.tallyTx K strAccount nMinDepth nColor) 0

end Book

/-! ## 2. The entries -/

/-- `CAccountingEntry`: what is read of it here.  Its position is kept beside it. -/
structure CAccountingEntry where
  strAccount : String
  nCreditDebit : Int64
  nColor : Int32
  nTime : Int64
  nEntryNo : UInt64
deriving DecidableEq

/-- Is the entry among those that `ListAccountCreditDebit` lists? -/
def CAccountingEntry.listed (strAccount : String) (e : CAccountingEntry) : Bool :=
  strAccount == "*" || e.strAccount == strAccount

/-- `ListAccountCreditDebit`: the records of an account lie together, those of all accounts too. -/
def listAccountCreditDebit (strAccount : String) (acentries : List CAccountingEntry) :
    List CAccountingEntry :=
  acentries.filter (CAccountingEntry.listed strAccount)

def getAccountCreditDebit (strAccount : String) (acentries : List CAccountingEntry) : Int64 :=
  ((listAccountCreditDebit strAccount acentries).map (·.nCreditDebit)).sum

def getAccountBalance (K : Crypto) (B : Book) (acentries : List CAccountingEntry)
    (strAccount : String) (nMinDepth : Int) (nColor : Int32) : Run Int64 := do
  let nBalance ← B.tally K strAccount nMinDepth nColor
  return nBalance + getAccountCreditDebit strAccount acentries

/-- The entries in the database, but for their order, and the number of the last one. -/
structure AccountingDb where
  acentries : List CAccountingEntry
  nAccountingEntryNumber : UInt64

namespace AccountingDb

/-- `WriteAccountingEntry`: the account and the number are the key. -/
def writeAccountingEntry (db : AccountingDb) (acentry : CAccountingEntry) : AccountingDb :=
  let nEntryNo := db.nAccountingEntryNumber + 1
  ⟨db.acentries.filter (fun e => e.strAccount != acentry.strAccount || e.nEntryNo != nEntryNo) ++
    [{ acentry with nEntryNo }], nEntryNo⟩

/-- `movecmd`, with what it is asked for. -/
def movecmd (db : AccountingDb) (strFrom strTo : String) (nAmount : Int64) (nColor : Int32)
    (nNow : Int64) : AccountingDb :=
  let debit : CAccountingEntry := ⟨strFrom, -nAmount, nColor, nNow, 0⟩
  let credit : CAccountingEntry := ⟨strTo, nAmount, nColor, nNow, 0⟩
  (db.writeAccountingEntry debit).writeAccountingEntry credit

/-- No entry has a number above the last one, and there are two left. -/
structure Numbered (db : AccountingDb) : Prop where
  le : ∀ e ∈ db.acentries, e.nEntryNo ≤ db.nAccountingEntryNumber
  room : db.nAccountingEntryNumber.toNat + 2 < 2 ^ 64

end AccountingDb

/-! ## 3. Sums of entries -/

/-- The entries of a kind, and the others. -/
theorem sum_filter_add (p : CAccountingEntry → Bool) (l : List CAccountingEntry) :
    ((l.filter p).map (·.nCreditDebit)).sum + ((l.filter fun e => !p e).map (·.nCreditDebit)).sum =
      (l.map (·.nCreditDebit)).sum := by
  induction l with
  | nil => rfl
  | cons e l ih =>
    cases hp : p e with
    | true =>
      rw [List.filter_cons_of_pos hp, List.filter_cons_of_neg (by simp [hp]), List.map_cons,
        List.map_cons, List.sum_cons, List.sum_cons, Int64.add_assoc, ih]
    | false =>
      rw [List.filter_cons_of_neg (by simp [hp]), List.filter_cons_of_pos (by simp [hp]),
        List.map_cons, List.map_cons, List.sum_cons, List.sum_cons, Int64.add_comm e.nCreditDebit,
        ← Int64.add_assoc, ih, Int64.add_comm]

/-- What is listed of the entries of a kind, and of the others. -/
theorem getAccountCreditDebit_filter (p : CAccountingEntry → Bool) (strAccount : String)
    (l : List CAccountingEntry) :
    getAccountCreditDebit strAccount (l.filter p) +
      getAccountCreditDebit strAccount (l.filter fun e => !p e) =
        getAccountCreditDebit strAccount l := by
  have h := sum_filter_add p (listAccountCreditDebit strAccount l)
  unfold listAccountCreditDebit at h
  rw [List.filter_comm, List.filter_comm (fun e => !p e)] at h
  exact h

theorem getAccountCreditDebit_append (strAccount : String) (l : List CAccountingEntry)
    (e : CAccountingEntry) :
    getAccountCreditDebit strAccount (l ++ [e]) =
      getAccountCreditDebit strAccount l + if e.listed strAccount then e.nCreditDebit else 0 := by
  unfold getAccountCreditDebit listAccountCreditDebit
  rw [List.filter_append, List.map_append, List.sum_append]
  cases h : e.listed strAccount <;> simp [h]

namespace AccountingDb

variable {db : AccountingDb}

/-- **An entry is written beside the others.** -/
theorem acentries_write (h : db.nAccountingEntryNumber.toNat + 1 < 2 ^ 64)
    (hle : ∀ e ∈ db.acentries, e.nEntryNo ≤ db.nAccountingEntryNumber) (e : CAccountingEntry) :
    (db.writeAccountingEntry e).acentries =
      db.acentries ++ [{ e with nEntryNo := db.nAccountingEntryNumber + 1 }] := by
  have hall : ∀ a ∈ db.acentries, (a.strAccount != e.strAccount ||
      a.nEntryNo != db.nAccountingEntryNumber + 1) = true := by
    intro a ha
    have hlt := UInt64.le_iff_toNat_le.mp (hle a ha)
    have hne : a.nEntryNo ≠ db.nAccountingEntryNumber + 1 := by
      intro heq
      have hnext := congrArg UInt64.toNat heq
      rw [UInt64.toNat_add, UInt64.toNat_one, Nat.mod_eq_of_lt h] at hnext
      omega
    rw [Bool.or_eq_true, bne_iff_ne, bne_iff_ne]
    exact Or.inr hne
  exact congrArg (· ++ [_]) (List.filter_eq_self.mpr hall)

/-- What is listed after an entry was written. -/
theorem getAccountCreditDebit_write (h : db.Numbered) (e : CAccountingEntry) (strAccount : String) :
    getAccountCreditDebit strAccount (db.writeAccountingEntry e).acentries =
      getAccountCreditDebit strAccount db.acentries +
        if e.listed strAccount then e.nCreditDebit else 0 := by
  have hroom := h.room
  rw [acentries_write (by omega) h.le, getAccountCreditDebit_append]
  rfl

/-- What is listed after a transfer. -/
theorem getAccountCreditDebit_movecmd (h : db.Numbered) (strFrom strTo : String) (nAmount : Int64)
    (nColor : Int32) (nNow : Int64) {strAccount : String} (hall : strAccount ≠ "*") :
    getAccountCreditDebit strAccount (db.movecmd strFrom strTo nAmount nColor nNow).acentries =
      getAccountCreditDebit strAccount db.acentries +
        ((if strAccount = strFrom then -nAmount else 0) +
          if strAccount = strTo then nAmount else 0) := by
  have hroom := h.room
  have hlisted : ∀ e : CAccountingEntry, e.listed strAccount = (strAccount == e.strAccount) := by
    intro e
    rw [CAccountingEntry.listed, beq_eq_false_iff_ne.mpr hall, Bool.false_or, Bool.beq_comm]
  have hfirst : (db.nAccountingEntryNumber + 1).toNat = db.nAccountingEntryNumber.toNat + 1 := by
    rw [UInt64.toNat_add, UInt64.toNat_one, Nat.mod_eq_of_lt (by omega)]
  have hsecond : ∀ a ∈ (db.writeAccountingEntry ⟨strFrom, -nAmount, nColor, nNow, 0⟩).acentries,
      a.nEntryNo ≤ db.nAccountingEntryNumber + 1 := by
    intro a ha
    rw [acentries_write (by omega) h.le] at ha
    rcases List.mem_append.mp ha with hmem | hlast
    · have hle := UInt64.le_iff_toNat_le.mp (h.le a hmem)
      rw [UInt64.le_iff_toNat_le, hfirst]
      omega
    · rw [List.mem_singleton.mp hlast]
      exact UInt64.le_refl _
  have hnumber : (db.writeAccountingEntry ⟨strFrom, -nAmount, nColor, nNow, 0⟩
      ).nAccountingEntryNumber = db.nAccountingEntryNumber + 1 := rfl
  unfold movecmd
  rw [acentries_write (by rw [hnumber, hfirst]; omega) hsecond, getAccountCreditDebit_append,
    getAccountCreditDebit_write h, Int64.add_assoc, hlisted, hlisted]
  simp only [beq_iff_eq]

end AccountingDb

/-! ## 4. All the accounts -/

section Accounts

variable (K : Crypto) (B : Book) (acentries : List CAccountingEntry) (nMinDepth : Int)
  (nColor : Int32)

/-- The sum of the balances of the accounts. -/
def balancesOf : List String → Run Int64
  | [] => .ok 0
  | strAccount :: accounts => do
    let nBalance ← getAccountBalance K B acentries strAccount nMinDepth nColor
    let nRest ← balancesOf accounts
    return nBalance + nRest

variable {K B acentries nMinDepth nColor}

variable {accounts : List String}

/-- **What is added to each balance is added to the sum.** -/
theorem balancesOf_shift {acentries' : List CAccountingEntry} {δ : String → Int64}
    (h : ∀ strAccount ∈ accounts,
      getAccountCreditDebit strAccount acentries' =
        getAccountCreditDebit strAccount acentries + δ strAccount) :
    balancesOf K B acentries' nMinDepth nColor accounts = do
      let nSum ← balancesOf K B acentries nMinDepth nColor accounts
      return nSum + (accounts.map δ).sum := by
  induction accounts with
  | nil => rfl
  | cons strAccount accounts ih =>
    obtain ⟨hone, hrest⟩ := List.forall_mem_cons.mp h
    rw [balancesOf, balancesOf, ih hrest, getAccountBalance, getAccountBalance, hone]
    cases B.tally K strAccount nMinDepth nColor with
    | error e => rfl
    | ok n =>
      cases balancesOf K B acentries nMinDepth nColor accounts with
      | error e => rfl
      | ok m =>
        have hcomm : n + (getAccountCreditDebit strAccount acentries + δ strAccount) +
            (m + (accounts.map δ).sum) = n + getAccountCreditDebit strAccount acentries + m +
              (δ strAccount + (accounts.map δ).sum) := by ac_rfl
        rw [List.map_cons, List.sum_cons]
        exact congrArg Except.ok hcomm

/-- What two accounts have, one of them less and the other more. -/
theorem sum_transfer (hnodup : accounts.Nodup) (strFrom strTo : String) (nAmount : Int64) :
    (accounts.map fun a => (if a = strFrom then -nAmount else 0) +
      if a = strTo then nAmount else 0).sum =
        (if strFrom ∈ accounts then -nAmount else 0) +
          if strTo ∈ accounts then nAmount else 0 := by
  induction accounts with
  | nil => simp
  | cons a accounts ih =>
    obtain ⟨ha, hrest⟩ := List.nodup_cons.mp hnodup
    have hout : ∀ {x : String} {n : Int64}, (if x ∈ a :: accounts then n else 0) =
        (if a = x then n else 0) + if x ∈ accounts then n else 0 := by
      intro x n
      by_cases hx : a = x
      · subst hx
        rw [if_pos List.mem_cons_self, if_pos rfl, if_neg ha, Int64.add_zero]
      · simp [hx, Ne.symm hx]
    rw [List.map_cons, List.sum_cons, ih hrest, hout, hout]
    ac_rfl

end Accounts

/-! ## 5. Outputs of other colours -/

section OtherColors

variable {K : Crypto} {B : Book} {nColor : Int32}

/-- The output with another amount, unless it is of the colour. -/
def repay (nColor : Int32) (txout : CTxOut) (nValue : Int64) : CTxOut :=
  if txout.nColor = nColor then txout else { txout with nValue }

/-- The transaction with other amounts in the other colours. -/
def repayTx (nColor : Int32) (nValues : Nat → Int64) (tx : CTransaction) : CTransaction :=
  { tx with vout := tx.vout.mapIdx fun i txout => repay nColor txout (nValues i) }

/-- The wallet with other amounts in the other colours. -/
def Book.repaid (B : Book) (nColor : Int32) (nValues : UInt256 → Nat → Int64) : Book :=
  { B with
    wallet := { B.wallet with
      mapWallet := B.wallet.mapWallet.mapVals fun hash wtx =>
        { wtx with tx := repayTx nColor (nValues hash) wtx.tx } } }

@[simp] theorem scriptPubKey_repay (txout : CTxOut) (n : Int64) :
    (repay nColor txout n).scriptPubKey = txout.scriptPubKey := by
  unfold repay
  split_ifs <;> rfl

@[simp] theorem nColor_repay (txout : CTxOut) (n : Int64) :
    (repay nColor txout n).nColor = txout.nColor := by
  unfold repay
  split_ifs <;> rfl

theorem repay_of_eq {txout : CTxOut} (h : txout.nColor = nColor) (n : Int64) :
    repay nColor txout n = txout := if_pos h

theorem filter_repay (nValues : Nat → Int64) (l : List CTxOut) :
    (l.mapIdx fun i txout => repay nColor txout (nValues i)).filter (Book.isTallied nColor) =
      l.filter (Book.isTallied nColor) := by
  induction l generalizing nValues with
  | nil => rfl
  | cons txout l ih =>
    rw [List.mapIdx_cons, List.filter_cons, List.filter_cons, ih fun i => nValues (i + 1)]
    by_cases hcolor : txout.nColor = nColor
    · rw [repay_of_eq hcolor]
    · have hnot : ∀ n, Book.isTallied nColor (repay nColor txout n) = false := by
        intro n
        simp [Book.isTallied, hcolor]
      have hself : Book.isTallied nColor txout = false := by simp [Book.isTallied, hcolor]
      rw [hnot, hself]
      rfl

theorem valueOutLoop_repay {c : Color} (nValues : Nat → Int64) (l : List CTxOut) (acc : Int64) :
    valueOutLoop c (l.mapIdx fun i txout => repay c.toInt32 txout (nValues i)) acc =
      valueOutLoop c l acc := by
  induction l generalizing nValues acc with
  | nil => rfl
  | cons txout l ih =>
    rw [List.mapIdx_cons, valueOutLoop, valueOutLoop]
    by_cases hcolor : txout.nColor = c.toInt32
    · rw [repay_of_eq hcolor, ih fun i => nValues (i + 1), ih fun i => nValues (i + 1)]
    · rw [if_pos (by rwa [nColor_repay]), if_pos hcolor]
      exact ih (fun i => nValues (i + 1)) acc

theorem isCoinBase_repayTx (nValues : Nat → Int64) (tx : CTransaction) :
    (repayTx nColor nValues tx).isCoinBase = tx.isCoinBase := by
  have hempty : (repayTx nColor nValues tx).vout.isEmpty = tx.vout.isEmpty := by
    rw [Bool.eq_iff_iff, List.isEmpty_iff, List.isEmpty_iff]
    exact List.mapIdx_eq_nil_iff
  unfold CTransaction.isCoinBase
  rw [hempty]
  rfl

theorem getValueOut_repayTx (nValues : Nat → Int64) (tx : CTransaction) :
    (repayTx nColor nValues tx).getValueOut nColor = tx.getValueOut nColor := by
  unfold CTransaction.getValueOut
  rw [isCoinBase_repayTx]
  split_ifs
  · rfl
  · rfl
  · cases hcolor : tableIndex nColor with
    | error e => rfl
    | ok c =>
      rw [tableIndex_eq_ok] at hcolor
      subst hcolor
      exact valueOutLoop_repay nValues tx.vout 0

/-- What an input takes of the colour stays. -/
theorem debit_repaid (nValues : UInt256 → Nat → Int64) (txin : CTxIn) :
    (B.repaid nColor nValues).wallet.debit nColor txin = B.wallet.debit nColor txin := by
  have hfind : (B.repaid nColor nValues).wallet.mapWallet.find txin.prevout.hash =
      (B.wallet.mapWallet.find txin.prevout.hash).map fun wtx =>
        { wtx with tx := repayTx nColor (nValues txin.prevout.hash) wtx.tx } :=
    KeyedList.find_mapVals _ _ _
  have hmine : (B.repaid nColor nValues).wallet.isMine = B.wallet.isMine := rfl
  unfold CWallet.debit CWallet.getDebit
  rw [hfind, hmine]
  cases B.wallet.mapWallet.find txin.prevout.hash with
  | none => rfl
  | some prev =>
    simp only [Option.map_some, repayTx, List.getElem?_mapIdx]
    cases prev.tx.vout[txin.prevout.n.toNat]? with
    | none => rfl
    | some txout =>
      simp only [Option.map_some, scriptPubKey_repay]
      by_cases hcolor : txout.nColor = nColor
      · rw [repay_of_eq hcolor]
      · by_cases hsigns : B.wallet.isMine txout.scriptPubKey &&& isMineSignable ≠ 0
        · have hcolor' := (@nColor_repay nColor txout
            (nValues txin.prevout.hash txin.prevout.n.toNat)).trans_ne hcolor
          simp only [if_pos hsigns, if_neg fun h : _ ∧ _ => hcolor h.2,
            if_neg fun h : _ ∧ _ => hcolor' h.2]
        · rw [if_neg hsigns, if_neg hsigns]

variable {nValues : UInt256 → Nat → Int64} {hash : UInt256} {tx : CTransaction}
  {strAccount : String}

/-- What a transaction takes of the colour stays. -/
theorem getDebit_repaid {nDebit nDebit' : Int64} (h : B.getDebit tx nColor = .ok nDebit)
    (h' : (B.repaid nColor nValues).getDebit (repayTx nColor (nValues hash) tx) nColor =
      .ok nDebit') :
    nDebit' = nDebit := by
  unfold Book.getDebit at h h'
  by_cases hvin : tx.vin = []
  · have hvin' : (repayTx nColor (nValues hash) tx).vin = [] := hvin
    rw [if_pos hvin, Except.ok.injEq] at h
    rw [if_pos hvin', Except.ok.injEq] at h'
    rw [← h, ← h']
  · have hvin' : (repayTx nColor (nValues hash) tx).vin ≠ [] := hvin
    rw [if_neg hvin] at h
    rw [if_neg hvin'] at h'
    split_ifs at h h'
    obtain ⟨m, hm, h⟩ := bind_eq_ok.mp h
    obtain ⟨m', hm', h'⟩ := bind_eq_ok.mp h'
    rw [pure_eq_ok] at h h'
    have hget := (CWallet.foldlM_fillDebit hm).2 nColor
    have hget' := (CWallet.foldlM_fillDebit hm').2 nColor
    have hsum : (B.repaid nColor nValues).wallet.debit nColor = B.wallet.debit nColor :=
      funext (debit_repaid nValues)
    rw [hsum] at hget'
    rw [← h, ← h', hget, hget']
    rfl

/-- What an entry is for an account in the colour stays, where it is not stopped. -/
theorem getAccountAmounts_repaid {a a' : Int64 × Int64 × Int64}
    (h : B.getAccountAmounts K hash tx nColor strAccount = .ok a)
    (h' : (B.repaid nColor nValues).getAccountAmounts K hash (repayTx nColor (nValues hash) tx)
      nColor strAccount = .ok a') :
    a' = a := by
  obtain ⟨m, hm, h⟩ := bind_eq_ok.mp h
  obtain ⟨m', hm', h'⟩ := bind_eq_ok.mp h'
  have hsame : m' = m := by
    unfold Book.getAmounts at hm hm'
    split_ifs at hm hm' with hcolor
    obtain ⟨nDebit, hdebit, hm⟩ := bind_eq_ok.mp hm
    obtain ⟨nDebit', hdebit', hm'⟩ := bind_eq_ok.mp hm'
    obtain rfl := getDebit_repaid hdebit hdebit'
    obtain ⟨nFee, hfee, hm⟩ := bind_eq_ok.mp hm
    obtain ⟨nFee', hfee', hm'⟩ := bind_eq_ok.mp hm'
    have houts : (repayTx nColor (nValues hash) tx).vout.filter (Book.isTallied nColor) =
        tx.vout.filter (Book.isTallied nColor) := filter_repay (nValues hash) tx.vout
    unfold Book.feeOf at hfee hfee'
    rw [getValueOut_repayTx, hfee, Except.ok.injEq] at hfee'
    subst hfee'
    rw [houts] at hm'
    exact Except.ok.inj (hm'.symm.trans hm)
  subst hsame
  exact Except.ok.inj (h'.symm.trans h)

/-- One transaction of the tally. -/
theorem tallyTx_repaid {nMinDepth : Int} {e : UInt256 × CMerkleTx} {n m m' : Int64}
    (hm : B.tallyTx K strAccount nMinDepth nColor n e = .ok m)
    (hm' : (B.repaid nColor nValues).tallyTx K strAccount nMinDepth nColor n
      (e.1, { e.2 with tx := repayTx nColor (nValues e.1) e.2.tx }) = .ok m') :
    m' = m := by
  have hdepth : (B.repaid nColor nValues).nDepth = B.nDepth := rfl
  have hmaturity : (B.repaid nColor nValues).nBlocksToMaturity = B.nBlocksToMaturity := rfl
  have hfinal : (B.repaid nColor nValues).isFinal = B.isFinal := rfl
  unfold Book.tallyTx at hm hm'
  rw [hdepth, hmaturity, hfinal] at hm'
  by_cases hout : B.isFinal e.1 = false ∨ B.nDepth e.1 < 0
  · rw [if_pos hout, Except.ok.injEq] at hm hm'
    exact hm'.symm.trans hm
  · rw [if_neg hout] at hm hm'
    obtain ⟨a, ha, hm⟩ := bind_eq_ok.mp hm
    obtain ⟨a', ha', hm'⟩ := bind_eq_ok.mp hm'
    obtain rfl := getAccountAmounts_repaid ha ha'
    exact Except.ok.inj (hm'.symm.trans hm)

/-- **The tally is of amounts of its colour alone.** -/
theorem tally_repaid {nMinDepth : Int} {nBalance nBalance' : Int64}
    (h : B.tally K strAccount nMinDepth nColor = .ok nBalance)
    (h' : (B.repaid nColor nValues).tally K strAccount nMinDepth nColor = .ok nBalance') :
    nBalance' = nBalance := by
  have hrun : ∀ (l : List (UInt256 × CMerkleTx)) (n m m' : Int64),
      l.foldlM (B.tallyTx K strAccount nMinDepth nColor) n = .ok m →
      (l.map fun e => (e.1, { e.2 with tx := repayTx nColor (nValues e.1) e.2.tx })).foldlM
        ((B.repaid nColor nValues).tallyTx K strAccount nMinDepth nColor) n = .ok m' → m' = m := by
    intro l
    induction l with
    | nil =>
      intro n m m' hm hm'
      rw [List.foldlM_nil, pure_eq_ok] at hm
      rw [List.map_nil, List.foldlM_nil, pure_eq_ok] at hm'
      exact hm'.symm.trans hm
    | cons e l ih =>
      intro n m m' hm hm'
      rw [List.foldlM_cons] at hm
      rw [List.map_cons, List.foldlM_cons] at hm'
      obtain ⟨n₁, hone, hm⟩ := bind_eq_ok.mp hm
      obtain ⟨n₁', hone', hm'⟩ := bind_eq_ok.mp hm'
      obtain rfl := tallyTx_repaid hone hone'
      exact ih n₁' m m' hm hm'
  exact hrun _ _ _ _ h h'

end OtherColors

/-! ## 6. The balance -/

/-- **`GetAccountBalance` is of a colour** as long as what the account's entries in other colours
add up to is nothing; the amounts of other colours that the wallet's transactions pay do not
matter, and a transfer does not change the sum over the accounts. -/
theorem getAccountBalance_iff {K : Crypto} {B : Book} {db : AccountingDb} (hnumbered : db.Numbered)
    {strAccount : String} {nMinDepth : Int} {nColor : Int32} {nTally : Int64}
    (h : B.tally K strAccount nMinDepth nColor = .ok nTally) :
    (getAccountBalance K B db.acentries strAccount nMinDepth nColor =
        getAccountBalance K B (db.acentries.filter fun e => e.nColor == nColor) strAccount nMinDepth
          nColor ↔
      getAccountCreditDebit strAccount (db.acentries.filter fun e => !(e.nColor == nColor)) = 0) ∧
    (∀ e : CAccountingEntry, getAccountBalance K B (db.writeAccountingEntry e).acentries strAccount
        nMinDepth nColor = getAccountBalance K B db.acentries strAccount nMinDepth nColor ↔
      (e.listed strAccount = true → e.nCreditDebit = 0)) ∧
    (∀ nValues nTally',
      (B.repaid nColor nValues).tally K strAccount nMinDepth nColor = .ok nTally' →
        nTally' = nTally) ∧
    ∀ strFrom strTo nAmount nColor' nNow, ∀ accounts : List String, accounts.Nodup →
      "*" ∉ accounts → strFrom ∈ accounts → strTo ∈ accounts →
      balancesOf K B (db.movecmd strFrom strTo nAmount nColor' nNow).acentries nMinDepth nColor
        accounts = balancesOf K B db.acentries nMinDepth nColor accounts := by
  have hbalance : ∀ acentries, getAccountBalance K B acentries strAccount nMinDepth nColor =
      .ok (nTally + getAccountCreditDebit strAccount acentries) := by
    intro acentries
    rw [getAccountBalance, h]
    rfl
  refine ⟨?_, fun e => ?_, fun nValues nTally' => tally_repaid h, ?_⟩
  · have hsplit :=
      getAccountCreditDebit_filter (fun e => e.nColor == nColor) strAccount db.acentries
    rw [hbalance, hbalance, Except.ok.injEq, Int64.add_right_inj, ← hsplit]
    exact Int64.add_eq_left
  · rw [hbalance, hbalance, Except.ok.injEq, Int64.add_right_inj,
      AccountingDb.getAccountCreditDebit_write hnumbered, Int64.add_eq_left]
    cases e.listed strAccount <;> simp
  · intro strFrom strTo nAmount nColor' nNow accounts hnodup hall hfrom hto
    rw [balancesOf_shift fun strAccount hmem =>
      AccountingDb.getAccountCreditDebit_movecmd hnumbered strFrom strTo nAmount nColor' nNow
        (ne_of_mem_of_not_mem hmem hall), sum_transfer hnodup, if_pos hfrom, if_pos hto,
      Int64.add_left_neg]
    cases balancesOf K B db.acentries nMinDepth nColor accounts with
    | error e => rfl
    | ok n => exact congrArg Except.ok (Int64.add_zero n)

/-- Moved to Alice: five of one colour and seven of another. -/
def aliceEntries : List CAccountingEntry := [⟨"alice", 5, 1, 0, 1⟩, ⟨"alice", 7, 2, 0, 2⟩]

/-- A book without transactions. -/
def emptyBook : Book where
  wallet := ⟨false, fun _ => 0, ⟨[], List.nodup_nil⟩, BalanceMaps.clear⟩
  isFinal := fun _ => true
  nDepth := fun _ => 0
  nBlocksToMaturity := fun _ => 0
  strFromAccount := fun _ => ""
  isMineAddress := fun _ => 0
  mapAddressBook := fun _ => none

/-- They are all counted into the balance in the one. -/
theorem getAccountBalance_mixed :
    getAccountBalance forkCrypto emptyBook aliceEntries "alice" 1 1 = .ok 12 ∧
      getAccountBalance forkCrypto emptyBook (aliceEntries.filter fun e => e.nColor == 1) "alice" 1
        1 = .ok 5 := ⟨rfl, rfl⟩

/-- A script of Alice's. -/
def aliceScript : CScript := [0x76, 0xa9, 0x14] ++ List.replicate 20 7 ++ [0x88, 0xac]

/-- A transaction that pays it in two colours. -/
def alicePaid : CMerkleTx :=
  ⟨⟨1, 0, [⟨⟨5, 0⟩, [], 0⟩], [⟨100, 1, aliceScript⟩, ⟨50, 2, aliceScript⟩], 0, [], 0⟩, 0, [], none, false⟩

/-- The book with that transaction. -/
def aliceBook : Book :=
  { emptyBook with
    wallet := ⟨false, fun _ => isMineSpendable, ⟨[(9, alicePaid)], List.nodup_singleton _⟩,
      BalanceMaps.clear⟩
    nDepth := fun _ => 6
    mapAddressBook := fun dest =>
      if dest = some (.keyID (List.replicate 20 7)) then some "alice" else none }

/-- Moved to Alice in two colours, and all of the second moved on. -/
def movedOn : AccountingDb :=
  ⟨[⟨"alice", 5, 1, 0, 1⟩, ⟨"alice", 7, 2, 0, 2⟩, ⟨"alice", -7, 2, 0, 3⟩, ⟨"bob", 7, 2, 0, 4⟩], 4⟩

/-- Alice's balance is right in the first colour, and what is moved in the second is not lost. -/
theorem getAccountBalance_moved :
    getAccountBalance forkCrypto aliceBook movedOn.acentries "alice" 1 1 = .ok 105 ∧
      getAccountBalance forkCrypto aliceBook movedOn.acentries "alice" 1 1 =
        getAccountBalance forkCrypto aliceBook
          (movedOn.acentries.filter fun e => e.nColor == 1) "alice" 1 1 ∧
      balancesOf forkCrypto aliceBook (movedOn.movecmd "bob" "alice" 2 2 0).acentries 1 1
          ["alice", "bob"] =
        balancesOf forkCrypto aliceBook movedOn.acentries 1 1 ["alice", "bob"] := by
  have hnumbered : movedOn.Numbered := ⟨by decide, by decide⟩
  have hall := @getAccountBalance_iff forkCrypto aliceBook _ hnumbered "alice" 1 1 100 (by rfl)
  exact ⟨by rfl, hall.1.mpr (by decide), hall.2.2.2 "bob" "alice" 2 2 0 ["alice", "bob"] (by decide)
    (by decide) (by decide) (by decide)⟩

end Accounting

end Breakout
