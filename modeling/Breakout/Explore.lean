/-
# The explorer's index

With `-exploreapi` a node keeps a second database next to the transaction index: for every pair of
an address and a colour the outputs paid to it, the inputs that spent them, both in the order they
came (the in-outs) and by transaction (the virtual in-outs), and three totals; per colour and
balance the set of addresses with that balance (the rich list); and every transaction.  Records of
one kind are numbered from one, and a counter record has the number of the last.

`ExploreConnectBlock` queues the changes of a block in a batch that is committed at its end or
thrown away; reads see the batch, so a batch is a copy of the database here.  Three things are as
in the source and matter later:

* `ExploreConnectTx` ignores what the routines for its inputs and outputs return, and a routine
  that stops half-way leaves what it wrote in the batch;
* `mapAddressBalances`, the number of addresses by balance, is a global in memory, and is changed
  after every transaction and not with the batch;
* a counter that is read but was never written is zero (`ReadRecord` fails only on a record that
  does not parse), and disconnecting leaves zeros where there was nothing.

Reads and writes of the database itself do not fail, so the texts for these failures are left out.
-/
import Breakout.Inputs
import Breakout.Lib.Txn
import Breakout.Lib.Numbered

namespace Breakout

open Lib

/-! ## 1. Destinations -/

/-- `CTxDestination`, as far as a script can name one. -/
inductive CTxDestination where
  | keyID (id : List UInt8)
  | scriptID (id : List UInt8)
deriving DecidableEq, Repr

def getLen (chHeader : UInt8) : Nat :=
  if chHeader = 2 ∨ chHeader = 3 then 33
  else if chHeader = 4 ∨ chHeader = 6 ∨ chHeader = 7 then 65
  else 0

/-- `CPubKey::IsValid`, of a key made from these bytes. -/
def pubKeyIsValid (vch : Valtype) : Bool :=
  match vch with
  | [] => false
  | header :: _ => decide (getLen header ≠ 0 ∧ getLen header = vch.length)

variable (K : Crypto)

def extractDestination (scriptPubKey : CScript) : Option CTxDestination :=
  match solver scriptPubKey with
  | (true, .pubkey, pubKey :: _) =>
    if pubKeyIsValid pubKey then some (.keyID (hash160 K pubKey)) else none
  | (true, .pubkeyhash, id :: _) => some (.keyID id)
  | (true, .scripthash, id :: _) => some (.scriptID id)
  | _ => none

/-- `ExtractDestinations`: the type, the destinations and how many signatures are required. -/
def extractDestinations (scriptPubKey : CScript) :
    Option (TxnOutType × List CTxDestination × Int) :=
  match solver scriptPubKey with
  | (false, _, _) => none
  | (true, .nullData, _) => none
  | (true, .multisig, vSolutions) =>
    let keys := (vSolutions.tail.dropLast.filter pubKeyIsValid).map fun pubKey =>
      CTxDestination.keyID (hash160 K pubKey)
    if keys = [] then none
    else some (.multisig, keys, ((vSolutions.head?.bind List.head?).getD 0).toNat)
  | (true, type, _) => (extractDestination K scriptPubKey).map fun dest => (type, [dest], 1)

/-- What the explorer is started with: how an address is written in a colour
(`CBitcoinAddress::ToString`), and whether it runs its extra checks. -/
structure Explorer where
  toString : CTxDestination → Int32 → String
  fDebugExplore : Bool

variable (X : Explorer)

/-- An address and a colour: the unit the records are kept for. -/
abbrev AddrKey := String × Int32

/-- What the four routines below find in a script. -/
inductive Payee where
  | insoluble
  | bad
  | other
  | address (key : AddrKey)
deriving DecidableEq

/-- The `Solver` and `switch` at the head of the routines. -/
def payee (txOut : CTxOut) : Payee :=
  match solver txOut.scriptPubKey with
  | (false, _, _) => .insoluble
  | (true, type, _) =>
    if type = .pubkey ∨ type = .pubkeyhash ∨ type = .scripthash then
      match extractDestination K txOut.scriptPubKey with
      | none => .bad
      | some dest => .address (X.toString dest txOut.nColor, txOut.nColor)
    else .other

/-! ## 2. Records -/

structure ExploreInput where
  txid : UInt256
  vin : UInt32
  prev_txid : UInt256
  prev_vout : UInt32
  color : Int32
  amount : Int64
  balance : Int64
deriving DecidableEq

/-- `ExploreInput::SetNull` -/
def ExploreInput.null : ExploreInput := ⟨0, 0, 0, 0, 0, 0, 0⟩

structure ExploreOutput where
  txid : UInt256
  vout : UInt32
  next_txid : UInt256
  next_vin : UInt32
  color : Int32
  amount : Int64
  balance : Int64
deriving DecidableEq

namespace ExploreOutput

/-- `ExploreOutput::SetNull` -/
def null : ExploreOutput := ⟨0, 0, 0, 0, 0, -1, 0⟩

/-- The output the record is of. -/
def outpoint (o : ExploreOutput) : COutPoint := ⟨o.txid, o.vout⟩

def isSpent (o : ExploreOutput) : Bool := decide (o.next_txid ≠ 0)

def spend (next_txid : UInt256) (next_vin : UInt32) (o : ExploreOutput) : ExploreOutput :=
  if o.isSpent then o else { o with next_txid := next_txid, next_vin := next_vin }

def unspend (o : ExploreOutput) : ExploreOutput :=
  if o.isSpent then { o with next_txid := 0, next_vin := 0 } else o

end ExploreOutput

def flagAddrTx : Int32 := 0x40000000

structure ExploreInOutLookup where
  nData : Int32
deriving DecidableEq

namespace ExploreInOutLookup

/-- `ExploreInOutLookup::SetNull` -/
def null : ExploreInOutLookup := ⟨-1⟩

/-- `ExploreInOutLookup(nIndexIn, fIsInputIn)` -/
def of (nIndex : Int) (fIsInput : Bool) : ExploreInOutLookup :=
  ⟨if fIsInput then Int32.ofInt nIndex ||| flagAddrTx else Int32.ofInt nIndex⟩

def getID (l : ExploreInOutLookup) : Int := (l.nData &&& ~~~flagAddrTx).toInt

def isInput (l : ExploreInOutLookup) : Bool := decide (l.nData &&& flagAddrTx = flagAddrTx)

def isOutput (l : ExploreInOutLookup) : Bool := decide (l.nData &&& flagAddrTx = 0)

end ExploreInOutLookup

structure ExploreInOutList where
  height : Int
  vtx : Int
  vinouts : List ExploreInOutLookup
deriving DecidableEq

/-- `ExploreInOutList::SetNull` -/
def ExploreInOutList.null : ExploreInOutList := ⟨-1, -1, []⟩

structure ExploreDestination where
  addresses : List String
  required : Int
  color : Int32
  amount : Int64
  type : TxnOutType
deriving DecidableEq

structure ExploreTx where
  blockhash : UInt256
  blocktime : UInt32
  height : Int
  vtx : Int
  vfrom : List ExploreDestination
  vto : List ExploreDestination
  txflags : Int
deriving DecidableEq

/-- The records of one address in one colour. -/
structure AddrRecords where
  qtyInput : Option Int
  qtyOutput : Option Int
  qtyInOut : Option Int
  qtyVio : Option Int
  txInput : Int → Option ExploreInput
  txOutput : Int → Option ExploreOutput
  txInOut : Int → Option ExploreInOutLookup
  listVio : Int → Option ExploreInOutList
  lookupOutput : COutPoint → Option Int
  balance : Option Int64
  valueIn : Option Int64
  valueOut : Option Int64

/-- No records. -/
def AddrRecords.empty : AddrRecords where
  qtyInput := none
  qtyOutput := none
  qtyInOut := none
  qtyVio := none
  txInput _ := none
  txOutput _ := none
  txInOut _ := none
  listVio _ := none
  lookupOutput _ := none
  balance := none
  valueIn := none
  valueOut := none

/-- A colour and a balance: the key of a set of addresses. -/
abbrev BalanceKey := Int32 × Int64

/-- `CExploreDB` -/
structure ExploreDB where
  addr : AddrKey → AddrRecords
  addrSet : BalanceKey → Option (Finset String)
  exploreTx : UInt256 → Option ExploreTx
  exploreBest : Option (UInt256 × Int)
  sentinel : Option Int

/-- What `CExploreDB::ClearAll` leaves. -/
def ExploreDB.clear : ExploreDB := ⟨fun _ => .empty, fun _ => none, fun _ => none, none, none⟩

abbrev MapColorBalances := BalanceKey → Option Nat

/-- The database in the batch, with the changes to the balances the transaction has gathered. -/
structure ExploreWork where
  db : ExploreDB
  mapAddressBalancesAdd : MapColorBalances
  setAddressBalancesRemove : BalanceKey → Bool

namespace ExploreWork

/-- A routine on the records of one address. -/
def onAddr {α : Type} (key : AddrKey) (x : Txn AddrRecords α) : Txn ExploreWork α :=
  Txn.on (fun w => w.db.addr key)
    (fun r w => { w with db := { w.db with addr := Function.update w.db.addr key r } }) x

/-- A set of addresses written back, and its size noted. -/
def putSet (b : BalanceKey) (setAddr : Finset String) (w : ExploreWork) : ExploreWork where
  db := { w.db with addrSet := Function.update w.db.addrSet b (some setAddr) }
  mapAddressBalancesAdd := Function.update w.mapAddressBalancesAdd b (some setAddr.card)
  setAddressBalancesRemove := Function.update w.setAddressBalancesRemove b false

/-- A set of addresses removed, and the removal noted. -/
def dropSet (b : BalanceKey) (w : ExploreWork) : ExploreWork where
  db := { w.db with addrSet := Function.update w.db.addrSet b none }
  mapAddressBalancesAdd := Function.update w.mapAddressBalancesAdd b none
  setAddressBalancesRemove := Function.update w.setAddressBalancesRemove b true

end ExploreWork

/-! ## 3. The parts the routines share -/

open Txn

/-- `ExploreMaxDust`.  Outputs are checked to have a colour of the tables. -/
def exploreMaxDust (nColor : Int32) : Int64 :=
  match tableIndex nColor with
  | .ok c => cent c
  | .error _ => 0

/-- The transaction of the input or output an in-out lists, as its record has it. -/
def AddrRecords.listedTxid (r : AddrRecords) (l : ExploreInOutLookup) : UInt256 :=
  if l.isInput then ((r.txInput l.getID).getD .null).txid
  else ((r.txOutput l.getID).getD .null).txid

/-- "determines whether the list for this address-tx pair exists": the loop over the last virtual
in-out, with the number the new entry's list gets.  Without `-debugexplore` it looks at one
entry. -/
def scanVio (fn what : String) (r : AddrRecords) (txid : UInt256) (newInOut : ExploreInOutLookup) :
    List ExploreInOutLookup → UInt256 → Int → Except String Int
  | [], _, nQtyVio => .ok nQtyVio
  | otherInOut :: rest, txidStored, nQtyVio =>
    if otherInOut = newInOut then .error (fn ++ "() : TSNH " ++ what ++ " already listed")
    else
      let txidOther := r.listedTxid otherInOut
      if txidStored = 0 then
        let nQtyVio' := if txidOther ≠ txid then nQtyVio + 1 else nQtyVio
        if X.fDebugExplore then scanVio fn what r txid newInOut rest txidOther nQtyVio'
        else .ok nQtyVio'
      else if txidOther ≠ txidStored then .error (fn ++ "() : in-out from different tx")
      else scanVio fn what r txid newInOut rest txidStored nQtyVio

/-- "add the in-out" and "add the in-out to the iolist". -/
def addInOut (fn what : String) (nHeight nVtx : Int) (txid : UInt256)
    (newInOut : ExploreInOutLookup) : Txn AddrRecords Unit := do
  let nQtyInOuts ← read fun r => r.qtyInOut.getD 0
  stopIf (nQtyInOuts < 0) (fn ++ "() : TSNH negative in-outs")
  let viable ← read fun r => (r.txInOut (nQtyInOuts + 1)).isSome
  stopIf (viable = true) (fn ++ "() : TSNH " ++ what ++ " in-out tx exists")
  write fun r => { r with
    qtyInOut := some (nQtyInOuts + 1)
    txInOut := Function.update r.txInOut (nQtyInOuts + 1) (some newInOut) }
  let nQtyVioStored ← read fun r => r.qtyVio.getD 0
  stopIf (nQtyVioStored < 0) (fn ++ "() : TSNH negative txs")
  let iolist ← read fun r =>
    if nQtyVioStored = 0 then ⟨nHeight, nVtx, []⟩ else (r.listVio nQtyVioStored).getD .null
  stopIf (newInOut.nData < 0) (fn ++ "() : TSNH inout data negative")
  let scan ← read fun r => scanVio X fn what r txid newInOut iolist.vinouts 0
    (if nQtyVioStored = 0 then 1 else nQtyVioStored)
  match scan with
  | .error msg => stopIf True msg
  | .ok nQtyVio =>
    stopIf (nQtyVio > nQtyVioStored + 1) (fn ++ "() : TSNH qty vios overincrement")
    write fun r =>
      if nQtyVio = nQtyVioStored + 1 then
        { r with
          qtyVio := some nQtyVio
          listVio := Function.update r.listVio nQtyVio (some ⟨nHeight, nVtx, [newInOut]⟩) }
      else
        { r with
          listVio := Function.update r.listVio nQtyVio
            (some { iolist with vinouts := iolist.vinouts ++ [newInOut] }) }

/-- "remove the in-out" and "remove the in-out from the iolist"; `nQtyStored` is the number of the
input or output that goes. -/
def removeInOut (fn : String) (fIsInput : Bool) (nQtyStored : Int) : Txn AddrRecords Unit := do
  let nQtyInOuts ← read fun r => r.qtyInOut.getD 0
  stopIf (nQtyInOuts < 1)
    (fn ++ if fIsInput then "() : TSNH no in-outs found" else "() : TSNH no in-outs")
  let storedInOut ← read fun r => (r.txInOut nQtyInOuts).getD .null
  stopIf (storedInOut.getID ≠ nQtyStored) (fn ++ "() : TSNH stored in-out doesn't match")
  stopIf ((if fIsInput then storedInOut.isOutput else storedInOut.isInput) = true)
    (fn ++ if fIsInput then "() : TSNH stored is an output" else "() : TSNH stored is an input")
  let viable ← read fun r => (r.txInOut nQtyInOuts).isSome
  stopIf (viable = false) (fn ++ "() : can't remove in-out")
  write fun r => { r with
    txInOut := Function.update r.txInOut nQtyInOuts none
    qtyInOut := some (nQtyInOuts - 1) }
  let nQtyVio ← read fun r => r.qtyVio.getD 0
  stopIf (nQtyVio = 0) (fn ++ "() : TSNH no txs")
  stopIf (nQtyVio < 0) (fn ++ "() : TSNH negative txs")
  let iolist ← read fun r => (r.listVio nQtyVio).getD .null
  stopIf (iolist.vinouts = []) (fn ++ "() : TSNH vio is empty")
  stopIf (iolist.vinouts.getLast? ≠ some storedInOut) (fn ++ "() : TSNH vio inconsistent")
  write fun r =>
    if iolist.vinouts.dropLast = [] then
      { r with listVio := Function.update r.listVio nQtyVio none, qtyVio := some (nQtyVio - 1) }
    else
      { r with
        listVio := Function.update r.listVio nQtyVio
          (some { iolist with vinouts := iolist.vinouts.dropLast }) }

/-- "remove from its old set" -/
def leaveSet (fn : String) (key : AddrKey) (nBalanceOld : Int64) : Txn ExploreWork Unit := do
  let setAddr ← read fun w => ((w.db.addrSet (key.2, nBalanceOld)).getD ∅).erase key.1
  let viable ← read fun w => (w.db.addrSet (key.2, nBalanceOld)).isSome
  stopIf (setAddr = ∅ ∧ viable = false) (fn ++ "() : can't remove addr set")
  write fun w =>
    if setAddr = ∅ then w.dropSet (key.2, nBalanceOld) else w.putSet (key.2, nBalanceOld) setAddr

/-- "add to new set if non-dust" -/
def joinSet (fn : String) (key : AddrKey) (nBalanceNew : Int64) : Txn ExploreWork Unit := do
  let setAddr ← read fun w => (w.db.addrSet (key.2, nBalanceNew)).getD ∅
  stopIf (key.1 ∈ setAddr) (fn ++ "() : TSNH address unexpectedly in set")
  write fun w => w.putSet (key.2, nBalanceNew) (insert key.1 setAddr)

/-- "update the balance sets", where the balance goes down: an address that was dust stays out. -/
def lowerBalanceSets (fn : String) (key : AddrKey) (nBalanceOld nBalanceNew : Int64) :
    Txn ExploreWork Unit :=
  when (decide (nBalanceOld > exploreMaxDust key.2)) do
    leaveSet fn key nBalanceOld
    when (decide (nBalanceNew > exploreMaxDust key.2)) (joinSet fn key nBalanceNew)

/-- "update the balance sets", where it goes up. -/
def raiseBalanceSets (fn : String) (key : AddrKey) (nBalanceOld nBalanceNew : Int64) :
    Txn ExploreWork Unit := do
  when (decide (nBalanceOld > exploreMaxDust key.2)) (leaveSet fn key nBalanceOld)
  when (decide (nBalanceNew > exploreMaxDust key.2)) (joinSet fn key nBalanceNew)

/-! ## 4. The routines for inputs and outputs -/

/-- The records of `ExploreConnectInput`, up to the balance sets; the balance before and after. -/
def connectInputRecords (nHeight nVtx : Int) (txid : UInt256) (n : UInt32) (prevout : COutPoint)
    (nColor : Int32) (nValue : Int64) (fEconomicEvents : Bool) :
    Txn AddrRecords (Int64 × Int64) := do
  let nOutputID ← read fun r => (r.lookupOutput prevout).getD (-1)
  stopIf (nOutputID < 1) "ExploreConnectInput(): TSNH invalid output ID"
  let storedOut ← read fun r => (r.txOutput nOutputID).getD .null
  stopIf (storedOut.txid ≠ prevout.hash) "ExploreConnectInput() : TSNH stored prev tx doesn't match"
  stopIf (storedOut.vout ≠ prevout.n) "ExploreConnectInput(): TSNH stored prev vout doesn't match"
  stopIf (storedOut.isSpent = true) "ExploreConnectInput(): TSNH stored prev output is spent"
  write fun r => { r with
    txOutput := Function.update r.txOutput nOutputID (some (storedOut.spend txid n)) }
  let nBalanceOld ← read fun r => r.balance.getD 0
  stopIf (nValue > nBalanceOld) "ExploreConnectInput() : TSNH prev output value exceeds balance"
  write fun r => { r with balance := some (nBalanceOld - nValue) }
  when fEconomicEvents do
    let nQtyInputs ← read fun r => r.qtyInput.getD 0
    stopIf (nQtyInputs < 0) "ExploreConnectInput() : TSNH negative inputs"
    let viable ← read fun r => (r.txInput (nQtyInputs + 1)).isSome
    stopIf (viable = true) "ExploreConnectInput() : TSNH input tx exists"
    write fun r => { r with
      qtyInput := some (nQtyInputs + 1)
      txInput := Function.update r.txInput (nQtyInputs + 1)
        (some ⟨txid, n, prevout.hash, prevout.n, nColor, nValue, nBalanceOld - nValue⟩) }
    addInOut X "ExploreConnectInput" "input" nHeight nVtx txid (.of (nQtyInputs + 1) true)
    write fun r => { r with valueOut := some (r.valueOut.getD 0 + nValue) }
  return (nBalanceOld, nBalanceOld - nValue)

/-- `ExploreConnectInput`, of an input with its previous output. -/
def exploreConnectInput (nHeight nVtx : Int) (txid : UInt256) (n : UInt32) (txIn : CTxIn)
    (txOut : CTxOut) (fEconomicEvents : Bool) : Txn ExploreWork Unit :=
  match payee K X txOut with
  | .insoluble => stopIf True "ExploreConnectInput() : TSNH input has insoluble script"
  | .bad => stopIf True "ExploreConnectInput() : TSNH scriptPubKey is bad"
  | .other => pure ()
  | .address key => do
    let balances ← ExploreWork.onAddr key (connectInputRecords X nHeight nVtx txid n txIn.prevout
      txOut.nColor txOut.nValue fEconomicEvents)
    lowerBalanceSets "ExploreConnectInput" key balances.1 balances.2

/-- The records of `ExploreConnectOutput`, up to the balance sets. -/
def connectOutputRecords (nHeight nVtx : Int) (txid : UInt256) (n : UInt32) (nColor : Int32)
    (nValue : Int64) (fEconomicEvents : Bool) : Txn AddrRecords (Int64 × Int64) := do
  let nBalanceOld ← read fun r => r.balance.getD 0
  write fun r => { r with balance := some (nBalanceOld + nValue) }
  let nQtyOutputs ← read fun r => r.qtyOutput.getD 0
  stopIf (nQtyOutputs < 0) "ExploreConnectOutput() : TSNH negative outputs"
  let viable ← read fun r => (r.txOutput (nQtyOutputs + 1)).isSome
  stopIf (viable = true) "ExploreConnectOutput() : TSNH output tx exists"
  write fun r => { r with
    qtyOutput := some (nQtyOutputs + 1)
    txOutput := Function.update r.txOutput (nQtyOutputs + 1)
      (some ⟨txid, n, 0, 0, nColor, nValue, nBalanceOld + nValue⟩) }
  let exists_ ← read fun r => (r.lookupOutput ⟨txid, n⟩).isSome
  stopIf (exists_ = true) "ExploreConnectOutput() : TSNH lookup exists"
  write fun r => { r with
    lookupOutput := Function.update r.lookupOutput ⟨txid, n⟩ (some (nQtyOutputs + 1)) }
  when fEconomicEvents do
    addInOut X "ExploreConnectOutput" "output" nHeight nVtx txid (.of (nQtyOutputs + 1) false)
    write fun r => { r with valueIn := some (r.valueIn.getD 0 + nValue) }
  return (nBalanceOld, nBalanceOld + nValue)

def exploreConnectOutput (nHeight nVtx : Int) (tx : CTransaction) (txid : UInt256) (n : Nat)
    (txOut : CTxOut) (fEconomicEvents : Bool) : Txn ExploreWork Unit :=
  if tx.isCoinStake = true ∧ n = 0 then pure ()
  else
    match payee K X txOut with
    | .insoluble => pure ()
    | .bad => stopIf True "ExploreConnectOutput() : TSNH scriptPubKey is bad"
    | .other => pure ()
    | .address key => do
      let balances ← ExploreWork.onAddr key (connectOutputRecords X nHeight nVtx txid
        (UInt32.ofNat n) txOut.nColor txOut.nValue fEconomicEvents)
      raiseBalanceSets "ExploreConnectOutput" key balances.1 balances.2

/-- The records of `ExploreDisconnectOutput`, up to the balance sets. -/
def disconnectOutputRecords (txid : UInt256) (n : UInt32) (nValue : Int64)
    (fEconomicEvents : Bool) : Txn AddrRecords (Int64 × Int64) := do
  let nOutputID ← read fun r => (r.lookupOutput ⟨txid, n⟩).getD (-1)
  stopIf (nOutputID < 1) "ExploreDisconnectOutput() : TSNH invalid output ID"
  write fun r => { r with lookupOutput := Function.update r.lookupOutput ⟨txid, n⟩ none }
  let nQtyOutStored ← read fun r => r.qtyOutput.getD 0
  stopIf (nQtyOutStored ≠ nOutputID) "ExploreDisconnectOutput() : TSNH output ID mismatch"
  let storedOut ← read fun r => (r.txOutput nOutputID).getD .null
  stopIf (storedOut.txid ≠ txid) "ExploreDisconnectOutput() : TSNH stored tx doesn't match"
  stopIf (storedOut.vout ≠ n) "ExploreDisconnectOutput() : TSNH stored vout doesn't match"
  stopIf (storedOut.isSpent = true) "ExploreDisconnectOutput() : TSNH stored output is spent"
  let viable ← read fun r => (r.txOutput nOutputID).isSome
  stopIf (viable = false) "ExploreDisconnectOutput() : can't remove output"
  write fun r => { r with
    txOutput := Function.update r.txOutput nOutputID none
    qtyOutput := some (nQtyOutStored - 1) }
  when fEconomicEvents (removeInOut "ExploreDisconnectOutput" false nQtyOutStored)
  let nBalanceOld ← read fun r => r.balance.getD 0
  stopIf (nValue > nBalanceOld) "ExploreDisconnectOutput() : TSNH output value exceeds balance"
  write fun r => { r with balance := some (nBalanceOld - nValue) }
  when fEconomicEvents do
    let nValueIn ← read fun r => r.valueIn.getD 0
    stopIf (nValue > nValueIn) "ExploreDisconnectOutput() : TSNH output value exceeds value in"
    write fun r => { r with valueIn := some (nValueIn - nValue) }
  return (nBalanceOld, nBalanceOld - nValue)

/-- `ExploreDisconnectOutput`.  The marker of a coinstake is not skipped by its number as above;
its script is empty and skipped as insoluble. -/
def exploreDisconnectOutput (txid : UInt256) (n : Nat) (txOut : CTxOut) (fEconomicEvents : Bool) :
    Txn ExploreWork Unit :=
  match payee K X txOut with
  | .insoluble => pure ()
  | .bad => stopIf True "ExploreDisconnectOutput() : TSNH scriptPubKey is bad"
  | .other => pure ()
  | .address key => do
    let balances ← ExploreWork.onAddr key (disconnectOutputRecords txid (UInt32.ofNat n)
      txOut.nValue fEconomicEvents)
    lowerBalanceSets "ExploreDisconnectOutput" key balances.1 balances.2

/-- The records of `ExploreDisconnectInput`, up to the balance sets. -/
def disconnectInputRecords (txid : UInt256) (n : UInt32) (prevout : COutPoint) (nValue : Int64)
    (fEconomicEvents : Bool) : Txn AddrRecords (Int64 × Int64) := do
  when fEconomicEvents do
    let nQtyInStored ← read fun r => r.qtyInput.getD 0
    stopIf (nQtyInStored < 1) "ExploreDisconnectInput() : TSNH no input found"
    let storedIn ← read fun r => (r.txInput nQtyInStored).getD .null
    stopIf (storedIn.txid ≠ txid) "ExploreDisconnectInput() : TSNH stored input tx doesn't match"
    stopIf (storedIn.vin ≠ n) "ExploreDisconnectInput() : TSNH stored input n doesn't match"
    let viable ← read fun r => (r.txInput nQtyInStored).isSome
    stopIf (viable = false) "ExploreDisconnectInput() : can't remove input"
    write fun r => { r with
      txInput := Function.update r.txInput nQtyInStored none
      qtyInput := some (nQtyInStored - 1) }
    removeInOut "ExploreDisconnectInput" true nQtyInStored
  let nOutputID ← read fun r => (r.lookupOutput prevout).getD (-1)
  stopIf (nOutputID < 1) "ExploreDisconnectInput() : invalid output ID"
  let storedOut ← read fun r => (r.txOutput nOutputID).getD .null
  stopIf (storedOut.txid ≠ prevout.hash)
    "ExploreDisconnectInput() : TSNH stored txid doesn't match"
  stopIf (storedOut.vout ≠ prevout.n) "ExploreDisconnectInput() : TSNH stored vout doesn't match"
  stopIf (storedOut.next_txid ≠ txid)
    "ExploreDisconnectInput() : TSNH stored next_txid doesn't match"
  stopIf (storedOut.next_vin ≠ n) "ExploreDisconnectInput() : TSNH stored next_vin doesn't match"
  stopIf (storedOut.isSpent = false)
    "ExploreDisconnectInput() : TSNH stored prev output is unspent"
  write fun r => { r with
    txOutput := Function.update r.txOutput nOutputID (some storedOut.unspend) }
  let nBalanceOld ← read fun r => r.balance.getD 0
  write fun r => { r with balance := some (nBalanceOld + nValue) }
  when fEconomicEvents do
    let nValueOut ← read fun r => r.valueOut.getD 0
    stopIf (nValue > nValueOut)
      "ExploreDisconnectInput() : TSNH prev output value exceeds value out"
    write fun r => { r with valueOut := some (nValueOut - nValue) }
  return (nBalanceOld, nBalanceOld + nValue)

/-- `ExploreDisconnectInput`, of an input with its previous output. -/
def exploreDisconnectInput (txid : UInt256) (n : UInt32) (txIn : CTxIn) (txOut : CTxOut)
    (fEconomicEvents : Bool) : Txn ExploreWork Unit :=
  match payee K X txOut with
  | .insoluble => stopIf True "ExploreDisconnectInput() : TSNH input has insoluble script"
  | .bad => stopIf True "ExploreDisconnectInput() : TSNH scriptPubKey is bad"
  | .other => pure ()
  | .address key => do
    let balances ← ExploreWork.onAddr key (disconnectInputRecords txid n txIn.prevout
      txOut.nValue fEconomicEvents)
    raiseBalanceSets "ExploreDisconnectInput" key balances.1 balances.2

/-! ## 5. Transactions -/

def exploreGetDestinations (vout : List CTxOut) : List ExploreDestination :=
  vout.map fun txout =>
    match extractDestinations K txout.scriptPubKey with
    | some (type, vTxDest, nReq) =>
      ⟨vTxDest.map fun txdest => X.toString txdest txout.nColor, nReq, txout.nColor,
        txout.nValue, type⟩
    | none => ⟨[], 0, txout.nColor, txout.nValue, .nonstandard⟩

/-- `UpdateMapAddressBalances`: remove, then add. -/
def updateMapAddressBalances (w : ExploreWork) (m : MapColorBalances) : MapColorBalances :=
  fun b =>
    match w.mapAddressBalancesAdd b with
    | some n => some n
    | none => if w.setAddressBalancesRemove b then none else m b

def exploreScriptToAddress (txOut : CTxOut) : Option String :=
  (extractDestination K txOut.scriptPubKey).map fun dest => X.toString dest txOut.nColor

/-- Are the debit and credit events of a transaction recorded?  Not for a coinstake that pays back
to the address it stakes from. -/
def fEconomicEvents (tx : CTransaction) (prevs : List CTxOut) : Bool :=
  if tx.isCoinStake then
    match prevs.head?.bind (exploreScriptToAddress K X),
      tx.vout[1]?.bind (exploreScriptToAddress K X) with
    | some strIn, some strOut => decide (strIn ≠ strOut)
    | _, _ => true
  else true

/-- The previous outputs of a list of inputs. -/
def getOutputs (inputs : MapPrevTx) : List CTxIn → Run (List CTxOut)
  | [] => .ok []
  | txin :: vin => do
    let txout ← getOutputFor inputs txin
    let txouts ← getOutputs inputs vin
    return txout :: txouts

/-- The previous outputs of a transaction, over the database as it is. -/
def explorePrevOuts (env : NodeEnv) (txdb : TxDB) (tx : CTransaction) : Run (List CTxOut) := do
  let inputs ← fetchInputs env txdb tx
  getOutputs inputs (if tx.isCoinBase then [] else tx.vin)

/-- The loop over the inputs, from number `n` on. -/
def exploreConnectInputs (nHeight nVtx : Int) (txid : UInt256) (fEconomic : Bool) :
    Nat → List (CTxIn × CTxOut) → ExploreWork → ExploreWork
  | _, [], w => w
  | n, (txIn, txOut) :: rest, w =>
    exploreConnectInputs nHeight nVtx txid fEconomic (n + 1) rest
      ((exploreConnectInput K X nHeight nVtx txid (UInt32.ofNat n) txIn txOut fEconomic).left w)

/-- The loop over the outputs, from number `n` on. -/
def exploreConnectOutputs (nHeight nVtx : Int) (tx : CTransaction) (txid : UInt256)
    (fEconomic : Bool) : Nat → List CTxOut → ExploreWork → ExploreWork
  | _, [], w => w
  | n, txOut :: rest, w =>
    exploreConnectOutputs nHeight nVtx tx txid fEconomic (n + 1) rest
      ((exploreConnectOutput K X nHeight nVtx tx txid n txOut fEconomic).left w)

/-- "iterate backwards" over the outputs, from number `n` on. -/
def exploreDisconnectOutputs (txid : UInt256) (fEconomic : Bool) :
    Nat → List CTxOut → ExploreWork → ExploreWork
  | _, [], w => w
  | n, txOut :: rest, w =>
    (exploreDisconnectOutput K X txid n txOut fEconomic).left
      (exploreDisconnectOutputs txid fEconomic (n + 1) rest w)

/-- "iterate backwards" over the inputs, from number `n` on. -/
def exploreDisconnectInputs (txid : UInt256) (fEconomic : Bool) :
    Nat → List (CTxIn × CTxOut) → ExploreWork → ExploreWork
  | _, [], w => w
  | n, (txIn, txOut) :: rest, w =>
    (exploreDisconnectInput K X txid (UInt32.ofNat n) txIn txOut fEconomic).left
      (exploreDisconnectInputs txid fEconomic (n + 1) rest w)

/-- The explorer: its database and, in memory, the number of addresses by balance. -/
structure ExploreState where
  db : ExploreDB
  mapAddressBalances : MapColorBalances

/-- A batch for a transaction. -/
def ExploreState.work (e : ExploreState) : ExploreWork := ⟨e.db, fun _ => none, fun _ => false⟩

/-- The end of a transaction. -/
def ExploreState.update (e : ExploreState) (w : ExploreWork) : ExploreState :=
  ⟨w.db, updateMapAddressBalances w e.mapAddressBalances⟩

/-- The type of a transaction in its record. -/
def exploreTxFlags (tx : CTransaction) : Int :=
  if tx.isCoinBase then 1 else if tx.isCoinStake then 2 else 0

/-- Queue the record of a transaction, or its removal. -/
def ExploreWork.putTx (txid : UInt256) (txInfo : Option ExploreTx) (w : ExploreWork) :
    ExploreWork :=
  { w with db := { w.db with exploreTx := Function.update w.db.exploreTx txid txInfo } }

def exploreConnectTx (env : NodeEnv) (txdb : TxDB) (hashBlock : UInt256) (nBlockTime : UInt32)
    (nHeight nVtx : Int) (tx : CTransaction) (e : ExploreState) : Bool × ExploreState :=
  match explorePrevOuts env txdb tx with
  | .error _ => (false, e)
  | .ok prevs =>
    let txid := tx.getHash K
    let fEconomic := fEconomicEvents K X tx prevs
    let w := exploreConnectInputs K X nHeight nVtx txid fEconomic 0 (tx.vin.zip prevs) e.work
    let w := exploreConnectOutputs K X nHeight nVtx tx txid fEconomic 0 tx.vout w
    let vPrevOut := prevs.filter fun txOut => (solver txOut.scriptPubKey).1
    let txInfo : ExploreTx := ⟨hashBlock, nBlockTime, nHeight, nVtx,
      exploreGetDestinations K X vPrevOut, exploreGetDestinations K X tx.vout, exploreTxFlags tx⟩
    (true, e.update (w.putTx txid (some txInfo)))

def exploreDisconnectTx (env : NodeEnv) (txdb : TxDB) (tx : CTransaction) (e : ExploreState) :
    Bool × ExploreState :=
  match explorePrevOuts env txdb tx with
  | .error _ => (false, e)
  | .ok prevs =>
    let txid := tx.getHash K
    let fEconomic := fEconomicEvents K X tx prevs
    let w := exploreDisconnectOutputs K X txid fEconomic 0 tx.vout e.work
    let w := exploreDisconnectInputs K X txid fEconomic 0 (tx.vin.zip prevs) w
    (true, e.update (w.putTx txid none))

/-! ## 6. Blocks -/

/-- What the explorer reads of a block's `CBlockIndex`: its time and height, and its parent's id
and height. -/
structure ExploreIndex where
  nTime : UInt32
  nHeight : Int
  pprev : Option (UInt256 × Int)

/-- The loop of `ExploreConnectBlock`, from number `nVtx` on. -/
def exploreConnectTxs (env : NodeEnv) (txdb : TxDB) (hashBlock : UInt256) (nBlockTime : UInt32)
    (nHeight : Int) : Int → List CTransaction → ExploreState → Bool × ExploreState
  | _, [], e => (true, e)
  | nVtx, tx :: vtx, e =>
    match exploreConnectTx K X env txdb hashBlock nBlockTime nHeight nVtx tx e with
    | (false, e') => (false, e')
    | (true, e') => exploreConnectTxs env txdb hashBlock nBlockTime nHeight (nVtx + 1) vtx e'

/-- The loop of `ExploreDisconnectBlock`, over the transactions newest first. -/
def exploreDisconnectTxs (env : NodeEnv) (txdb : TxDB) :
    List CTransaction → ExploreState → Bool × ExploreState
  | [], e => (true, e)
  | tx :: vtx, e =>
    match exploreDisconnectTx K X env txdb tx e with
    | (false, e') => (false, e')
    | (true, e') => exploreDisconnectTxs env txdb vtx e'

/-- `TxnAbort`: the batch is gone, the map in memory is not. -/
def ExploreState.abort (e e' : ExploreState) : ExploreState := { e' with db := e.db }

/-- The block's record at the end of the batch. -/
def ExploreState.putBest (best : UInt256 × Int) (e : ExploreState) : ExploreState :=
  { e with db := { e.db with exploreBest := some best } }

/-- `ExploreConnectBlock`; `mi` is what `mapBlockIndex` has for the block. -/
def exploreConnectBlock (env : NodeEnv) (txdb : TxDB) (h : UInt256) (mi : Option ExploreIndex)
    (block : CBlock) (e : ExploreState) : Bool × ExploreState :=
  match mi with
  | none => (false, e)
  | some pindex =>
    let begun :=
      if pindex.pprev = none then { e with db := { e.db with sentinel := some 0 } } else e
    match exploreConnectTxs K X env txdb h pindex.nTime pindex.nHeight 0 block.vtx begun with
    | (false, e') => (false, e.abort e')
    | (true, e') => (true, e'.putBest (h, pindex.nHeight))

def exploreDisconnectBlock (env : NodeEnv) (txdb : TxDB) (mi : Option ExploreIndex)
    (block : CBlock) (e : ExploreState) : Bool × ExploreState :=
  match exploreDisconnectTxs K X env txdb block.vtx.reverse e with
  | (false, e') => (false, e.abort e')
  | (true, e') =>
    match mi.bind ExploreIndex.pprev with
    | some best => (true, e'.putBest best)
    | none => (true, e'.putBest (0, -1))

end Breakout
