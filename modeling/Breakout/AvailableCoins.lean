/-
# The coins a wallet can spend

What a wallet spends, stakes or consolidates it picks from the outputs of its entries: those of a
final entry that is deep enough, that are of the colour asked for, unspent, its own, and worth the
least input value at the least.  An entry stands here as it answers at the time: `IsFinal`,
`IsTrusted`, `GetBlocksToMaturity` and `GetDepthInMainChain` are values, and so is `IsSpent` of
every output.

A coin is an entry's address and an index, and a `set` of coins is gone through in the order of
these pairs.  No list of available coins has a coin twice (`nodup_key_flatMap`).
-/
import Breakout.Addresses
import Breakout.SelectCoins
import Breakout.Wallet

namespace Breakout

open Lib
open scoped List

/-! ## 1. The wallet -/

/-- An entry of `mapWallet`, and what its methods say at the time. -/
structure WalletEntry where
  ptr : WtxPtr
  isFinal : Bool
  isTrusted : Bool
  nBlocksToMaturity : Int
  nDepth : Int
  isSpent : Nat → Bool

/-- The entry's transaction. -/
def WalletEntry.tx (e : WalletEntry) : CTransaction := e.ptr.tx

/-- What is read of a `CWallet` to find its coins, and the settings beside it.  The entries are in
the order of the map, whose keys are the ids of their transactions, and an index is an `unsigned
int`. -/
structure CoinWallet (K : Crypto) where
  mapWallet : List WalletEntry
  nodup_address : (mapWallet.map fun e => e.ptr.address).Nodup
  nodup_hash : (mapWallet.map fun e => e.tx.getHash K).Nodup
  sized : ∀ e ∈ mapWallet, e.tx.vout.length ≤ 2 ^ 32
  isMine : Bool → CScript → UInt8
  maps : BalanceMaps
  vMinimumInputValue : Color → Int64
  vReserveBalance : Color → Int64

/-- The outputs of an entry. -/
def WalletEntry.outputs (e : WalletEntry) : List COutput :=
  (List.finRange e.ptr.tx.vout.length).map fun i => ⟨e.ptr, i, e.nDepth⟩

/-- Whether an entry is one that `AvailableCoins` looks at. -/
def WalletEntry.isAvailable (fOnlyConfirmed : Bool) (e : WalletEntry) : Bool :=
  e.isFinal && !(fOnlyConfirmed && !e.isTrusted) &&
    !(e.tx.doesMature && decide (0 < e.nBlocksToMaturity)) && decide (0 ≤ e.nDepth)

structure CCoinControl where
  destChange : Wallet.CTxDestination
  setSelected : Finset COutPoint

namespace CCoinControl

def hasSelected (coinControl : CCoinControl) : Bool := decide (coinControl.setSelected ≠ ∅)

def isSelected (coinControl : CCoinControl) (hash : UInt256) (n : Nat) : Bool :=
  decide (⟨hash, n.toUInt32⟩ ∈ coinControl.setSelected)

/-- What `AvailableCoins` makes of a pointer to one. -/
def allows (coinControl : Option CCoinControl) (hash : UInt256) (n : Nat) : Bool :=
  match coinControl with
  | none => true
  | some coinControl => !coinControl.hasSelected || coinControl.isSelected hash n

end CCoinControl

namespace CoinWallet

variable {K : Crypto} (w : CoinWallet K)

def getSpendable (c : Color) : Int64 :=
  (w.maps .confirmed).get c.toInt32 - (w.maps .stake).get c.toInt32 -
    (w.maps .coinbase).get c.toInt32 - (w.maps .sent).get c.toInt32

/-- Whether an output of an entry is of a colour, unspent, "spendable only" and not too small. -/
def isSpendable (c : Color) (fMultiSig : Bool) (e : WalletEntry) (o : COutput) : Bool :=
  decide (o.txout.nColor = c.toInt32) && !e.isSpent o.i &&
    decide (w.isMine fMultiSig o.txout.scriptPubKey &&& isMineSpendable ≠ 0) &&
    decide (w.vMinimumInputValue c ≤ o.nValue)

/-- `CWallet::AvailableCoins` of a colour -/
def availableCoins (c : Color) (fMultiSig fOnlyConfirmed : Bool)
    (coinControl : Option CCoinControl) : List COutput :=
  w.mapWallet.flatMap fun e =>
    if e.isAvailable fOnlyConfirmed then
      e.outputs.filter fun o => w.isSpendable c fMultiSig e o &&
        CCoinControl.allows coinControl (e.tx.getHash K) o.i
    else []

def availableCoinsMinConf (c : Color) (nConf : Int) (fMultiSig : Bool) : List COutput :=
  w.mapWallet.flatMap fun e =>
    if e.isFinal && decide (nConf ≤ e.nDepth) then e.outputs.filter (w.isSpendable c fMultiSig e)
    else []

/-! ## 2. The simple choice -/

/-- The loop of `SelectCoinsSimple`. -/
def simpleLoop (nTargetValue : Int64) (c : Color) (nSpendTime : UInt32) :
    List COutput → Chosen → Chosen
  | [], r => r
  | output :: vCoins, r =>
    -- "Stop if we've chosen enough inputs"
    if r.nValueRet ≥ nTargetValue then r
    else if output.tx.tx.nTime > nSpendTime then simpleLoop nTargetValue c nSpendTime vCoins r
    else if output.nValue ≥ nTargetValue then r.add output.coin
    else if output.nValue < nTargetValue + cent c then
      simpleLoop nTargetValue c nSpendTime vCoins (r.add output.coin)
    else simpleLoop nTargetValue c nSpendTime vCoins r

/-- `CWallet::SelectCoinsSimple`, which never fails. -/
def selectCoinsSimple (nTargetValue : Int64) (c : Color) (nSpendTime : UInt32) (nMinConf : Int)
    (fMultiSig : Bool) : Chosen :=
  simpleLoop nTargetValue c nSpendTime (w.availableCoinsMinConf c nMinConf fMultiSig) .none

end CoinWallet

/-- The order of a `set` of coins. -/
def CoinKey.le (a b : CoinKey) : Bool :=
  decide (a.1 < b.1) || decide (a.1 = b.1) && decide (a.2 ≤ b.2)

/-- A loop over a `set` of coins, all of which are in a list: the outputs it points to. -/
def coinsOf (vCoins : List COutput) (setCoins : Finset CoinKey) : List COutput :=
  (vCoins.filter fun o => decide (o.key ∈ setCoins)).mergeSort fun a b => a.key.le b.key

/-! ## 3. Inputs -/

/-- `COutPoint(output.tx->GetHash(), output.i)` -/
def COutput.outPoint (K : Crypto) (o : COutput) : COutPoint := ⟨o.tx.tx.getHash K, o.i.val.toUInt32⟩

/-- `CTxIn(outPoint)` -/
def CTxIn.ofOutPoint (prevout : COutPoint) : CTxIn := ⟨prevout, [], 0xffffffff⟩

/-- The loops that sign the inputs, from the input `nIn` on.  `sign` is `SignSignature`: the script
it puts in, where it can sign. -/
def signLoop (sign : CTransaction → Nat → CScript → Option CScript) :
    Nat → List COutput → CTransaction → Option CTransaction
  | _, [], tx => some tx
  | nIn, output :: coins, tx =>
    match sign tx nIn output.txout.scriptPubKey with
    | none => none
    | some scriptSig =>
      signLoop sign (nIn + 1) coins
        { tx with vin := tx.vin.modify nIn fun txin => { txin with scriptSig := scriptSig } }

theorem signLoop_spec {sign : CTransaction → Nat → CScript → Option CScript} {coins : List COutput}
    {nIn : Nat} {tx tx' : CTransaction} (h : signLoop sign nIn coins tx = some tx') :
    tx'.vout = tx.vout ∧ tx'.vin.map CTxIn.prevout = tx.vin.map CTxIn.prevout := by
  induction coins generalizing nIn tx with
  | nil =>
    cases h
    exact ⟨rfl, rfl⟩
  | cons output coins ih =>
    rw [signLoop] at h
    split at h
    · cases h
    · next scriptSig _ =>
      obtain ⟨hvout, hvin⟩ := ih h
      refine ⟨hvout, hvin.trans ?_⟩
      exact List.ext_getElem? fun i => by
        simp only [List.getElem?_map, List.getElem?_modify]
        cases tx.vin[i]? with
        | none => rfl
        | some txin =>
          simp only [Option.map_some]
          split <;> rfl

/-! ## 4. No coin twice -/

theorem nodup_outputs (e : WalletEntry) : (e.outputs.map COutput.key).Nodup := by
  rw [WalletEntry.outputs, List.map_map]
  refine (List.nodup_finRange _).map fun i j h => ?_
  exact Fin.ext (congrArg Prod.snd h)

/-- **Outputs picked entry by entry** are coins that differ from one another. -/
theorem nodup_key_flatMap {f : WalletEntry → List COutput} (hf : ∀ e, (f e).Sublist e.outputs)
    {entries : List WalletEntry} (h : (entries.map fun e => e.ptr.address).Nodup) :
    ((entries.flatMap f).map COutput.key).Nodup := by
  induction entries with
  | nil => exact List.nodup_nil
  | cons e entries ih =>
    obtain ⟨hfresh, hrest⟩ := List.nodup_cons.mp h
    rw [List.flatMap_cons, List.map_append]
    refine List.Nodup.append ((nodup_outputs e).sublist ((hf e).map _)) (ih hrest) ?_
    intro key hkey hkey'
    obtain ⟨o, ho, rfl⟩ := List.mem_map.mp hkey
    obtain ⟨o', ho', heq⟩ := List.mem_map.mp hkey'
    obtain ⟨e', he', ho'⟩ := List.mem_flatMap.mp ho'
    have haddress : ∀ {e : WalletEntry} {o : COutput}, o ∈ f e → o.tx.address = e.ptr.address := by
      intro e o ho
      obtain ⟨i, -, rfl⟩ := List.mem_map.mp ((hf e).subset ho)
      rfl
    refine hfresh (List.mem_map.mpr ⟨e', he', ?_⟩)
    have hsame : o'.tx.address = o.tx.address := congrArg Prod.fst heq
    exact (haddress ho').symm.trans (hsame.trans (haddress ho))

namespace CoinWallet

variable {K : Crypto} (w : CoinWallet K)

theorem nodup_availableCoins (c : Color) (fMultiSig fOnlyConfirmed : Bool)
    (coinControl : Option CCoinControl) :
    ((w.availableCoins c fMultiSig fOnlyConfirmed coinControl).map COutput.key).Nodup := by
  refine nodup_key_flatMap (fun e => ?_) w.nodup_address
  split
  · exact List.filter_sublist
  · exact List.nil_sublist _

end CoinWallet

end Breakout
