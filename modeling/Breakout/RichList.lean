/-
# The rich list

For every colour and every balance above the dust limit the explorer keeps the set of the
addresses with that balance, and in memory the sizes of these sets.  The records of one address
and the set it is in change together: `Mirrors` says of the work of a transaction that all records
represent the books, that the sets are those of the books' balances, and that the sizes gathered
so far, laid over the map in memory, are the sizes of the sets.

A routine for an input or an output, run where the records mirror the books, goes through and
leaves records that mirror the books after the debit or the credit, or before it.
-/
import Breakout.ExploreBooks
import Breakout.Lib.Buckets

namespace Breakout

open Lib

/-! ## 1. Ranks -/

/-- The books of all addresses. -/
abbrev Books := AddrKey → Book

/-- The place of an address in the rich list: its balance, where that is not dust. -/
def ranked (key : AddrKey) (nBalance : Int64) : Option Int64 :=
  if nBalance > exploreMaxDust key.2 then some nBalance else none

theorem ranked_of_gt {key : AddrKey} {nBalance : Int64} (h : nBalance > exploreMaxDust key.2) :
    ranked key nBalance = some nBalance := if_pos h

theorem ranked_of_not_gt {key : AddrKey} {nBalance : Int64}
    (h : ¬ nBalance > exploreMaxDust key.2) : ranked key nBalance = none := if_neg h

/-- The places of all addresses. -/
def Books.rank (B : Books) : AddrKey → Option Int64 :=
  fun key => ranked key (Int64.ofInt (B key).balance)

theorem Books.rank_update (B : Books) (key : AddrKey) (b : Book) :
    Books.rank (Function.update B key b) =
      Function.update B.rank key (ranked key (Int64.ofInt b.balance)) := by
  funext k
  by_cases hk : k = key
  · subst hk
    simp [Books.rank]
  · simp [Books.rank, hk]

/-- The sizes of the sets of a database. -/
def ExploreDB.sizes (db : ExploreDB) : MapColorBalances := fun b => (db.addrSet b).map Finset.card

/-! ## 2. Moving an address between the sets -/

/-- The sets are those of the ranks, and the changes gathered make the map in memory their
sizes. -/
structure Ranked (m : MapColorBalances) (w : ExploreWork) (rank : AddrKey → Option Int64) :
    Prop where
  sets : Buckets w.db.addrSet rank
  map : updateMapAddressBalances w m = w.db.sizes

/-- A step that changes the sets and what was gathered of them. -/
def SameRecords (w w' : ExploreWork) : Prop :=
  w'.db = { w.db with addrSet := w'.db.addrSet }

theorem SameRecords.refl (w : ExploreWork) : SameRecords w w := rfl

theorem SameRecords.trans {a b c : ExploreWork} (h : SameRecords a b) (h' : SameRecords b c) :
    SameRecords a c := by
  unfold SameRecords at *
  rw [h', h]

variable {m : MapColorBalances} {w : ExploreWork} {rank : AddrKey → Option Int64} {fn : String}
  {key : AddrKey} {nBalance nBalanceOld nBalanceNew : Int64}

theorem updateMap_putSet {b : BalanceKey} {setAddr : Finset String}
    (h : updateMapAddressBalances w m = w.db.sizes) :
    updateMapAddressBalances (w.putSet b setAddr) m = (w.putSet b setAddr).db.sizes := by
  funext k
  by_cases hk : k = b
  · subst hk
    simp [updateMapAddressBalances, ExploreWork.putSet, ExploreDB.sizes]
  · have hold := congrFun h k
    simpa [updateMapAddressBalances, ExploreWork.putSet, ExploreDB.sizes, hk] using hold

theorem updateMap_dropSet {b : BalanceKey} (h : updateMapAddressBalances w m = w.db.sizes) :
    updateMapAddressBalances (w.dropSet b) m = (w.dropSet b).db.sizes := by
  funext k
  by_cases hk : k = b
  · subst hk
    simp [updateMapAddressBalances, ExploreWork.dropSet, ExploreDB.sizes]
  · have hold := congrFun h k
    simpa [updateMapAddressBalances, ExploreWork.dropSet, ExploreDB.sizes, hk] using hold

/-- **"remove from its old set"** -/
theorem leaveSet_spec (h : Ranked m w rank) (hrank : rank key = some nBalance) :
    ∃ w', (leaveSet fn key nBalance).run w = (.ok (), w') ∧ SameRecords w w' ∧
      Ranked m w' (Function.update rank key none) := by
  obtain ⟨a, c⟩ := key
  have hviable : ¬ (((w.db.addrSet (c, nBalance)).getD ∅).erase a = ∅ ∧
      (w.db.addrSet (c, nBalance)).isSome = false) := by
    rw [h.sets.isSome hrank]
    exact fun hno => nomatch hno.2
  have hleave := h.sets.leave hrank rfl
  unfold leaveSet
  simp only [Txn.run_read_bind, Txn.run_stopIf hviable, Txn.run_write]
  by_cases hempty : ((w.db.addrSet (c, nBalance)).getD ∅).erase a = ∅
  · rw [if_pos hempty] at hleave ⊢
    exact ⟨_, rfl, rfl, hleave, updateMap_dropSet h.map⟩
  · rw [if_neg hempty] at hleave ⊢
    exact ⟨_, rfl, rfl, hleave, updateMap_putSet h.map⟩

/-- **"add to new set"** -/
theorem joinSet_spec (h : Ranked m w rank) (hrank : rank key = none) :
    ∃ w', (joinSet fn key nBalance).run w = (.ok (), w') ∧ SameRecords w w' ∧
      Ranked m w' (Function.update rank key (some nBalance)) := by
  obtain ⟨a, c⟩ := key
  obtain ⟨hnot, hjoin⟩ := h.sets.join hrank nBalance
  unfold joinSet
  simp only [Txn.run_read_bind, Txn.run_stopIf hnot, Txn.run_write]
  exact ⟨_, rfl, rfl, hjoin, updateMap_putSet h.map⟩

/-- A balance worth ranking is added to its set. -/
theorem joinWhen_spec (h : Ranked m w (Function.update rank key none)) :
    ∃ w', (Txn.when (decide (nBalance > exploreMaxDust key.2)) (joinSet fn key nBalance)).run w =
      (.ok (), w') ∧ SameRecords w w' ∧
      Ranked m w' (Function.update rank key (ranked key nBalance)) := by
  by_cases hnew : nBalance > exploreMaxDust key.2
  · obtain ⟨w', hrun, hsame, hranked⟩ :=
      @joinSet_spec m w _ fn key nBalance h (Function.update_self ..)
    rw [Function.update_idem] at hranked
    rw [decide_eq_true hnew, Txn.when_true, ranked_of_gt hnew]
    exact ⟨w', hrun, hsame, hranked⟩
  · rw [decide_eq_false hnew, Txn.when_false, ranked_of_not_gt hnew]
    exact ⟨w, rfl, .refl w, h⟩

theorem lowerBalanceSets_spec (h : Ranked m w rank) (hrank : rank key = ranked key nBalanceOld)
    (hle : nBalanceNew ≤ nBalanceOld) :
    ∃ w', (lowerBalanceSets fn key nBalanceOld nBalanceNew).run w = (.ok (), w') ∧
      SameRecords w w' ∧ Ranked m w' (Function.update rank key (ranked key nBalanceNew)) := by
  unfold lowerBalanceSets
  by_cases hold : nBalanceOld > exploreMaxDust key.2
  · rw [decide_eq_true hold, Txn.when_true]
    obtain ⟨w₁, hrun₁, hsame₁, hranked₁⟩ :=
      @leaveSet_spec m w rank fn key nBalanceOld h (hrank.trans (ranked_of_gt hold))
    obtain ⟨w₂, hrun₂, hsame₂, hranked₂⟩ := joinWhen_spec hranked₁
    exact ⟨w₂, (Txn.run_bind hrun₁).trans hrun₂, hsame₁.trans hsame₂, hranked₂⟩
  · have hnew : ¬ nBalanceNew > exploreMaxDust key.2 := by
      rw [gt_iff_lt, Int64.lt_iff_toInt_lt] at hold ⊢
      rw [Int64.le_iff_toInt_le] at hle
      omega
    have hself : Function.update rank key none = rank :=
      Function.update_eq_self_iff.mpr (hrank.trans (ranked_of_not_gt hold)).symm
    rw [decide_eq_false hold, Txn.when_false, ranked_of_not_gt hnew, hself]
    exact ⟨w, rfl, .refl w, h⟩

theorem raiseBalanceSets_spec (h : Ranked m w rank) (hrank : rank key = ranked key nBalanceOld) :
    ∃ w', (raiseBalanceSets fn key nBalanceOld nBalanceNew).run w = (.ok (), w') ∧
      SameRecords w w' ∧ Ranked m w' (Function.update rank key (ranked key nBalanceNew)) := by
  unfold raiseBalanceSets
  obtain ⟨w₁, hrun₁, hsame₁, hranked₁⟩ : ∃ w₁,
      (Txn.when (decide (nBalanceOld > exploreMaxDust key.2)) (leaveSet fn key nBalanceOld)).run w =
        (.ok (), w₁) ∧ SameRecords w w₁ ∧ Ranked m w₁ (Function.update rank key none) := by
    by_cases hold : nBalanceOld > exploreMaxDust key.2
    · rw [decide_eq_true hold, Txn.when_true]
      exact leaveSet_spec h (hrank.trans (ranked_of_gt hold))
    · have hself : Function.update rank key none = rank :=
        Function.update_eq_self_iff.mpr (hrank.trans (ranked_of_not_gt hold)).symm
      rw [decide_eq_false hold, Txn.when_false, hself]
      exact ⟨w, rfl, .refl w, h⟩
  obtain ⟨w₂, hrun₂, hsame₂, hranked₂⟩ := joinWhen_spec hranked₁
  exact ⟨w₂, (Txn.run_bind hrun₁).trans hrun₂, hsame₁.trans hsame₂, hranked₂⟩

/-! ## 3. The records and the sets together -/

/-- **The work of a transaction mirrors the books.**  `d` has the records it does not touch. -/
structure Mirrors (d : ExploreDB) (m : MapColorBalances) (w : ExploreWork) (B : Books) : Prop where
  addr : ∀ key, Represents (w.db.addr key) (B key)
  richList : Ranked m w B.rank
  exploreTx : w.db.exploreTx = d.exploreTx
  exploreBest : w.db.exploreBest = d.exploreBest
  sentinel : w.db.sentinel = d.sentinel

variable {d : ExploreDB} {B : Books} {b : Book}

/-- A routine that changes the records of one address, and then the sets. -/
theorem Mirrors.step (h : Mirrors d m w B) {x : Txn AddrRecords (Int64 × Int64)}
    {f : Int64 × Int64 → Txn ExploreWork Unit} {r : AddrRecords} {balances : Int64 × Int64}
    (hx : x.run (w.db.addr key) = (.ok balances, r)) (hr : Represents r b)
    (hsets : ∀ w₁, Ranked m w₁ B.rank → ∃ w₂, (f balances).run w₁ = (.ok (), w₂) ∧
      SameRecords w₁ w₂ ∧
      Ranked m w₂ (Function.update B.rank key (ranked key (Int64.ofInt b.balance)))) :
    ∃ w', (ExploreWork.onAddr key x >>= f).run w = (.ok (), w') ∧
      Mirrors d m w' (Function.update B key b) := by
  set w₁ : ExploreWork :=
    { w with db := { w.db with addr := Function.update w.db.addr key r } } with hw₁
  have hrun : (ExploreWork.onAddr key x).run w = (.ok balances, w₁) := Txn.run_on hx
  obtain ⟨w₂, hrun₂, hsame, hranked⟩ := hsets w₁ ⟨h.richList.sets, h.richList.map⟩
  have haddr : w₂.db.addr = Function.update w.db.addr key r := by rw [hsame]
  have htx : w₂.db.exploreTx = w.db.exploreTx := by rw [hsame]
  have hbest : w₂.db.exploreBest = w.db.exploreBest := by rw [hsame]
  have hsentinel : w₂.db.sentinel = w.db.sentinel := by rw [hsame]
  rw [Txn.run_bind hrun]
  refine ⟨w₂, hrun₂, fun k => ?_, ?_, htx.trans h.exploreTx, hbest.trans h.exploreBest,
    hsentinel.trans h.sentinel⟩
  · rw [haddr]
    by_cases hk : k = key
    · subst hk
      rw [Function.update_self, Function.update_self]
      exact hr
    · rw [Function.update_of_ne hk, Function.update_of_ne hk]
      exact h.addr k
  · rw [Books.rank_update]
    exact hranked

variable {K : Crypto} {X : Explorer} {t : TxAt} {n : UInt32} {txIn : CTxIn} {txOut : CTxOut}
  {o : ExploreOutput}

/-- Within the machine's range the order of balances is that of the books'. -/
theorem ofInt_sub_le {x : Int} {v : Int64} (h₀ : 0 ≤ v.toInt) (h₁ : v.toInt ≤ x)
    (h₂ : x < 2 ^ 63) : Int64.ofInt x - v ≤ Int64.ofInt x := by
  have hsub : Int64.ofInt x - v = Int64.ofInt (x - v.toInt) := by
    rw [Int64.ofInt_sub, Int64.ofInt_toInt]
  rw [hsub, Int64.le_iff_toInt_le, toInt_ofInt_of_small (by omega) (by omega),
    toInt_ofInt_of_small (by omega) (by omega)]
  omega

/-- **`ExploreConnectInput`** debits the address. -/
theorem exploreConnectInput_spec (h : Mirrors d m w B) (hkey : payee K X txOut = .address key)
    (hok : (B key).Ok) (hsmall : (B key).Small) (ho : o ∈ (B key).outputs)
    (hpoint : o.outpoint = txIn.prevout) (hunspent : o.isSpent = false)
    (hamount : o.amount = txOut.nValue) :
    ∃ w', (exploreConnectInput K X t.nHeight t.nVtx t.txid n txIn txOut t.fEconomicEvents).run w =
        (.ok (), w') ∧
      Mirrors d m w' (Function.update B key ((B key).debit t n txIn.prevout txOut)) := by
  obtain ⟨r, hrun, hr⟩ := @connectInputRecords_spec X _ _ t n txIn.prevout txOut o (h.addr key) hok
    hsmall ho hpoint hunspent hamount
  have hnew : Int64.ofInt ((B key).debit t n txIn.prevout txOut).balance =
      Int64.ofInt (B key).balance - txOut.nValue := by
    rw [Book.debit, Int64.ofInt_sub, Int64.ofInt_toInt]
  have hle : Int64.ofInt (B key).balance - txOut.nValue ≤ Int64.ofInt (B key).balance := by
    rw [← hamount]
    exact ofInt_sub_le (hok.amount_nonneg o ho) (hok.amount_le ho hunspent) hsmall.balance_lt
  unfold exploreConnectInput
  simp only [hkey]
  refine h.step hrun hr fun w₁ hw₁ => ?_
  rw [hnew]
  exact lowerBalanceSets_spec hw₁ rfl hle

/-- **`ExploreConnectOutput`** credits the address. -/
theorem exploreConnectOutput_spec {tx : CTransaction} {k : Nat} (h : Mirrors d m w B)
    (hkey : payee K X txOut = .address key) (hmarker : ¬ (tx.isCoinStake = true ∧ k = 0))
    (hok : (B key).Ok) (hsmall : ((B key).credit t (UInt32.ofNat k) txOut).Small)
    (hfresh : ∀ o ∈ (B key).outputs, o.outpoint ≠ ⟨t.txid, UInt32.ofNat k⟩) :
    ∃ w', (exploreConnectOutput K X t.nHeight t.nVtx tx t.txid k txOut t.fEconomicEvents).run w =
        (.ok (), w') ∧
      Mirrors d m w' (Function.update B key ((B key).credit t (UInt32.ofNat k) txOut)) := by
  obtain ⟨r, hrun, hr⟩ := @connectOutputRecords_spec X _ _ t (UInt32.ofNat k) txOut (h.addr key)
    hok hsmall hfresh
  have hnew : Int64.ofInt ((B key).credit t (UInt32.ofNat k) txOut).balance =
      Int64.ofInt (B key).balance + txOut.nValue := by
    rw [Book.credit, Int64.ofInt_add, Int64.ofInt_toInt]
  unfold exploreConnectOutput
  rw [if_neg hmarker]
  simp only [hkey]
  refine h.step hrun hr fun w₁ hw₁ => ?_
  rw [hnew]
  exact raiseBalanceSets_spec hw₁ rfl

/-- **`ExploreDisconnectOutput`** takes the credit back. -/
theorem exploreDisconnectOutput_spec {k : Nat}
    (h : Mirrors d m w (Function.update B key ((B key).credit t (UInt32.ofNat k) txOut)))
    (hkey : payee K X txOut = .address key) (hok : (B key).Ok)
    (hsmall : ((B key).credit t (UInt32.ofNat k) txOut).Small)
    (hfresh : ∀ o ∈ (B key).outputs, o.outpoint ≠ ⟨t.txid, UInt32.ofNat k⟩)
    (hvalue : 0 ≤ txOut.nValue.toInt) :
    ∃ w', (exploreDisconnectOutput K X t.txid k txOut t.fEconomicEvents).run w = (.ok (), w') ∧
      Mirrors d m w' B := by
  have haddr := h.addr key
  rw [Function.update_self] at haddr
  obtain ⟨r, hrun, hr⟩ := @disconnectOutputRecords_spec _ _ t (UInt32.ofNat k) txOut haddr hok
    hsmall hfresh hvalue
  have hold : Int64.ofInt ((B key).credit t (UInt32.ofNat k) txOut).balance =
      Int64.ofInt (B key).balance + txOut.nValue := by
    rw [Book.credit, Int64.ofInt_add, Int64.ofInt_toInt]
  have hle : Int64.ofInt (B key).balance ≤ Int64.ofInt (B key).balance + txOut.nValue := by
    have hlt := hsmall.balance_lt
    have hcredit : ((B key).credit t (UInt32.ofNat k) txOut).balance =
        (B key).balance + txOut.nValue.toInt := rfl
    have hnn := hok.balance_nonneg
    have hsub := @ofInt_sub_le ((B key).balance + txOut.nValue.toInt) txOut.nValue hvalue
      (by omega) (by omega)
    have hback : Int64.ofInt ((B key).balance + txOut.nValue.toInt) - txOut.nValue =
        Int64.ofInt (B key).balance := by
      rw [Int64.ofInt_add, Int64.ofInt_toInt]
      grind
    rwa [hback, Int64.ofInt_add, Int64.ofInt_toInt] at hsub
  unfold exploreDisconnectOutput
  simp only [hkey]
  obtain ⟨w', hrun', hw'⟩ := h.step hrun hr
    (f := fun balances => lowerBalanceSets "ExploreDisconnectOutput" key balances.1 balances.2)
    fun w₁ hw₁ => lowerBalanceSets_spec hw₁ (by rw [Books.rank, Function.update_self, hold]) hle
  rw [Function.update_idem, Function.update_eq_self] at hw'
  exact ⟨w', hrun', hw'⟩

/-- **`ExploreDisconnectInput`** takes the debit back. -/
theorem exploreDisconnectInput_spec
    (h : Mirrors d m w (Function.update B key ((B key).debit t n txIn.prevout txOut)))
    (hkey : payee K X txOut = .address key) (hok : (B key).Ok)
    (hsmall : ((B key).debit t n txIn.prevout txOut).Small) (ho : o ∈ (B key).outputs)
    (hpoint : o.outpoint = txIn.prevout) (hunspent : o.isSpent = false)
    (hamount : o.amount = txOut.nValue) (htxid : t.txid ≠ 0) :
    ∃ w', (exploreDisconnectInput K X t.txid n txIn txOut t.fEconomicEvents).run w =
        (.ok (), w') ∧ Mirrors d m w' B := by
  have haddr := h.addr key
  rw [Function.update_self] at haddr
  obtain ⟨r, hrun, hr⟩ := @disconnectInputRecords_spec _ _ t n txIn.prevout txOut o haddr hok
    hsmall ho hpoint hunspent hamount htxid
  have hold : Int64.ofInt ((B key).debit t n txIn.prevout txOut).balance =
      Int64.ofInt (B key).balance - txOut.nValue := by
    rw [Book.debit, Int64.ofInt_sub, Int64.ofInt_toInt]
  unfold exploreDisconnectInput
  simp only [hkey]
  obtain ⟨w', hrun', hw'⟩ := h.step hrun hr
    (f := fun balances => raiseBalanceSets "ExploreDisconnectInput" key balances.1 balances.2)
    fun w₁ hw₁ => raiseBalanceSets_spec hw₁ (by rw [Books.rank, Function.update_self, hold])
  rw [Function.update_idem, Function.update_eq_self] at hw'
  exact ⟨w', hrun', hw'⟩

end Breakout
