/-
# The books of a chain

The entries of a chain are those of its transactions, one after another, each with the outputs its
inputs name.  They all fit (`entriesOf_ok`): the ledger says that what a transaction spends is
unspent, and `Tracks` carries this to the books, where every unspent output that names an address
is an unspent output record of that address.

`ExploreConnectBlock` and `ExploreDisconnectBlock` enter and take back the transactions of a block.
The previous outputs they fetch are the outputs the inputs name, wherever what is read at an entry
of the transaction index has the entry's id (`NodeEnv.Faithful`).
-/
import Breakout.ExploreEntries
import Breakout.MoneySupply

namespace Breakout

open Lib

/-! ## 1. Entries of a list of transactions -/

/-- A transaction and its place in the chain. -/
structure PlacedTx where
  nHeight : Int
  nVtx : Int
  tx : CTransaction

section

variable (K : Crypto) (X : Explorer) (T : Set CTransaction)

/-- The outputs a transaction spends, by the ids its inputs name. -/
noncomputable def prevOutsIn (tx : CTransaction) : List CTxOut :=
  tx.spends.filterMap (outputIn K T)

/-- Where a placed transaction stands in the books. -/
noncomputable def PlacedTx.txAt (p : PlacedTx) : TxAt :=
  Breakout.txAt K X p.nHeight p.nVtx p.tx (prevOutsIn K T p.tx)

/-- The entries of a list of transactions, the newest first. -/
noncomputable def entriesOf : List PlacedTx → List Entry
  | [] => []
  | p :: l => enterTx K X (p.txAt K X T) p.tx (prevOutsIn K T p.tx) (entriesOf l)

/-- Every output of `U` that names an address is an unspent record of it. -/
def Tracks (es : List Entry) (U : Set COutPoint) : Prop :=
  ∀ o ∈ U, ∀ txOut key, outputIn K T o = some txOut → payee K X txOut = .address key →
    ∃ r ∈ (booksOf es key).outputs, r.outpoint = o ∧ r.isSpent = false ∧ r.amount = txOut.nValue

end

/-- The transactions a book knows of. -/
structure Book.IdsIn (ids : Set UInt256) (b : Book) : Prop where
  outputs : ∀ r ∈ b.outputs, r.txid ∈ ids
  vios : ∀ v ∈ b.vios, v.txid ∈ ids

variable {K : Crypto} {X : Explorer} {T : Set CTransaction} {t : TxAt} {b : Book} {n : UInt32}
  {prevout : COutPoint} {txOut : CTxOut} {ids : Set UInt256} {es : List Entry} {U : Set COutPoint}

/-! ## 2. What a debit and a credit do to the outputs -/

theorem Book.mem_debit_outputs {r : ExploreOutput} :
    r ∈ (b.debit t n prevout txOut).outputs ↔
      ∃ q ∈ b.outputs, r = if q.outpoint = prevout then q.spend t.txid n else q := by
  have houtputs : (b.debit t n prevout txOut).outputs =
      rewriteAt ExploreOutput.outpoint prevout (ExploreOutput.spend t.txid n) b.outputs := rfl
  rw [houtputs, rewriteAt, List.mem_map]
  exact exists_congr fun q => and_congr_right' eq_comm

variable {v : Vio} {key : AddrKey} {txs : List CTransaction}

theorem Book.mem_debit_vios (hv : v ∈ (b.debit t n prevout txOut).vios) :
    v.txid = t.txid ∨ ∃ v' ∈ b.vios, v'.txid = v.txid := by
  unfold Book.debit at hv
  simp only at hv
  split at hv
  · exact txid_of_mem_addVio hv
  · exact Or.inr ⟨v, hv, rfl⟩

theorem Book.mem_credit_vios (hv : v ∈ (b.credit t n txOut).vios) :
    v.txid = t.txid ∨ ∃ v' ∈ b.vios, v'.txid = v.txid := by
  unfold Book.credit at hv
  simp only at hv
  split at hv
  · exact txid_of_mem_addVio hv
  · exact Or.inr ⟨v, hv, rfl⟩

/-- An input adds no output. -/
theorem Book.debit_txids {ids' : Set UInt256} (h : ∀ r ∈ b.outputs, r.txid ∈ ids') :
    ∀ r ∈ (b.debit t n prevout txOut).outputs, r.txid ∈ ids' := by
  intro r hr
  obtain ⟨q, hq, rfl⟩ := Book.mem_debit_outputs.mp hr
  have hid : (if q.outpoint = prevout then q.spend t.txid n else q).txid = q.txid := by
    split
    · exact ExploreOutput.txid_spend ..
    · rfl
  rw [hid]
  exact h q hq

/-- A book that does not know the transaction is ready for it. -/
theorem Book.IdsIn.current (h : b.IdsIn ids) (hnew : t.txid ∉ ids) : b.Current t := by
  refine ⟨fun v hv hid => ?_, fun v hv hid => ?_, fun _ k o hk hid => ?_⟩
  · exact hnew (hid ▸ h.vios v (List.mem_of_mem_tail hv))
  · exact absurd (hid ▸ h.vios v hv) hnew
  · exact absurd (hid ▸ h.outputs o (exists_of_numbered hk)) hnew

/-- A spent outpoint is not tracked any more, the others are. -/
theorem Tracks.debit (h : Tracks K X T es U) :
    Tracks K X T (⟨key, t, n, some prevout, txOut⟩ :: es) (U \ {prevout}) := by
  rintro o ⟨ho, hne⟩ out key' hout hkey
  obtain ⟨r, hr, hpoint, hun, hamount⟩ := h o ho out key' hout hkey
  refine ⟨r, ?_, hpoint, hun, hamount⟩
  by_cases hk : key' = key
  · subst hk
    rw [booksOf_self]
    refine Book.mem_debit_outputs.mpr ⟨r, hr, (if_neg ?_).symm⟩
    exact fun heq => hne (hpoint ▸ heq)
  · rw [booksOf_of_ne hk]
    exact hr

theorem Tracks.credit (h : Tracks K X T es U) (hout : outputIn K T ⟨t.txid, n⟩ = some txOut)
    (hkey : payee K X txOut = .address key) :
    Tracks K X T (⟨key, t, n, none, txOut⟩ :: es) (insert ⟨t.txid, n⟩ U) := by
  rintro o (rfl | ho) out key' hout' hkey'
  · rw [hout, Option.some_inj] at hout'
    subst hout'
    rw [hkey, Payee.address.injEq] at hkey'
    subst hkey'
    refine ⟨⟨t.txid, n, 0, 0, txOut.nColor, txOut.nValue,
      Int64.ofInt (booksOf es key).balance + txOut.nValue⟩, ?_, rfl, rfl, rfl⟩
    rw [booksOf_self]
    exact List.mem_cons_self
  · obtain ⟨r, hr, hrest⟩ := h o ho out key' hout' hkey'
    refine ⟨r, ?_, hrest⟩
    by_cases hk : key' = key
    · subst hk
      rw [booksOf_self]
      exact List.mem_cons_of_mem _ hr
    · rw [booksOf_of_ne hk]
      exact hr

/-- A new output that names no address need not be. -/
theorem Tracks.pass (h : Tracks K X T es U) (hout : outputIn K T ⟨t.txid, n⟩ = some txOut)
    (hkey : ∀ key, payee K X txOut ≠ .address key) :
    Tracks K X T es (insert ⟨t.txid, n⟩ U) := by
  rintro o (rfl | ho) out key' hout' hkey'
  · rw [hout, Option.some_inj] at hout'
    subst hout'
    exact absurd hkey' (hkey key')
  · exact h o ho out key' hout' hkey'

theorem Tracks.mono {U' : Set COutPoint} (h : Tracks K X T es U) (hsub : U' ⊆ U) :
    Tracks K X T es U' :=
  fun o ho => h o (hsub ho)

/-! ## 3. The entries of a transaction fit -/

/-- Where a transaction is being entered: what is in so far. -/
structure Entering (K : Crypto) (X : Explorer) (T : Set CTransaction) (ids : Set UInt256)
    (t : TxAt) (es : List Entry) (U : Set COutPoint) : Prop where
  ok : EntriesOk es
  tracks : Tracks K X T es U
  current : ∀ key, (booksOf es key).Current t
  vios : ∀ key, ∀ v ∈ (booksOf es key).vios, v.txid ∈ insert t.txid ids

theorem Entering.input (h : Entering K X T ids t es U) (htxid : t.txid ≠ 0)
    (hold : ∀ key, ∀ r ∈ (booksOf es key).outputs, r.txid ∈ ids) (hnew : t.txid ∉ ids)
    (hmem : prevout ∈ U) (hout : outputIn K T prevout = some txOut)
    (hvalue : 0 ≤ txOut.nValue.toInt) :
    Entering K X T ids t (enter K X t n (some prevout) txOut es) (U \ {prevout}) ∧
      ∀ key, ∀ r ∈ (booksOf (enter K X t n (some prevout) txOut es) key).outputs, r.txid ∈ ids := by
  by_cases hp : ∃ key, payee K X txOut = .address key
  · obtain ⟨key, hkey⟩ := hp
    rw [enter_of_address hkey]
    have hcases : ∀ k, booksOf (⟨key, t, n, some prevout, txOut⟩ :: es) k =
        if k = key then (booksOf es key).debit t n prevout txOut else booksOf es k := by
      intro k
      by_cases hk : k = key
      · rw [if_pos hk, hk]
        exact booksOf_self ..
      · rw [if_neg hk]
        exact booksOf_of_ne hk
    refine ⟨⟨⟨⟨htxid, hvalue, h.current key, nofun, ?_⟩, h.ok⟩, h.tracks.debit, ?_, ?_⟩, ?_⟩
    · rintro _ ⟨⟩
      refine ⟨h.tracks prevout hmem txOut key hout hkey, fun o ho hid => hnew ?_⟩
      exact hid ▸ hold key o ho
    · intro k
      rw [hcases]
      split
      · exact (h.current key).debit
      · exact h.current k
    · intro k v hv
      rw [hcases] at hv
      split at hv
      · rcases Book.mem_debit_vios hv with hid | ⟨v', hv', hid⟩
        · exact Or.inl hid
        · exact hid ▸ h.vios key v' hv'
      · exact h.vios k v hv
    · intro k r hr
      rw [hcases] at hr
      split at hr
      · exact Book.debit_txids (hold key) r hr
      · exact hold k r hr
  · rw [enter_of_not_address (not_exists.mp hp)]
    exact ⟨⟨h.ok, h.tracks.mono Set.sdiff_subset, h.current, h.vios⟩, hold⟩

/-- **The inputs of a transaction fit.** -/
theorem Entering.inputs (htxid : t.txid ≠ 0) (hnew : t.txid ∉ ids) :
    ∀ {ins : List (CTxIn × CTxOut)} {k : Nat} {es : List Entry} {U : Set COutPoint},
      Entering K X T ids t es U →
      (∀ key, ∀ r ∈ (booksOf es key).outputs, r.txid ∈ ids) →
      (ins.map fun p => p.1.prevout).Nodup →
      (∀ p ∈ ins, p.1.prevout ∈ U ∧ outputIn K T p.1.prevout = some p.2 ∧
        0 ≤ p.2.nValue.toInt) →
      Entering K X T ids t (enterInputs K X t k ins es)
          {o | o ∈ U ∧ o ∉ ins.map fun p => p.1.prevout} ∧
        ∀ key, ∀ r ∈ (booksOf (enterInputs K X t k ins es) key).outputs, r.txid ∈ ids
  | [], _, _, _, h, hold, _, _ => by
    refine ⟨⟨h.ok, h.tracks.mono fun o ho => ho.1, h.current, h.vios⟩, hold⟩
  | (txIn, txOut) :: ins, k, es, U, h, hold, hnd, hall => by
    rw [List.map_cons, List.nodup_cons] at hnd
    obtain ⟨⟨hmem, hout, hvalue⟩, hall⟩ := List.forall_mem_cons.mp hall
    obtain ⟨h', hold'⟩ := h.input (n := UInt32.ofNat k) htxid hold hnew hmem hout hvalue
    have hrest : ∀ p ∈ ins, p.1.prevout ∈ U \ {txIn.prevout} ∧
        outputIn K T p.1.prevout = some p.2 ∧ 0 ≤ p.2.nValue.toInt := by
      intro p hp
      obtain ⟨hpU, hpo, hpv⟩ := hall p hp
      refine ⟨⟨hpU, fun heq => hnd.1 ?_⟩, hpo, hpv⟩
      exact List.mem_map.mpr ⟨p, hp, heq⟩
    obtain ⟨hdone, holdDone⟩ := Entering.inputs htxid hnew (k := k + 1) h' hold' hnd.2 hrest
    refine ⟨⟨hdone.ok, hdone.tracks.mono ?_, hdone.current, hdone.vios⟩, holdDone⟩
    rintro o ⟨hoU, hnot⟩
    rw [List.map_cons, List.mem_cons, not_or] at hnot
    exact ⟨⟨hoU, hnot.1⟩, hnot.2⟩

theorem Entering.output {k : Nat} (h : Entering K X T ids t es U) (htxid : t.txid ≠ 0)
    (hold : ∀ key, ∀ r ∈ (booksOf es key).outputs,
      r.txid ∈ ids ∨ (r.txid = t.txid ∧ r.vout.toNat < k))
    (hnew : t.txid ∉ ids) (hk : k < 2 ^ 32)
    (hout : outputIn K T ⟨t.txid, UInt32.ofNat k⟩ = some txOut) (hvalue : 0 ≤ txOut.nValue.toInt) :
    Entering K X T ids t (enter K X t (UInt32.ofNat k) none txOut es)
        (insert ⟨t.txid, UInt32.ofNat k⟩ U) ∧
      ∀ key, ∀ r ∈ (booksOf (enter K X t (UInt32.ofNat k) none txOut es) key).outputs,
        r.txid ∈ ids ∨ (r.txid = t.txid ∧ r.vout.toNat < k + 1) := by
  have hnat : (UInt32.ofNat k).toNat = k := by
    rw [UInt32.toNat_ofNat', Nat.mod_eq_of_lt hk]
  have hold₁ : ∀ key, ∀ r ∈ (booksOf es key).outputs,
      r.txid ∈ ids ∨ (r.txid = t.txid ∧ r.vout.toNat < k + 1) :=
    fun key r hr => (hold key r hr).imp_right fun hr => ⟨hr.1, hr.2.trans (Nat.lt_succ_self k)⟩
  by_cases hp : ∃ key, payee K X txOut = .address key
  · obtain ⟨key, hkey⟩ := hp
    rw [enter_of_address hkey]
    have hcases : ∀ k', booksOf (⟨key, t, UInt32.ofNat k, none, txOut⟩ :: es) k' =
        if k' = key then (booksOf es key).credit t (UInt32.ofNat k) txOut else booksOf es k' := by
      intro k'
      by_cases hk' : k' = key
      · rw [if_pos hk', hk']
        exact booksOf_self ..
      · rw [if_neg hk']
        exact booksOf_of_ne hk'
    refine ⟨⟨⟨⟨htxid, hvalue, h.current key, fun _ o ho hpoint => ?_, nofun⟩, h.ok⟩,
      h.tracks.credit hout hkey, ?_, ?_⟩, ?_⟩
    · have hid : o.txid = t.txid := congrArg COutPoint.hash hpoint
      have hvout : o.vout = UInt32.ofNat k := congrArg COutPoint.n hpoint
      rcases hold key o ho with hin | ⟨-, hlt⟩
      · exact hnew (hid ▸ hin)
      · rw [hvout, hnat] at hlt
        omega
    · intro k'
      rw [hcases]
      split
      · exact (h.current key).credit
      · exact h.current k'
    · intro k' v hv
      rw [hcases] at hv
      split at hv
      · rcases Book.mem_credit_vios hv with hid | ⟨v', hv', hid⟩
        · exact Or.inl hid
        · exact hid ▸ h.vios key v' hv'
      · exact h.vios k' v hv
    · intro k' r hr
      rw [hcases] at hr
      split at hr
      · rcases List.mem_cons.mp hr with rfl | hr
        · refine Or.inr ⟨rfl, ?_⟩
          exact hnat.trans_lt (Nat.lt_succ_self k)
        · exact hold₁ key r hr
      · exact hold₁ k' r hr
  · rw [enter_of_not_address (not_exists.mp hp)]
    exact ⟨⟨h.ok, h.tracks.pass hout (not_exists.mp hp), h.current, h.vios⟩, hold₁⟩

/-- **The outputs of a transaction fit.** -/
theorem Entering.outputs (htxid : t.txid ≠ 0) (hnew : t.txid ∉ ids) :
    ∀ {outs : List CTxOut} {k : Nat} {es : List Entry} {U : Set COutPoint},
      Entering K X T ids t es U →
      (∀ key, ∀ r ∈ (booksOf es key).outputs,
        r.txid ∈ ids ∨ (r.txid = t.txid ∧ r.vout.toNat < k)) →
      k + outs.length ≤ 2 ^ 32 →
      (∀ i o, outs[i]? = some o → outputIn K T ⟨t.txid, UInt32.ofNat (k + i)⟩ = some o ∧
        0 ≤ o.nValue.toInt) →
      Entering K X T ids t (enterOutputs K X t k outs es)
          {o | o ∈ U ∨ ∃ i, i < outs.length ∧ o = ⟨t.txid, UInt32.ofNat (k + i)⟩} ∧
        ∀ key, ∀ r ∈ (booksOf (enterOutputs K X t k outs es) key).outputs,
          r.txid ∈ insert t.txid ids
  | [], k, es, U, h, hold, _, _ => by
    refine ⟨⟨h.ok, h.tracks.mono ?_, h.current, h.vios⟩, fun key r hr => ?_⟩
    · rintro o (ho | ⟨i, hi, -⟩)
      · exact ho
      · cases hi
    · rcases hold key r hr with hin | ⟨hid, -⟩
      · exact Or.inr hin
      · exact Or.inl hid
  | txOut :: outs, k, es, U, h, hold, hlen, hall => by
    rw [List.length_cons] at hlen
    obtain ⟨hout, hvalue⟩ := hall 0 txOut rfl
    obtain ⟨h', hold'⟩ := h.output htxid hold hnew (by omega) hout hvalue
    have hrest : ∀ i o, outs[i]? = some o →
        outputIn K T ⟨t.txid, UInt32.ofNat (k + 1 + i)⟩ = some o ∧ 0 ≤ o.nValue.toInt := by
      intro i o hi
      rw [show k + 1 + i = k + (i + 1) by omega]
      exact hall (i + 1) o hi
    obtain ⟨hdone, hids⟩ := Entering.outputs htxid hnew h' hold' (by omega) hrest
    refine ⟨⟨hdone.ok, hdone.tracks.mono ?_, hdone.current, hdone.vios⟩, hids⟩
    rintro o (ho | ⟨i, hi, rfl⟩)
    · exact Or.inl (Or.inr ho)
    · cases i with
      | zero => exact Or.inl (Or.inl rfl)
      | succ i =>
        refine Or.inr ⟨i, by simpa using hi, ?_⟩
        rw [show k + (i + 1) = k + 1 + i by omega]

/-! ## 4. The entries of a chain fit -/

/-- What is unspent is an output of a transaction of the list. -/
theorem LedgerOk.outputIn_unspent (hT : CollisionFree K T) (hok : LedgerOk K T txs) {o : COutPoint}
    (ho : o ∈ unspent (ledgerOf K txs)) :
    ∃ txOut, outputIn K T o = some txOut ∧ 0 ≤ txOut.nValue.toInt := by
  obtain ⟨tx, htx, hcr⟩ := exists_creator ho
  obtain ⟨hmem, hchk⟩ := hok.of_mem htx
  obtain ⟨hid, hn⟩ := (CTransaction.mem_creates hchk.vout_length).mp hcr
  refine ⟨tx.vout[o.n.toNat], ?_, hchk.values.nonneg _ (List.getElem_mem hn)⟩
  rw [hT.outputIn_eq hmem hid.symm, List.getElem?_eq_getElem hn]

/-- Inputs paired with the outputs they name. -/
theorem zip_prevOuts {vin : List CTxIn}
    (hall : ∀ i ∈ vin, ∃ o, outputIn K T i.prevout = some o) :
    (vin.zip ((vin.map CTxIn.prevout).filterMap (outputIn K T))).map Prod.fst = vin ∧
      ∀ p ∈ vin.zip ((vin.map CTxIn.prevout).filterMap (outputIn K T)),
        outputIn K T p.1.prevout = some p.2 := by
  induction vin with
  | nil => exact ⟨rfl, nofun⟩
  | cons i vin ih =>
    obtain ⟨⟨o, ho⟩, hall⟩ := List.forall_mem_cons.mp hall
    obtain ⟨hfst, hpairs⟩ := ih hall
    rw [List.map_cons, List.filterMap_cons_some ho, List.zip_cons_cons, List.map_cons, hfst]
    exact ⟨rfl, List.forall_mem_cons.mpr ⟨ho, hpairs⟩⟩

/-- The ids of a list of transactions. -/
def idsOf (K : Crypto) (l : List PlacedTx) : Set UInt256 := {id | ∃ p ∈ l, p.tx.getHash K = id}

/-- The inputs of a transaction that is in order, with the outputs they name. -/
theorem TxOk.ins (hT : CollisionFree K T) {tx : CTransaction}
    (htx : TxOk K T (unspent (ledgerOf K txs)) tx) (hok : LedgerOk K T txs) :
    ((tx.vin.zip (prevOutsIn K T tx)).map fun p => p.1.prevout) = tx.spends ∧
      ∀ p ∈ tx.vin.zip (prevOutsIn K T tx), outputIn K T p.1.prevout = some p.2 ∧
        0 ≤ p.2.nValue.toInt := by
  unfold prevOutsIn
  cases hcb : tx.isCoinBase with
  | true => simp [CTransaction.spends, hcb]
  | false =>
    have hspends : tx.spends = tx.vin.map CTxIn.prevout := by simp [CTransaction.spends, hcb]
    have hget : ∀ i ∈ tx.vin, ∃ o, outputIn K T i.prevout = some o ∧ 0 ≤ o.nValue.toInt := by
      intro i hi
      refine hok.outputIn_unspent hT (htx.move.ins_mem _ ?_)
      have hmem : i.prevout ∈ tx.spends := hspends ▸ List.mem_map_of_mem hi
      exact hmem
    obtain ⟨hfst, hpairs⟩ := @zip_prevOuts K T tx.vin fun i hi =>
      (hget i hi).imp fun _ ho => ho.1
    rw [hspends]
    refine ⟨?_, fun p hp => ⟨hpairs p hp, ?_⟩⟩
    · have hmap := congrArg (List.map CTxIn.prevout) hfst
      rwa [List.map_map] at hmap
    · obtain ⟨o, ho, hvalue⟩ := hget p.1 (hfst ▸ List.mem_map_of_mem hp)
      rw [hpairs p hp, Option.some_inj] at ho
      rwa [ho]

/-- **The entries of a chain fit**, if no id of it repeats. -/
theorem entriesOf_ok (hT : CollisionFree K T) :
    ∀ {l : List PlacedTx}, LedgerOk K T (l.map PlacedTx.tx) →
      (l.map fun p => p.tx.getHash K).Nodup → (∀ p ∈ l, p.tx.getHash K ≠ 0) →
      EntriesOk (entriesOf K X T l) ∧
        Tracks K X T (entriesOf K X T l) ↑(unspent (ledgerOf K (l.map PlacedTx.tx))) ∧
        ∀ key, (booksOf (entriesOf K X T l) key).IdsIn (idsOf K l)
  | [], _, _, _ => by
    refine ⟨trivial, fun o ho => ?_, fun key => ⟨nofun, nofun⟩⟩
    simp [unspent] at ho
  | p :: l, hok, hnd, hne => by
    obtain ⟨htx, hokl⟩ := hok
    rw [List.map_cons, List.nodup_cons] at hnd
    obtain ⟨hpne, hne⟩ := List.forall_mem_cons.mp hne
    obtain ⟨hes, htracks, hids⟩ := entriesOf_ok hT hokl hnd.2 hne
    have hlen := htx.checked.vout_length
    have hnew : p.tx.getHash K ∉ idsOf K l := by
      rintro ⟨q, hq, hid⟩
      exact hnd.1 (List.mem_map.mpr ⟨q, hq, hid⟩)
    have hstart : Entering K X T (idsOf K l) (p.txAt K X T) (entriesOf K X T l)
        ↑(unspent (ledgerOf K (l.map PlacedTx.tx))) :=
      ⟨hes, htracks, fun key => (hids key).current hnew,
        fun key v hv => Or.inr ((hids key).vios v hv)⟩
    obtain ⟨hspends, hpairs⟩ := htx.ins hT hokl
    obtain ⟨hins, holdIns⟩ := Entering.inputs (k := 0) (t := p.txAt K X T) hpne hnew hstart
      (fun key => (hids key).outputs) (by rw [hspends]; exact htx.move.nodup_ins)
      fun q hq => by
        refine ⟨htx.move.ins_mem _ ?_, hpairs q hq⟩
        have hmem : q.1.prevout ∈ p.tx.spends := hspends ▸ List.mem_map_of_mem hq
        exact hmem
    rw [hspends] at hins
    have houtputIn : ∀ i o, p.tx.vout[i]? = some o →
        outputIn K T ⟨p.tx.getHash K, UInt32.ofNat (0 + i)⟩ = some o ∧ 0 ≤ o.nValue.toInt := by
      intro i o hi
      have hlt : i < p.tx.vout.length := (List.getElem?_eq_some_iff.mp hi).1
      refine ⟨?_, htx.checked.values.nonneg o (List.mem_of_getElem? hi)⟩
      rw [hT.outputIn_eq htx.mem rfl]
      simp only [UInt32.toNat_ofNat', Nat.zero_add]
      rw [Nat.mod_eq_of_lt (by omega), hi]
    obtain ⟨hdone, hidsDone⟩ := Entering.outputs (k := 0) (t := p.txAt K X T) hpne hnew hins
      (fun key r hr => Or.inl (holdIns key r hr)) (by omega) houtputIn
    have hidsEq : idsOf K (p :: l) = insert (p.tx.getHash K) (idsOf K l) := by
      ext id
      simp [idsOf, eq_comm]
    refine ⟨hdone.ok, hdone.tracks.mono ?_, fun key => ?_⟩
    · intro o ho
      rw [List.map_cons, ledgerOf_cons, unspent, Finset.mem_coe, Move.mem_apply] at ho
      rcases ho with ⟨hoU, hnot⟩ | ho
      · exact Or.inl ⟨hoU, hnot⟩
      · obtain ⟨n, hn, rfl⟩ := List.mem_map.mp ho
        refine Or.inr ⟨n, List.mem_range.mp hn, ?_⟩
        rw [Nat.zero_add]
        rfl
    · rw [hidsEq]
      exact ⟨hidsDone key, hdone.vios key⟩

/-! ## 5. The previous outputs -/

/-- What is read at an entry of the index is a transaction of `T` with the entry's id. -/
def NodeEnv.Faithful (K : Crypto) (T : Set CTransaction) (env : NodeEnv) (txdb : TxDB) : Prop :=
  ∀ hash idx tx, txdb hash = some idx → readPrev env hash idx = some tx →
    tx ∈ T ∧ tx.getHash K = hash

variable {env : NodeEnv} {txdb : TxDB}

theorem getOutputs_outputIn (hT : CollisionFree K T) {inputs : MapPrevTx}
    (hin : ∀ hash idx tx, inputs hash = some (idx, tx) → tx ∈ T ∧ tx.getHash K = hash) :
    ∀ {vin : List CTxIn} {prevs : List CTxOut}, getOutputs inputs vin = .ok prevs →
      prevs = (vin.map CTxIn.prevout).filterMap (outputIn K T)
  | [], prevs, h => by
    cases h
    rfl
  | txin :: vin, prevs, h => by
    simp only [getOutputs, bind_eq_ok, pure_eq_ok] at h
    obtain ⟨txout, hget, rest, hrest, rfl⟩ := h
    obtain ⟨idx, txPrev, hprev, hout⟩ := getOutputFor_eq_ok.mp hget
    obtain ⟨hmem, hid⟩ := hin _ _ _ hprev
    have hname : outputIn K T txin.prevout = some txout := by rw [hT.outputIn_eq hmem hid, hout]
    rw [List.map_cons, List.filterMap_cons_some hname, getOutputs_outputIn hT hin hrest]

/-- **The previous outputs the explorer fetches are those the inputs name.** -/
theorem explorePrevOuts_eq (hT : CollisionFree K T) (hf : env.Faithful K T txdb)
    {tx : CTransaction} {prevs : List CTxOut} (h : explorePrevOuts env txdb tx = .ok prevs) :
    prevs = prevOutsIn K T tx := by
  simp only [explorePrevOuts, bind_eq_ok] at h
  obtain ⟨inputs, hfetch, hget⟩ := h
  have hread := getOutputs_outputIn hT
    (fetchInputs_forall (P := fun hash _ tx => tx ∈ T ∧ tx.getHash K = hash) hf hfetch) hget
  rw [hread, prevOutsIn, CTransaction.spends]
  split <;> rfl

/-! ## 6. Blocks -/

/-- The transactions of a block at a height, from number `nVtx` on. -/
def placed (nHeight : Int) : Int → List CTransaction → List PlacedTx
  | _, [] => []
  | nVtx, tx :: vtx => ⟨nHeight, nVtx, tx⟩ :: placed nHeight (nVtx + 1) vtx

theorem map_tx_placed (nHeight : Int) :
    ∀ (vtx : List CTransaction) (nVtx : Int), (placed nHeight nVtx vtx).map PlacedTx.tx = vtx
  | [], _ => rfl
  | tx :: vtx, nVtx => congrArg (tx :: ·) (map_tx_placed nHeight vtx (nVtx + 1))

/-- The previous outputs of a transaction cannot be fetched, and those of the transactions before
it can. -/
def FailsAfter (env : NodeEnv) (txdb : TxDB) (vtx done : List CTransaction) : Prop :=
  ∃ tx rest, vtx = done ++ tx :: rest ∧
    (∀ t ∈ done, ∃ prevs, explorePrevOuts env txdb t = .ok prevs) ∧
    ∃ err, explorePrevOuts env txdb tx = .error err

theorem FailsAfter.cons {tx : CTransaction} {vtx done : List CTransaction} {prevs : List CTxOut}
    (h : FailsAfter env txdb vtx done) (hprevs : explorePrevOuts env txdb tx = .ok prevs) :
    FailsAfter env txdb (tx :: vtx) (tx :: done) := by
  obtain ⟨t, rest, rfl, hdone, hfail⟩ := h
  exact ⟨t, rest, rfl, List.forall_mem_cons.mpr ⟨⟨prevs, hprevs⟩, hdone⟩, hfail⟩

theorem suffix_enterTx (tx : CTransaction) (prevs : List CTxOut) (es : List Entry) :
    es <:+ enterTx K X t tx prevs es :=
  (suffix_enterInputs ..).trans (suffix_enterOutputs ..)

theorem suffix_entriesOf (l' l : List PlacedTx) :
    entriesOf K X T l <:+ entriesOf K X T (l' ++ l) := by
  induction l' with
  | nil => exact List.suffix_rfl
  | cons p l' ih => exact ih.trans (suffix_enterTx ..)

section

variable (K X) in
/-- No routine stops while `ExploreConnectBlock` goes through these transactions. -/
def ConnectQuiet (env : NodeEnv) (txdb : TxDB) (hashBlock : UInt256) (nBlockTime : UInt32)
    (nHeight : Int) : Int → List CTransaction → ExploreState → Prop
  | _, [], _ => True
  | nVtx, tx :: vtx, e =>
    match explorePrevOuts env txdb tx with
    | .error _ => True
    | .ok prevs =>
      Txn.Quiet (connectRoutines K X (txAt K X nHeight nVtx tx prevs) tx prevs) e.work ∧
        ConnectQuiet env txdb hashBlock nBlockTime nHeight (nVtx + 1) vtx
          (exploreConnectTx K X env txdb hashBlock nBlockTime nHeight nVtx tx e).2

variable (K X) in
/-- No routine stops while `ExploreDisconnectBlock` goes through these transactions, the newest
first. -/
def DisconnectQuiet (env : NodeEnv) (txdb : TxDB) : List PlacedTx → ExploreState → Prop
  | [], _ => True
  | p :: ps, e =>
    match explorePrevOuts env txdb p.tx with
    | .error _ => True
    | .ok prevs =>
      Txn.Quiet (disconnectRoutines K X (txAt K X p.nHeight p.nVtx p.tx prevs) p.tx prevs)
          e.work ∧
        DisconnectQuiet env txdb ps (exploreDisconnectTx K X env txdb p.tx e).2

variable {hashBlock : UInt256} {nBlockTime : UInt32} {nHeight : Int}

/-- What going through some transactions of a block leaves. -/
structure Went (K : Crypto) (X : Explorer) (T : Set CTransaction) (vtx : List CTransaction)
    (e e' : ExploreState) (l : List PlacedTx) : Prop where
  describes : e'.Describes (entriesOf K X T l)
  exploreTx : ∀ txid ∉ vtx.map (·.getHash K), e'.db.exploreTx txid = e.db.exploreTx txid
  exploreBest : e'.db.exploreBest = e.db.exploreBest
  sentinel : e'.db.sentinel = e.db.sentinel

theorem Went.refl {vtx : List CTransaction} {e : ExploreState} {l : List PlacedTx}
    (h : e.Describes (entriesOf K X T l)) : Went K X T vtx e e l :=
  ⟨h, fun _ _ => rfl, rfl, rfl⟩

theorem Went.cons {tx : CTransaction} {vtx : List CTransaction} {e e₁ e' : ExploreState}
    {l : List PlacedTx} {txInfo : Option ExploreTx} (h : Went K X T vtx e₁ e' l)
    (htx : e₁.db.exploreTx = Function.update e.db.exploreTx (tx.getHash K) txInfo)
    (hbest : e₁.db.exploreBest = e.db.exploreBest) (hsentinel : e₁.db.sentinel = e.db.sentinel) :
    Went K X T (tx :: vtx) e e' l := by
  refine ⟨h.describes, fun txid hnot => ?_, h.exploreBest.trans hbest,
    h.sentinel.trans hsentinel⟩
  rw [List.map_cons, List.mem_cons, not_or] at hnot
  rw [h.exploreTx txid hnot.2, htx, Function.update_of_ne hnot.1]

/-- **The loop of `ExploreConnectBlock`** enters the transactions, up to the first whose previous
outputs cannot be fetched. -/
theorem exploreConnectTxs_went (hT : CollisionFree K T) (hf : env.Faithful K T txdb) :
    ∀ {vtx : List CTransaction} {nVtx : Int} {l : List PlacedTx} {e : ExploreState},
      e.Describes (entriesOf K X T l) →
      EntriesOk (entriesOf K X T ((placed nHeight nVtx vtx).reverse ++ l)) →
      EntriesSmall (entriesOf K X T ((placed nHeight nVtx vtx).reverse ++ l)) →
      ((∀ tx ∈ vtx, ReadableTx K X tx (prevOutsIn K T tx)) →
        ConnectQuiet K X env txdb hashBlock nBlockTime nHeight nVtx vtx e) ∧
      ∃ r e' done rest, exploreConnectTxs K X env txdb hashBlock nBlockTime nHeight nVtx vtx e =
          (r, e') ∧ vtx = done ++ rest ∧
        Went K X T vtx e e' ((placed nHeight nVtx done).reverse ++ l) ∧
        (r = true → rest = []) ∧ (r = false → FailsAfter env txdb vtx done)
  | [], _, _, e, h, _, _ =>
    ⟨fun _ => trivial, true, e, [], [], rfl, rfl, .refl h, fun _ => rfl, nofun⟩
  | tx :: vtx, nVtx, l, e, h, hok, hs => by
    have hplaced : ∀ done, (placed nHeight nVtx (tx :: done)).reverse ++ l =
        (placed nHeight (nVtx + 1) done).reverse ++ ⟨nHeight, nVtx, tx⟩ :: l := by
      simp [placed]
    rw [hplaced] at hok hs
    rw [exploreConnectTxs, ConnectQuiet]
    cases hprevs : explorePrevOuts env txdb tx with
    | error err =>
      have hfail : exploreConnectTx K X env txdb hashBlock nBlockTime nHeight nVtx tx e =
          (false, e) := by
        rw [exploreConnectTx, hprevs]
      rw [hfail]
      exact ⟨fun _ => trivial, false, e, [], tx :: vtx, rfl, rfl, .refl h, nofun,
        fun _ => ⟨tx, vtx, rfl, nofun, err, hprevs⟩⟩
    | ok prevs =>
      obtain rfl := explorePrevOuts_eq hT hf hprevs
      have hsuffix := suffix_entriesOf (K := K) (X := X) (T := T)
        (placed nHeight (nVtx + 1) vtx).reverse (⟨nHeight, nVtx, tx⟩ :: l)
      obtain ⟨e₁, txInfo, hrun, hdesc, htx, hbest, hsentinel, hquiet⟩ :=
        @exploreConnectTx_describes K X env txdb tx _ e _ hashBlock nBlockTime nHeight nVtx h
          hprevs (hok.of_suffix hsuffix) (hs.of_suffix hsuffix)
      obtain ⟨hquiet', r, e', done, rest, hrun', rfl, hwent, htrue, hfalse⟩ :=
        exploreConnectTxs_went hT hf hdesc hok hs
      rw [hrun]
      refine ⟨fun hread => ?_, r, e', tx :: done, rest, hrun', rfl, ?_, htrue,
        fun hr => (hfalse hr).cons hprevs⟩
      · obtain ⟨hfirst, hrest⟩ := List.forall_mem_cons.mp hread
        exact ⟨hquiet hfirst, hquiet' hrest⟩
      · rw [hplaced]
        exact hwent.cons htx hbest hsentinel

/-- **The loop of `ExploreDisconnectBlock`** takes the transactions back, the newest first, up to
the first whose previous outputs cannot be fetched. -/
theorem exploreDisconnectTxs_went (hT : CollisionFree K T) (hf : env.Faithful K T txdb)
    {l : List PlacedTx} :
    ∀ {ps : List PlacedTx} {e : ExploreState}, e.Describes (entriesOf K X T (ps ++ l)) →
      EntriesOk (entriesOf K X T (ps ++ l)) → EntriesSmall (entriesOf K X T (ps ++ l)) →
      ((∀ p ∈ ps, ReadableTx K X p.tx (prevOutsIn K T p.tx)) →
        DisconnectQuiet K X env txdb ps e) ∧
      ∃ r e' done rest, exploreDisconnectTxs K X env txdb (ps.map PlacedTx.tx) e = (r, e') ∧
        ps = done ++ rest ∧ Went K X T (ps.map PlacedTx.tx) e e' (rest ++ l) ∧
        (r = true → rest = [] ∧ ∀ p ∈ ps, e'.db.exploreTx (p.tx.getHash K) = none) ∧
        (r = false → FailsAfter env txdb (ps.map PlacedTx.tx) (done.map PlacedTx.tx))
  | [], e, h, _, _ =>
    ⟨fun _ => trivial, true, e, [], [], rfl, rfl, .refl h,
      fun _ => ⟨rfl, nofun⟩, nofun⟩
  | p :: ps, e, h, hok, hs => by
    rw [List.map_cons, exploreDisconnectTxs, DisconnectQuiet]
    cases hprevs : explorePrevOuts env txdb p.tx with
    | error err =>
      have hfail : exploreDisconnectTx K X env txdb p.tx e = (false, e) := by
        rw [exploreDisconnectTx, hprevs]
      rw [hfail]
      exact ⟨fun _ => trivial, false, e, [], p :: ps, rfl, rfl, .refl h, nofun,
        fun _ => ⟨p.tx, ps.map PlacedTx.tx, rfl, nofun, err, hprevs⟩⟩
    | ok prevs =>
      obtain rfl := explorePrevOuts_eq hT hf hprevs
      have hsuffix := suffix_entriesOf (K := K) (X := X) (T := T) [p] (ps ++ l)
      obtain ⟨e₁, hrun, hdesc, htx, hbest, hsentinel, hquiet⟩ := exploreDisconnectTx_describes h hprevs hok hs
      obtain ⟨hquiet', r, e', done, rest, hrun', rfl, hwent, htrue, hfalse⟩ :=
        exploreDisconnectTxs_went hT hf hdesc (hok.of_suffix hsuffix) (hs.of_suffix hsuffix)
      rw [hrun]
      refine ⟨fun hread => ?_, r, e', p :: done, rest, hrun', rfl, hwent.cons htx hbest hsentinel,
        fun hr => ?_, fun hr => (hfalse hr).cons hprevs⟩
      · obtain ⟨hfirst, hrest⟩ := List.forall_mem_cons.mp hread
        exact ⟨hquiet hfirst, hquiet' hrest⟩
      · obtain ⟨hnil, hnone⟩ := htrue hr
        refine ⟨hnil, List.forall_mem_cons.mpr ⟨?_, hnone⟩⟩
        by_cases hmem : p.tx.getHash K ∈ (done ++ rest).map fun q => q.tx.getHash K
        · obtain ⟨q, hq, hid⟩ := List.mem_map.mp hmem
          rw [← hid]
          exact hnone q hq
        · rw [hwent.exploreTx _ (by simpa using hmem), htx, Function.update_self]

end

end Breakout
