/-
# `DisconnectBlock` after `ConnectBlock`

Of an outpoint the transaction index can say three things: it has it unspent, it has it spent, or
it has nothing under the id or no such output (`TxDB.status`).  Disconnecting the block that was
just connected gives every outpoint its old status back, with one exception, which the comment in
`DisconnectInputs` accepts: a transaction that came in over an entry whose outputs were all spent
takes the entry with it, so outputs that were spent before are absent afterwards.  The set of
unspent outputs does not see the difference.

The disconnection walks the transactions last to first.  What carries the induction is that no
transaction after `tx` has an id that `tx` spends from: such an id is either one of the index
with an unspent output, which the rule against overwriting protects, or one of an earlier
transaction of the block, and the ids of a block are distinct.
-/
import Breakout.DoubleSpend
import Breakout.Commitment

namespace Breakout

open Lib

variable {K : Crypto}

/-! ## 1. The status of an outpoint -/

/-- What an index says of an outpoint. -/
inductive Status where
  | absent
  | spent
  | unspent
deriving DecidableEq, Repr

/-- The status of a spent marker. -/
def CDiskTxPos.status (pos : CDiskTxPos) : Status := if pos.isNull then .unspent else .spent

/-- The status of an outpoint. -/
def TxDB.status (db : TxDB) (o : COutPoint) : Status :=
  match db o.hash with
  | none => .absent
  | some idx => (idx.vSpent[o.n.toNat]?.map CDiskTxPos.status).getD .absent

variable {db txdb queued' : TxDB} {o : COutPoint} {tx : CTransaction} {flags : UInt32}
  {posThisTx : CDiskTxPos} {env : NodeEnv} {ancestors : List CBlockIndex} {ctx : ConnectCtx}
  {s s' : ConnectState}

theorem status_eq_unspent :
    db.status o = .unspent ↔ Unspent db o := by
  unfold TxDB.status Unspent
  cases db o.hash with
  | none => simp
  | some idx =>
    cases hpos : idx.vSpent[o.n.toNat]? with
    | none => simp [hpos]
    | some pos => simp [hpos, CDiskTxPos.status]

/-- Writing one spent marker changes the status of that outpoint only. -/
theorem status_setSpent {db : TxDB} {idx : CTxIndex} {prevout : COutPoint} {pos : CDiskTxPos}
    (hdb : db prevout.hash = some idx) (hn : prevout.n.toNat < idx.vSpent.length)
    (o : COutPoint) :
    (db.update prevout.hash (idx.setSpent prevout.n pos)).status o =
      if o = prevout then pos.status else db.status o := by
  by_cases h : o.hash = prevout.hash
  · by_cases hn' : prevout.n.toNat = o.n.toNat
    · have ho : o = prevout := COutPoint.ext_of_hash h hn'.symm
      subst ho
      simp [TxDB.status, TxDB.update, CTxIndex.setSpent, hn]
    · have ho : o ≠ prevout := fun he => hn' (by rw [he])
      rw [if_neg ho]
      simp only [TxDB.status, TxDB.update, h, Function.update_self, hdb, CTxIndex.setSpent,
        List.getElem?_set_ne hn']
  · have ho : o ≠ prevout := fun he => h (by rw [he])
    simp [TxDB.status, TxDB.update, h, ho]

theorem status_enter (db : TxDB) (hash : UInt256) (pos : CDiskTxPos) (n : Nat) (h : o.hash ≠ hash) :
    (db.update hash (.new pos n)).status o = db.status o := by
  simp [TxDB.status, TxDB.update, h]

theorem status_erase (db : TxDB) (hash : UInt256) (o : COutPoint) :
    (db.erase hash).status o = if o.hash = hash then .absent else db.status o := by
  by_cases h : o.hash = hash
  · simp [TxDB.status, TxDB.erase, h]
  · simp [TxDB.status, TxDB.erase, h]

theorem exists_entry_of_status (h : db.status o ≠ .absent) :
    ∃ idx, db o.hash = some idx ∧ o.n.toNat < idx.vSpent.length := by
  unfold TxDB.status at h
  cases hdb : db o.hash with
  | none => simp [hdb] at h
  | some idx =>
    refine ⟨idx, rfl, ?_⟩
    by_contra hn
    rw [hdb] at h
    simp [List.getElem?_eq_none (not_lt.mp hn)] at h

/-! ## 2. One transaction -/

/-- The second loop of `ConnectInputs` turns unspent outputs into spent ones, and no more. -/
theorem spendInputs_status (hpos : posThisTx.isNull = false) :
    ∀ {vin : List CTxIn} {i : Nat} {inputs : MapPrevTx} {queued : TxDB},
      InputsAgree inputs (queued.over txdb) →
      spendInputs K tx flags posThisTx i vin inputs queued = .ok queued' →
      ∀ o, (queued'.over txdb).status o =
        if o ∈ vin.map CTxIn.prevout then .spent else (queued.over txdb).status o
  | [], i, inputs, queued, _, h, o => by
    cases h
    simp
  | txin :: vin, i, inputs, queued, hagree, h, o => by
    unfold spendInputs at h
    split at h
    · cases h
    · next idx txPrev hin =>
      split at h
      · cases h
      · next pos hspent =>
        simp only [bind_eq_ok, refuse_eq_ok] at h
        obtain ⟨-, -, -, -, h⟩ := h
        have hview := hagree _ _ _ hin
        have hn : txin.prevout.n.toNat < idx.vSpent.length :=
          (List.getElem?_eq_some_iff.mp hspent).1
        have hagree' := hagree.update txin.prevout.hash (idx.setSpent txin.prevout.n posThisTx)
          txPrev
        rw [spendInputs_status hpos hagree' h o, TxDB.over_update, status_setSpent hview hn]
        have hstatus : posThisTx.status = .spent := by simp [CDiskTxPos.status, hpos]
        simp only [hstatus, List.map_cons, List.mem_cons]
        by_cases hmem : o ∈ vin.map CTxIn.prevout
        · simp [hmem]
        · by_cases ho : o = txin.prevout <;> simp [hmem, ho]

theorem connectInputs_status {queued : TxDB} {inputs : MapPrevTx} {pindexBlock : CBlockIndex}
    (hcb : tx.isCoinBase = false) (hpos : posThisTx.isNull = false)
    (hf : Fetched env (queued.over txdb) inputs)
    (h : connectInputs K env.clock.fTestNet tx inputs queued posThisTx pindexBlock ancestors
      flags = .ok queued')
    (o : COutPoint) :
    (queued'.over txdb).status o =
      if o ∈ tx.spends then .spent else (queued.over txdb).status o := by
  simp only [connectInputs, hcb, Bool.false_eq_true, if_false, bind_eq_ok, pure_eq_ok] at h
  obtain ⟨v, -, -, -, q, hspend, _, -, -, -, rfl⟩ := h
  rw [spendInputs_status hpos hf.agree hspend o,
    CTransaction.spends, hcb, if_neg Bool.false_ne_true]

/-- **What one transaction of a block does to the statuses**, outside its own id. -/
theorem connectTx_status (hfile : ctx.pindex.nFile ≠ 0xffffffff)
    (h : connectTx K ctx s tx = .ok s') (ho : o.hash ≠ tx.getHash K) :
    (s'.mapQueuedChanges.over ctx.txdb).status o =
      if o ∈ tx.spends then .spent else (s.mapQueuedChanges.over ctx.txdb).status o := by
  simp only [connectTx, bind_eq_ok, refuse_eq_ok, pure_eq_ok] at h
  obtain ⟨-, -, -, -, -, -, vOut, -, s₁, hbranch, rfl⟩ := h
  rw [TxDB.over_update, status_enter _ _ _ _ ho]
  unfold connectBranch at hbranch
  cases hcb : tx.isCoinBase with
  | true =>
    simp only [hcb, if_true] at hbranch
    obtain ⟨_, _, -, -, rfl⟩ := connectCoinBase_spec hbranch
    simp [CTransaction.spends, hcb, ConnectState.advance]
  | false =>
    simp only [hcb, Bool.false_eq_true, if_false] at hbranch
    have hnull : CDiskTxPos.isNull ⟨ctx.pindex.nFile, ctx.pindex.nBlockPos, s.nTxPos⟩ = false := by
      simpa [CDiskTxPos.isNull] using hfile
    simp only [connectSpender, bind_eq_ok, pure_eq_ok, refuse_eq_ok] at hbranch
    obtain ⟨inputs, hfetch, _, -, -, -, _, -, _, -, _, -, _, -, queued, hconn, rfl⟩ := hbranch
    exact connectInputs_status hcb hnull (fetchInputs_spec hfetch) hconn o

/-- Giving back succeeds on an index that has the outputs. -/
theorem giveBackInputs_status :
    ∀ {vin : List CTxIn} {txdb : TxDB},
      (∀ txin ∈ vin, txdb.status txin.prevout ≠ .absent) →
      ∃ txdb', giveBackInputs vin txdb = .ok txdb' ∧
        ∀ o, txdb'.status o = if o ∈ vin.map CTxIn.prevout then .unspent else txdb.status o
  | [], txdb, _ => ⟨txdb, rfl, by simp⟩
  | txin :: vin, txdb, hpres => by
    obtain ⟨idx, hidx, hn⟩ := exists_entry_of_status (hpres txin List.mem_cons_self)
    have hset := fun o => @status_setSpent _ _ _ .null hidx hn o
    have hnull : CDiskTxPos.null.status = .unspent := rfl
    obtain ⟨txdb', hgive, hstatus⟩ := @giveBackInputs_status vin
      (txdb.update txin.prevout.hash (idx.setSpent txin.prevout.n .null)) (by
        intro t ht
        rw [hset, hnull]
        split
        · exact nofun
        · exact hpres t (List.mem_cons_of_mem _ ht))
    refine ⟨txdb', ?_, ?_⟩
    · simp only [giveBackInputs, hidx, bind_eq_ok, refuse_eq_ok, not_le]
      exact ⟨(), hn, hgive⟩
    · intro o
      simp only [hstatus o, hset, hnull, List.map_cons, List.mem_cons]
      by_cases hmem : o ∈ vin.map CTxIn.prevout
      · simp [hmem]
      · by_cases ho : o = txin.prevout <;> simp [hmem, ho]

/-- **Disconnecting a transaction** whose previous outputs the index has. -/
theorem disconnectInputs_status {txdb : TxDB} {tx : CTransaction}
    (hpres : ∀ o ∈ tx.spends, txdb.status o ≠ .absent) :
    ∃ txdb', disconnectInputs K txdb tx = .ok txdb' ∧ ∀ o, txdb'.status o =
      if o.hash = tx.getHash K then .absent
      else if o ∈ tx.spends then .unspent else txdb.status o := by
  unfold disconnectInputs CTransaction.spends
  cases hcb : tx.isCoinBase with
  | true =>
    refine ⟨txdb.erase (tx.getHash K), rfl, fun o => ?_⟩
    simp [status_erase]
  | false =>
    simp only [CTransaction.spends, hcb, Bool.false_eq_true, if_false, List.mem_map,
      forall_exists_index, and_imp, forall_apply_eq_imp_iff₂] at hpres
    obtain ⟨db, hgive, hstatus⟩ := giveBackInputs_status hpres
    refine ⟨db.erase (tx.getHash K), ?_, fun o => ?_⟩
    · simp [hgive]
    · simp [status_erase, hstatus]

/-- What a transaction of a block spends, its block saw unspent. -/
theorem connectTx_spends (hfile : ctx.pindex.nFile ≠ 0xffffffff)
    (h : connectTx K ctx s tx = .ok s') :
    ∀ o ∈ tx.spends, Unspent (s.mapQueuedChanges.over ctx.txdb) o := by
  intro o ho
  obtain ⟨prevs, hct, -⟩ := connectTx_spec hfile h
  obtain ⟨mid, _, ⟨hcb, -⟩ | ⟨hcb, hci⟩, -⟩ := hct.entered
  · simp [CTransaction.spends, hcb] at ho
  · simp only [CTransaction.spends, hcb, Bool.false_eq_true, if_false, List.mem_map] at ho
    obtain ⟨txin, htxin, rfl⟩ := ho
    obtain ⟨_, _, _, hs⟩ := exists_of_forall₂ hci.spent txin htxin
    exact hs.unspent

/-! ## 3. The block -/

theorem disconnectTxs_append (l : List CTransaction) (tx : CTransaction) (txdb : TxDB) :
    disconnectTxs K (l ++ [tx]) txdb = disconnectTxs K l txdb >>= fun db =>
      disconnectInputs K db tx := by
  induction l generalizing txdb with
  | nil => exact bind_pure (disconnectInputs K txdb tx)
  | cons t l ih =>
    simp only [List.cons_append, disconnectTxs, bind_assoc, ih]

/-- What the block sees unspent the database has unspent, or an earlier transaction of the block
made. -/
def ViewOk (ctx : ConnectCtx) (ids : List UInt256) (view : TxDB) : Prop :=
  ∀ o, Unspent view o → Unspent ctx.txdb o ∨ o.hash ∈ ids

theorem viewOk_connectTx {ids : List UInt256} (hfile : ctx.pindex.nFile ≠ 0xffffffff)
    (h : connectTx K ctx s tx = .ok s') (hok : ViewOk ctx ids (s.mapQueuedChanges.over ctx.txdb)) :
    ViewOk ctx (tx.getHash K :: ids) (s'.mapQueuedChanges.over ctx.txdb) := by
  intro o ho
  by_cases hid : o.hash = tx.getHash K
  · exact Or.inr (by simp [hid])
  · have hstatus := connectTx_status hfile h hid
    rw [status_eq_unspent.mpr ho] at hstatus
    split at hstatus
    · cases hstatus
    · exact (hok o (status_eq_unspent.mp hstatus.symm)).imp_right (List.mem_cons_of_mem _)

/-- No transaction of the block has an id under which the database has an unspent output. -/
theorem connectTxs_fresh (hfile : ctx.pindex.nFile ≠ 0xffffffff) :
    ∀ {vtx : List CTransaction} {s : ConnectState}, connectTxs K ctx vtx s = .ok s' →
      ∀ tx ∈ vtx, ∀ o, Unspent ctx.txdb o → o.hash ≠ tx.getHash K
  | [], _, _, tx, htx => by cases htx
  | t :: vtx, s, h, tx, htx => by
    simp only [connectTxs, bind_eq_ok] at h
    obtain ⟨s₁, ht, hrest⟩ := h
    rcases List.mem_cons.mp htx with rfl | htx
    · obtain ⟨_, hct, -⟩ := connectTx_spec hfile ht
      exact hct.fresh
    · exact connectTxs_fresh hfile hrest tx htx

/-- **The loop undone.**  `ids` are the ids of the transactions already connected. -/
theorem disconnectTxs_connectTxs (hfile : ctx.pindex.nFile ≠ 0xffffffff) :
    ∀ {vtx : List CTransaction} {s : ConnectState} {ids : List UInt256},
      (vtx.map (·.getHash K)).Nodup → (∀ tx ∈ vtx, tx.getHash K ∉ ids) →
      ViewOk ctx ids (s.mapQueuedChanges.over ctx.txdb) →
      connectTxs K ctx vtx s = .ok s' →
      ∃ txdb', disconnectTxs K vtx.reverse (s'.mapQueuedChanges.over ctx.txdb) = .ok txdb' ∧
        ∀ o, txdb'.status o = if o.hash ∈ vtx.map (·.getHash K) then .absent
          else (s.mapQueuedChanges.over ctx.txdb).status o := by
  intro vtx
  induction vtx with
  | nil =>
    intro s ids _ _ _ h
    cases h
    exact ⟨_, rfl, by simp⟩
  | cons tx vtx ih =>
    intro s ids hnd hids hok h
    have hfreshAll := connectTxs_fresh hfile h
    simp only [connectTxs, bind_eq_ok] at h
    obtain ⟨s₁, htx, hrest⟩ := h
    rw [List.map_cons, List.nodup_cons] at hnd
    have hids₁ : ∀ t ∈ vtx, t.getHash K ∉ tx.getHash K :: ids := by
      intro t ht
      rw [List.mem_cons, not_or]
      exact ⟨fun he => hnd.1 (he ▸ List.mem_map_of_mem ht), hids t (List.mem_cons_of_mem _ ht)⟩
    obtain ⟨db₁, hdis, hst⟩ := ih hnd.2 hids₁
      (viewOk_connectTx hfile htx hok) hrest
    have hspent : ∀ o ∈ tx.spends, Unspent (s.mapQueuedChanges.over ctx.txdb) o :=
      connectTx_spends hfile htx
    -- what `tx` spends was unspent, so no transaction from `tx` on has its id
    have hfresh : ∀ o ∈ tx.spends, o.hash ≠ tx.getHash K ∧ o.hash ∉ vtx.map (·.getHash K) := by
      have hno : ∀ o ∈ tx.spends, ∀ t ∈ tx :: vtx, o.hash ≠ t.getHash K := by
        intro o ho t ht hid
        rcases hok o (hspent o ho) with hun | hin
        · exact hfreshAll t ht o hun hid
        · exact hids t ht (hid ▸ hin)
      intro o ho
      refine ⟨hno o ho tx List.mem_cons_self, fun hmem => ?_⟩
      obtain ⟨t, ht, hid⟩ := List.mem_map.mp hmem
      exact hno o ho t (List.mem_cons_of_mem _ ht) hid.symm
    have hst₁ : ∀ o ∈ tx.spends, db₁.status o = .spent := by
      intro o ho
      obtain ⟨hne, hnot⟩ := hfresh o ho
      rw [hst o, if_neg hnot, connectTx_status hfile htx hne, if_pos ho]
    obtain ⟨db₂, hdis₂, hst₂⟩ := @disconnectInputs_status K db₁ tx
      fun o ho => by rw [hst₁ o ho]; simp
    refine ⟨db₂, ?_, ?_⟩
    · rw [List.reverse_cons, disconnectTxs_append, hdis]
      exact hdis₂
    · intro o
      simp only [hst₂ o, List.map_cons, List.mem_cons]
      by_cases hid : o.hash = tx.getHash K
      · simp [hid]
      · by_cases hsp : o ∈ tx.spends
        · simp [hid, hsp, (hfresh o hsp).2, status_eq_unspent.mpr (hspent o hsp)]
        · by_cases hmem : o.hash ∈ vtx.map (·.getHash K)
          · simp [hid, hsp, hst o, hmem]
          · simp [hid, hsp, hst o, hmem, connectTx_status hfile htx hid]

/-- The block the disconnection takes back, as the loop connected it. -/
theorem disconnectTxs_connectBlock {txdb' : TxDB} {pos : DiskBlockPos} {block : CBlock}
    {pprev pindex' : CBlockIndex}
    (h : connectBlock K env txdb (newBlockIndex pos block pprev) pprev ancestors block false =
      .ok (pindex', txdb')) :
    ∃ txdb'', disconnectTxs K block.vtx.reverse txdb' = .ok txdb'' ∧
      (∀ o, txdb''.status o =
        if o.hash ∈ block.vtx.map (·.getHash K) then .absent else txdb.status o) ∧
      ∀ tx ∈ block.vtx, ∀ o, Unspent txdb o → o.hash ≠ tx.getHash K := by
  obtain ⟨l, hcon⟩ := connectBlock_spec h
  simp only [connectBlock, connectBody, bind_eq_ok, pure_eq_ok, Prod.mk.injEq, Prod.exists] at h
  obtain ⟨_, _, ⟨_, -, s, hloop, _, -, _, -, -, rfl⟩, _, -, -, rfl⟩ := h
  have hview : ViewOk (ctxOf env txdb pos block pprev ancestors) []
      ((ConnectState.init env.clock.nAdjustedTime (newBlockIndex pos block pprev) false
        block.vtx).mapQueuedChanges.over txdb) := by
    intro o ho
    rw [ConnectState.init, TxDB.empty_over] at ho
    exact Or.inl ho
  have hfile : (ctxOf env txdb pos block pprev ancestors).pindex.nFile ≠ 0xffffffff := pos.notNull
  obtain ⟨txdb'', hdis, hst⟩ := disconnectTxs_connectTxs hfile hcon.checked.txids_nodup
    (fun _ _ => List.not_mem_nil) hview hloop
  refine ⟨txdb'', hdis, ?_, connectTxs_fresh hfile hloop⟩
  intro o
  rw [hst o, ConnectState.init, TxDB.empty_over]
  rfl

/-- **Disconnecting a block just connected** always gets through the index.  It leaves the set of
unspent outpoints as it was, and every outpoint with the status it had, except that nothing is
left under the ids of the block itself. -/
theorem disconnectBlock_restores {env : NodeEnv} {txdb txdb' : TxDB} {pos : DiskBlockPos}
    {block : CBlock} {pprev pindex' : CBlockIndex} {ancestors : List CBlockIndex}
    (h : connectBlock K env txdb (newBlockIndex pos block pprev) pprev ancestors block false =
      .ok (pindex', txdb')) :
    ∃ txdb'', (∀ env' : NodeEnv, env'.fExplore = true →
        disconnectBlock K env' txdb' block = .ok txdb'') ∧
      (∀ o, Unspent txdb'' o ↔ Unspent txdb o) ∧
      (∀ o, o.hash ∉ block.vtx.map (·.getHash K) → txdb''.status o = txdb.status o) ∧
      ∀ o, o.hash ∈ block.vtx.map (·.getHash K) → txdb''.status o = .absent := by
  obtain ⟨txdb'', hdis, hst, hfresh⟩ := disconnectTxs_connectBlock h
  refine ⟨txdb'', ?_, ?_, ?_, ?_⟩
  · intro env' hexp
    simp only [disconnectBlock, bind_eq_ok, refuse_eq_ok, pure_eq_ok]
    exact ⟨txdb'', hdis, (), by simp [hexp], rfl⟩
  · intro o
    rw [← status_eq_unspent, ← status_eq_unspent, hst o]
    split
    · next hmem =>
      obtain ⟨tx, htx, hid⟩ := List.mem_map.mp hmem
      refine ⟨fun h => Status.noConfusion h, fun hun => ?_⟩
      exact absurd hid.symm (hfresh tx htx o (status_eq_unspent.mp hun))
    · exact Iff.rfl
  · intro o ho
    rw [hst o, if_neg ho]
  · intro o ho
    rw [hst o, if_pos ho]

/-- With an input that spends, and the old status of its outpoint. -/
theorem disconnectBlock_restores_spendBlock :
    ∃ pindex' txdb' txdb'', spendTip.connect spendCrypto (spendDisk goodSig) (spendBlock goodSig) =
        .ok (pindex', txdb') ∧
      disconnectBlock spendCrypto (spendTip.envWith (spendDisk goodSig)) txdb'
        (spendBlock goodSig) = .ok txdb'' ∧
      ∀ o, Unspent txdb'' o ↔ Unspent spendTip.txdb o := by
  have hgood : (spendTip.connect spendCrypto (spendDisk goodSig)
      (spendBlock goodSig)).accepts = true := by decide +kernel
  obtain ⟨⟨pindex', txdb'⟩, hconn⟩ := accepts_iff.mp hgood
  obtain ⟨txdb'', hdis, hun, -⟩ := disconnectBlock_restores hconn
  exact ⟨pindex', txdb', txdb'', hconn, hdis _ rfl, hun⟩

/-! ## 4. An id that comes back -/

/-- The entries of an index are those of transactions on disk, and a spent marker points at a
transaction that spends the output. -/
def IndexOk (K : Crypto) (disk : Disk) (db : TxDB) : Prop :=
  ∀ hash idx, db hash = some idx → ∃ tx, disk idx.pos = some tx ∧ tx.getHash K = hash ∧
    idx.vSpent.length = tx.vout.length ∧
    ∀ o : COutPoint, o.hash = hash → ∀ pos, idx.vSpent[o.n.toNat]? = some pos →
      pos.isNull = false → ∃ t, disk pos = some t ∧ o ∈ t.spends

/-- A transaction that spends the output of the example's coinbase. -/
def respendTx : CTransaction :=
  { spendTx goodSig with vin := [⟨⟨spendCoinbase.getHash spendCrypto, 0⟩, goodSig, 0xffffffff⟩] }

/-- The coinbase of the example was mined before, and its output spent. -/
def spentTip : Tip :=
  { spendTip with
    env := { spendTip.env with
      disk := fun pos =>
        if pos = ⟨1, 500, 600⟩ then some spendCoinbase
        else if pos = ⟨1, 800, 900⟩ then some respendTx else none }
    txdb := fun hash =>
      if hash = spendCoinbase.getHash spendCrypto then some ⟨⟨1, 500, 600⟩, [⟨1, 800, 900⟩]⟩
      else if hash = respendTx.getHash spendCrypto then some (.new ⟨1, 800, 900⟩ 1) else none }

theorem spentTip_indexOk : IndexOk spendCrypto spentTip.env.disk spentTip.txdb := by
  intro hash idx hidx
  simp only [spentTip] at hidx
  split at hidx
  · next hh =>
    cases hidx
    refine ⟨spendCoinbase, rfl, hh.symm, rfl, ?_⟩
    rintro ⟨h, n⟩ ho pos hpos -
    have hn : n.toNat < 1 := (List.getElem?_eq_some_iff.mp hpos).1
    have hn0 : n = 0 := UInt32.toNat_inj.mp (Nat.lt_one_iff.mp hn)
    have hh' : h = spendCoinbase.getHash spendCrypto := ho.trans hh
    subst hn0 hh'
    cases hpos
    exact ⟨respendTx, by decide +kernel, by decide +kernel⟩
  · split at hidx
    · next hh =>
      cases hidx
      refine ⟨respendTx, by decide +kernel, hh.symm, rfl, ?_⟩
      rintro o - pos hpos hnull
      rw [CTxIndex.new, List.getElem?_replicate, Option.ite_none_right_eq_some] at hpos
      cases hpos.2
      cases hnull
    · cases hidx

/-- A block with that coinbase again. -/
def repeatBlock : CBlock :=
  let block : CBlock := ⟨7, 0, 0, 1777836782, 0x1d00ffff, 0, 601, 0, 1, [spendCoinbase], []⟩
  { block with hashMerkleRoot := block.buildMerkleTree spendCrypto }

/-- **A spent output is forgotten.**  The block comes in over an entry whose only output is spent,
and takes the entry with it when it is disconnected. -/
theorem overwritten_not_restored :
    IndexOk spendCrypto spentTip.env.disk spentTip.txdb ∧
      ∃ pindex' txdb' txdb'', spentTip.connect spendCrypto spentTip.env.disk repeatBlock =
          .ok (pindex', txdb') ∧
        disconnectBlock spendCrypto spentTip.env txdb' repeatBlock = .ok txdb'' ∧
        spentTip.txdb.status ⟨spendCoinbase.getHash spendCrypto, 0⟩ = .spent ∧
        txdb''.status ⟨spendCoinbase.getHash spendCrypto, 0⟩ = .absent := by
  have haccepts : (spentTip.connect spendCrypto spentTip.env.disk repeatBlock).accepts = true := by
    decide +kernel
  obtain ⟨⟨pindex', txdb'⟩, hconn⟩ := accepts_iff.mp haccepts
  obtain ⟨txdb'', hdis, hst, -⟩ := disconnectTxs_connectBlock hconn
  refine ⟨spentTip_indexOk, pindex', txdb', txdb'', hconn, ?_, by decide +kernel, ?_⟩
  · simp only [disconnectBlock, bind_eq_ok, refuse_eq_ok, pure_eq_ok]
    exact ⟨txdb'', hdis, (), by simp [spentTip, spendTip], rfl⟩
  · rw [hst, if_pos (by simp [repeatBlock])]

end Breakout
