/-
# The pool after a block is connected

A block joins the best chain on two ways.  `SetBestChainInner` extends the chain by one block and
removes the block's transactions from the pool.  `Reorganize` connects a branch, and for each
transaction of the branch it also calls `removeConflicts`.

Neither leaves a pool that agrees with the chain.  The first does not look for conflicts at all.  The
second passes over a conflict that is equal to the block's transaction for `operator==`, which does
not compare all that is hashed.  `cleanups_clean_iff` says when each is enough.
-/
import Breakout.MemPool
import Breakout.ExploreRuns

namespace Breakout

open Lib

variable (K : Crypto)

/-! ## 1. The two ways -/

namespace CTxMemPool

/-- "Delete redundant memory transactions", in `SetBestChainInner`. -/
def deleteRedundant : List CTransaction → CTxMemPool → Option CTxMemPool
  | [], pool => some pool
  | tx :: vtx, pool => (pool.remove K 1 tx false).bind (deleteRedundant vtx)

/-- "Delete redundant memory transactions that are in the connected branch", in `Reorganize`. -/
def deleteConflicts (fuel : Nat) : List CTransaction → CTxMemPool → Option CTxMemPool
  | [], pool => some pool
  | tx :: vDelete, pool =>
    (pool.remove K 1 tx false).bind fun pool =>
      (pool.removeConflicts K fuel tx).bind (deleteConflicts fuel vDelete)

/-- Nothing in the pool spends what one of these transactions spends. -/
def Clean (pool : CTxMemPool) (vtx : List CTransaction) : Prop :=
  ∀ hash d, pool.mapTx hash = some d → ∀ tx ∈ vtx, ∀ o ∈ tx.spends, o ∉ d.prevouts

end CTxMemPool

variable {K} {T : Set CTransaction} {pool pool' : CTxMemPool} {tx : CTransaction}

/-! ## 2. What they leave -/

/-- What `accept` enters has passed `CheckTransaction`. -/
theorem CTxMemPool.mapTx_accept {env : PoolEnv} {fCheckInputs : Bool} {hash : UInt256}
    {d : CTransaction} (hd : (pool.accept K env tx fCheckInputs).2.mapTx hash = some d) :
    pool.mapTx hash = some d ∨ (hash = tx.getHash K ∧ d = tx ∧ CheckedTx tx) := by
  unfold accept at hd
  split_ifs at hd with hcheck
  all_goals try exact Or.inl hd
  obtain ⟨_, hok⟩ := accepts_iff.mp (Bool.eq_true_of_not_eq_false hcheck)
  by_cases hh : hash = tx.getHash K
  · subst hh
    simp only [addUnchecked, Function.update_self, Option.some_inj] at hd
    exact Or.inr ⟨rfl, hd.symm, checkTransaction_spec hok⟩
  · simp only [addUnchecked, Function.update_of_ne hh] at hd
    exact Or.inl hd

/-- The transactions of the pool have passed `CheckTransaction`. -/
theorem PoolRun.checked (hT : CollisionFree K T) (h : PoolRun K T pool) :
    ∀ {hash d}, pool.mapTx hash = some d → CheckedTx d := by
  induction h with
  | empty => exact nofun
  | accept env fCheckInputs _ _ ih =>
    intro hash d hd
    rcases CTxMemPool.mapTx_accept hd with hold | ⟨-, rfl, hchecked⟩
    · exact ih hold
    · exact hchecked
  | remove hrun htx hremove ih =>
    intro hash d hd
    exact ih ((CTxMemPool.remove_sub hT (hrun.ok hT) htx hremove).2 hd)
  | removeConflicts hrun _ hremove ih =>
    intro hash d hd
    exact ih ((CTxMemPool.removeConflictsLoop_spec hT (hrun.ok hT) hremove).2.1 hd)
  | clear => exact nofun

namespace CTxMemPool

/-- A removal that does not recurse returns. -/
theorem remove_plain_returns (hT : CollisionFree K T) (hok : pool.Ok K T) (htx : tx ∈ T) :
    ∃ pool', pool.remove K 1 tx false = some pool' ∧ pool'.Ok K T ∧ ∀ {hash d},
      pool'.mapTx hash = some d ↔ hash ≠ tx.getHash K ∧ pool.mapTx hash = some d := by
  have hsome : ∃ pool', pool.remove K 1 tx false = some pool' := by
    rw [remove]
    split
    · exact ⟨pool, rfl⟩
    · exact ⟨_, rfl⟩
  obtain ⟨pool', hpool'⟩ := hsome
  exact ⟨pool', hpool', remove_plain hT hok htx hpool'⟩

/-- **What an extension leaves** is all but the transactions of the block. -/
theorem deleteRedundant_spec (hT : CollisionFree K T) :
    ∀ {vtx : List CTransaction} {pool : CTxMemPool}, pool.Ok K T → (∀ tx ∈ vtx, tx ∈ T) →
      ∃ pool', pool.deleteRedundant K vtx = some pool' ∧ ∀ {hash d},
        pool'.mapTx hash = some d ↔ hash ∉ vtx.map (·.getHash K) ∧ pool.mapTx hash = some d
  | [], pool, _, _ => ⟨pool, rfl, by simp⟩
  | tx :: vtx, pool, hok, hvtx => by
    obtain ⟨htx, hvtx⟩ := List.forall_mem_cons.mp hvtx
    obtain ⟨pool₁, hpool₁, hok₁, hleft₁⟩ := remove_plain_returns hT hok htx
    obtain ⟨pool', hpool', hleft⟩ := deleteRedundant_spec hT hok₁ hvtx
    refine ⟨pool', by rw [deleteRedundant, hpool₁, Option.bind_some, hpool'], ?_⟩
    intro hash d
    rw [hleft, hleft₁, List.map_cons, List.mem_cons, not_or]
    tauto

/-- A transaction of the pool that spends what a transaction of the chain spends, and is another
one for `operator==` and by its id. -/
structure Rival (K : Crypto) (pool : CTxMemPool) (tx c : CTransaction) : Prop where
  mem : pool.mapTx (c.getHash K) = some c
  id_ne : c.getHash K ≠ tx.getHash K
  shares : ∃ o ∈ tx.prevouts, o ∈ c.prevouts
  ne : c.opEq tx = false

/-- What `Reorganize` leaves for its transactions. -/
structure ConflictsDeleted (K : Crypto) (T : Set CTransaction) (vDelete : List CTransaction)
    (pool pool' : CTxMemPool) : Prop where
  ok : pool'.Ok K T
  sub : ∀ {hash d}, pool'.mapTx hash = some d → pool.mapTx hash = some d
  left : ∀ {hash d}, pool'.mapTx hash = some d → hash ∉ vDelete.map (·.getHash K) ∧
    ∀ tx ∈ vDelete, ∀ o ∈ tx.prevouts, o ∈ d.prevouts → d.opEq tx = true
  only : ∀ {d}, pool.mapTx (d.getHash K) = some d → pool'.mapTx (d.getHash K) = none →
    d.getHash K ∈ vDelete.map (·.getHash K) ∨
      ∃ tx ∈ vDelete, ∃ c, Rival K pool tx c ∧
        (d.getHash K = c.getHash K ∨ pool.Descends K c d)

theorem ConflictsDeleted.nil (hok : pool.Ok K T) : ConflictsDeleted K T [] pool pool := by
  refine ⟨hok, id, fun _ => ⟨List.not_mem_nil, nofun⟩, fun hd hnone => ?_⟩
  rw [hnone] at hd
  cases hd

theorem ConflictsDeleted.cons (hT : CollisionFree K T) {fuel : Nat}
    {vDelete : List CTransaction} {pool₁ pool₂ : CTxMemPool} (hok₁ : pool₁.Ok K T)
    (hleft₁ : ∀ {hash d},
      pool₁.mapTx hash = some d ↔ hash ≠ tx.getHash K ∧ pool.mapTx hash = some d)
    (hremove : pool₁.removeConflicts K fuel tx = some pool₂)
    (h : ConflictsDeleted K T vDelete pool₂ pool') :
    ConflictsDeleted K T (tx :: vDelete) pool pool' := by
  obtain ⟨-, hsub₂, hsame, honly⟩ := removeConflictsLoop_spec hT hok₁ hremove
  have hsub : ∀ {hash d}, pool₂.mapTx hash = some d → pool.mapTx hash = some d := fun hd =>
    (hleft₁.mp (hsub₂ hd)).2
  refine ⟨h.ok, fun hd => hsub (h.sub hd), ?_, ?_⟩
  · intro hash d hd
    obtain ⟨hid, hop⟩ := h.left hd
    have hd₂ := h.sub hd
    refine ⟨?_, List.forall_mem_cons.mpr ⟨fun o ho hmem => hsame o ho hash d hd₂ hmem, hop⟩⟩
    rw [List.map_cons, List.mem_cons, not_or]
    exact ⟨(hleft₁.mp (hsub₂ hd₂)).1, hid⟩
  · intro d hd hgone
    rw [List.map_cons, List.mem_cons]
    by_cases hid : d.getHash K = tx.getHash K
    · exact Or.inl (Or.inl hid)
    have hd₁ := hleft₁.mpr ⟨hid, hd⟩
    cases hmid : pool₂.mapTx (d.getHash K) with
    | none =>
      obtain ⟨c, hc, hshares, hne, hrest⟩ := honly d hd₁ hmid
      obtain ⟨hidc, hc'⟩ := hleft₁.mp hc
      refine Or.inr ⟨tx, List.mem_cons_self, c, ⟨hc', hidc, hshares, hne⟩, ?_⟩
      exact hrest.imp id fun hdesc => hdesc.mono fun hx => (hleft₁.mp hx).2
    | some y =>
      have hy := hsub hmid
      rw [hd, Option.some_inj] at hy
      subst hy
      rcases h.only hmid hgone with hin | ⟨t, ht, c, hc, hrest⟩
      · exact Or.inl (Or.inr hin)
      · refine Or.inr ⟨t, List.mem_cons_of_mem _ ht, c, ⟨hsub hc.mem, hc.id_ne, hc.shares, hc.ne⟩, ?_⟩
        exact hrest.imp id fun hdesc => hdesc.mono hsub

/-- The loop of `removeConflicts` returns if the recursive removals do. -/
theorem removeConflictsLoop_returns (hT : CollisionFree K T) {fuel : Nat}
    (hreturns : ∀ {pool : CTxMemPool} {c : CTransaction}, pool.Ok K T → c ∈ T →
      ∃ pool', pool.remove K fuel c true = some pool') :
    ∀ {l : List COutPoint} {pool : CTxMemPool}, pool.Ok K T →
      ∃ pool', removeConflictsLoop K fuel tx l pool = some pool'
  | [], pool, _ => ⟨pool, rfl⟩
  | o :: l, pool, hok => by
    rw [removeConflictsLoop]
    cases hnext : pool.mapNextTx o with
    | none => exact removeConflictsLoop_returns hT hreturns hok
    | some it =>
      obtain ⟨ptx, j⟩ := it
      obtain ⟨c, hc, -⟩ := (hok.inverse _ _ _).mp hnext
      have hcT := (hok.keyed hc).2.1
      simp only [hc]
      split
      · exact removeConflictsLoop_returns hT hreturns hok
      · obtain ⟨pool₁, hpool₁⟩ := hreturns hok hcT
        simp only [hpool₁]
        exact removeConflictsLoop_returns hT hreturns (remove_sub hT hok hcT hpool₁).1

/-- **What `Reorganize` leaves**, on every budget that is large enough. -/
theorem deleteConflicts_spec (hT : CollisionFree K T) {rank : UInt256 → Nat}
    (hrank : Ranked K T rank) :
    ∃ N, ∀ fuel ≥ N, ∀ {vDelete : List CTransaction} {pool : CTxMemPool}, pool.Ok K T →
      (∀ tx ∈ vDelete, tx ∈ T) → ∃ pool', pool.deleteConflicts K fuel vDelete = some pool' ∧
        ConflictsDeleted K T vDelete pool pool' := by
  obtain ⟨N, hN⟩ := remove_returns hT hrank
  refine ⟨N, fun fuel hfuel vDelete => ?_⟩
  induction vDelete with
  | nil => exact fun {pool} hok _ => ⟨pool, rfl, .nil hok⟩
  | cons tx vDelete ih =>
    intro pool hok hv
    obtain ⟨htx, hv⟩ := List.forall_mem_cons.mp hv
    obtain ⟨pool₁, hpool₁, hok₁, hleft₁⟩ := remove_plain_returns hT hok htx
    have hloop : ∃ pool₂, removeConflictsLoop K fuel tx tx.prevouts pool₁ = some pool₂ :=
      removeConflictsLoop_returns hT (hN fuel hfuel) hok₁
    obtain ⟨pool₂, hpool₂⟩ := hloop
    obtain ⟨pool', hpool', hdeleted⟩ := ih (removeConflictsLoop_spec hT hok₁ hpool₂).1 hv
    have hconf : pool₁.removeConflicts K fuel tx = some pool₂ := hpool₂
    refine ⟨pool', ?_, hdeleted.cons hT hok₁ hleft₁ hconf⟩
    rw [deleteConflicts, hpool₁, Option.bind_some, hconf, Option.bind_some, hpool']

end CTxMemPool

/-! ## 3. A rival and its descendants -/

section Chain

variable {txs : List CTransaction}

variable {t d : CTransaction} {o : COutPoint}

/-- What a transaction of the chain spends is an output of one of them. -/
theorem LedgerOk.parent_mem (hok : LedgerOk K T txs) (ht : t ∈ txs) (ho : o ∈ t.spends) :
    o.hash ∈ txs.map (·.getHash K) := by
  obtain ⟨newer, older, rfl⟩ := List.append_of_mem ht
  obtain ⟨p, hp, hcr⟩ := hok.spends_older ho
  have hp' : p ∈ newer ++ t :: older := List.mem_append_right _ (List.mem_cons_of_mem _ hp)
  have hlen := (hok.of_mem hp').2.vout_length
  rw [((CTransaction.mem_creates hlen).mp hcr).1]
  exact List.mem_map_of_mem hp'

/-- Two transactions of the chain that spend the same outpoint are one. -/
theorem LedgerOk.eq_of_spends (hok : LedgerOk K T txs) (hids : (txs.map (·.getHash K)).Nodup)
    {t' : CTransaction} (ht : t ∈ txs) (ht' : t' ∈ txs) (ho : o ∈ t.spends) (ho' : o ∈ t'.spends) :
    t = t' := by
  by_contra hne
  have hnd := consumed_nodup hok.valid (nodup_created hok hids)
  rw [consumed_ledgerOf, List.nodup_flatMap] at hnd
  have hsymm : Std.Symm (Function.onFun List.Disjoint CTransaction.spends) :=
    ⟨fun _ _ h => h.symm⟩
  exact hnd.2.forall ht ht' hne ho ho'

/-- The transaction of the chain that has the id of one of the pool spends the same. -/
theorem CTxMemPool.Ok.spends_eq_of_id (hT : CollisionFree K T) (hok : LedgerOk K T txs)
    (hpool : pool.Ok K T) (hd : pool.mapTx (d.getHash K) = some d)
    (hid : d.getHash K ∈ txs.map (·.getHash K)) :
    ∃ t ∈ txs, t.getHash K = d.getHash K ∧ t.spends = d.prevouts := by
  obtain ⟨t, ht, hid⟩ := List.mem_map.mp hid
  obtain ⟨-, hdT, hcb⟩ := hpool.keyed hd
  obtain ⟨-, hspends⟩ := hT.spends_eq (hok.of_mem ht).1 hdT hid
  refine ⟨t, ht, hid, ?_⟩
  rw [hspends, CTransaction.spends, hcb]
  rfl

/-- **Up from a descendant.**  If all that a descendant spends is on the chain, then so is the
transaction it descends from, with its own id. -/
theorem CTxMemPool.Descends.id_mem (hT : CollisionFree K T) (hok : LedgerOk K T txs)
    (hpool : pool.Ok K T) {c : CTransaction} (h : pool.Descends K c d)
    (hspent : ∀ o ∈ d.prevouts, o.hash ∈ txs.map (·.getHash K)) :
    c.getHash K ∈ txs.map (·.getHash K) := by
  induction h with
  | child _ hspends =>
    obtain ⟨i, -, hmem⟩ := hspends
    exact hspent _ hmem
  | @step p d hp hd hspends ih =>
    obtain ⟨i, -, hmem⟩ := hspends
    have hpin : pool.mapTx (p.getHash K) = some p := by
      cases hp <;> assumption
    obtain ⟨t, ht, -, hprevs⟩ := hpool.spends_eq_of_id hT hok hpin (hspent _ hmem)
    exact ih fun o ho => hok.parent_mem ht (hprevs ▸ ho)

/-- A coinbase has the null outpoint only. -/
theorem CTransaction.mem_spends_of_not_null (ho : o ∈ tx.prevouts) (hnull : o.isNull = false) :
    o ∈ tx.spends := by
  rw [spends]
  split
  · next hcb =>
    obtain ⟨⟨txin, hvin, hn⟩, -⟩ := isCoinBase_iff.mp hcb
    rw [prevouts, hvin, List.map_singleton, List.mem_singleton] at ho
    rw [ho, hn] at hnull
    cases hnull
  · exact ho

/-- A transaction equal to one of the chain for `operator==` spends the same. -/
theorem CTransaction.prevouts_eq_of_opEq {a b : CTransaction} (h : a.opEq b = true) :
    a.prevouts = b.prevouts ∧ a.isCoinBase = b.isCoinBase := by
  have hsame : a.vin = b.vin ∧ a.vout = b.vout := by
    unfold CTransaction.opEq at h
    split at h
    all_goals
      have hall := of_decide_eq_true h
      exact ⟨hall.2.2.1, hall.2.2.2.1⟩
  have hprevs : a.prevouts = b.prevouts := by rw [prevouts, prevouts, hsame.1]
  exact ⟨hprevs, isCoinBase_congr hprevs hsame.2⟩

theorem CTxMemPool.Ok.spends_eq_of_opEq (hpool : pool.Ok K T) {hash : UInt256}
    (hd : pool.mapTx hash = some d) (heq : d.opEq tx = true) : tx.spends = d.prevouts := by
  obtain ⟨hprevs, hcb⟩ := CTransaction.prevouts_eq_of_opEq heq
  rw [CTransaction.spends, ← hcb, (hpool.keyed hd).2.2, hprevs]
  rfl

/-- **A transaction that looks like one of the chain stays.**  It is no rival, and it descends from
none. -/
theorem CTxMemPool.ConflictsDeleted.keeps_equal (hT : CollisionFree K T) (hok : LedgerOk K T txs)
    (hids : (txs.map (·.getHash K)).Nodup) (hpool : pool.Ok K T) {vDelete : List CTransaction}
    (hsub : ∀ tx ∈ vDelete, tx ∈ txs) (h : ConflictsDeleted K T vDelete pool pool')
    (hd : pool.mapTx (d.getHash K) = some d)
    (hchecked : ∀ {hash x}, pool.mapTx hash = some x → CheckedTx x)
    (hnot : d.getHash K ∉ vDelete.map (·.getHash K)) (htx : tx ∈ vDelete) (heq : d.opEq tx = true) :
    pool'.mapTx (d.getHash K) = some d := by
  cases hleft : pool'.mapTx (d.getHash K) with
  | some x =>
    have hx := h.sub hleft
    rw [hd] at hx
    exact hx.symm
  | none =>
    exfalso
    have hspends := hpool.spends_eq_of_opEq hd heq
    rcases h.only hd hleft with hin | ⟨t, ht, c, hc, hrest⟩
    · exact hnot hin
    obtain ⟨o, ho, hmem⟩ := hc.shares
    -- an outpoint of the pool is not null, so the transaction of the chain is no coinbase
    have hot : o ∈ t.spends := by
      have hnull : o.isNull = false := by
        obtain ⟨txin, htxin, rfl⟩ := List.mem_map.mp hmem
        exact (hchecked hc.mem).not_null (hpool.keyed hc.mem).2.2 txin htxin
      exact CTransaction.mem_spends_of_not_null ho hnull
    rcases hrest with hid | hdesc
    · -- the rival is the transaction itself
      have hdc : d = c := by
        have hcm := hc.mem
        rw [← hid, hd, Option.some_inj] at hcm
        exact hcm
      have htt := hok.eq_of_spends hids (hsub t ht) (hsub tx htx) hot (hspends ▸ hdc ▸ hmem)
      have hne := hc.ne
      rw [← hdc, htt, heq] at hne
      cases hne
    · have hidc := hdesc.id_mem hT hok hpool fun o ho =>
        hok.parent_mem (hsub tx htx) (hspends ▸ ho)
      obtain ⟨t', ht', hid', hspends'⟩ := hpool.spends_eq_of_id hT hok hc.mem hidc
      have htt := hok.eq_of_spends hids (hsub t ht) ht' hot (hspends' ▸ hmem)
      exact hc.id_ne (by rw [htt, hid'])

end Chain

/-! ## 4. When the pool is clean -/

/-- **When a cleanup is enough.**  The pool of any run, and a chain on which the blocks `new` were
connected last.  After an extension nothing in the pool spends what they spend if and only if nothing
but their own transactions did so before.  After a reorganisation it is so if and only if no
transaction of the pool is equal to one of theirs for `operator==` and has another id. -/
theorem cleanups_clean_iff (hT : CollisionFree K T) {rank : UInt256 → Nat}
    (hrank : CTxMemPool.Ranked K T rank) (hpool : PoolRun K T pool) {fTestNet : Bool}
    {g : DiskBlockPos} {s : ChainState} (hchain : AcceptedRun K T fTestNet g s)
    {new old : Blocks} (hblocks : s.blocks = new ++ old) :
    (∃ pool', pool.deleteRedundant K (txsOf new).reverse = some pool' ∧
      (pool'.Clean (txsOf new).reverse ↔ ∀ hash d, pool.mapTx hash = some d →
        hash ∉ (txsOf new).map (·.getHash K) →
          ∀ tx ∈ txsOf new, ∀ o ∈ tx.spends, o ∉ d.prevouts)) ∧
    ∃ N, ∀ fuel ≥ N, ∃ pool', pool.deleteConflicts K fuel (txsOf new).reverse = some pool' ∧
      (pool'.Clean (txsOf new).reverse ↔ ∀ hash d, pool.mapTx hash = some d →
        hash ∉ (txsOf new).map (·.getHash K) → ∀ tx ∈ txsOf new, d.opEq tx = false) := by
  have hok := hpool.ok hT
  obtain ⟨hledger, hids⟩ := hchain.ledger hT
  have htxs : txsOf s.blocks = txsOf new ++ txsOf old := by
    rw [hblocks, txsOf, List.flatMap_append]
    rfl
  have hsub : ∀ tx ∈ (txsOf new).reverse, tx ∈ txsOf s.blocks := by
    intro tx htx
    rw [htxs]
    exact List.mem_append_left _ (List.mem_reverse.mp htx)
  have hmem : ∀ tx ∈ (txsOf new).reverse, tx ∈ T := fun tx htx => (hledger.of_mem (hsub tx htx)).1
  have hidmem : ∀ hash, hash ∈ (txsOf new).reverse.map (·.getHash K) ↔
      hash ∈ (txsOf new).map (·.getHash K) := by
    intro hash
    rw [List.map_reverse, List.mem_reverse]
  refine ⟨?_, ?_⟩
  · obtain ⟨pool', hpool', hleft⟩ := CTxMemPool.deleteRedundant_spec hT hok hmem
    refine ⟨pool', hpool', ?_⟩
    simp only [CTxMemPool.Clean, hleft, hidmem, List.mem_reverse]
    exact ⟨fun h hash d hd hnot => h hash d ⟨hnot, hd⟩, fun h hash d hd => h hash d hd.2 hd.1⟩
  · obtain ⟨N, hN⟩ := CTxMemPool.deleteConflicts_spec hT hrank
    refine ⟨N, fun fuel hfuel => ?_⟩
    obtain ⟨pool', hpool', hdeleted⟩ := hN fuel hfuel hok hmem
    refine ⟨pool', hpool', ?_, ?_⟩
    · intro hclean hash d hd hnot tx htx
      by_contra hne
      have heq := Bool.eq_true_of_not_eq_false hne
      obtain ⟨hid, -, -⟩ := hok.keyed hd
      have htx' := List.mem_reverse.mpr htx
      subst hid
      have hkept := hdeleted.keeps_equal hT hledger hids hok hsub hd (hpool.checked hT)
        (fun hin => hnot ((hidmem _).mp hin)) htx' heq
      -- it has an input, which its equal in the block has too
      obtain ⟨txin, ins, hvin⟩ := List.exists_cons_of_ne_nil (hpool.checked hT hd).vin_ne
      have ho : txin.prevout ∈ d.prevouts := by
        rw [CTransaction.prevouts, hvin]
        exact List.mem_cons_self
      exact hclean _ d hkept tx htx' txin.prevout (hok.spends_eq_of_opEq hd heq ▸ ho) ho
    · intro hne hash d hd tx htx o ho hmemd
      obtain ⟨hnot, heq⟩ := hdeleted.left hd
      have hprev : o ∈ tx.prevouts := by
        rw [CTransaction.spends] at ho
        split at ho
        · cases ho
        · exact ho
      have hfalse := hne hash d (hdeleted.sub hd) (fun hin => hnot ((hidmem _).mpr hin)) tx
        (List.mem_reverse.mp htx)
      rw [heq tx htx o hprev hmemd] at hfalse
      cases hfalse

/-! ## 5. A transaction that spends what the last block spent -/

/-- It differs from a transaction of the block in the one field that `operator==` leaves out, and
needs no signature, as that does not. -/
def rivalSpend : CTransaction := { lastSpend with nServiceTypeID := 1 }

/-- The transactions of the example. -/
def rivalTxs : List CTransaction := rivalSpend :: tallTxs

/-- The pool with the rival. -/
def rivalPool : CTxMemPool := (CTxMemPool.empty.accept forkCrypto poolEnv rivalSpend true).2

/-- The pool with the transaction of the block. -/
def lastPool : CTxMemPool := (CTxMemPool.empty.accept forkCrypto poolEnv lastSpend true).2

/-- How far a transaction is from a coinbase. -/
def rivalRank (hash : UInt256) : Nat :=
  if hash = innerSpend.getHash forkCrypto then 2
  else if hash ∈ [outerSpend, lastSpend, rivalSpend].map (·.getHash forkCrypto) then 1
  else 0

theorem rivalTxs_collisionFree : CollisionFree forkCrypto {tx | tx ∈ rivalTxs} := by
  have hsized : ∀ tx ∈ rivalTxs, tx.serialize.length < 2 ^ 64 := by decide +kernel
  have hinj : ∀ a ∈ rivalTxs, ∀ b ∈ rivalTxs, a.getHash forkCrypto = b.getHash forkCrypto →
      a.hashed.serialize = b.hashed.serialize := by decide +kernel
  exact ⟨hsized, hinj⟩

theorem rivalTxs_ranked : CTxMemPool.Ranked forkCrypto {tx | tx ∈ rivalTxs} rivalRank := by
  have hrank : ∀ p ∈ rivalTxs, ∀ d ∈ rivalTxs,
      (∃ o ∈ d.prevouts, o.hash = p.getHash forkCrypto) →
      rivalRank (p.getHash forkCrypto) < rivalRank (d.getHash forkCrypto) := by decide +kernel
  rintro p hp d hd ⟨i, -, hmem⟩
  exact hrank p hp d hd ⟨_, hmem, rfl⟩

theorem AcceptedRun.mono {T' : Set CTransaction} (hsub : T ⊆ T') {fTestNet : Bool}
    {g : DiskBlockPos} {s : ChainState} (h : AcceptedRun K T fTestNet g s) :
    AcceptedRun K T' fTestNet g s := by
  induction h with
  | genesis => exact .genesis
  | connect _ htest hholds hmem htime hconn ih =>
    exact .connect ih htest (fun tx htx => hsub (hholds tx htx)) (fun tx htx => hsub (hmem tx htx))
      htime hconn
  | disconnect _ hd ih => exact .disconnect ih hd

theorem rivalChain_run :
    AcceptedRun forkCrypto {tx | tx ∈ rivalTxs} true testGenesis.pos tallChain :=
  tallChain_run.1.mono fun _ htx => List.mem_cons_of_mem _ htx

/-- The last block of the chain. -/
theorem txsOf_top : txsOf (tallChain.blocks.take 1) = (tallVtx 12).reverse := by
  have htxs : ∀ l : Blocks,
      txsOf (l.take 1) = ((l.map Prod.snd).take 1).flatMap fun b => b.vtx.reverse := by
    intro l
    rw [← List.map_take, List.flatMap_map]
    rfl
  rw [htxs, tallChain_run.2]
  rfl

/-- A pool with the block's own transaction is clean after either way. -/
theorem cleanups_clean_last :
    (∃ pool', lastPool.deleteRedundant forkCrypto (tallVtx 12) = some pool' ∧
      pool'.Clean (tallVtx 12)) ∧
    ∃ N, ∀ fuel ≥ N, ∃ pool', lastPool.deleteConflicts forkCrypto fuel (tallVtx 12) = some pool' ∧
      pool'.Clean (tallVtx 12) := by
  have hrun : PoolRun forkCrypto {tx | tx ∈ rivalTxs} lastPool :=
    .accept poolEnv true .empty (by decide +kernel)
  have hall := cleanups_clean_iff rivalTxs_collisionFree rivalTxs_ranked hrun rivalChain_run
    (List.take_append_drop 1 _).symm
  rw [txsOf_top, List.reverse_reverse] at hall
  have honly : ∀ hash d, lastPool.mapTx hash = some d →
      hash ∈ (tallVtx 12).reverse.map (·.getHash forkCrypto) := by
    intro hash d hd
    rw [lastPool] at hd
    rcases CTxMemPool.mapTx_accept hd with hold | ⟨hid, -, -⟩
    · cases hold
    · rw [hid]
      decide +kernel
  obtain ⟨⟨pool', hpool', hiff⟩, N, hN⟩ := hall
  refine ⟨⟨pool', hpool', hiff.mpr fun hash d hd hnot => absurd (honly hash d hd) hnot⟩, N, ?_⟩
  intro fuel hfuel
  obtain ⟨pool', hpool', hiff⟩ := hN fuel hfuel
  exact ⟨pool', hpool', hiff.mpr fun hash d hd hnot => absurd (honly hash d hd) hnot⟩

/-- **A rival is left**, after an extension and after a reorganisation: the pool then has a
transaction that spends what the new block spent. -/
theorem rival_left :
    PoolRun forkCrypto {tx | tx ∈ rivalTxs} rivalPool ∧
      AcceptedRun forkCrypto {tx | tx ∈ rivalTxs} true testGenesis.pos tallChain ∧
      txsOf (tallChain.blocks.take 1) = (tallVtx 12).reverse ∧
      (∃ pool', rivalPool.deleteRedundant forkCrypto (tallVtx 12) = some pool' ∧
        ¬ pool'.Clean (tallVtx 12)) ∧
      ∃ pool', rivalPool.deleteConflicts forkCrypto 1 (tallVtx 12) = some pool' ∧
        ¬ pool'.Clean (tallVtx 12) := by
  have hlast : lastSpend ∈ tallVtx 12 ∧ (∃ o ∈ lastSpend.spends, o ∈ rivalSpend.prevouts) := by
    decide +kernel
  have hdirty : ∀ pool : CTxMemPool,
      pool.mapTx (rivalSpend.getHash forkCrypto) = some rivalSpend → ¬ pool.Clean (tallVtx 12) := by
    intro pool hin hclean
    obtain ⟨hmem, o, ho, hprev⟩ := hlast
    exact hclean _ _ hin _ hmem o ho hprev
  have hextended : ∃ pool' ∈ rivalPool.deleteRedundant forkCrypto (tallVtx 12),
      pool'.mapTx (rivalSpend.getHash forkCrypto) = some rivalSpend := by decide +kernel
  have hreorganized : ∃ pool' ∈ rivalPool.deleteConflicts forkCrypto 1 (tallVtx 12),
      pool'.mapTx (rivalSpend.getHash forkCrypto) = some rivalSpend := by decide +kernel
  obtain ⟨pool₁, hpool₁, hin₁⟩ := hextended
  obtain ⟨pool₂, hpool₂, hin₂⟩ := hreorganized
  exact ⟨.accept poolEnv true .empty List.mem_cons_self, rivalChain_run, txsOf_top,
    ⟨pool₁, hpool₁, hdirty _ hin₁⟩, pool₂, hpool₂, hdirty _ hin₂⟩

end Breakout
