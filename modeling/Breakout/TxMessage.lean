/-
# What the wallets are told of a `tx` message

The handler of a `tx` message tells the wallets of the transaction once the pool has taken it
(`SyncWithWallets`), and adds what it receives and sends to the balances of what is not confirmed.
It then resolves the orphans that waited for it.  For each of these that the pool takes it calls
`SyncWithWallets` as well, but with the transaction of the message, and it adds no amounts.

So the wallets are told what they should be only where nothing is resolved: `walletCalls_iff` says
that every transaction the message brings into the pool is passed to the wallets once, and its
amounts added once, if and only if the pool takes none of the orphans listed under the id of the
message's transaction.
-/
import Breakout.MerkleTx
import Breakout.OrphanTxs

namespace Breakout

open Lib Std

variable (K : Crypto)

/-! ## 1. The handler's calls -/

/-- A call that changes a wallet: a transaction is passed to `SyncWithWallets`, or its amounts are
added to `mapReceived` and `mapSent`. -/
inductive WalletCall where
  | syncWithWallets (tx : CTransaction)
  | addAmounts (tx : CTransaction)
deriving DecidableEq

/-- The transactions that enter the pool, and the calls, in order. -/
structure Told where
  admitted : List CTransaction
  calls : List WalletCall
deriving DecidableEq

/-- The inner loop of the resolution, as `offerAll`: `tx` is the transaction of the message. -/
def tellAll (env : OrphanEnv) (held : ExtTreeMap UInt256 CTransaction) (tx : CTransaction) :
    List UInt256 → CTxMemPool → Told
  | [], _ => ⟨[], []⟩
  | orphanTxHash :: bucket, pool =>
    match held[orphanTxHash]? with
    | none => tellAll env held tx bucket pool
    | some orphanTx =>
      match acceptToMemoryPool K env pool orphanTx with
      | (.accepted, pool') =>
        let rest := tellAll env held tx bucket pool'
        ⟨orphanTx :: rest.admitted, .syncWithWallets tx :: rest.calls⟩
      | (.refused, pool') => tellAll env held tx bucket pool'
      | (.missingInputs, pool') => tellAll env held tx bucket pool'

/-- The resolution, as `resolveLoop`. -/
def tellLoop (env : OrphanEnv) (held : ExtTreeMap UInt256 CTransaction) (tx : CTransaction) :
    Nat → List UInt256 → Listing UInt256 UInt256 → CTxMemPool → Option Told
  | _, [], _, _ => some ⟨[], []⟩
  | 0, _ :: _, _, _ => none
  | fuel + 1, hashPrev :: queue, byPrev, pool =>
    let byPrev' := byPrev.touch hashPrev
    let bucket := (byPrev'.getD hashPrev ∅).toList
    let round := offerAll K env held bucket pool
    let told := tellAll K env held tx bucket pool
    (tellLoop env held tx fuel (queue ++ round.work) byPrev' round.pool).map fun rest =>
      ⟨told.admitted ++ rest.admitted, told.calls ++ rest.calls⟩

/-- The chain with a pool. -/
def MainChain.withPool (c : MainChain) (pool : CTxMemPool) : MainChain :=
  { c with pool := fun hash => (pool.mapTx hash).isSome }

/-- The handler of a `tx` message: what enters the pool, and the calls.  `CWalletTx wtx(pwalletMain,
tx)` names no block. -/
def OrphanTxs.walletCalls (env : OrphanEnv) (c : MainChain) (pool : CTxMemPool) (s : OrphanTxs)
    (tx : CTransaction) : Option Told :=
  match acceptToMemoryPool K env pool tx with
  | (.accepted, pool') =>
    let fUnconfirmed := (CMerkleTx.ofTx tx).getDepthInMainChain K (c.withPool pool') ≤ 0
    let first := WalletCall.syncWithWallets tx :: if fUnconfirmed then [.addAmounts tx] else []
    (tellLoop K env s.mapOrphanTransactions tx (s.mapOrphanTransactions.size + 1) [tx.getHash K]
      s.mapOrphanTransactionsByPrev pool').map fun rest =>
        ⟨tx :: rest.admitted, first ++ rest.calls⟩
  | (.missingInputs, _) => some ⟨[], []⟩
  | (.refused, _) => some ⟨[], []⟩

/-- **Everyone is told, once**: of each transaction that enters the pool. -/
def Told.Once (t : Told) : Prop :=
  ∀ tx ∈ t.admitted, t.calls.count (.syncWithWallets tx) = 1 ∧ t.calls.count (.addAmounts tx) = 1

/-- **Nobody waited for it**: if the pool takes the transaction, it then takes none of the orphans
listed under its id. -/
def OrphanTxs.Unawaited (env : OrphanEnv) (pool : CTxMemPool) (s : OrphanTxs)
    (tx : CTransaction) : Prop :=
  (acceptToMemoryPool K env pool tx).1 = .accepted →
    ∀ (hash : UInt256) (orphanTx : CTransaction),
      s.mapOrphanTransactionsByPrev.Listed (tx.getHash K) hash →
      s.mapOrphanTransactions[hash]? = some orphanTx →
      (acceptToMemoryPool K env (acceptToMemoryPool K env pool tx).2 orphanTx).1 ≠ .accepted

/-- The transactions that take a pool to another one by entering it, each of them new there. -/
inductive Enters : CTxMemPool → List CTransaction → CTxMemPool → Prop where
  | nil (pool : CTxMemPool) : Enters pool [] pool
  | cons {pool pool' : CTxMemPool} {tx : CTransaction} {l : List CTransaction}
      (hnew : pool.mapTx (tx.getHash K) = none)
      (h : Enters (pool.addUnchecked (tx.getHash K) tx) l pool') : Enters pool (tx :: l) pool'

/-! ## 2. What enters the pool -/

variable {K} {env : OrphanEnv} {held : ExtTreeMap UInt256 CTransaction} {tx : CTransaction}
  {pool pool' pool'' : CTxMemPool}

theorem Enters.append {l l' : List CTransaction} (h : Enters K pool l pool')
    (h' : Enters K pool' l' pool'') : Enters K pool (l ++ l') pool'' := by
  induction h with
  | nil _ => exact h'
  | cons hnew _ ih => exact .cons hnew (ih h')

/-- What enters a pool was not in it. -/
theorem Enters.fresh {l : List CTransaction} (h : Enters K pool l pool') :
    ∀ tx ∈ l, pool.mapTx (tx.getHash K) = none := by
  induction h with
  | nil _ => simp
  | @cons pool _ tx l hnew _ ih =>
    intro other hother
    rcases List.mem_cons.mp hother with rfl | hother
    · exact hnew
    · have hnone := ih other hother
      rw [CTxMemPool.mapTx_addUnchecked] at hnone
      by_cases heq : other.getHash K = tx.getHash K
      · rw [heq, Function.update_self] at hnone
        cases hnone
      · rwa [Function.update_of_ne heq] at hnone

/-- **A bucket**: what it has for the pool, under the ids `offerAll` puts into the queue.  For each
of these the transaction of the message is told of. -/
theorem tellAll_spec (env : OrphanEnv) (tx : CTransaction)
    (hkeyed : ∀ {hash : UInt256} {tx : CTransaction}, held[hash]? = some tx → tx.getHash K = hash)
    (bucket : List UInt256) (pool : CTxMemPool) :
    (tellAll K env held tx bucket pool).admitted.map (·.getHash K) =
        (offerAll K env held bucket pool).work ∧
      Enters K pool (tellAll K env held tx bucket pool).admitted
        (offerAll K env held bucket pool).pool ∧
      (tellAll K env held tx bucket pool).calls =
        (tellAll K env held tx bucket pool).admitted.map fun _ => .syncWithWallets tx := by
  induction bucket generalizing pool with
  | nil => exact ⟨rfl, .nil pool, rfl⟩
  | cons orphanTxHash bucket ih =>
    rw [tellAll, offerAll]
    cases hheld : held[orphanTxHash]? with
    | none => exact ih pool
    | some orphanTx =>
      rcases acceptToMemoryPool_cases (K := K) env pool orphanTx with ⟨hacc, hnew⟩ | hacc | hacc
      · obtain ⟨hwork, henters, hcalls⟩ := ih (pool.addUnchecked (orphanTx.getHash K) orphanTx)
        simp only [hacc]
        refine ⟨?_, .cons hnew henters, ?_⟩
        · rw [List.map_cons, hwork, hkeyed hheld]
        · rw [List.map_cons, hcalls]
      · simp only [hacc]
        exact ih pool
      · simp only [hacc]
        exact ih pool

/-- **A whole resolution.**  At its end the queue has what it had and the ids of what the pool took
of the orphans; for each of these the transaction of the message is told of. -/
theorem tellLoop_spec (env : OrphanEnv) (tx : CTransaction)
    (hkeyed : ∀ {hash : UInt256} {tx : CTransaction}, held[hash]? = some tx → tx.getHash K = hash) :
    ∀ (fuel : Nat) (queue : List UInt256) (byPrev : Listing UInt256 UInt256) (pool : CTxMemPool)
      (r : Resolved), resolveLoop K env held fuel queue byPrev pool = some r →
      ∃ t, tellLoop K env held tx fuel queue byPrev pool = some t ∧
        r.vWorkQueue = queue ++ t.admitted.map (·.getHash K) ∧
        Enters K pool t.admitted r.pool ∧
        t.calls = t.admitted.map fun _ => .syncWithWallets tx := by
  intro fuel
  induction fuel with
  | zero =>
    intro queue byPrev pool r h
    cases queue with
    | nil =>
      cases h
      exact ⟨⟨[], []⟩, rfl, rfl, .nil pool, rfl⟩
    | cons _ _ => cases h
  | succ fuel ih =>
    intro queue byPrev pool r h
    cases queue with
    | nil =>
      cases h
      exact ⟨⟨[], []⟩, rfl, rfl, .nil pool, rfl⟩
    | cons hashPrev queue =>
      rw [resolveLoop, Option.map_eq_some_iff] at h
      obtain ⟨rest, hrest, rfl⟩ := h
      obtain ⟨hwork, henters, hcalls⟩ := tellAll_spec env tx hkeyed
        ((byPrev.touch hashPrev).getD hashPrev ∅).toList pool
      obtain ⟨t, ht, hqueue, henters', hcalls'⟩ := ih _ _ _ rest hrest
      refine ⟨_, by rw [tellLoop, ht]; rfl, ?_, henters.append henters', ?_⟩
      · dsimp only
        rw [hqueue, ← hwork, List.map_append, List.cons_append, List.append_assoc]
      · dsimp only
        rw [hcalls, hcalls', List.map_append]

/-- When the pool takes nothing of a bucket: it is not changed in between. -/
theorem tellAll_eq_nil_iff (bucket : List UInt256) :
    (tellAll K env held tx bucket pool).admitted = [] ↔
      ∀ hash ∈ bucket, ∀ orphanTx : CTransaction, held[hash]? = some orphanTx →
        (acceptToMemoryPool K env pool orphanTx).1 ≠ .accepted := by
  induction bucket with
  | nil => simp [tellAll]
  | cons orphanTxHash bucket ih =>
    rw [tellAll, List.forall_mem_cons]
    cases hheld : held[orphanTxHash]? with
    | none => simpa using ih
    | some orphanTx =>
      rcases acceptToMemoryPool_cases (K := K) env pool orphanTx with ⟨hacc, -⟩ | hacc | hacc
      · simp [hacc]
      · simpa [hacc] using ih
      · simpa [hacc] using ih

/-- When nothing is resolved: nothing of the first bucket. -/
theorem tellLoop_eq_nil_iff
    (hkeyed : ∀ {hash : UInt256} {tx : CTransaction}, held[hash]? = some tx → tx.getHash K = hash)
    {fuel : Nat} {hash : UInt256} {byPrev : Listing UInt256 UInt256} {t : Told}
    (h : tellLoop K env held tx (fuel + 1) [hash] byPrev pool = some t) :
    t.admitted = [] ↔ ∀ (other : UInt256) (orphanTx : CTransaction), byPrev.Listed hash other →
      held[other]? = some orphanTx → (acceptToMemoryPool K env pool orphanTx).1 ≠ .accepted := by
  rw [tellLoop, Option.map_eq_some_iff] at h
  obtain ⟨rest, hrest, rfl⟩ := h
  obtain ⟨hwork, -, -⟩ := tellAll_spec env tx hkeyed
    ((byPrev.touch hash).getD hash ∅).toList pool
  have hbucket : (tellAll K env held tx ((byPrev.touch hash).getD hash ∅).toList pool).admitted =
      [] ↔ ∀ (other : UInt256) (orphanTx : CTransaction), byPrev.Listed hash other →
        held[other]? = some orphanTx → (acceptToMemoryPool K env pool orphanTx).1 ≠ .accepted := by
    rw [tellAll_eq_nil_iff]
    constructor
    · intro h other orphanTx hlisted
      refine h other ?_ orphanTx
      rw [← Listing.listed_touch (t := hash)] at hlisted
      exact ExtTreeSet.mem_toList.mpr hlisted
    · intro h other hmem orphanTx
      exact h other orphanTx (Listing.listed_touch.mp (ExtTreeSet.mem_toList.mp hmem))
  rw [List.append_eq_nil_iff, ← hbucket]
  refine ⟨And.left, fun hnil => ⟨hnil, ?_⟩⟩
  rw [hnil, List.map_nil] at hwork
  rw [← hwork] at hrest
  cases fuel <;> cases hrest <;> rfl

/-! ## 3. The handler -/

/-- Nobody is told of a resolved orphan, so everyone is told only if there is none. -/
theorem told_once_iff {l : List CTransaction} (hne : ∀ orphanTx ∈ l, orphanTx ≠ tx) :
    Told.Once ⟨tx :: l, [.syncWithWallets tx, .addAmounts tx] ++
      l.map fun _ => .syncWithWallets tx⟩ ↔ l = [] := by
  constructor
  · intro honce
    cases l with
    | nil => rfl
    | cons orphanTx l =>
      have hone := (honce orphanTx (List.mem_cons_of_mem _ List.mem_cons_self)).2
      have hmem : WalletCall.addAmounts orphanTx ∈ [.syncWithWallets tx, .addAmounts tx] ++
          (orphanTx :: l).map fun _ => .syncWithWallets tx :=
        List.count_pos_iff.mp (by rw [hone]; exact Nat.one_pos)
      have heq : orphanTx = tx := by simpa using hmem
      exact absurd heq (hne orphanTx List.mem_cons_self)
  · rintro rfl other hother
    rw [List.mem_singleton.mp hother]
    simp

namespace OrphanTxs

variable {s : OrphanTxs}

/-- **What a message brings about, and what the wallets are told of it.** -/
theorem Kept.walletCalls_spec (h : s.Kept K) (env : OrphanEnv) (c : MainChain) (pool : CTxMemPool)
    (rand : Nat → UInt256) (tx : CTransaction) :
    ∃ s' pool' t, s.processTx K env pool rand tx = some (s', pool') ∧
      s.walletCalls K env c pool tx = some t ∧ Enters K pool t.admitted pool' ∧
      (t.Once ↔ s.Unawaited K env pool tx) := by
  unfold processTx walletCalls Unawaited
  rcases acceptToMemoryPool_cases (K := K) env pool tx with ⟨hacc, hnew⟩ | hacc | hacc
  · obtain ⟨r, hr⟩ := h.resolves env (tx.getHash K) (pool.addUnchecked (tx.getHash K) tx)
    obtain ⟨t, ht, -, henters, hcalls⟩ := tellLoop_spec env tx h.keyed _ _ _ _ r hr
    have hnil := tellLoop_eq_nil_iff h.keyed ht
    have hdepth : (CMerkleTx.ofTx tx).getDepthInMainChain K
        (c.withPool (pool.addUnchecked (tx.getHash K) tx)) ≤ 0 := by
      rw [getDepthInMainChain_ofTx]
      split <;> decide
    simp only [hacc, hr, ht, hdepth, if_true, Option.map_some]
    refine ⟨_, _, _, rfl, rfl, .cons hnew henters, ?_⟩
    rw [hcalls, told_once_iff, hnil]
    · exact ⟨fun hnone _ => hnone, fun hnone => hnone trivial⟩
    · rintro orphanTx hmem rfl
      have hnone := henters.fresh orphanTx hmem
      rw [CTxMemPool.mapTx_addUnchecked, Function.update_self] at hnone
      cases hnone
  · simp only [hacc]
    exact ⟨_, _, _, rfl, rfl, .nil pool, by simp [Told.Once]⟩
  · simp only [hacc]
    exact ⟨_, _, _, rfl, rfl, .nil pool, by simp [Told.Once]⟩

/-- **When the wallets are told of everything, once.**  In every state of the orphans, a message's
transaction and all the orphans that the pool takes on its account are passed to the wallets once
and have their amounts added once, if and only if the pool takes none of the orphans that are listed
under the transaction's id. -/
theorem walletCalls_iff (ops : List OrphanOp) (env : OrphanEnv) (c : MainChain) (pool : CTxMemPool)
    (rand : Nat → UInt256) (tx : CTransaction) :
    ∃ s' pool' t, (run K ops).processTx K env pool rand tx = some (s', pool') ∧
      (run K ops).walletCalls K env c pool tx = some t ∧ Enters K pool t.admitted pool' ∧
      (t.Once ↔ (run K ops).Unawaited K env pool tx) :=
  (Kept.run ops).walletCalls_spec env c pool rand tx

/-! ## 4. A child that waited -/

/-- A chain of nothing but the genesis block, which the calls do not depend on. -/
def loneChain : MainChain := ⟨fun _ => none, genesisIndex ⟨1, 0, firstFile_notNull⟩, [], fun _ => false⟩

/-- **The child is not told of**: `poolChild` waits, a message brings `poolParent`, and the pool
takes both.  The wallets are told of the parent twice, and of the child never. -/
theorem child_not_told :
    (run forkCrypto [.addOrphanTx poolChild]).walletCalls forkCrypto ⟨poolEnv, fun _ _ => false⟩
        loneChain .empty poolParent =
      some ⟨[poolParent, poolChild], [.syncWithWallets poolParent, .addAmounts poolParent,
        .syncWithWallets poolParent]⟩ ∧
      ¬ Told.Once ⟨[poolParent, poolChild], [.syncWithWallets poolParent, .addAmounts poolParent,
        .syncWithWallets poolParent]⟩ := by
  refine ⟨by decide +kernel, fun honce => ?_⟩
  have hchild := (honce poolChild (by simp)).1
  have hnever : List.count (WalletCall.syncWithWallets poolChild) [.syncWithWallets poolParent,
    .addAmounts poolParent, .syncWithWallets poolParent] = 0 := by decide +kernel
  rw [hnever] at hchild
  cases hchild

end OrphanTxs

end Breakout
