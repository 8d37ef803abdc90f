/-
# Transactions that wait for their inputs

A transaction some of whose inputs are not known is held in `mapOrphanTransactions`.
`mapOrphanTransactionsByPrev` lists the held ones under the ids of the transactions they spend.  A
`tx` message with a transaction the pool takes also resolves: the orphans listed under its id are
offered to the pool, and those under the ids of what the pool takes of them.

The buckets are looked up with `operator[]`, which enters an empty one where there is none, and
nothing but an orphan that leaves takes a bucket away.  So a message leaves an empty bucket behind
for every transaction the pool takes that no held orphan spends.  Otherwise the two maps are in
step: `orphans_exact_iff` says that they are in every state of a run if and only if there is no such
transaction.
-/
import Breakout.Lib.History
import Breakout.Lib.Listing
import Breakout.MemPool

namespace Breakout

open Lib Std

variable (K : Crypto)

/-! ## 1. The maps -/

instance : TransOrd UInt256 := inferInstance

def maxOrphanTransactions : Nat := maxBlockSize / 100

/-- The transactions the inputs spend. -/
def CTransaction.prevTxids (tx : CTransaction) : List UInt256 := tx.vin.map (·.prevout.hash)

/-- The two maps of orphan transactions. -/
structure OrphanTxs where
  mapOrphanTransactions : ExtTreeMap UInt256 CTransaction
  mapOrphanTransactionsByPrev : Listing UInt256 UInt256

namespace OrphanTxs

/-- No orphans. -/
def empty : OrphanTxs := ⟨∅, ∅⟩

def addOrphanTx (s : OrphanTxs) (tx : CTransaction) : Bool × OrphanTxs :=
  let hash := tx.getHash K
  if hash ∈ s.mapOrphanTransactions then (false, s)
  else if tx.serialize.length > 5000 then (false, s)
  else
    (true, ⟨s.mapOrphanTransactions.insert hash tx,
      s.mapOrphanTransactionsByPrev.enlistAll hash tx.prevTxids⟩)

def eraseOrphanTx (s : OrphanTxs) (hash : UInt256) : OrphanTxs :=
  match s.mapOrphanTransactions[hash]? with
  | none => s
  | some tx =>
    ⟨s.mapOrphanTransactions.erase hash,
      s.mapOrphanTransactionsByPrev.strikeAll hash tx.prevTxids⟩

/-- The orphan to evict: the first from `randomhash` on, or the first of all. -/
def evicted (s : OrphanTxs) (randomhash : UInt256) : Option UInt256 :=
  let hashes := s.mapOrphanTransactions.keys
  (hashes.find? fun hash => decide (randomhash ≤ hash)).or hashes.head?

/-- The loop of `LimitOrphanTxSize`; `rand` has what `GetRandHash` returns, round by round. -/
def limitLoop (nMaxOrphans : Nat) (rand : Nat → UInt256) :
    Nat → Nat → OrphanTxs → Nat × OrphanTxs
  | 0, nEvicted, s => (nEvicted, s)
  | fuel + 1, nEvicted, s =>
    if s.mapOrphanTransactions.size > nMaxOrphans then
      match s.evicted (rand nEvicted) with
      | none => (nEvicted, s)
      | some hash => limitLoop nMaxOrphans rand fuel (nEvicted + 1) (s.eraseOrphanTx hash)
    else (nEvicted, s)

/-- `LimitOrphanTxSize`: how many were evicted, and what is left. -/
def limitOrphanTxSize (s : OrphanTxs) (nMaxOrphans : Nat) (rand : Nat → UInt256) :
    Nat × OrphanTxs :=
  limitLoop nMaxOrphans rand s.mapOrphanTransactions.size 0 s

end OrphanTxs

/-! ## 2. The `tx` message -/

/-- What `AcceptToMemoryPool` says; inputs may be missing. -/
inductive Verdict where
  | accepted | missingInputs | refused
deriving DecidableEq, Repr

/-- What the pool reads, and whether an input of a transaction is missing. -/
structure OrphanEnv extends PoolEnv where
  missingInputs : CTxMemPool → CTransaction → Bool

/-- `AcceptToMemoryPool`.  `fMissingInputs` is set only where all that comes before the inputs has
passed. -/
def acceptToMemoryPool (env : OrphanEnv) (pool : CTxMemPool) (tx : CTransaction) :
    Verdict × CTxMemPool :=
  let result := pool.accept K env.toPoolEnv tx true
  let fReached :=
    (pool.accept K { env.toPoolEnv with checkInputs := fun _ _ => true } tx true).1
  if result.1 then (.accepted, result.2)
  else if fReached && env.missingInputs pool tx then (.missingInputs, result.2)
  else (.refused, result.2)

/-- What the inner loop of the resolution adds to `vWorkQueue` and to `vEraseQueue`, and the pool. -/
structure Round where
  work : List UInt256
  erase : List UInt256
  pool : CTxMemPool

/-- The inner loop, over the orphans of a bucket.  An orphan that is listed but not held would be
entered as an empty transaction, refused, and erased. -/
def offerAll (env : OrphanEnv) (held : ExtTreeMap UInt256 CTransaction) :
    List UInt256 → CTxMemPool → Round
  | [], pool => ⟨[], [], pool⟩
  | orphanTxHash :: bucket, pool =>
    match held[orphanTxHash]? with
    | none =>
      let rest := offerAll env held bucket pool
      { rest with erase := orphanTxHash :: rest.erase }
    | some orphanTx =>
      match acceptToMemoryPool K env pool orphanTx with
      | (.accepted, pool') =>
        let rest := offerAll env held bucket pool'
        { rest with work := orphanTxHash :: rest.work, erase := orphanTxHash :: rest.erase }
      | (.refused, pool') =>
        let rest := offerAll env held bucket pool'
        { rest with erase := orphanTxHash :: rest.erase }
      | (.missingInputs, pool') => offerAll env held bucket pool'

/-- What is left when `vWorkQueue` has been gone through. -/
structure Resolved where
  vWorkQueue : List UInt256
  vEraseQueue : List UInt256
  mapOrphanTransactionsByPrev : Listing UInt256 UInt256
  pool : CTxMemPool

/-- "Recursively process any orphan transactions that depended on this one". -/
def resolveLoop (env : OrphanEnv) (held : ExtTreeMap UInt256 CTransaction) :
    Nat → List UInt256 → Listing UInt256 UInt256 → CTxMemPool → Option Resolved
  | _, [], byPrev, pool => some ⟨[], [], byPrev, pool⟩
  | 0, _ :: _, _, _ => none
  | fuel + 1, hashPrev :: queue, byPrev, pool =>
    let byPrev' := byPrev.touch hashPrev
    let round := offerAll K env held (byPrev'.getD hashPrev ∅).toList pool
    (resolveLoop env held fuel (queue ++ round.work) byPrev' round.pool).map fun rest =>
      { rest with
        vWorkQueue := hashPrev :: rest.vWorkQueue
        vEraseQueue := round.erase ++ rest.vEraseQueue }

namespace OrphanTxs

/-- The handler of a `tx` message: the maps and the pool it leaves.  Every round of the resolution
past the first belongs to an orphan the pool has taken. -/
def processTx (env : OrphanEnv) (pool : CTxMemPool) (rand : Nat → UInt256) (s : OrphanTxs)
    (tx : CTransaction) : Option (OrphanTxs × CTxMemPool) :=
  match acceptToMemoryPool K env pool tx with
  | (.accepted, pool') =>
    let hash := tx.getHash K
    (resolveLoop K env s.mapOrphanTransactions (s.mapOrphanTransactions.size + 1) [hash]
      s.mapOrphanTransactionsByPrev pool').map fun r =>
        ((hash :: r.vEraseQueue).foldl eraseOrphanTx
          { s with mapOrphanTransactionsByPrev := r.mapOrphanTransactionsByPrev }, r.pool)
  | (.missingInputs, pool') =>
    some (((s.addOrphanTx K tx).2.limitOrphanTxSize maxOrphanTransactions rand).2, pool')
  | (.refused, pool') => some (s, pool')

end OrphanTxs

/-- What is done to the maps. -/
inductive OrphanOp where
  | addOrphanTx (tx : CTransaction)
  | eraseOrphanTx (hash : UInt256)
  | limitOrphanTxSize (nMaxOrphans : Nat) (rand : Nat → UInt256)
  | txMessage (env : OrphanEnv) (pool : CTxMemPool) (rand : Nat → UInt256) (tx : CTransaction)

namespace OrphanTxs

/-- One operation. -/
def step (s : OrphanTxs) : OrphanOp → OrphanTxs
  | .addOrphanTx tx => (s.addOrphanTx K tx).2
  | .eraseOrphanTx hash => s.eraseOrphanTx hash
  | .limitOrphanTxSize nMaxOrphans rand => (s.limitOrphanTxSize nMaxOrphans rand).2
  | .txMessage env pool rand tx => ((s.processTx K env pool rand tx).map Prod.fst).getD s

/-- The maps after a sequence of operations. -/
def run (ops : List OrphanOp) : OrphanTxs := ops.foldl (step K) empty

/-- A held orphan spends an output of the transaction. -/
def Spent (s : OrphanTxs) (prev : UInt256) : Prop :=
  ∃ (hash : UInt256) (tx : CTransaction), s.mapOrphanTransactions[hash]? = some tx ∧ prev ∈ tx.prevTxids

/-- **The index is the inverse of the map.**  What is listed under an id is what spends the
transaction with that id, and there is no bucket where there is nothing to list. -/
structure Exact (s : OrphanTxs) : Prop where
  listed : ∀ prev hash, s.mapOrphanTransactionsByPrev.Listed prev hash ↔
    ∃ tx : CTransaction, s.mapOrphanTransactions[hash]? = some tx ∧ prev ∈ tx.prevTxids
  bucket : ∀ prev ∈ s.mapOrphanTransactionsByPrev, s.Spent prev

end OrphanTxs

variable {K} {s : OrphanTxs} {tx : CTransaction}

namespace OrphanTxs

/-! ## 3. One orphan -/

/-- Every orphan is held under its id, and the index lists the orphans.  This holds in every state,
whatever buckets are empty. -/
structure Kept (K : Crypto) (s : OrphanTxs) : Prop where
  keyed : ∀ {hash : UInt256} {tx : CTransaction}, s.mapOrphanTransactions[hash]? = some tx →
    tx.getHash K = hash
  lists : Lists CTransaction.prevTxids s.mapOrphanTransactions s.mapOrphanTransactionsByPrev

/-- An empty bucket. -/
abbrev Idle (s : OrphanTxs) (prev : UInt256) : Prop := s.mapOrphanTransactionsByPrev.Idle prev

variable {prev hash : UInt256} {nMaxOrphans : Nat} {rand : Nat → UInt256}

theorem Kept.spent_iff (h : s.Kept K) :
    s.Spent prev ↔ ∃ hash, s.mapOrphanTransactionsByPrev.Listed prev hash := by
  constructor
  · rintro ⟨hash, tx, htx, hprev⟩
    exact ⟨hash, (h.lists prev hash).mpr ⟨tx, htx, hprev⟩⟩
  · rintro ⟨hash, hlisted⟩
    obtain ⟨tx, htx, hprev⟩ := (h.lists prev hash).mp hlisted
    exact ⟨hash, tx, htx, hprev⟩

/-- The maps are in step exactly when no bucket is empty. -/
theorem Kept.exact_iff (h : s.Kept K) : s.Exact ↔ ∀ prev, ¬ s.Idle prev := by
  constructor
  · rintro ⟨-, hbucket⟩ prev hidle
    obtain ⟨hash, hlisted⟩ := h.spent_iff.mp (hbucket prev (Listing.mem_iff.mpr (Or.inl hidle)))
    exact Listing.not_listed_of_idle hidle hlisted
  · intro hidle
    refine ⟨h.lists, fun prev hmem => ?_⟩
    rcases Listing.mem_iff.mp hmem with hempty | hlisted
    · exact absurd hempty (hidle prev)
    · exact h.spent_iff.mpr hlisted

theorem Kept.empty : Kept K empty := by
  refine ⟨fun {hash tx} htx => ?_, Lists.empty⟩
  simp [OrphanTxs.empty] at htx

theorem Kept.addOrphanTx (h : s.Kept K) : (s.addOrphanTx K tx).2.Kept K := by
  unfold OrphanTxs.addOrphanTx
  dsimp only
  split
  · exact h
  · next hnew =>
    split
    · exact h
    · refine ⟨fun {hash tx'} htx' => ?_,
        h.lists.enlistAll (ExtTreeMap.getElem?_eq_none hnew)⟩
      by_cases heq : hash = tx.getHash K
      · subst heq
        rw [ExtTreeMap.getElem?_insert_self, Option.some_inj] at htx'
        rw [← htx']
      · rw [Listing.getElem?_insert_of_ne heq] at htx'
        exact h.keyed htx'

/-- An orphan that is taken in empties no bucket. -/
theorem idle_of_addOrphanTx (h : (s.addOrphanTx K tx).2.Idle prev) :
    s.Idle prev := by
  unfold OrphanTxs.addOrphanTx at h
  dsimp only at h
  split at h
  · exact h
  · split at h
    · exact h
    · exact (Listing.idle_enlistAll.mp h).1

theorem Kept.eraseOrphanTx (h : s.Kept K) (hash : UInt256) : (s.eraseOrphanTx hash).Kept K := by
  unfold OrphanTxs.eraseOrphanTx
  split
  · exact h
  · next tx htx =>
    refine ⟨fun {hash' tx'} htx' => ?_, h.lists.strikeAll htx⟩
    by_cases heq : hash' = hash
    · subst heq
      rw [ExtTreeMap.getElem?_erase_self] at htx'
      cases htx'
    · rw [Listing.getElem?_erase_of_ne heq] at htx'
      exact h.keyed htx'

/-- An orphan that leaves takes the buckets with it that it empties. -/
theorem idle_eraseOrphanTx :
    (s.eraseOrphanTx hash).Idle prev ↔ s.Idle prev ∧
      ∀ tx : CTransaction, s.mapOrphanTransactions[hash]? = some tx → prev ∉ tx.prevTxids := by
  unfold OrphanTxs.eraseOrphanTx
  split
  · next hnone => simp [hnone]
  · next tx htx =>
    unfold Idle
    rw [Listing.idle_strikeAll, htx]
    simp

/-- What is left was there. -/
theorem getElem?_of_eraseOrphanTx {hash' : UInt256}
    (h : (s.eraseOrphanTx hash).mapOrphanTransactions[hash']? = some tx) :
    s.mapOrphanTransactions[hash']? = some tx := by
  unfold OrphanTxs.eraseOrphanTx at h
  split at h
  · exact h
  · by_cases heq : hash' = hash
    · subst heq
      rw [ExtTreeMap.getElem?_erase_self] at h
      cases h
    · rwa [Listing.getElem?_erase_of_ne heq] at h

/-! ## 4. Many orphans -/

theorem Kept.eraseAll (h : s.Kept K) (l : List UInt256) :
    (l.foldl OrphanTxs.eraseOrphanTx s).Kept K := by
  induction l generalizing s with
  | nil => exact h
  | cons hash l ih => exact ih (h.eraseOrphanTx hash)

/-- A bucket that is empty after many have left was empty before. -/
theorem idle_of_eraseAll {l : List UInt256} (h : (l.foldl eraseOrphanTx s).Idle prev) :
    s.Idle prev := by
  induction l generalizing s with
  | nil => exact h
  | cons hash l ih => exact (idle_eraseOrphanTx.mp (ih h)).1

/-- A bucket that is empty before and that no orphan belongs to stays. -/
theorem Idle.eraseAll (h : s.Idle prev) (hspent : ¬ s.Spent prev) (l : List UInt256) :
    (l.foldl eraseOrphanTx s).Idle prev := by
  induction l generalizing s with
  | nil => exact h
  | cons hash l ih =>
    refine ih (idle_eraseOrphanTx.mpr ⟨h, fun tx htx hprev => hspent ⟨hash, tx, htx, hprev⟩⟩) ?_
    rintro ⟨hash', tx, htx, hprev⟩
    exact hspent ⟨hash', tx, getElem?_of_eraseOrphanTx htx, hprev⟩

/-- Whatever is done for one orphan after another is done by `LimitOrphanTxSize`. -/
theorem limitOrphanTxSize_induction {P : OrphanTxs → Prop}
    (hstep : ∀ {s : OrphanTxs} {hash : UInt256}, P s → P (s.eraseOrphanTx hash)) (h : P s) :
    P (s.limitOrphanTxSize nMaxOrphans rand).2 := by
  have hloop : ∀ (fuel nEvicted : Nat) {s : OrphanTxs}, P s →
      P (limitLoop nMaxOrphans rand fuel nEvicted s).2 := by
    intro fuel
    induction fuel with
    | zero => exact fun _ _ h => h
    | succ fuel ih =>
      intro nEvicted s h
      rw [limitLoop]
      split
      · split
        · exact h
        · exact ih _ (hstep h)
      · exact h
  exact hloop _ _ h

theorem Kept.limitOrphanTxSize (h : s.Kept K) (nMaxOrphans : Nat) (rand : Nat → UInt256) :
    (s.limitOrphanTxSize nMaxOrphans rand).2.Kept K :=
  limitOrphanTxSize_induction (fun h => h.eraseOrphanTx _) h

theorem not_idle_limitOrphanTxSize (h : ∀ prev, ¬ s.Idle prev) (prev : UInt256) :
    ¬ (s.limitOrphanTxSize nMaxOrphans rand).2.Idle prev := by
  have hall : ∀ prev, ¬ (s.limitOrphanTxSize nMaxOrphans rand).2.Idle prev :=
    limitOrphanTxSize_induction (P := fun s => ∀ prev, ¬ s.Idle prev)
      (fun h prev hidle => h prev (idle_eraseOrphanTx.mp hidle).1) h
  exact hall prev

end OrphanTxs

/-! ## 5. The resolution -/

variable {env : OrphanEnv} {held : ExtTreeMap UInt256 CTransaction} {pool : CTxMemPool}

/-- A transaction that is accepted was not in the pool, and is now. -/
theorem CTxMemPool.accept_cases (env : PoolEnv) (pool : CTxMemPool) (tx : CTransaction)
    (fCheckInputs : Bool) :
    pool.accept K env tx fCheckInputs = (false, pool) ∨
      (pool.accept K env tx fCheckInputs = (true, pool.addUnchecked (tx.getHash K) tx) ∧
        pool.mapTx (tx.getHash K) = none) := by
  unfold CTxMemPool.accept
  split_ifs with hcheck hcb hcs hstd hin hdb hconflict hinputs
  all_goals try exact Or.inl rfl
  exact Or.inr ⟨rfl, by simpa using hin⟩

theorem acceptToMemoryPool_cases (env : OrphanEnv) (pool : CTxMemPool) (tx : CTransaction) :
    (acceptToMemoryPool K env pool tx = (.accepted, pool.addUnchecked (tx.getHash K) tx) ∧
        pool.mapTx (tx.getHash K) = none) ∨
      acceptToMemoryPool K env pool tx = (.missingInputs, pool) ∨
      acceptToMemoryPool K env pool tx = (.refused, pool) := by
  unfold acceptToMemoryPool
  dsimp only
  rcases CTxMemPool.accept_cases (K := K) env.toPoolEnv pool tx true with hno | ⟨hyes, hnew⟩
  · rw [hno, if_neg Bool.false_ne_true]
    split
    · exact Or.inr (Or.inl rfl)
    · exact Or.inr (Or.inr rfl)
  · rw [hyes]
    exact Or.inl ⟨rfl, hnew⟩

@[simp] theorem CTxMemPool.mapTx_addUnchecked (hash : UInt256) (tx : CTransaction) :
    (pool.addUnchecked hash tx).mapTx = Function.update pool.mapTx hash (some tx) := rfl

/-- The held orphans that are not in the pool. -/
def fresh (held : ExtTreeMap UInt256 CTransaction) (pool : CTxMemPool) : Finset UInt256 :=
  held.keys.toFinset.filter fun hash => (pool.mapTx hash).isNone

variable {hash prev : UInt256}

theorem fresh_addUnchecked (hheld : hash ∈ held) (hnew : pool.mapTx hash = none) :
    (fresh held (pool.addUnchecked hash tx)).card < (fresh held pool).card := by
  apply Finset.card_lt_card
  rw [Finset.ssubset_iff_of_subset]
  · refine ⟨hash, ?_, fun hmem => ?_⟩
    · rw [fresh, Finset.mem_filter, hnew]
      simpa using hheld
    · have hnone := (Finset.mem_filter.mp hmem).2
      rw [CTxMemPool.mapTx_addUnchecked, Function.update_self] at hnone
      cases hnone
  · intro h hmem
    obtain ⟨hkey, hnone⟩ := Finset.mem_filter.mp hmem
    refine Finset.mem_filter.mpr ⟨hkey, ?_⟩
    rw [CTxMemPool.mapTx_addUnchecked] at hnone
    by_cases heq : h = hash
    · subst heq
      rw [Function.update_self] at hnone
      cases hnone
    · rwa [Function.update_of_ne heq] at hnone

/-- What the pool takes of a bucket is no longer fresh. -/
theorem offerAll_fresh (env : OrphanEnv)
    (hkeyed : ∀ {hash : UInt256} {tx : CTransaction}, held[hash]? = some tx → tx.getHash K = hash) :
    ∀ (bucket : List UInt256) (pool : CTxMemPool),
      (offerAll K env held bucket pool).work.length +
        (fresh held (offerAll K env held bucket pool).pool).card ≤ (fresh held pool).card := by
  intro bucket
  induction bucket with
  | nil =>
    intro pool
    simp [offerAll]
  | cons hash bucket ih =>
    intro pool
    rw [offerAll]
    split
    · exact ih pool
    · next tx htx =>
      have hheld : hash ∈ held := ExtTreeMap.mem_iff_isSome_getElem?.mpr (by rw [htx]; rfl)
      rcases acceptToMemoryPool_cases (K := K) env pool tx with ⟨hacc, hnew⟩ | hacc | hacc
      · rw [hkeyed htx] at hacc hnew
        have hless : (fresh held (pool.addUnchecked hash tx)).card < (fresh held pool).card :=
          fresh_addUnchecked hheld hnew
        have hrest := ih (pool.addUnchecked hash tx)
        rw [hacc]
        dsimp only
        rw [List.length_cons]
        omega
      · rw [hacc]
        exact ih pool
      · rw [hacc]
        exact ih pool

/-- **The work queue comes to an end.** -/
theorem resolveLoop_isSome (env : OrphanEnv)
    (hkeyed : ∀ {hash : UInt256} {tx : CTransaction}, held[hash]? = some tx → tx.getHash K = hash) :
    ∀ (fuel : Nat) (queue : List UInt256) (byPrev : Listing UInt256 UInt256) (pool : CTxMemPool),
      queue.length + (fresh held pool).card ≤ fuel →
      (resolveLoop K env held fuel queue byPrev pool).isSome = true := by
  intro fuel
  induction fuel with
  | zero =>
    intro queue byPrev pool hfuel
    cases queue with
    | nil => rfl
    | cons _ _ => simp at hfuel
  | succ fuel ih =>
    intro queue byPrev pool hfuel
    cases queue with
    | nil => rfl
    | cons hashPrev queue =>
      rw [resolveLoop, Option.isSome_map]
      apply ih
      have hround := offerAll_fresh env hkeyed
        ((byPrev.touch hashPrev).getD hashPrev ∅).toList pool
      rw [List.length_append]
      rw [List.length_cons] at hfuel
      omega

/-- The held orphans that spend an output of a transaction. -/
def spenders (held : ExtTreeMap UInt256 CTransaction) (prev : UInt256) : ExtTreeSet UInt256 :=
  ExtTreeSet.ofList (held.keys.filter fun hash =>
    held[hash]?.any fun tx => decide (prev ∈ tx.prevTxids))

/-- The transactions the pool takes when the transactions of a queue are resolved, told by the held
orphans alone. -/
def taken (K : Crypto) (env : OrphanEnv) (held : ExtTreeMap UInt256 CTransaction) :
    Nat → List UInt256 → CTxMemPool → Option (List UInt256)
  | _, [], _ => some []
  | 0, _ :: _, _ => none
  | fuel + 1, prev :: queue, pool =>
    let round := offerAll K env held (spenders held prev).toList pool
    (taken K env held fuel (queue ++ round.work) round.pool).map (prev :: ·)

theorem mem_spenders :
    hash ∈ spenders held prev ↔ ∃ tx, held[hash]? = some tx ∧ prev ∈ tx.prevTxids := by
  rw [spenders, ExtTreeSet.mem_ofList, List.contains_iff_mem, List.mem_filter, ExtTreeMap.mem_keys,
    ExtTreeMap.mem_iff_isSome_getElem?]
  cases held[hash]? with
  | none => simp
  | some tx => simp

/-- A bucket that is looked up has what spends the transaction. -/
theorem getD_touch_eq {byPrev : Listing UInt256 UInt256}
    (h : Lists CTransaction.prevTxids held byPrev) :
    (byPrev.touch prev).getD prev ∅ = spenders held prev := by
  refine ExtTreeSet.ext_mem fun hash => ?_
  rw [mem_spenders]
  exact (h.touch prev) prev hash

/-- What the resolution finds does not depend on the index, and the buckets it leaves are those it
found and those it looked up. -/
theorem resolveLoop_spec :
    ∀ (fuel : Nat) {queue : List UInt256} {byPrev : Listing UInt256 UInt256} {pool : CTxMemPool}
      {r : Resolved}, Lists CTransaction.prevTxids held byPrev →
      resolveLoop K env held fuel queue byPrev pool = some r →
      taken K env held fuel queue pool = some r.vWorkQueue ∧
        Lists CTransaction.prevTxids held r.mapOrphanTransactionsByPrev ∧
        ∀ prev, r.mapOrphanTransactionsByPrev.Idle prev ↔
          byPrev.Idle prev ∨ (prev ∈ r.vWorkQueue ∧ prev ∉ byPrev) := by
  intro fuel
  induction fuel with
  | zero =>
    intro queue byPrev pool r hlists h
    cases queue with
    | nil =>
      cases h
      exact ⟨rfl, hlists, by simp⟩
    | cons _ _ => cases h
  | succ fuel ih =>
    intro queue byPrev pool r hlists h
    cases queue with
    | nil =>
      cases h
      exact ⟨rfl, hlists, by simp⟩
    | cons hashPrev queue =>
      rw [resolveLoop, getD_touch_eq hlists, Option.map_eq_some_iff] at h
      obtain ⟨rest, hrest, rfl⟩ := h
      obtain ⟨htaken, hlists', hidle⟩ := ih (hlists.touch hashPrev) hrest
      refine ⟨?_, hlists', fun prev => ?_⟩
      · rw [taken, htaken]
        rfl
      · rw [hidle, Listing.idle_touch, Listing.mem_touch, List.mem_cons]
        by_cases heq : prev = hashPrev
        · subst heq
          tauto
        · tauto

namespace OrphanTxs

/-- The resolution that a transaction sets off comes to an end. -/
theorem Kept.resolves (h : s.Kept K) (env : OrphanEnv) (hash : UInt256) (pool : CTxMemPool) :
    ∃ r, resolveLoop K env s.mapOrphanTransactions (s.mapOrphanTransactions.size + 1) [hash]
      s.mapOrphanTransactionsByPrev pool = some r := by
  have hfuel : [hash].length + (fresh s.mapOrphanTransactions pool).card ≤
      s.mapOrphanTransactions.size + 1 := by
    have hkeys := Finset.card_filter_le s.mapOrphanTransactions.keys.toFinset
      fun hash => (pool.mapTx hash).isNone = true
    have hsize := List.toFinset_card_le s.mapOrphanTransactions.keys
    rw [ExtTreeMap.length_keys] at hsize
    have hfresh := hkeys.trans hsize
    rw [List.length_singleton, Nat.add_comm]
    exact Nat.add_le_add_right hfresh 1
  exact Option.isSome_iff_exists.mp (resolveLoop_isSome env h.keyed _ _
    s.mapOrphanTransactionsByPrev pool hfuel)

/-- **A transaction that the pool takes.**  The maps lose orphans only; and if no bucket was empty
before, the empty ones are now those of what the pool took and no orphan spends. -/
theorem processTx_accepted (h : s.Kept K) (pool : CTxMemPool) (rand : Nat → UInt256)
    (tx : CTransaction) (hacc : (acceptToMemoryPool K env pool tx).1 = .accepted) :
    ∃ s' pool' l, s.processTx K env pool rand tx = some (s', pool') ∧ s'.Kept K ∧
      taken K env s.mapOrphanTransactions (s.mapOrphanTransactions.size + 1) [tx.getHash K]
        (acceptToMemoryPool K env pool tx).2 = some l ∧
      ((∀ prev, ¬ s.Idle prev) → ∀ prev, s'.Idle prev ↔ prev ∈ l ∧ ¬ s.Spent prev) := by
  obtain ⟨r, hr⟩ := h.resolves env (tx.getHash K) (acceptToMemoryPool K env pool tx).2
  obtain ⟨htaken, hlists, hidle⟩ := resolveLoop_spec _ h.lists hr
  set s₁ : OrphanTxs := { s with mapOrphanTransactionsByPrev := r.mapOrphanTransactionsByPrev }
  have hkept : s₁.Kept K := ⟨h.keyed, hlists⟩
  refine ⟨(tx.getHash K :: r.vEraseQueue).foldl OrphanTxs.eraseOrphanTx s₁, r.pool, r.vWorkQueue,
    ?_, hkept.eraseAll _, htaken, fun hnone prev => ⟨fun hempty => ?_, fun ⟨hmem, hspent⟩ => ?_⟩⟩
  · unfold processTx
    generalize hresult : acceptToMemoryPool K env pool tx = result at hacc hr
    obtain ⟨verdict, pool'⟩ := result
    cases hacc
    dsimp only at hr ⊢
    rw [hr]
    rfl
  · rcases (hidle prev).mp (idle_of_eraseAll hempty) with hold | ⟨hmem, hout⟩
    · exact absurd hold (hnone prev)
    · exact ⟨hmem, fun hspent => hout (Listing.mem_iff.mpr (Or.inr (h.spent_iff.mp hspent)))⟩
  · have hout : prev ∉ s.mapOrphanTransactionsByPrev := by
      intro hin
      rcases Listing.mem_iff.mp hin with hold | hlisted
      · exact hnone prev hold
      · exact hspent (h.spent_iff.mpr hlisted)
    have hempty : s₁.Idle prev := (hidle prev).mpr (Or.inr ⟨hmem, hout⟩)
    exact hempty.eraseAll hspent _

/-- A message with a transaction that is not taken. -/
theorem processTx_not_accepted (h : s.Kept K) (pool : CTxMemPool) (rand : Nat → UInt256)
    (tx : CTransaction) (hacc : (acceptToMemoryPool K env pool tx).1 ≠ .accepted) :
    ∃ s' pool', s.processTx K env pool rand tx = some (s', pool') ∧ s'.Kept K ∧
      ((∀ prev, ¬ s.Idle prev) → ∀ prev, ¬ s'.Idle prev) := by
  unfold processTx
  generalize acceptToMemoryPool K env pool tx = result at hacc
  obtain ⟨verdict, pool'⟩ := result
  cases verdict with
  | accepted => exact absurd rfl hacc
  | missingInputs =>
    refine ⟨_, _, rfl, h.addOrphanTx.limitOrphanTxSize _ _, fun hnone => ?_⟩
    exact not_idle_limitOrphanTxSize fun prev hidle => hnone prev (idle_of_addOrphanTx hidle)
  | refused => exact ⟨s, pool', rfl, h, id⟩

/-! ## 6. Runs -/

/-- **Nothing goes uncovered**: what the pool takes on account of a message, the message's own
transaction and the orphans it resolves, is spent by orphans held when the message arrives. -/
def Covered (K : Crypto) (s : OrphanTxs) : OrphanOp → Prop
  | .txMessage env pool _ tx =>
    (acceptToMemoryPool K env pool tx).1 = .accepted →
      ∀ l, taken K env s.mapOrphanTransactions (s.mapOrphanTransactions.size + 1) [tx.getHash K]
        (acceptToMemoryPool K env pool tx).2 = some l → ∀ prev ∈ l, s.Spent prev
  | _ => True

theorem covered_txMessage (env : OrphanEnv) (pool : CTxMemPool) (rand : Nat → UInt256)
    (tx : CTransaction) : Covered K s (.txMessage env pool rand tx) ↔
      ((acceptToMemoryPool K env pool tx).1 = .accepted →
        ∀ l, taken K env s.mapOrphanTransactions (s.mapOrphanTransactions.size + 1) [tx.getHash K]
          (acceptToMemoryPool K env pool tx).2 = some l → ∀ prev ∈ l, s.Spent prev) := Iff.rfl

theorem step_txMessage (env : OrphanEnv) (pool : CTxMemPool) (rand : Nat → UInt256)
    (tx : CTransaction) : s.step K (.txMessage env pool rand tx) =
      ((s.processTx K env pool rand tx).map Prod.fst).getD s := rfl

theorem Kept.step (h : s.Kept K) (op : OrphanOp) : (s.step K op).Kept K := by
  cases op with
  | addOrphanTx tx => exact h.addOrphanTx
  | eraseOrphanTx hash => exact h.eraseOrphanTx hash
  | limitOrphanTxSize nMaxOrphans rand => exact h.limitOrphanTxSize nMaxOrphans rand
  | txMessage env pool rand tx =>
    rw [step_txMessage]
    by_cases hacc : (acceptToMemoryPool K env pool tx).1 = .accepted
    · obtain ⟨s', pool', -, hs', hkept, -⟩ := processTx_accepted h pool rand tx hacc
      rw [hs']
      exact hkept
    · obtain ⟨s', pool', hs', hkept, -⟩ := processTx_not_accepted h pool rand tx hacc
      rw [hs']
      exact hkept

theorem Kept.run (ops : List OrphanOp) : (OrphanTxs.run K ops).Kept K :=
  List.foldlRecOn ops (OrphanTxs.step K) .empty fun _ h op _ => h.step op

/-- **When an operation keeps the maps in step.** -/
theorem step_exact_iff (h : s.Kept K) (hexact : s.Exact) (op : OrphanOp) :
    (s.step K op).Exact ↔ Covered K s op := by
  have hnone := h.exact_iff.mp hexact
  rw [(h.step op).exact_iff]
  cases op with
  | addOrphanTx tx =>
    exact iff_of_true (fun prev hidle => hnone prev (idle_of_addOrphanTx hidle)) trivial
  | eraseOrphanTx hash =>
    exact iff_of_true (fun prev hidle => hnone prev (idle_eraseOrphanTx.mp hidle).1) trivial
  | limitOrphanTxSize nMaxOrphans rand =>
    exact iff_of_true (not_idle_limitOrphanTxSize hnone) trivial
  | txMessage env pool rand tx =>
    rw [step_txMessage, covered_txMessage]
    by_cases hacc : (acceptToMemoryPool K env pool tx).1 = .accepted
    · obtain ⟨s', pool', l, hs', -, htaken, hidle⟩ := processTx_accepted h pool rand tx hacc
      rw [hs', htaken]
      simp only [Option.map_some, Option.getD_some, hidle hnone, not_and, not_not, hacc,
        Option.some_inj, forall_eq', true_imp_iff]
    · obtain ⟨s', pool', hs', -, hidle⟩ := processTx_not_accepted h pool rand tx hacc
      rw [hs']
      exact iff_of_true (hidle hnone) fun hyes => absurd hyes hacc

/-- **When the maps are in step in a run**: `mapOrphanTransactionsByPrev` is the inverse index of
`mapOrphanTransactions` in every state of a run from no orphans, exactly when at every message all
that the pool takes is spent by held orphans. -/
theorem orphans_exact_iff (ops : List OrphanOp) :
    (∀ ops', ops' <+: ops → (run K ops').Exact) ↔
      ∀ ops' op, ops' ++ [op] <+: ops → Covered K (run K ops') op :=
  everywhere_iff (J := Kept K) .empty
    ((Kept.empty (K := K)).exact_iff.mpr fun prev hidle => by
      simp [Idle, Listing.Idle, empty] at hidle)
    (fun _ op h _ => h.step op) (fun _ op h hexact => step_exact_iff h hexact op) ops

/-! ## 7. A transaction nobody waited for -/

/-- A message with `poolParent`, which the pool takes. -/
def parentMessage : OrphanOp := .txMessage ⟨poolEnv, fun _ _ => false⟩ .empty (fun _ => 0) poolParent

/-- **An empty bucket is left**: nothing is held, and the id of the transaction has a bucket. -/
theorem bucket_left_behind :
    poolParent.getHash forkCrypto ∈ (run forkCrypto [parentMessage]).mapOrphanTransactionsByPrev ∧
      (run forkCrypto [parentMessage]).mapOrphanTransactions.size = 0 ∧
      ¬ (run forkCrypto [parentMessage]).Exact := by
  have hbucket : poolParent.getHash forkCrypto ∈
      (run forkCrypto [parentMessage]).mapOrphanTransactionsByPrev := by decide +kernel
  have hsize : (run forkCrypto [parentMessage]).mapOrphanTransactions.size = 0 := by decide +kernel
  refine ⟨hbucket, hsize, fun hexact => ?_⟩
  obtain ⟨hash, tx, htx, -⟩ := hexact.bucket _ hbucket
  have hmem : hash ∈ (run forkCrypto [parentMessage]).mapOrphanTransactions.keys :=
    ExtTreeMap.mem_keys.mpr (ExtTreeMap.mem_iff_isSome_getElem?.mpr (by rw [htx]; rfl))
  rw [← ExtTreeMap.length_keys, List.length_eq_zero_iff] at hsize
  rw [hsize] at hmem
  cases hmem

end OrphanTxs

end Breakout
