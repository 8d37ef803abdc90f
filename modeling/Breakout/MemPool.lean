/-
# The memory pool

`mapTx` has the transactions of the pool by their ids, and `mapNextTx` says which of them spends an
outpoint, and with which input.  `accept` enters a transaction none of whose outpoints is spent in
the pool, `remove` takes one out, with what descends from it if it is asked to, and
`removeConflicts` takes out what spends the same outpoints as a given transaction.

`operator==` is what `removeConflicts` tells a transaction from its conflicts by; equal transactions
need not have the same id (`opEq_getHash_iff`).

`memPool_exact` says that the second map is the inverse of the first in every run.  What a recursive
removal does is in `RemovedTree`: what is left is closed, in that nothing left spends an output of
what went.

`remove` recurses through `mapNextTx`, so here it runs on a budget.  If ids are hashes no transaction
descends from itself, and a large enough budget is never used up (`remove_returns`).
-/
import Breakout.Lib.InverseIndex
import Breakout.Block

namespace Breakout

open Lib

variable (K : Crypto)

/-! ## 1. Equal transactions -/

/-- `operator==` of two transactions. -/
def CTransaction.opEq (a b : CTransaction) : Bool :=
  if a.nVersion ≥ 2 then
    decide (a.nVersion = b.nVersion ∧ a.nTime = b.nTime ∧ a.vin = b.vin ∧ a.vout = b.vout ∧
      a.nLockTime = b.nLockTime ∧ a.strTxComment = b.strTxComment)
  else
    decide (a.nVersion = b.nVersion ∧ a.nTime = b.nTime ∧ a.vin = b.vin ∧ a.vout = b.vout ∧
      a.nLockTime = b.nLockTime)

variable {K} in
/-- What the comparison compares, for transactions that are equal otherwise: everything but the
service type, and everything but the comment before version 2. -/
theorem CTransaction.eq_of_opEq {a b : CTransaction} (h : a.opEq b = true) :
    a = { b with strTxComment := a.strTxComment, nServiceTypeID := a.nServiceTypeID } := by
  unfold CTransaction.opEq at h
  split at h
  · obtain ⟨hversion, htime, hin, hout, hlock, -⟩ := of_decide_eq_true h
    cases a
    cases b
    simp_all
  · obtain ⟨hversion, htime, hin, hout, hlock⟩ := of_decide_eq_true h
    cases a
    cases b
    simp_all

variable {K} in
/-- **Equal transactions have one id if and only if they have the same comment and the same service
type.**  Both are serialised under every version; `operator==` never compares the service type, and
compares the comment from version 2 on only.  The hash is asked not to collide on the two. -/
theorem getHash_eq_iff_of_opEq {a b : CTransaction} (hK : CollisionFree K {a, b})
    (h : a.opEq b = true) :
    a.getHash K = b.getHash K ↔
      a.strTxComment = b.strTxComment ∧ a.nServiceTypeID = b.nServiceTypeID := by
  have heq := CTransaction.eq_of_opEq h
  constructor
  · intro hid
    have hhashed := hK.hashed_eq (Set.mem_insert a {b}) (Set.mem_insert_of_mem a rfl) hid
    exact ⟨by simpa using congrArg CTransaction.strTxComment hhashed,
      by simpa using congrArg CTransaction.nServiceTypeID hhashed⟩
  · rintro ⟨hcomment, hservice⟩
    rw [hcomment, hservice] at heq
    rw [heq]

variable {K} in
/-- **Exactly when equality implies the same id**: equal transactions need the same service type too,
and before version 2 the same comment. -/
theorem opEq_getHash_iff {a b : CTransaction} (hK : CollisionFree K {a, b}) :
    (a.opEq b = true → a.getHash K = b.getHash K) ↔
      (a.opEq b = true → a.nServiceTypeID = b.nServiceTypeID ∧
        (a.nVersion < 2 → a.strTxComment = b.strTxComment)) := by
  constructor
  · intro hids heq
    obtain ⟨hcomment, hservice⟩ := (getHash_eq_iff_of_opEq hK heq).mp (hids heq)
    exact ⟨hservice, fun _ => hcomment⟩
  · intro hfields heq
    obtain ⟨hservice, hcomment⟩ := hfields heq
    refine (getHash_eq_iff_of_opEq hK heq).mpr ⟨?_, hservice⟩
    by_cases hversion : a.nVersion < 2
    · exact hcomment hversion
    · -- from version 2 on the comment is compared
      have hcompared := heq
      unfold CTransaction.opEq at hcompared
      rw [if_pos (Int32.not_lt.mp hversion)] at hcompared
      exact (of_decide_eq_true hcompared).2.2.2.2.2

/-- A payment of version 1, the version the wallet makes, with a comment and a service type. -/
def payment (strTxComment : List UInt8) (nServiceTypeID : UInt32) : CTransaction :=
  ⟨1, 1600000000, [⟨⟨1, 0⟩, [], 0xffffffff⟩], [⟨1000000, 1, []⟩], 0, strTxComment, nServiceTypeID⟩

/-- **Equality does not imply the same id**: two payments with different comments are equal, and so
are two with different service types. -/
theorem equal_payments_differ :
    (payment [0x61] 0).opEq (payment [0x62] 0) = true ∧
      (payment [0x61] 0).getHash forkCrypto ≠ (payment [0x62] 0).getHash forkCrypto ∧
    (payment [] 0).opEq (payment [] 1) = true ∧
      (payment [] 0).getHash forkCrypto ≠ (payment [] 1).getHash forkCrypto := by
  refine ⟨by decide +kernel, by decide +kernel, by decide +kernel, by decide +kernel⟩

/-- The condition at two payments whose comments differ. -/
theorem opEq_getHash_iff_payment :
    ((payment [0x61] 0).opEq (payment [0x62] 0) = true →
        (payment [0x61] 0).getHash forkCrypto = (payment [0x62] 0).getHash forkCrypto) ↔
      ((payment [0x61] 0).opEq (payment [0x62] 0) = true →
        (payment [0x61] 0).nServiceTypeID = (payment [0x62] 0).nServiceTypeID ∧
          ((payment [0x61] 0).nVersion < 2 →
            (payment [0x61] 0).strTxComment = (payment [0x62] 0).strTxComment)) := by
  have hne : (payment [0x61] 0).getHash forkCrypto ≠ (payment [0x62] 0).getHash forkCrypto := by
    decide +kernel
  refine opEq_getHash_iff ⟨?_, ?_⟩
  · rintro tx (rfl | rfl)
    · show List.length _ < 2 ^ 64
      decide +kernel
    · show List.length _ < 2 ^ 64
      decide +kernel
  · rintro a (rfl | rfl) b (rfl | rfl) hid
    · rfl
    · exact absurd hid hne
    · exact absurd hid hne.symm
    · rfl

/-! ## 2. The maps -/

/-- `CInPoint`: the transaction, which is given by its place in `mapTx`, and the input. -/
abbrev CInPoint := UInt256 × Nat

/-- The outpoints the inputs name, in their order. -/
def CTransaction.prevouts (tx : CTransaction) : List COutPoint := tx.vin.map CTxIn.prevout

structure CTxMemPool where
  mapTx : UInt256 → Option CTransaction
  mapNextTx : COutPoint → Option CInPoint

/-- What `accept` reads besides the pool.  `checkInputs` is the verdict of all it does if it is asked
to check the inputs, between the search for conflicts and the entry; none of that changes the
pool. -/
structure PoolEnv where
  clock : Clock
  containsTx : UInt256 → Bool
  isStandard : CTransaction → Bool
  checkInputs : CTxMemPool → CTransaction → Bool

namespace CTxMemPool

/-- An empty pool, and `CTxMemPool::clear`. -/
def empty : CTxMemPool := ⟨fun _ => none, fun _ => none⟩

def addUnchecked (pool : CTxMemPool) (hash : UInt256) (tx : CTransaction) : CTxMemPool where
  mapTx := Function.update pool.mapTx hash (some tx)
  mapNextTx := enterSlots hash 0 tx.prevouts pool.mapNextTx

/-- `CTxMemPool::accept`; replacing a transaction is disabled. -/
def accept (env : PoolEnv) (pool : CTxMemPool) (tx : CTransaction) (fCheckInputs : Bool) :
    Bool × CTxMemPool :=
  if (checkTransaction env.clock.fTestNet env.clock.nAdjustedTime tx).accepts = false then
    (false, pool)
  else if tx.isCoinBase = true then (false, pool)
  else if tx.isCoinStake = true then (false, pool)
  else if env.clock.fTestNet = false ∧ env.isStandard tx = false then (false, pool)
  else if (pool.mapTx (tx.getHash K)).isSome then (false, pool)
  else if fCheckInputs = true ∧ env.containsTx (tx.getHash K) = true then (false, pool)
  else if ∃ outpoint ∈ tx.prevouts, (pool.mapNextTx outpoint).isSome then (false, pool)
  else if fCheckInputs = true ∧ env.checkInputs pool tx = false then (false, pool)
  else (true, pool.addUnchecked (tx.getHash K) tx)

/-- The entries of a transaction erased. -/
def erase (pool : CTxMemPool) (hash : UInt256) (tx : CTransaction) : CTxMemPool where
  mapTx := Function.update pool.mapTx hash none
  mapNextTx := takeOutSlots tx.prevouts pool.mapNextTx

/-- The loop of `remove` over the outputs; it would not return from a pointer that dangles. -/
def removeSpenders (remove : CTxMemPool → CTransaction → Option CTxMemPool) (hash : UInt256) :
    List Nat → CTxMemPool → Option CTxMemPool
  | [], pool => some pool
  | i :: l, pool =>
    match pool.mapNextTx ⟨hash, UInt32.ofNat i⟩ with
    | none => removeSpenders remove hash l pool
    | some (ptx, _) =>
      match pool.mapTx ptx with
      | none => none
      | some txNext =>
        match remove pool txNext with
        | none => none
        | some pool' => removeSpenders remove hash l pool'

def remove : Nat → CTxMemPool → CTransaction → Bool → Option CTxMemPool
  | 0, _, _, _ => none
  | fuel + 1, pool, tx, fRecursive =>
    if (pool.mapTx (tx.getHash K)).isNone then some pool
    else
      let left :=
        if fRecursive then
          removeSpenders (fun pool txNext => remove fuel pool txNext true) (tx.getHash K)
            (List.range tx.vout.length) pool
        else some pool
      left.map fun pool => pool.erase (tx.getHash K) tx

/-- The loop of `removeConflicts`. -/
def removeConflictsLoop (fuel : Nat) (tx : CTransaction) :
    List COutPoint → CTxMemPool → Option CTxMemPool
  | [], pool => some pool
  | outpoint :: l, pool =>
    match pool.mapNextTx outpoint with
    | none => removeConflictsLoop fuel tx l pool
    | some (ptx, _) =>
      match pool.mapTx ptx with
      | none => none
      | some txConflict =>
        if txConflict.opEq tx then removeConflictsLoop fuel tx l pool
        else
          match remove K fuel pool txConflict true with
          | none => none
          | some pool' => removeConflictsLoop fuel tx l pool'

def removeConflicts (fuel : Nat) (pool : CTxMemPool) (tx : CTransaction) : Option CTxMemPool :=
  removeConflictsLoop K fuel tx tx.prevouts pool

end CTxMemPool

/-! ## 3. What holds of the maps -/

/-- The transactions of the pool are under their ids, and the second map is the inverse of the
first. -/
structure CTxMemPool.Ok (T : Set CTransaction) (pool : CTxMemPool) : Prop where
  keyed : ∀ {hash tx}, pool.mapTx hash = some tx →
    tx.getHash K = hash ∧ tx ∈ T ∧ tx.isCoinBase = false
  inverse : InverseOf CTransaction.prevouts pool.mapTx pool.mapNextTx

/-- One transaction spends an output of another. -/
def CTransaction.SpendsOutput (child parent : CTransaction) : Prop :=
  ∃ i < parent.vout.length, ⟨parent.getHash K, UInt32.ofNat i⟩ ∈ child.prevouts

/-- The transactions of the pool that descend from one, through transactions of the pool. -/
inductive CTxMemPool.Descends (pool : CTxMemPool) (tx : CTransaction) : CTransaction → Prop
  | child {d : CTransaction} :
      pool.mapTx (d.getHash K) = some d → d.SpendsOutput K tx → Descends pool tx d
  | step {p d : CTransaction} :
      Descends pool tx p → pool.mapTx (d.getHash K) = some d → d.SpendsOutput K p →
      Descends pool tx d

/-- What a removal leaves that takes away descendants of `tx` only. -/
structure CTxMemPool.Shrinks (T : Set CTransaction) (tx : CTransaction)
    (pool pool' : CTxMemPool) : Prop where
  ok : pool'.Ok K T
  sub : ∀ {hash x}, pool'.mapTx hash = some x → pool.mapTx hash = some x
  closed : ∀ {p d}, pool.mapTx (p.getHash K) = some p → pool'.mapTx (p.getHash K) = none →
    pool.mapTx (d.getHash K) = some d → d.SpendsOutput K p → pool'.mapTx (d.getHash K) = none
  only : ∀ {x}, pool.mapTx (x.getHash K) = some x → pool'.mapTx (x.getHash K) = none →
    pool.Descends K tx x

/-- **What a recursive removal leaves.**  The transaction is gone, nothing that is left spends an
output of what is gone, and nothing went but the transaction and what descends from it. -/
structure CTxMemPool.RemovedTree (T : Set CTransaction) (tx : CTransaction)
    (pool pool' : CTxMemPool) : Prop where
  ok : pool'.Ok K T
  sub : ∀ {hash x}, pool'.mapTx hash = some x → pool.mapTx hash = some x
  gone : pool'.mapTx (tx.getHash K) = none
  closed : ∀ {p d}, pool.mapTx (p.getHash K) = some p → pool'.mapTx (p.getHash K) = none →
    pool.mapTx (d.getHash K) = some d → d.SpendsOutput K p → pool'.mapTx (d.getHash K) = none
  only : ∀ {x}, pool.mapTx (x.getHash K) = some x → pool'.mapTx (x.getHash K) = none →
    x.getHash K = tx.getHash K ∨ pool.Descends K tx x

variable {K} {T : Set CTransaction} {pool pool' pool'' : CTxMemPool} {tx : CTransaction}

namespace CTxMemPool

theorem ok_empty : empty.Ok K T := ⟨nofun, .empty⟩

/-- What was free is free in what is left. -/
theorem Ok.next_none (h : pool.Ok K T) (h' : pool'.Ok K T)
    (hsub : ∀ {hash x}, pool'.mapTx hash = some x → pool.mapTx hash = some x) {o : COutPoint}
    (ho : pool.mapNextTx o = none) : pool'.mapNextTx o = none := by
  by_contra hne
  obtain ⟨hash, x, hx, hmem⟩ := h'.inverse.isSome_iff.mp (Option.isSome_iff_ne_none.mpr hne)
  have hsome := h.inverse.isSome_iff.mpr ⟨hash, x, hsub hx, hmem⟩
  rw [ho] at hsome
  cases hsome

variable {d c x : CTransaction} {rec : CTxMemPool → CTransaction → Option CTxMemPool} {fuel : Nat}
  {rank : UInt256 → Nat}

/-- What descends in a part of the pool descends in the pool. -/
theorem Descends.mono (hsub : ∀ {hash x}, pool'.mapTx hash = some x → pool.mapTx hash = some x)
    (h : pool'.Descends K tx d) : pool.Descends K tx d := by
  induction h with
  | child hd hspends => exact .child (hsub hd) hspends
  | step _ hd hspends ih => exact .step ih (hsub hd) hspends

/-- What descends from a child descends from the parent. -/
theorem Descends.of_child (hc : pool.mapTx (c.getHash K) = some c) (hspends : c.SpendsOutput K tx)
    (h : pool.Descends K c d) : pool.Descends K tx d := by
  induction h with
  | child hd hchild => exact .step (.child hc hspends) hd hchild
  | step _ hd hchild ih => exact .step ih hd hchild

theorem Shrinks.refl (h : pool.Ok K T) : Shrinks K T tx pool pool := by
  refine ⟨h, id, fun hp hnone => ?_, fun hx hnone => ?_⟩
  · rw [hnone] at hp
    cases hp
  · rw [hnone] at hx
    cases hx

theorem Shrinks.trans (h : Shrinks K T tx pool pool') (h' : Shrinks K T tx pool' pool'') :
    Shrinks K T tx pool pool'' := by
  have hmid : ∀ {x : CTransaction}, pool.mapTx (x.getHash K) = some x →
      pool'.mapTx (x.getHash K) = none ∨ pool'.mapTx (x.getHash K) = some x := by
    intro x hx
    cases hx' : pool'.mapTx (x.getHash K) with
    | none => exact Or.inl rfl
    | some y =>
      have hy := h.sub hx'
      rw [hx] at hy
      exact Or.inr hy.symm
  have hnone : ∀ {hash : UInt256}, pool'.mapTx hash = none → pool''.mapTx hash = none := by
    intro hash hgone
    by_contra hne
    obtain ⟨y, hy⟩ := Option.ne_none_iff_exists'.mp hne
    rw [h'.sub hy] at hgone
    cases hgone
  refine ⟨h'.ok, fun hx => h.sub (h'.sub hx), ?_, ?_⟩
  · intro p d hp hgone hd hspends
    rcases hmid hp with hp' | hp'
    · exact hnone (h.closed hp hp' hd hspends)
    · rcases hmid hd with hd' | hd'
      · exact hnone hd'
      · exact h'.closed hp' hgone hd' hspends
  · intro x hx hgone
    rcases hmid hx with hx' | hx'
    · exact h.only hx hx'
    · exact (h'.only hx' hgone).mono h.sub

/-- Removing a child takes away descendants of the parent. -/
theorem RemovedTree.shrinks (hc : pool.mapTx (c.getHash K) = some c)
    (hspends : c.SpendsOutput K tx) (h : RemovedTree K T c pool pool') :
    Shrinks K T tx pool pool' := by
  refine ⟨h.ok, h.sub, h.closed, fun hx hgone => ?_⟩
  rcases h.only hx hgone with heq | hdesc
  · rw [heq, hc, Option.some_inj] at hx
    exact hx ▸ .child hc hspends
  · exact hdesc.of_child hc hspends

/-- **Nothing that descends from the transaction is left.** -/
theorem RemovedTree.no_descendant (h : RemovedTree K T tx pool pool')
    (htx : pool.mapTx (tx.getHash K) = some tx) (hd : pool.Descends K tx d) :
    pool'.mapTx (d.getHash K) = none := by
  induction hd with
  | child hd hspends => exact h.closed htx h.gone hd hspends
  | step hp hd hspends ih =>
    have hin : ∀ {p}, pool.Descends K tx p → pool.mapTx (p.getHash K) = some p := by
      intro p hp
      cases hp <;> assumption
    exact h.closed (hin hp) ih hd hspends

/-! ## 4. Erasing one transaction -/

/-- The transaction of the pool with an id has the outpoints of every transaction with that id. -/
theorem Ok.prevouts_eq (hT : CollisionFree K T) (h : pool.Ok K T) (htx : tx ∈ T)
    (hx : pool.mapTx (tx.getHash K) = some x) : tx.prevouts = x.prevouts := by
  obtain ⟨hid, hmem, -⟩ := h.keyed hx
  exact hT.prevouts_eq htx hmem hid.symm

theorem mapTx_erase {hash : UInt256} :
    (pool.erase (tx.getHash K) tx).mapTx hash = some x ↔
      hash ≠ tx.getHash K ∧ pool.mapTx hash = some x := by
  by_cases hh : hash = tx.getHash K
  · simp [erase, hh]
  · simp [erase, hh]

/-- Erasing a transaction of the pool. -/
theorem Ok.erase (hT : CollisionFree K T) (h : pool.Ok K T) (htx : tx ∈ T)
    (hx : pool.mapTx (tx.getHash K) = some x) : (pool.erase (tx.getHash K) tx).Ok K T := by
  refine ⟨fun hy => h.keyed (mapTx_erase.mp hy).2, ?_⟩
  refine h.inverse.takeOut hx fun o => ?_
  rw [h.prevouts_eq hT htx hx]

/-- Erasing a transaction that went out of a pool that had it changes nothing. -/
theorem erase_of_gone (hT : CollisionFree K T) (h : pool.Ok K T) (h' : pool'.Ok K T) (htx : tx ∈ T)
    (hsub : ∀ {hash x}, pool'.mapTx hash = some x → pool.mapTx hash = some x)
    (hx : pool.mapTx (tx.getHash K) = some x) (hgone : pool'.mapTx (tx.getHash K) = none) :
    pool'.erase (tx.getHash K) tx = pool' := by
  have hmap : Function.update pool'.mapTx (tx.getHash K) none = pool'.mapTx :=
    Function.update_eq_self_iff.mpr hgone.symm
  have hnext : takeOutSlots tx.prevouts pool'.mapNextTx = pool'.mapNextTx := by
    funext o
    rw [takeOutSlots_eq]
    split
    · next ho =>
      by_contra hne
      obtain ⟨hash, y, hy, hmem⟩ := h'.inverse.isSome_iff.mp
        (Option.isSome_iff_ne_none.mpr (Ne.symm hne))
      rw [h.prevouts_eq hT htx hx] at ho
      have hsame := h.inverse.eq_of_mem (hsub hy) hx hmem ho
      rw [hsame, hgone] at hy
      cases hy
    · rfl
  rw [erase, hmap, hnext]

/-! ## 5. The recursion -/

/-- The loop over the outputs, when the removal of each spender does what it should. -/
theorem removeSpenders_spec
    (hrec : ∀ {pool c pool'}, pool.Ok K T → pool.mapTx (c.getHash K) = some c →
      rec pool c = some pool' → RemovedTree K T c pool pool') :
    ∀ {l : List Nat} {pool pool' : CTxMemPool}, pool.Ok K T → (∀ i ∈ l, i < tx.vout.length) →
      removeSpenders rec (tx.getHash K) l pool = some pool' →
      Shrinks K T tx pool pool' ∧
        ∀ i ∈ l, pool'.mapNextTx ⟨tx.getHash K, UInt32.ofNat i⟩ = none
  | [], pool, pool', hok, _, h => by
    cases h
    exact ⟨.refl hok, nofun⟩
  | i :: l, pool, pool', hok, hl, h => by
    obtain ⟨hi, hl⟩ := List.forall_mem_cons.mp hl
    rw [removeSpenders] at h
    cases hnext : pool.mapNextTx ⟨tx.getHash K, UInt32.ofNat i⟩ with
    | none =>
      rw [hnext] at h
      obtain ⟨hshrinks, hfree⟩ := removeSpenders_spec hrec hok hl h
      refine ⟨hshrinks, List.forall_mem_cons.mpr ⟨?_, hfree⟩⟩
      exact hok.next_none hshrinks.ok hshrinks.sub hnext
    | some it =>
      obtain ⟨ptx, j⟩ := it
      obtain ⟨c, hc, hj⟩ := (hok.inverse _ _ _).mp hnext
      obtain ⟨hid, -, -⟩ := hok.keyed hc
      rw [hnext] at h
      simp only [hc] at h
      split at h
      · cases h
      · next pool₁ hpool₁ =>
        have hself : pool.mapTx (c.getHash K) = some c := by rw [hid, hc]
        have hspends : c.SpendsOutput K tx := ⟨i, hi, List.mem_of_getElem? hj⟩
        have htree := hrec hok hself hpool₁
        have hfirst := htree.shrinks hself hspends
        obtain ⟨hshrinks, hfree⟩ := removeSpenders_spec hrec hfirst.ok hl h
        refine ⟨hfirst.trans hshrinks, List.forall_mem_cons.mpr ⟨?_, hfree⟩⟩
        -- the spender of this output is gone, and no other can take its place
        refine hfirst.ok.next_none hshrinks.ok hshrinks.sub ?_
        by_contra hne
        obtain ⟨hash, x, hx, hmem⟩ := hfirst.ok.inverse.isSome_iff.mp
          (Option.isSome_iff_ne_none.mpr hne)
        have hsame := hok.inverse.eq_of_mem (hfirst.sub hx) hc hmem (List.mem_of_getElem? hj)
        rw [hsame, ← hid, htree.gone] at hx
        cases hx

/-- **What `remove` leaves**, if it is recursive. -/
theorem remove_tree (hT : CollisionFree K T) :
    ∀ {fuel : Nat} {pool : CTxMemPool} {tx : CTransaction} {pool' : CTxMemPool}, pool.Ok K T →
      tx ∈ T → pool.mapTx (tx.getHash K) ≠ none → remove K fuel pool tx true = some pool' →
      RemovedTree K T tx pool pool'
  | 0, _, _, _, _, _, _, h => by cases h
  | fuel + 1, pool, tx, pool', hok, htx, hin, h => by
    obtain ⟨x, hx⟩ := Option.ne_none_iff_exists'.mp hin
    have hnone : ¬ (pool.mapTx (tx.getHash K)).isNone = true := by simp [hx]
    rw [remove, if_neg hnone] at h
    simp only [if_true, Option.map_eq_some_iff] at h
    obtain ⟨left, hleft, rfl⟩ := h
    have hrec : ∀ {pool c pool'}, pool.Ok K T → pool.mapTx (c.getHash K) = some c →
        remove K fuel pool c true = some pool' → RemovedTree K T c pool pool' := by
      intro pool c pool' hok hc hrun
      refine remove_tree hT hok (hok.keyed hc).2.1 ?_ hrun
      rw [hc]
      exact nofun
    obtain ⟨hshrinks, hfree⟩ :=
      removeSpenders_spec hrec hok (fun i hi => List.mem_range.mp hi) hleft
    -- nothing is left that spends an output of the transaction
    have hspent : ∀ {d}, left.mapTx (d.getHash K) = some d → ¬ d.SpendsOutput K tx := by
      rintro d hd ⟨i, hi, hmem⟩
      have hsome := hshrinks.ok.inverse.isSome_iff.mpr ⟨_, d, hd, hmem⟩
      rw [hfree i (List.mem_range.mpr hi)] at hsome
      cases hsome
    have hleftOk : (left.erase (tx.getHash K) tx).Ok K T := by
      cases hgone : left.mapTx (tx.getHash K) with
      | none =>
        rw [erase_of_gone hT hok hshrinks.ok htx hshrinks.sub hx hgone]
        exact hshrinks.ok
      | some y => exact hshrinks.ok.erase hT htx hgone
    have hgone : ∀ {y : CTransaction}, (left.erase (tx.getHash K) tx).mapTx (y.getHash K) = none →
        y.getHash K = tx.getHash K ∨ left.mapTx (y.getHash K) = none := by
      intro y hy
      by_cases hid : y.getHash K = tx.getHash K
      · exact Or.inl hid
      · refine Or.inr ?_
        simpa [erase, hid] using hy
    refine ⟨hleftOk, fun hy => hshrinks.sub (mapTx_erase.mp hy).2, Function.update_self .., ?_, ?_⟩
    · intro p d hp hpgone hd hspends
      have herased : left.mapTx (d.getHash K) = none →
          (left.erase (tx.getHash K) tx).mapTx (d.getHash K) = none := by
        intro hnone
        by_contra hne
        obtain ⟨y, hy⟩ := Option.ne_none_iff_exists'.mp hne
        rw [(mapTx_erase.mp hy).2] at hnone
        cases hnone
      apply herased
      rcases hgone hpgone with hid | hpleft
      · -- the parent is the transaction itself
        by_contra hne
        obtain ⟨y, hy⟩ := Option.ne_none_iff_exists'.mp hne
        have hsame := hshrinks.sub hy
        rw [hd, Option.some_inj] at hsame
        subst hsame
        obtain ⟨i, hi, hmem⟩ := hspends
        have hvout : p.vout = tx.vout := hT.vout_eq (hok.keyed hp).2.1 htx hid
        exact hspent hy ⟨i, hvout ▸ hi, hid ▸ hmem⟩
      · exact hshrinks.closed hp hpleft hd hspends
    · intro y hy hygone
      exact (hgone hygone).imp id fun hyleft => hshrinks.only hy hyleft

/-- What `remove` leaves, if it is not recursive. -/
theorem remove_plain (hT : CollisionFree K T) (hok : pool.Ok K T) (htx : tx ∈ T)
    (h : remove K fuel pool tx false = some pool') :
    pool'.Ok K T ∧ ∀ {hash x},
      pool'.mapTx hash = some x ↔ hash ≠ tx.getHash K ∧ pool.mapTx hash = some x := by
  cases fuel with
  | zero => cases h
  | succ fuel =>
    rw [remove] at h
    cases hx : pool.mapTx (tx.getHash K) with
    | none =>
      rw [if_pos (by rw [hx]; rfl)] at h
      cases h
      refine ⟨hok, fun {hash x} => ⟨fun hin => ⟨?_, hin⟩, And.right⟩⟩
      rintro rfl
      rw [hx] at hin
      cases hin
    | some x =>
      rw [if_neg (by simp [hx])] at h
      cases h
      exact ⟨hok.erase hT htx hx, mapTx_erase⟩

/-- What is left after `remove` was there before. -/
theorem remove_sub (hT : CollisionFree K T) {fRecursive : Bool} (hok : pool.Ok K T) (htx : tx ∈ T)
    (h : remove K fuel pool tx fRecursive = some pool') :
    pool'.Ok K T ∧ ∀ {hash x}, pool'.mapTx hash = some x → pool.mapTx hash = some x := by
  cases fRecursive with
  | false =>
    obtain ⟨hok', hleft⟩ := remove_plain hT hok htx h
    exact ⟨hok', fun hx => (hleft.mp hx).2⟩
  | true =>
    by_cases hin : pool.mapTx (tx.getHash K) = none
    · cases fuel with
      | zero => cases h
      | succ fuel =>
        rw [remove, if_pos (by rw [hin]; rfl)] at h
        cases h
        exact ⟨hok, id⟩
    · have htree := remove_tree hT hok htx hin h
      exact ⟨htree.ok, htree.sub⟩

/-- **What `removeConflicts` leaves.**  What still spends one of the outpoints is the same
transaction for `operator==`; what went conflicts with the transaction, or descends from what
does. -/
theorem removeConflictsLoop_spec (hT : CollisionFree K T) :
    ∀ {l : List COutPoint} {pool pool' : CTxMemPool}, pool.Ok K T →
      removeConflictsLoop K fuel tx l pool = some pool' →
      pool'.Ok K T ∧ (∀ {hash x}, pool'.mapTx hash = some x → pool.mapTx hash = some x) ∧
        (∀ o ∈ l, ∀ hash x, pool'.mapTx hash = some x → o ∈ x.prevouts → x.opEq tx = true) ∧
        ∀ x, pool.mapTx (x.getHash K) = some x → pool'.mapTx (x.getHash K) = none →
          ∃ c, pool.mapTx (c.getHash K) = some c ∧ (∃ o ∈ l, o ∈ c.prevouts) ∧
            c.opEq tx = false ∧ (x.getHash K = c.getHash K ∨ pool.Descends K c x)
  | [], pool, pool', hok, h => by
    cases h
    refine ⟨hok, id, nofun, fun x hx hnone => ?_⟩
    rw [hx] at hnone
    cases hnone
  | o :: l, pool, pool', hok, h => by
    rw [removeConflictsLoop] at h
    cases hnext : pool.mapNextTx o with
    | none =>
      rw [hnext] at h
      obtain ⟨hok', hsub, hsame, honly⟩ := removeConflictsLoop_spec hT hok h
      refine ⟨hok', hsub, List.forall_mem_cons.mpr ⟨fun hash x hx ho => ?_, hsame⟩, ?_⟩
      · have hsome := hok.inverse.isSome_iff.mpr ⟨hash, x, hsub hx, ho⟩
        rw [hnext] at hsome
        cases hsome
      · intro x hx hgone
        obtain ⟨c, hc, ⟨o', ho', hmem⟩, hrest⟩ := honly x hx hgone
        exact ⟨c, hc, ⟨o', List.mem_cons_of_mem _ ho', hmem⟩, hrest⟩
    | some it =>
      obtain ⟨ptx, j⟩ := it
      obtain ⟨c, hc, hj⟩ := (hok.inverse _ _ _).mp hnext
      obtain ⟨hid, hcT, -⟩ := hok.keyed hc
      have hself : pool.mapTx (c.getHash K) = some c := by rw [hid, hc]
      rw [hnext] at h
      simp only [hc] at h
      split at h
      · next heq =>
        obtain ⟨hok', hsub, hsame, honly⟩ := removeConflictsLoop_spec hT hok h
        refine ⟨hok', hsub, List.forall_mem_cons.mpr ⟨fun hash x hx ho => ?_, hsame⟩, ?_⟩
        · have hkey := hok.inverse.eq_of_mem (hsub hx) hc ho (List.mem_of_getElem? hj)
          have hx' := hsub hx
          rw [hkey, hc, Option.some_inj] at hx'
          exact hx' ▸ heq
        · intro x hx hgone
          obtain ⟨c', hc', ⟨o', ho', hmem⟩, hrest⟩ := honly x hx hgone
          exact ⟨c', hc', ⟨o', List.mem_cons_of_mem _ ho', hmem⟩, hrest⟩
      · next hne =>
        split at h
        · cases h
        · next pool₁ hpool₁ =>
          have hin : pool.mapTx (c.getHash K) ≠ none := by
            rw [hself]
            exact nofun
          have htree := remove_tree hT hok hcT hin hpool₁
          obtain ⟨hok', hsub, hsame, honly⟩ := removeConflictsLoop_spec hT htree.ok h
          refine ⟨hok', fun hx => htree.sub (hsub hx),
            List.forall_mem_cons.mpr ⟨fun hash x hx ho => ?_, hsame⟩, ?_⟩
          · -- the one transaction that spent the outpoint is gone
            have hx' := hsub hx
            have hkey := hok.inverse.eq_of_mem (htree.sub hx') hc ho (List.mem_of_getElem? hj)
            rw [hkey, ← hid, htree.gone] at hx'
            cases hx'
          · intro x hx hgone
            cases hmid : pool₁.mapTx (x.getHash K) with
            | none =>
              refine ⟨c, hself, ⟨o, List.mem_cons_self, List.mem_of_getElem? hj⟩, ?_,
                htree.only hx hmid⟩
              simpa using hne
            | some y =>
              have hy := htree.sub hmid
              rw [hx, Option.some_inj] at hy
              obtain ⟨c', hc', ⟨o', ho', hmem⟩, hneq, hrest⟩ := honly x (hy ▸ hmid) hgone
              exact ⟨c', htree.sub hc', ⟨o', List.mem_cons_of_mem _ ho', hmem⟩, hneq,
                hrest.imp id fun hdesc => hdesc.mono htree.sub⟩

/-! ## 6. The recursion returns -/

/-- No transaction descends from itself: what spends an output of another ranks higher. -/
def Ranked (K : Crypto) (T : Set CTransaction) (rank : UInt256 → Nat) : Prop :=
  ∀ p ∈ T, ∀ d ∈ T, d.SpendsOutput K p → rank (p.getHash K) < rank (d.getHash K)

theorem removeSpenders_returns
    (hrec : ∀ {pool c}, pool.Ok K T → pool.mapTx (c.getHash K) = some c → c.SpendsOutput K tx →
      ∃ pool', rec pool c = some pool' ∧ RemovedTree K T c pool pool') :
    ∀ {l : List Nat} {pool : CTxMemPool}, pool.Ok K T → (∀ i ∈ l, i < tx.vout.length) →
      ∃ pool', removeSpenders rec (tx.getHash K) l pool = some pool'
  | [], pool, _, _ => ⟨pool, rfl⟩
  | i :: l, pool, hok, hl => by
    obtain ⟨hi, hl⟩ := List.forall_mem_cons.mp hl
    rw [removeSpenders]
    cases hnext : pool.mapNextTx ⟨tx.getHash K, UInt32.ofNat i⟩ with
    | none => exact removeSpenders_returns hrec hok hl
    | some it =>
      obtain ⟨ptx, j⟩ := it
      obtain ⟨c, hc, hj⟩ := (hok.inverse _ _ _).mp hnext
      obtain ⟨hid, -, -⟩ := hok.keyed hc
      have hself : pool.mapTx (c.getHash K) = some c := by rw [hid, hc]
      obtain ⟨pool₁, hpool₁, htree⟩ := hrec hok hself ⟨i, hi, List.mem_of_getElem? hj⟩
      simp only [hc, hpool₁]
      exact removeSpenders_returns hrec htree.ok hl

/-- A recursive removal returns if the budget is above the ranks that are left. -/
theorem remove_returns_of_rank (hT : CollisionFree K T) (hrank : Ranked K T rank) {M : Nat}
    (hM : ∀ hash, rank hash < M) :
    ∀ {fuel : Nat} {pool : CTxMemPool} {tx : CTransaction}, pool.Ok K T → tx ∈ T →
      M < fuel + rank (tx.getHash K) → ∃ pool', remove K fuel pool tx true = some pool'
  | 0, pool, tx, _, _, hfuel => by
    have hlt := hM (tx.getHash K)
    omega
  | fuel + 1, pool, tx, hok, htx, hfuel => by
    rw [remove]
    split
    · exact ⟨pool, rfl⟩
    · have hrec : ∀ {pool c}, pool.Ok K T → pool.mapTx (c.getHash K) = some c →
          c.SpendsOutput K tx → ∃ pool', remove K fuel pool c true = some pool' ∧
            RemovedTree K T c pool pool' := by
        intro pool c hok hc hspends
        have hcT := (hok.keyed hc).2.1
        have hlt := hrank tx htx c hcT hspends
        have hfuel' : M < fuel + rank (c.getHash K) := by omega
        obtain ⟨pool', hpool'⟩ := remove_returns_of_rank hT hrank hM hok hcT hfuel'
        refine ⟨pool', hpool', remove_tree hT hok hcT ?_ hpool'⟩
        rw [hc]
        exact nofun
      obtain ⟨left, hleft⟩ :=
        removeSpenders_returns hrec hok (fun i hi => List.mem_range.mp hi)
      exact ⟨left.erase (tx.getHash K) tx, by simp [hleft]⟩

/-- **A recursive removal returns**, on every budget that is large enough. -/
theorem remove_returns (hT : CollisionFree K T) (hrank : Ranked K T rank) :
    ∃ N, ∀ fuel ≥ N, ∀ {pool : CTxMemPool} {tx : CTransaction}, pool.Ok K T → tx ∈ T →
      ∃ pool', remove K fuel pool tx true = some pool' := by
  have hfinite : Finite UInt256 :=
    Finite.of_injective (@BitVec.toFin 256) fun _ _ h => BitVec.toFin_inj.mp h
  obtain ⟨M, hM⟩ := (Set.finite_range rank).bddAbove
  have hlt : ∀ hash, rank hash < M + 1 := fun hash => Nat.lt_succ_of_le (hM ⟨hash, rfl⟩)
  refine ⟨M + 2, fun fuel hfuel pool tx hok htx => ?_⟩
  exact remove_returns_of_rank hT hrank hlt hok htx (by omega)

/-! ## 7. Runs -/

/-- An accepted transaction keeps the maps in order. -/
theorem Ok.accept (hok : pool.Ok K T) (htx : tx ∈ T) (env : PoolEnv) (fCheckInputs : Bool) :
    (CTxMemPool.accept K env pool tx fCheckInputs).2.Ok K T := by
  unfold CTxMemPool.accept
  split_ifs with hcheck hcb hcs hstd hin hdb hconflict hinputs
  all_goals try exact hok
  have hnone : pool.mapTx (tx.getHash K) = none := by simpa using hin
  obtain ⟨_, hok'⟩ := accepts_iff.mp (Bool.eq_true_of_not_eq_false hcheck)
  have hfree : ∀ o ∈ tx.prevouts, pool.mapNextTx o = none := by
    intro o ho
    by_contra hne
    exact hconflict ⟨o, ho, Option.isSome_iff_ne_none.mpr hne⟩
  refine ⟨?_, hok.inverse.enter hnone (checkTransaction_spec hok').prevouts_nodup hfree⟩
  intro hash x hx
  by_cases hh : hash = tx.getHash K
  · subst hh
    simp only [addUnchecked, Function.update_self, Option.some_inj] at hx
    exact hx ▸ ⟨rfl, htx, by simpa using hcb⟩
  · simp only [addUnchecked, Function.update_of_ne hh] at hx
    exact hok.keyed hx

end CTxMemPool

/-- **Runs of the pool.** -/
inductive PoolRun (K : Crypto) (T : Set CTransaction) : CTxMemPool → Prop
  | empty : PoolRun K T .empty
  | accept {pool : CTxMemPool} {tx : CTransaction} (env : PoolEnv) (fCheckInputs : Bool) :
      PoolRun K T pool → tx ∈ T → PoolRun K T (pool.accept K env tx fCheckInputs).2
  | remove {pool pool' : CTxMemPool} {tx : CTransaction} {fuel : Nat} {fRecursive : Bool} :
      PoolRun K T pool → tx ∈ T → CTxMemPool.remove K fuel pool tx fRecursive = some pool' →
      PoolRun K T pool'
  | removeConflicts {pool pool' : CTxMemPool} {tx : CTransaction} {fuel : Nat} :
      PoolRun K T pool → tx ∈ T → pool.removeConflicts K fuel tx = some pool' → PoolRun K T pool'
  | clear {pool : CTxMemPool} : PoolRun K T pool → PoolRun K T .empty

/-- The maps are in order in every run. -/
theorem PoolRun.ok (hT : CollisionFree K T) (h : PoolRun K T pool) : pool.Ok K T := by
  induction h with
  | empty => exact CTxMemPool.ok_empty
  | accept env fCheckInputs _ htx ih => exact ih.accept htx env fCheckInputs
  | remove _ htx hrun ih => exact (CTxMemPool.remove_sub hT ih htx hrun).1
  | removeConflicts _ _ hrun ih => exact (CTxMemPool.removeConflictsLoop_spec hT ih hrun).1
  | clear => exact CTxMemPool.ok_empty

/-- **The pool, in every run.**  `mapNextTx` has exactly the inputs of the transactions of `mapTx`,
so no two of them share an outpoint.  The recursive removal of a transaction of the pool returns,
and leaves nothing that descends from it; of any other transaction `remove` changes nothing. -/
theorem memPool_exact (hT : CollisionFree K T) {rank : UInt256 → Nat}
    (hrank : CTxMemPool.Ranked K T rank) (h : PoolRun K T pool) :
    (∀ o hash i, pool.mapNextTx o = some (hash, i) ↔
      ∃ tx, pool.mapTx hash = some tx ∧ tx.prevouts[i]? = some o) ∧
    (∀ hash hash' tx tx' o, pool.mapTx hash = some tx → pool.mapTx hash' = some tx' →
      o ∈ tx.prevouts → o ∈ tx'.prevouts → hash = hash') ∧
    (∀ hash tx, pool.mapTx hash = some tx → ∃ N, ∀ fuel ≥ N, ∃ pool',
      CTxMemPool.remove K fuel pool tx true = some pool' ∧ pool'.mapTx hash = none ∧
        ∀ d, pool.Descends K tx d → pool'.mapTx (d.getHash K) = none) ∧
    ∀ tx fuel fRecursive, pool.mapTx (tx.getHash K) = none →
      CTxMemPool.remove K (fuel + 1) pool tx fRecursive = some pool := by
  have hok := h.ok hT
  refine ⟨hok.inverse, fun hash hash' tx tx' o hx hx' ho ho' =>
    hok.inverse.eq_of_mem hx hx' ho ho', ?_, ?_⟩
  · intro hash tx hx
    obtain ⟨hid, htx, -⟩ := hok.keyed hx
    have hself : pool.mapTx (tx.getHash K) = some tx := by rw [hid, hx]
    obtain ⟨N, hN⟩ := CTxMemPool.remove_returns hT hrank
    refine ⟨N, fun fuel hfuel => ?_⟩
    obtain ⟨pool', hrun⟩ := hN fuel hfuel hok htx
    have hin : pool.mapTx (tx.getHash K) ≠ none := by
      rw [hself]
      exact nofun
    have htree := CTxMemPool.remove_tree hT hok htx hin hrun
    exact ⟨pool', hrun, hid ▸ htree.gone, fun d hd => htree.no_descendant hself hd⟩
  · intro tx fuel fRecursive hnone
    rw [CTxMemPool.remove, if_pos (by rw [hnone]; rfl)]

/-! ## 8. A parent and a child -/

/-- A node on the test net that finds nothing wrong with the inputs. -/
def poolEnv : PoolEnv := ⟨⟨true, 1465546351⟩, fun _ => false, fun _ => true, fun _ _ => true⟩

/-- A transaction with one output. -/
def poolParent : CTransaction :=
  ⟨1, 1465545000, [⟨⟨7, 0⟩, [], 0xffffffff⟩], [⟨100000000, Color.brx.toInt32, [op1]⟩], 0, [], 0⟩

/-- A transaction that spends it. -/
def poolChild : CTransaction :=
  ⟨1, 1465545100, [⟨⟨poolParent.getHash forkCrypto, 0⟩, [], 0xffffffff⟩],
    [⟨90000000, Color.brx.toInt32, [op1]⟩], 0, [], 0⟩

/-- Both. -/
def poolTxs : List CTransaction := [poolParent, poolChild]

/-- The pool with both. -/
def bothPool : CTxMemPool :=
  ((CTxMemPool.empty.accept forkCrypto poolEnv poolParent true).2.accept forkCrypto poolEnv
    poolChild true).2

/-- The pool with the child, whose parent is in a block. -/
def childPool : CTxMemPool := (CTxMemPool.empty.accept forkCrypto poolEnv poolChild true).2

theorem poolTxs_collisionFree : CollisionFree forkCrypto {tx | tx ∈ poolTxs} := by
  have hsized : ∀ tx ∈ poolTxs, tx.serialize.length < 2 ^ 64 := by decide +kernel
  have hinj : ∀ a ∈ poolTxs, ∀ b ∈ poolTxs, a.getHash forkCrypto = b.getHash forkCrypto →
      a.hashed.serialize = b.hashed.serialize := by decide +kernel
  exact ⟨hsized, hinj⟩

/-- The parent ranks below the child. -/
def poolRank (hash : UInt256) : Nat := if hash = poolChild.getHash forkCrypto then 1 else 0

theorem poolTxs_ranked : CTxMemPool.Ranked forkCrypto {tx | tx ∈ poolTxs} poolRank := by
  have hrank : ∀ p ∈ poolTxs, ∀ d ∈ poolTxs,
      (∃ o ∈ d.prevouts, o.hash = p.getHash forkCrypto) →
      poolRank (p.getHash forkCrypto) < poolRank (d.getHash forkCrypto) := by decide +kernel
  rintro p hp d hd ⟨i, -, hmem⟩
  exact hrank p hp d hd ⟨_, hmem, rfl⟩

/-- Removing the parent removes the child. -/
theorem memPool_exact_both :
    ∃ N, ∀ fuel ≥ N, ∃ pool', CTxMemPool.remove forkCrypto fuel bothPool poolParent true =
      some pool' ∧ pool'.mapTx (poolChild.getHash forkCrypto) = none := by
  have hrun : PoolRun forkCrypto {tx | tx ∈ poolTxs} bothPool :=
    .accept poolEnv true (.accept poolEnv true .empty List.mem_cons_self)
      (List.mem_cons_of_mem _ List.mem_cons_self)
  have hparent : bothPool.mapTx (poolParent.getHash forkCrypto) = some poolParent := by
    decide +kernel
  have hchild : bothPool.mapTx (poolChild.getHash forkCrypto) = some poolChild := by decide +kernel
  have hspends : poolChild.SpendsOutput forkCrypto poolParent :=
    ⟨0, by decide +kernel, by decide +kernel⟩
  obtain ⟨-, -, hremove, -⟩ := memPool_exact poolTxs_collisionFree poolTxs_ranked hrun
  obtain ⟨N, hN⟩ := hremove _ _ hparent
  refine ⟨N, fun fuel hfuel => ?_⟩
  obtain ⟨pool', hpool', -, hgone⟩ := hN fuel hfuel
  exact ⟨pool', hpool', hgone _ (.child hchild hspends)⟩

/-- **A parent that is not in the pool.**  Its recursive removal leaves the child. -/
theorem child_of_absent_left :
    PoolRun forkCrypto {tx | tx ∈ poolTxs} childPool ∧
      CTxMemPool.remove forkCrypto 5 childPool poolParent true = some childPool ∧
      childPool.Descends forkCrypto poolParent poolChild ∧
      childPool.mapTx (poolChild.getHash forkCrypto) = some poolChild := by
  have hchild : childPool.mapTx (poolChild.getHash forkCrypto) = some poolChild := by
    decide +kernel
  have habsent : (childPool.mapTx (poolParent.getHash forkCrypto)).isNone = true := by
    decide +kernel
  have hspends : poolChild.SpendsOutput forkCrypto poolParent :=
    ⟨0, by decide +kernel, by decide +kernel⟩
  refine ⟨.accept poolEnv true .empty (List.mem_cons_of_mem _ List.mem_cons_self), ?_,
    .child hchild hspends, hchild⟩
  rw [CTxMemPool.remove, if_pos habsent]

end Breakout
