/-
# The keys that mined blocks pay

`CreateNewBlock` reserves a key of the pool for the coinbase.  `CheckWork` and `CheckWorkKawpow` are
to take the key of an accepted block out of the pool: "Remove key from key pool".

The reservation of `CreateNewBlock` is a local object, whose destructor returns the key before the
block is handed out (`createNewBlock_holds`), and the object that is told to keep its key has never
reserved one.  So the key is still there.  `usedUp_iff` says in which runs the keys of accepted
blocks are used up nevertheless: when something else has taken the key, and does not give it back.
-/
import Breakout.KeyPool

namespace Breakout

open Lib

/-! ## 1. Blocks and their keys -/

/-- The wallet's keys while it mines: its pool, its default key, the keys that the blocks of
`CreateNewBlock` pay, those of accepted blocks, and those that a reservation had after that. -/
structure MiningKeys where
  pool : KeyPool
  vchDefaultKey : Valtype
  paid : List Valtype
  accepted : List Valtype
  reused : List Valtype

/-- How `CheckWork` ends: before `KeepKey`, at `ProcessBlock`, or with the block accepted. -/
inductive WorkVerdict where
  | refused | notProcessed | accepted

/-- What is done to the keys.  `fBuilt`: the rest of `CreateNewBlock` comes to a block.  `k` is the
`CReserveKey` that is told to keep its key, if it has an index; those of the source have none. -/
inductive MiningOp where
  | pool (op : KeyPoolOp)
  | createNewBlock (generated : Nat → CKeyPool) (fBuilt fShutdown : Bool)
  | checkWork (block : Nat) (k : Option Nat) (verdict : WorkVerdict)
  | checkWorkKawpow (block : Nat) (k : Option Nat) (verdict : WorkVerdict)
  | setDefaultKey (vchPubKey : Valtype)

namespace MiningKeys

variable (K : Crypto) (keypool : Int)

/-- A wallet of which no block has been accepted. -/
def started (pool : KeyPool) (vchDefaultKey : Valtype) : MiningKeys :=
  ⟨pool, vchDefaultKey, [], [], []⟩

/-- The key that `GetReservedKey` returns: the one it reserves, or the default key. -/
def reservedKey (s : MiningKeys) (generated : Nat → CKeyPool) : Option Valtype :=
  match (s.pool.reserveKeyFromKeyPool K keypool generated).1 with
  | .ok (some keypool) => some keypool.vchPubKey
  | .ok none => if isValidPubKey s.vchDefaultKey then some s.vchDefaultKey else none
  | .error _ => none

/-- A key is handed out.  It is written down if an accepted block paid it. -/
def handOut (s : MiningKeys) (vchPubKey : Option Valtype) : MiningKeys :=
  { s with reused := (vchPubKey.toList.filter (· ∈ s.accepted)) ++ s.reused }

/-- The operations of the pool. -/
def poolStep (s : MiningKeys) (op : KeyPoolOp) : MiningKeys :=
  let handed :=
    match op with
    | .getReservedKey generated => s.handOut (s.reservedKey K keypool generated)
    | _ => s
  { handed with pool := s.pool.step K keypool op }

/-- `CreateNewBlock`: the key of the coinbase.  The destructor of `reservekey` returns it, "if
(!fShutdown)"; then nobody has it. -/
def createNewBlock (s : MiningKeys) (generated : Nat → CKeyPool) (fBuilt fShutdown : Bool) :
    MiningKeys :=
  let pubkey := s.reservedKey K keypool generated
  let reserved := s.pool.getReservedKey K keypool generated
  let pool :=
    match (s.pool.reserveKeyFromKeyPool K keypool generated).2.1 with
    | none => reserved
    | some _ =>
      if fShutdown then { reserved with reserved := reserved.reserved.eraseIdx 0 }
      else reserved.returnKey 0
  { s.handOut pubkey with
    pool := pool
    paid := s.paid ++ if fBuilt then pubkey.toList else [] }

/-- "Remove key from key pool", and the block is processed. -/
def keepAndProcess (s : MiningKeys) (block : Nat) (k : Option Nat) (verdict : WorkVerdict) :
    MiningKeys :=
  let kept := { s with pool := k.elim s.pool s.pool.keepKey }
  match verdict with
  | .refused => s
  | .notProcessed => kept
  | .accepted => { kept with accepted := s.paid[block]?.toList ++ s.accepted }

def checkWork (s : MiningKeys) (block : Nat) (k : Option Nat) (verdict : WorkVerdict) :
    MiningKeys := s.keepAndProcess block k verdict

def checkWorkKawpow (s : MiningKeys) (block : Nat) (k : Option Nat) (verdict : WorkVerdict) :
    MiningKeys := s.keepAndProcess block k verdict

/-- One operation. -/
def step (s : MiningKeys) : MiningOp → MiningKeys
  | .pool op => s.poolStep K keypool op
  | .createNewBlock generated fBuilt fShutdown =>
    s.createNewBlock K keypool generated fBuilt fShutdown
  | .checkWork block k verdict => s.checkWork block k verdict
  | .checkWorkKawpow block k verdict => s.checkWorkKawpow block k verdict
  | .setDefaultKey vchPubKey => { s with vchDefaultKey := vchPubKey }

/-! ## 2. Keys that are used up -/

end MiningKeys

namespace KeyPool

/-- The key of an index. -/
def keyAt (s : KeyPool) (nIndex : Nat) : Option Valtype := (s.records nIndex).map CKeyPool.vchPubKey

/-- The key is in the pool. -/
def Holds (s : KeyPool) (vchPubKey : Valtype) : Prop :=
  ∃ nIndex ∈ s.setKeyPool, s.keyAt nIndex = some vchPubKey

end KeyPool

namespace MiningKeys

/-- The keys of accepted blocks are not in the pool. -/
def Gone (accepted : List Valtype) (pool : KeyPool) : Prop :=
  ∀ vchPubKey ∈ accepted, ¬ pool.Holds vchPubKey

/-- **The keys of accepted blocks are used up**: they are not in the pool, and no reservation has
had one since. -/
structure UsedUp (s : MiningKeys) : Prop where
  gone : Gone s.accepted s.pool
  unused : s.reused = []

/-- The keys that an operation generates are none of accepted blocks. -/
def GeneratesNew (keypool : Int) (s : MiningKeys) : MiningOp → Prop
  | .pool (.topUpKeyPool generated nSize) =>
    ∀ i ∈ s.pool.missing keypool nSize, (generated i).vchPubKey ∉ s.accepted
  | .pool (.newKeyPool generated) =>
    ∀ i ∈ s.pool.written keypool (.newKeyPool generated), (generated i).vchPubKey ∉ s.accepted
  | .pool (.getReservedKey generated) | .createNewBlock generated _ _ =>
    ∀ i ∈ s.pool.missing keypool 0, (generated i).vchPubKey ∉ s.accepted
  | _ => True

/-- If there is no key and none is added, the default key is none of an accepted block. -/
def DefaultUnpaid (keypool : Int) (s : MiningKeys) : Prop :=
  s.pool.setKeyPool = ∅ → s.pool.missing keypool 0 = ∅ → isValidPubKey s.vchDefaultKey = true →
    s.vchDefaultKey ∉ s.accepted

/-- **Only what keeps its key has it**: the key of the block is at no index of the pool but the one
that is kept. -/
def TakenBefore (s : MiningKeys) (block : Nat) (k : Option Nat) : WorkVerdict → Prop
  | .accepted => ∀ vchPubKey, s.paid[block]? = some vchPubKey → ∀ nIndex ∈ s.pool.setKeyPool,
      s.pool.keyAt nIndex = some vchPubKey → k.bind (s.pool.reserved[·]?) = some nIndex
  | _ => True

/-- What keeps the keys used up: a block is accepted when its key has been taken, and no reservation
of it is returned. -/
def KeepsUsedUp (keypool : Int) (s : MiningKeys) : MiningOp → Prop
  | .pool (.returnKey k) => ∀ nIndex, s.pool.reserved[k]? = some nIndex →
      ∀ vchPubKey, s.pool.keyAt nIndex = some vchPubKey → vchPubKey ∉ s.accepted
  | .pool (.getReservedKey _) | .createNewBlock _ _ _ => s.DefaultUnpaid keypool
  | .checkWork block k verdict | .checkWorkKawpow block k verdict => s.TakenBefore block k verdict
  | _ => True

/-! ## 3. What the pool holds -/

end MiningKeys

namespace KeyPool

variable {K : Crypto} {s s' : KeyPool} {N : Finset Nat} {generated : Nat → CKeyPool}
  {vchPubKey : Valtype}

theorem Holds.mono (h : s'.Holds vchPubKey) (hset : s'.setKeyPool ⊆ s.setKeyPool)
    (hkeys : ∀ nIndex, s'.keyAt nIndex = some vchPubKey → s.keyAt nIndex = some vchPubKey) :
    s.Holds vchPubKey := by
  obtain ⟨nIndex, hin, hkey⟩ := h
  exact ⟨nIndex, hset hin, hkeys nIndex hkey⟩

/-- A key of the pool was there, or has been generated. -/
theorem Wrote.holds (hwrote : Wrote N generated s s') (h : s'.Holds vchPubKey) :
    s.Holds vchPubKey ∨ ∃ nIndex ∈ N, (generated nIndex).vchPubKey = vchPubKey := by
  obtain ⟨nIndex, hin, hkey⟩ := h
  rw [keyAt, hwrote.records] at hkey
  by_cases hN : nIndex ∈ N
  · rw [if_pos hN] at hkey
    exact Or.inr ⟨nIndex, hN, Option.some.inj hkey⟩
  · rw [if_neg hN] at hkey
    rw [hwrote.setKeyPool] at hin
    exact Or.inl ⟨nIndex, (Finset.mem_union.mp hin).resolve_right hN, hkey⟩

/-- When a key is kept, the pool has the others. -/
theorem holds_kept {k : Option Nat} : (k.elim s s.keepKey).Holds vchPubKey ↔
    ∃ nIndex ∈ s.setKeyPool, k.bind (s.reserved[·]?) ≠ some nIndex ∧
      s.keyAt nIndex = some vchPubKey := by
  have hsame : k.bind (s.reserved[·]?) = none → k.elim s s.keepKey = s := by
    cases k with
    | none => exact fun _ => rfl
    | some k =>
      intro hnone
      change s.keepKey k = s
      unfold keepKey
      change s.reserved[k]? = none at hnone
      rw [hnone]
  cases hkept : k.bind (s.reserved[·]?) with
  | none =>
    rw [hsame hkept]
    simp [Holds]
  | some nKept =>
    obtain ⟨k, rfl, hk⟩ := Option.bind_eq_some_iff.mp hkept
    change (s.keepKey k).Holds vchPubKey ↔ _
    unfold keepKey
    rw [hk]
    dsimp only
    refine exists_congr fun nIndex => and_congr_right fun _ => ?_
    unfold keyAt
    dsimp only
    by_cases heq : nIndex = nKept
    · simp [heq]
    · rw [Function.update_of_ne heq]
      simp [Ne.symm heq]

end KeyPool

namespace MiningKeys

variable {K : Crypto} {keypool : Int} {s : MiningKeys} {generated : Nat → CKeyPool}

theorem Gone.wrote {pool pool' : KeyPool} {N : Finset Nat} (h : Gone s.accepted pool)
    (hwrote : pool.Wrote N generated pool')
    (hnew : ∀ i ∈ N, (generated i).vchPubKey ∉ s.accepted) : Gone s.accepted pool' := by
  intro vchPubKey haccepted hholds
  rcases hwrote.holds hholds with hheld | ⟨nIndex, hN, rfl⟩
  · exact h vchPubKey haccepted hheld
  · exact hnew nIndex hN haccepted

theorem handOut_reused (vchPubKey : Option Valtype) : (s.handOut vchPubKey).reused = [] ↔
    (∀ key, vchPubKey = some key → key ∉ s.accepted) ∧ s.reused = [] := by
  unfold handOut
  cases vchPubKey <;> simp

/-- **What is handed out is new**, but for the default key. -/
theorem reservedKey_new (h : Gone s.accepted s.pool)
    (hnew : ∀ i ∈ s.pool.missing keypool 0, (generated i).vchPubKey ∉ s.accepted) :
    (∀ key, s.reservedKey K keypool generated = some key → key ∉ s.accepted) ↔
      s.DefaultUnpaid keypool := by
  obtain ⟨s₁, hwrote, ⟨hempty, heq⟩ | ⟨nIndex, hin, result, heq, -, hsome, hfound⟩⟩ :=
    KeyPool.reserveKeyFromKeyPool_spec K keypool generated s.pool
  · have hboth := Finset.union_eq_empty.mp (hwrote.setKeyPool.symm.trans hempty)
    unfold reservedKey DefaultUnpaid
    rw [heq]
    by_cases hvalid : isValidPubKey s.vchDefaultKey = true
    · simp [hvalid, hboth.1, hboth.2]
    · simp [hvalid]
  · refine iff_of_true (fun key hkey haccepted => ?_) fun hnone hmissing => ?_
    · unfold reservedKey at hkey
      rw [heq] at hkey
      dsimp only at hkey
      split at hkey
      · next found =>
        cases hkey
        refine h.wrote hwrote hnew _ haccepted ⟨nIndex, hin, ?_⟩
        rw [KeyPool.keyAt, hfound found rfl]
        rfl
      · exact absurd rfl hsome
      · cases hkey
    · rw [hwrote.setKeyPool, hnone, hmissing] at hin
      cases hin

/-- The pool after `GetReservedKey` has only what the pool had after keys were added. -/
theorem gone_getReservedKey (h : Gone s.accepted s.pool)
    (hnew : ∀ i ∈ s.pool.missing keypool 0, (generated i).vchPubKey ∉ s.accepted) :
    Gone s.accepted (s.pool.getReservedKey K keypool generated) := by
  obtain ⟨s₁, hwrote, ⟨-, heq⟩ | ⟨nIndex, -, result, heq, -⟩⟩ :=
    KeyPool.reserveKeyFromKeyPool_spec K keypool generated s.pool
  · rw [KeyPool.getReservedKey, heq]
    intro vchPubKey haccepted hholds
    exact h.wrote hwrote hnew vchPubKey haccepted
      (hholds.mono (Finset.Subset.refl _) fun _ hk => hk)
  · rw [KeyPool.getReservedKey, heq]
    intro vchPubKey haccepted hholds
    exact h.wrote hwrote hnew vchPubKey haccepted
      (hholds.mono (Finset.erase_subset _ _) fun _ hk => hk)

/-- The pool after `CreateNewBlock`: keys have been added, and the one that was taken is back,
unless the node shuts down. -/
theorem createNewBlock_pool (s : MiningKeys) (generated : Nat → CKeyPool)
    (fBuilt fShutdown : Bool) :
    ∃ s₁, s.pool.Wrote (s.pool.missing keypool 0) generated s₁ ∧
      (s.createNewBlock K keypool generated fBuilt fShutdown).pool.setKeyPool ⊆ s₁.setKeyPool ∧
      (s.createNewBlock K keypool generated fBuilt fShutdown).pool.records = s₁.records := by
  obtain ⟨s₁, hwrote, ⟨-, heq⟩ | ⟨nIndex, hin, result, heq, -⟩⟩ :=
    KeyPool.reserveKeyFromKeyPool_spec K keypool generated s.pool
  · refine ⟨s₁, hwrote, ?_⟩
    unfold createNewBlock KeyPool.getReservedKey
    rw [heq]
    exact ⟨Finset.Subset.refl _, rfl⟩
  · refine ⟨s₁, hwrote, ?_⟩
    unfold createNewBlock KeyPool.getReservedKey
    rw [heq]
    cases fShutdown with
    | true => exact ⟨Finset.erase_subset _ _, rfl⟩
    | false => exact ⟨(Finset.insert_erase hin).subset, rfl⟩

/-- **The key of the coinbase is still in the pool** when `CreateNewBlock` is done. -/
theorem createNewBlock_holds (s : MiningKeys) (generated : Nat → CKeyPool) (fBuilt : Bool)
    (hreserved : s.pool.setKeyPool ∪ s.pool.missing keypool 0 ≠ ∅) {vchPubKey : Valtype}
    (hkey : s.reservedKey K keypool generated = some vchPubKey) :
    (s.createNewBlock K keypool generated fBuilt false).pool.Holds vchPubKey := by
  obtain ⟨s₁, hwrote, ⟨hempty, -⟩ | ⟨nIndex, hin, result, heq, -, hsome, hfound⟩⟩ :=
    KeyPool.reserveKeyFromKeyPool_spec K keypool generated s.pool
  · exact absurd (hwrote.setKeyPool.symm.trans hempty) hreserved
  · have hback : insert nIndex (s₁.setKeyPool.erase nIndex) = s₁.setKeyPool :=
      Finset.insert_erase hin
    unfold reservedKey at hkey
    rw [heq] at hkey
    dsimp only at hkey
    split at hkey
    · next found =>
      cases hkey
      unfold createNewBlock KeyPool.getReservedKey
      rw [heq]
      refine ⟨nIndex, Finset.mem_insert_self _ _, ?_⟩
      change (s₁.records nIndex).map CKeyPool.vchPubKey = _
      rw [hfound found rfl]
      rfl
    · exact absurd rfl hsome
    · cases hkey

/-! ## 4. One operation -/

theorem usedUp_iff_gone : s.UsedUp ↔ Gone s.accepted s.pool ∧ s.reused = [] :=
  ⟨fun h => ⟨h.gone, h.unused⟩, fun h => ⟨h.1, h.2⟩⟩

theorem gone_newKeyPool
    (hnew : ∀ i ∈ s.pool.written keypool (.newKeyPool generated),
      (generated i).vchPubKey ∉ s.accepted) :
    Gone s.accepted (s.pool.newKeyPool K keypool generated) := by
  have herased : ∀ records,
      Gone s.accepted { s.pool with records := records, setKeyPool := ∅ } := by
    rintro records vchPubKey - ⟨nIndex, hin, -⟩
    cases hin
  unfold KeyPool.newKeyPool
  unfold KeyPool.written at hnew
  dsimp only at hnew ⊢
  split_ifs at hnew ⊢
  · exact herased _
  · exact (herased _).wrote (KeyPool.wrote_writeKeys K generated _ 1 _) hnew

/-- An index that is returned: its key must be none of an accepted block. -/
theorem gone_returnKey (h : Gone s.accepted s.pool) (k : Nat) :
    Gone s.accepted (s.pool.returnKey k) ↔
      ∀ nIndex, s.pool.reserved[k]? = some nIndex →
        ∀ vchPubKey, s.pool.keyAt nIndex = some vchPubKey → vchPubKey ∉ s.accepted := by
  unfold KeyPool.returnKey
  cases hk : s.pool.reserved[k]? with
  | none => exact iff_of_true h fun _ hnone => nomatch hnone
  | some nReturned =>
    constructor
    · rintro hgone nIndex heq vchPubKey hkey haccepted
      cases heq
      exact hgone vchPubKey haccepted ⟨_, Finset.mem_insert_self _ _, hkey⟩
    · rintro hnew vchPubKey haccepted ⟨nIndex, hin, hkey⟩
      rcases Finset.mem_insert.mp hin with rfl | hin
      · exact hnew _ rfl vchPubKey hkey haccepted
      · exact h vchPubKey haccepted ⟨nIndex, hin, hkey⟩

theorem gone_kept (h : Gone s.accepted s.pool) (k : Option Nat) :
    Gone s.accepted (k.elim s.pool s.pool.keepKey) := by
  intro vchPubKey haccepted hholds
  obtain ⟨nIndex, hin, -, hkey⟩ := KeyPool.holds_kept.mp hholds
  exact h vchPubKey haccepted ⟨nIndex, hin, hkey⟩

/-- **A block is accepted**: its key must not be at any other index. -/
theorem usedUp_keepAndProcess (h : s.UsedUp) (block : Nat) (k : Option Nat)
    (verdict : WorkVerdict) :
    (s.keepAndProcess block k verdict).UsedUp ↔ s.TakenBefore block k verdict := by
  have hkept := gone_kept h.gone k
  cases verdict with
  | refused => exact iff_of_true h trivial
  | notProcessed => exact iff_of_true ⟨hkept, h.unused⟩ trivial
  | accepted =>
    rw [usedUp_iff_gone]
    change (∀ vchPubKey ∈ s.paid[block]?.toList ++ s.accepted, _) ∧ s.reused = [] ↔ _
    rw [and_iff_left h.unused]
    constructor
    · intro hgone vchPubKey hpaid nIndex hin hkey
      by_contra hother
      refine hgone vchPubKey ?_ (KeyPool.holds_kept.mpr ⟨nIndex, hin, hother, hkey⟩)
      rw [hpaid]
      exact List.mem_cons_self ..
    · intro htaken vchPubKey haccepted hholds
      rcases List.mem_append.mp haccepted with hpaid | hbefore
      · obtain ⟨nIndex, hin, hother, hkey⟩ := KeyPool.holds_kept.mp hholds
        exact hother (htaken vchPubKey (Option.mem_toList.mp hpaid) nIndex hin hkey)
      · exact hkept vchPubKey hbefore hholds

theorem usedUp_poolStep (h : s.UsedUp) (op : KeyPoolOp) (hnew : s.GeneratesNew keypool (.pool op)) :
    (s.poolStep K keypool op).UsedUp ↔ s.KeepsUsedUp keypool (.pool op) := by
  cases op with
  | topUpKeyPool generated nSize =>
    exact iff_of_true ⟨h.gone.wrote (KeyPool.wrote_topUpKeyPool K generated _ nSize) hnew, h.unused⟩
      trivial
  | newKeyPool generated => exact iff_of_true ⟨gone_newKeyPool hnew, h.unused⟩ trivial
  | getReservedKey generated =>
    rw [usedUp_iff_gone]
    change Gone s.accepted (s.pool.getReservedKey K keypool generated) ∧
      (s.handOut (s.reservedKey K keypool generated)).reused = [] ↔ s.DefaultUnpaid keypool
    rw [and_iff_right (gone_getReservedKey h.gone hnew), handOut_reused, and_iff_left h.unused,
      reservedKey_new h.gone hnew]
  | keepKey k => exact iff_of_true ⟨gone_kept h.gone (some k), h.unused⟩ trivial
  | returnKey k =>
    rw [usedUp_iff_gone]
    change Gone s.accepted (s.pool.returnKey k) ∧ s.reused = [] ↔ _
    rw [and_iff_left h.unused, gone_returnKey h.gone]
    rfl
  | setLocked isLocked => exact iff_of_true ⟨h.gone, h.unused⟩ trivial

theorem usedUp_createNewBlock (h : s.UsedUp) (fBuilt fShutdown : Bool)
    (hnew : ∀ i ∈ s.pool.missing keypool 0, (generated i).vchPubKey ∉ s.accepted) :
    (s.createNewBlock K keypool generated fBuilt fShutdown).UsedUp ↔ s.DefaultUnpaid keypool := by
  obtain ⟨s₁, hwrote, hset, hrecords⟩ :=
    @createNewBlock_pool K keypool s generated fBuilt fShutdown
  have hgone : Gone s.accepted (s.createNewBlock K keypool generated fBuilt fShutdown).pool := by
    intro vchPubKey haccepted hholds
    refine h.gone.wrote hwrote hnew vchPubKey haccepted (hholds.mono hset fun nIndex hkey => ?_)
    rwa [KeyPool.keyAt, hrecords] at hkey
  rw [usedUp_iff_gone]
  change Gone s.accepted (s.createNewBlock K keypool generated fBuilt fShutdown).pool ∧
    (s.handOut (s.reservedKey K keypool generated)).reused = [] ↔ s.DefaultUnpaid keypool
  rw [and_iff_right hgone, handOut_reused, and_iff_left h.unused, reservedKey_new h.gone hnew]

/-- **When an operation leaves the keys used up.** -/
theorem UsedUp.step_iff (h : s.UsedUp) (op : MiningOp) (hnew : s.GeneratesNew keypool op) :
    (s.step K keypool op).UsedUp ↔ s.KeepsUsedUp keypool op := by
  cases op with
  | pool op => exact usedUp_poolStep h op hnew
  | createNewBlock generated fBuilt fShutdown => exact usedUp_createNewBlock h fBuilt fShutdown hnew
  | checkWork block k verdict => exact usedUp_keepAndProcess h block k verdict
  | checkWorkKawpow block k verdict => exact usedUp_keepAndProcess h block k verdict
  | setDefaultKey vchPubKey => exact iff_of_true ⟨h.gone, h.unused⟩ trivial

/-! ## 5. Runs -/

/-- **When the keys of accepted blocks are used up**: in every run of a wallet that generates new
keys, they are in every state exactly when a block is accepted only after its key has been taken
from the pool, no reservation of such a key is returned, and the default key does not stand in for
one. -/
theorem usedUp_iff (K : Crypto) (keypool : Int) (pool : KeyPool) (vchDefaultKey : Valtype)
    (ops : List MiningOp)
    (hnew : EveryStep (step K keypool) (started pool vchDefaultKey) (GeneratesNew keypool) ops) :
    Everywhere (step K keypool) (started pool vchDefaultKey) UsedUp ops ↔
      EveryStep (step K keypool) (started pool vchDefaultKey) (KeepsUsedUp keypool) ops := by
  have hstart : (started pool vchDefaultKey).UsedUp :=
    ⟨fun _ hnone => absurd hnone List.not_mem_nil, rfl⟩
  exact @everywhere_iff_of MiningKeys MiningOp (step K keypool) (started pool vchDefaultKey)
    (fun _ => True) UsedUp (KeepsUsedUp keypool) (GeneratesNew keypool) trivial hstart
    (fun _ _ _ _ => trivial) (fun _ op _ h hnew => h.step_iff op hnew) ops hnew

/-- A block is built; something else reserves its key; the block is accepted, and the key is kept.
The next reservation generates one more key. -/
def takenBefore : List MiningOp :=
  [.createNewBlock KeyPool.someKeys true false, .pool (.getReservedKey KeyPool.someKeys),
    .checkWork 0 none .accepted, .pool (.keepKey 0), .pool (.getReservedKey KeyPool.someKeys)]

theorem taken_paid : (step forkCrypto 1 (step forkCrypto 1 (started .empty [])
    (.createNewBlock KeyPool.someKeys true false))
    (.pool (.getReservedKey KeyPool.someKeys))).paid[0]? = some (KeyPool.someKeys 1).vchPubKey := by
  decide +kernel

/-- The key of that block is used up, and the key that is generated afterwards is another. -/
theorem usedUp_iff_takenBefore :
    (takenBefore.foldl (step forkCrypto 1) (started .empty [])).accepted =
        [(KeyPool.someKeys 1).vchPubKey] ∧
      (takenBefore.foldl (step forkCrypto 1) (started .empty [])).pool.setKeyPool = {3} ∧
      Everywhere (step forkCrypto 1) (started .empty []) UsedUp takenBefore := by
  refine ⟨by decide +kernel, by decide +kernel,
    (usedUp_iff forkCrypto 1 .empty [] takenBefore ?_).mpr ?_⟩
  · unfold takenBefore
    simp only [everyStep_cons, everyStep_nil, GeneratesNew, true_and, and_true]
    decide +kernel
  · unfold takenBefore
    simp only [everyStep_cons, everyStep_nil, KeepsUsedUp, DefaultUnpaid, true_and, and_true]
    refine ⟨by decide +kernel, by decide +kernel, fun vchPubKey hpaid => ?_, by decide +kernel⟩
    rw [taken_paid] at hpaid
    cases hpaid
    decide +kernel

/-- **A key that a block was mined with is reserved again**: a block is built and accepted, and the
next reservation has its key. -/
theorem mined_key_reused :
    let ops : List MiningOp := [.createNewBlock KeyPool.someKeys true false,
      .checkWork 0 none .accepted, .pool (.getReservedKey KeyPool.someKeys)]
    (ops.foldl (step forkCrypto 0) (started .empty [])).reused =
        [(KeyPool.someKeys 1).vchPubKey] ∧
      ¬ Everywhere (step forkCrypto 0) (started .empty []) UsedUp ops := by
  intro ops
  have hreused : (ops.foldl (step forkCrypto 0) (started .empty [])).reused =
      [(KeyPool.someKeys 1).vchPubKey] := by decide +kernel
  refine ⟨hreused, fun h => ?_⟩
  have hunused := (h ops (List.prefix_refl _)).unused
  rw [hreused] at hunused
  cases hunused

end MiningKeys

end Breakout
