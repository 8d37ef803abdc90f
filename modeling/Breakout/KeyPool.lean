/-
# The key pool

The wallet has keys in store.  `setKeyPool` has the indices of those nobody uses, and the wallet
database a record for each.  `ReserveKeyFromKeyPool` takes the smallest index out of the set and
leaves its record; `KeepKey` erases the record, `ReturnKey` puts the index back.

A key that is added gets the index after the largest in the set, or 1 if the set is empty.  The set
forgets the indices that are reserved, and so a new key may get one of them.  `keyPool_iff` says
that this is all that goes wrong: reservations are apart and recorded in every state of a run
exactly when no step writes a reserved index.

An index is an `int64_t`; the indices start at 1, and there are no 2^63 keys.  The wallet database
writes and erases what it is told to.
-/
import Breakout.Lib.History
import Breakout.Interpreter

namespace Breakout

open Lib

variable (K : Crypto)

/-! ## 1. The pool -/

structure CKeyPool where
  nTime : Int64
  vchPubKey : Valtype
deriving DecidableEq

/-- What the wallet knows of its pool: the indices in the set, the records in the database, the ids
of its keys, and the indices of the `CReserveKey`s that have one. -/
structure KeyPool where
  setKeyPool : Finset Nat
  records : Nat → Option CKeyPool
  mapKeys : Finset Valtype
  isLocked : Bool
  reserved : List Nat

/-- `max(GetArg("-keypool", 100), (int64_t)0)` -/
def nKeysOf (keypool : Int) : Nat := (max keypool 0).toNat

/-- How many keys there are to be: `nTargetSize + 1`, an `unsigned int`. -/
def nWanted (keypool : Int) (nSize : UInt32) : Nat :=
  let nTargetSize := if nSize > 0 then nSize else UInt32.ofNat (nKeysOf keypool)
  (nTargetSize + 1).toNat

namespace KeyPool

/-- `nEnd`: the index of the next key. -/
def nEnd (s : KeyPool) : Nat :=
  match s.setKeyPool.max with
  | ⊥ => 1
  | (nLast : Nat) => nLast + 1

/-- `WritePool(nIndex, CKeyPool(GenerateNewKey()))`, and the index is in the set. -/
def writePool (s : KeyPool) (nIndex : Nat) (keypool : CKeyPool) : KeyPool :=
  { s with
    setKeyPool := insert nIndex s.setKeyPool
    records := Function.update s.records nIndex (some keypool)
    mapKeys := insert (hash160 K keypool.vchPubKey) s.mapKeys }

/-- `while (setKeyPool.size() < (nTargetSize + 1))`.  `generated` are the keys that
`GenerateNewKey` returns; each round makes the set larger. -/
def topUp (nWanted : Nat) (generated : Nat → CKeyPool) : Nat → KeyPool → KeyPool
  | 0, s => s
  | fuel + 1, s =>
    if s.setKeyPool.card < nWanted then
      topUp nWanted generated fuel (s.writePool K s.nEnd (generated s.nEnd))
    else s

def topUpKeyPool (keypool : Int) (generated : Nat → CKeyPool) (s : KeyPool) (nSize : UInt32) :
    KeyPool :=
  if s.isLocked then s else s.topUp K (nWanted keypool nSize) generated (nWanted keypool nSize)

/-- The loop of `NewKeyPool`: the keys from `nIndex` on. -/
def writeKeys (generated : Nat → CKeyPool) : Nat → Nat → KeyPool → KeyPool
  | 0, _, s => s
  | n + 1, nIndex, s => writeKeys generated n (nIndex + 1) (s.writePool K nIndex (generated nIndex))

def newKeyPool (keypool : Int) (generated : Nat → CKeyPool) (s : KeyPool) : KeyPool :=
  let erased : KeyPool :=
    { s with
      records := fun nIndex => if nIndex ∈ s.setKeyPool then none else s.records nIndex
      setKeyPool := ∅ }
  if s.isLocked then erased else erased.writeKeys K generated (nKeysOf keypool) 1

/-- `ReserveKeyFromKeyPool`: how it ends, `nIndex`, and the pool it leaves.  The index is assigned
before the record is read.  Without an index there is no key. -/
def reserveKeyFromKeyPool (keypool : Int) (generated : Nat → CKeyPool) (s : KeyPool) :
    Run (Option CKeyPool) × Option Nat × KeyPool :=
  let s := s.topUpKeyPool K keypool generated 0
  match s.setKeyPool.min with
  | ⊤ => (.ok none, none, s)
  | (nIndex : Nat) =>
    let taken := { s with setKeyPool := s.setKeyPool.erase nIndex }
    let result : Run (Option CKeyPool) :=
      match s.records nIndex with
      | none => .error (.throw "ReserveKeyFromKeyPool() : read failed")
      | some keypool =>
        if hash160 K keypool.vchPubKey ∉ s.mapKeys then
          .error (.throw "ReserveKeyFromKeyPool() : unknown key in key pool")
        else if isValidPubKey keypool.vchPubKey = false then
          .error (.throw "assert(keypool.vchPubKey.IsValid())")
        else .ok (some keypool)
    (result, some nIndex, taken)

/-- `CReserveKey::GetReservedKey`, for a `CReserveKey` without an index.  It has the index from then
on, even if an exception leaves the call. -/
def getReservedKey (keypool : Int) (generated : Nat → CKeyPool) (s : KeyPool) : KeyPool :=
  match s.reserveKeyFromKeyPool K keypool generated with
  | (_, nIndex, s) => { s with reserved := nIndex.toList ++ s.reserved }

/-- `CReserveKey::KeepKey`, for one of those that have an index. -/
def keepKey (s : KeyPool) (k : Nat) : KeyPool :=
  match s.reserved[k]? with
  | none => s
  | some nIndex =>
    { s with
      records := Function.update s.records nIndex none
      reserved := s.reserved.eraseIdx k }

/-- `CReserveKey::ReturnKey`, which is what its destructor does too. -/
def returnKey (s : KeyPool) (k : Nat) : KeyPool :=
  match s.reserved[k]? with
  | none => s
  | some nIndex =>
    { s with
      setKeyPool := insert nIndex s.setKeyPool
      reserved := s.reserved.eraseIdx k }

end KeyPool

/-- What is done to the pool.  `GetKeyFromPool` reserves a key and keeps it,
`GetOldestKeyPoolTime` returns it; the wallet is locked and unlocked between calls. -/
inductive KeyPoolOp where
  | topUpKeyPool (generated : Nat → CKeyPool) (nSize : UInt32)
  | newKeyPool (generated : Nat → CKeyPool)
  | getReservedKey (generated : Nat → CKeyPool)
  | keepKey (k : Nat)
  | returnKey (k : Nat)
  | setLocked (isLocked : Bool)

namespace KeyPool

/-- One operation, with the `-keypool` of the wallet. -/
def step (keypool : Int) (s : KeyPool) : KeyPoolOp → KeyPool
  | .topUpKeyPool generated nSize => s.topUpKeyPool K keypool generated nSize
  | .newKeyPool generated => s.newKeyPool K keypool generated
  | .getReservedKey generated => s.getReservedKey K keypool generated
  | .keepKey k => s.keepKey k
  | .returnKey k => s.returnKey k
  | .setLocked isLocked => { s with isLocked := isLocked }

/-! ## 2. What holds of it -/

/-- No two reservations have the same index, none is in the set, and the indices in the set have
records. -/
structure Apart (s : KeyPool) : Prop where
  once : s.reserved.Nodup
  apart : ∀ nIndex ∈ s.reserved, nIndex ∉ s.setKeyPool
  recorded : ∀ nIndex ∈ s.setKeyPool, (s.records nIndex).isSome = true

/-- **The reservations are apart and recorded**, and so a record is always read. -/
structure Sound (keypool : Int) (s : KeyPool) : Prop extends s.Apart where
  readable : ∀ generated, (s.reserveKeyFromKeyPool K keypool generated).1 ≠
    .error (.throw "ReserveKeyFromKeyPool() : read failed")

/-- The indices that `TopUpKeyPool` is to write: as many as are missing, from the next on. -/
def missing (keypool : Int) (s : KeyPool) (nSize : UInt32) : Finset Nat :=
  if s.isLocked then ∅
  else Finset.Ico s.nEnd (s.nEnd + (nWanted keypool nSize - s.setKeyPool.card))

/-- The indices that an operation is to write. -/
def written (keypool : Int) (s : KeyPool) : KeyPoolOp → Finset Nat
  | .topUpKeyPool _ nSize => s.missing keypool nSize
  | .newKeyPool _ => if s.isLocked then ∅ else Finset.Ico 1 (1 + nKeysOf keypool)
  | .getReservedKey _ => s.missing keypool 0
  | _ => ∅

/-- **No reserved index is written.** -/
def WritesFresh (keypool : Int) (s : KeyPool) (op : KeyPoolOp) : Prop :=
  ∀ nIndex ∈ s.written keypool op, nIndex ∉ s.reserved

instance (keypool : Int) (s : KeyPool) (op : KeyPoolOp) : Decidable (s.WritesFresh keypool op) :=
  inferInstanceAs (Decidable (∀ nIndex ∈ s.written keypool op, nIndex ∉ s.reserved))

/-! ## 3. Keys that are added -/

variable {K} {s s' : KeyPool} {N : Finset Nat} {keypool : Int}

/-- Keys have been added to the pool, under these indices. -/
structure Added (N : Finset Nat) (s s' : KeyPool) : Prop where
  setKeyPool : s'.setKeyPool = s.setKeyPool ∪ N
  records : ∀ nIndex, (s'.records nIndex).isSome = true ↔
    (s.records nIndex).isSome = true ∨ nIndex ∈ N
  reserved : s'.reserved = s.reserved

/-- The keys that have been added are these, and the others are as they were. -/
structure Wrote (N : Finset Nat) (generated : Nat → CKeyPool) (s s' : KeyPool) : Prop where
  setKeyPool : s'.setKeyPool = s.setKeyPool ∪ N
  records : ∀ nIndex, s'.records nIndex =
    if nIndex ∈ N then some (generated nIndex) else s.records nIndex
  reserved : s'.reserved = s.reserved

variable {generated : Nat → CKeyPool}

theorem Wrote.added (h : Wrote N generated s s') : Added N s s' := by
  refine ⟨h.setKeyPool, fun nIndex => ?_, h.reserved⟩
  rw [h.records]
  split_ifs with hin
  · simp [hin]
  · simp [hin]

theorem Wrote.refl (s : KeyPool) : Wrote ∅ generated s s := ⟨by simp, by simp, rfl⟩

theorem Wrote.trans {N' : Finset Nat} {s'' : KeyPool} (h : Wrote N generated s s')
    (h' : Wrote N' generated s' s'') : Wrote (N ∪ N') generated s s'' := by
  refine ⟨?_, fun nIndex => ?_, h'.reserved.trans h.reserved⟩
  · rw [h'.setKeyPool, h.setKeyPool, Finset.union_assoc]
  · rw [h'.records, h.records]
    simp only [Finset.mem_union]
    by_cases hN' : nIndex ∈ N'
    · rw [if_pos hN', if_pos (Or.inr hN')]
    · rw [if_neg hN']
      by_cases hN : nIndex ∈ N
      · rw [if_pos hN, if_pos (Or.inl hN)]
      · rw [if_neg hN, if_neg (not_or.mpr ⟨hN, hN'⟩)]

theorem wrote_writePool (s : KeyPool) (nIndex : Nat) :
    Wrote {nIndex} generated s (s.writePool K nIndex (generated nIndex)) := by
  refine ⟨?_, fun i => ?_, rfl⟩
  · rw [writePool]
    dsimp only
    rw [Finset.insert_eq, Finset.union_comm]
  · rw [writePool]
    dsimp only
    by_cases heq : i = nIndex
    · rw [heq, Function.update_self, if_pos (Finset.mem_singleton_self nIndex)]
    · rw [Function.update_of_ne heq, if_neg (mt Finset.mem_singleton.mp heq)]

/-- What is in the set comes before the next index. -/
theorem lt_nEnd {nIndex : Nat} (h : nIndex ∈ s.setKeyPool) : nIndex < s.nEnd := by
  unfold nEnd
  split
  · next hmax =>
    rw [Finset.max_eq_bot.mp hmax] at h
    cases h
  · next nLast hmax => exact Nat.lt_succ_of_le (Finset.le_max_of_eq h hmax)

theorem nEnd_notMem : s.nEnd ∉ s.setKeyPool := fun h => Nat.lt_irrefl _ (lt_nEnd h)

theorem nEnd_writePool (keypool : CKeyPool) : (s.writePool K s.nEnd keypool).nEnd = s.nEnd + 1 := by
  have hmax : (s.writePool K s.nEnd keypool).setKeyPool.max = (s.nEnd : WithBot Nat) := by
    refine le_antisymm (Finset.max_le fun i hi => ?_) (Finset.le_max (Finset.mem_insert_self ..))
    rcases Finset.mem_insert.mp hi with rfl | hi
    · exact le_rfl
    · exact WithBot.coe_le_coe.mpr (lt_nEnd hi).le
  rw [nEnd, hmax]
  rfl

theorem card_writePool (keypool : CKeyPool) :
    (s.writePool K s.nEnd keypool).setKeyPool.card = s.setKeyPool.card + 1 :=
  Finset.card_insert_of_notMem nEnd_notMem

/-- **What `TopUpKeyPool` writes.** -/
theorem wrote_topUp (nWanted : Nat) (generated : Nat → CKeyPool) (fuel : Nat) :
    ∀ s : KeyPool, nWanted - s.setKeyPool.card ≤ fuel →
      Wrote (Finset.Ico s.nEnd (s.nEnd + (nWanted - s.setKeyPool.card))) generated s
        (s.topUp K nWanted generated fuel) := by
  induction fuel with
  | zero =>
    intro s hfuel
    rw [Nat.le_zero.mp hfuel, Nat.add_zero, Finset.Ico_self]
    exact .refl s
  | succ fuel ih =>
    intro s hfuel
    rw [topUp]
    split
    · next hless =>
      have hrest := ih (s.writePool K s.nEnd (generated s.nEnd)) (by rw [card_writePool]; omega)
      have hwrote := (wrote_writePool (K := K) s s.nEnd).trans hrest
      rw [nEnd_writePool, card_writePool] at hwrote
      have hend : s.nEnd + (nWanted - s.setKeyPool.card) =
          s.nEnd + 1 + (nWanted - (s.setKeyPool.card + 1)) := by omega
      rw [hend, ← Finset.insert_Ico_add_one_left_eq_Ico (by omega), Finset.insert_eq]
      exact hwrote
    · next hfull =>
      rw [Nat.sub_eq_zero_of_le (Nat.le_of_not_lt hfull), Nat.add_zero, Finset.Ico_self]
      exact .refl s

theorem wrote_topUpKeyPool (K : Crypto) (generated : Nat → CKeyPool) (s : KeyPool)
    (nSize : UInt32) :
    Wrote (s.missing keypool nSize) generated s (s.topUpKeyPool K keypool generated nSize) := by
  unfold topUpKeyPool missing
  split
  · exact .refl s
  · exact wrote_topUp _ generated _ s (Nat.sub_le ..)

theorem added_topUpKeyPool (generated : Nat → CKeyPool) (s : KeyPool) (nSize : UInt32) :
    Added (s.missing keypool nSize) s (s.topUpKeyPool K keypool generated nSize) :=
  (wrote_topUpKeyPool K generated s nSize).added

theorem wrote_writeKeys (K : Crypto) (generated : Nat → CKeyPool) (n : Nat) :
    ∀ (nIndex : Nat) (s : KeyPool),
      Wrote (Finset.Ico nIndex (nIndex + n)) generated s (s.writeKeys K generated n nIndex) := by
  induction n with
  | zero =>
    intro nIndex s
    rw [Nat.add_zero, Finset.Ico_self]
    exact .refl s
  | succ n ih =>
    intro nIndex s
    have hwrote := (wrote_writePool (K := K) s nIndex).trans
      (ih (nIndex + 1) (s.writePool K nIndex (generated nIndex)))
    rw [← Nat.add_assoc, Nat.add_right_comm,
      ← Finset.insert_Ico_add_one_left_eq_Ico (by omega), Finset.insert_eq]
    exact hwrote

theorem added_writeKeys (generated : Nat → CKeyPool) (n nIndex : Nat) (s : KeyPool) :
    Added (Finset.Ico nIndex (nIndex + n)) s (s.writeKeys K generated n nIndex) :=
  (wrote_writeKeys K generated n nIndex s).added

/-! ## 4. What one operation does -/

theorem notMem_eraseIdx {l : List Nat} {a k : Nat} (hl : l.Nodup) (hk : l[k]? = some a) :
    a ∉ l.eraseIdx k := by
  obtain ⟨hlt, rfl⟩ := List.getElem?_eq_some_iff.mp hk
  rw [List.mem_eraseIdx_iff_getElem]
  rintro ⟨i, hi, hne, heq⟩
  exact hne ((hl.getElem_inj_iff).mp heq)

/-- What `ReserveKeyFromKeyPool` returns and leaves: the smallest index, if there is one. -/
theorem reserveKeyFromKeyPool_spec (K : Crypto) (keypool : Int) (generated : Nat → CKeyPool)
    (s : KeyPool) :
    ∃ s₁, Wrote (s.missing keypool 0) generated s s₁ ∧
      ((s₁.setKeyPool = ∅ ∧ s.reserveKeyFromKeyPool K keypool generated = (.ok none, none, s₁)) ∨
        ∃ nIndex ∈ s₁.setKeyPool, ∃ result, s.reserveKeyFromKeyPool K keypool generated =
            (result, some nIndex, { s₁ with setKeyPool := s₁.setKeyPool.erase nIndex }) ∧
          (result = .error (.throw "ReserveKeyFromKeyPool() : read failed") ↔
            s₁.records nIndex = none) ∧
          result ≠ .ok none ∧
            ∀ found, result = .ok (some found) → s₁.records nIndex = some found) := by
  refine ⟨s.topUpKeyPool K keypool generated 0, wrote_topUpKeyPool K generated s 0, ?_⟩
  unfold reserveKeyFromKeyPool
  generalize s.topUpKeyPool K keypool generated 0 = s₁
  dsimp only
  split
  · next hmin => exact .inl ⟨Finset.min_eq_top.mp hmin, rfl⟩
  · next nIndex hmin =>
    refine .inr ⟨nIndex, Finset.mem_of_min hmin, _, rfl, ?_⟩
    cases s₁.records nIndex with
    | none => simp
    | some keypool =>
      dsimp only
      split
      · simp
      · split
        · simp
        · simp

/-- The reserved indices have records. -/
def ReservedRecorded (s : KeyPool) : Prop :=
  ∀ nIndex ∈ s.reserved, (s.records nIndex).isSome = true

theorem Apart.added (h : s.Apart) (hadded : Added N s s') :
    s'.Apart ↔ ∀ nIndex ∈ N, nIndex ∉ s.reserved := by
  constructor
  · intro h' nIndex hwritten hreserved
    refine h'.apart nIndex (hadded.reserved ▸ hreserved) ?_
    rw [hadded.setKeyPool]
    exact Finset.mem_union_right _ hwritten
  · intro hfresh
    refine ⟨hadded.reserved ▸ h.once, fun nIndex hreserved => ?_, fun nIndex hin => ?_⟩
    · rw [hadded.reserved] at hreserved
      rw [hadded.setKeyPool, Finset.mem_union]
      rintro (hin | hwritten)
      · exact h.apart nIndex hreserved hin
      · exact hfresh nIndex hwritten hreserved
    · rw [hadded.setKeyPool, Finset.mem_union] at hin
      rw [hadded.records]
      exact hin.imp_left (h.recorded nIndex)

theorem Apart.recorded_added (h : s.Apart) (hadded : Added N s s') :
    ∀ nIndex ∈ s'.setKeyPool, (s'.records nIndex).isSome = true := by
  intro nIndex hin
  rw [hadded.setKeyPool, Finset.mem_union] at hin
  rw [hadded.records]
  exact hin.imp_left (h.recorded nIndex)

/-- A record is read if the set is recorded. -/
theorem Apart.sound (h : s.Apart) : s.Sound K keypool := by
  refine ⟨h, fun generated => ?_⟩
  obtain ⟨s₁, hwrote, ⟨-, heq⟩ | ⟨nIndex, hin, result, heq, hread, -⟩⟩ :=
    reserveKeyFromKeyPool_spec K keypool generated s
  · rw [heq]
    nofun
  · rw [heq]
    intro hthrow
    have hsome := h.recorded_added hwrote.added nIndex hin
    rw [hread.mp hthrow] at hsome
    cases hsome

theorem sound_iff : s.Sound K keypool ↔ s.Apart :=
  ⟨Sound.toApart, Apart.sound⟩

/-- A reservation is made of the smallest index. -/
theorem Apart.getReservedKey (h : s.Apart) (generated : Nat → CKeyPool) :
    (s.getReservedKey K keypool generated).Apart ↔
      ∀ nIndex ∈ s.missing keypool 0, nIndex ∉ s.reserved := by
  obtain ⟨s₁, hwrote, ⟨-, heq⟩ | ⟨nIndex, hin, result, heq, -⟩⟩ :=
    reserveKeyFromKeyPool_spec K keypool generated s
  · rw [← h.added hwrote.added, KeyPool.getReservedKey, heq]
    rfl
  · rw [← h.added hwrote.added, KeyPool.getReservedKey, heq]
    dsimp only
    rw [Option.toList_some, List.singleton_append]
    constructor
    · intro h'
      obtain ⟨hnew, honce⟩ := List.nodup_cons.mp h'.once
      refine ⟨honce, fun i hreserved hset => ?_, h.recorded_added hwrote.added⟩
      have hother : i ≠ nIndex := fun heq => hnew (heq ▸ hreserved)
      exact h'.apart i (List.mem_cons_of_mem _ hreserved) (Finset.mem_erase.mpr ⟨hother, hset⟩)
    · intro h₁
      refine ⟨List.nodup_cons.mpr ⟨fun hreserved => h₁.apart _ hreserved hin, h₁.once⟩, ?_, ?_⟩
      · intro i hreserved hset
        obtain ⟨hother, hset⟩ := Finset.mem_erase.mp hset
        rcases List.mem_cons.mp hreserved with rfl | hreserved
        · exact hother rfl
        · exact h₁.apart i hreserved hset
      · intro i hset
        exact h₁.recorded i (Finset.mem_of_mem_erase hset)

theorem Apart.keepKey (h : s.Apart) (k : Nat) : (s.keepKey k).Apart := by
  unfold KeyPool.keepKey
  split
  · exact h
  · next nIndex hk =>
    refine ⟨h.once.eraseIdx k, fun i hi => h.apart i (List.mem_of_mem_eraseIdx hi), fun i hi => ?_⟩
    have hother : i ≠ nIndex := by
      rintro rfl
      exact h.apart _ (List.mem_of_getElem? hk) hi
    dsimp only
    rw [Function.update_of_ne hother]
    exact h.recorded i hi

theorem Apart.returnKey (h : s.Apart) (hrec : s.ReservedRecorded) (k : Nat) :
    (s.returnKey k).Apart := by
  unfold KeyPool.returnKey
  split
  · exact h
  · next nIndex hk =>
    refine ⟨h.once.eraseIdx k, fun i hi hset => ?_, fun i hi => ?_⟩
    · rcases Finset.mem_insert.mp hset with rfl | hset
      · exact notMem_eraseIdx h.once hk hi
      · exact h.apart i (List.mem_of_mem_eraseIdx hi) hset
    · rcases Finset.mem_insert.mp hi with rfl | hi
      · exact hrec _ (List.mem_of_getElem? hk)
      · exact h.recorded i hi

theorem Apart.erased (h : s.Apart) {records : Nat → Option CKeyPool} :
    ({ s with records := records, setKeyPool := ∅ } : KeyPool).Apart := by
  refine ⟨h.once, fun _ _ hin => ?_, fun _ hin => ?_⟩
  · cases hin
  · cases hin

theorem Apart.newKeyPool (h : s.Apart) (generated : Nat → CKeyPool) :
    (s.newKeyPool K keypool generated).Apart ↔
      ∀ nIndex ∈ s.written keypool (.newKeyPool generated), nIndex ∉ s.reserved := by
  unfold KeyPool.newKeyPool written
  dsimp only
  split
  · exact iff_of_true h.erased (by simp)
  · exact h.erased.added (added_writeKeys generated _ 1 _)

/-- **When an operation keeps the reservations apart.** -/
theorem Apart.step_iff (h : s.Apart) (hrec : s.ReservedRecorded) (op : KeyPoolOp) :
    (s.step K keypool op).Apart ↔ s.WritesFresh keypool op := by
  cases op with
  | topUpKeyPool generated nSize => exact h.added (added_topUpKeyPool generated s nSize)
  | newKeyPool generated => exact h.newKeyPool generated
  | getReservedKey generated => exact h.getReservedKey generated
  | keepKey k => exact iff_of_true (h.keepKey k) (by simp [WritesFresh, written])
  | returnKey k => exact iff_of_true (h.returnKey hrec k) (by simp [WritesFresh, written])
  | setLocked isLocked =>
    exact iff_of_true ⟨h.once, h.apart, h.recorded⟩ (by simp [WritesFresh, written])

/-! ## 5. Reservations have records -/

theorem ReservedRecorded.added (hrec : s.ReservedRecorded) (hadded : Added N s s') :
    s'.ReservedRecorded := by
  intro nIndex hreserved
  rw [hadded.reserved] at hreserved
  rw [hadded.records]
  exact .inl (hrec nIndex hreserved)

/-- The records that `NewKeyPool` erases are nobody's. -/
theorem ReservedRecorded.newKeyPool (hrec : s.ReservedRecorded) (h : s.Apart)
    (generated : Nat → CKeyPool) : (s.newKeyPool K keypool generated).ReservedRecorded := by
  have herased : ({ s with
      records := fun nIndex => if nIndex ∈ s.setKeyPool then none else s.records nIndex
      setKeyPool := ∅ } : KeyPool).ReservedRecorded := by
    intro nIndex hreserved
    dsimp only
    rw [if_neg (h.apart nIndex hreserved)]
    exact hrec nIndex hreserved
  unfold KeyPool.newKeyPool
  dsimp only
  split
  · exact herased
  · exact herased.added (added_writeKeys generated _ 1 _)

theorem ReservedRecorded.getReservedKey (hrec : s.ReservedRecorded) (h : s.Apart)
    (generated : Nat → CKeyPool) : (s.getReservedKey K keypool generated).ReservedRecorded := by
  obtain ⟨s₁, hwrote, ⟨-, heq⟩ | ⟨nIndex, hin, result, heq, -⟩⟩ :=
    reserveKeyFromKeyPool_spec K keypool generated s
  · rw [KeyPool.getReservedKey, heq]
    exact hrec.added hwrote.added
  · rw [KeyPool.getReservedKey, heq]
    intro i hreserved
    rcases List.mem_cons.mp hreserved with rfl | hreserved
    · exact h.recorded_added hwrote.added _ hin
    · exact hrec.added hwrote.added i hreserved

/-- A record is erased for one reservation, and no other has it. -/
theorem ReservedRecorded.keepKey (hrec : s.ReservedRecorded) (h : s.Apart) (k : Nat) :
    (s.keepKey k).ReservedRecorded := by
  unfold KeyPool.keepKey
  split
  · exact hrec
  · next nIndex hk =>
    intro i hi
    have hother : i ≠ nIndex := by
      rintro rfl
      exact notMem_eraseIdx h.once hk hi
    dsimp only
    rw [Function.update_of_ne hother]
    exact hrec i (List.mem_of_mem_eraseIdx hi)

theorem ReservedRecorded.returnKey (hrec : s.ReservedRecorded) (k : Nat) :
    (s.returnKey k).ReservedRecorded := by
  unfold KeyPool.returnKey
  split
  · exact hrec
  · exact fun i hi => hrec i (List.mem_of_mem_eraseIdx hi)

theorem ReservedRecorded.step (hrec : s.ReservedRecorded) (h : s.Apart) (op : KeyPoolOp) :
    (s.step K keypool op).ReservedRecorded := by
  cases op with
  | topUpKeyPool generated nSize => exact hrec.added (added_topUpKeyPool generated s nSize)
  | newKeyPool generated => exact hrec.newKeyPool h generated
  | getReservedKey generated => exact hrec.getReservedKey h generated
  | keepKey k => exact hrec.keepKey h k
  | returnKey k => exact hrec.returnKey k
  | setLocked isLocked => exact hrec

/-! ## 6. Runs -/

/-- A pool without reservations, as it is read from the wallet database. -/
structure Loaded (s : KeyPool) : Prop where
  recorded : ∀ nIndex ∈ s.setKeyPool, (s.records nIndex).isSome = true
  reserved : s.reserved = []

/-- **When reservations are apart**: in every run of a pool that was loaded, with any `-keypool`,
reservations are apart and recorded in every state exactly when no step writes a reserved index. -/
theorem keyPool_iff (K : Crypto) (keypool : Int) (h : s.Loaded) (ops : List KeyPoolOp) :
    (∀ ops', ops' <+: ops → (ops'.foldl (step K keypool) s).Sound K keypool) ↔
      ∀ ops' op, ops' ++ [op] <+: ops → (ops'.foldl (step K keypool) s).WritesFresh keypool op := by
  have hrec : s.ReservedRecorded := by simp [ReservedRecorded, h.reserved]
  have hapart : s.Apart := ⟨by simp [h.reserved], by simp [h.reserved], h.recorded⟩
  refine everywhere_iff (J := ReservedRecorded) hrec hapart.sound (fun s op hrec hsound => ?_)
    (fun s op hrec hsound => ?_) ops
  · exact hrec.step hsound.toApart op
  · rw [sound_iff]
    exact hsound.toApart.step_iff hrec op

/-- A wallet without keys. -/
def empty : KeyPool := ⟨∅, fun _ => none, ∅, false, []⟩

theorem empty_loaded : empty.Loaded := ⟨nofun, rfl⟩

/-- The keys that are generated. -/
def someKeys (nIndex : Nat) : CKeyPool := ⟨0, 2 :: UInt8.ofNat nIndex :: List.replicate 31 7⟩

/-- A pool that was loaded with three keys. -/
def threeKeys : KeyPool := empty.writeKeys forkCrypto someKeys 3 1

theorem threeKeys_loaded : threeKeys.Loaded := ⟨by decide +kernel, by decide +kernel⟩

/-- Three reservations; the second key is kept, the third is returned, and reserved again while the
first is still out. -/
def reservations : List KeyPoolOp :=
  [.getReservedKey someKeys, .getReservedKey someKeys, .getReservedKey someKeys, .keepKey 1,
    .returnKey 0, .getReservedKey someKeys, .topUpKeyPool someKeys 4]

/-- With `-keypool=2` that pool gives no key out twice. -/
theorem keyPool_iff_reservations :
    (reservations.foldl (step forkCrypto 2) threeKeys).reserved = [3, 1] ∧
      ∀ ops', ops' <+: reservations →
        (ops'.foldl (step forkCrypto 2) threeKeys).Sound forkCrypto 2 := by
  refine ⟨by decide +kernel, (keyPool_iff forkCrypto 2 threeKeys_loaded reservations).mpr ?_⟩
  change EveryStep (step forkCrypto 2) threeKeys (WritesFresh 2) reservations
  unfold reservations
  simp only [everyStep_cons, everyStep_nil, and_true]
  decide +kernel

/-- **A key is given out twice**: with `-keypool=0` the second reservation has the index of the
first; and when one of the two is kept and the other returned, the record is gone. -/
theorem reserved_twice :
    let reserve : KeyPoolOp := .getReservedKey someKeys
    ([reserve, reserve].foldl (step forkCrypto 0) empty).reserved = [1, 1] ∧
      ¬ ([reserve, reserve].foldl (step forkCrypto 0) empty).Sound forkCrypto 0 ∧
      (([reserve, reserve, .keepKey 0, .returnKey 0].foldl (step forkCrypto 0)
        empty).reserveKeyFromKeyPool forkCrypto 0 someKeys).1 =
          .error (.throw "ReserveKeyFromKeyPool() : read failed") := by
  intro reserve
  have htwice : ([reserve, reserve].foldl (step forkCrypto 0) empty).reserved = [1, 1] := by
    decide +kernel
  refine ⟨htwice, fun h => ?_, by decide +kernel⟩
  have honce := h.once
  rw [htwice] at honce
  exact absurd honce (by decide)

end KeyPool

end Breakout
