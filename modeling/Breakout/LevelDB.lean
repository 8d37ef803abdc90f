/-
# The LevelDB wrappers

`CTxDB` and `CExploreDB` wrap a store of byte strings.  While a batch is open, writes and
deletions go there; a lookup scans the batch for the last entry of its key and goes to the store if
there is none.  The two classes are the same code, except that `CExploreDB` has a second test
beside `Exists`, `IsViable`; the comment at it says how the two differ.

`lookups_agree` is the state of affairs after any sequence of calls: `Read` and `IsViable` see the
store with the batch applied, and `Exists` also finds what is marked for deletion and still stored.

That the store itself fails is left out.
-/
import Breakout.Lib.Pending
import Breakout.Transaction

namespace Breakout

open Lib

/-! ## 1. Records -/

/-- How keys and values are serialised, kind by kind.  A key starts with the name of its kind. -/
structure Schema where
  Kind : Type
  Key : Kind → Type
  Value : Kind → Type
  key : (kind : Kind) → Key kind → List UInt8
  value : (kind : Kind) → Value kind → List UInt8
  parse : (kind : Kind) → List UInt8 → Option (Value kind)
  parse_value : ∀ kind v, parse kind (value kind v) = some v
  kind_eq : ∀ kind k kind' k', key kind k = key kind' k' → kind = kind'

/-- What is stored under a key is a value of its kind. -/
def Schema.Types (S : Schema) (db : List UInt8 → Option (List UInt8)) : Prop :=
  ∀ kind k strValue, db (S.key kind k) = some strValue → (S.parse kind strValue).isSome = true

/-! ## 2. The wrapper -/

/-- `CTxDB`, or `CExploreDB` -/
structure LevelDB where
  pdb : List UInt8 → Option (List UInt8)
  activeBatch : Option (List (Pending (List UInt8) (List UInt8)))
  fReadOnly : Bool

structure CBatchScanner where
  needle : List UInt8
  deleted : Bool
  foundValue : List UInt8
  foundEntry : Bool

/-- `CBatchScanner::Put` and `CBatchScanner::Delete` -/
def CBatchScanner.visit (scanner : CBatchScanner) :
    Pending (List UInt8) (List UInt8) → CBatchScanner
  | .put key value =>
    if key = scanner.needle then
      { scanner with foundEntry := true, deleted := false, foundValue := value }
    else scanner
  | .delete key =>
    if key = scanner.needle then { scanner with foundEntry := true, deleted := true } else scanner

/-- `ScanBatch`; `value` is what the caller passes in. -/
def scanBatch (activeBatch : List (Pending (List UInt8) (List UInt8))) (key value : List UInt8) :
    CBatchScanner :=
  activeBatch.foldl CBatchScanner.visit ⟨key, false, value, false⟩

namespace LevelDB

variable (S : Schema)

def read (db : LevelDB) (kind : S.Kind) (k : S.Key kind) : Option (S.Value kind) :=
  let ssKey := S.key kind k
  match db.activeBatch with
  | none => (db.pdb ssKey).bind (S.parse kind)
  | some batch =>
    let scanner := scanBatch batch ssKey []
    if scanner.deleted then none
    else if scanner.foundEntry then S.parse kind scanner.foundValue
    else (db.pdb ssKey).bind (S.parse kind)

/-- `Exists` -/
def «exists» (db : LevelDB) (kind : S.Kind) (k : S.Key kind) : Bool :=
  let ssKey := S.key kind k
  let fInBatch :=
    match db.activeBatch with
    | none => false
    | some batch =>
      let scanner := scanBatch batch ssKey []
      scanner.foundEntry && !scanner.deleted
  if fInBatch then true else (db.pdb ssKey).isSome

def isViable (db : LevelDB) (kind : S.Kind) (k : S.Key kind) : Bool :=
  let ssKey := S.key kind k
  match db.activeBatch with
  | none => (db.pdb ssKey).isSome
  | some batch =>
    let scanner := scanBatch batch ssKey []
    if scanner.foundEntry then !scanner.deleted else (db.pdb ssKey).isSome

/-- A change, made in the batch if there is one. -/
def change (db : LevelDB) (p : Pending (List UInt8) (List UInt8)) : LevelDB :=
  match db.activeBatch with
  | some batch => { db with activeBatch := some (batch ++ [p]) }
  | none => { db with pdb := p.apply db.pdb }

/-- `Write`; it asserts that the database may be written. -/
def write (db : LevelDB) (kind : S.Kind) (k : S.Key kind) (v : S.Value kind) : Option LevelDB :=
  if db.fReadOnly then none else some (db.change (.put (S.key kind k) (S.value kind v)))

/-- `Erase`; it asserts that the database may be written. -/
def erase (db : LevelDB) (kind : S.Kind) (k : S.Key kind) : Option LevelDB :=
  if db.fReadOnly then none else some (db.change (.delete (S.key kind k)))

/-- `TxnBegin`; it asserts that no batch is open. -/
def txnBegin (db : LevelDB) : Option LevelDB :=
  match db.activeBatch with
  | some _ => none
  | none => some { db with activeBatch := some [] }

/-- `TxnCommit`; it asserts that a batch is open. -/
def txnCommit (db : LevelDB) : Option LevelDB :=
  match db.activeBatch with
  | none => none
  | some batch => some { db with pdb := Pending.applyAll batch db.pdb, activeBatch := none }

def txnAbort (db : LevelDB) : LevelDB := { db with activeBatch := none }

end LevelDB

/-- A call. -/
inductive DBCall (S : Schema) where
  | write (kind : S.Kind) (k : S.Key kind) (v : S.Value kind)
  | erase (kind : S.Kind) (k : S.Key kind)
  | txnBegin
  | txnCommit
  | txnAbort

/-- The wrapper after a call, if no assertion fails. -/
def DBCall.run {S : Schema} (db : LevelDB) : DBCall S → Option LevelDB
  | .write kind k v => db.write S kind k v
  | .erase kind k => db.erase S kind k
  | .txnBegin => db.txnBegin
  | .txnCommit => db.txnCommit
  | .txnAbort => some db.txnAbort

/-! ## 3. What a scan finds -/

/-- The scanner has found the given last entry of its key, if any. -/
def CBatchScanner.Found (scanner : CBatchScanner) : Option (Option (List UInt8)) → Prop
  | none => scanner.foundEntry = false ∧ scanner.deleted = false
  | some none => scanner.foundEntry = true ∧ scanner.deleted = true
  | some (some value) =>
    scanner.foundEntry = true ∧ scanner.deleted = false ∧ scanner.foundValue = value

theorem CBatchScanner.visit_needle (scanner : CBatchScanner)
    (p : Pending (List UInt8) (List UInt8)) : (scanner.visit p).needle = scanner.needle := by
  cases p <;> simp only [CBatchScanner.visit] <;> split <;> rfl

theorem CBatchScanner.Found.visit {scanner : CBatchScanner} {r : Option (Option (List UInt8))}
    (h : scanner.Found r) (p : Pending (List UInt8) (List UInt8)) :
    (scanner.visit p).Found (if p.key = scanner.needle then some p.result else r) := by
  cases p with
  | put k v =>
    by_cases hk : k = scanner.needle
    · simp [CBatchScanner.visit, Pending.key, Pending.result, CBatchScanner.Found, hk]
    · simpa [CBatchScanner.visit, Pending.key, hk] using h
  | delete k =>
    by_cases hk : k = scanner.needle
    · simp [CBatchScanner.visit, Pending.key, Pending.result, CBatchScanner.Found, hk]
    · simpa [CBatchScanner.visit, Pending.key, hk] using h

/-- **The scan finds the last entry of the key.** -/
theorem scanBatch_found (batch : List (Pending (List UInt8) (List UInt8)))
    (key value : List UInt8) : (scanBatch batch key value).Found (Pending.last key batch) := by
  have hneedle : ∀ batch, (scanBatch batch key value).needle = key := by
    intro batch
    induction batch using List.reverseRecOn with
    | nil => rfl
    | append_singleton batch p ih => simpa [scanBatch, CBatchScanner.visit_needle] using ih
  induction batch using List.reverseRecOn with
  | nil => exact ⟨rfl, rfl⟩
  | append_singleton batch p ih =>
    have hstep : scanBatch (batch ++ [p]) key value = (scanBatch batch key value).visit p := by
      simp [scanBatch]
    have hvisit := ih.visit p
    rw [hneedle] at hvisit
    rw [hstep, Pending.last_snoc]
    exact hvisit

namespace LevelDB

/-- The store with the batch applied. -/
def applied (db : LevelDB) : List UInt8 → Option (List UInt8) :=
  Pending.applyAll (db.activeBatch.getD []) db.pdb

/-- "marked for deletion in the active batch" -/
def Marked (db : LevelDB) (key : List UInt8) : Prop :=
  ∃ batch, db.activeBatch = some batch ∧ Pending.last key batch = some none

variable {S : Schema} {db db' : LevelDB}

/-- `Read` sees the store with the batch applied. -/
theorem read_eq (kind : S.Kind) (k : S.Key kind) :
    db.read S kind k = (db.applied (S.key kind k)).bind (S.parse kind) := by
  unfold read applied
  cases hbatch : db.activeBatch with
  | none => rfl
  | some batch =>
    have hfound := scanBatch_found batch (S.key kind k) []
    simp only [Option.getD_some, Pending.applyAll_eq]
    rcases hl : Pending.last (S.key kind k) batch with _ | _ | value
    · rw [hl] at hfound
      simp [hfound.1, hfound.2]
    · rw [hl] at hfound
      simp [hfound.2]
    · rw [hl] at hfound
      simp [hfound.1, hfound.2.1, hfound.2.2]

theorem isViable_eq (kind : S.Kind) (k : S.Key kind) :
    db.isViable S kind k = (db.applied (S.key kind k)).isSome := by
  unfold isViable applied
  cases hbatch : db.activeBatch with
  | none => rfl
  | some batch =>
    have hfound := scanBatch_found batch (S.key kind k) []
    simp only [Option.getD_some, Pending.applyAll_eq]
    rcases hl : Pending.last (S.key kind k) batch with _ | _ | value
    · rw [hl] at hfound
      simp [hfound.1]
    · rw [hl] at hfound
      simp [hfound.1, hfound.2]
    · rw [hl] at hfound
      simp [hfound.1, hfound.2.1]

/-- `Exists` also finds what is marked for deletion and still stored. -/
theorem exists_iff (kind : S.Kind) (k : S.Key kind) :
    db.exists S kind k = true ↔ (db.applied (S.key kind k)).isSome = true ∨
      (db.Marked (S.key kind k) ∧ (db.pdb (S.key kind k)).isSome = true) := by
  unfold «exists» applied Marked
  cases hbatch : db.activeBatch with
  | none => simp
  | some batch =>
    have hfound := scanBatch_found batch (S.key kind k) []
    simp only [Option.getD_some, Pending.applyAll_eq, Option.some_inj, exists_eq_left']
    rcases hl : Pending.last (S.key kind k) batch with _ | _ | value
    · rw [hl] at hfound
      simp [hfound.1]
    · rw [hl] at hfound
      simp [hfound.2]
    · rw [hl] at hfound
      simp [hfound.1, hfound.2.1]

/-! ## 4. Runs -/

/-- What is stored, and what a reader is to see. -/
def versions (db : LevelDB) : Versions (List UInt8) (List UInt8) := ⟨db.pdb, db.applied⟩

/-- A change is made in both versions, or only in the one that is seen. -/
theorem versions_change (p : Pending (List UInt8) (List UInt8)) :
    (db.change p).versions =
      if db.activeBatch.isSome then db.versions.stage p else db.versions.write p := by
  unfold change versions applied
  cases hbatch : db.activeBatch with
  | none => rfl
  | some batch =>
    simp only [Option.getD_some, Pending.applyAll_snoc]
    rfl

/-- What a call makes of the two versions. -/
theorem versions_run {call : DBCall S} (h : call.run db = some db') :
    (∃ p : Pending (List UInt8) (List UInt8),
        ((∃ kind k v, p = .put (S.key kind k) (S.value kind v)) ∨ ∃ key, p = .delete key) ∧
        (db'.versions = db.versions.stage p ∨ db'.versions = db.versions.write p)) ∨
      db'.versions = db.versions ∨ db'.versions = db.versions.commit ∨
      db'.versions = db.versions.abort := by
  have hchange : ∀ p, (db.change p).versions = db.versions.stage p ∨
      (db.change p).versions = db.versions.write p := by
    intro p
    rw [versions_change]
    split
    · exact Or.inl rfl
    · exact Or.inr rfl
  cases call with
  | write kind k v =>
    simp only [DBCall.run, write] at h
    split at h
    · cases h
    · cases h
      exact Or.inl ⟨_, Or.inl ⟨kind, k, v, rfl⟩, hchange _⟩
  | erase kind k =>
    simp only [DBCall.run, erase] at h
    split at h
    · cases h
    · cases h
      exact Or.inl ⟨_, Or.inr ⟨_, rfl⟩, hchange _⟩
  | txnBegin =>
    simp only [DBCall.run, txnBegin] at h
    split at h
    · cases h
    · next hbatch =>
      cases h
      refine Or.inr (Or.inl ?_)
      simp only [versions, applied, hbatch]
      rfl
  | txnCommit =>
    simp only [DBCall.run, txnCommit] at h
    split at h
    · cases h
    · next batch hbatch =>
      cases h
      refine Or.inr (Or.inr (Or.inl ?_))
      simp only [versions, applied, hbatch]
      rfl
  | txnAbort =>
    cases h
    exact Or.inr (Or.inr (Or.inr rfl))

/-- A wrapper that has just been made. -/
def fresh (pdb : List UInt8 → Option (List UInt8)) : LevelDB := ⟨pdb, none, false⟩

/-- Runs of calls. -/
inductive Calls (S : Schema) (pdb : List UInt8 → Option (List UInt8)) : LevelDB → Prop
  | fresh : Calls S pdb (fresh pdb)
  | call {db db' : LevelDB} (call : DBCall S) :
      Calls S pdb db → call.run db = some db' → Calls S pdb db'

end LevelDB

/-- A value of the right kind keeps what is stored under every key a value of its kind. -/
theorem Schema.Types.apply {S : Schema} {m : List UInt8 → Option (List UInt8)} (h : S.Types m)
    {p : Pending (List UInt8) (List UInt8)}
    (hp : (∃ kind k v, p = .put (S.key kind k) (S.value kind v)) ∨ ∃ key, p = .delete key) :
    S.Types (p.apply m) := by
  intro kind k strValue hget
  by_cases hk : S.key kind k = p.key
  · rw [Pending.apply, hk, Function.update_self] at hget
    rcases hp with ⟨kind', k', v, rfl⟩ | ⟨key, rfl⟩
    · obtain rfl := S.kind_eq _ _ _ _ hk
      cases hget
      rw [S.parse_value]
      rfl
    · cases hget
  · rw [Pending.apply, Function.update_of_ne hk] at hget
    exact h kind k strValue hget

namespace LevelDB

variable {S : Schema} {db : LevelDB} {pdb : List UInt8 → Option (List UInt8)}

/-- In every run both versions hold values of the right kinds. -/
theorem Calls.types (hpdb : S.Types pdb) (h : Calls S pdb db) :
    S.Types db.versions.committed ∧ S.Types db.versions.current := by
  induction h with
  | fresh => exact ⟨hpdb, hpdb⟩
  | call call _ hrun ih =>
    obtain ⟨hcommitted, hcurrent⟩ := ih
    rcases versions_run hrun with ⟨p, hp, heq | heq⟩ | heq | heq | heq
    · rw [heq]
      exact ⟨hcommitted, hcurrent.apply hp⟩
    · rw [heq]
      exact ⟨hcommitted.apply hp, hcurrent.apply hp⟩
    · rw [heq]
      exact ⟨hcommitted, hcurrent⟩
    · rw [heq]
      exact ⟨hcurrent, hcurrent⟩
    · rw [heq]
      exact ⟨hcommitted, hcommitted⟩

/-- **What the lookups see, after any sequence of calls.**  `Read` and `IsViable` agree with the
store to which the batch is applied, and with each other.  `Exists` finds what `Read` finds, and
what is marked for deletion in the batch and not yet deleted in the store. -/
theorem lookups_agree (hpdb : S.Types pdb) (h : Calls S pdb db) (kind : S.Kind) (k : S.Key kind) :
    db.read S kind k = (db.applied (S.key kind k)).bind (S.parse kind) ∧
      db.isViable S kind k = (db.applied (S.key kind k)).isSome ∧
      db.isViable S kind k = (db.read S kind k).isSome ∧
      (db.exists S kind k = true ↔ (db.read S kind k).isSome = true ∨
        (db.Marked (S.key kind k) ∧ (db.pdb (S.key kind k)).isSome = true)) := by
  obtain ⟨-, htypes⟩ := h.types hpdb
  have hfound : (db.applied (S.key kind k)).isSome = (db.read S kind k).isSome := by
    rw [read_eq]
    cases hget : db.applied (S.key kind k) with
    | none => rfl
    | some strValue => exact (htypes kind k strValue hget).symm
  refine ⟨read_eq kind k, isViable_eq kind k, ?_, ?_⟩
  · rw [isViable_eq, hfound]
  · rw [exists_iff, hfound]

end LevelDB

/-! ## 5. The version record -/

/-- The record with the version of the database; its key is the string "version". -/
def versionSchema : Schema where
  Kind := Unit
  Key _ := Unit
  Value _ := Int32
  key _ _ := serBytes [0x76, 0x65, 0x72, 0x73, 0x69, 0x6f, 0x6e]
  value _ v := serInt32 v
  parse _ strValue :=
    if strValue.length < 4 then none
    else some (.ofBitVec (BitVec.ofNat 32 (leNat (strValue.take 4))))
  parse_value _ v := by
    have hlength : (serInt32 v).length = 4 := length_leBytes 4 _
    have hvalue : leNat (serInt32 v) = v.toBitVec.toNat := leNat_leBytes v.toBitVec.isLt
    rw [if_neg (by omega), List.take_of_length_le (by omega), hvalue, BitVec.ofNat_toNat]
    simp
  kind_eq _ _ _ _ _ := rfl

/-- A store with a version in it. -/
def versionStore : List UInt8 → Option (List UInt8) := fun key =>
  if key = versionSchema.key () () then some (serInt32 70509) else none

theorem versionStore_types : versionSchema.Types versionStore := by
  intro kind k strValue hget
  unfold versionStore at hget
  split at hget
  · cases hget
    rfl
  · cases hget

/-- The wrapper when a batch is open in which the version is erased. -/
def versionErased : LevelDB :=
  (((LevelDB.fresh versionStore).txnBegin).bind (·.erase versionSchema () ())).getD
    (.fresh versionStore)

theorem versionErased_calls : LevelDB.Calls versionSchema versionStore versionErased :=
  .call (.erase () ()) (.call .txnBegin .fresh rfl) rfl

/-- What the lookups of the erased version see. -/
theorem lookups_agree_version :
    versionErased.read versionSchema () () = none ∧
      versionErased.isViable versionSchema () () = false ∧
      versionErased.exists versionSchema () () = true := by
  obtain ⟨hread, hviable, -, hexists⟩ :=
    LevelDB.lookups_agree versionStore_types versionErased_calls () ()
  have hgone : versionErased.applied (versionSchema.key () ()) = none := by decide
  rw [hgone] at hread hviable
  have hmarked : versionErased.Marked (versionSchema.key () ()) :=
    ⟨[.delete (versionSchema.key () ())], rfl, by decide⟩
  exact ⟨hread, hviable, hexists.mpr (Or.inr ⟨hmarked, by decide⟩)⟩

/-- **`Exists` finds what `Read` does not.**  A record that is stored is erased in a batch. -/
theorem exists_of_erased :
    LevelDB.Calls versionSchema versionStore versionErased ∧
      versionErased.read versionSchema () () = none ∧
      versionErased.applied (versionSchema.key () ()) = none ∧
      versionErased.exists versionSchema () () = true :=
  ⟨versionErased_calls, by decide, by decide, by decide⟩

end Breakout
