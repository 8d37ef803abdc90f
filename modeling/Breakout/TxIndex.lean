/-
# The transaction index

The database a node keeps of the transactions of its best chain: for each id, where the
transaction lies on disk and which of its outputs are spent (`CTxIndex`).  A block is connected
against the database with the block's own changes laid over it; the overlay is again a
function from ids to entries, so both are a `TxDB`.

`unspentSet` is the meaning of such an index: the set of outputs it holds unspent.  Three
operations change an index, and each is shown to change the set in the expected way: spending
an output, entering a new transaction, and, when a block is disconnected, giving an output
back and erasing a transaction.
-/
import Breakout.Lib.Ledger
import Breakout.Transaction
import Mathlib.Data.Set.Finite.Basic

namespace Breakout

open Lib

/-! ## 1. Entries -/

structure CDiskTxPos where
  nFile : UInt32
  nBlockPos : UInt32
  nTxPos : UInt32
deriving DecidableEq, Repr

def CDiskTxPos.isNull (p : CDiskTxPos) : Bool := p.nFile == 0xffffffff

/-- `CDiskTxPos::SetNull` -/
def CDiskTxPos.null : CDiskTxPos := ⟨0xffffffff, 0, 0⟩

structure CTxIndex where
  pos : CDiskTxPos
  vSpent : List CDiskTxPos
deriving DecidableEq, Repr

/-- `CTxIndex(posIn, nOutputs)` -/
def CTxIndex.new (pos : CDiskTxPos) (nOutputs : Nat) : CTxIndex :=
  ⟨pos, List.replicate nOutputs CDiskTxPos.null⟩

/-- `txindex.vSpent[n] = pos` -/
def CTxIndex.setSpent (idx : CTxIndex) (n : UInt32) (pos : CDiskTxPos) : CTxIndex :=
  { idx with vSpent := idx.vSpent.set n.toNat pos }

/-- The transaction index: `ReadTxIndex` by id. -/
abbrev TxDB := UInt256 → Option CTxIndex

/-- The block files: the transaction stored at a position. -/
abbrev Disk := CDiskTxPos → Option CTransaction

/-- `UpdateTxIndex`, and the assignment to `mapQueuedChanges`. -/
def TxDB.update (db : TxDB) (hash : UInt256) (idx : CTxIndex) : TxDB :=
  Function.update db hash (some idx)

/-- `EraseTxIndex` -/
def TxDB.erase (db : TxDB) (hash : UInt256) : TxDB := Function.update db hash none

/-- The database read through `mapQueuedChanges`. -/
def TxDB.over (queued db : TxDB) : TxDB := fun hash => (queued hash).or (db hash)

/-- `CTransaction::ReadFromDisk(txdb, prevout, txindexRet)` -/
def readFromDisk (db : TxDB) (disk : Disk) (prevout : COutPoint) :
    Option (CTransaction × CTxIndex) :=
  match db prevout.hash with
  | none => none
  | some txindex =>
    match disk txindex.pos with
    | none => none
    | some tx => if tx.vout.length ≤ prevout.n.toNat then none else some (tx, txindex)

/-- A queued change shows through at once. -/
theorem TxDB.over_update (queued db : TxDB) (hash : UInt256) (idx : CTxIndex) :
    (queued.update hash idx).over db = (queued.over db).update hash idx := by
  funext h
  by_cases hh : h = hash
  · subst hh
    simp [TxDB.over, TxDB.update]
  · simp [TxDB.over, TxDB.update, Function.update_of_ne hh]

/-! ## 2. The unspent outputs of an index -/

/-- The index has the output, and not as spent. -/
def Unspent (db : TxDB) (o : COutPoint) : Prop :=
  ∃ idx pos, db o.hash = some idx ∧ idx.vSpent[o.n.toNat]? = some pos ∧ pos.isNull = true

instance : Finite COutPoint := by
  refine Finite.of_injective (fun o : COutPoint => (o.hash.toFin, o.n.toFin)) ?_
  rintro ⟨h, n⟩ ⟨h', n'⟩ heq
  simp only [Prod.mk.injEq, BitVec.toFin_inj] at heq
  rw [heq.1, UInt32.toFin_inj.mp heq.2]

/-- The outputs an index holds unspent. -/
noncomputable def unspentSet (db : TxDB) : Finset COutPoint :=
  (Set.toFinite {o | Unspent db o}).toFinset

variable {db : TxDB} {o prevout : COutPoint} {hash : UInt256} {idx : CTxIndex} {pos : CDiskTxPos}

@[simp] theorem mem_unspentSet :
    o ∈ unspentSet db ↔ Unspent db o := by
  simp [unspentSet]

theorem unspent_update :
    Unspent (db.update hash idx) o ↔
      (o.hash = hash ∧ ∃ pos, idx.vSpent[o.n.toNat]? = some pos ∧ pos.isNull = true) ∨
        (o.hash ≠ hash ∧ Unspent db o) := by
  by_cases h : o.hash = hash
  · simp [Unspent, TxDB.update, h]
  · simp [Unspent, TxDB.update, h]

theorem COutPoint.ext_of_hash {p : COutPoint} (h : o.hash = p.hash) (hn : o.n.toNat = p.n.toNat) :
    o = p := by
  obtain ⟨oh, on⟩ := o
  obtain ⟨ph, pn⟩ := p
  simp only at h hn
  rw [h, UInt32.toNat_inj.mp hn]

/-- **Spending** takes the output out of the set. -/
theorem unspent_spend (hdb : db prevout.hash = some idx) (hpos : pos.isNull = false) :
    Unspent (db.update prevout.hash (idx.setSpent prevout.n pos)) o ↔
      Unspent db o ∧ o ≠ prevout := by
  rw [unspent_update]
  by_cases h : o.hash = prevout.hash
  · by_cases hn : prevout.n.toNat = o.n.toNat
    · have ho : o = prevout := COutPoint.ext_of_hash h hn.symm
      simp only [ne_eq, not_true_eq_false, false_and, or_false, true_and, ho, and_false,
        iff_false, CTxIndex.setSpent]
      rintro ⟨p, hp, hnull⟩
      rw [List.getElem?_set_self', Option.map_eq_map, Option.map_eq_some_iff] at hp
      obtain ⟨_, _, rfl⟩ := hp
      rw [Function.const_apply, hpos] at hnull
      cases hnull
    · have ho : o ≠ prevout := fun he => hn (by rw [he])
      simp only [h, true_and, ne_eq, not_true_eq_false, false_and, or_false, ho,
        not_false_eq_true, and_true, CTxIndex.setSpent, List.getElem?_set_ne hn]
      simp [Unspent, h, hdb]
  · have ho : o ≠ prevout := fun he => h (by rw [he])
    simp [h, ho]

/-- **Entering** a transaction adds its outputs, in place of those of that id. -/
theorem unspent_enter {n : Nat} :
    Unspent (db.update hash (.new pos n)) o ↔
      (o.hash = hash ∧ o.n.toNat < n) ∨ (o.hash ≠ hash ∧ Unspent db o) := by
  rw [unspent_update]
  simp only [CTxIndex.new, List.getElem?_replicate, Option.ite_none_right_eq_some,
    Option.some.injEq]
  refine or_congr_left (and_congr_right fun _ => ?_)
  constructor
  · rintro ⟨p, ⟨hn, rfl⟩, -⟩
    exact hn
  · exact fun hn => ⟨_, ⟨hn, rfl⟩, rfl⟩

/-- **Giving back** an output when a block is disconnected. -/
theorem unspent_giveBack (hdb : db prevout.hash = some idx)
    (hn : prevout.n.toNat < idx.vSpent.length) :
    Unspent (db.update prevout.hash (idx.setSpent prevout.n .null)) o ↔
      Unspent db o ∨ o = prevout := by
  rw [unspent_update]
  by_cases h : o.hash = prevout.hash
  · by_cases hn' : prevout.n.toNat = o.n.toNat
    · have ho : o = prevout := COutPoint.ext_of_hash h hn'.symm
      subst ho
      simp [CTxIndex.setSpent, hn, CDiskTxPos.isNull, CDiskTxPos.null]
    · have ho : o ≠ prevout := fun he => hn' (by rw [he])
      simp only [h, true_and, ne_eq, not_true_eq_false, false_and, or_false, ho,
        CTxIndex.setSpent, List.getElem?_set_ne hn']
      simp [Unspent, h, hdb]
  · have ho : o ≠ prevout := fun he => h (by rw [he])
    simp [h, ho]

/-- **Erasing** a transaction removes what was under its id. -/
theorem unspent_erase :
    Unspent (db.erase hash) o ↔ Unspent db o ∧ o.hash ≠ hash := by
  by_cases h : o.hash = hash
  · simp [Unspent, TxDB.erase, h]
  · simp [Unspent, TxDB.erase, h]

/-! ## 3. A transaction as a move of outputs -/

/-- The outputs a transaction consumes; the one input of a coinbase consumes nothing. -/
def CTransaction.spends (tx : CTransaction) : List COutPoint :=
  if tx.isCoinBase then [] else tx.vin.map CTxIn.prevout

/-- The outputs a transaction creates. -/
def CTransaction.creates (K : Crypto) (tx : CTransaction) : List COutPoint :=
  (List.range tx.vout.length).map fun n => ⟨tx.getHash K, UInt32.ofNat n⟩

/-- What a transaction does to the unspent set. -/
def CTransaction.toMove (K : Crypto) (tx : CTransaction) : Move COutPoint :=
  ⟨tx.spends, tx.creates K⟩

variable {K : Crypto}

variable {tx : CTransaction}

theorem CTransaction.mem_creates (hlen : tx.vout.length ≤ 2 ^ 32) {o : COutPoint} :
    o ∈ tx.creates K ↔ o.hash = tx.getHash K ∧ o.n.toNat < tx.vout.length := by
  simp only [CTransaction.creates, List.mem_map, List.mem_range]
  constructor
  · rintro ⟨n, hn, rfl⟩
    refine ⟨rfl, ?_⟩
    rwa [UInt32.toNat_ofNat', Nat.mod_eq_of_lt (by omega)]
  · rintro ⟨hh, hn⟩
    refine ⟨o.n.toNat, hn, ?_⟩
    rw [← hh, UInt32.ofNat_toNat]

theorem CTransaction.nodup_creates (hlen : tx.vout.length ≤ 2 ^ 32) :
    (tx.creates K).Nodup := by
  refine (List.nodup_map_iff_inj_on List.nodup_range).mpr ?_
  intro a ha b hb hab
  rw [List.mem_range] at ha hb
  have hab' := congrArg (fun o : COutPoint => o.n.toNat) hab
  simp only [UInt32.toNat_ofNat'] at hab'
  rwa [Nat.mod_eq_of_lt (by omega), Nat.mod_eq_of_lt (by omega)] at hab'

end Breakout
