/-
# What the records of an address say of each other

Records that represent a book in order agree with each other, and this can be said without the
book: the balance is the sum over the unspent output records, each kind is numbered without gaps,
the lookups are those of the output records, and every list of in-outs has the inputs and outputs
of one transaction, all of them and nothing else.
-/
import Breakout.ExploreBooks

namespace Breakout

open Lib ExploreInOutLookup

/-! ## 1. Consistent records -/

/-- The numbers in use are those from one to the counter. -/
def Contiguous {α : Type} (qty : Option Int) (table : Int → Option α) : Prop :=
  ∀ k, (table k).isSome = true ↔ 1 ≤ k ∧ k ≤ qty.getD 0

/-- An in-out is of an input or an output record of the transaction. -/
def AddrRecords.Names (r : AddrRecords) (txid : UInt256) (l : ExploreInOutLookup) : Prop :=
  (∃ k i, l = .of k true ∧ r.txInput k = some i ∧ i.txid = txid) ∨
    ∃ k o, l = .of k false ∧ r.txOutput k = some o ∧ o.txid = txid

/-- **The records of an address agree with each other.** -/
structure AddrRecords.Consistent (r : AddrRecords) : Prop where
  balance : (r.balance.getD 0).toInt = ∑ k ∈ Finset.Icc 1 (r.qtyOutput.getD 0),
    ((r.txOutput k).map ExploreOutput.unspentAmount).getD 0
  inputs : Contiguous r.qtyInput r.txInput
  outputs : Contiguous r.qtyOutput r.txOutput
  inOuts : Contiguous r.qtyInOut r.txInOut
  vios : Contiguous r.qtyVio r.listVio
  lookupOutput : ∀ o k, r.lookupOutput o = some k ↔ ∃ out, r.txOutput k = some out ∧
    out.outpoint = o
  inOut : ∀ k l, r.txInOut k = some l → ∃ txid, r.Names txid l
  vio : ∀ k v, r.listVio k = some v → v.vinouts ≠ [] ∧
    ∃ txid, ∀ l, l ∈ v.vinouts ↔ r.Names txid l

/-! ## 2. An in-out and its parts -/

/-- A word is its part outside the flag, with the flag if it has it. -/
theorem and_not_or_and {w : Nat} (x y : BitVec w) : (x &&& ~~~y) ||| (x &&& y) = x := by
  ext i hi
  simp only [BitVec.getElem_and, BitVec.getElem_or, BitVec.getElem_not]
  cases x[i] <;> cases y[i] <;> rfl

/-- The flag is one bit, so a word has it or nothing of it. -/
theorem and_flagAddrTx (x : Int32) : x &&& flagAddrTx = flagAddrTx ∨ x &&& flagAddrTx = 0 := by
  have hflag : flagAddrTx.toBitVec.toNat = 2 ^ 30 := rfl
  have hnat : (x &&& flagAddrTx).toBitVec.toNat = (x.toBitVec.toNat.testBit 30).toNat * 2 ^ 30 := by
    rw [Int32.toBitVec_and, BitVec.toNat_and, hflag, Nat.and_two_pow]
  cases hbit : x.toBitVec.toNat.testBit 30 with
  | true =>
    left
    apply Int32.toBitVec_inj.mp
    apply BitVec.eq_of_toNat_eq
    rw [hnat, hbit, hflag]
    rfl
  | false =>
    right
    apply Int32.toBitVec_inj.mp
    apply BitVec.eq_of_toNat_eq
    rw [hnat, hbit]
    rfl

/-- **An in-out is made from its number and its flag.** -/
theorem of_getID_isInput (l : ExploreInOutLookup) : of l.getID l.isInput = l := by
  have hid : Int32.ofInt l.getID = l.nData &&& ~~~flagAddrTx := Int32.ofInt_toInt _
  have hparts : (l.nData &&& ~~~flagAddrTx) ||| (l.nData &&& flagAddrTx) = l.nData := by
    apply Int32.toBitVec_inj.mp
    rw [Int32.toBitVec_or, Int32.toBitVec_and, Int32.toBitVec_and, Int32.toBitVec_not]
    exact and_not_or_and ..
  obtain ⟨nData⟩ := l
  have hdata : (of (getID ⟨nData⟩) (isInput ⟨nData⟩)).nData = nData := by
    rcases and_flagAddrTx nData with hin | hout
    · have his : isInput ⟨nData⟩ = true := decide_eq_true hin
      rw [his]
      change Int32.ofInt (getID ⟨nData⟩) ||| flagAddrTx = nData
      rw [hid]
      rw [hin] at hparts
      exact hparts
    · have his : isInput ⟨nData⟩ = false := by
        refine decide_eq_false fun hin => ?_
        rw [hout] at hin
        exact absurd hin (by decide)
      rw [his]
      change Int32.ofInt (getID ⟨nData⟩) = nData
      rw [hid]
      rw [hout, Int32.or_zero] at hparts
      exact hparts
  exact congrArg ExploreInOutLookup.mk hdata

/-! ## 3. Books and their records -/

variable {r : AddrRecords} {b : Book}

theorem contiguous_of_counted {α : Type} {qty : Option Int} {table : Int → Option α} {l : List α}
    (h : Counted qty table l) : Contiguous qty table := by
  intro k
  rw [h.table, h.qty]
  exact numbered_isSome

/-- The numbers of the inputs leave the flag's bit free, as those of the outputs do. -/
theorem Book.Ok.inputs_length_lt (hok : b.Ok) (hs : b.Small) : b.inputs.length < 2 ^ 30 := by
  have hle := hok.inputs_le
  have hcount := spentCount_le b.outputs
  have hlt := hs.length_lt
  omega

variable {l : ExploreInOutLookup} {txid : UInt256}

/-- An in-out of the book is of an input or an output of the list's transaction. -/
theorem Represents.names_of_txidOf (h : Represents r b) (hl : b.txidOf l = some txid) :
    r.Names txid l := by
  unfold Book.txidOf at hl
  split at hl
  · next hin =>
    obtain ⟨i, hi, hid⟩ := Option.map_eq_some_iff.mp hl
    refine Or.inl ⟨l.getID, i, ?_, by rw [h.inputs.table, hi], hid⟩
    rw [← hin, of_getID_isInput]
  · next hout =>
    obtain ⟨o, ho, hid⟩ := Option.map_eq_some_iff.mp hl
    refine Or.inr ⟨l.getID, o, ?_, by rw [h.outputs.table, ho], hid⟩
    rw [← Bool.not_eq_true _ |>.mp hout, of_getID_isInput]

/-- The transaction of a named in-out. -/
theorem Represents.txidOf_of_names (h : Represents r b) (hok : b.Ok) (hs : b.Small)
    (hl : r.Names txid l) : b.txidOf l = some txid := by
  have hin := hok.inputs_length_lt hs
  have hout := hs.length_lt
  rcases hl with ⟨k, i, rfl, hi, rfl⟩ | ⟨k, o, rfl, ho, rfl⟩
  · rw [h.inputs.table] at hi
    obtain ⟨h₁, h₂⟩ := numbered_isSome.mp (Option.isSome_of_mem hi)
    rw [Book.txidOf, isInput_of (by omega) (by omega), if_pos rfl, getID_of (by omega) (by omega),
      hi, Option.map_some]
  · rw [h.outputs.table] at ho
    obtain ⟨h₁, h₂⟩ := numbered_isSome.mp (Option.isSome_of_mem ho)
    rw [Book.txidOf, isInput_of (by omega) (by omega), if_neg Bool.false_ne_true,
      getID_of (by omega) (by omega), ho, Option.map_some]

/-- What the list's transaction names is in the in-outs. -/
theorem Represents.mem_inouts_of_names (h : Represents r b) (hok : b.Ok)
    (hv : ∃ v ∈ b.vios, v.txid = txid) (hl : r.Names txid l) : l ∈ b.inouts := by
  rcases hl with ⟨k, i, rfl, hi, rfl⟩ | ⟨k, o, rfl, ho, rfl⟩
  · rw [h.inputs.table] at hi
    exact hok.inputs_listed k (Option.isSome_of_mem hi)
  · rw [h.outputs.table] at ho
    exact hok.outputs_listed k o ho hv

/-- **Every list of in-outs has those of one transaction**, all of them and nothing else. -/
theorem Represents.mem_vinouts_iff (h : Represents r b) (hok : b.Ok) (hs : b.Small) {v : Vio}
    (hv : v ∈ b.vios) (l : ExploreInOutLookup) : l ∈ v.list.vinouts ↔ r.Names v.txid l := by
  constructor
  · exact fun hl => h.names_of_txidOf (hok.vios.listed v hv l hl)
  · intro hl
    obtain ⟨v', hv', hl'⟩ := hok.vios.mem_iff.mp (h.mem_inouts_of_names hok ⟨v, hv, rfl⟩ hl)
    have htxid : v'.txid = v.txid := by
      have hlisted := hok.vios.listed v' hv' l hl'
      rw [h.txidOf_of_names hok hs hl, Option.some_inj] at hlisted
      exact hlisted.symm
    obtain rfl : v' = v := List.inj_on_of_nodup_map hok.vios.txids hv' hv htxid
    exact hl'

/-- **Records of a book in order are consistent.** -/
theorem Represents.consistent (h : Represents r b) (hok : b.Ok) (hs : b.Small) :
    r.Consistent where
  balance := by
    rw [h.balance, toInt_ofInt_of_small hok.balance_nonneg hs.balance_lt, hok.balance, h.outputs.qty,
      h.outputs.table]
    exact (sum_numbered ..).symm
  inputs := contiguous_of_counted h.inputs
  outputs := contiguous_of_counted h.outputs
  inOuts := contiguous_of_counted h.inOuts.inouts
  vios := contiguous_of_counted h.inOuts.vios
  lookupOutput o k := by
    rw [h.lookupOutput, h.outputs.table]
    constructor
    · intro hk
      obtain ⟨-, out, -, hnum, hpoint⟩ := numbered_of_numberOf hk
      exact ⟨out, hnum, hpoint⟩
    · rintro ⟨out, hnum, rfl⟩
      exact numberOf_of_numbered hok.outpoints hnum
  inOut k l hl := by
    rw [h.inOuts.inouts.table] at hl
    obtain ⟨v, hv, hlv⟩ := hok.vios.mem_iff.mp (exists_of_numbered hl)
    exact ⟨v.txid, h.names_of_txidOf (hok.vios.listed v hv l hlv)⟩
  vio k v hv := by
    rw [h.inOuts.vios.table] at hv
    obtain ⟨v, hmem, rfl⟩ := List.mem_map.mp (exists_of_numbered hv)
    exact ⟨hok.vios.ne_nil v hmem, v.txid, h.mem_vinouts_iff hok hs hmem⟩

end Breakout
