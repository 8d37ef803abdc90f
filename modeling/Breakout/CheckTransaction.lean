/-
# `CheckTransaction`

The context-free checks of a transaction.  The colour of an output is whatever 32-bit integer
the message carried, and nothing here compares it with the size of the tables before the
tables are read with it: for a transaction that is not a coinbase, `FEE_COLOR` is read at the
colour of the first output; for a coinbase, `MAX_MONEY` and the running totals are read at the
colour of each output in turn.

Section 2 says what a transaction that passes is known to satisfy.  Section 3 says exactly
which transactions keep every table read inside the tables (`inBounds_checkTransaction_iff`).
-/
import Breakout.Amounts

namespace Breakout

open Lib

/-! ## 1. The checks -/

def maxTxCommentLen : Nat := 512

/-- Every output has the colour of the first or the colour its fees are paid in. -/
def checkOutputColors (tx : CTransaction) : Run Unit :=
  if tx.isCoinBase then .ok ()
  else do
    let c ← tableIndex tx.getColor
    refuse (¬ ∀ o ∈ tx.vout.tail, o.nColor = c.toInt32 ∨ o.nColor = (feeColor c).toInt32) 100
      "CTransaction::CheckTransaction() : all txout are not tx currency or fee delegate"

/-- The loop over the outputs; `vValueOut` holds the totals so far. -/
def checkOutputValues (fMature : Bool) : List CTxOut → (Color → Int64) → Run Unit
  | [], _ => .ok ()
  | txout :: rest, vValueOut => do
    refuse (txout.isEmpty ∧ fMature = false) 100
      "CTransaction::CheckTransaction() : txout empty for user transaction"
    refuse (txout.nValue < 0) 100 "CTransaction::CheckTransaction() : txout.nValue negative"
    let c ← tableIndex txout.nColor
    refuse (txout.nValue > maxMoney c) 100
      "CTransaction::CheckTransaction() : txout.nValue too high"
    refuse (moneyRange (vValueOut c + txout.nValue) c = false) 100
      "CTransaction::CheckTransaction() : txout total out of range"
    checkOutputValues fMature rest (Function.update vValueOut c (vValueOut c + txout.nValue))

/-- The last checks on the inputs: the size of a coinbase's script, or no null input. -/
def checkInputs (tx : CTransaction) : Run Unit :=
  if tx.isCoinBase then
    let size := (tx.vin.head?.map fun txin => txin.scriptSig.length).getD 0
    refuse (size < 2 ∨ size > 100) 100
      "CTransaction::CheckTransaction() : coinbase script size is invalid"
  else
    refuse (∃ txin ∈ tx.vin, txin.prevout.isNull = true) 10
      "CTransaction::CheckTransaction() : prevout is null"

def checkTransaction (fTestNet : Bool) (nAdjustedTime : Nat) (tx : CTransaction) : Run Unit := do
  refuse (tx.vin = []) 10 "CTransaction::CheckTransaction() : vin empty"
  refuse (tx.vout = []) 10 "CTransaction::CheckTransaction() : vout empty"
  refuse (tx.nTime.toNat > futureDrift fTestNet nAdjustedTime) 10
    "CTransaction::CheckTransaction() : timestamp is too far into the future"
  refuse (tx.serialize.length > maxBlockSize) 100
    "CTransaction::CheckTransaction() : size limits failed"
  checkOutputColors tx
  checkOutputValues tx.doesMature tx.vout fun _ => 0
  refuse (¬ (tx.vin.map CTxIn.prevout).Nodup) 0 ""
  checkInputs tx
  refuse (tx.strTxComment.length > maxTxCommentLen) 10
    "CTransaction::CheckTransaction() : comment too big"

/-! ## 2. What a checked transaction satisfies -/

/-- The amounts are not negative, their colours are in the tables, and no colour's total
exceeds its maximum. -/
structure ValuesOk (outs : List CTxOut) : Prop where
  nonneg : ∀ o ∈ outs, 0 ≤ o.nValue.toInt
  inTable : ∀ o ∈ outs, InTable o.nColor
  total_le : ∀ c : Color, colorSum outs c.toInt32 ≤ (maxMoney c).toInt

/-- The running totals are those of the outputs seen. -/
def Tallied (vValueOut : Color → Int64) (seen : List CTxOut) : Prop :=
  ∀ c : Color, (vValueOut c).toInt = colorSum seen c.toInt32

theorem ValuesOk.nil : ValuesOk [] :=
  ⟨by simp, by simp, fun c => by simpa using (maxMoney_bounds c).1⟩

theorem ValuesOk.of_append {l l' : List CTxOut} (h : ValuesOk (l ++ l')) : ValuesOk l := by
  have hl' : ∀ n, 0 ≤ colorSum l' n :=
    colorSum_nonneg fun o ho => h.nonneg o (List.mem_append_right _ ho)
  refine ⟨fun o ho => h.nonneg o (List.mem_append_left _ ho),
    fun o ho => h.inTable o (List.mem_append_left _ ho), fun c => ?_⟩
  have := h.total_le c
  have := hl' c.toInt32
  rw [colorSum_append] at *
  omega

variable {seen : List CTxOut} {v : Color → Int64} {o : CTxOut} {c : Color} {fMature : Bool}
  {tx : CTransaction}

/-- One output passes exactly when the outputs up to it are in order. -/
theorem valuesOk_snoc_iff (hseen : ValuesOk seen) (hv : Tallied v seen) (hc : o.nColor = c.toInt32)
    (h0 : 0 ≤ o.nValue.toInt) :
    ValuesOk (seen ++ [o]) ↔
      o.nValue.toInt ≤ (maxMoney c).toInt ∧ moneyRange (v c + o.nValue) c = true := by
  have hsum : ∀ d : Color, colorSum (seen ++ [o]) d.toInt32 =
      colorSum seen d.toInt32 + if d = c then o.nValue.toInt else 0 := by
    intro d
    rw [colorSum_append, colorSum_cons, hc]
    simp [eq_comm]
  have hmax := maxMoney_bounds c
  have hc0 := colorSum_nonneg hseen.nonneg c.toInt32
  have hcm := hseen.total_le c
  constructor
  · intro h
    have hle := h.total_le c
    rw [hsum, if_pos rfl] at hle
    refine ⟨by omega, moneyRange_iff.mpr ?_⟩
    rw [Int64.toInt_add, hv c, Int.bmod_eq_of_le (by omega) (by omega)]
    omega
  · rintro ⟨hle, hr⟩
    have hr := moneyRange_iff.mp hr
    rw [Int64.toInt_add, hv c, Int.bmod_eq_of_le (by omega) (by omega)] at hr
    refine ⟨?_, ?_, fun d => ?_⟩
    · intro p hp
      rcases List.mem_append.mp hp with hp | hp
      · exact hseen.nonneg p hp
      · exact List.mem_singleton.mp hp ▸ h0
    · intro p hp
      rcases List.mem_append.mp hp with hp | hp
      · exact hseen.inTable p hp
      · rw [List.mem_singleton.mp hp]
        exact inTable_iff.mpr ⟨c, hc⟩
    · rw [hsum]
      split_ifs with hd
      · rw [hd]
        omega
      · have := hseen.total_le d
        omega

/-- The totals after one more output. -/
theorem Tallied.snoc (hseen : ValuesOk seen) (hv : Tallied v seen) (hc : o.nColor = c.toInt32)
    (h0 : 0 ≤ o.nValue.toInt) (hle : o.nValue.toInt ≤ (maxMoney c).toInt) :
    Tallied (Function.update v c (v c + o.nValue)) (seen ++ [o]) := by
  have hmax := maxMoney_bounds c
  have hc0 := colorSum_nonneg hseen.nonneg c.toInt32
  have hcm := hseen.total_le c
  intro d
  rw [colorSum_append, colorSum_cons, colorSum_nil, hc]
  by_cases hd : d = c
  · subst hd
    rw [Function.update_self, Int64.toInt_add, hv d, Int.bmod_eq_of_le (by omega) (by omega),
      if_pos rfl]
    omega
  · rw [Function.update_of_ne hd, hv d, if_neg (by simpa using Ne.symm hd)]
    omega

/-- **What the loop accepts is in order.**  The invariant is that the totals are those of the
outputs seen. -/
theorem checkOutputValues_spec :
    ∀ {outs seen : List CTxOut} {v : Color → Int64}, ValuesOk seen → Tallied v seen →
      checkOutputValues fMature outs v = .ok () → ValuesOk (seen ++ outs)
  | [], seen, _, hseen, _, _ => by simpa using hseen
  | o :: outs, seen, v, hseen, hv, h => by
    simp only [checkOutputValues, bind_eq_ok, refuse_eq_ok] at h
    obtain ⟨-, -, -, h0, c, hc, -, hle, -, hr, h⟩ := h
    rw [tableIndex_eq_ok] at hc
    rw [Int64.not_lt, Int64.le_iff_toInt_le] at h0 hle
    have hok : ValuesOk (seen ++ [o]) :=
      (valuesOk_snoc_iff hseen hv hc h0).mpr ⟨hle, by simpa using hr⟩
    simpa using checkOutputValues_spec hok (hv.snoc hseen hc h0 hle) h

/-- What `CheckTransaction` establishes. -/
structure CheckedTx (tx : CTransaction) : Prop where
  vin_ne : tx.vin ≠ []
  vout_ne : tx.vout ≠ []
  size_le : tx.serialize.length ≤ maxBlockSize
  values : ValuesOk tx.vout
  prevouts_nodup : (tx.vin.map CTxIn.prevout).Nodup
  not_null : tx.isCoinBase = false → ∀ txin ∈ tx.vin, txin.prevout.isNull = false

theorem checkTransaction_spec {fTestNet : Bool} {nAdjustedTime : Nat}
    (h : checkTransaction fTestNet nAdjustedTime tx = .ok ()) : CheckedTx tx := by
  simp only [checkTransaction, bind_eq_ok, refuse_eq_ok] at h
  obtain ⟨-, hin, -, hout, -, -, -, hsize, -, -, _, hval, -, hnd, _, hinputs, -⟩ := h
  refine ⟨hin, hout, not_lt.mp hsize, ?_, not_not.mp hnd, ?_⟩
  · simpa using checkOutputValues_spec ValuesOk.nil (fun c => by simp) hval
  · intro hcb txin htx
    simp only [checkInputs, hcb, Bool.false_eq_true, if_false, refuse_eq_ok, not_exists,
      not_and, Bool.not_eq_true] at hinputs
    exact hinputs txin htx

/-! ## 3. Table reads -/

/-- The transactions `CheckTransaction` refuses before it reads a table. -/
def RefusedEarly (fTestNet : Bool) (nAdjustedTime : Nat) (tx : CTransaction) : Prop :=
  tx.vin = [] ∨ tx.vout = [] ∨ tx.nTime.toNat > futureDrift fTestNet nAdjustedTime ∨
    tx.serialize.length > maxBlockSize

/-- The colour of every output the value loop gets to is in the tables: of each output with a
non-negative amount, when the outputs before it are in order. -/
def ReachedInTable (outs : List CTxOut) : Prop :=
  ∀ seen o rest, outs = seen ++ o :: rest → ValuesOk seen → 0 ≤ o.nValue.toInt → InTable o.nColor

/-- The exact condition for reading the tables inside their bounds. -/
def ColorsInTable (fTestNet : Bool) (nAdjustedTime : Nat) (tx : CTransaction) : Prop :=
  RefusedEarly fTestNet nAdjustedTime tx ∨
    (tx.isCoinBase = false ∧ InTable tx.getColor) ∨
    (tx.isCoinBase = true ∧ ReachedInTable tx.vout)

theorem inBounds_tableIndex_iff {n : Int32} : InBounds (tableIndex n) ↔ InTable n := by
  by_cases h : InTable n
  · obtain ⟨c, rfl⟩ := inTable_iff.mp h
    simp [h]
  · rw [tableIndex_of_not_inTable h]
    simp [h]

theorem inBounds_checkOutputColors_iff :
    InBounds (checkOutputColors tx) ↔ tx.isCoinBase = true ∨ InTable tx.getColor := by
  unfold checkOutputColors
  split
  · next h => simp [h]
  · next h => simp [h, inBounds_bind, inBounds_tableIndex_iff]

/-- Outputs whose colours are all in the tables are read in bounds. -/
theorem inBounds_checkOutputValues :
    ∀ {outs : List CTxOut} {v : Color → Int64}, (∀ o ∈ outs, InTable o.nColor) →
      InBounds (checkOutputValues fMature outs v)
  | [], _, _ => by simp [checkOutputValues]
  | o :: outs, v, h => by
    simp only [checkOutputValues, inBounds_bind, inBounds_refuse, inBounds_tableIndex_iff,
      true_and]
    intro _ _ _ _
    refine ⟨h o List.mem_cons_self, fun c _ _ _ _ _ => ?_⟩
    exact inBounds_checkOutputValues fun p hp => h p (List.mem_cons_of_mem _ hp)

/-- With no rule against empty outputs, the loop reads in bounds exactly when the outputs it
gets to have their colours in the tables. -/
theorem inBounds_checkOutputValues_iff :
    ∀ {outs seen : List CTxOut} {v : Color → Int64}, ValuesOk seen → Tallied v seen →
      (InBounds (checkOutputValues true outs v) ↔
        ∀ pre o rest, outs = pre ++ o :: rest → ValuesOk (seen ++ pre) → 0 ≤ o.nValue.toInt →
          InTable o.nColor)
  | [], seen, v, _, _ => by simp [checkOutputValues]
  | o :: outs, seen, v, hseen, hv => by
    simp only [checkOutputValues, inBounds_bind, inBounds_refuse, inBounds_tableIndex_iff,
      true_and, refuse_eq_ok, Bool.true_eq_false, and_false, not_false_eq_true, forall_const,
      tableIndex_eq_ok, Int64.not_lt, Int64.le_iff_toInt_le, Int64.toInt_zero]
    constructor
    · intro h pre p rest heq hok hp
      cases pre with
      | nil =>
        obtain ⟨rfl, -⟩ : o = p ∧ outs = rest := by simpa using heq
        exact (h hp).1
      | cons q pre =>
        obtain ⟨rfl, rfl⟩ : o = q ∧ outs = pre ++ p :: rest := by simpa using heq
        have hpre : ValuesOk (seen ++ [o]) := by
          have hall : ValuesOk ((seen ++ [o]) ++ pre) := by simpa using hok
          exact hall.of_append
        have h0 : 0 ≤ o.nValue.toInt := hpre.nonneg o (by simp)
        obtain ⟨c, hc⟩ := inTable_iff.mp (hpre.inTable o (by simp))
        obtain ⟨hle, hr⟩ := (valuesOk_snoc_iff hseen hv hc h0).mp hpre
        have hloop := (h h0).2 c hc hle (by simpa using hr)
        exact (inBounds_checkOutputValues_iff hpre (hv.snoc hseen hc h0 hle)).mp hloop pre p rest
          rfl (by simpa using hok) hp
    · intro h h0
      refine ⟨h [] o outs rfl (by simpa using hseen) h0, fun c hc hle hr => ?_⟩
      have hpre : ValuesOk (seen ++ [o]) :=
        (valuesOk_snoc_iff hseen hv hc h0).mpr ⟨hle, by simpa using hr⟩
      refine (inBounds_checkOutputValues_iff hpre (hv.snoc hseen hc h0 hle)).mpr ?_
      intro pre p rest heq hok
      exact h (o :: pre) p rest (by rw [heq]; rfl) (by simpa using hok)

/-- When every output has the first output's colour or its fee colour, all are in the tables. -/
theorem inTable_of_checkOutputColors (hcb : tx.isCoinBase = false)
    (h : checkOutputColors tx = .ok ()) : ∀ o ∈ tx.vout, InTable o.nColor := by
  simp only [checkOutputColors, hcb, Bool.false_eq_true, if_false, bind_eq_ok, refuse_eq_ok,
    tableIndex_eq_ok, not_not] at h
  obtain ⟨c, hc, hall⟩ := h
  intro o ho
  cases hv : tx.vout with
  | nil => simp [hv] at ho
  | cons o0 rest =>
    rw [hv] at ho hall
    rcases List.mem_cons.mp ho with rfl | ho
    · have : tx.getColor = o.nColor := by simp [CTransaction.getColor, hv]
      exact inTable_iff.mpr ⟨c, this ▸ hc⟩
    · rcases hall o ho with h | h
      · exact inTable_iff.mpr ⟨_, h⟩
      · exact inTable_iff.mpr ⟨_, h⟩

/-- **When `CheckTransaction` stays inside its tables.** -/
theorem inBounds_checkTransaction_iff (fTestNet : Bool) (nAdjustedTime : Nat)
    (tx : CTransaction) :
    InBounds (checkTransaction fTestNet nAdjustedTime tx) ↔
      ColorsInTable fTestNet nAdjustedTime tx := by
  have hinputs : InBounds (checkInputs tx) := by
    unfold checkInputs
    split <;> simp
  have hvalues : tx.isCoinBase = true →
      (InBounds (checkOutputValues tx.doesMature tx.vout fun _ => 0) ↔ ReachedInTable tx.vout) := by
    intro hcb
    have hmature : tx.doesMature = true := by simp [CTransaction.doesMature, hcb]
    rw [hmature, inBounds_checkOutputValues_iff ValuesOk.nil fun c => by simp]
    simp [ReachedInTable]
  unfold checkTransaction ColorsInTable
  simp only [inBounds_bind, inBounds_refuse, true_and, refuse_eq_ok, forall_const, hinputs,
    inBounds_checkOutputColors_iff, implies_true, and_true]
  by_cases hearly : RefusedEarly fTestNet nAdjustedTime tx
  · simp only [hearly, true_or, iff_true]
    intro h1 h2 h3 h4
    rcases hearly with h | h | h | h
    · exact absurd h h1
    · exact absurd h h2
    · exact absurd h h3
    · exact absurd h h4
  · simp only [hearly, false_or]
    have hnot := hearly
    simp only [RefusedEarly, not_or] at hnot
    obtain ⟨h1, h2, h3, h4⟩ := hnot
    simp only [h1, h2, h3, h4, not_false_eq_true, forall_const]
    cases hcb : tx.isCoinBase with
    | true =>
      have hcolors : checkOutputColors tx = .ok () := by simp [checkOutputColors, hcb]
      simp [hcolors, hvalues hcb]
    | false =>
      simp only [Bool.false_eq_true, false_or, true_and, false_and, or_false]
      constructor
      · exact fun h => h.1
      · exact fun h => ⟨h, fun _ hok =>
          inBounds_checkOutputValues (inTable_of_checkOutputColors hcb hok)⟩

/-- A transaction whose only output has the first colour past the tables. -/
def foreignColorTx : CTransaction :=
  ⟨1, 1470000000, [⟨⟨7, 0⟩, [], 0xffffffff⟩], [⟨1, 58, [op1]⟩], 0, [], 0⟩

/-- **`FEE_COLOR` is read at index 58.** -/
theorem foreignColorTx_out_of_bounds :
    checkTransaction false 1470000000 foreignColorTx = .error (.oob 58) := by
  decide

end Breakout
