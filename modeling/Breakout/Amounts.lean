/-
# Amounts by colour, and fees

`ColorsMap` is the program's map from colours to amounts; the amounts wrap as `int64_t` does.
Beside each loop that fills such a map stands what it computes: the reduction of the exact
total `colorSum` into 64 bits (`get_fillValuesOut`), or the total itself where the loop checks
the money range as it goes (`getValueOut_spec`).

The fees follow `GetMinFee`, `GetServiceFee` and `GetOpRetFee`.  The last one adds its fees up
in an `int` and sorts them through `greater<int>`; both are kept.
-/
import Breakout.Transaction

namespace Breakout

open Lib

/-! ## 1. `ColorsMap` -/

/-- `mapAmounts[nColor] += nAmount`, with the entry made when there is none. -/
def insertAmount (c : Int32) (v : Int64) : List (Int32 × Int64) → List (Int32 × Int64)
  | [] => [(c, v)]
  | (d, w) :: m =>
    if c = d then (d, w + v) :: m
    else if c < d then (c, v) :: (d, w) :: m
    else (d, w) :: insertAmount c v m

/-- The amount under a colour, zero when there is none. -/
def lookupAmount (c : Int32) : List (Int32 × Int64) → Int64
  | [] => 0
  | (d, w) :: m => if c = d then w else lookupAmount c m

/-- The keys ascend, as a `std::map`'s do. -/
def AscendingKeys (m : List (Int32 × Int64)) : Prop := m.Pairwise fun p q => p.1 < q.1

variable {c : Int32} {v : Int64}

theorem mem_insertAmount {p : Int32 × Int64} :
    ∀ {m : List (Int32 × Int64)}, p ∈ insertAmount c v m → p.1 = c ∨ ∃ q ∈ m, q.1 = p.1
  | [], h => by
    rw [insertAmount, List.mem_singleton] at h
    exact Or.inl (by rw [h])
  | (d, w) :: m, h => by
    unfold insertAmount at h
    split_ifs at h with hcd hlt
    · rcases List.mem_cons.mp h with rfl | h
      · exact Or.inl hcd.symm
      · exact Or.inr ⟨p, List.mem_cons_of_mem _ h, rfl⟩
    · rcases List.mem_cons.mp h with rfl | h
      · exact Or.inl rfl
      · exact Or.inr ⟨p, h, rfl⟩
    · rcases List.mem_cons.mp h with rfl | h
      · exact Or.inr ⟨(d, w), List.mem_cons_self, rfl⟩
      · rcases mem_insertAmount h with h | ⟨q, hq, hqp⟩
        · exact Or.inl h
        · exact Or.inr ⟨q, List.mem_cons_of_mem _ hq, hqp⟩

theorem AscendingKeys.insertAmount :
    ∀ {m : List (Int32 × Int64)}, AscendingKeys m → AscendingKeys (insertAmount c v m)
  | [], _ => by simp [AscendingKeys, Breakout.insertAmount]
  | (d, w) :: m, h => by
    obtain ⟨hd, hm⟩ := List.pairwise_cons.mp h
    unfold Breakout.insertAmount
    split_ifs with hcd hlt
    · exact List.pairwise_cons.mpr ⟨hd, hm⟩
    · refine List.pairwise_cons.mpr ⟨?_, h⟩
      intro q hq
      rcases List.mem_cons.mp hq with rfl | hq
      · exact hlt
      · exact Int32.lt_trans hlt (hd q hq)
    · refine List.pairwise_cons.mpr ⟨?_, AscendingKeys.insertAmount hm⟩
      intro q hq
      rcases mem_insertAmount hq with hq | ⟨r, hr, hrq⟩
      · show d < q.1
        rw [hq]
        rcases Int32.lt_or_lt_of_ne hcd with hlt' | hlt'
        · exact absurd hlt' hlt
        · exact hlt'
      · exact hrq ▸ hd r hr

theorem lookupAmount_of_lt :
    ∀ {m : List (Int32 × Int64)}, (∀ p ∈ m, c < p.1) → lookupAmount c m = 0
  | [], _ => rfl
  | (d, w) :: m, h => by
    have hcd : c ≠ d := by
      rintro rfl
      exact Int32.lt_irrefl (h (c, w) List.mem_cons_self)
    rw [lookupAmount, if_neg hcd]
    exact lookupAmount_of_lt fun p hp => h p (List.mem_cons_of_mem _ hp)

/-- Adding to one colour changes that colour's amount and no other. -/
theorem lookupAmount_insertAmount {d : Int32} :
    ∀ {m : List (Int32 × Int64)}, AscendingKeys m →
      lookupAmount d (insertAmount c v m) = lookupAmount d m + if d = c then v else 0
  | [], _ => by
    simp only [insertAmount, lookupAmount]
    split_ifs <;> simp
  | (e, w) :: m, h => by
    obtain ⟨he, hm⟩ := List.pairwise_cons.mp h
    rw [insertAmount]
    by_cases hce : c = e
    · rw [if_pos hce, lookupAmount, lookupAmount, hce]
      split_ifs <;> simp
    · rw [if_neg hce]
      by_cases hlt : c < e
      · -- the entry is new: no key of the map is `c`
        have hnone : lookupAmount c ((e, w) :: m) = 0 := by
          refine lookupAmount_of_lt fun p hp => ?_
          rcases List.mem_cons.mp hp with rfl | hp
          · exact hlt
          · exact Int32.lt_trans hlt (he p hp)
        rw [if_pos hlt, lookupAmount]
        by_cases hdc : d = c
        · rw [if_pos hdc, if_pos hdc, hdc, hnone]
          simp
        · rw [if_neg hdc, if_neg hdc]
          simp
      · rw [if_neg hlt, lookupAmount, lookupAmount, lookupAmount_insertAmount hm]
        by_cases hde : d = e
        · rw [if_pos hde, if_pos hde, if_neg (by rw [hde]; exact Ne.symm hce)]
          simp
        · rw [if_neg hde, if_neg hde]

structure ColorsMap where
  mapAmounts : List (Int32 × Int64)
  ascending : AscendingKeys mapAmounts

namespace ColorsMap

/-- The empty map. -/
def empty : ColorsMap := ⟨[], List.Pairwise.nil⟩

def add (m : ColorsMap) (nColor : Int32) (nAmount : Int64) : ColorsMap :=
  ⟨insertAmount nColor nAmount m.mapAmounts, m.ascending.insertAmount⟩

def get (m : ColorsMap) (nColor : Int32) : Int64 := lookupAmount nColor m.mapAmounts

@[simp] theorem get_empty (c : Int32) : empty.get c = 0 := rfl

theorem get_add (m : ColorsMap) (c d : Int32) (v : Int64) :
    (m.add c v).get d = m.get d + if d = c then v else 0 :=
  lookupAmount_insertAmount m.ascending

end ColorsMap

/-- `for (it …) v[it->first] += it->second;` over the entries of a map. -/
def tally : List (Int32 × Int64) → (Color → Int64) → Run (Color → Int64)
  | [], v => .ok v
  | (n, x) :: m, v => do
    let c ← tableIndex n
    tally m (Function.update v c (v c + x))

/-- A vector the entries were added to has grown, at each colour, by the map's amount. -/
theorem tally_spec {v' : Color → Int64} :
    ∀ {m : List (Int32 × Int64)} {v : Color → Int64}, AscendingKeys m → tally m v = .ok v' →
      ∀ c : Color, v' c = v c + lookupAmount c.toInt32 m
  | [], v, _, h, c => by
    cases h
    simp [lookupAmount]
  | (n, x) :: m, v, hasc, h, c => by
    obtain ⟨hn, hm⟩ := List.pairwise_cons.mp hasc
    simp only [tally, bind_eq_ok] at h
    obtain ⟨d, hd, h⟩ := h
    rw [tableIndex_eq_ok] at hd
    subst hd
    rw [tally_spec hm h c, lookupAmount]
    by_cases hcd : c = d
    · subst hcd
      rw [Function.update_self, if_pos rfl, lookupAmount_of_lt hn]
      simp
    · rw [Function.update_of_ne hcd, if_neg (by simpa using hcd)]

/-! ## 2. Totals of outputs -/

/-- The exact total of the outputs of one colour. -/
def colorSum (outs : List CTxOut) (nColor : Int32) : Int :=
  (outs.map fun o => if o.nColor = nColor then o.nValue.toInt else 0).sum

@[simp] theorem colorSum_nil (n : Int32) : colorSum [] n = 0 := rfl

@[simp] theorem colorSum_cons (o : CTxOut) (l : List CTxOut) (n : Int32) :
    colorSum (o :: l) n = (if o.nColor = n then o.nValue.toInt else 0) + colorSum l n := by
  simp [colorSum]

@[simp] theorem colorSum_append (l l' : List CTxOut) (n : Int32) :
    colorSum (l ++ l') n = colorSum l n + colorSum l' n := by
  simp [colorSum]

theorem colorSum_nonneg {l : List CTxOut} (h : ∀ o ∈ l, 0 ≤ o.nValue.toInt) (n : Int32) :
    0 ≤ colorSum l n := by
  induction l with
  | nil => simp
  | cons o l ih =>
    have ho := h o List.mem_cons_self
    have hl := ih fun p hp => h p (List.mem_cons_of_mem _ hp)
    rw [colorSum_cons]
    split_ifs <;> omega

/-- The loop of `FillValuesOut`; zero amounts make no entry. -/
def addOutputs : List CTxOut → ColorsMap → ColorsMap
  | [], m => m
  | o :: l, m => addOutputs l (if o.nValue ≠ 0 then m.add o.nColor o.nValue else m)

def CTransaction.fillValuesOut (tx : CTransaction) (fFeesOnly : Bool) : ColorsMap :=
  addOutputs (if fFeesOnly then tx.vout.tail else tx.vout) .empty

theorem get_addOutputs (n : Int32) :
    ∀ (l : List CTxOut) (m : ColorsMap),
      (addOutputs l m).get n = m.get n + Int64.ofInt (colorSum l n)
  | [], m => by simp [addOutputs]
  | o :: l, m => by
    have hstep : (if o.nValue ≠ 0 then m.add o.nColor o.nValue else m).get n =
        m.get n + Int64.ofInt (if o.nColor = n then o.nValue.toInt else 0) := by
      by_cases hz : o.nValue = 0
      · rw [if_neg (by simp [hz])]
        split_ifs <;> simp [hz]
      · rw [if_pos hz, ColorsMap.get_add]
        by_cases hn : o.nColor = n
        · rw [if_pos hn, if_pos hn.symm, Int64.ofInt_toInt]
        · rw [if_neg hn, if_neg (Ne.symm hn)]
          rfl
    rw [addOutputs, get_addOutputs n l, hstep, colorSum_cons, Int64.ofInt_add, Int64.add_assoc]

/-- The map holds the exact totals, reduced to 64 bits. -/
theorem get_fillValuesOut (tx : CTransaction) (n : Int32) :
    (tx.fillValuesOut false).get n = Int64.ofInt (colorSum tx.vout n) := by
  rw [CTransaction.fillValuesOut, get_addOutputs]
  simp

/-- The loop of `GetValueOut`. -/
def valueOutLoop (c : Color) : List CTxOut → Int64 → Run Int64
  | [], nValueOut => .ok nValueOut
  | o :: l, nValueOut =>
    if o.nColor ≠ c.toInt32 then valueOutLoop c l nValueOut
    else if moneyRange o.nValue c = false ∨ moneyRange (nValueOut + o.nValue) c = false then
      .error (.throw "CTransaction::GetValueOut() : value out of range")
    else valueOutLoop c l (nValueOut + o.nValue)

def CTransaction.getValueOut (tx : CTransaction) (nColor : Int32) : Run Int64 :=
  if tx.isCoinBase then
    .error (.throw "CTransaction::GetValueOut(): don't use with coinbase")
  else if checkColor nColor = false then
    .error (.throw "CTransaction::GetValueOut(): invalid color")
  else do
    let c ← tableIndex nColor
    valueOutLoop c tx.vout 0

variable {c : Color} {r : Int64} {tx : CTransaction}

/-- Adding inside the money range does not wrap. -/
theorem toInt_add_of_moneyRange {a b : Int64} (ha : moneyRange a c = true)
    (hb : moneyRange b c = true) : (a + b).toInt = a.toInt + b.toInt := by
  have ha := moneyRange_iff.mp ha
  have hb := moneyRange_iff.mp hb
  have hmax := maxMoney_bounds c
  rw [Int64.toInt_add, Int.bmod_eq_of_le (by omega) (by omega)]

theorem valueOutLoop_spec :
    ∀ {l : List CTxOut} {acc : Int64}, moneyRange acc c = true → valueOutLoop c l acc = .ok r →
      moneyRange r c = true ∧ r.toInt = acc.toInt + colorSum l c.toInt32
  | [], acc, hacc, h => by
    cases h
    simp [hacc]
  | o :: l, acc, hacc, h => by
    rw [valueOutLoop] at h
    split at h
    · next hc =>
      obtain ⟨hr, hsum⟩ := valueOutLoop_spec hacc h
      refine ⟨hr, ?_⟩
      rw [hsum, colorSum_cons, if_neg hc]
      omega
    · next hc =>
      split at h
      · cases h
      · next hrange =>
        simp only [not_or, Bool.not_eq_false] at hrange
        obtain ⟨hr, hsum⟩ := valueOutLoop_spec hrange.2 h
        refine ⟨hr, ?_⟩
        rw [hsum, toInt_add_of_moneyRange hacc hrange.1, colorSum_cons, if_pos (not_not.mp hc)]
        omega

/-- **`GetValueOut` returns the exact total of a colour**, and the total is in range. -/
theorem getValueOut_spec (h : tx.getValueOut c.toInt32 = .ok r) :
    moneyRange r c = true ∧ r.toInt = colorSum tx.vout c.toInt32 := by
  unfold CTransaction.getValueOut at h
  split_ifs at h
  simp only [tableIndex_toInt32, bind_eq_ok, Except.ok.injEq, exists_eq_left'] at h
  have h0 : moneyRange 0 c = true := by
    have := maxMoney_bounds c
    rw [moneyRange_iff]
    simpa using this.1
  simpa using valueOutLoop_spec h0 h

/-! ## 3. Fees -/

def maxBlockSize : Nat := 1000000
def maxBlockSizeGen : Nat := maxBlockSize / 2
def maxOpRetLen : Nat := 80

/-- `GetMinFee_mode` -/
inductive GetMinFeeMode where
  | gmfBlock | gmfRelay | gmfSend
deriving DecidableEq, Repr

/-- `CTransaction::GetServiceFee` in the fee colour `c`. -/
def CTransaction.getServiceFee (tx : CTransaction) (c : Color) : Int64 :=
  commentFeePerChar c * Int64.ofNat tx.strTxComment.length

/-- The fee of one `OP_RETURN` output. -/
def opRetFee (c : Color) (script : CScript) : Int64 :=
  if script.length > maxOpRetLen then maxMoney c + 1
  else opRetFeePerChar c * Int64.ofNat script.length

/-- `CTransaction::GetOpRetFee` in the fee colour `c`.  The fees are compared as `int` when they
are sorted, and added up in an `int`. -/
def CTransaction.getOpRetFee (tx : CTransaction) (c : Color) : Int64 :=
  let nFreeSSecrets := (tx.vout.filter fun o => !isOpReturn o.scriptPubKey).length
  let vOpRetFees := (tx.vout.filter fun o => isOpReturn o.scriptPubKey).map fun o =>
    opRetFee c o.scriptPubKey
  let sorted := vOpRetFees.insertionSort fun a b => b.toInt32 ≤ a.toInt32
  ((sorted.take (sorted.length - nFreeSSecrets)).foldl
    (fun (nOpRetFee : Int32) fee => (nOpRetFee.toInt64 + fee).toInt32) 0).toInt64

/-- The dust rule of `GetMinFee`. -/
def dustFee (vout : List CTxOut) (c : Color) (nBaseFee nMinFee : Int64) : Int64 :=
  if nMinFee < nBaseFee then
    if vout.any fun o => decide (o.nValue < cent c) then nBaseFee else nMinFee
  else nMinFee

def CTransaction.getMinFee (tx : CTransaction) (nBlockSize : UInt32) (mode : GetMinFeeMode)
    (nBytes : UInt32) : Run Int64 :=
  if tx.doesMature then .ok 0
  else do
    let c ← tableIndex tx.getColor
    let feeC := feeColor c
    let nBaseFee := if mode = .gmfRelay then minRelayTxFee feeC else minTxFee feeC
    let nNewBlockSize := (nBlockSize + nBytes).toNat
    let nMinFee := dustFee tx.vout c nBaseFee
      ((1 + Int64.ofNat (nBytes.toNat / 1000)) * nBaseFee)
    if nBlockSize ≠ 1 ∧ nNewBlockSize ≥ maxBlockSizeGen then return maxMoney feeC
    else
      let nMinFee :=
        if nBlockSize ≠ 1 ∧ nNewBlockSize ≥ maxBlockSizeGen / 2 then
          nMinFee * Int64.ofNat (maxBlockSizeGen / (maxBlockSizeGen - nNewBlockSize))
        else nMinFee
      let nMinFee :=
        if Fork.fork003 ≤ getFork tx.nTime.toNat then
          nMinFee + tx.getServiceFee feeC + tx.getOpRetFee feeC
        else nMinFee
      return if moneyRange nMinFee feeC then nMinFee else maxMoney feeC

theorem clampFee_nonneg (nMinFee : Int64) (c : Color) :
    0 ≤ (if moneyRange nMinFee c then nMinFee else maxMoney c).toInt := by
  split
  · next hrange => exact (moneyRange_iff.mp hrange).1
  · exact (maxMoney_bounds c).1

/-- A fee is not negative. -/
theorem getMinFee_nonneg {nBlockSize nBytes : UInt32} {mode : GetMinFeeMode} {nMinFee : Int64}
    (h : tx.getMinFee nBlockSize mode nBytes = .ok nMinFee) : 0 ≤ nMinFee.toInt := by
  unfold CTransaction.getMinFee at h
  split at h
  · cases h
    decide
  · obtain ⟨c, -, h⟩ := bind_eq_ok.mp h
    dsimp only at h
    by_cases hfull : nBlockSize ≠ 1 ∧ (nBlockSize + nBytes).toNat ≥ maxBlockSizeGen
    · rw [if_pos hfull] at h
      cases h
      exact (maxMoney_bounds (feeColor c)).1
    · rw [if_neg hfull] at h
      cases h
      exact clampFee_nonneg _ _

end Breakout
