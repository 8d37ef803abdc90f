/-
# Fees for `OP_RETURN` outputs

Every `OP_RETURN` output has a fee by its size, and one that is too large has a fee above all the
money there is.  For each output of another kind one of the smallest of these fees is waived.

`GetOpRetFee` holds the fees in `int64_t`, but sorts them through `greater<int>` and adds them up in
an `int`.  `opRetFee_right_iff` says when that makes no difference: when what is charged fits an
`int`.  The prohibitive fee never does.
-/
import Breakout.Amounts

namespace Breakout

open Lib

/-! ## 1. The fees, exactly -/

/-- How many fees are waived. -/
def CTransaction.freeSecrets (tx : CTransaction) : Nat :=
  (tx.vout.filter fun o => !isOpReturn o.scriptPubKey).length

/-- The fees of the `OP_RETURN` outputs in the fee colour `c`. -/
def CTransaction.opRetFees (tx : CTransaction) (c : Color) : List Int64 :=
  (tx.vout.filter fun o => isOpReturn o.scriptPubKey).map fun o => opRetFee c o.scriptPubKey

/-- What is charged, in exact arithmetic: the fees with the largest first, less the free ones at the
end. -/
def CTransaction.chargedFees (tx : CTransaction) (c : Color) : List Int :=
  let sorted := ((tx.opRetFees c).map Int64.toInt).insertionSort fun a b => b ≤ a
  sorted.take (sorted.length - tx.freeSecrets)

/-- What the code charges: the fees sorted as `int`. -/
def CTransaction.sortedAsInt (tx : CTransaction) (c : Color) : List Int64 :=
  let sorted := (tx.opRetFees c).insertionSort fun a b => b.toInt32 ≤ a.toInt32
  sorted.take (sorted.length - tx.freeSecrets)

theorem getOpRetFee_eq (tx : CTransaction) (c : Color) : tx.getOpRetFee c =
    ((tx.sortedAsInt c).foldl
      (fun (nOpRetFee : Int32) fee => (nOpRetFee.toInt64 + fee).toInt32) 0).toInt64 := rfl

abbrev intMax : Int := 2147483647

theorem opRetFee_bounds (c : Color) (script : CScript) :
    0 ≤ (opRetFee c script).toInt ∧
      (opRetFee c script).toInt ≤ 100000000000000001 := by
  unfold opRetFee
  split_ifs with hlong
  · have hmax := maxMoney_bounds c
    rw [Int64.toInt_add, Int.bmod_eq_of_le (by simp; omega) (by simp; omega)]
    simp
    omega
  · have key : ∀ c : Color, ∀ n < 81, 0 ≤ (opRetFeePerChar c * Int64.ofNat n).toInt ∧
        (opRetFeePerChar c * Int64.ofNat n).toInt ≤ 100000000000000001 := by decide +kernel
    exact key c script.length (by unfold maxOpRetLen at hlong; omega)

variable {tx : CTransaction} {c : Color} {fee : Int64}

theorem opRetFees_nonneg (h : fee ∈ tx.opRetFees c) : 0 ≤ fee.toInt := by
  obtain ⟨o, -, rfl⟩ := List.mem_map.mp h
  exact (opRetFee_bounds c o.scriptPubKey).1

/-! ## 2. Sorting and adding in an `int` -/

theorem toInt_toInt32_of_le {x : Int64} (h0 : 0 ≤ x.toInt) (h : x.toInt ≤ intMax) :
    x.toInt32.toInt = x.toInt := by
  rw [Int64.toInt_toInt32, Int.bmod_eq_of_le (by omega) (by unfold intMax at h; omega)]

/-- Fees that an `int` can hold are sorted by their amounts. -/
theorem map_sorted {fees : List Int64}
    (h : ∀ fee ∈ fees, 0 ≤ fee.toInt ∧ fee.toInt ≤ intMax) :
    (fees.insertionSort fun a b => b.toInt32 ≤ a.toInt32).map Int64.toInt =
      (fees.map Int64.toInt).insertionSort fun a b => b ≤ a := by
  refine List.map_insertionSort _ _ _ _ fun a ha b hb => ?_
  rw [Int32.le_iff_toInt_le, toInt_toInt32_of_le (h a ha).1 (h a ha).2,
    toInt_toInt32_of_le (h b hb).1 (h b hb).2]

/-- The sum of fees that stays below `INT_MAX` is not cut. -/
theorem foldl_toInt32 : ∀ {fees : List Int64} {acc : Int32}, (∀ fee ∈ fees, 0 ≤ fee.toInt) →
    0 ≤ acc.toInt → acc.toInt + (fees.map Int64.toInt).sum ≤ intMax →
    (fees.foldl (fun (nOpRetFee : Int32) fee => (nOpRetFee.toInt64 + fee).toInt32) acc).toInt =
      acc.toInt + (fees.map Int64.toInt).sum
  | [], acc, _, _, _ => by simp
  | fee :: fees, acc, hfees, hacc, hsum => by
    have hfee := hfees fee List.mem_cons_self
    have hrest : 0 ≤ (fees.map Int64.toInt).sum := by
      refine List.sum_nonneg fun x hx => ?_
      obtain ⟨f, hf, rfl⟩ := List.mem_map.mp hx
      exact hfees f (List.mem_cons_of_mem _ hf)
    rw [List.map_cons, List.sum_cons] at hsum ⊢
    have hadd : (acc.toInt64 + fee).toInt = acc.toInt + fee.toInt := by
      rw [Int64.toInt_add, Int32.toInt_toInt64,
        Int.bmod_eq_of_le (by omega) (by unfold intMax at hsum; omega)]
    have hcut : (acc.toInt64 + fee).toInt32.toInt = acc.toInt + fee.toInt := by
      rw [toInt_toInt32_of_le (by omega) (by omega), hadd]
    rw [List.foldl_cons, foldl_toInt32 (fun f hf => hfees f (List.mem_cons_of_mem _ hf))
      (by omega) (by omega), hcut]
    omega

/-- When some fee is charged, none is above the sum of those that are. -/
theorem le_sum_charged (hsome : tx.freeSecrets < (tx.opRetFees c).length)
    (hfee : fee ∈ tx.opRetFees c) :
    fee.toInt ≤ (tx.chargedFees c).sum := by
  unfold CTransaction.chargedFees
  dsimp only
  have hpair := List.pairwise_insertionSort (fun a b : Int => b ≤ a)
    ((tx.opRetFees c).map Int64.toInt)
  have hmem : fee.toInt ∈ ((tx.opRetFees c).map Int64.toInt).insertionSort fun a b => b ≤ a :=
    (List.mem_insertionSort _).mpr (List.mem_map_of_mem hfee)
  have hnonneg : ∀ x ∈ ((tx.opRetFees c).map Int64.toInt).insertionSort fun a b => b ≤ a,
      0 ≤ x := by
    intro x hx
    obtain ⟨f, hf, rfl⟩ := List.mem_map.mp ((List.mem_insertionSort _).mp hx)
    exact opRetFees_nonneg hf
  have hlength : (((tx.opRetFees c).map Int64.toInt).insertionSort fun a b => b ≤ a).length =
      (tx.opRetFees c).length := by rw [List.length_insertionSort, List.length_map]
  generalize ((tx.opRetFees c).map Int64.toInt).insertionSort (fun a b => b ≤ a) = sorted at *
  cases sorted with
  | nil => cases hmem
  | cons top rest =>
    have htop : fee.toInt ≤ top := by
      rcases List.mem_cons.mp hmem with heq | hrest
      · exact heq.le
      · exact (List.pairwise_cons.mp hpair).1 _ hrest
    obtain ⟨m, hm⟩ : ∃ m, (top :: rest).length - tx.freeSecrets = m + 1 :=
      ⟨(top :: rest).length - tx.freeSecrets - 1, by omega⟩
    have hrest : 0 ≤ (rest.take m).sum := List.sum_nonneg fun x hx =>
      hnonneg x (List.mem_cons_of_mem _ (List.mem_of_mem_take hx))
    rw [hm, List.take_succ_cons, List.sum_cons]
    omega

/-- Fees of which the charged ones fit an `int` are sorted alike. -/
theorem map_sortedAsInt (h : (tx.chargedFees c).sum ≤ intMax) :
    (tx.sortedAsInt c).map Int64.toInt = tx.chargedFees c := by
  by_cases hsome : tx.freeSecrets < (tx.opRetFees c).length
  · unfold CTransaction.sortedAsInt
    rw [List.map_take, map_sorted fun fee hfee =>
      ⟨opRetFees_nonneg hfee, (le_sum_charged hsome hfee).trans h⟩]
    simp only [CTransaction.chargedFees, List.length_insertionSort, List.length_map]
  · have hzero : (tx.opRetFees c).length - tx.freeSecrets = 0 := by omega
    simp only [CTransaction.sortedAsInt, CTransaction.chargedFees, List.length_insertionSort,
      List.length_map, hzero, List.take_zero, List.map_nil]

/-- **The fee is exact precisely when it fits an `int`.** -/
theorem getOpRetFee_eq_iff (tx : CTransaction) (c : Color) :
    (tx.getOpRetFee c).toInt = (tx.chargedFees c).sum ↔ (tx.chargedFees c).sum ≤ intMax := by
  rw [getOpRetFee_eq, Int32.toInt_toInt64]
  constructor
  · intro h
    rw [← h]
    exact Int.le_of_lt_add_one (Int32.toInt_lt _)
  · intro h
    have hsorted := map_sortedAsInt h
    have hfees : ∀ fee ∈ tx.sortedAsInt c, 0 ≤ fee.toInt := fun fee hfee =>
      opRetFees_nonneg ((List.mem_insertionSort _).mp (List.mem_of_mem_take hfee))
    have hsum : (0 : Int32).toInt + ((tx.sortedAsInt c).map Int64.toInt).sum ≤ intMax := by
      rw [hsorted]
      simpa using h
    rw [foldl_toInt32 hfees (by decide) hsum, hsorted]
    simp

/-! ## 3. The fee for too much data -/

/-- Are fees added for the services of the transaction?  Not before the third fork, and not for what
is minted. -/
def CTransaction.paysServices (tx : CTransaction) : Bool :=
  decide (Fork.fork003 ≤ getFork tx.nTime.toNat) && !tx.doesMature

/-- **The fee is right** for a transaction of colour `c`: it is the exact one, and data above the size
limit that is charged for costs all the money there is. -/
structure OpRetFeeRight (tx : CTransaction) (c : Color) : Prop where
  exact : (tx.getOpRetFee (feeColor c)).toInt = (tx.chargedFees (feeColor c)).sum
  clamped : tx.getColor = c.toInt32 → tx.paysServices = true →
    (maxMoney (feeColor c)).toInt + 1 ∈ tx.chargedFees (feeColor c) →
      ∀ nBlockSize mode nBytes, tx.getMinFee nBlockSize mode nBytes = .ok (maxMoney (feeColor c))

/-- The prohibitive fee of a fee colour does not fit an `int`. -/
theorem intMax_lt_maxMoney (hc : c ≠ .none) : intMax < (maxMoney (feeColor c)).toInt := by
  have key : ∀ c : Color, c ≠ .none → 2147483647 < (maxMoney (feeColor c)).toInt := by decide
  exact key c hc

/-- Without a colour every fee is clamped to nothing. -/
theorem getMinFee_none (hcolor : tx.getColor = Color.none.toInt32) (hpays : tx.paysServices = true)
    (nBlockSize : UInt32) (mode : GetMinFeeMode) (nBytes : UInt32) :
    tx.getMinFee nBlockSize mode nBytes = .ok (maxMoney .none) := by
  have hmature : tx.doesMature = false := by
    unfold CTransaction.paysServices at hpays
    simpa using (Bool.and_eq_true_iff.mp hpays).2
  have hclamp : ∀ n : Int64, (if moneyRange n .none then n else maxMoney .none) = maxMoney .none := by
    intro n
    split_ifs with hrange
    · have hn := moneyRange_iff.mp hrange
      have hzero : (maxMoney Color.none).toInt = 0 := by decide
      exact Int64.toInt.inj (by omega)
    · rfl
  have hfee : feeColor .none = .none := by decide
  unfold CTransaction.getMinFee
  rw [if_neg (by simp [hmature]), hcolor, tableIndex_toInt32]
  simp only [bind, Except.bind, hfee, hclamp]
  split_ifs <;> rfl

/-- **When the fee for `OP_RETURN` outputs is right**: when what is to be charged fits an `int`. -/
theorem opRetFee_right_iff (tx : CTransaction) (c : Color) :
    OpRetFeeRight tx c ↔ (tx.chargedFees (feeColor c)).sum ≤ intMax := by
  constructor
  · exact fun h => (getOpRetFee_eq_iff tx (feeColor c)).mp h.exact
  · intro h
    refine ⟨(getOpRetFee_eq_iff tx (feeColor c)).mpr h, fun hcolor hpays hover => ?_⟩
    by_cases hc : c = .none
    · subst hc
      exact getMinFee_none hcolor hpays
    · have hnonneg : ∀ x ∈ tx.chargedFees (feeColor c), 0 ≤ x := by
        intro x hx
        have hmem := (List.mem_insertionSort _).mp (List.mem_of_mem_take hx)
        obtain ⟨fee, hfee, rfl⟩ := List.mem_map.mp hmem
        exact opRetFees_nonneg hfee
      have hle := List.single_le_sum hnonneg _ hover
      have := intMax_lt_maxMoney hc
      omega

/-- A transaction whose one output is 81 bytes of data. -/
def oversizeTx : CTransaction :=
  ⟨1, 1502434816, [⟨⟨7, 0⟩, [], 0⟩],
    [⟨0, Color.brx.toInt32, opReturn :: List.replicate 80 op1⟩], 0, [], 0⟩

/-- **Too much data for a small fee**: of the prohibitive fee the last 32 bits are left, so that the
minimum fee is some 13 BRX. -/
theorem oversize_cheap :
    ¬ OpRetFeeRight oversizeTx .brx ∧ (oversizeTx.chargedFees .brx).sum = 1250000000000001 ∧
      oversizeTx.getOpRetFee .brx = 1308106753 ∧
      oversizeTx.getMinFee 1 .gmfBlock 0 = .ok 1309606753 ∧ maxMoney .brx = 1250000000000000 :=
  ⟨fun h => absurd h.exact (by decide +kernel), by decide +kernel⟩

end Breakout
