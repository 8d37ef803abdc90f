/-
# Consolidation

`Consolidate` makes one coin of many.  It takes up to two hundred coins of the colour of the first
into a `set`, adds their values up beside the set, finds coins for the fee behind them where the fee
is of another colour, and tries fee after fee until one is enough.

The set has the comparison the coins are sorted with, which only looks at the colour and the depth.
So of coins of one depth the set keeps one, while the values of all of them are added up: the
transaction pays out what it does not take in.  It is right exactly when no two of the first two
hundred coins are of one depth, and their values add up without overflow (`consolidate_iff`).  Of
the cards there is no consolidation that pays a fee, for there is no SIS behind them
(`no_fee_coins`).
-/
import Breakout.OutputSorter

namespace Breakout

open Lib
open scoped List

variable (K : Crypto)

/-! ## 1. The transaction -/

/-- The coins for the fee: `setFeeCoins` and `nFeeTally`. -/
structure FeeCoins where
  setFeeCoins : List ColoredOutput
  nFeeTally : Int64

/-- The loop that gathers them.  It stops the consolidation at a coin of another colour. -/
def feeCoinsLoop (nFeeColor : Color) (nPayFee : Int64) :
    List ColoredOutput → FeeCoins → Option FeeCoins
  | [], r => some r
  | output :: vCoins, r =>
    if r.nFeeTally < nPayFee then
      if output.color ≠ nFeeColor then none
      else
        feeCoinsLoop nFeeColor nPayFee vCoins
          ⟨insertNew outputSorter output r.setFeeCoins, r.nFeeTally + output.nValue⟩
    else some r

/-- What is read of the node and the wallet.  `sign` is `SignSignature` of an input: the script it
puts in, where it can sign; `nTime` is the time of a new transaction, by the attempt. -/
structure ConsolidateEnv where
  vTransactionFee : Color → Int64
  scriptPubKey : CScript
  sign : CTransaction → Nat → CScript → Option CScript
  nTime : Nat → UInt32

/-- The transaction before it is signed. -/
def unsignedTx (env : ConsolidateEnv) (nTime : UInt32) (nColor : Color)
    (coins : List ColoredOutput) (nPayment nFeeChange : Int64) : CTransaction where
  nVersion := 1
  nTime := nTime
  vin := coins.map fun o => .ofOutPoint (o.outPoint K)
  vout := ⟨nPayment, nColor.toInt32, env.scriptPubKey⟩ ::
    if nFeeChange > 0 then [⟨nFeeChange, (feeColor nColor).toInt32, env.scriptPubKey⟩] else []
  nLockTime := 0
  strTxComment := []
  nServiceTypeID := 0

/-- The fee that is estimated for so many inputs. -/
def estimatedFee (env : ConsolidateEnv) (nColor : Color) (inputs : Nat) : Int64 :=
  let nBytesEst : Int64 := 66 + 45 + Int64.ofNat inputs * 130 +
    if feeColor nColor ≠ nColor then 130 + 45 else 0
  let nNewBlockSize := nBytesEst + Int64.ofNat (maxBlockSize / 25)
  (1 + nBytesEst / 1000) * env.vTransactionFee (feeColor nColor) *
    (Int64.ofNat maxBlockSizeGen / (Int64.ofNat maxBlockSizeGen - nNewBlockSize))

/-- What an attempt comes to: the end, the transaction and the fee it pays, or another fee. -/
inductive FeeAttempt where
  | stop
  | done (wtxNew : CTransaction) (nPayFee : Int64)
  | retry (nPayFee : Int64)

/-- The fee and the change of an attempt, and the coins that pay them. -/
def feePart (vCoins : List ColoredOutput) (g : Gathered) (nColor : Color) (nPayFee : Int64) :
    Option (List ColoredOutput × Int64 × Int64) :=
  let nFeeColor := feeColor nColor
  if nFeeColor ≠ nColor then
    if g.nFeeColorValue < nPayFee then none
    else
      match feeCoinsLoop nFeeColor nPayFee (vCoins.drop (g.nIndexFee.getD 0)) ⟨[], 0⟩ with
      | none => none
      | some r =>
        if r.nFeeTally < nPayFee then none
        else if r.nFeeTally - nPayFee ≤ cent nFeeColor / 10 then some (r.setFeeCoins, r.nFeeTally, 0)
        else some (r.setFeeCoins, nPayFee, r.nFeeTally - nPayFee)
  else if nPayFee > g.nTotalValue then none
  else some ([], nPayFee, 0)

/-- An attempt with a fee. -/
def feeAttempt (env : ConsolidateEnv) (vCoins : List ColoredOutput) (g : Gathered) (nColor : Color)
    (attempt : Nat) (nPayFee : Int64) : Run FeeAttempt :=
  match feePart vCoins g nColor nPayFee with
  | none => .ok .stop
  | some (vFeeSelected, nPayFee, nFeeChange) =>
    let nPayment := if feeColor nColor ≠ nColor then g.nTotalValue else g.nTotalValue - nPayFee
    let coins := g.setCoins ++ vFeeSelected
    match signLoop env.sign 0 (coins.map ColoredOutput.toCOutput)
        (unsignedTx K env (env.nTime attempt) nColor coins nPayment nFeeChange) with
    | none => .ok .stop
    | some wtxNew =>
      let nBytes := wtxNew.serialize.length
      if nBytes ≥ maxBlockSizeGen / 5 then .ok .stop
      else do
        let nMinFee ← wtxNew.getMinFee (maxBlockSize / 50).toUInt32 .gmfSend nBytes.toUInt32
        return if nPayFee ≥ nMinFee then .done wtxNew nPayFee else .retry nMinFee

/-- Attempt after attempt. -/
def feeAttempts (env : ConsolidateEnv) (vCoins : List ColoredOutput) (g : Gathered)
    (nColor : Color) : Nat → Nat → Int64 → Run (Option (CTransaction × Int64))
  | 0, _, _ => .ok none
  | fuel + 1, attempt, nPayFee => do
    match ← feeAttempt K env vCoins g nColor attempt nPayFee with
    | .stop => return none
    | .done wtxNew nPayFee => return some (wtxNew, nPayFee)
    | .retry nPayFee => feeAttempts env vCoins g nColor fuel (attempt + 1) nPayFee

/-- **A round of `Consolidate`**, from the available coins to the transaction it commits and the fee
that it pays. -/
def consolidate (env : ConsolidateEnv) (S : Sorting) (fuel : Nat) (vCoins : List ColoredOutput) :
    Run (Option (CTransaction × Int64)) :=
  match S.sort vCoins with
  | [] => .ok none
  | output :: rest =>
    let nColor := output.color
    let g := gatherLoop nColor 0 (output :: rest) .start
    if feeColor nColor ≠ nColor ∧ g.nIndexFee = none then .ok none
    else
      feeAttempts K env (output :: rest) g nColor fuel 0
        (estimatedFee env nColor g.setCoins.length)

/-! ## 2. What the transaction should be -/

/-- Coins that can be consolidated: each is there once. -/
structure AvailableOutputs where
  coins : List ColoredOutput
  nodup : (coins.map fun o => o.outPoint K).Nodup

/-- The coins that the loop puts into the set, where some are in already. -/
def selectedCoins (nColor : Color) : List ColoredOutput → List ColoredOutput → List ColoredOutput
  | [], _ => []
  | output :: vCoins, setCoins =>
    if output.color = nColor ∧ setCoins.length < maxInputs then
      output :: selectedCoins nColor vCoins (insertNew outputSorter output setCoins)
    else selectedCoins nColor vCoins setCoins

/-- What the inputs of a transaction are worth of a colour. -/
def inputTotal (vCoins : List ColoredOutput) (vin : List CTxIn) (d : Color) : Int :=
  (vin.map fun txin =>
    match vCoins.find? fun o => decide (o.outPoint K = txin.prevout) with
    | some o => if o.color = d then o.nValue.toInt else 0
    | none => 0).sum

/-- **A consolidation that is right.**  Every selected coin is spent, none twice, and beside them
there are none but fee coins; and the inputs are, colour by colour, what the outputs and the fee
are. -/
structure ConsolidatedRight (sorted : List ColoredOutput) (nColor : Color) (wtxNew : CTransaction)
    (nPayFee : Int64) : Prop where
  once : (wtxNew.vin.map CTxIn.prevout).Nodup
  spent : ∀ o ∈ selectedCoins nColor sorted [], o.outPoint K ∈ wtxNew.vin.map CTxIn.prevout
  only : ∀ txin ∈ wtxNew.vin, ∃ o ∈ sorted, o.outPoint K = txin.prevout ∧
    (o ∈ selectedCoins nColor sorted [] ∨ o.color = feeColor nColor)
  balanced : ∀ d : Color, inputTotal K sorted wtxNew.vin d = colorSum wtxNew.vout d.toInt32 +
    if d = feeColor nColor then nPayFee.toInt else 0

/-- The colour of the first coin. -/
def firstColor (sorted : List ColoredOutput) : Color :=
  match sorted with
  | [] => .none
  | output :: _ => output.color

/-- The first two hundred coins of a colour. -/
def firstCoins (nColor : Color) (sorted : List ColoredOutput) : List ColoredOutput :=
  (sorted.filter fun o => decide (o.color = nColor)).take maxInputs

/-! ## 3. The set -/

/-- The list is in order. -/
abbrev Sorted (vCoins : List ColoredOutput) : Prop :=
  vCoins.Pairwise fun a b => outputSorter b a = false

/-- Every coin comes before those behind it. -/
abbrev Increasing (vCoins : List ColoredOutput) : Prop :=
  vCoins.Pairwise fun a b => outputSorter a b = true

/-- **The loop puts the selected coins in, and adds their values up.** -/
theorem gatherLoop_spec (nColor : Color) (vCoins : List ColoredOutput) (idx : Nat) (g : Gathered) :
    (gatherLoop nColor idx vCoins g).setCoins =
        insertAll outputSorter (selectedCoins nColor vCoins g.setCoins) g.setCoins ∧
      (gatherLoop nColor idx vCoins g).nTotalValue = g.nTotalValue +
        Int64.ofInt ((selectedCoins nColor vCoins g.setCoins).map fun o => o.nValue.toInt).sum := by
  induction vCoins generalizing idx g with
  | nil => exact ⟨rfl, by simp [gatherLoop, selectedCoins]⟩
  | cons output vCoins ih =>
    obtain ⟨hset, htotal⟩ := ih (idx + 1) (g.step nColor idx output)
    rw [gatherLoop, selectedCoins]
    by_cases hcolor : output.color = nColor
    · by_cases hroom : g.setCoins.length < maxInputs
      · have hstep : g.step nColor idx output =
            { g with
              setCoins := insertNew outputSorter output g.setCoins
              nTotalValue := g.nTotalValue + output.nValue } := by
          rw [Gathered.step, if_pos hcolor, if_pos hroom]
        rw [hstep] at hset htotal ⊢
        rw [if_pos ⟨hcolor, hroom⟩, List.map_cons, List.sum_cons, Int64.ofInt_add,
          Int64.ofInt_toInt, ← Int64.add_assoc]
        exact ⟨hset, htotal⟩
      · have hstep : g.step nColor idx output = g := by
          rw [Gathered.step, if_pos hcolor, if_neg hroom]
        rw [hstep] at hset htotal ⊢
        rw [if_neg fun h => hroom h.2]
        exact ⟨hset, htotal⟩
    · have hstep : (g.step nColor idx output).setCoins = g.setCoins ∧
          (g.step nColor idx output).nTotalValue = g.nTotalValue := by
        rw [Gathered.step, if_neg hcolor]
        split <;> exact ⟨rfl, rfl⟩
      rw [hstep.1] at hset htotal
      rw [hstep.2] at htotal
      rw [if_neg fun h => hcolor h.1]
      exact ⟨hset, htotal⟩

/-- The coins come before those of a set, and before one another. -/
def After (setCoins coins : List ColoredOutput) : Prop :=
  (∀ a ∈ setCoins, ∀ o ∈ coins, outputSorter a o = true) ∧ Increasing coins

theorem after_cons {setCoins coins : List ColoredOutput} {o : ColoredOutput} :
    After setCoins (o :: coins) ↔
      (∀ a ∈ setCoins, outputSorter a o = true) ∧ After (setCoins ++ [o]) coins := by
  unfold After Increasing
  simp only [List.forall_mem_cons, List.forall_mem_append, List.pairwise_cons, forall_and]
  tauto

theorem selectedCoins_of_full {nColor : Color} (vCoins : List ColoredOutput)
    {setCoins : List ColoredOutput} (h : ¬ setCoins.length < maxInputs) :
    selectedCoins nColor vCoins setCoins = [] := by
  induction vCoins with
  | nil => rfl
  | cons output vCoins ih => rw [selectedCoins, if_neg fun hboth => h hboth.2, ih]

/-- **The selected coins are the first of their colour**, as far as the set has room, or there are
two of one depth both among the ones and among the others. -/
theorem selectedCoins_cases {nColor : Color} {vCoins setCoins : List ColoredOutput}
    (hset : ∀ o ∈ vCoins, ∀ a ∈ setCoins, outputSorter o a = false) (hsorted : Sorted vCoins) :
    selectedCoins nColor vCoins setCoins =
        (vCoins.filter fun o => decide (o.color = nColor)).take (maxInputs - setCoins.length) ∨
      ¬ After setCoins (selectedCoins nColor vCoins setCoins) ∧
        ¬ After setCoins ((vCoins.filter fun o => decide (o.color = nColor)).take
          (maxInputs - setCoins.length)) := by
  induction vCoins generalizing setCoins with
  | nil => exact Or.inl List.take_nil.symm
  | cons output vCoins ih =>
    obtain ⟨hfirst, hrest⟩ := List.forall_mem_cons.mp hset
    obtain ⟨hhead, htail⟩ := List.pairwise_cons.mp hsorted
    by_cases hcolor : output.color = nColor
    swap
    · rw [selectedCoins, if_neg fun h => hcolor h.1,
        List.filter_cons, if_neg (by simpa using hcolor)]
      exact ih hrest htail
    by_cases hroom : setCoins.length < maxInputs
    swap
    · left
      rw [selectedCoins_of_full _ hroom, Nat.sub_eq_zero_of_le (not_lt.mp hroom), List.take_zero]
    obtain ⟨room, hroom'⟩ : ∃ room, maxInputs - setCoins.length = room + 1 :=
      ⟨maxInputs - setCoins.length - 1, by omega⟩
    rw [selectedCoins, if_pos ⟨hcolor, hroom⟩, List.filter_cons, if_pos (decide_eq_true hcolor),
      hroom', List.take_succ_cons]
    rcases insertNew_of_forall hfirst with ⟨heq, hall⟩ | ⟨heq, a, ha, hnot⟩
    · have hset' : ∀ o ∈ vCoins, ∀ a ∈ setCoins ++ [output], outputSorter o a = false := by
        intro o ho a ha
        rcases List.mem_append.mp ha with ha | ha
        · exact hrest o ho a ha
        · rw [List.mem_singleton.mp ha]
          exact hhead o ho
      have hlen : maxInputs - (setCoins ++ [output]).length = room := by
        rw [List.length_append, List.length_singleton]
        omega
      rw [heq]
      have hcases := ih hset' htail
      rw [hlen] at hcases
      refine hcases.imp (fun h => by rw [h]) fun h => ?_
      exact ⟨fun hafter => h.1 (after_cons.mp hafter).2, fun hafter => h.2 (after_cons.mp hafter).2⟩
    · -- a coin in the set compares equal to this one, which is the next in both lists
      right
      have hnone : ∀ coins, ¬ After setCoins (output :: coins) := fun coins hafter =>
        Bool.false_ne_true (hnot.symm.trans ((after_cons.mp hafter).1 a ha))
      exact ⟨hnone _, hnone _⟩

variable {K} {env : ConsolidateEnv} {S : Sorting} {vCoins : List ColoredOutput} {nColor : Color}

/-- Of a colour in order, each coin comes before those behind it exactly when no two have one depth.
-/
theorem increasing_iff {coins : List ColoredOutput} (hsorted : Sorted coins)
    (hcolor : ∀ o ∈ coins, o.color = nColor) :
    Increasing coins ↔ (coins.map fun o => o.nDepth).Nodup := by
  rw [List.Nodup, List.pairwise_map]
  constructor
  · intro hincreasing
    refine hincreasing.imp_of_mem fun ha hb hlt => ?_
    rcases outputSorter_iff.mp hlt with hless | ⟨-, hless⟩
    · rw [hcolor _ ha, hcolor _ hb] at hless
      exact absurd hless (lt_irrefl _)
    · exact hless.ne
  · intro hdepths
    refine (hdepths.and hsorted).imp_of_mem fun ha hb h => outputSorter_iff.mpr (Or.inr ⟨?_, ?_⟩)
    · rw [hcolor _ ha, hcolor _ hb]
    · rcases outputSorter_eq_false.mp h.2 with hless | ⟨-, hle⟩
      · rw [hcolor _ ha, hcolor _ hb] at hless
        exact absurd hless (lt_irrefl _)
      · exact lt_of_le_of_ne hle h.1

variable {o : ColoredOutput} {g : Gathered} {nPayFee fee : Int64} {attempt fuel : Nat}
  {wtxNew : CTransaction}

theorem mem_firstCoins {vCoins : List ColoredOutput} (h : o ∈ firstCoins nColor vCoins) :
    o ∈ vCoins ∧ o.color = nColor := by
  obtain ⟨hmem, hcolor⟩ := List.mem_filter.mp (List.mem_of_mem_take h)
  exact ⟨hmem, of_decide_eq_true hcolor⟩

theorem selectedCoins_sublist (vCoins setCoins : List ColoredOutput) :
    (selectedCoins nColor vCoins setCoins).Sublist vCoins := by
  induction vCoins generalizing setCoins with
  | nil => exact List.Sublist.refl _
  | cons output vCoins ih =>
    rw [selectedCoins]
    split
    · exact (ih _).cons_cons _
    · exact (ih _).cons _

theorem color_of_mem_selectedCoins {vCoins setCoins : List ColoredOutput}
    (h : o ∈ selectedCoins nColor vCoins setCoins) : o.color = nColor := by
  induction vCoins generalizing setCoins with
  | nil => exact absurd h List.not_mem_nil
  | cons output vCoins ih =>
    rw [selectedCoins] at h
    split at h
    · next hboth =>
      rcases List.mem_cons.mp h with rfl | h
      · exact hboth.1
      · exact ih h
    · exact ih h

/-- **The set holds all the selected coins** exactly when no two of the first two hundred have one
depth, and then these are the coins. -/
theorem set_iff {vCoins : List ColoredOutput} (hsorted : Sorted vCoins) :
    ((insertAll outputSorter (selectedCoins nColor vCoins []) []).length =
        (selectedCoins nColor vCoins []).length ↔
      ((firstCoins nColor vCoins).map fun o => o.nDepth).Nodup) ∧
    (((firstCoins nColor vCoins).map fun o => o.nDepth).Nodup →
      selectedCoins nColor vCoins [] = firstCoins nColor vCoins ∧
        insertAll outputSorter (selectedCoins nColor vCoins []) [] = firstCoins nColor vCoins) := by
  have hselected : Sorted (selectedCoins nColor vCoins []) :=
    hsorted.sublist (selectedCoins_sublist vCoins [])
  have hfirst : Sorted (firstCoins nColor vCoins) :=
    hsorted.sublist ((List.take_sublist _ _).trans List.filter_sublist)
  have hafter : ∀ coins : List ColoredOutput, After [] coins ↔ Increasing coins := fun coins =>
    and_iff_right fun _ => nofun
  have hnone : ∀ coins : List ColoredOutput, ∀ o ∈ coins, ∀ a ∈ ([] : List ColoredOutput),
      outputSorter o a = false := fun _ _ _ _ => nofun
  obtain ⟨hiff, heq⟩ := insertAll_iff (hnone _) hselected
  rw [List.length_nil, Nat.zero_add] at hiff heq
  have hset : (insertAll outputSorter (selectedCoins nColor vCoins []) []).length =
      (selectedCoins nColor vCoins []).length ↔ Increasing (selectedCoins nColor vCoins []) :=
    hiff.trans (and_iff_right fun _ => nofun)
  have hdepths := increasing_iff hfirst fun o ho => (mem_firstCoins ho).2
  have hcases := @selectedCoins_cases nColor vCoins [] (hnone _) hsorted
  rw [hafter, hafter] at hcases
  rw [hset, ← hdepths]
  rcases hcases with hsame | ⟨hnot, hnot'⟩
  · have hsame : selectedCoins nColor vCoins [] = firstCoins nColor vCoins := hsame
    rw [hsame]
    refine ⟨Iff.rfl, fun h => ⟨rfl, ?_⟩⟩
    rw [hsame] at hset heq
    exact heq (hset.mpr h)
  · exact ⟨iff_of_false hnot hnot', fun h => absurd h hnot'⟩

/-! ## 4. What is paid -/

/-- **The fee part**, where there are no coins of another fee colour: no coins for the fee, and of a
fee that is not negative, one that the coins can pay; or none, where it is in another colour. -/
theorem feePart_spec {vCoins coins : List ColoredOutput} {change : Int64}
    (hnone : feeColor nColor ≠ nColor → g.nFeeColorValue = 0)
    (h : feePart vCoins g nColor nPayFee = some (coins, fee, change)) (hfee : 0 ≤ fee.toInt) :
    coins = [] ∧ change = 0 ∧
      if feeColor nColor ≠ nColor then fee = 0 else fee.toInt ≤ g.nTotalValue.toInt := by
  unfold feePart at h
  dsimp only at h
  by_cases hother : feeColor nColor ≠ nColor
  · rw [if_pos hother, hnone hother] at h
    rw [if_pos hother]
    by_cases hpay : (0 : Int64) < nPayFee
    · rw [if_pos hpay] at h
      cases h
    · have hloop : ∀ coins : List ColoredOutput,
          feeCoinsLoop (feeColor nColor) nPayFee coins ⟨[], 0⟩ = some ⟨[], 0⟩ := by
        intro coins
        cases coins with
        | nil => rfl
        | cons output coins => rw [feeCoinsLoop, if_neg hpay]
      rw [if_neg hpay, hloop] at h
      dsimp only at h
      rw [if_neg hpay] at h
      split at h
      · cases h
        exact ⟨rfl, rfl, rfl⟩
      · next hchange =>
        cases h
        -- a fee of zero leaves no change
        have hzero : nPayFee = 0 := by
          rw [Int64.lt_iff_toInt_lt] at hpay
          have h0 : (0 : Int64).toInt = 0 := rfl
          exact Int64.toInt_inj.mp (by omega)
        have hcent : ∀ c : Color, (0 : Int64) - 0 ≤ cent c / 10 := by decide
        rw [hzero] at hchange
        exact absurd (hcent _) hchange
  · rw [if_neg hother] at h
    rw [if_neg hother]
    split at h
    · cases h
    · next hpay =>
      cases h
      exact ⟨rfl, rfl, by rw [gt_iff_lt, Int64.lt_iff_toInt_lt] at hpay; omega⟩

/-- Without coins of the fee colour, nothing is counted of it. -/
theorem gatherLoop_nFeeColorValue {vCoins : List ColoredOutput} (idx : Nat) (g : Gathered)
    (h : ∀ o ∈ vCoins, o.color ≠ feeColor nColor) :
    (gatherLoop nColor idx vCoins g).nFeeColorValue = g.nFeeColorValue := by
  induction vCoins generalizing idx g with
  | nil => rfl
  | cons output vCoins ih =>
    obtain ⟨hfirst, hrest⟩ := List.forall_mem_cons.mp h
    rw [gatherLoop, ih _ _ hrest, Gathered.step, if_neg hfirst]
    split
    · split <;> rfl
    · split <;> rfl

/-- In order, no coin is of a colour above the first, so there are no fee coins behind a card. -/
theorem no_fee_coins {output : ColoredOutput} {rest : List ColoredOutput}
    (hsorted : Sorted (output :: rest)) (hother : feeColor output.color ≠ output.color) :
    ∀ o ∈ output :: rest, o.color ≠ feeColor output.color := by
  have hdeck := feeColor_other.mp hother
  rw [feeColor_card hdeck]
  refine List.forall_mem_cons.mpr ⟨(card_lt_sis hdeck).ne, fun o ho hsis => ?_⟩
  rcases outputSorter_eq_false.mp ((List.pairwise_cons.mp hsorted).1 o ho) with hless | ⟨heq, -⟩
  · rw [hsis] at hless
    exact absurd hless (card_lt_sis hdeck).asymm
  · exact (card_lt_sis hdeck).ne (heq.symm.trans hsis)

/-- A transaction that pays a fee out of the coins of a set, and nothing from beside it. -/
structure PaidFrom (K : Crypto) (env : ConsolidateEnv) (nColor : Color) (g : Gathered)
    (wtxNew : CTransaction) (nPayFee : Int64) : Prop where
  vin : wtxNew.vin.map CTxIn.prevout = g.setCoins.map fun o => o.outPoint K
  vout : ∃ nPayment : Int64, wtxNew.vout = [⟨nPayment, nColor.toInt32, env.scriptPubKey⟩] ∧
    nPayment.toInt + nPayFee.toInt = g.nTotalValue.toInt
  fee : feeColor nColor ≠ nColor → nPayFee = 0

/-- **An attempt that comes to a transaction.** -/
theorem feeAttempt_done {vCoins : List ColoredOutput}
    (hnone : feeColor nColor ≠ nColor → g.nFeeColorValue = 0)
    (h : feeAttempt K env vCoins g nColor attempt nPayFee = .ok (.done wtxNew fee)) :
    PaidFrom K env nColor g wtxNew fee := by
  unfold feeAttempt at h
  cases hpart : feePart vCoins g nColor nPayFee with
  | none =>
    rw [hpart] at h
    cases h
  | some r =>
    obtain ⟨vFeeSelected, paid, nFeeChange⟩ := r
    rw [hpart] at h
    dsimp only at h
    generalize hpay : (if feeColor nColor ≠ nColor then g.nTotalValue else g.nTotalValue - paid) =
      nPayment at h
    generalize hcoins : g.setCoins ++ vFeeSelected = coins at h
    cases hsign : signLoop env.sign 0 (coins.map ColoredOutput.toCOutput)
        (unsignedTx K env (env.nTime attempt) nColor coins nPayment nFeeChange) with
    | none =>
      rw [hsign] at h
      cases h
    | some wtx =>
      rw [hsign] at h
      dsimp only at h
      by_cases hsize : wtx.serialize.length ≥ maxBlockSizeGen / 5
      · rw [if_pos hsize] at h
        cases h
      rw [if_neg hsize] at h
      obtain ⟨nMinFee, hmin, h⟩ := bind_eq_ok.mp h
      by_cases henough : paid ≥ nMinFee
      swap
      · rw [if_neg henough] at h
        cases h
      rw [if_pos henough] at h
      cases h
      have h0 : 0 ≤ fee.toInt := (getMinFee_nonneg hmin).trans (Int64.le_iff_toInt_le.mp henough)
      obtain ⟨rfl, rfl, hfee⟩ := feePart_spec hnone hpart h0
      obtain ⟨hvout, hvin⟩ := signLoop_spec hsign
      refine ⟨?_, ⟨nPayment, hvout.trans rfl, ?_⟩, fun hother => ?_⟩
      · rw [hvin, ← hcoins, List.append_nil]
        exact (List.map_map ..).trans rfl
      · by_cases hother : feeColor nColor ≠ nColor
        · rw [if_pos hother] at hfee hpay
          rw [← hpay, hfee]
          exact add_zero _
        · rw [if_neg hother] at hfee hpay
          have hhigh := g.nTotalValue.toInt_lt
          rw [← hpay, Int64.toInt_sub, Int.bmod_eq_of_le (by omega) (by omega)]
          omega
      · rw [if_pos hother] at hfee
        exact hfee

theorem feeAttempts_some {vCoins : List ColoredOutput}
    (hnone : feeColor nColor ≠ nColor → g.nFeeColorValue = 0)
    (h : feeAttempts K env vCoins g nColor fuel attempt nPayFee = .ok (some (wtxNew, fee))) :
    PaidFrom K env nColor g wtxNew fee := by
  induction fuel generalizing attempt nPayFee with
  | zero => cases h
  | succ fuel ih =>
    rw [feeAttempts] at h
    obtain ⟨r, hr, h⟩ := bind_eq_ok.mp h
    cases r with
    | stop => cases h
    | done tx fee' =>
      cases h
      exact feeAttempt_done hnone hr
    | retry nMinFee => exact ih h

/-- **What a round comes to.** -/
theorem consolidate_some (h : consolidate K env S fuel vCoins = .ok (some (wtxNew, fee))) :
    ∃ output rest, S.sort vCoins = output :: rest ∧
      PaidFrom K env output.color (gatherLoop output.color 0 (output :: rest) .start) wtxNew fee := by
  unfold consolidate at h
  cases hsort : S.sort vCoins with
  | nil =>
    rw [hsort] at h
    cases h
  | cons output rest =>
    rw [hsort] at h
    dsimp only at h
    have hsorted : Sorted (output :: rest) := hsort ▸ S.sorted vCoins
    split at h
    · cases h
    · refine ⟨output, rest, rfl, feeAttempts_some (fun hother => ?_) h⟩
      exact gatherLoop_nFeeColorValue 0 .start (no_fee_coins hsorted hother)

/-! ## 5. When the consolidation is right -/

section Totals

variable {A : List ColoredOutput} (hnodup : (A.map fun o => o.outPoint K).Nodup)
include hnodup

theorem eq_of_outPoint {a b : ColoredOutput} (ha : a ∈ A) (hb : b ∈ A)
    (h : a.outPoint K = b.outPoint K) : a = b := List.inj_on_of_nodup_map hnodup ha hb h

/-- Inputs that spend coins are worth what the coins are. -/
theorem inputTotal_eq {vin : List CTxIn} {coins : List ColoredOutput} (hsub : ∀ o ∈ coins, o ∈ A)
    (hvin : vin.map CTxIn.prevout = coins.map fun o => o.outPoint K) (d : Color) :
    inputTotal K A vin d = (coins.map fun o => if o.color = d then o.nValue.toInt else 0).sum := by
  have hfind : ∀ o ∈ coins, A.find? (fun a => decide (a.outPoint K = o.outPoint K)) = some o := by
    intro o ho
    cases hfind : A.find? fun a => decide (a.outPoint K = o.outPoint K) with
    | none => exact absurd (decide_eq_true rfl) (List.find?_eq_none.mp hfind o (hsub o ho))
    | some a =>
      have hsame : a.outPoint K = o.outPoint K := by simpa using List.find?_some hfind
      rw [eq_of_outPoint hnodup (List.mem_of_find?_eq_some hfind) (hsub o ho) hsame]
  have hmap : (fun txin : CTxIn =>
      match A.find? fun a => decide (a.outPoint K = txin.prevout) with
      | some o => if o.color = d then o.nValue.toInt else 0
      | none => 0) =
      (fun prevout : COutPoint =>
        match A.find? fun a => decide (a.outPoint K = prevout) with
        | some o => if o.color = d then o.nValue.toInt else 0
        | none => 0) ∘ CTxIn.prevout := rfl
  rw [inputTotal, hmap, ← List.map_map, hvin, List.map_map]
  refine congrArg List.sum (List.map_congr_left fun o ho => ?_)
  rw [Function.comp_apply, hfind o ho]

/-- **A transaction paid from the set** is right exactly when the set holds all the selected coins
and their values add up without overflow. -/
theorem PaidFrom.right_iff {g : Gathered} {wtxNew : CTransaction} {fee : Int64} (hsorted : Sorted A)
    (hpaid : PaidFrom K env nColor g wtxNew fee)
    (hset : g.setCoins = insertAll outputSorter (selectedCoins nColor A []) [])
    (htotal : g.nTotalValue =
      Int64.ofInt ((selectedCoins nColor A []).map fun o => o.nValue.toInt).sum) :
    ConsolidatedRight K A nColor wtxNew fee ↔
      ((firstCoins nColor A).map fun o => o.nDepth).Nodup ∧
        FitsInt64 ((firstCoins nColor A).map fun o => o.nValue.toInt).sum := by
  obtain ⟨hlength, hfirst⟩ := @set_iff nColor A hsorted
  obtain ⟨nPayment, hvout, hpays⟩ := hpaid.vout
  have hvin := hpaid.vin
  have hmem : ∀ o ∈ g.setCoins, o ∈ selectedCoins nColor A [] := by
    intro o ho
    rw [hset] at ho
    exact (mem_insertAll ho).resolve_right List.not_mem_nil
  have hsub : ∀ o ∈ g.setCoins, o ∈ A := fun o ho =>
    (selectedCoins_sublist A []).subset (hmem o ho)
  have hbalanced : (∀ d : Color, inputTotal K A wtxNew.vin d = colorSum wtxNew.vout d.toInt32 +
      if d = feeColor nColor then fee.toInt else 0) ↔
      (g.setCoins.map fun o => o.nValue.toInt).sum = g.nTotalValue.toInt := by
    have hinput : ∀ d : Color, inputTotal K A wtxNew.vin d =
        if nColor = d then (g.setCoins.map fun o => o.nValue.toInt).sum else 0 := by
      intro d
      rw [inputTotal_eq hnodup hsub hvin]
      by_cases hd : nColor = d
      · rw [if_pos hd]
        refine congrArg List.sum (List.map_congr_left fun o ho => ?_)
        rw [if_pos ((color_of_mem_selectedCoins (hmem o ho)).trans hd)]
      · rw [if_neg hd]
        refine List.sum_eq_zero fun x hx => ?_
        obtain ⟨o, ho, rfl⟩ := List.mem_map.mp hx
        rw [if_neg fun h => hd ((color_of_mem_selectedCoins (hmem o ho)).symm.trans h)]
    have hout : ∀ d : Color, colorSum wtxNew.vout d.toInt32 =
        if nColor = d then nPayment.toInt else 0 := by
      intro d
      rw [hvout, colorSum_cons, colorSum_nil, add_zero]
      exact if_congr Color.toInt32_inj rfl rfl
    have hfee : ∀ d : Color, (if d = feeColor nColor then fee.toInt else 0) =
        if nColor = d then fee.toInt else 0 := by
      intro d
      by_cases hother : feeColor nColor ≠ nColor
      · rw [hpaid.fee hother]
        exact (ite_self _).trans (ite_self _).symm
      · rw [not_not.mp hother]
        exact if_congr eq_comm rfl rfl
    rw [← hpays]
    constructor
    · intro h
      have hown := h nColor
      rw [hinput, hout, hfee, if_pos rfl, if_pos rfl, if_pos rfl] at hown
      exact hown
    · intro h d
      rw [hinput, hout, hfee]
      by_cases hd : nColor = d
      · rw [if_pos hd, if_pos hd, if_pos hd, h]
      · rw [if_neg hd, if_neg hd, if_neg hd, add_zero]
  constructor
  · rintro ⟨-, hspent, -, hbalance⟩
    have hsubset : selectedCoins nColor A [] ⊆ g.setCoins := by
      intro o ho
      have hprevout := hspent o ho
      rw [hvin] at hprevout
      obtain ⟨a, ha, hsame⟩ := List.mem_map.mp hprevout
      have hoA := (selectedCoins_sublist A []).subset ho
      rw [← eq_of_outPoint hnodup (hsub a ha) hoA hsame]
      exact ha
    have hdistinct : (selectedCoins nColor A []).Nodup :=
      hnodup.of_map.sublist (selectedCoins_sublist A [])
    have hle := (hdistinct.subperm hsubset).length_le
    have hge := length_insertAll_le outputSorter (selectedCoins nColor A []) []
    rw [hset] at hle
    rw [List.length_nil, Nat.zero_add] at hge
    have hdepths := hlength.mp (le_antisymm hge hle)
    obtain ⟨hselected, hall⟩ := hfirst hdepths
    refine ⟨hdepths, toInt_ofInt_eq_iff.mp ?_⟩
    have hsum := hbalanced.mp hbalance
    rw [htotal, hset, hall, hselected] at hsum
    exact hsum.symm
  · rintro ⟨hdepths, hfits⟩
    obtain ⟨hselected, hall⟩ := hfirst hdepths
    have hcoins : g.setCoins = selectedCoins nColor A [] := (hset.trans hall).trans hselected.symm
    refine ⟨?_, fun o ho => ?_, fun txin htxin => ?_, hbalanced.mpr ?_⟩
    · rw [hvin, hcoins]
      exact hnodup.sublist ((selectedCoins_sublist A []).map _)
    · rw [hvin, hcoins]
      exact List.mem_map_of_mem ho
    · have hprevout : txin.prevout ∈ wtxNew.vin.map CTxIn.prevout := List.mem_map_of_mem htxin
      rw [hvin, hcoins] at hprevout
      obtain ⟨o, ho, hsame⟩ := List.mem_map.mp hprevout
      exact ⟨o, (selectedCoins_sublist A []).subset ho, hsame, Or.inl ho⟩
    · rw [htotal, hcoins, hselected, toInt_ofInt_of_fits hfits]

end Totals

/-- **When a consolidation is right.**  The transaction spends every selected coin once and pays,
colour by colour, what it takes in, exactly when no two of the first two hundred coins of its colour
are of one depth, and these coins add up without overflow. -/
theorem consolidate_iff (env : ConsolidateEnv) (S : Sorting) (fuel : Nat) (A : AvailableOutputs K)
    {wtxNew : CTransaction} {nPayFee : Int64}
    (h : consolidate K env S fuel A.coins = .ok (some (wtxNew, nPayFee))) :
    ConsolidatedRight K (S.sort A.coins) (firstColor (S.sort A.coins)) wtxNew nPayFee ↔
      ((firstCoins (firstColor (S.sort A.coins)) (S.sort A.coins)).map fun o => o.nDepth).Nodup ∧
        FitsInt64 ((firstCoins (firstColor (S.sort A.coins)) (S.sort A.coins)).map fun o =>
          o.nValue.toInt).sum := by
  obtain ⟨output, rest, hsort, hpaid⟩ := consolidate_some h
  have hnodup : ((output :: rest).map fun o => o.outPoint K).Nodup := by
    rw [← hsort]
    exact (((S.perm A.coins).map _).nodup_iff).mpr A.nodup
  have hsorted : Sorted (output :: rest) := hsort ▸ S.sorted A.coins
  obtain ⟨hset, htotal⟩ := gatherLoop_spec output.color (output :: rest) 0 .start
  rw [hsort]
  exact hpaid.right_iff hnodup hsorted hset (htotal.trans (Int64.zero_add _))

/-! ## 6. Two coins -/

/-- A wallet that signs with an empty script, and the fees as they are set at the start. -/
def plainEnv : ConsolidateEnv := ⟨minTxFee, [], fun _ _ _ => some [], fun _ => 0⟩

/-- Two coins of BRX, one deeper than the other. -/
def unevenCoins : AvailableOutputs (.sample []) :=
  ⟨[coinAt 1 10 .brx, coinAt 2 20 .brx], by decide +kernel⟩

/-- Two coins of BRX of one depth. -/
def evenCoins : AvailableOutputs (.sample []) :=
  ⟨[coinAt 1 10 .brx, coinAt 2 10 .brx], by decide +kernel⟩

/-- Two coins less the fee, out of some inputs. -/
def consolidatedTx (coins : List ColoredOutput) : CTransaction :=
  unsignedTx (.sample []) plainEnv 0 .brx coins 198500000 0

/-- The coins that are not of one depth are consolidated as they should be. -/
theorem consolidate_iff_uneven :
    ConsolidatedRight (.sample []) (insertionSorting.sort unevenCoins.coins)
      (firstColor (insertionSorting.sort unevenCoins.coins)) (consolidatedTx unevenCoins.coins) 1500000 :=
  (consolidate_iff plainEnv insertionSorting 1 unevenCoins (by decide +kernel)).mpr
    (by decide +kernel)

/-- **Of two coins of one depth one is spent**, and both are paid out. -/
theorem one_of_two_spent :
    consolidate (.sample []) plainEnv insertionSorting 1 evenCoins.coins =
        .ok (some (consolidatedTx [coinAt 1 10 .brx], 1500000)) ∧
      ¬ ConsolidatedRight (.sample []) (insertionSorting.sort evenCoins.coins) .brx
        (consolidatedTx [coinAt 1 10 .brx]) 1500000 :=
  ⟨by decide +kernel, fun h => absurd (h.balanced .brx) (by decide +kernel)⟩

end Breakout
