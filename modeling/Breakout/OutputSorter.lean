/-
# The order of the coins to consolidate

`Consolidate` sorts the coins with `OutputSorter`, of which it is said that coins come before the
coins that pay their fees, then by ascending colour, then by ascending depth.  It consolidates the
colour of the first coin, and looks for the coins for the fee behind it.

The comparison is a strict weak order.  But it is by descending colour (`outputSorter_iff`), and
what it asks about the fees comes to the same: SIS comes before the cards, whose fees it pays.  So
the coins are where they should be exactly when there are no cards among them, or no SIS
(`sorted_right_iff`).
-/
import Breakout.Amounts
import Breakout.AvailableCoins
import Breakout.Lib.SortedSet

namespace Breakout

open Lib
open scoped List

/-! ## 1. The order -/

/-- An output of the wallet.  Its transaction has been checked, so its colour is in the tables. -/
structure ColoredOutput extends COutput where
  color : Color
  nColor_eq : toCOutput.txout.nColor = color.toInt32

theorem feeColor_feeColor (c : Color) : feeColor (feeColor c) = feeColor c := by
  revert c
  decide

def feeDependsOn (nColor1 nColor2 : Color) : Bool :=
  let nFeeColor1 := feeColor nColor1
  if nFeeColor1 = nColor1 ∨ nFeeColor1 = .none then false
  else if nFeeColor1 = nColor2 then true
  else feeDependsOn nFeeColor1 nColor2
termination_by if feeColor nColor1 = nColor1 then 0 else 1
decreasing_by
  rename_i hown _
  rw [if_pos (feeColor_feeColor nColor1), if_neg fun h => hown (Or.inl h)]
  exact Nat.one_pos

def outputSorter (t1 t2 : ColoredOutput) : Bool :=
  let nColor1 := t1.color
  let nColor2 := t2.color
  if feeDependsOn nColor1 nColor2 then false
  else if feeDependsOn nColor2 nColor1 then true
  else if nColor1 = nColor2 then decide (t1.nDepth < t2.nDepth)
  else decide (nColor1 > nColor2)

/-- What `sort` makes of a vector, with `OutputSorter`. -/
structure Sorting where
  sort : List ColoredOutput → List ColoredOutput
  perm : ∀ vCoins, sort vCoins ~ vCoins
  sorted : ∀ vCoins, (sort vCoins).Pairwise fun a b => outputSorter b a = false

/-! ## 2. The coins -/

def maxInputs : Nat := 200

/-- What the first loop of `Consolidate` keeps. -/
structure Gathered where
  setCoins : List ColoredOutput
  nTotalValue : Int64
  nIndexFee : Option Nat
  nFeeColorValue : Int64

/-- Before the loop. -/
def Gathered.start : Gathered := ⟨[], 0, none, 0⟩

/-- One coin of the loop, at the index `idx`. -/
def Gathered.step (nColor : Color) (g : Gathered) (idx : Nat) (output : ColoredOutput) : Gathered :=
  if output.color = nColor then
    if g.setCoins.length < maxInputs then
      { g with
        setCoins := insertNew outputSorter output g.setCoins
        nTotalValue := g.nTotalValue + output.nValue }
    else g
  else if feeColor nColor ≠ nColor then
    { g with
      nIndexFee := some (g.nIndexFee.getD idx)
      nFeeColorValue :=
        if output.color = feeColor nColor then g.nFeeColorValue + output.nValue
        else g.nFeeColorValue }
  else g

/-- The loop, from an index on. -/
def gatherLoop (nColor : Color) : Nat → List ColoredOutput → Gathered → Gathered
  | _, [], g => g
  | idx, output :: vCoins, g => gatherLoop nColor (idx + 1) vCoins (g.step nColor idx output)

/-! ## 3. What the order should be -/

/-- `b` pays its fees in the colour of `a`, which is another. -/
def PaysIn (b a : ColoredOutput) : Prop := feeColor b.color = a.color ∧ a.color ≠ b.color

instance : DecidableRel PaysIn := fun _ _ => inferInstanceAs (Decidable (_ ∧ _))

/-- **A sorted list in which all is where it should be.**  No coin is in front of one that pays its
fees in its colour; the colour that is consolidated first pays no fees of another; and where its own
fee colour is another, the fee coins are those from the index that `Consolidate` remembers, so many
as they are. -/
structure SortedRight (vCoins : List ColoredOutput) : Prop where
  before : vCoins.Pairwise fun a b => ¬ PaysIn b a
  first : ∀ a ∈ vCoins.head?, ∀ b ∈ vCoins, ¬ PaysIn b a
  run : ∀ a ∈ vCoins.head?, feeColor a.color ≠ a.color → ∀ nIndexFee,
    (gatherLoop a.color 0 vCoins .start).nIndexFee = some nIndexFee →
    ∃ n, ∀ i, ∀ h : i < vCoins.length,
      vCoins[i].color = feeColor a.color ↔ nIndexFee ≤ i ∧ i < nIndexFee + n

/-! ## 4. The order -/

variable {c d : Color} {a b : ColoredOutput}

theorem feeDependsOn_iff :
    feeDependsOn c d = true ↔ feeColor c ≠ c ∧ feeColor c ≠ .none ∧ feeColor c = d := by
  have hend : ∀ e : Color, feeDependsOn (feeColor e) d = false := by
    intro e
    rw [feeDependsOn, if_pos (Or.inl (feeColor_feeColor e))]
  rw [feeDependsOn]
  by_cases hown : feeColor c = c ∨ feeColor c = .none
  · rw [if_pos hown]
    exact iff_of_false Bool.false_ne_true fun h => hown.elim h.1 h.2.1
  · rw [if_neg hown]
    rw [not_or] at hown
    by_cases heq : feeColor c = d
    · rw [if_pos heq]
      exact iff_of_true rfl ⟨hown.1, hown.2, heq⟩
    · rw [if_neg heq, hend]
      exact iff_of_false Bool.false_ne_true fun h => heq h.2.2

/-- The fees of a colour are in another for the cards, and in SIS. -/
theorem feeColor_other : feeColor c ≠ c ↔ isDeck c.toInt32 = true := by
  revert c
  decide

theorem feeColor_card (h : isDeck c.toInt32 = true) : feeColor c = .sis := by
  revert c
  decide

theorem card_lt_sis (h : isDeck c.toInt32 = true) : c < .sis := by
  revert c
  decide

/-- A colour that depends on another is less than it. -/
theorem lt_of_feeDependsOn (h : feeDependsOn c d = true) : c < d := by
  obtain ⟨hother, -, rfl⟩ := feeDependsOn_iff.mp h
  have hdeck := feeColor_other.mp hother
  rw [feeColor_card hdeck]
  exact card_lt_sis hdeck

/-- **`OutputSorter` sorts by descending colour**, and by ascending depth within a colour: what it
asks about the fees makes no difference. -/
theorem outputSorter_iff : outputSorter a b = true ↔
    b.color < a.color ∨ a.color = b.color ∧ a.nDepth < b.nDepth := by
  unfold outputSorter
  dsimp only
  by_cases hab : feeDependsOn a.color b.color = true
  · have hlt := lt_of_feeDependsOn hab
    rw [if_pos hab]
    exact iff_of_false Bool.false_ne_true fun h =>
      h.elim (fun h => absurd h hlt.asymm) fun h => hlt.ne h.1
  · rw [if_neg hab]
    by_cases hba : feeDependsOn b.color a.color = true
    · rw [if_pos hba]
      exact iff_of_true rfl (Or.inl (lt_of_feeDependsOn hba))
    · rw [if_neg hba]
      by_cases heq : a.color = b.color
      · rw [if_pos heq, decide_eq_true_iff]
        exact ⟨fun h => Or.inr ⟨heq, h⟩, fun h => h.elim (fun h => absurd heq h.ne') And.right⟩
      · rw [if_neg heq, decide_eq_true_iff]
        exact ⟨Or.inl, fun h => h.elim id fun h => absurd h.1 heq⟩

theorem outputSorter_eq_false : outputSorter a b = false ↔
    a.color < b.color ∨ a.color = b.color ∧ b.nDepth ≤ a.nDepth := by
  rw [Bool.eq_false_iff, ne_eq, outputSorter_iff, not_or, not_and, not_lt, not_lt]
  constructor
  · rintro ⟨hle, hdepth⟩
    exact hle.lt_or_eq.imp id fun heq => ⟨heq, hdepth heq⟩
  · rintro (hlt | ⟨heq, hdepth⟩)
    · exact ⟨hlt.le, fun heq => absurd heq hlt.ne⟩
    · exact ⟨heq.le, fun _ => hdepth⟩

/-- Neither of two coins comes before the other where the colour and the depth are the same. -/
theorem incomparable_iff :
    (¬ outputSorter a b = true ∧ ¬ outputSorter b a = true) ↔
      a.color = b.color ∧ a.nDepth = b.nDepth := by
  rw [Bool.not_eq_true, Bool.not_eq_true, outputSorter_eq_false, outputSorter_eq_false]
  constructor
  · rintro ⟨hab | ⟨heq, hab⟩, hba | ⟨heq', hba⟩⟩
    · exact absurd hab hba.asymm
    · exact absurd heq' hab.ne'
    · exact absurd heq hba.ne'
    · exact ⟨heq, le_antisymm hba hab⟩
  · rintro ⟨hcolor, hdepth⟩
    exact ⟨Or.inr ⟨hcolor, hdepth.ge⟩, Or.inr ⟨hcolor.symm, hdepth.le⟩⟩

/-- **`OutputSorter` is a strict weak order**, which `sort` asks for. -/
theorem strictWeakOrder :
    IsStrictWeakOrder ColoredOutput fun a b => outputSorter a b = true where
  irrefl a h := by
    rcases outputSorter_iff.mp h with h | ⟨-, h⟩
    · exact lt_irrefl _ h
    · exact lt_irrefl _ h
  trans a b c hab hbc := by
    rw [outputSorter_iff] at *
    rcases hab with hab | ⟨hab, hab'⟩ <;> rcases hbc with hbc | ⟨hbc, hbc'⟩
    · exact Or.inl (hbc.trans hab)
    · exact Or.inl (hbc ▸ hab)
    · exact Or.inl (hab ▸ hbc)
    · exact Or.inr ⟨hab.trans hbc, hab'.trans hbc'⟩
  incomp_trans a b c hab hbc := by
    rw [incomparable_iff] at *
    exact ⟨hab.1.trans hbc.1, hab.2.trans hbc.2⟩

/-! ## 5. The order is right without cards or without SIS -/

/-- A coin pays in the colour of another when it is a card and the other is SIS. -/
theorem paysIn_iff :
    PaysIn b a ↔ isDeck b.color.toInt32 = true ∧ a.color = .sis := by
  unfold PaysIn
  constructor
  · rintro ⟨hfee, hne⟩
    have hdeck := feeColor_other.mp (hfee.trans_ne hne)
    exact ⟨hdeck, hfee.symm.trans (feeColor_card hdeck)⟩
  · rintro ⟨hdeck, hsis⟩
    exact ⟨(feeColor_card hdeck).trans hsis.symm, (hsis ▸ card_lt_sis hdeck).ne'⟩

variable {S : Sorting} {vCoins : List ColoredOutput}

/-- In a list without both, nothing pays for another, and there are no fee coins to find. -/
theorem sortedRight_of_not
    (h : ¬ ((∃ a ∈ vCoins, isDeck a.color.toInt32 = true) ∧ ∃ b ∈ vCoins, b.color = .sis)) :
    SortedRight vCoins where
  before := by
    refine List.pairwise_of_forall_mem_list fun a ha b hb hpays => ?_
    obtain ⟨hdeck, hsis⟩ := paysIn_iff.mp hpays
    exact h ⟨⟨b, hb, hdeck⟩, a, ha, hsis⟩
  first a ha b hb hpays := by
    obtain ⟨hdeck, hsis⟩ := paysIn_iff.mp hpays
    exact h ⟨⟨b, hb, hdeck⟩, a, List.mem_of_mem_head? ha, hsis⟩
  run a ha hother nIndexFee _ := by
    have hdeck := feeColor_other.mp hother
    refine ⟨0, fun i hi => iff_of_false (fun hsis => ?_) (by omega)⟩
    rw [feeColor_card hdeck] at hsis
    exact h ⟨⟨a, List.mem_of_mem_head? ha, hdeck⟩, vCoins[i], List.getElem_mem hi, hsis⟩

/-- **When the order is right.**  The comparison is a strict weak order.  What is sorted with it is
where it should be exactly when there are no cards among the coins, or no SIS. -/
theorem sorted_right_iff (S : Sorting) (vCoins : List ColoredOutput) :
    (IsStrictWeakOrder ColoredOutput fun a b => outputSorter a b = true) ∧
    (SortedRight (S.sort vCoins) ↔
      ¬ ((∃ a ∈ vCoins, isDeck a.color.toInt32 = true) ∧ ∃ b ∈ vCoins, b.color = .sis)) := by
  refine ⟨strictWeakOrder, ?_, fun h => sortedRight_of_not ?_⟩
  · rintro hright ⟨⟨a, ha, hdeck⟩, b, hb, hsis⟩
    have hpays : PaysIn a b := paysIn_iff.mpr ⟨hdeck, hsis⟩
    obtain ⟨i, hi, rfl⟩ := List.getElem_of_mem ((S.perm vCoins).mem_iff.mpr ha)
    obtain ⟨j, hj, rfl⟩ := List.getElem_of_mem ((S.perm vCoins).mem_iff.mpr hb)
    rcases lt_trichotomy i j with hlt | heq | hlt
    · -- the card is not in front of SIS, for SIS is the greater colour
      have hsorted := List.pairwise_iff_getElem.mp (S.sorted vCoins) i j hi hj hlt
      rcases outputSorter_eq_false.mp hsorted with hless | ⟨heq, -⟩
      · exact absurd (hsis ▸ hless) (card_lt_sis hdeck).asymm
      · exact absurd (heq.symm.trans hsis) (card_lt_sis hdeck).ne
    · subst heq
      exact absurd hsis (card_lt_sis hdeck).ne
    · exact List.pairwise_iff_getElem.mp hright.before j i hj hi hlt hpays
  · rintro ⟨⟨a, ha, hdeck⟩, b, hb, hsis⟩
    exact h ⟨⟨a, (S.perm vCoins).mem_iff.mp ha, hdeck⟩, b, (S.perm vCoins).mem_iff.mp hb, hsis⟩

/-! ## 6. A card and SIS -/

/-- Not after, by `OutputSorter`. -/
def NotAfter (a b : ColoredOutput) : Prop := outputSorter b a = false

instance : DecidableRel NotAfter := fun a b => inferInstanceAs (Decidable (outputSorter b a = false))

theorem notAfter_iff {a b : ColoredOutput} :
    NotAfter a b ↔ b.color < a.color ∨ a.color = b.color ∧ a.nDepth ≤ b.nDepth :=
  outputSorter_eq_false.trans (or_congr_right (and_congr_left fun _ => eq_comm))

instance : Std.Total NotAfter where
  total a b := by
    rw [notAfter_iff, notAfter_iff]
    rcases lt_trichotomy a.color b.color with h | h | h
    · exact Or.inr (Or.inl h)
    · exact (le_total a.nDepth b.nDepth).imp (fun hle => Or.inr ⟨h, hle⟩) fun hle =>
        Or.inr ⟨h.symm, hle⟩
    · exact Or.inl (Or.inl h)

instance : IsTrans ColoredOutput NotAfter where
  trans a b c hab hbc := by
    rw [notAfter_iff] at *
    rcases hab with hab | ⟨hab, hab'⟩ <;> rcases hbc with hbc | ⟨hbc, hbc'⟩
    · exact Or.inl (hbc.trans hab)
    · exact Or.inl (hbc ▸ hab)
    · exact Or.inl (hab ▸ hbc)
    · exact Or.inr ⟨hab.trans hbc, hab'.trans hbc'⟩

/-- A sort that there is. -/
def insertionSorting : Sorting where
  sort vCoins := vCoins.insertionSort NotAfter
  perm := List.perm_insertionSort NotAfter
  sorted := List.pairwise_insertionSort NotAfter

/-- A whole coin of a colour, at a depth. -/
def coinAt (nTime : UInt32) (nDepth : Int) (c : Color) : ColoredOutput where
  tx := ⟨0, ⟨1, nTime, [], [⟨coin c, c.toInt32, []⟩], 0, [], 0⟩, fun _ => true⟩
  i := ⟨0, Nat.one_pos⟩
  nDepth := nDepth
  color := c
  nColor_eq := rfl

/-- A card and a coin of SIS. -/
def cardAndSis : List ColoredOutput := [coinAt 1 10 .joker, coinAt 2 10 .sis]

/-- **SIS is in front of the card** whose fees it pays. -/
theorem sis_before_card : ¬ SortedRight (insertionSorting.sort cardAndSis) := fun h =>
  absurd h.before (by decide +kernel)

end Breakout
