/-
# What the retarget keeps

`BreakoutGravityWave` averages the targets of the last twenty-four blocks of a type and scales the
average by the time they took, kept between a third of what it should have been and three times
that.  So would the target be, if that were all.  But the scale is not kept at all when no block of
work was found for days (the span then grows with the square of the days), the first block of the
seventh fork starts from the limit, and so does a chain whose twenty-four blocks reach down to the
genesis block.

`gravityWave_retargets` says what holds with these three taken into account, for any times.
-/
import Breakout.Targets

namespace Breakout

open Lib

/-! ## 1. The blocks of a type -/

namespace BlockPtr

/-- The blocks of a type above the genesis block, the newest first. -/
def blocksOf (fProofOfStake : Bool) (p : BlockPtr) : List BlockPtr :=
  p.ancestors.filter fun q => q.parent?.isSome && q.top.block.isProofOfStake == fProofOfStake

/-- The twenty-four most recent ones. -/
def recentBlocks (fProofOfStake : Bool) (p : BlockPtr) : List BlockPtr :=
  (p.blocksOf fProofOfStake).take blockSpan

variable {fProofOfStake : Bool}

theorem blocksOf_child (b : IndexedBlock) (p : BlockPtr) : blocksOf fProofOfStake (.child b p) =
    if b.block.isProofOfStake = fProofOfStake then .child b p :: blocksOf fProofOfStake p
    else blocksOf fProofOfStake p := by
  by_cases hkind : b.block.isProofOfStake = fProofOfStake
  all_goals simp [blocksOf, Branch.ancestors, Branch.parent?, Branch.top, hkind]

/-- `GetLastBlockIndex` finds the first of them, or the genesis block. -/
theorem getLastBlockIndex_cases : ∀ p : BlockPtr,
    (∃ b, getLastBlockIndex fProofOfStake p = .root b ∧ blocksOf fProofOfStake p = []) ∨
      ∃ b q, getLastBlockIndex fProofOfStake p = .child b q ∧
        blocksOf fProofOfStake p = .child b q :: blocksOf fProofOfStake q
  | .root b => Or.inl ⟨b, rfl, rfl⟩
  | .child b p => by
    rw [getLastBlockIndex, blocksOf_child]
    split_ifs
    · exact Or.inr ⟨b, p, rfl, rfl⟩
    · exact getLastBlockIndex_cases p

/-- **The walk finds the most recent blocks of the type**, and no others. -/
theorem lastBlocks_eq (n : Nat) : ∀ p : BlockPtr,
    lastBlocks fProofOfStake n (getLastBlockIndex fProofOfStake p) =
      if n ≤ (blocksOf fProofOfStake p).length then some ((blocksOf fProofOfStake p).take n)
      else none := by
  induction n with
  | zero => simp [lastBlocks]
  | succ n ih =>
    intro p
    rcases @getLastBlockIndex_cases fProofOfStake p with ⟨b, hlast, hblocks⟩ | ⟨b, q, hlast, hblocks⟩
    · rw [hlast, hblocks]
      rfl
    · rw [hlast, hblocks, lastBlocks, ih q]
      simp only [List.length_cons, Nat.add_le_add_iff_right, List.take_succ_cons]
      split_ifs <;> rfl

end BlockPtr

/-! ## 2. The average -/

/-- The target that a block states. -/
def BlockPtr.target (p : BlockPtr) : Int := setCompact p.top.block.nBits

/-- It stays between bounds on what it averages. -/
theorem pastDifficultyAverage_between {lo hi : Int} : ∀ {ps : List BlockPtr} {n : Nat} {avg : Int},
    (∀ p ∈ ps, lo ≤ p.target ∧ p.target ≤ hi) → (0 < n ∨ ps ≠ []) → (0 < n → lo ≤ avg ∧ avg ≤ hi) →
      0 ≤ lo → lo ≤ pastDifficultyAverage n avg ps ∧ pastDifficultyAverage n avg ps ≤ hi
  | [], n, avg, _, hn, havg, _ => havg (hn.resolve_right (· rfl))
  | p :: ps, n, avg, hps, _, havg, hlo => by
    have hp := hps p (List.mem_cons_self ..)
    rw [pastDifficultyAverage]
    refine pastDifficultyAverage_between (fun q hq => hps q (List.mem_cons_of_mem _ hq))
      (Or.inl (Nat.succ_pos n)) (fun _ => ?_) hlo
    split_ifs with hn
    · exact hp
    · obtain ⟨hle, hge⟩ := havg (Nat.pos_of_ne_zero hn)
      have hn : (0 : Int) ≤ n + 1 := by omega
      have hlow : lo * (n + 1) ≤ avg * (n + 1) := mul_le_mul_of_nonneg_right hle hn
      have hhigh : avg * (n + 1) ≤ hi * (n + 1) := mul_le_mul_of_nonneg_right hge hn
      have hnonneg : 0 ≤ avg * (n + 1) + p.target := by
        have := mul_nonneg hlo hn
        omega
      rw [BlockPtr.target] at *
      rw [Int.tdiv_eq_ediv_of_nonneg hnonneg]
      constructor
      · rw [Int.le_ediv_iff_mul_le (by omega)]
        linarith
      · rw [← Int.lt_add_one_iff, Int.ediv_lt_iff_lt_mul (by omega)]
        linarith

/-- **Every block counts once**, and the newest twice, but for what the divisions round off. -/
theorem pastDifficultyAverage_weights : ∀ {ps : List BlockPtr} {n : Nat} {avg : Int},
    (∀ p ∈ ps, 0 ≤ p.target) → 0 ≤ avg → 0 < n →
      ∃ e : Int, 0 ≤ e ∧ e ≤ ps.length * (n + ps.length) ∧
        pastDifficultyAverage n avg ps * (n + ps.length + 1) =
          avg * (n + 1) + (ps.map BlockPtr.target).sum - e
  | [], n, avg, _, _, _ => ⟨0, le_rfl, by simp, by simp [pastDifficultyAverage]⟩
  | p :: ps, n, avg, hps, havg, hn => by
    have hp := hps p (List.mem_cons_self ..)
    have hnonneg : 0 ≤ avg * (n + 1) + p.target := by positivity
    have hdiv := Int.emod_add_mul_ediv (avg * (n + 1) + p.target) (n + 2)
    have hrest := Int.emod_nonneg (avg * (n + 1) + p.target) (by omega : (n + 2 : Int) ≠ 0)
    have hlt := Int.emod_lt_of_pos (avg * (n + 1) + p.target) (by omega : (0 : Int) < n + 2)
    rw [pastDifficultyAverage, if_neg hn.ne', ← BlockPtr.target, Int.tdiv_eq_ediv_of_nonneg hnonneg]
    obtain ⟨e, he, hle, heq⟩ := pastDifficultyAverage_weights (n := n + 1)
      (fun q hq => hps q (List.mem_cons_of_mem _ hq))
      (Int.ediv_nonneg hnonneg (by omega : (0 : Int) ≤ n + 2)) (Nat.succ_pos n)
    generalize (avg * (n + 1) + p.target) % (n + 2) = rest at *
    generalize (avg * (n + 1) + p.target) / (n + 2) = avg' at *
    refine ⟨e + rest, by omega, ?_, ?_⟩
    · simp only [List.length_cons]
      push_cast at hle ⊢
      nlinarith
    · simp only [List.length_cons, List.map_cons, List.sum_cons]
      push_cast at heq ⊢
      linarith

/-! ## 3. The time span -/

/-- The seconds that the blocks of a window should take. -/
def targetTimespan (fTestNet fProofOfStake : Bool) (nLastTime : UInt32) : Int64 :=
  Int64.ofNat blockSpan * getTargetSpacing fTestNet fProofOfStake nLastTime.toNat

/-- The seconds that count as a day without work. -/
def decayInterval (fTestNet : Bool) (nLastTime : UInt32) : Int64 :=
  if fTestNet then getTargetSpacing fTestNet false nLastTime.toNat * Int64.ofNat blockSpan else 86400

/-- What is added for days without work: their square times the seconds, and nothing before the
seventh fork or for stake. -/
def decay (fTestNet fProofOfStake : Bool) (nLastTime nPrevTime : UInt32) : Nat :=
  if fProofOfStake = false ∧ kawpowIsActive nLastTime.toNat = true then
    let delta := nLastTime.toNat - nPrevTime.toNat
    let nVirtualDays := delta / (decayInterval fTestNet nLastTime).toInt.toNat
    nVirtualDays * nVirtualDays * delta
  else 0

section

variable {fTestNet fProofOfStake : Bool} {nTime nLastTime nPrevTime : UInt32}

theorem getTargetSpacing_cases (fTestNet fProofOfStake : Bool) (nTime : Nat) :
    getTargetSpacing fTestNet fProofOfStake nTime ∈ ([60, 120, 300, 600] : List Int64) := by
  unfold getTargetSpacing
  split_ifs <;> decide

/-- No division is by zero. -/
theorem targetTimespan_bounds :
    0 < (targetTimespan fTestNet fProofOfStake nLastTime).toInt ∧
      (targetTimespan fTestNet fProofOfStake nLastTime).toInt ≤ 14400 ∧
      3 * (targetTimespan fTestNet fProofOfStake nLastTime / 3).toInt =
        (targetTimespan fTestNet fProofOfStake nLastTime).toInt ∧
      (targetTimespan fTestNet fProofOfStake nLastTime * 3).toInt =
        3 * (targetTimespan fTestNet fProofOfStake nLastTime).toInt := by
  have hspacing := getTargetSpacing_cases fTestNet fProofOfStake nLastTime.toNat
  simp only [List.mem_cons, List.not_mem_nil, or_false] at hspacing
  unfold targetTimespan
  rcases hspacing with h | h | h | h <;>
  · rw [h]
    decide

theorem decayInterval_cases (fTestNet : Bool) (nLastTime : UInt32) :
    decayInterval fTestNet nLastTime ∈ ([7200, 86400] : List Int64) := by
  cases fTestNet
  · exact (by decide : (86400 : Int64) ∈ ([7200, 86400] : List Int64))
  · exact (by decide : (300 * Int64.ofNat blockSpan) ∈ ([7200, 86400] : List Int64))

/-- The clamp holds the span whatever times the blocks have. -/
theorem clampTimespan_bounds {nActualTimespan : Int64} :
    (targetTimespan fTestNet fProofOfStake nLastTime).toInt ≤
        3 * (clampTimespan (targetTimespan fTestNet fProofOfStake nLastTime) nActualTimespan).toInt ∧
      (clampTimespan (targetTimespan fTestNet fProofOfStake nLastTime) nActualTimespan).toInt ≤
        3 * (targetTimespan fTestNet fProofOfStake nLastTime).toInt := by
  obtain ⟨hpos, -, hthird, hthrice⟩ := @targetTimespan_bounds fTestNet fProofOfStake nLastTime
  unfold clampTimespan
  simp only [GT.gt, Int64.lt_iff_toInt_lt]
  split_ifs <;> omega

theorem toInt_mul_natCast {a b : Int64} {x y : Nat} (ha : a.toInt = x) (hb : b.toInt = y)
    (hfits : x * y < 2 ^ 63) : (a * b).toInt = (x * y : Nat) := by
  have hlt : ((x * y : Nat) : Int) < 2 ^ 63 := by exact_mod_cast hfits
  rw [Int64.toInt_mul, ha, hb, ← Int.natCast_mul]
  exact Int.bmod_eq_of_le (by omega) (by omega)

/-- The seconds since a block, none when it is later. -/
theorem toInt_delta {a b : Int64} {x y : Nat} (ha : a.toInt = x) (hb : b.toInt = y)
    (hx : x < 2 ^ 32) (hy : y < 2 ^ 32) :
    (if 0 < a - b then a - b else 0).toInt = (x - y : Nat) := by
  have hsub : (a - b).toInt = x - y := by
    rw [Int64.toInt_sub, ha, hb]
    exact Int.bmod_eq_of_le (by omega) (by omega)
  split_ifs with h <;> rw [Int64.lt_iff_toInt_lt, hsub, Int64.toInt_zero] at h
  · rw [hsub]
    omega
  · rw [Int64.toInt_zero]
    omega

/-- The growth for days without work is computed exactly where it fits. -/
theorem virtualTimespan_eq (hkawpow : kawpowIsActive nLastTime.toNat = true)
    (hfits : decay fTestNet false nLastTime nPrevTime < 2 ^ 63) :
    (virtualTimespan fTestNet (getTargetSpacing fTestNet false nLastTime.toNat)
      (Int64.ofNat nLastTime.toNat) (Int64.ofNat nPrevTime.toNat)).toInt =
        decay fTestNet false nLastTime nPrevTime := by
  have hlast := nLastTime.toNat_lt
  have hprev := nPrevTime.toNat_lt
  have hdelta := toInt_delta (Int64.toInt_ofNat_of_lt (hlast.trans (by decide)))
    (Int64.toInt_ofNat_of_lt (hprev.trans (by decide))) hlast hprev
  obtain ⟨n, hn, hlarge, hne⟩ : ∃ n : Nat, (decayInterval fTestNet nLastTime).toInt = n ∧ 7200 ≤ n ∧
      decayInterval fTestNet nLastTime ≠ -1 := by
    have := decayInterval_cases fTestNet nLastTime
    generalize decayInterval fTestNet nLastTime = interval at this
    rcases List.mem_pair.mp this with rfl | rfl
    · exact ⟨7200, by decide, by decide, by decide⟩
    · exact ⟨86400, by decide, by decide, by decide⟩
  rw [decay, if_pos ⟨rfl, hkawpow⟩, hn, Int.toNat_natCast] at hfits ⊢
  unfold virtualTimespan
  change (_ / decayInterval fTestNet nLastTime * (_ / decayInterval fTestNet nLastTime) * _).toInt = _
  generalize (if 0 < Int64.ofNat nLastTime.toNat - Int64.ofNat nPrevTime.toNat
    then Int64.ofNat nLastTime.toNat - Int64.ofNat nPrevTime.toNat else 0) = delta at hdelta
  have hseconds : nLastTime.toNat - nPrevTime.toNat < 2 ^ 32 := by omega
  generalize nLastTime.toNat - nPrevTime.toNat = seconds at hdelta hfits hseconds
  have hdays : (delta / decayInterval fTestNet nLastTime).toInt = (seconds / n : Nat) := by
    rw [Int64.toInt_div_of_ne_right _ _ hne, hdelta, hn]
    rfl
  have hfew : seconds / n < 2 ^ 20 := by
    rw [Nat.div_lt_iff_lt_mul (by omega)]
    omega
  have hsquare : seconds / n * (seconds / n) < 2 ^ 63 :=
    (Nat.mul_lt_mul'' hfew hfew).trans (by decide)
  exact toInt_mul_natCast (toInt_mul_natCast hdays hdays hsquare) hdelta hfits

end

/-! ## 4. The retarget -/

/-- `nActualTimespan` as the average is scaled by it. -/
def scaledTimespan (fTestNet fProofOfStake : Bool) (nLastTime nPrevTime : UInt32)
    (window : List BlockPtr) : Int64 :=
  let nClamped := clampTimespan (targetTimespan fTestNet fProofOfStake nLastTime)
    (actualTimespan 0 window)
  if fProofOfStake = false ∧ kawpowIsActive nLastTime.toNat = true then
    nClamped + virtualTimespan fTestNet (getTargetSpacing fTestNet fProofOfStake nLastTime.toNat)
      (Int64.ofNat nLastTime.toNat) (Int64.ofNat nPrevTime.toNat)
  else nClamped

/-- The next target, from the time of the last block and a window of blocks that begins with `prev`.
-/
def nextTarget (fTestNet fProofOfStake : Bool) (nTime nLastTime : UInt32) (prev : BlockPtr)
    (window : List BlockPtr) : Int :=
  min ((pastDifficultyAverage 0 0 (prev :: window) * (scaledTimespan fTestNet fProofOfStake nLastTime
    prev.top.block.nTime (prev :: window)).toInt).tdiv
      (targetTimespan fTestNet fProofOfStake nLastTime).toInt)
    (getTargetLimit fTestNet fProofOfStake nTime.toNat)

/-- The longest span fits in the type. -/
def SpanFits (fTestNet fProofOfStake : Bool) (nLastTime nPrevTime : UInt32) : Prop :=
  3 * (targetTimespan fTestNet fProofOfStake nLastTime).toInt +
    decay fTestNet fProofOfStake nLastTime nPrevTime < 2 ^ 63

/-- "reset target if this is the first kawpow block" -/
def FirstKawpow (fProofOfStake : Bool) (nTime nLastTime : UInt32) : Prop :=
  fProofOfStake = false ∧ getFork nLastTime.toNat ≤ .fork006 ∧ getFork nTime.toNat = .fork007

/-- **The window is the twenty-four most recent blocks of the type.** -/
theorem breakoutGravityWave_window {fTestNet fProofOfStake : Bool} {nTime : UInt32} {p : BlockPtr}
    (hfirst : ¬ FirstKawpow fProofOfStake nTime p.top.block.nTime)
    (hblocks : blockSpan ≤ (p.blocksOf fProofOfStake).length) :
    ∃ window, p.recentBlocks fProofOfStake = p.getLastBlockIndex fProofOfStake :: window ∧
      breakoutGravityWave fTestNet nTime p fProofOfStake = getCompact
        (nextTarget fTestNet fProofOfStake nTime p.top.block.nTime
          (p.getLastBlockIndex fProofOfStake) window) := by
  have hmin : ∀ a b : Int, (if a > b then b else a) = min a b := by
    intro a b
    rw [min_def]
    split_ifs <;> omega
  rcases BlockPtr.getLastBlockIndex_cases p with ⟨b, -, hnone⟩ | ⟨b, q, hlast, hsome⟩
  · rw [hnone] at hblocks
    exact absurd hblocks (by decide)
  · refine ⟨(BlockPtr.blocksOf fProofOfStake q).take 23, ?_, ?_⟩
    · rw [BlockPtr.recentBlocks, hsome, hlast]
      rfl
    · have hwindow := @BlockPtr.lastBlocks_eq fProofOfStake blockSpan p
      rw [if_pos hblocks, hlast, hsome] at hwindow
      unfold breakoutGravityWave
      rw [FirstKawpow] at hfirst
      simp only [if_neg hfirst, hlast, hwindow, hmin]
      rfl

/-- **What the retarget keeps**: the window is the twenty-four most recent blocks of the type, of
which the newest counts twice and each other once; no division is by zero; the target is below the
limit, above a third of the smallest target of the window (or the limit itself), and below three
times the largest but for the growth of the span in days without work; and `nBits` loses little of
it. -/
structure Retargeted (fTestNet fProofOfStake : Bool) (nTime : UInt32) (p prev : BlockPtr)
    (window : List BlockPtr) (target : Int) : Prop where
  recent : p.recentBlocks fProofOfStake = prev :: window ∧ window.length = 23
  target_eq : target = nextTarget fTestNet fProofOfStake nTime p.top.block.nTime prev window
  average : ∃ e : Int, 0 ≤ e ∧ e ≤ 23 * 24 ∧ 25 * pastDifficultyAverage 0 0 (prev :: window) =
    2 * prev.target + (window.map BlockPtr.target).sum - e
  divisors : (targetTimespan fTestNet fProofOfStake p.top.block.nTime).toInt ≠ 0 ∧
    (decayInterval fTestNet p.top.block.nTime).toInt ≠ 0
  le_limit : target ≤ getTargetLimit fTestNet fProofOfStake nTime.toNat
  lower : ∃ q ∈ prev :: window, (∀ r ∈ prev :: window, q.target ≤ r.target) ∧
    min (getTargetLimit fTestNet fProofOfStake nTime.toNat) (q.target / 3) ≤ target
  upper : ∃ q ∈ prev :: window, (∀ r ∈ prev :: window, r.target ≤ q.target) ∧
    target * (targetTimespan fTestNet fProofOfStake p.top.block.nTime).toInt ≤
      q.target * (3 * (targetTimespan fTestNet fProofOfStake p.top.block.nTime).toInt +
        decay fTestNet fProofOfStake p.top.block.nTime prev.top.block.nTime)
  compact : setCompact (breakoutGravityWave fTestNet nTime p fProofOfStake) ≤ target ∧
    (target - setCompact (breakoutGravityWave fTestNet nTime p fProofOfStake)) * 2 ^ 15 ≤
      setCompact (breakoutGravityWave fTestNet nTime p fProofOfStake)

section

variable {fTestNet fProofOfStake : Bool} {nTime nLastTime nPrevTime : UInt32} {prev : BlockPtr}
  {window : List BlockPtr}

/-- The span is a third of what it should be at least, and three times that and the growth at most.
-/
theorem scaledTimespan_bounds (hfits : SpanFits fTestNet fProofOfStake nLastTime nPrevTime) :
    (targetTimespan fTestNet fProofOfStake nLastTime).toInt ≤
        3 * (scaledTimespan fTestNet fProofOfStake nLastTime nPrevTime window).toInt ∧
      (scaledTimespan fTestNet fProofOfStake nLastTime nPrevTime window).toInt ≤
        3 * (targetTimespan fTestNet fProofOfStake nLastTime).toInt +
          decay fTestNet fProofOfStake nLastTime nPrevTime := by
  obtain ⟨hpos, hmax, -, -⟩ := @targetTimespan_bounds fTestNet fProofOfStake nLastTime
  have hclamp := @clampTimespan_bounds fTestNet fProofOfStake nLastTime (actualTimespan 0 window)
  simp only [scaledTimespan]
  split_ifs with hkawpow
  · obtain ⟨rfl, hactive⟩ := hkawpow
    rw [SpanFits] at hfits
    have hvirtual := @virtualTimespan_eq fTestNet nLastTime nPrevTime hactive (by omega)
    rw [Int64.toInt_add, hvirtual, Int.bmod_eq_of_le (by omega) (by omega)]
    omega
  · omega

/-- A number scaled by a third at least, and by three times and a bit at most. -/
theorem scaled_between {lo hi avg span T D : Int} (hzero : 0 ≤ lo) (hlow : lo ≤ avg) (hhigh : avg ≤ hi)
    (hT : 0 < T) (hspan : T ≤ 3 * span) (hspan' : span ≤ 3 * T + D) :
    lo / 3 ≤ avg * span / T ∧ avg * span / T * T ≤ hi * (3 * T + D) := by
  constructor
  · rw [Int.le_ediv_iff_mul_le hT]
    have hthird : lo / 3 * 3 ≤ lo := Int.ediv_mul_le lo (by decide)
    have hnonneg : 0 ≤ lo / 3 := Int.ediv_nonneg hzero (by decide)
    calc lo / 3 * T ≤ lo / 3 * (3 * span) := mul_le_mul_of_nonneg_left hspan hnonneg
      _ = lo / 3 * 3 * span := by ring
      _ ≤ avg * span := mul_le_mul_of_nonneg_right (hthird.trans hlow) (by omega)
  · calc avg * span / T * T ≤ avg * span := Int.ediv_mul_le _ hT.ne'
      _ ≤ hi * span := mul_le_mul_of_nonneg_right hhigh (by omega)
      _ ≤ hi * (3 * T + D) := mul_le_mul_of_nonneg_left hspan' (by omega)

/-- The target from a window whose targets lie between bounds. -/
theorem nextTarget_between {lo hi : Int} (hzero : 0 ≤ lo)
    (hwindow : ∀ q ∈ prev :: window, lo ≤ q.target ∧ q.target ≤ hi)
    (hfits : SpanFits fTestNet fProofOfStake nLastTime prev.top.block.nTime) :
    min (getTargetLimit fTestNet fProofOfStake nTime.toNat) (lo / 3) ≤
        nextTarget fTestNet fProofOfStake nTime nLastTime prev window ∧
      nextTarget fTestNet fProofOfStake nTime nLastTime prev window *
          (targetTimespan fTestNet fProofOfStake nLastTime).toInt ≤
        hi * (3 * (targetTimespan fTestNet fProofOfStake nLastTime).toInt +
          decay fTestNet fProofOfStake nLastTime prev.top.block.nTime) := by
  obtain ⟨hpos, -, -, -⟩ := @targetTimespan_bounds fTestNet fProofOfStake nLastTime
  obtain ⟨hspan, hspan'⟩ := @scaledTimespan_bounds _ _ _ _ (prev :: window) hfits
  obtain ⟨hlow, hhigh⟩ := @pastDifficultyAverage_between lo hi _ 0 0 hwindow
    (Or.inr (List.cons_ne_nil prev window)) (fun h => absurd h (lt_irrefl 0)) hzero
  obtain ⟨hthird, hthrice⟩ := scaled_between hzero hlow hhigh hpos hspan hspan'
  rw [nextTarget, Int.tdiv_eq_ediv_of_nonneg (mul_nonneg (hzero.trans hlow) (by omega))]
  constructor
  · exact le_min (min_le_of_right_le hthird) (min_le_left _ _)
  · exact (mul_le_mul_of_nonneg_right (min_le_left _ _) hpos.le).trans hthrice

end

/-- **The retarget**, for every chain with twenty-four blocks of the type above the genesis block,
whatever their times: unless it starts over, and as long as the growth of the span fits in the type.
-/
theorem gravityWave_retargets {fTestNet fProofOfStake : Bool} {nTime : UInt32} {p : BlockPtr}
    (hblocks : blockSpan ≤ (p.blocksOf fProofOfStake).length)
    (hfirst : ¬ FirstKawpow fProofOfStake nTime p.top.block.nTime)
    (htargets : ∀ q ∈ p.recentBlocks fProofOfStake, 0 ≤ q.target)
    (hfits : SpanFits fTestNet fProofOfStake p.top.block.nTime
      (p.getLastBlockIndex fProofOfStake).top.block.nTime) :
    ∃ window target, Retargeted fTestNet fProofOfStake nTime p (p.getLastBlockIndex fProofOfStake)
      window target := by
  obtain ⟨window, hrecent, hresult⟩ := @breakoutGravityWave_window fTestNet _ _ _ hfirst hblocks
  have hlength : window.length = 23 := by
    have := congrArg List.length hrecent
    rw [BlockPtr.recentBlocks, List.length_take, min_eq_left hblocks, List.length_cons] at this
    exact (Nat.succ.inj this).symm
  rw [hrecent] at htargets
  generalize p.getLastBlockIndex fProofOfStake = prev at *
  obtain ⟨least, hleast, hmin⟩ := Set.exists_min_image {q | q ∈ prev :: window} BlockPtr.target
    (List.finite_toSet _) ⟨prev, List.mem_cons_self ..⟩
  obtain ⟨greatest, hgreatest, hmax⟩ := Set.exists_max_image {q | q ∈ prev :: window} BlockPtr.target
    (List.finite_toSet _) ⟨prev, List.mem_cons_self ..⟩
  obtain ⟨hlow, hhigh⟩ := @nextTarget_between _ _ nTime _ _ _ _ _ (htargets least hleast)
    (fun q hq => ⟨hmin q hq, hmax q hq⟩) hfits
  have hlimit := getTargetLimit_bounds fTestNet fProofOfStake nTime.toNat
  have hle : nextTarget fTestNet fProofOfStake nTime p.top.block.nTime prev window ≤
    getTargetLimit fTestNet fProofOfStake nTime.toNat := min_le_right _ _
  have hnonneg : 0 ≤ nextTarget fTestNet fProofOfStake nTime p.top.block.nTime prev window :=
    (le_min hlimit.1.le (Int.ediv_nonneg (htargets least hleast) (by decide))).trans hlow
  refine ⟨window, _, ⟨hrecent, hlength⟩, rfl, ?_, ⟨targetTimespan_bounds.1.ne', ?_⟩, hle,
    ⟨least, hleast, hmin, hlow⟩, ⟨greatest, hgreatest, hmax, hhigh⟩, ?_⟩
  · obtain ⟨e, he, hsmall, heq⟩ := @pastDifficultyAverage_weights window 1 _
      (fun q hq => htargets q (List.mem_cons_of_mem _ hq)) (htargets prev (List.mem_cons_self ..))
      Nat.one_pos
    rw [hlength] at hsmall heq
    refine ⟨e, he, by omega, ?_⟩
    rw [pastDifficultyAverage, if_pos rfl, ← BlockPtr.target]
    push_cast at heq
    linarith
  · have hinterval := decayInterval_cases fTestNet p.top.block.nTime
    simp only [List.mem_cons, List.not_mem_nil, or_false] at hinterval
    rcases hinterval with h | h <;>
    · rw [h]
      decide
  · rw [hresult]
    exact ⟨(roundsTo_target hnonneg (hle.trans_lt hlimit.2)).le,
      sub_target_le hnonneg (hle.trans_lt hlimit.2)⟩

/-! ## 5. The rigs shut off -/

/-- A block of work two minutes after the one before. -/
def minedBlock (nStart n : Nat) : IndexedBlock :=
  ⟨BitVec.ofNat 256 (1000 + n), ⟨1, UInt32.ofNat n, firstFile_notNull⟩,
    ⟨7, BitVec.ofNat 256 (999 + n), 0, UInt32.ofNat (nStart + 120 * n), 0x1b00ffff, 0,
      UInt32.ofNat n, 0, 1, [], []⟩⟩

/-- That many of them on top of the first. -/
def minedChain (nStart k : Nat) : BlockPtr :=
  (List.range k).foldl (fun p n => .child (minedBlock nStart (n + 1)) p) (.root (minedBlock nStart 0))

/-- A block of stake ten days after twenty-four blocks of work. -/
def stakedLater : IndexedBlock :=
  let coinstake : CTransaction := ⟨1, 1778703662, [⟨⟨1, 0⟩, [], 0⟩], [⟨0, 0, []⟩, ⟨1, 2, []⟩], 0, [], 0⟩
  ⟨BitVec.ofNat 256 1025, ⟨1, 25, firstFile_notNull⟩,
    ⟨7, BitVec.ofNat 256 1024, 0, 1778703662, 0x1b00ffff, 0, 25, 0, 1, [coinstake, coinstake], []⟩⟩

/-- Nobody has mined for ten days. -/
def shutOff : BlockPtr := .child stakedLater (minedChain 1777836782 24)

theorem gravityWave_retargets_shutOff : ∃ window target, Retargeted false false 1778703782 shutOff
    (shutOff.getLastBlockIndex false) window target :=
  gravityWave_retargets (by decide +kernel) (fun h => absurd h.2.1 (by decide +kernel))
    (by decide +kernel) (by unfold SpanFits; decide +kernel)

/-- Every one of the last twenty-four blocks of work has a target that is less than a third of the
next. -/
def Eased (nTime : UInt32) (p : BlockPtr) : Prop :=
  let blocks := p.ancestors.filter fun q => !q.top.block.isProofOfStake
  blockSpan ≤ blocks.length ∧
    ∀ q ∈ blocks.take blockSpan,
      3 * BlockPtr.target q < setCompact (breakoutGravityWave false nTime p false)

instance (nTime : UInt32) (p : BlockPtr) : Decidable (Eased nTime p) :=
  inferInstanceAs (Decidable (_ ∧ _))

/-- **Above three times the largest**: after ten days without work, at the start of the seventh
fork, and when the genesis block is the twenty-fourth. -/
theorem three_times_exceeded : Eased 1778703782 shutOff ∧
    Eased 1777836782 (minedChain 1777833662 24) ∧ Eased 1777840000 (minedChain 1777836782 23) := by
  decide +kernel

end Breakout
