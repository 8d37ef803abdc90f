/-
# The easiest target after some time

`ProcessBlock` refuses a block off the best chain whose target is easier than any that could be asked
for at its time: twice the checkpoint's target, doubled again for every 5760 seconds since, up to the
limit.  The seconds are counted down in an unsigned number, which wraps when they are no multiple of
5760, or when the block is older than the checkpoint; then the count does not end before the limit is
reached.

`maxBits_right_iff` says for which times the check is what it should be.
-/
import Mathlib.Data.Nat.Size
import Breakout.Lib.Mantissa
import Breakout.ProcessBlock

namespace Breakout

open Lib

/-! ## 1. Compact targets -/

/-- The numbers that `nBits` can spell. -/
abbrev compactNumbers : Set Nat := short 256 (2 ^ 23)

/-- What a size and a mantissa without its sign bit spell. -/
theorem setCompact_parts {k mantissa : Nat} (hk : k < 256) (hmantissa : mantissa < 2 ^ 23) :
    setCompact (UInt32.ofNat (k * 2 ^ 24 + mantissa)) =
      ((if k ≤ 3 then mantissa / 256 ^ (3 - k) else mantissa * 256 ^ (k - 3) : Nat) : Int) := by
  have hnat : (UInt32.ofNat (k * 2 ^ 24 + mantissa)).toNat = k * 2 ^ 24 + mantissa :=
    UInt32.toNat_ofNat_of_lt' (by simp only [UInt32.size]; omega)
  have hsize : (k * 2 ^ 24 + mantissa) / 2 ^ 24 = k := by omega
  have hrest : (k * 2 ^ 24 + mantissa) % 2 ^ 23 = mantissa := by omega
  have hsign : (k * 2 ^ 24 + mantissa) / 2 ^ 23 % 2 = 0 := by omega
  simp only [setCompact, hnat, hsize, hrest, hsign, zero_ne_one, false_and, if_false]

/-- The bytes that `GetCompact` leaves out. -/
def droppedBytes (m : Nat) : Nat := Nat.size m / 8 - 2

/-- What is left fits beside the sign bit, and is full when anything is left out. -/
theorem mantissa_bounds (m : Nat) : m / 256 ^ droppedBytes m < 2 ^ 23 ∧
    (droppedBytes m = 0 ∨ 2 ^ 15 ≤ m / 256 ^ droppedBytes m) := by
  obtain ⟨k, hk⟩ : ∃ k, k = Nat.size m / 8 := ⟨_, rfl⟩
  have hpow : (256 : Nat) ^ (k - 2) = 2 ^ (8 * (k - 2)) := by
    rw [pow_mul]
    rfl
  unfold droppedBytes
  rw [← hk, hpow, Nat.div_lt_iff_lt_mul (Nat.two_pow_pos _), ← pow_add,
    Nat.le_div_iff_mul_le (Nat.two_pow_pos _), ← pow_add]
  refine ⟨Nat.size_le.mp (by omega), ?_⟩
  rcases Nat.lt_or_ge 2 k with hlong | hshort
  · exact Or.inr (Nat.lt_size.mp (by omega))
  · exact Or.inl (by omega)

variable {m : Nat} {bnTargetLimit bn : Int}

/-- **`GetCompact` leaves out the last bytes.** -/
theorem setCompact_getCompact_eq (hm : m < 2 ^ 256) :
    setCompact (getCompact m) = (m / 256 ^ droppedBytes m * 256 ^ droppedBytes m : Nat) := by
  have hneg : ¬ ((m : Int) < 0) := by omega
  rcases Nat.eq_zero_or_pos m with rfl | hpos
  · decide
  · -- the bytes of the magnitude, and one more for the sign when the first is full
    obtain ⟨k, hk⟩ : ∃ k, k = Nat.size m / 8 := ⟨_, rfl⟩
    have hsize : Nat.size m ≤ 256 := Nat.size_le.mpr hm
    have hmantissa := (mantissa_bounds m).1
    unfold droppedBytes at hmantissa ⊢
    rw [← hk] at hmantissa ⊢
    by_cases hshort : k + 1 ≤ 3
    · have hcompact : getCompact m =
          UInt32.ofNat ((k + 1) * 2 ^ 24 + m * 256 ^ (3 - (k + 1))) := by
        simp only [getCompact, Int.natAbs_natCast, hneg, if_false, hpos.ne', ← hk, hshort, if_true,
          Nat.add_zero]
      have hhigh : m < 2 ^ (8 * k + 7) := Nat.size_le.mp (by omega)
      have hroom : m * 256 ^ (3 - (k + 1)) < 2 ^ 23 := by
        calc m * 256 ^ (3 - (k + 1)) < 2 ^ (8 * k + 7) * 256 ^ (3 - (k + 1)) :=
              Nat.mul_lt_mul_of_pos_right hhigh (Nat.pow_pos (by decide))
          _ = 2 ^ (8 * k + 7) * 2 ^ (8 * (3 - (k + 1))) := by
            rw [pow_mul 2 8]
            norm_num
          _ = 2 ^ 23 := by
            rw [← pow_add]
            congr 1
            omega
      rw [hcompact, setCompact_parts (by omega) hroom, if_pos hshort,
        Nat.mul_div_cancel _ (Nat.pow_pos (by decide)), show k - 2 = 0 by omega, pow_zero,
        Nat.div_one, Nat.mul_one]
    · have hcompact : getCompact m = UInt32.ofNat ((k + 1) * 2 ^ 24 + m / 256 ^ (k - 2)) := by
        simp only [getCompact, Int.natAbs_natCast, hneg, if_false, hpos.ne', ← hk, hshort,
          Nat.add_zero, show k + 1 - 3 = k - 2 by omega]
      rw [hcompact, setCompact_parts (by omega) hmantissa, if_neg hshort,
        show k + 1 - 3 = k - 2 by omega]

/-- **`GetCompact` rounds down**, and loses less than one part in `2^15`. -/
theorem setCompact_getCompact (hm : m < 2 ^ 256) :
    ∃ r : Nat, setCompact (getCompact m) = r ∧ RoundsTo compactNumbers m r ∧
      (0 < m → (m - r) * 2 ^ 15 < r) := by
  obtain ⟨hmantissa, hleft⟩ := mantissa_bounds m
  have hfull : droppedBytes m = 0 ∨ 2 ^ 23 ≤ 256 * (m / 256 ^ droppedBytes m) :=
    hleft.imp_right fun h => by omega
  refine ⟨_, setCompact_getCompact_eq hm, roundsTo_short hmantissa hfull, fun hpos => ?_⟩
  have hlost := sub_round_lt (by decide : 0 < 256) (Nat.two_pow_pos 23) hfull hpos
  generalize m / 256 ^ droppedBytes m * 256 ^ droppedBytes m = r at hlost ⊢
  refine Nat.lt_of_mul_lt_mul_left (a := 256) ?_
  calc 256 * ((m - r) * 2 ^ 15) = (m - r) * 2 ^ 23 := by ring
    _ < 256 * r := hlost

/-! ## 2. The limit -/

theorem getFork_lt_fork007 {nTime : Nat} : getFork nTime < .fork007 ↔ nTime < 1777836782 := by
  simp only [getFork, aForks, forkLoop, Fork.lt_def]
  split_ifs <;> simp only [Fork.number] <;> omega

theorem getTargetLimit_bounds (fTestNet fProofOfStake : Bool) (nTime : Nat) :
    0 < getTargetLimit fTestNet fProofOfStake nTime ∧
      getTargetLimit fTestNet fProofOfStake nTime < 2 ^ 248 := by
  unfold getTargetLimit powTargetLimit
  split_ifs <;> norm_num

/-- The limit a block's target is held to on arrival: of stake, the one at the genesis time. -/
def claimLimit (fTestNet fProofOfStake : Bool) (nTime : UInt32) : Int :=
  getTargetLimit fTestNet fProofOfStake (if fProofOfStake then genesisTime else nTime.toNat)

theorem claimLimit_bounds (fTestNet fProofOfStake : Bool) (nTime : UInt32) :
    0 < claimLimit fTestNet fProofOfStake nTime ∧
      claimLimit fTestNet fProofOfStake nTime < 2 ^ 248 :=
  getTargetLimit_bounds ..

/-- The limit never falls. -/
theorem claimLimit_mono {fTestNet fProofOfStake : Bool} {nTime nTime' : UInt32}
    (h : nTime ≤ nTime') :
    claimLimit fTestNet fProofOfStake nTime ≤ claimLimit fTestNet fProofOfStake nTime' := by
  have hle : nTime.toNat ≤ nTime'.toNat := UInt32.le_iff_toNat_le.mp h
  unfold claimLimit getTargetLimit powTargetLimit
  simp only [getFork_lt_fork007]
  split_ifs <;> omega

/-! ## 3. The count of the seconds -/

/-- Counted down in steps, a multiple of the step gives as many doublings, or reaches the limit. -/
theorem maxBitsLoop_of_dvd :
    ∀ {fuel : Nat} {nDeltaTime : UInt32} {bn : Int} {q : Nat}, nDeltaTime.toNat = 5760 * q →
      0 < bn → bnTargetLimit ≤ bn * 2 ^ fuel →
      min (maxBitsLoop bnTargetLimit fuel nDeltaTime bn) bnTargetLimit =
        min (bn * 2 ^ q) bnTargetLimit
  | 0, _, bn, q, _, hbn, hfuel => by
    rw [pow_zero, mul_one] at hfuel
    have hpow : (1 : Int) ≤ 2 ^ q := one_le_pow₀ (by norm_num)
    rw [maxBitsLoop, min_eq_right hfuel, min_eq_right (hfuel.trans (le_mul_of_one_le_right hbn.le hpow))]
  | fuel + 1, nDeltaTime, bn, q, hd, hbn, hfuel => by
    rw [maxBitsLoop]
    split_ifs with hgo
    · have hpos : 0 < nDeltaTime.toNat := UInt32.lt_iff_toNat_lt.mp hgo.1
      obtain ⟨n, rfl⟩ : ∃ n, q = n + 1 := ⟨q - 1, by omega⟩
      have hle : (5760 : UInt32) ≤ nDeltaTime := UInt32.le_iff_toNat_le.mpr (by
        change 5760 ≤ nDeltaTime.toNat
        omega)
      have hnext : (nDeltaTime - 5760).toNat = 5760 * n := by
        rw [UInt32.toNat_sub_of_le _ _ hle]
        change nDeltaTime.toNat - 5760 = 5760 * n
        omega
      rw [maxBitsLoop_of_dvd hnext (by omega) (by rw [mul_assoc, ← pow_succ']; exact hfuel),
        mul_assoc, ← pow_succ']
    · rcases not_and_or.mp hgo with hzero | hlimit
      · have hnat : nDeltaTime.toNat = 0 := by
          by_contra hne
          exact hzero (UInt32.lt_iff_toNat_lt.mpr (Nat.pos_of_ne_zero hne))
        obtain rfl : q = 0 := by omega
        rw [pow_zero, mul_one]
      · rw [not_lt] at hlimit
        have hpow : (1 : Int) ≤ 2 ^ q := one_le_pow₀ (by norm_num)
        rw [min_eq_right hlimit,
          min_eq_right (hlimit.trans (le_mul_of_one_le_right hbn.le hpow))]

/-- Anything else wraps, and the limit is reached. -/
theorem maxBitsLoop_of_not_dvd :
    ∀ {fuel : Nat} {nDeltaTime : UInt32} {bn : Int}, fuel ≤ 256 →
      (∀ i < fuel, nDeltaTime.toNat ≠ 5760 * i) → 0 < bn → bnTargetLimit ≤ bn * 2 ^ fuel →
      bnTargetLimit ≤ maxBitsLoop bnTargetLimit fuel nDeltaTime bn
  | 0, _, bn, _, _, _, hlimit => by
    rw [maxBitsLoop]
    simpa using hlimit
  | fuel + 1, nDeltaTime, bn, hfuel, hd, hbn, hlimit => by
    have hpos : 0 < nDeltaTime.toNat := Nat.pos_of_ne_zero (hd 0 (Nat.succ_pos _))
    rw [maxBitsLoop]
    split_ifs with hgo
    · refine maxBitsLoop_of_not_dvd (by omega) (fun i hi hwrap => ?_) (by omega)
        (by rw [mul_assoc, ← pow_succ']; exact hlimit)
      have hsub : (nDeltaTime - 5760).toNat = (2 ^ 32 - 5760 + nDeltaTime.toNat) % 2 ^ 32 :=
        UInt32.toNat_sub _ _
      have hlt := nDeltaTime.toNat_lt
      have hne := hd (i + 1) (by omega)
      omega
    · rcases not_and_or.mp hgo with hzero | hreached
      · exact absurd (UInt32.lt_iff_toNat_lt.mpr (by simpa using hpos)) hzero
      · exact not_lt.mp hreached

/-! ## 4. Rounded targets -/

/-- The targets that `nBits` can spell. -/
def compactTargets : Set Int := Nat.cast '' compactNumbers

theorem roundsTo_target (h0 : 0 ≤ bn) (h : bn < 2 ^ 248) :
    RoundsTo compactTargets bn (setCompact (getCompact bn)) := by
  obtain ⟨m, rfl⟩ := Int.eq_ofNat_of_zero_le h0
  obtain ⟨r, hr, hround, -⟩ := setCompact_getCompact (m := m) (by omega)
  rw [hr]
  exact hround.image fun a b => Int.ofNat_le

theorem roundsTo_ratCast {r : Int} (h : RoundsTo compactTargets bn r) :
    RoundsTo (Int.cast '' compactTargets) (bn : Rat) (r : Rat) :=
  h.image (f := (Int.cast : Int → Rat)) fun _ _ => Int.cast_le

/-- What is lost of a target. -/
theorem sub_target_le (h0 : 0 ≤ bn) (h : bn < 2 ^ 248) :
    (bn - setCompact (getCompact bn)) * 2 ^ 15 ≤ setCompact (getCompact bn) := by
  obtain ⟨m, rfl⟩ := Int.eq_ofNat_of_zero_le h0
  obtain ⟨r, hr, hround, hlost⟩ := setCompact_getCompact (m := m) (by omega)
  rw [hr]
  rcases Nat.eq_zero_or_pos m with rfl | hpos
  · have := hround.le
    omega
  · have hlost := hlost hpos
    have hle := hround.le
    zify [hle] at hlost
    exact hlost.le

/-- More than half of a target is left. -/
theorem lt_two_mul_target {bn : Int} (h0 : 0 < bn) (h : bn < 2 ^ 248) :
    bn < 2 * setCompact (getCompact bn) := by
  have := sub_target_le h0.le h
  omega

/-! ## 5. The check on arrival -/

/-- The target of the last block of a type before the checkpoint. -/
abbrev BaseTarget := { nBits : UInt32 // 0 < setCompact nBits }

/-- The target that a block of a type and a time must not exceed. -/
def requiredTarget (fTestNet fProofOfStake : Bool) (nBase : UInt32) (nCheckpointTime nTime : UInt32) :
    Int :=
  setCompact (if fProofOfStake then computeMinStake fTestNet nBase (nTime - nCheckpointTime)
    else computeMinWork fTestNet nBase (nTime - nCheckpointTime) nTime)

/-- The seconds from the checkpoint to the block. -/
def elapsed (nCheckpointTime nTime : UInt32) : Int := nTime.toNat - nCheckpointTime.toNat

/-- `base * 2^(1 + ceil(dt/5760))` -/
def grownTarget (nBase : BaseTarget) (dt : Int) : Rat :=
  setCompact nBase.val * 2 ^ (1 + ⌈(dt : Rat) / 5760⌉)

/-- The easiest target that could be asked for at a time. -/
def allowedTarget (fTestNet fProofOfStake : Bool) (nBase : BaseTarget)
    (nCheckpointTime nTime : UInt32) : Rat :=
  min (claimLimit fTestNet fProofOfStake nTime : Rat)
    (grownTarget nBase (elapsed nCheckpointTime nTime))

/-- **The check is right** for two times: neither required target is easier than it could be, and the
later is not harder than the earlier; so a block with a target that is too easy for its time is refused. -/
structure MaxBitsRight (fTestNet fProofOfStake : Bool) (nBase : BaseTarget)
    (nCheckpointTime nTime nTime' : UInt32) : Prop where
  le : requiredTarget fTestNet fProofOfStake nBase.val nCheckpointTime nTime ≤
    allowedTarget fTestNet fProofOfStake nBase nCheckpointTime nTime
  le' : requiredTarget fTestNet fProofOfStake nBase.val nCheckpointTime nTime' ≤
    allowedTarget fTestNet fProofOfStake nBase nCheckpointTime nTime'
  mono : nTime ≤ nTime' → requiredTarget fTestNet fProofOfStake nBase.val nCheckpointTime nTime ≤
    requiredTarget fTestNet fProofOfStake nBase.val nCheckpointTime nTime'
  refused : ∀ nBits : UInt32, allowedTarget fTestNet fProofOfStake nBase nCheckpointTime nTime <
    setCompact nBits →
      setCompact nBits > requiredTarget fTestNet fProofOfStake nBase.val nCheckpointTime nTime

/-- The limit as `nBits` can spell it. -/
def reachedLimit (fTestNet fProofOfStake : Bool) (nTime : UInt32) : Int :=
  setCompact (getCompact (claimLimit fTestNet fProofOfStake nTime))

/-- The block is a whole number of steps after the checkpoint, or so late that the limit is reached. -/
def CountsDown (fTestNet fProofOfStake : Bool) (nBase : BaseTarget)
    (nCheckpointTime nTime : UInt32) : Prop :=
  (0 ≤ elapsed nCheckpointTime nTime ∧ 5760 ∣ elapsed nCheckpointTime nTime) ∨
    reachedLimit fTestNet fProofOfStake nTime ≤ grownTarget nBase (elapsed nCheckpointTime nTime)

section

variable {fTestNet fProofOfStake : Bool} {nBase : BaseTarget} {nCheckpointTime nTime nTime' : UInt32}

theorem requiredTarget_eq : requiredTarget fTestNet fProofOfStake nBase.val nCheckpointTime nTime =
    setCompact (getCompact (min
      (maxBitsLoop (claimLimit fTestNet fProofOfStake nTime) 256 (nTime - nCheckpointTime)
        (setCompact nBase.val * 2)) (claimLimit fTestNet fProofOfStake nTime))) := by
  have hmin : ∀ a b : Int, (if a > b then b else a) = min a b := by
    intro a b
    rw [min_def]
    split_ifs <;> omega
  cases fProofOfStake
  all_goals
    simp only [requiredTarget, computeMinStake, computeMinWork, computeMaxBits, claimLimit, hmin,
      if_true, if_false, Bool.false_eq_true]

theorem claimLimit_le_doubled : claimLimit fTestNet fProofOfStake nTime ≤
    setCompact nBase.val * 2 * 2 ^ 256 := by
  have hlimit := (claimLimit_bounds fTestNet fProofOfStake nTime).2
  have hbase := nBase.property
  calc claimLimit fTestNet fProofOfStake nTime ≤ 1 * 2 ^ 256 := by
        norm_num at hlimit ⊢
        omega
    _ ≤ setCompact nBase.val * 2 * 2 ^ 256 :=
      mul_le_mul_of_nonneg_right (by omega) (by norm_num)

theorem requiredTarget_of_dvd {q : Nat} (h : (nTime - nCheckpointTime).toNat = 5760 * q) :
    requiredTarget fTestNet fProofOfStake nBase.val nCheckpointTime nTime =
      setCompact (getCompact (min (setCompact nBase.val * 2 * 2 ^ q)
        (claimLimit fTestNet fProofOfStake nTime))) := by
  have hbase := nBase.property
  rw [requiredTarget_eq, maxBitsLoop_of_dvd h (by omega) claimLimit_le_doubled]

theorem requiredTarget_of_not_dvd (h : ¬ 5760 ∣ (nTime - nCheckpointTime).toNat) :
    requiredTarget fTestNet fProofOfStake nBase.val nCheckpointTime nTime =
      reachedLimit fTestNet fProofOfStake nTime := by
  have hbase := nBase.property
  have hlimit := @claimLimit_le_doubled fTestNet fProofOfStake nBase nTime
  have hreached := maxBitsLoop_of_not_dvd le_rfl (fun i _ hi => h ⟨i, hi⟩) (by omega) hlimit
  rw [requiredTarget_eq, min_eq_right hreached, reachedLimit]

theorem roundsTo_reachedLimit :
    RoundsTo compactTargets (claimLimit fTestNet fProofOfStake nTime)
      (reachedLimit fTestNet fProofOfStake nTime) :=
  have hlimit := claimLimit_bounds fTestNet fProofOfStake nTime
  roundsTo_target hlimit.1.le hlimit.2

/-! ## 6. When it is right -/

theorem toNat_sub_of_elapsed (h : 0 ≤ elapsed nCheckpointTime nTime) :
    ((nTime - nCheckpointTime).toNat : Int) = elapsed nCheckpointTime nTime := by
  have hle : nCheckpointTime ≤ nTime := UInt32.le_iff_toNat_le.mpr (by
    unfold elapsed at h
    omega)
  rw [UInt32.toNat_sub_of_le _ _ hle, elapsed]
  have := UInt32.le_iff_toNat_le.mp hle
  omega

/-- A block older than the checkpoint seems to be a century younger. -/
theorem toNat_sub_of_elapsed_neg (h : elapsed nCheckpointTime nTime < 0) :
    ((nTime - nCheckpointTime).toNat : Int) = 2 ^ 32 + elapsed nCheckpointTime nTime := by
  have hlt := nTime.toNat_lt
  have hlt' := nCheckpointTime.toNat_lt
  have hsub : (nTime - nCheckpointTime).toNat =
      (2 ^ 32 - nCheckpointTime.toNat + nTime.toNat) % 2 ^ 32 := UInt32.toNat_sub _ _
  unfold elapsed at h ⊢
  omega

theorem grownTarget_of_steps (q : Nat) :
    grownTarget nBase (5760 * q) = ((setCompact nBase.val * 2 * 2 ^ q : Int) : Rat) := by
  have hceil : ⌈(((5760 * q : Int)) : Rat) / 5760⌉ = (q : Int) := by
    rw [show (((5760 * q : Int)) : Rat) / 5760 = ((q : Int) : Rat) by push_cast; ring, Int.ceil_intCast]
  rw [grownTarget, hceil]
  push_cast
  rw [zpow_add₀ (by norm_num), zpow_one, zpow_natCast]
  ring

theorem grownTarget_le_of_neg {dt : Int} (h : dt < 0) :
    grownTarget nBase dt ≤ ((setCompact nBase.val * 2 : Int) : Rat) := by
  have hbase : (0 : Rat) < setCompact nBase.val := by exact_mod_cast nBase.property
  have hceil : ⌈(dt : Rat) / 5760⌉ ≤ 0 := Int.ceil_le.mpr (by
    have : (dt : Rat) < 0 := by exact_mod_cast h
    push_cast
    linarith)
  have hpow : (2 : Rat) ^ (1 + ⌈(dt : Rat) / 5760⌉) ≤ 2 ^ (1 : Int) :=
    zpow_le_zpow_right₀ (by norm_num) (by omega)
  rw [zpow_one] at hpow
  push_cast
  exact mul_le_mul_of_nonneg_left hpow hbase.le

theorem grownTarget_mono {dt dt' : Int} (h : dt ≤ dt') :
    grownTarget nBase dt ≤ grownTarget nBase dt' := by
  have hbase : (0 : Rat) < setCompact nBase.val := by exact_mod_cast nBase.property
  have hdt : (dt : Rat) ≤ dt' := by exact_mod_cast h
  have hceil : ⌈(dt : Rat) / 5760⌉ ≤ ⌈(dt' : Rat) / 5760⌉ := Int.ceil_mono (by linarith)
  exact mul_le_mul_of_nonneg_left (zpow_le_zpow_right₀ (by norm_num) (by omega)) hbase.le

/-- A target that the limit keeps down is the limit. -/
theorem requiredTarget_of_reached (h : (reachedLimit fTestNet fProofOfStake nTime : Rat) ≤
    grownTarget nBase (elapsed nCheckpointTime nTime)) :
    requiredTarget fTestNet fProofOfStake nBase.val nCheckpointTime nTime =
      reachedLimit fTestNet fProofOfStake nTime := by
  by_cases hdvd : 5760 ∣ (nTime - nCheckpointTime).toNat
  · obtain ⟨q, hq⟩ := hdvd
    have hbase := nBase.property
    have hlimit := claimLimit_bounds fTestNet fProofOfStake nTime
    have hgrown : reachedLimit fTestNet fProofOfStake nTime ≤ setCompact nBase.val * 2 * 2 ^ q := by
      rcases lt_or_ge (elapsed nCheckpointTime nTime) 0 with hneg | hpos
      · have htwice := h.trans (grownTarget_le_of_neg hneg)
        have hpow : (1 : Int) ≤ 2 ^ q := one_le_pow₀ (by norm_num)
        calc reachedLimit fTestNet fProofOfStake nTime ≤ setCompact nBase.val * 2 := by
              exact_mod_cast htwice
          _ ≤ setCompact nBase.val * 2 * 2 ^ q := le_mul_of_one_le_right (by omega) hpow
      · have hsteps : elapsed nCheckpointTime nTime = 5760 * q := by
          rw [← toNat_sub_of_elapsed hpos, hq]
          push_cast
          rfl
        rw [hsteps, grownTarget_of_steps] at h
        exact_mod_cast h
    rw [requiredTarget_of_dvd hq]
    refine roundsTo_reachedLimit.between (roundsTo_target (le_min (by positivity) hlimit.1.le) ?_)
      (le_min hgrown roundsTo_reachedLimit.le) (min_le_right _ _)
    exact (min_le_right _ _).trans_lt hlimit.2
  · exact requiredTarget_of_not_dvd hdvd

/-- **What is asked for when the count ends** is the easiest target that could be, rounded down. -/
theorem CountsDown.roundsTo (h : CountsDown fTestNet fProofOfStake nBase nCheckpointTime nTime) :
    RoundsTo (Int.cast '' compactTargets)
      (allowedTarget fTestNet fProofOfStake nBase nCheckpointTime nTime)
      (requiredTarget fTestNet fProofOfStake nBase.val nCheckpointTime nTime : Rat) := by
  have hlimit := claimLimit_bounds fTestNet fProofOfStake nTime
  rcases h with ⟨hpos, hdvd⟩ | hreached
  · obtain ⟨q, hq⟩ : ∃ q : Nat, elapsed nCheckpointTime nTime = 5760 * q := by
      obtain ⟨z, hz⟩ := hdvd
      exact ⟨z.toNat, by omega⟩
    have hnat := toNat_sub_of_elapsed hpos
    have hbase := nBase.property
    rw [requiredTarget_of_dvd (by omega : (nTime - nCheckpointTime).toNat = 5760 * q), allowedTarget,
      hq, grownTarget_of_steps, ← Int.cast_min, min_comm (claimLimit _ _ _)]
    exact roundsTo_ratCast (roundsTo_target (le_min (by positivity) hlimit.1.le)
      ((min_le_right _ _).trans_lt hlimit.2))
  · -- nothing that `nBits` can spell lies between the limit as it can and the limit
    rw [requiredTarget_of_reached hreached]
    have hround := roundsTo_ratCast (@roundsTo_reachedLimit fTestNet fProofOfStake nTime)
    exact ⟨⟨hround.mem, le_min hround.le hreached⟩,
      fun s hs => hround.le_of_mem hs.1 (hs.2.trans (min_le_left _ _))⟩

/-- A target asked for is no easier than it could be only when the count ends. -/
theorem CountsDown.of_le (h : (requiredTarget fTestNet fProofOfStake nBase.val nCheckpointTime nTime :
    Rat) ≤ allowedTarget fTestNet fProofOfStake nBase nCheckpointTime nTime) :
    CountsDown fTestNet fProofOfStake nBase nCheckpointTime nTime := by
  have hgrown := h.trans (min_le_right _ _)
  have of_eq (heq : requiredTarget fTestNet fProofOfStake nBase.val nCheckpointTime nTime =
      reachedLimit fTestNet fProofOfStake nTime) :
      CountsDown fTestNet fProofOfStake nBase nCheckpointTime nTime := Or.inr (heq ▸ hgrown)
  by_cases hdvd : 5760 ∣ (nTime - nCheckpointTime).toNat
  · obtain ⟨q, hq⟩ := hdvd
    rcases lt_or_ge (elapsed nCheckpointTime nTime) 0 with hneg | hpos
    · have hbase := nBase.property
      have hlimit := claimLimit_bounds fTestNet fProofOfStake nTime
      have hrequired := @requiredTarget_of_dvd fTestNet fProofOfStake nBase nCheckpointTime nTime q hq
      rcases le_or_gt (claimLimit fTestNet fProofOfStake nTime) (setCompact nBase.val * 2 * 2 ^ q)
        with hle | hlt
      · exact of_eq (by rw [hrequired, min_eq_right hle, reachedLimit])
      · -- a target that was doubled again is over the one at the checkpoint, even after rounding
        rw [min_eq_left hlt.le] at hrequired
        have hwrapped := toNat_sub_of_elapsed_neg hneg
        have htime := nCheckpointTime.toNat_lt
        have hq : q ≠ 0 := by
          rintro rfl
          unfold elapsed at hwrapped
          omega
        have htwice : requiredTarget fTestNet fProofOfStake nBase.val nCheckpointTime nTime ≤
            setCompact nBase.val * 2 := by
          exact_mod_cast hgrown.trans (grownTarget_le_of_neg hneg)
        have hlost := @lt_two_mul_target (setCompact nBase.val * 2 * 2 ^ q) (by positivity)
          (hlt.trans hlimit.2)
        have hpow : (2 : Int) ≤ 2 ^ q := le_self_pow₀ (by norm_num) hq
        have hdoubled : setCompact nBase.val * 2 * 2 ≤ setCompact nBase.val * 2 * 2 ^ q :=
          mul_le_mul_of_nonneg_left hpow (by omega)
        omega
    · exact Or.inl ⟨hpos, ⟨q, by
        rw [← toNat_sub_of_elapsed hpos, hq]
        push_cast
        rfl⟩⟩
  · exact of_eq (requiredTarget_of_not_dvd hdvd)

/-- **The check on arrival is right for two times exactly when the count ends for both**: each is a
whole number of steps after the checkpoint, or so late that the limit is reached. -/
theorem maxBits_right_iff :
    MaxBitsRight fTestNet fProofOfStake nBase nCheckpointTime nTime nTime' ↔
      CountsDown fTestNet fProofOfStake nBase nCheckpointTime nTime ∧
        CountsDown fTestNet fProofOfStake nBase nCheckpointTime nTime' := by
  constructor
  · intro h
    exact ⟨.of_le h.le, .of_le h.le'⟩
  · rintro ⟨h, h'⟩
    refine ⟨h.roundsTo.le, h'.roundsTo.le, fun hle => ?_, fun nBits hbits => ?_⟩
    · have hallowed : allowedTarget fTestNet fProofOfStake nBase nCheckpointTime nTime ≤
          allowedTarget fTestNet fProofOfStake nBase nCheckpointTime nTime' := by
        have htime := UInt32.le_iff_toNat_le.mp hle
        refine min_le_min (by exact_mod_cast claimLimit_mono hle) (grownTarget_mono ?_)
        unfold elapsed
        omega
      exact_mod_cast h.roundsTo.mono h'.roundsTo hallowed
    · exact_mod_cast h.roundsTo.le.trans_lt hbits

end

/-- A second after the checkpoint the easiest target there is will do. -/
theorem second_too_easy : ¬ MaxBitsRight false false ⟨0x1b00ffff, by decide +kernel⟩ 1700000000
    1700000001 1700000001 := by
  intro h
  rcases CountsDown.of_le h.le with ⟨-, hdvd⟩ | hreached
  · revert hdvd
    decide +kernel
  · have hceil : ⌈((elapsed 1700000000 1700000001 : Int) : Rat) / 5760⌉ = 1 := by
      rw [show elapsed 1700000000 1700000001 = 1 by decide +kernel]
      norm_num [Int.ceil_eq_iff]
    have hlt : setCompact 0x1b00ffff * 4 < reachedLimit false false 1700000001 := by decide +kernel
    have hle : reachedLimit false false 1700000001 ≤ setCompact 0x1b00ffff * 4 := by
      rw [grownTarget, hceil] at hreached
      exact_mod_cast hreached
    exact absurd hle (not_le.mpr hlt)

end Breakout
