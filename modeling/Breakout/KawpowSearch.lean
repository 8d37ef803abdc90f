/-
# The search for a kawpow block

`MineWithKawpow` makes a block and tries one nonce after another.  It keeps the header hash and the
target beside the block, and renews them when it gives the block a new time: first the header hash,
then, "if needed", the bits and the target.  But the header hash is made over the bits, too.  So
when the bits change, the miner goes on with the header hash of the old ones, until the time changes
again.  What it finds there is no solution of the block that it has.

`search_iff` says when every attempt is made on the block that would be submitted: in each round
that gives the block a new time, the new bits have the header hash of the old ones.  That is, they
are the old ones, or the hash collides.

Left out are the counts of hashes for the log, and what becomes of a solution that is valid.
-/
import Breakout.AcceptBlock
import Breakout.Kawpow
import Breakout.Kernel
import Breakout.Lib.History

namespace Breakout

open Lib

/-! ## 1. The target -/

def compactToUint256 (nCompact : UInt32) : UInt256 :=
  let nSize := nCompact.toNat / 2 ^ 24
  let nWord := nCompact.toNat % 2 ^ 23
  if nSize ≤ 3 then BitVec.ofNat 256 (nWord >>> (8 * (3 - nSize)))
  else BitVec.ofNat 256 nWord <<< (8 * (nSize - 3))

/-- It is what `SetCompact` and `getuint256` make of the same number. -/
theorem compactToUint256_eq (nCompact : UInt32) :
    compactToUint256 nCompact = getuint256 (setCompact nCompact) := by
  have habs : ∀ (m : Nat) (p : Prop) [Decidable p],
      (if p then -(m : Int) else (m : Int)).natAbs = m := by
    intro m p _
    split_ifs
    · rw [Int.natAbs_neg, Int.natAbs_natCast]
    · rw [Int.natAbs_natCast]
  have hpow : ∀ k, 2 ^ (8 * k) = 256 ^ k := fun k => by rw [pow_mul]; rfl
  unfold compactToUint256 getuint256 setCompact
  dsimp only
  rw [habs]
  split_ifs with hsize
  · rw [Nat.shiftRight_eq_div_pow, hpow]
  · apply BitVec.eq_of_toNat_eq
    rw [BitVec.toNat_shiftLeft, BitVec.toNat_ofNat, BitVec.toNat_ofNat, Nat.shiftLeft_eq, hpow,
      Nat.mod_mul_mod]

variable (K : Crypto)

/-! ## 2. `CheckWorkKawpow` -/

/-- "Verify the hash meets the target" -/
def CBlock.MeetsHash (block : CBlock) (hashTarget : UInt256) : Prop :=
  ¬ block.kawpowHashOnlyMix K > hashTarget

instance (block : CBlock) (hashTarget : UInt256) : Decidable (block.MeetsHash K hashTarget) :=
  inferInstanceAs (Decidable (¬ _))

/-- `CheckWorkKawpow`, as far as it looks at nothing but the block and the clock. -/
def checkWorkKawpow (nAdjustedTime : Nat) (pblock : CBlock) (hashTarget : UInt256) :
    Except String Unit :=
  if pblock.isKawpowBlock = false then
    .error "CheckWorkKawpow() : block is not configured for KAWPoW mining"
  else if pblock.mixHash = 0 then .error "CheckWorkKawpow() : mix_hash is null"
  else if ¬ pblock.MeetsHash K hashTarget then
    .error "CheckWorkKawpow() : KAWPoW hash does not meet target"
  else if pblock.nTime.toNat < launchTime then
    .error "CheckWorkKawpow() : block timestamp before launch time"
  else if getFork nAdjustedTime < .fork007 then
    .error "CheckWorkKawpow() : KAWPoW block before activation time"
  else if getFork pblock.nTime.toNat < .fork007 then
    .error "CheckWorkKawpow() : KAWPoW block time before activation time"
  else .ok ()

/-! ## 3. `MineWithKawpow` -/

/-- What stays as it was when the block was made. -/
structure SearchSetup where
  nMaxHeight : Int32
  nMedianTimePast : Int64
  nTransactionsUpdatedLast : UInt32
  nStart : Int64

/-- What a round of the search meets.  The tip is looked at twice. -/
structure SearchRound where
  fKawpowMiningActive : Bool
  nBestHeight : Int32
  fTipOther : Bool
  fShutdown : Bool
  fTipChanged : Bool
  nTransactionsUpdated : UInt32
  nTime : Int64
  nAdjustedTime : Int64
  nNewBits : UInt32

/-- A hash: the block, with its nonce and, if the hash meets the target, the mix hash; and what was
searched. -/
structure HashAttempt where
  pblock : CBlock
  headerHash : UInt256
  hashTarget : UInt256
  fFound : Bool

/-- The variables of the search.  The attempts are not in the program. -/
structure KawpowSearch where
  pblock : CBlock
  headerHash : UInt256
  hashTarget : UInt256
  nHashCount : UInt64
  fSearching : Bool
  attempts : List HashAttempt

/-- The block with another time. -/
def CBlock.retimed (pblock : CBlock) (nNewTime : Int64) : CBlock :=
  { pblock with nTime := nNewTime.toUInt64.toUInt32 }

namespace KawpowSearch

/-- The block is made, and nothing tried yet. -/
def start (pblock : CBlock) (nNonce64 : UInt64) : KawpowSearch where
  pblock := { pblock with nNonce64 := nNonce64 }
  headerHash := pblock.getKAWPOWHeaderHash K
  hashTarget := compactToUint256 pblock.nBits
  nHashCount := 0
  fSearching := true
  attempts := []

variable (P : Progpow K) (env : SearchSetup)

/-- "Check for stop conditions periodically" -/
def Checks (s : KawpowSearch) (r : SearchRound) : Prop :=
  s.nHashCount &&& 0xFFFF = 0 ∨ (s.nHashCount % 0xFF = 0 ∧ r.fTipOther = true)

instance (s : KawpowSearch) (r : SearchRound) : Decidable (s.Checks r) :=
  inferInstanceAs (Decidable (_ ∨ _))

/-- "Check if we should stop mining", "if block chain tip changed", and "if transactions updated and
enough time passed". -/
def Stops (r : SearchRound) : Prop :=
  r.fShutdown = true ∨ r.fTipChanged = true ∨
    (r.nTransactionsUpdated ≠ env.nTransactionsUpdatedLast ∧ r.nTime - env.nStart > 60)

instance (r : SearchRound) : Decidable (Stops env r) := inferInstanceAs (Decidable (_ ∨ _))

/-- `nNewTime` -/
def newTime (r : SearchRound) : Int64 := max (env.nMedianTimePast + 1) r.nAdjustedTime

/-- `pblock->nTime != nNewTime` -/
def Retimes (s : KawpowSearch) (r : SearchRound) : Prop :=
  Int64.ofNat s.pblock.nTime.toNat ≠ newTime env r

instance (s : KawpowSearch) (r : SearchRound) : Decidable (s.Retimes env r) :=
  inferInstanceAs (Decidable (_ ≠ _))

/-- "Update timestamp" -/
def refresh (s : KawpowSearch) (r : SearchRound) : KawpowSearch :=
  if s.Retimes env r then
    let pblock := s.pblock.retimed (newTime env r)
    -- "Recalculate header hash with new timestamp"
    let s := { s with pblock := pblock, headerHash := pblock.getKAWPOWHeaderHash K }
    -- "Update difficulty if needed"
    if pblock.nBits ≠ r.nNewBits then
      { s with
        pblock := { pblock with nBits := r.nNewBits }
        hashTarget := compactToUint256 r.nNewBits }
    else s
  else s

/-- From "Calculate KAWPoW hash" on.  The search ends with a solution, and when the nonce overflows.
-/
def attempt (s : KawpowSearch) : KawpowSearch :=
  let result := P.hash s.pblock.nHeight.toNat s.headerHash s.pblock.nNonce64
  let fFound := decide (result.2 ≤ s.hashTarget)
  let pblock := if fFound then { s.pblock with mixHash := result.1 } else s.pblock
  let next := if fFound then pblock else { pblock with nNonce64 := pblock.nNonce64 + 1 }
  { s with
    pblock := next
    nHashCount := s.nHashCount + 1
    fSearching := !fFound && next.nNonce64 != 0
    attempts := ⟨pblock, s.headerHash, s.hashTarget, fFound⟩ :: s.attempts }

/-- A round up to the hash, unless the search ends before it. -/
def beforeHash (s : KawpowSearch) (r : SearchRound) : Option KawpowSearch :=
  if s.fSearching = false ∨ r.fKawpowMiningActive = false then none
  else if env.nMaxHeight > 0 ∧ r.nBestHeight ≥ env.nMaxHeight then none
  else if s.Checks r then
    if Stops env r then none else some { s.refresh K env r with nHashCount := 0 }
  else some s

/-- A round of the loop. -/
def round (s : KawpowSearch) (r : SearchRound) : KawpowSearch :=
  match s.beforeHash K env r with
  | none => { s with fSearching := false }
  | some s => s.attempt K P

/-! ## 4. The block that is searched -/

/-- The header hash and the target are those of the block. -/
structure Matched (s : KawpowSearch) : Prop where
  header : s.headerHash = s.pblock.getKAWPOWHeaderHash K
  target : s.hashTarget = getuint256 (setCompact s.pblock.nBits)

end KawpowSearch

/-- **The attempt is made on the block**: what is searched is the block's header hash and the target
of its bits, and a solution passes the hash test of `CheckWorkKawpow`. -/
structure HashAttempt.Right (a : HashAttempt) : Prop where
  header : a.headerHash = a.pblock.getKAWPOWHeaderHash K
  target : a.hashTarget = getuint256 (setCompact a.pblock.nBits)
  found : a.fFound = true → a.pblock.MeetsHash K a.hashTarget

namespace KawpowSearch

/-- Every attempt so far was made on the block. -/
def AllRight (s : KawpowSearch) : Prop := ∀ a ∈ s.attempts, a.Right K

variable {K} {P : Progpow K} {env : SearchSetup} {s s' : KawpowSearch} {r : SearchRound}

variable (K env) in
/-- The header hash of the block with the new time is the same with the new bits. -/
def FitsBits (s : KawpowSearch) (r : SearchRound) : Prop :=
  CBlock.getKAWPOWHeaderHash K { s.pblock.retimed (newTime env r) with nBits := r.nNewBits } =
    (s.pblock.retimed (newTime env r)).getKAWPOWHeaderHash K

variable (K env) in
/-- **The new bits fit the header hash**, in a round that gives the block another time. -/
def KeepsHeader (s : KawpowSearch) (r : SearchRound) : Prop :=
  (s.beforeHash K env r).isSome → s.Checks r → s.Retimes env r → s.FitsBits K env r

theorem matched_start (pblock : CBlock) (nNonce64 : UInt64) : (start K pblock nNonce64).Matched K :=
  ⟨rfl, compactToUint256_eq pblock.nBits⟩

/-- A refresh keeps the target right, and the header hash if the new bits fit it. -/
theorem matched_refresh_iff (h : s.Matched K) :
    (s.refresh K env r).Matched K ↔ (s.Retimes env r → s.FitsBits K env r) := by
  unfold refresh FitsBits
  by_cases htime : s.Retimes env r
  · rw [if_pos htime]
    dsimp only
    by_cases hbits : (s.pblock.retimed (newTime env r)).nBits = r.nNewBits
    · rw [if_neg (not_not.mpr hbits)]
      refine iff_of_true ⟨rfl, ?_⟩ fun _ => by rw [← hbits]
      rw [h.target]
      rfl
    · rw [if_pos hbits]
      exact ⟨fun hmatched _ => hmatched.header.symm, fun hkept =>
        ⟨(hkept htime).symm, compactToUint256_eq r.nNewBits⟩⟩
  · rw [if_neg htime]
    exact iff_of_true h fun h' => absurd h' htime

/-- The attempt is right when the search is; and so is the search that goes on, if the attempt was.
-/
theorem attempt_spec (s : KawpowSearch) : ∃ a, (s.attempt K P).attempts = a :: s.attempts ∧
    (a.Right K ↔ s.Matched K) ∧
    ((s.attempt K P).fSearching = true → (s.Matched K ↔ (s.attempt K P).Matched K)) := by
  refine ⟨_, rfl, ?_, ?_⟩
  · by_cases hfound :
        (P.hash s.pblock.nHeight.toNat s.headerHash s.pblock.nNonce64).2 ≤ s.hashTarget
    · rw [if_pos (decide_eq_true hfound)]
      refine ⟨fun h => ⟨h.header, h.target⟩, fun h => ⟨h.header, h.target, fun _ => ?_⟩⟩
      -- the final hash is the one that the block has with its mix hash
      have hfinal := P.final_eq s.pblock.nHeight.toNat s.headerHash s.pblock.nNonce64
      rw [h.header] at hfinal hfound
      unfold CBlock.MeetsHash CBlock.kawpowHashOnlyMix
      rw [h.header]
      rw [hfinal] at hfound
      exact BitVec.not_lt.mpr hfound
    · rw [if_neg (by simpa using hfound)]
      exact ⟨fun h => ⟨h.header, h.target⟩, fun h => ⟨h.header, h.target, fun hyes =>
        absurd (of_decide_eq_true hyes) hfound⟩⟩
  · intro hgoes
    by_cases hfound :
        (P.hash s.pblock.nHeight.toNat s.headerHash s.pblock.nNonce64).2 ≤ s.hashTarget
    · simp [attempt, hfound] at hgoes
    · unfold attempt
      simp only [hfound, decide_false, Bool.false_eq_true, if_false]
      exact ⟨fun h => ⟨h.header, h.target⟩, fun h => ⟨h.header, h.target⟩⟩

theorem attempts_refresh (s : KawpowSearch) : (s.refresh K env r).attempts = s.attempts := by
  unfold refresh
  dsimp only
  split_ifs <;> rfl

/-- What is searched before the hash. -/
theorem beforeHash_spec (hs : s.fSearching = true → s.Matched K)
    (h : s.beforeHash K env r = some s') : s'.attempts = s.attempts ∧
      (s'.Matched K ↔ (s.Checks r → s.Retimes env r → s.FitsBits K env r)) := by
  unfold beforeHash at h
  by_cases hoff : s.fSearching = false ∨ r.fKawpowMiningActive = false
  · rw [if_pos hoff] at h
    cases h
  rw [if_neg hoff] at h
  have hmatched : s.Matched K := hs (by simpa using (not_or.mp hoff).1)
  by_cases hheight : env.nMaxHeight > 0 ∧ r.nBestHeight ≥ env.nMaxHeight
  · rw [if_pos hheight] at h
    cases h
  rw [if_neg hheight] at h
  by_cases hchecks : s.Checks r
  · rw [if_pos hchecks] at h
    by_cases hstops : Stops env r
    · rw [if_pos hstops] at h
      cases h
    rw [if_neg hstops, Option.some.injEq] at h
    subst h
    have hcount : ({ s.refresh K env r with nHashCount := 0 } : KawpowSearch).Matched K ↔
        (s.refresh K env r).Matched K :=
      ⟨fun h => ⟨h.header, h.target⟩, fun h => ⟨h.header, h.target⟩⟩
    refine ⟨attempts_refresh s, ?_⟩
    rw [hcount, matched_refresh_iff hmatched]
    exact ⟨fun h _ => h, fun h => h hchecks⟩
  · rw [if_neg hchecks, Option.some.injEq] at h
    subst h
    exact ⟨rfl, iff_of_true hmatched fun h => absurd h hchecks⟩

/-- **One round.**  The search was right; so is the attempt, if the bits fit. -/
theorem round_spec (hmatched : s.fSearching = true → s.Matched K) (hright : s.AllRight K) :
    ((s.round K P env r).AllRight K ↔ KeepsHeader K env s r) ∧
    ((s.round K P env r).AllRight K → (s.round K P env r).fSearching = true →
      (s.round K P env r).Matched K) := by
  unfold round KeepsHeader
  cases hbefore : s.beforeHash K env r with
  | none =>
    refine ⟨iff_of_true hright ?_, fun _ hgoes => absurd hgoes (by simp)⟩
    simp
  | some s₁ =>
    obtain ⟨hsame, hkept⟩ := beforeHash_spec hmatched hbefore
    obtain ⟨a, hattempts, ha, hgoes⟩ := attempt_spec (P := P) s₁
    have hall : (s₁.attempt K P).AllRight K ↔ s₁.Matched K := by
      unfold AllRight
      rw [hattempts, List.forall_mem_cons, ha, hsame]
      exact and_iff_left hright
    dsimp only
    rw [hall]
    exact ⟨by simpa using hkept, fun h hon => (hgoes hon).mp h⟩

/-- **When the miner searches the block that it will submit.**  Every attempt of every run is made
on the block, if and only if in every round of the run that gives the block a new time, the new bits
leave the header hash as it is. -/
theorem search_iff (K : Crypto) (P : Progpow K) (env : SearchSetup) (pblock : CBlock)
    (nNonce64 : UInt64) (rounds : List SearchRound) :
    Everywhere (round K P env) (start K pblock nNonce64) (AllRight K) rounds ↔
      EveryStep (round K P env) (start K pblock nNonce64) (KeepsHeader K env) rounds := by
  refine everywhere_iff (J := fun s => s.AllRight K → s.fSearching = true → s.Matched K)
    (fun _ _ => matched_start pblock nNonce64) nofun (fun s r hJ hright => ?_)
    (fun s r hJ hright => ?_) rounds
  · exact (round_spec (hJ hright) hright).2
  · exact (round_spec (hJ hright) hright).1

/-! ## 5. A solution of another block -/

/-- Functions to evaluate the example with: the header hash is small for the bits `0x1d00ffff` only,
and the final hash is the header hash. -/
def bitsCrypto : Crypto :=
  { Crypto.sample [] with
    hash := fun b => if (b.drop 72).take 4 = serUInt32 0x1d00ffff then 0 else 2 ^ 255
    progpowNoVerify := fun _ hashHeader _ _ => hashHeader }

/-- Every mix hash is one. -/
def bitsProgpow : Progpow bitsCrypto := ⟨fun _ hashHeader _ => (1, hashHeader), fun _ _ _ => rfl⟩

/-- No height limit; the block before is some minutes old. -/
def sampleSetup : SearchSetup := ⟨0, 1777836000, 0, 1777836782⟩

/-- Ten seconds have passed since the block was made, and the bits have changed. -/
def newBitsRound : SearchRound :=
  ⟨true, 600, false, false, false, 0, 1777836792, 1777836792, 0x1d00fffe⟩

/-- **A solution of another block.**  The first round gives the block a new time and new bits,
searches the header hash of the old bits, and reports a nonce, which does not pass the hash test. -/
theorem old_header_searched :
    ¬ Everywhere (round bitsCrypto bitsProgpow sampleSetup) (start bitsCrypto unminedBlock 0)
        (AllRight bitsCrypto) [newBitsRound] ∧
      ∃ a ∈ ((start bitsCrypto unminedBlock 0).round bitsCrypto bitsProgpow sampleSetup
          newBitsRound).attempts,
        a.fFound = true ∧ a.headerHash ≠ a.pblock.getKAWPOWHeaderHash bitsCrypto ∧
          checkWorkKawpow bitsCrypto 1777836792 a.pblock a.hashTarget =
            .error "CheckWorkKawpow() : KAWPoW hash does not meet target" := by
  have hfound : ∃ a ∈ ((start bitsCrypto unminedBlock 0).round bitsCrypto bitsProgpow sampleSetup
      newBitsRound).attempts, a.fFound = true ∧
        a.headerHash ≠ a.pblock.getKAWPOWHeaderHash bitsCrypto ∧
          checkWorkKawpow bitsCrypto 1777836792 a.pblock a.hashTarget =
            .error "CheckWorkKawpow() : KAWPoW hash does not meet target" := by
    refine ⟨_, List.mem_cons_self, ?_, ?_, ?_⟩
    · decide +kernel
    · decide +kernel
    · decide +kernel
  refine ⟨fun h => ?_, hfound⟩
  obtain ⟨a, ha, -, hheader, -⟩ := hfound
  exact hheader (h [newBitsRound] (List.prefix_refl _) a ha).header

end KawpowSearch

end Breakout
