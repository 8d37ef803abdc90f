/-
# The target of the next block

`BreakoutGravityWave` looks back over the last twenty-four blocks of a proof type: their targets are
averaged, and the average is scaled by the time they took, which counts for no less than a third and
no more than three times what it should have been.  `ComputeMaxBits` says which targets are possible
some time after a given one; `ProcessBlock` refuses blocks that claim an easier one.

A chain is a branch of the block tree, so that "the last block of a type" is found by following
parents.
-/
import Breakout.BestChain

namespace Breakout

open Lib

/-! ## 1. Targets -/

/-- `CBigNum::GetCompact`.  OpenSSL writes a number as its magnitude in bytes, the highest first, with
the sign in the top bit, so that a magnitude that fills its bytes gets one more. -/
def getCompact (bn : Int) : UInt32 :=
  let m := bn.natAbs
  let nSize := if m = 0 then 0 else Nat.size m / 8 + 1
  let mantissa := if nSize ≤ 3 then m * 256 ^ (3 - nSize) else m / 256 ^ (nSize - 3)
  UInt32.ofNat (nSize * 2 ^ 24 + mantissa + if bn < 0 then 2 ^ 23 else 0)

def getTargetLimit (fTestNet fProofOfStake : Bool) (nTime : Nat) : Int :=
  if fProofOfStake then (if fTestNet then 2 ^ 248 - 1 else 2 ^ 242 - 1)
  else powTargetLimit fTestNet nTime

def getTargetSpacing (fTestNet fProofOfStake : Bool) (nTime : Nat) : Int64 :=
  if fProofOfStake then
    if fTestNet then 60 else if getFork nTime < .fork005 then 600 else 120
  else
    if fTestNet then 300 else if getFork nTime < .fork005 then 600 else 120

def kawpowIsActive (nTime : Nat) : Bool := decide (Fork.fork007 ≤ getFork nTime)

/-! ## 2. The last blocks of a type -/

namespace BlockPtr

/-- `GetLastBlockIndex`: the genesis block is the last of either type. -/
def getLastBlockIndex (fProofOfStake : Bool) : BlockPtr → BlockPtr
  | .root b => .root b
  | .child b p =>
    if b.block.isProofOfStake = fProofOfStake then .child b p
    else getLastBlockIndex fProofOfStake p

/-- The first entries of `vpIndex`, the newest first; `none` when the genesis block is among them. -/
def lastBlocks (fProofOfStake : Bool) : Nat → BlockPtr → Option (List BlockPtr)
  | 0, _ => some []
  | _ + 1, .root _ => none
  | n + 1, .child b p =>
    (lastBlocks fProofOfStake n (getLastBlockIndex fProofOfStake p)).map (.child b p :: ·)

end BlockPtr

/-! ## 3. `BreakoutGravityWave` -/

def blockSpan : Nat := 24

/-- `PastDifficultyAverage`, from the blocks that are left and the number of those before. -/
def pastDifficultyAverage : Nat → Int → List BlockPtr → Int
  | _, avg, [] => avg
  | n, avg, p :: ps =>
    let avg' := if n = 0 then setCompact p.top.block.nBits
      else (avg * (n + 1) + setCompact p.top.block.nBits).tdiv (n + 2)
    pastDifficultyAverage (n + 1) avg' ps

/-- `nActualTimespan` after the loop, from `LastBlockTime` and the blocks that are left.  A block of
time zero counts as none. -/
def actualTimespan : Int64 → List BlockPtr → Int64
  | _, [] => 0
  | nLast, p :: ps =>
    let nTime := Int64.ofNat p.top.block.nTime.toNat
    (if 0 < nLast then nLast - nTime else 0) + actualTimespan nTime ps

/-- "Diff adjustment" for a long time without work: the square of the days since the last block of
work, times the seconds since. -/
def virtualTimespan (fTestNet : Bool) (nTargetSpacing nLastTime nPrevTime : Int64) : Int64 :=
  let delta := if 0 < nLastTime - nPrevTime then nLastTime - nPrevTime else 0
  let interval := if fTestNet then nTargetSpacing * Int64.ofNat blockSpan else 86400
  let nVirtualDays := delta / interval
  nVirtualDays * nVirtualDays * delta

/-- A time span kept between a third of the target's and three times it. -/
def clampTimespan (nTargetTimespan nActualTimespan : Int64) : Int64 :=
  let n := if nActualTimespan < nTargetTimespan / 3 then nTargetTimespan / 3 else nActualTimespan
  if n > nTargetTimespan * 3 then nTargetTimespan * 3 else n

def breakoutGravityWave (fTestNet : Bool) (nTime : UInt32) (pindexLast : BlockPtr)
    (fProofOfStake : Bool) : UInt32 :=
  let bnTargetLimit := getTargetLimit fTestNet fProofOfStake nTime.toNat
  let nLastTime := pindexLast.top.block.nTime
  -- "reset target if this is the first kawpow block"
  if fProofOfStake = false ∧ getFork nLastTime.toNat ≤ .fork006 ∧
      getFork nTime.toNat = .fork007 then
    getCompact bnTargetLimit
  else
    let pindexPrev := pindexLast.getLastBlockIndex fProofOfStake
    match pindexPrev.lastBlocks fProofOfStake blockSpan with
    | none => getCompact bnTargetLimit
    | some vpIndex =>
      let nTargetSpacing := getTargetSpacing fTestNet fProofOfStake nLastTime.toNat
      let nTargetTimespan := Int64.ofNat blockSpan * nTargetSpacing
      let nClamped := clampTimespan nTargetTimespan (actualTimespan 0 vpIndex)
      let nActualTimespan :=
        if fProofOfStake = false ∧ kawpowIsActive nLastTime.toNat = true then
          nClamped + virtualTimespan fTestNet nTargetSpacing (Int64.ofNat nLastTime.toNat)
            (Int64.ofNat pindexPrev.top.block.nTime.toNat)
        else nClamped
      let bnNew := (pastDifficultyAverage 0 0 vpIndex * nActualTimespan.toInt).tdiv
        nTargetTimespan.toInt
      getCompact (if bnNew > bnTargetLimit then bnTargetLimit else bnNew)

def getNextTargetRequired (fTestNet : Bool) (nTime : UInt32) (pindexLast : BlockPtr)
    (fProofOfStake : Bool) : UInt32 :=
  breakoutGravityWave fTestNet nTime pindexLast fProofOfStake

/-! ## 4. The easiest target after some time -/

/-- The loop of `ComputeMaxBits`: the counter is unsigned and wraps.  A positive target is past every
limit after as many rounds as a number has bits; one that is not would keep the loop going. -/
def maxBitsLoop (bnTargetLimit : Int) : Nat → UInt32 → Int → Int
  | 0, _, bnResult => bnResult
  | fuel + 1, nDeltaTime, bnResult =>
    if 0 < nDeltaTime ∧ bnResult < bnTargetLimit then
      maxBitsLoop bnTargetLimit fuel (nDeltaTime - 5760) (bnResult * 2)
    else bnResult

def computeMaxBits (fTestNet : Bool) (nBase nDeltaTime : UInt32) (fProofOfStake : Bool)
    (nTime : Nat) : UInt32 :=
  let bnTargetLimit := getTargetLimit fTestNet fProofOfStake nTime
  let bnResult := maxBitsLoop bnTargetLimit 256 nDeltaTime (setCompact nBase * 2)
  getCompact (if bnResult > bnTargetLimit then bnTargetLimit else bnResult)

def computeMinWork (fTestNet : Bool) (nBase nDeltaTime nTime : UInt32) : UInt32 :=
  computeMaxBits fTestNet nBase nDeltaTime false nTime.toNat

def computeMinStake (fTestNet : Bool) (nBase nDeltaTime : UInt32) : UInt32 :=
  computeMaxBits fTestNet nBase nDeltaTime true genesisTime

end Breakout
