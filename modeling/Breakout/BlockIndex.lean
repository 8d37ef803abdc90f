/-
# The block index, and what a block may mint

`CBlockIndex` with the fields that connecting a block reads and writes: where the block lies on
disk, its height and times, and for each colour the money supply and the total that was ever
minted.  The two counters are `int64_t` and wrap.

A branch is a list of indices, the newest first.  The genesis block is indexed but never
connected, so its counters are zero and its transactions are not in the transaction index.
-/
import Breakout.Block

namespace Breakout

open Lib

/-! ## 1. Indices -/

structure CBlockIndex where
  nFile : UInt32
  nBlockPos : UInt32
  nHeight : Nat
  nTime : UInt32
  nVersion : Int32
  vTotalMint : Color → Int64
  vMoneySupply : Color → Int64
  vCoinbase : Color → Int64
  nStakeColor : Int32
  nCoinbaseColor : Int32

/-- Where `WriteToDisk` put a block.  `AppendBlockFile` numbers the files from one and never gets
to the number that stands for "null". -/
structure DiskBlockPos where
  nFile : UInt32
  nBlockPos : UInt32
  notNull : nFile ≠ 0xffffffff

/-- The first file has a number that is not the one for "null". -/
theorem firstFile_notNull : (1 : UInt32) ≠ 0xffffffff := by decide

/-- `CBlockIndex(nFile, nBlockPos, block)`, as `AddToBlockIndex` links it to its parent. -/
def newBlockIndex (pos : DiskBlockPos) (block : CBlock) (pprev : CBlockIndex) : CBlockIndex where
  nFile := pos.nFile
  nBlockPos := pos.nBlockPos
  nHeight := pprev.nHeight + 1
  nTime := block.nTime
  nVersion := block.nVersion
  vTotalMint _ := 0
  vMoneySupply _ := 0
  vCoinbase _ := 0
  nStakeColor := Color.none.toInt32
  nCoinbaseColor := Color.none.toInt32

/-- The index of the genesis block. -/
def genesisIndex (pos : DiskBlockPos) : CBlockIndex where
  nFile := pos.nFile
  nBlockPos := pos.nBlockPos
  nHeight := 0
  nTime := UInt32.ofNat genesisTime
  nVersion := 1
  vTotalMint _ := 0
  vMoneySupply _ := 0
  vCoinbase _ := 0
  nStakeColor := Color.none.toInt32
  nCoinbaseColor := Color.none.toInt32

/-- The colours a loop `for (i = 1; i < N_COLORS; ++i)` visits. -/
def realColors : List Color := (List.finRange nColors).tail

theorem mem_realColors {c : Color} : c ∈ realColors ↔ c ≠ Color.none := by
  revert c
  decide

/-! ## 2. Rewards -/

/-- `AMOUNT`, at a colour that is in the tables. -/
structure Amount where
  nValue : Int64
  nColor : Color
deriving DecidableEq, Repr

/-- The mining reward past the premines: fifty coins, or ten once blocks come five times as
fast, halved again and again. -/
def sisSubsidy (fork : Fork) (halvings : Nat) : Int64 :=
  if halvings ≥ 64 then 0
  else if fork < .fork005 then (50 * coin .sis) >>> Int64.ofNat halvings
  else (10 * coin .sis) >>> Int64.ofNat halvings

/-- `GetPoWSubsidy`: the premine of the colour numbered by the height, then SIS. -/
def getPoWSubsidy (pindexPrev : CBlockIndex) : Amount :=
  if h : pindexPrev.nHeight + 1 < nColors then
    ⟨powSubsidy ⟨pindexPrev.nHeight + 1, h⟩, ⟨pindexPrev.nHeight + 1, h⟩⟩
  else
    ⟨sisSubsidy (getFork pindexPrev.nTime.toNat) ((pindexPrev.nHeight + 1) / 2103840), .sis⟩

def getProofOfWorkReward (pindexPrev : CBlockIndex) : Amount := getPoWSubsidy pindexPrev

/-- The reward for staking a card with the marker `nSubsidy` in `BASE_POS_REWARD`. -/
def deckReward (pindexPrev : CBlockIndex) (mint : Color) (nSubsidy : Int64) : Int64 :=
  if getFork pindexPrev.nTime.toNat < .fork003 then 0
  else if getFork pindexPrev.nTime.toNat < .fork004 then
    2 * ((getPoWSubsidy pindexPrev).nValue * coin mint +
      (getPoWSubsidy pindexPrev).nValue * cent mint * nSubsidy)
  else 10 * (getPoWSubsidy pindexPrev).nValue +
    nSubsidy * ((getPoWSubsidy pindexPrev).nValue / 10)

/-- The reward for staking BRX: a fixed amount or a share of the supply, whichever is more. -/
def brxReward (pindexPrev : CBlockIndex) (mint : Color) (nSubsidy : Int64) : Int64 :=
  let supply := pindexPrev.vMoneySupply mint
  let fork := getFork pindexPrev.nTime.toNat
  let nSubsidy' :=
    if fork < .fork002 then nSubsidy
    else if fork < .fork006 then nSubsidy + nSubsidy
    else 2 * nSubsidy / 5
  let minReward :=
    if fork < .fork002 then 5 * (supply / 100) / 105192
    else if fork < .fork005 then 5 * (supply / 100) / 52596
    else supply / 5259600
  if nSubsidy' < minReward then minReward else nSubsidy'

def getProofOfStakeReward (pindexPrev : CBlockIndex) (stake : Color) : Amount where
  nValue :=
    if 0 < basePosReward stake then
      if basePosReward stake < baseCoin then
        deckReward pindexPrev (mintColor stake) (basePosReward stake)
      else brxReward pindexPrev (mintColor stake) (basePosReward stake)
    else 0
  nColor := mintColor stake

theorem sisSubsidy_nonneg (fork : Fork) (halvings : Nat) :
    0 ≤ (sisSubsidy fork halvings).toInt := by
  have key : ∀ h : Fin 64, 0 ≤ ((50 * coin .sis) >>> Int64.ofNat h.val).toInt ∧
      0 ≤ ((10 * coin .sis) >>> Int64.ofNat h.val).toInt := by decide +kernel
  unfold sisSubsidy
  by_cases h64 : halvings ≥ 64
  · simp [h64]
  · obtain ⟨h50, h10⟩ := key ⟨halvings, not_le.mp h64⟩
    rw [if_neg h64]
    split
    · exact h50
    · exact h10

theorem powSubsidy_bounds (c : Color) : 0 ≤ (powSubsidy c).toInt ∧ (powSubsidy c).toInt < 2 ^ 62 := by
  revert c
  decide

/-- What mining mints is not negative. -/
theorem getProofOfWorkReward_nonneg (pindexPrev : CBlockIndex) :
    0 ≤ (getProofOfWorkReward pindexPrev).nValue.toInt := by
  unfold getProofOfWorkReward getPoWSubsidy
  split_ifs with h
  · exact (powSubsidy_bounds _).1
  · exact sisSubsidy_nonneg _ _

/-- Mining mints a colour that is neither BRK nor SIS only at the height of its number, and then
its premine. -/
theorem getProofOfWorkReward_premine {pindexPrev : CBlockIndex} {c : Color}
    (h : (getProofOfWorkReward pindexPrev).nColor = c) (hsis : c ≠ .sis) :
    pindexPrev.nHeight + 1 = c.val ∧
      (getProofOfWorkReward pindexPrev).nValue = powSubsidy c := by
  unfold getProofOfWorkReward getPoWSubsidy at h ⊢
  split_ifs at h ⊢ with hlt
  · subst h
    exact ⟨rfl, rfl⟩
  · exact absurd h.symm hsis

end Breakout
