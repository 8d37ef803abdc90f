/-
# Colours, their tables, and the forks

Every amount on the chain has a colour: two staking and spending currencies (BRX, BRK), an
atomic currency (BAM), the 53 cards of a deck, and the mining currency (SIS).  A colour on
the wire is a 32-bit integer; inside the program it is an index into tables of `N_COLORS`
entries.  The two are kept apart here: `Int32` is what a message carries, `Color` is an index
a table really has, and `tableIndex` is the one way from the first to the second.  It stops
with `oob` where the C++ reads outside the table.

The tables are those of `colors.cpp`.  They are constant over each suit except for the stake
reward marker, so `perColor` writes a table with one function for the suits.
-/
import Breakout.Lib.Run
import Breakout.Lib.Word64

namespace Breakout

open Lib

/-! ## 1. Colours -/

/-- `N_COLORS`: the entry for "no colour" included. -/
abbrev nColors : Nat := 58

instance : NeZero nColors := ⟨by decide⟩

/-- An index into the colour tables. -/
abbrev Color := Fin nColors

namespace Color

/-- `BREAKOUT_COLOR_NONE` -/
def none : Color := 0
/-- `BREAKOUT_COLOR_BRX` -/
def brx : Color := 1
/-- `BREAKOUT_COLOR_BRK` -/
def brk : Color := 2
/-- `BREAKOUT_COLOR_BAM` -/
def bam : Color := 3
/-- `JOKER`, the first card of the deck. -/
def joker : Color := 4
/-- `KING_OF_HEARTS`, the last card of the deck. -/
def kingOfHearts : Color := 56
/-- `BREAKOUT_COLOR_SIS` -/
def sis : Color := 57

/-- The colour as it stands in a message. -/
def toInt32 (c : Color) : Int32 := Int32.ofNat c.val

end Color

/-- A table read at a colour taken from a message.  The C++ does not check the index. -/
def tableIndex (nColor : Int32) : Run Color :=
  if h : 0 ≤ nColor.toInt ∧ nColor.toInt < nColors then
    .ok ⟨nColor.toInt.toNat, by omega⟩
  else
    .error (.oob nColor.toInt)

def checkColor (nColor : Int32) : Bool := decide (1 ≤ nColor.toInt ∧ nColor.toInt < nColors)

def isDeck (nColor : Int32) : Bool := decide (4 ≤ nColor.toInt ∧ nColor.toInt ≤ 56)

@[simp] theorem Color.toInt_toInt32 (c : Color) : c.toInt32.toInt = c.val := by
  have hc : c.val < 58 := c.isLt
  rw [Color.toInt32, ← Int32.ofInt_eq_ofNat]
  exact Int32.toInt_ofInt_of_le (by omega) (by omega)

theorem Color.toInt32_injective : Function.Injective Color.toInt32 := by
  intro a b h
  have h' := congrArg Int32.toInt h
  rw [Color.toInt_toInt32, Color.toInt_toInt32] at h'
  exact Fin.ext (by exact_mod_cast h')

@[simp] theorem Color.toInt32_inj {a b : Color} : a.toInt32 = b.toInt32 ↔ a = b :=
  Color.toInt32_injective.eq_iff

@[simp] theorem tableIndex_toInt32 (c : Color) : tableIndex c.toInt32 = .ok c := by
  have hc : c.val < 58 := c.isLt
  have h : 0 ≤ c.toInt32.toInt ∧ c.toInt32.toInt < nColors := by
    rw [Color.toInt_toInt32]
    exact ⟨by omega, by simp only [nColors]; omega⟩
  rw [tableIndex, dif_pos h]
  simp

variable {n : Int32} {c : Color} {a b : Fork}

/-- A table read succeeds at the messages that spell a colour, and nowhere else. -/
theorem tableIndex_eq_ok : tableIndex n = .ok c ↔ n = c.toInt32 := by
  constructor
  · intro h
    unfold tableIndex at h
    split at h
    · rename_i hr
      cases h
      apply Int32.toInt.inj
      rw [Color.toInt_toInt32]
      simp only [Int.toNat_of_nonneg hr.1]
    · cases h
  · rintro rfl
    exact tableIndex_toInt32 c

/-- The exact condition under which a table read is in bounds. -/
def InTable (nColor : Int32) : Prop := 0 ≤ nColor.toInt ∧ nColor.toInt < nColors

instance (n : Int32) : Decidable (InTable n) := inferInstanceAs (Decidable (_ ∧ _))

theorem inTable_iff : InTable n ↔ ∃ c : Color, n = c.toInt32 := by
  constructor
  · intro h
    refine ⟨⟨n.toInt.toNat, by have := h.1; have := h.2; omega⟩, Int32.toInt.inj ?_⟩
    rw [Color.toInt_toInt32]
    simp only [Int.toNat_of_nonneg h.1]
  · rintro ⟨c, rfl⟩
    have hc : c.val < 58 := c.isLt
    simp only [InTable, Color.toInt_toInt32, nColors]
    omega

/-- Off the table, the read is what stops the program. -/
theorem tableIndex_of_not_inTable (h : ¬ InTable n) :
    tableIndex n = .error (.oob n.toInt) := by
  unfold tableIndex
  exact dif_neg h

theorem checkColor_toInt32 (c : Color) : checkColor c.toInt32 = true ↔ c ≠ Color.none := by
  have hc : c.val < 58 := c.isLt
  simp only [checkColor, Color.toInt_toInt32, decide_eq_true_eq, nColors, ne_eq,
    Fin.ext_iff, Color.none]
  omega

/-! ## 2. The tables -/

/-- A colour table: the entries for no colour, BRX, BRK, BAM, the joker, the thirteen ranks of
any suit, and SIS. -/
def perColor {α : Type} (none brx brk bam joker : α) (suit : Nat → α) (sis : α) (c : Color) : α :=
  match c.val with
  | 0 => none
  | 1 => brx
  | 2 => brk
  | 3 => bam
  | 4 => joker
  | 57 => sis
  | n => suit ((n - 5) % 13)

def baseCoin : Int64 := 100000000
def baseCent : Int64 := 1000000

def coin : Color → Int64 := perColor 0 baseCoin baseCoin 1 1 (fun _ => 1) baseCoin

def cent : Color → Int64 := perColor 0 baseCent baseCent 1 1 (fun _ => 1) baseCent

/-- `BASE_POS_REWARD`, by stake colour.  The ranks run ace, two, …, king and the ace counts
fourteen. -/
def basePosReward : Color → Int64 :=
  perColor 0 (baseCoin * 10) 0 0 14 (fun r => if r = 0 then 14 else Int64.ofNat (r + 1)) 0

def maxMoney : Color → Int64 :=
  perColor 0 (baseCoin * 12500000) (baseCoin * 1000000000) (baseCoin * 100) 1 (fun _ => 1)
    (baseCoin * 21000000)

def feeColor : Color → Color :=
  perColor .none .brx .brk .bam .sis (fun _ => .sis) .sis

def minTxFee : Color → Int64 :=
  perColor 0 1500000 1000000 1 1000000 (fun _ => 1000000) 1000000

def minRelayTxFee : Color → Int64 :=
  perColor 0 1500000 1000000 1 1000000 (fun _ => 1000000) 1000000

def commentFeePerChar : Color → Int64 :=
  perColor 0 150000 100000 1 100000 (fun _ => 100000) 100000

def opRetFeePerChar : Color → Int64 :=
  perColor 0 230000 150000 2 150000 (fun _ => 150000) 150000

/-- `SCAVENGABLE`: may a coinbase mint the coins of this colour that were lost? -/
def scavengable : Color → Bool := perColor false true true true true (fun _ => true) true

/-- `MINT_COLOR`: what staking a colour mints. -/
def mintColor : Color → Color := perColor .none .brk .none .none .sis (fun _ => .sis) .none

/-- `POW_SUBSIDY`: the premines. -/
def powSubsidy : Color → Int64 :=
  perColor 0 (12500000 * baseCoin) (19500000 * baseCoin) (100 * baseCoin) 1 (fun _ => 1) 0

def weightMultiplier : Color → Int64 :=
  perColor 0 1 0 0 (baseCoin * 1048576) (fun _ => baseCoin * 1048576) 0

/-- `MoneyRange` at a colour that is in the tables. -/
def moneyRange (nValue : Int64) (c : Color) : Bool := decide (0 ≤ nValue ∧ nValue ≤ maxMoney c)

theorem moneyRange_iff {v : Int64} :
    moneyRange v c = true ↔ 0 ≤ v.toInt ∧ v.toInt ≤ (maxMoney c).toInt := by
  simp [moneyRange, Int64.le_iff_toInt_le]

/-- No colour but "none" has an empty money range, and no range comes near `2^63`. -/
theorem maxMoney_bounds (c : Color) :
    0 ≤ (maxMoney c).toInt ∧ (maxMoney c).toInt ≤ 100000000000000000 := by
  revert c
  decide

theorem scavengable_iff (c : Color) : scavengable c = true ↔ c ≠ Color.none := by
  revert c
  decide

def canStake (c : Color) : Bool := decide (c ≠ Color.none ∧ mintColor c ≠ Color.none)

/-- Staking mints BRK or SIS, never the staked colour, a card, BRX or BAM. -/
theorem mintColor_cases (c : Color) :
    mintColor c = .none ∨ (c = .brx ∧ mintColor c = .brk) ∨
      (isDeck c.toInt32 = true ∧ mintColor c = .sis) := by
  revert c
  decide

/-! ## 3. Forks -/

/-- `ForkNumbers` -/
inductive Fork where
  | genesis | fork001 | fork002 | fork003 | fork004 | fork005 | fork006 | fork007
deriving DecidableEq, Repr

/-- The number the enumeration gives a fork. -/
def Fork.number : Fork → Nat
  | .genesis => 0
  | .fork001 => 1
  | .fork002 => 2
  | .fork003 => 3
  | .fork004 => 4
  | .fork005 => 5
  | .fork006 => 6
  | .fork007 => 7

instance : LE Fork := ⟨fun a b => a.number ≤ b.number⟩
instance : LT Fork := ⟨fun a b => a.number < b.number⟩
instance (a b : Fork) : Decidable (a ≤ b) := inferInstanceAs (Decidable (a.number ≤ b.number))
instance (a b : Fork) : Decidable (a < b) := inferInstanceAs (Decidable (a.number < b.number))

theorem Fork.le_def : a ≤ b ↔ a.number ≤ b.number := Iff.rfl
theorem Fork.lt_def : a < b ↔ a.number < b.number := Iff.rfl
theorem Fork.not_lt : ¬ a < b ↔ b ≤ a := Nat.not_lt
theorem Fork.not_le : ¬ a ≤ b ↔ b < a := Nat.not_le

/-- The loop of `GetFork`: stop at the first fork whose time is still to come. -/
def forkLoop (nTime : Nat) : List (Nat × Fork) → Fork → Fork
  | [], nFork => nFork
  | (t, f) :: rest, nFork => if t > nTime then nFork else forkLoop nTime rest f

/-- `aForks`, from its second row on. -/
def aForks : List (Nat × Fork) :=
  [(1468998000, .fork001), (1480320000, .fork002), (1502434800, .fork003),
   (1503417600, .fork004), (1524632400, .fork005), (1526619600, .fork006),
   (1777836782, .fork007)]

def getFork (nTime : Nat) : Fork := forkLoop nTime aForks .genesis

def burnProtocolStartTime : Nat := 1468004400

/-! ## 4. Network-dependent constants -/

def futureDrift (fTestNet : Bool) (nTime : Nat) : Nat := nTime + if fTestNet then 7 else 17

def getCoinbaseMaturity (fTestNet : Bool) : Nat := if fTestNet then 10 else 240

def getStakeTimestampMask (fTestNet : Bool) : Nat := if fTestNet then 1 else 17

def getStakeMinConfirmations (fTestNet : Bool) (nColor : Int32) : Nat :=
  match tableIndex nColor with
  | .error _ => 2147483647
  | .ok c =>
    if canStake c = false then 2147483647
    else if isDeck nColor then (if fTestNet then 40 else 13824)
    else (if fTestNet then 10 else 3456)

end Breakout
