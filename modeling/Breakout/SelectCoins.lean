/-
# The choice of coins for a payment

`SelectCoinsMinConf` goes through the coins in random order.  One of exactly the target is the
choice; otherwise those below the target and a cent are set aside, and the smallest of the others is
remembered.  Where what is set aside is more than the target, a randomised search looks for a subset
that reaches the target by as little as it can find, and then for one that reaches it by a cent.

Whatever the shuffle and the search come up with, the books are in order for a list of distinct
coins whose total can be counted (`selectCoinsMinConf_inOrder`).  They are not for other lists:
the coins chosen are a set while their values are added up one by one, and the sums wrap.
-/
import Breakout.Colors
import Breakout.Lib.Mask
import Breakout.Transaction

namespace Breakout

open Lib
open scoped List

/-! ## 1. Coins -/

/-- A pointer to an entry of the wallet, and what is read through it; `isFromMe` is a function of
`fMultiSig`. -/
structure WtxPtr where
  address : Nat
  tx : CTransaction
  isFromMe : Bool → Bool

/-- `COutput`: an output that the entry has. -/
structure COutput where
  tx : WtxPtr
  i : Fin tx.tx.vout.length
  nDepth : Int

/-- `pair<const CWalletTx*, unsigned int>` -/
abbrev CoinKey := Nat × Nat

namespace COutput

/-- `tx->vout[i]` -/
def txout (o : COutput) : CTxOut := o.tx.tx.vout.get o.i

def nValue (o : COutput) : Int64 := o.txout.nValue

/-- `make_pair(pcoin, i)` -/
def key (o : COutput) : CoinKey := (o.tx.address, o.i)

/-- `make_pair(n, make_pair(pcoin, i))` -/
def coin (o : COutput) : Int64 × CoinKey := (o.nValue, o.key)

end COutput

/-- What `SelectCoinsMinConf` is asked for. -/
structure SelectArgs where
  nTargetValue : Int64
  nSpendTime : UInt32
  nConfMine : Int
  nConfTheirs : Int
  fMultiSig : Bool

/-- Whether a coin passes the confirmation limit and "the timestamp rules". -/
def SelectArgs.eligible (args : SelectArgs) (o : COutput) : Bool :=
  decide ((if o.tx.isFromMe args.fMultiSig then args.nConfMine else args.nConfTheirs) ≤ o.nDepth) &&
    decide (o.tx.tx.nTime ≤ args.nSpendTime)

/-- The random choices: what `breakout_shuffle` makes of a vector, and the coins that `rand()`
puts in, by the approximation (the first or the second), the repetition and the index. -/
structure Luck where
  shuffle : List COutput → List COutput
  perm : ∀ vCoins, shuffle vCoins ~ vCoins
  rand : Bool → Nat → Nat → Bool

/-! ## 2. The search -/

/-- The best subset found, and its total. -/
structure BestSubset where
  vfBest : List Bool
  nBest : Int64

/-- A repetition of the search under way. -/
structure Attempt where
  vfIncluded : List Bool
  nTotal : Int64
  fReachedTarget : Bool
  best : BestSubset

/-- A coin is put in, and taken out again where the target is reached. -/
def Attempt.tryCoin (nTargetValue : Int64) (i : Nat) (nValue : Int64) (a : Attempt) : Attempt :=
  let nTotal := a.nTotal + nValue
  let vfIncluded := a.vfIncluded.set i true
  if nTotal ≥ nTargetValue then
    { vfIncluded := vfIncluded.set i false
      nTotal := nTotal - nValue
      fReachedTarget := true
      best := if nTotal < a.best.nBest then ⟨vfIncluded, nTotal⟩ else a.best }
  else { a with vfIncluded := vfIncluded, nTotal := nTotal }

/-- A pass over the coins from an index on, with those tried that the pass is for. -/
def passLoop (nTargetValue : Int64) (fTry : Nat → List Bool → Bool) :
    Nat → List (Int64 × CoinKey) → Attempt → Attempt
  | _, [], a => a
  | i, coin :: vValue, a =>
    passLoop nTargetValue fTry (i + 1) vValue
      (if fTry i a.vfIncluded then a.tryCoin nTargetValue i coin.1 else a)

/-- One repetition: a pass over coins picked at random, and one over those that are not in. -/
def repetition (nTargetValue : Int64) (vValue : List (Int64 × CoinKey)) (rand : Nat → Bool)
    (best : BestSubset) : BestSubset :=
  let a := passLoop nTargetValue (fun i _ => rand i) 0 vValue
    ⟨.replicate vValue.length false, 0, false, best⟩
  if a.fReachedTarget then a.best
  else (passLoop nTargetValue (fun i vfIncluded => !vfIncluded.getD i false) 0 vValue a).best

/-- The repetitions, from a number on. -/
def repeatLoop (nTargetValue : Int64) (vValue : List (Int64 × CoinKey)) (rand : Nat → Nat → Bool) :
    Nat → Nat → BestSubset → BestSubset
  | 0, _, best => best
  | iterations + 1, nRep, best =>
    if best.nBest ≠ nTargetValue then
      repeatLoop nTargetValue vValue rand iterations (nRep + 1)
        (repetition nTargetValue vValue (rand nRep) best)
    else best

def approximateBestSubset (vValue : List (Int64 × CoinKey)) (nTotalLower nTargetValue : Int64)
    (iterations : Nat) (rand : Nat → Nat → Bool) : BestSubset :=
  repeatLoop nTargetValue vValue rand iterations 0 ⟨.replicate vValue.length true, nTotalLower⟩

/-! ## 3. The choice -/

/-- What the loop over the coins keeps. -/
structure Sifted where
  vValue : List (Int64 × CoinKey)
  nTotalLower : Int64
  coinLowestLarger : Int64 × Option CoinKey

/-- Before the loop. -/
def Sifted.start : Sifted := ⟨[], 0, (Int64.maxValue, none)⟩

/-- The loop over the coins: one of the very value, or what it kept. -/
def siftCoins (args : SelectArgs) (nColor : Int32) :
    List COutput → Sifted → Run ((Int64 × CoinKey) ⊕ Sifted)
  | [], s => .ok (.inr s)
  | output :: vCoins, s =>
    if args.eligible output then
      if output.nValue = args.nTargetValue then .ok (.inl output.coin)
      else do
        let c ← tableIndex nColor
        if output.nValue < args.nTargetValue + cent c then
          siftCoins args nColor vCoins
            { s with
              vValue := s.vValue ++ [output.coin]
              nTotalLower := s.nTotalLower + output.nValue }
        else if output.nValue < s.coinLowestLarger.1 then
          siftCoins args nColor vCoins
            { s with coinLowestLarger := (output.nValue, some output.key) }
        else siftCoins args nColor vCoins s
    else siftCoins args nColor vCoins s

/-- `setCoinsRet` and `nValueRet`. -/
structure Chosen where
  setCoinsRet : Finset CoinKey
  nValueRet : Int64
deriving DecidableEq

namespace Chosen

/-- Nothing. -/
def none : Chosen := ⟨∅, 0⟩

/-- `setCoinsRet.insert(coin.second); nValueRet += coin.first;` -/
def add (r : Chosen) (coin : Int64 × CoinKey) : Chosen :=
  ⟨insert coin.2 r.setCoinsRet, r.nValueRet + coin.1⟩

/-- Coin after coin. -/
def addAll (r : Chosen) (coins : List (Int64 × CoinKey)) : Chosen := coins.foldl add r

end Chosen

/-- "vCoins is already single color": that of the first coin. -/
def colorOf : List COutput → Int32
  | [] => Color.none.toInt32
  | output :: _ => output.txout.nColor

/-- The two searches: for the target, and for the target and a cent. -/
def searchSubsets (vValue : List (Int64 × CoinKey)) (nTotalLower nTargetValue nCent : Int64)
    (rand : Bool → Nat → Nat → Bool) : BestSubset :=
  let best := approximateBestSubset vValue nTotalLower nTargetValue 1000 (rand false)
  if best.nBest ≠ nTargetValue ∧ nTotalLower ≥ nTargetValue + nCent then
    approximateBestSubset vValue nTotalLower (nTargetValue + nCent) 1000 (rand true)
  else best

/-- What follows the loop, where the coins set aside are worth more than the target.  If the search
does not read `CENT[nColor]`, some coin was set aside and it has been read. -/
def chooseSubset (args : SelectArgs) (nColor : Int32) (luck : Luck) (s : Sifted) : Run Chosen := do
  let c ← tableIndex nColor
  let vValue := s.vValue.mergeSort fun a b => decide (b.1 ≤ a.1)
  let best := searchSubsets vValue s.nTotalLower args.nTargetValue (cent c) luck.rand
  let subset := Chosen.none.addAll (picked best.vfBest vValue)
  return match s.coinLowestLarger with
    | (nLowest, some key) =>
      if (best.nBest ≠ args.nTargetValue ∧ best.nBest < args.nTargetValue + cent c) ∨
          nLowest ≤ best.nBest then
        Chosen.none.add (nLowest, key)
      else subset
    | (_, none) => subset

def selectCoinsMinConf (args : SelectArgs) (luck : Luck) (vCoins : List COutput) :
    Run (Bool × Chosen) := do
  let nColor := colorOf vCoins
  match ← siftCoins args nColor (luck.shuffle vCoins) .start with
  | .inl coin => return (true, Chosen.none.add coin)
  | .inr s =>
    if s.nTotalLower = args.nTargetValue then return (true, Chosen.none.addAll s.vValue)
    else if s.nTotalLower < args.nTargetValue then
      match s.coinLowestLarger with
      | (_, none) => return (false, Chosen.none)
      | (nLowest, some key) => return (true, Chosen.none.add (nLowest, key))
    else return (true, ← chooseSubset args nColor luck s)

/-! ## 4. What it should do -/

/-- The exact total of some coins. -/
def coinSum (coins : List (Int64 × CoinKey)) : Int := (coins.map fun coin => coin.1.toInt).sum

/-- The coins of a list that are eligible. -/
def SelectArgs.eligibles (args : SelectArgs) (vCoins : List COutput) : List (Int64 × CoinKey) :=
  (vCoins.filter args.eligible).map COutput.coin

/-- The value of a coin by its key. -/
def valueAt (coins : List (Int64 × CoinKey)) (key : CoinKey) : Int :=
  ((coins.find? fun coin => decide (coin.2 = key)).map fun coin => coin.1.toInt).getD 0

/-- **A choice that is in order.**  There is one exactly when the eligible coins sum to the target.
It is of eligible coins; the value returned is their exact sum, and at least the target. -/
structure Selects (args : SelectArgs) (vCoins : List COutput) (f : Bool) (r : Chosen) : Prop where
  succeeds : f = true ↔ args.nTargetValue.toInt ≤ coinSum (args.eligibles vCoins)
  eligible : ∀ key ∈ r.setCoinsRet, ∃ coin ∈ args.eligibles vCoins, coin.2 = key
  sum : r.nValueRet.toInt = r.setCoinsRet.sum (valueAt (args.eligibles vCoins))
  target : f = true → args.nTargetValue.toInt ≤ r.nValueRet.toInt

instance (args : SelectArgs) (vCoins : List COutput) (f : Bool) (r : Chosen) :
    Decidable (Selects args vCoins f r) :=
  decidable_of_iff
    ((f = true ↔ args.nTargetValue.toInt ≤ coinSum (args.eligibles vCoins)) ∧
      (∀ key ∈ r.setCoinsRet, ∃ coin ∈ args.eligibles vCoins, coin.2 = key) ∧
      r.nValueRet.toInt = r.setCoinsRet.sum (valueAt (args.eligibles vCoins)) ∧
      (f = true → args.nTargetValue.toInt ≤ r.nValueRet.toInt))
    ⟨fun ⟨h₁, h₂, h₃, h₄⟩ => ⟨h₁, h₂, h₃, h₄⟩,
      fun h => ⟨h.succeeds, h.eligible, h.sum, h.target⟩⟩

/-- A run that ends, with a choice that is in order. -/
def InOrder (args : SelectArgs) (vCoins : List COutput) : Run (Bool × Chosen) → Prop
  | .ok (f, r) => Selects args vCoins f r
  | .error _ => False

instance (args : SelectArgs) (vCoins : List COutput) (run : Run (Bool × Chosen)) :
    Decidable (InOrder args vCoins run) :=
  match run with
  | .ok (f, r) => inferInstanceAs (Decidable (Selects args vCoins f r))
  | .error _ => inferInstanceAs (Decidable False)

/-- **A list whose books can be kept**: the colour of the first coin is one, the eligible coins are
distinct and none is negative, their total is below the greatest `int64_t` (which stands for "no
larger coin"), and so is, or is at most it, the target and a cent. -/
structure CountableCoins (args : SelectArgs) (vCoins : List COutput) : Prop where
  distinct : ((args.eligibles vCoins).map Prod.snd).Nodup
  nonneg : ∀ coin ∈ args.eligibles vCoins, 0 ≤ coin.1.toInt
  total : coinSum (args.eligibles vCoins) < 2 ^ 63 - 1
  cent : ∃ c : Color, colorOf vCoins = c.toInt32 ∧
    args.nTargetValue.toInt + (cent c).toInt < 2 ^ 63

/-! ## 5. Sums of coins -/

variable {coins coins' : List (Int64 × CoinKey)}

@[simp] theorem coinSum_nil : coinSum [] = 0 := rfl

@[simp] theorem coinSum_cons (coin : Int64 × CoinKey) (coins : List (Int64 × CoinKey)) :
    coinSum (coin :: coins) = coin.1.toInt + coinSum coins := by
  simp [coinSum]

theorem coinSum_perm (h : coins ~ coins') : coinSum coins = coinSum coins' := (h.map _).sum_eq

theorem coinSum_nonneg (h : ∀ coin ∈ coins, 0 ≤ coin.1.toInt) : 0 ≤ coinSum coins := by
  induction coins with
  | nil => simp
  | cons coin coins ih =>
    obtain ⟨hcoin, hrest⟩ := List.forall_mem_cons.mp h
    have hsum := ih hrest
    rw [coinSum_cons]
    omega

/-- Part of a list of coins is worth no more than the list. -/
theorem coinSum_le_of_sublist (hnonneg : ∀ coin ∈ coins', 0 ≤ coin.1.toInt)
    (h : coins.Sublist coins') : coinSum coins ≤ coinSum coins' := by
  induction h with
  | slnil => exact le_rfl
  | cons coin h ih =>
    obtain ⟨hcoin, hrest⟩ := List.forall_mem_cons.mp hnonneg
    have hle := ih hrest
    rw [coinSum_cons]
    omega
  | cons_cons coin h ih =>
    obtain ⟨hcoin, hrest⟩ := List.forall_mem_cons.mp hnonneg
    have hle := ih hrest
    rw [coinSum_cons, coinSum_cons]
    omega

theorem coinSum_le_of_subperm (hnonneg : ∀ coin ∈ coins', 0 ≤ coin.1.toInt)
    (h : coins <+~ coins') : coinSum coins ≤ coinSum coins' := by
  obtain ⟨l, hperm, hsub⟩ := h
  rw [← coinSum_perm hperm]
  exact coinSum_le_of_sublist hnonneg hsub

/-! ## 6. The search -/

/-- Coins that are not negative and whose total can be counted. -/
structure CountedCoins (coins : List (Int64 × CoinKey)) : Prop where
  nonneg : ∀ coin ∈ coins, 0 ≤ coin.1.toInt
  total : coinSum coins < 2 ^ 63

theorem CountedCoins.subperm (h : CountedCoins coins') (hsub : coins <+~ coins') :
    CountedCoins coins :=
  ⟨fun coin hcoin => h.nonneg coin (hsub.subset hcoin),
    (coinSum_le_of_subperm h.nonneg hsub).trans_lt h.total⟩

theorem CountedCoins.toInt_ofInt (h : CountedCoins coins) :
    (Int64.ofInt (coinSum coins)).toInt = coinSum coins := by
  have hnonneg := coinSum_nonneg h.nonneg
  exact toInt_ofInt_of_fits ⟨by omega, h.total⟩

/-- The best subset is one that reaches the target, and its total is known. -/
structure BestSubset.Ok (nTargetValue : Int64) (vValue : List (Int64 × CoinKey))
    (b : BestSubset) : Prop where
  sum : b.nBest.toInt = coinSum (picked b.vfBest vValue)
  target : nTargetValue.toInt ≤ b.nBest.toInt

/-- The total is in step with the flags. -/
structure Attempt.Ok (nTargetValue : Int64) (vValue : List (Int64 × CoinKey))
    (a : Attempt) : Prop where
  sum : a.nTotal.toInt = coinSum (picked a.vfIncluded vValue)
  best : a.best.Ok nTargetValue vValue

variable {nTargetValue : Int64} {vValue : List (Int64 × CoinKey)} {a : Attempt} {b : BestSubset}

/-- **A coin is tried**: the total stays in step, and so does the best subset. -/
theorem Attempt.Ok.tryCoin (hvalue : CountedCoins vValue) (h : a.Ok nTargetValue vValue) {i : Nat}
    {coin : Int64 × CoinKey} (hflag : a.vfIncluded[i]? = some false)
    (hcoin : vValue[i]? = some coin) :
    (a.tryCoin nTargetValue i coin.1).Ok nTargetValue vValue ∧
      ((a.tryCoin nTargetValue i coin.1).vfIncluded = a.vfIncluded ∨
        (a.tryCoin nTargetValue i coin.1).vfIncluded = a.vfIncluded.set i true) := by
  have hsum : coinSum (picked (a.vfIncluded.set i true) vValue) =
      coin.1.toInt + a.nTotal.toInt := by
    rw [coinSum_perm (picked_set hflag hcoin), coinSum_cons, h.sum]
  have htotal : (a.nTotal + coin.1).toInt =
      coinSum (picked (a.vfIncluded.set i true) vValue) := by
    have hcounted := (hvalue.subperm (picked_sublist (a.vfIncluded.set i true) vValue).subperm)
    rw [← hcounted.toInt_ofInt, hsum, Int64.ofInt_add, Int64.ofInt_toInt, Int64.ofInt_toInt,
      Int64.add_comm]
  unfold Attempt.tryCoin
  dsimp only
  split
  · next hreached =>
    rw [ge_iff_le, Int64.le_iff_toInt_le] at hreached
    rw [set_true_set_false hflag, Int64.add_sub_cancel]
    refine ⟨⟨h.sum, ?_⟩, Or.inl rfl⟩
    dsimp only
    split
    · exact ⟨htotal, hreached⟩
    · exact h.best
  · exact ⟨⟨htotal, h.best⟩, Or.inr rfl⟩

/-- **A pass** that tries no coin that is in.  `P` is what makes sure of that. -/
theorem passLoop_ok (nTargetValue : Int64) (hvalue : CountedCoins vValue)
    (fTry : Nat → List Bool → Bool) {P : Nat → List Bool → Prop}
    (hout : ∀ i flags, P i flags → i < vValue.length → fTry i flags = true →
      flags[i]? = some false)
    (hskip : ∀ i flags, P i flags → P (i + 1) flags)
    (hput : ∀ i flags, P i flags → P (i + 1) (flags.set i true)) :
    ∀ (rest done : List (Int64 × CoinKey)) (a : Attempt), vValue = done ++ rest →
      P done.length a.vfIncluded → a.Ok nTargetValue vValue →
      (passLoop nTargetValue fTry done.length rest a).Ok nTargetValue vValue ∧
        P vValue.length (passLoop nTargetValue fTry done.length rest a).vfIncluded := by
  intro rest
  induction rest with
  | nil =>
    intro done a hsplit hP h
    rw [List.append_nil] at hsplit
    subst hsplit
    exact ⟨h, hP⟩
  | cons coin rest ih =>
    intro done a hsplit hP h
    have hlt : done.length < vValue.length := by
      rw [hsplit, List.length_append, List.length_cons]
      omega
    have hcoin : vValue[done.length]? = some coin := by
      rw [hsplit, List.getElem?_append_right le_rfl, Nat.sub_self, List.getElem?_cons_zero]
    have hnext : vValue = (done ++ [coin]) ++ rest := by
      rw [hsplit, List.append_assoc, List.singleton_append]
    have hlen : (done ++ [coin]).length = done.length + 1 := by
      rw [List.length_append, List.length_singleton]
    rw [passLoop, ← hlen]
    split
    · next htry =>
      obtain ⟨hok, hflags⟩ := h.tryCoin hvalue (hout _ _ hP hlt htry) hcoin
      refine ih _ _ hnext ?_ hok
      rw [hlen]
      rcases hflags with hflags | hflags
      · rw [hflags]
        exact hskip _ _ hP
      · rw [hflags]
        exact hput _ _ hP
    · exact ih _ _ hnext (by rw [hlen]; exact hskip _ _ hP) h

/-- A repetition that starts with a good subset ends with one. -/
theorem BestSubset.Ok.repetition (hvalue : CountedCoins vValue) (h : b.Ok nTargetValue vValue)
    (rand : Nat → Bool) :
    (Breakout.repetition nTargetValue vValue rand b).Ok nTargetValue vValue := by
  -- the first pass: what it has not come to is out
  have hfirst := passLoop_ok nTargetValue hvalue (fun i _ => rand i)
    (P := fun i flags => flags.length = vValue.length ∧
      ∀ j, i ≤ j → j < vValue.length → flags[j]? = some false)
    (fun i flags hP hlt _ => hP.2 i le_rfl hlt)
    (fun i flags hP => ⟨hP.1, fun j hij hj => hP.2 j (by omega) hj⟩)
    (fun i flags hP => by
      refine ⟨by rw [List.length_set]; exact hP.1, fun j hij hj => ?_⟩
      rw [List.getElem?_set_ne (by omega)]
      exact hP.2 j (by omega) hj)
    vValue [] ⟨.replicate vValue.length false, 0, false, b⟩ rfl
    ⟨List.length_replicate, fun j _ hj => by
      rw [List.length_nil] at *
      simp [hj]⟩
    ⟨by simp, h⟩
  obtain ⟨hok, hlen, -⟩ := hfirst
  unfold Breakout.repetition
  dsimp only
  split
  · exact hok.best
  · -- the second pass: what it tries is out
    refine (passLoop_ok nTargetValue hvalue _ (P := fun _ flags => flags.length = vValue.length)
      (fun i flags hP hlt htry => ?_) (fun _ _ hP => hP)
      (fun i flags hP => by rw [List.length_set]; exact hP) vValue [] _ rfl hlen hok).1.best
    have hi : i < flags.length := by omega
    rw [List.getD_eq_getElem?_getD, List.getElem?_eq_getElem hi, Option.getD_some] at htry
    rw [List.getElem?_eq_getElem hi]
    simpa using htry

theorem BestSubset.Ok.repeatLoop (hvalue : CountedCoins vValue) (rand : Nat → Nat → Bool) :
    ∀ (iterations nRep : Nat) (b : BestSubset), b.Ok nTargetValue vValue →
      (Breakout.repeatLoop nTargetValue vValue rand iterations nRep b).Ok nTargetValue vValue := by
  intro iterations
  induction iterations with
  | zero => exact fun _ _ h => h
  | succ iterations ih =>
    intro nRep b h
    rw [Breakout.repeatLoop]
    split
    · exact ih _ _ (h.repetition hvalue _)
    · exact h

/-- **`ApproximateBestSubset`** finds a subset that reaches the target, if all coins do, and its
total. -/
theorem approximateBestSubset_ok (hvalue : CountedCoins vValue) {nTotalLower : Int64}
    (hlower : nTotalLower.toInt = coinSum vValue)
    (htarget : nTargetValue.toInt ≤ nTotalLower.toInt) (iterations : Nat)
    (rand : Nat → Nat → Bool) :
    (approximateBestSubset vValue nTotalLower nTargetValue iterations rand).Ok nTargetValue
      vValue := by
  refine BestSubset.Ok.repeatLoop hvalue rand _ _ _ ⟨?_, htarget⟩
  rw [picked_replicate_true]
  exact hlower

/-! ## 7. The loop over the coins -/

variable {args : SelectArgs} {c : Color}

variable {output : COutput}

theorem eligibles_cons_of_pos (h : args.eligible output = true) (l : List COutput) :
    args.eligibles (output :: l) = output.coin :: args.eligibles l := by
  rw [SelectArgs.eligibles, List.filter_cons_of_pos h, List.map_cons]
  rfl

theorem eligibles_cons_of_neg (h : ¬ args.eligible output = true) (l : List COutput) :
    args.eligibles (output :: l) = args.eligibles l := by
  rw [SelectArgs.eligibles, List.filter_cons_of_neg h]
  rfl

theorem eligibles_perm {l l' : List COutput} (h : l ~ l') :
    args.eligibles l ~ args.eligibles l' := (h.filter _).map _

/-- What the loop has kept: it splits the eligible coins into those set aside and those that are
larger by a cent, and has remembered one of these if any is below what was remembered. -/
structure Sifting (args : SelectArgs) (c : Color) (eligibles : List (Int64 × CoinKey))
    (s s' : Sifted) (lower larger : List (Int64 × CoinKey)) : Prop where
  split : lower ++ larger ~ eligibles
  vValue : s'.vValue = s.vValue ++ lower
  total : s'.nTotalLower = s.nTotalLower + Int64.ofInt (coinSum lower)
  larger_le : ∀ coin ∈ larger, ¬ coin.1 < args.nTargetValue + cent c
  lowest : (s'.coinLowestLarger = s.coinLowestLarger ∧
      ∀ coin ∈ larger, ¬ coin.1 < s.coinLowestLarger.1) ∨
    ∃ coin ∈ larger, s'.coinLowestLarger = (coin.1, some coin.2)

/-- **The loop**: it ends with an eligible coin of exactly the target, or with what it has kept. -/
theorem siftCoins_spec (args : SelectArgs) (c : Color) :
    ∀ (l : List COutput) (s : Sifted),
      (∃ coin ∈ args.eligibles l, coin.1 = args.nTargetValue ∧
        siftCoins args c.toInt32 l s = .ok (.inl coin)) ∨
      ∃ s' lower larger, siftCoins args c.toInt32 l s = .ok (.inr s') ∧
        Sifting args c (args.eligibles l) s s' lower larger := by
  intro l
  induction l with
  | nil =>
    intro s
    refine Or.inr ⟨s, [], [], rfl, ⟨List.Perm.refl _, by simp, by simp, by simp, ?_⟩⟩
    exact Or.inl ⟨rfl, by simp⟩
  | cons output l ih =>
    intro s
    by_cases heligible : args.eligible output = true
    · rw [eligibles_cons_of_pos heligible, siftCoins, if_pos heligible]
      by_cases hexact : output.nValue = args.nTargetValue
      · rw [if_pos hexact]
        exact Or.inl ⟨output.coin, List.mem_cons_self, hexact, rfl⟩
      · rw [if_neg hexact, tableIndex_toInt32]
        by_cases hlower : output.nValue < args.nTargetValue + cent c
        · rcases ih { s with
              vValue := s.vValue ++ [output.coin]
              nTotalLower := s.nTotalLower + output.nValue } with
            ⟨coin, hcoin, hvalue, hrun⟩ | ⟨s', lower, larger, hrun, hkept⟩
          · exact Or.inl ⟨coin, List.mem_cons_of_mem _ hcoin, hvalue, by simpa [hlower] using hrun⟩
          · refine Or.inr ⟨s', output.coin :: lower, larger, by simpa [hlower] using hrun, ?_⟩
            refine ⟨hkept.split.cons _, ?_, ?_, hkept.larger_le, hkept.lowest⟩
            · rw [hkept.vValue, List.append_assoc, List.singleton_append]
            · rw [hkept.total, coinSum_cons, Int64.ofInt_add, Int64.add_assoc]
              congr 2
              exact (Int64.ofInt_toInt _).symm
        · have hsplit : ∀ {lower larger : List (Int64 × CoinKey)},
              lower ++ larger ~ args.eligibles l →
              lower ++ output.coin :: larger ~ output.coin :: args.eligibles l :=
            fun hperm => List.perm_middle.trans (hperm.cons _)
          by_cases hlowest : output.nValue < s.coinLowestLarger.1
          · rcases ih { s with coinLowestLarger := (output.nValue, some output.key) } with
              ⟨coin, hcoin, hvalue, hrun⟩ | ⟨s', lower, larger, hrun, hkept⟩
            · exact Or.inl ⟨coin, List.mem_cons_of_mem _ hcoin, hvalue,
                by simpa [hlower, hlowest] using hrun⟩
            · refine Or.inr ⟨s', lower, output.coin :: larger,
                by simpa [hlower, hlowest] using hrun, ?_⟩
              refine ⟨hsplit hkept.split, hkept.vValue, hkept.total,
                List.forall_mem_cons.mpr ⟨hlower, hkept.larger_le⟩, Or.inr ?_⟩
              rcases hkept.lowest with ⟨hsame, -⟩ | ⟨coin, hcoin, hnew⟩
              · exact ⟨output.coin, List.mem_cons_self, hsame⟩
              · exact ⟨coin, List.mem_cons_of_mem _ hcoin, hnew⟩
          · rcases ih s with ⟨coin, hcoin, hvalue, hrun⟩ | ⟨s', lower, larger, hrun, hkept⟩
            · exact Or.inl ⟨coin, List.mem_cons_of_mem _ hcoin, hvalue,
                by simpa [hlower, hlowest] using hrun⟩
            · refine Or.inr ⟨s', lower, output.coin :: larger,
                by simpa [hlower, hlowest] using hrun, ?_⟩
              refine ⟨hsplit hkept.split, hkept.vValue, hkept.total,
                List.forall_mem_cons.mpr ⟨hlower, hkept.larger_le⟩, ?_⟩
              rcases hkept.lowest with ⟨hsame, hnone⟩ | ⟨coin, hcoin, hnew⟩
              · exact Or.inl ⟨hsame, List.forall_mem_cons.mpr ⟨hlowest, hnone⟩⟩
              · exact Or.inr ⟨coin, List.mem_cons_of_mem _ hcoin, hnew⟩
    · rw [eligibles_cons_of_neg heligible, siftCoins, if_neg heligible]
      exact ih s

/-! ## 8. The choice is in order -/

theorem setCoinsRet_addAll (coins : List (Int64 × CoinKey)) (r : Chosen) :
    (r.addAll coins).setCoinsRet = r.setCoinsRet ∪ (coins.map Prod.snd).toFinset := by
  induction coins generalizing r with
  | nil => simp [Chosen.addAll]
  | cons coin coins ih =>
    rw [Chosen.addAll, List.foldl_cons]
    refine (ih (r.add coin)).trans ?_
    rw [List.map_cons, List.toFinset_cons, Chosen.add, Finset.insert_union, Finset.union_insert]

theorem nValueRet_addAll (coins : List (Int64 × CoinKey)) (r : Chosen) :
    (r.addAll coins).nValueRet = r.nValueRet + Int64.ofInt (coinSum coins) := by
  induction coins generalizing r with
  | nil => simp [Chosen.addAll]
  | cons coin coins ih =>
    rw [Chosen.addAll, List.foldl_cons]
    refine (ih (r.add coin)).trans ?_
    rw [coinSum_cons, Int64.ofInt_add, Int64.ofInt_toInt, Chosen.add, Int64.add_assoc]

/-- The key of a coin leads to its value, where no two coins have the same key. -/
theorem valueAt_of_mem (hdistinct : (coins.map Prod.snd).Nodup) {coin : Int64 × CoinKey}
    (h : coin ∈ coins) : valueAt coins coin.2 = coin.1.toInt := by
  unfold valueAt
  cases hfind : coins.find? fun other => decide (other.2 = coin.2) with
  | none =>
    rw [List.find?_eq_none] at hfind
    exact absurd (decide_eq_true rfl) (hfind coin h)
  | some other =>
    have hother := List.mem_of_find?_eq_some hfind
    have hkey : other.2 = coin.2 := by simpa using List.find?_some hfind
    have heq : other = coin := List.inj_on_of_nodup_map hdistinct hother h hkey
    rw [heq]
    rfl

variable {vCoins : List COutput}

theorem CountableCoins.countedCoins (h : CountableCoins args vCoins) :
    CountedCoins (args.eligibles vCoins) :=
  ⟨h.nonneg, by have := h.total; omega⟩

/-- **Some of the eligible coins** that reach the target are a choice that is in order. -/
theorem CountableCoins.selects (h : CountableCoins args vCoins)
    (hsub : coins <+~ args.eligibles vCoins) (htarget : args.nTargetValue.toInt ≤ coinSum coins) :
    Selects args vCoins true (Chosen.none.addAll coins) := by
  have hkeys : (coins.map Prod.snd).Nodup := by
    obtain ⟨l, hperm, hsublist⟩ := hsub
    exact ((hperm.map Prod.snd).nodup_iff).mp (h.distinct.sublist (hsublist.map Prod.snd))
  have hvalue : (Chosen.none.addAll coins).nValueRet.toInt = coinSum coins := by
    rw [nValueRet_addAll, Chosen.none, Int64.zero_add, (h.countedCoins.subperm hsub).toInt_ofInt]
  have hset : (Chosen.none.addAll coins).setCoinsRet = (coins.map Prod.snd).toFinset := by
    rw [setCoinsRet_addAll, Chosen.none, Finset.empty_union]
  refine ⟨iff_of_true rfl (htarget.trans (coinSum_le_of_subperm h.nonneg hsub)), ?_, ?_,
    fun _ => by rwa [hvalue]⟩
  · intro key hkey
    rw [hset, List.mem_toFinset, List.mem_map] at hkey
    obtain ⟨coin, hcoin, rfl⟩ := hkey
    exact ⟨coin, hsub.subset hcoin, rfl⟩
  · rw [hvalue, hset, List.sum_toFinset _ hkeys, List.map_map, coinSum]
    refine congrArg List.sum (List.map_congr_left fun coin hcoin => ?_)
    exact (valueAt_of_mem h.distinct (hsub.subset hcoin)).symm

variable {coin : Int64 × CoinKey}

/-- A single eligible coin that reaches the target. -/
theorem CountableCoins.selects_one (h : CountableCoins args vCoins)
    (hcoin : coin ∈ args.eligibles vCoins) (htarget : args.nTargetValue.toInt ≤ coin.1.toInt) :
    Selects args vCoins true (Chosen.none.add coin) := by
  have hone : [coin] <+~ args.eligibles vCoins := List.singleton_subperm_iff.mpr hcoin
  refine h.selects hone ?_
  rwa [coinSum_cons, coinSum_nil, add_zero]

theorem inOrder_of_eq {run : Run (Bool × Chosen)} {f : Bool} {r : Chosen} (hrun : run = .ok (f, r))
    (h : Selects args vCoins f r) : InOrder args vCoins run := by
  rw [hrun]
  exact h

/-- No choice, where there is not enough. -/
theorem selects_none (hless : coinSum (args.eligibles vCoins) < args.nTargetValue.toInt) :
    Selects args vCoins false .none where
  succeeds := iff_of_false Bool.false_ne_true (not_le.mpr hless)
  eligible := by simp [Chosen.none]
  sum := rfl
  target := nofun

/-- No eligible coin is worth the greatest `int64_t`. -/
theorem CountableCoins.lt_maxValue (h : CountableCoins args vCoins)
    (hcoin : coin ∈ args.eligibles vCoins) : coin.1 < Int64.maxValue := by
  have hle := coinSum_le_of_subperm h.nonneg (List.singleton_subperm_iff.mpr hcoin)
  have htotal := h.total
  have hmax : Int64.maxValue.toInt = 2 ^ 63 - 1 := rfl
  rw [coinSum_cons, coinSum_nil, add_zero] at hle
  rw [Int64.lt_iff_toInt_lt, hmax]
  omega

theorem cent_nonneg (c : Color) : 0 ≤ (cent c).toInt := by
  revert c
  decide

/-- The target and a cent, where they are not too much. -/
theorem toInt_target_add_cent (h : args.nTargetValue.toInt + (cent c).toInt < 2 ^ 63) :
    (args.nTargetValue + cent c).toInt = args.nTargetValue.toInt + (cent c).toInt := by
  have hlow := args.nTargetValue.le_toInt
  have hcent := cent_nonneg c
  rw [Int64.toInt_add, Int.bmod_eq_of_le (by omega) (by omega)]

/-- A coin that is not below the target and a cent reaches the target. -/
theorem target_le_of_larger (hc : args.nTargetValue.toInt + (cent c).toInt < 2 ^ 63) {n : Int64}
    (h : ¬ n < args.nTargetValue + cent c) : args.nTargetValue.toInt ≤ n.toInt := by
  rw [Int64.lt_iff_toInt_lt, toInt_target_add_cent hc] at h
  have hcent := cent_nonneg c
  omega

/-- Whichever search is the last, its subset reaches the target. -/
theorem searchSubsets_ok (hvalue : CountedCoins vValue) {nTotalLower : Int64}
    (hlower : nTotalLower.toInt = coinSum vValue)
    (htarget : args.nTargetValue.toInt ≤ nTotalLower.toInt)
    (hc : args.nTargetValue.toInt + (cent c).toInt < 2 ^ 63) (rand : Bool → Nat → Nat → Bool) :
    (searchSubsets vValue nTotalLower args.nTargetValue (cent c) rand).Ok args.nTargetValue
      vValue := by
  unfold searchSubsets
  dsimp only
  split
  · next hsecond =>
    have hmore := Int64.le_iff_toInt_le.mp hsecond.2
    have hok := approximateBestSubset_ok hvalue hlower hmore 1000 (rand true)
    have hreached := hok.target
    have hcent := cent_nonneg c
    rw [toInt_target_add_cent hc] at hreached
    exact ⟨hok.sum, by omega⟩
  · exact approximateBestSubset_ok hvalue hlower htarget 1000 (rand false)

/-- **The last part of the choice**: the smallest of the larger coins, or what a search has found
among the others. -/
theorem chooseSubset_selects (h : CountableCoins args vCoins)
    (hc : args.nTargetValue.toInt + (cent c).toInt < 2 ^ 63) (luck : Luck) {s' : Sifted}
    {lower larger : List (Int64 × CoinKey)}
    (hkept : Sifting args c (args.eligibles vCoins) .start s' lower larger)
    (htarget : args.nTargetValue.toInt ≤ s'.nTotalLower.toInt) :
    ∃ r, chooseSubset args c.toInt32 luck s' = .ok r ∧ Selects args vCoins true r := by
  have hlower : lower <+~ args.eligibles vCoins :=
    (List.sublist_append_left _ _).subperm.trans hkept.split.subperm
  have hsorted : (s'.vValue.mergeSort fun a b => decide (b.1 ≤ a.1)) ~ lower := by
    rw [hkept.vValue]
    exact List.mergeSort_perm _ _
  have hcounted := (h.countedCoins.subperm hlower).subperm hsorted.subperm
  have htotal : s'.nTotalLower.toInt =
      coinSum (s'.vValue.mergeSort fun a b => decide (b.1 ≤ a.1)) := by
    rw [hkept.total, Sifted.start, Int64.zero_add, (h.countedCoins.subperm hlower).toInt_ofInt,
      coinSum_perm hsorted]
  have hbest := searchSubsets_ok hcounted htotal htarget hc luck.rand
  unfold chooseSubset
  rw [tableIndex_toInt32]
  refine ⟨_, rfl, ?_⟩
  generalize (s'.vValue.mergeSort fun a b => decide (b.1 ≤ a.1)) = vValue at *
  generalize searchSubsets vValue s'.nTotalLower args.nTargetValue (cent c) luck.rand = best at *
  have hpicked : Selects args vCoins true (Chosen.none.addAll (picked best.vfBest vValue)) := by
    refine h.selects ?_ (hbest.target.trans_eq hbest.sum)
    exact (picked_sublist _ _).subperm.trans (hsorted.subperm.trans hlower)
  rcases hkept.lowest with ⟨hnone, -⟩ | ⟨coin, hcoin, hlowest⟩
  · rw [hnone]
    exact hpicked
  · rw [hlowest]
    dsimp only
    split
    · exact h.selects_one (hkept.split.subset (List.mem_append_right _ hcoin))
        (target_le_of_larger hc (hkept.larger_le coin hcoin))
    · exact hpicked

/-- **`SelectCoinsMinConf` chooses in order**, whatever the random choices: for a list of distinct
coins that can be counted it succeeds exactly when the eligible coins sum to the target, and then
the value it returns is the exact sum of the eligible coins it chose, and at least the target. -/
theorem selectCoinsMinConf_inOrder (luck : Luck) (h : CountableCoins args vCoins) :
    InOrder args vCoins (selectCoinsMinConf args luck vCoins) := by
  obtain ⟨c, hcolor, hc⟩ := h.cent
  have hperm : args.eligibles (luck.shuffle vCoins) ~ args.eligibles vCoins :=
    eligibles_perm (luck.perm vCoins)
  unfold selectCoinsMinConf
  dsimp only
  rw [hcolor]
  rcases siftCoins_spec args c (luck.shuffle vCoins) .start with
    ⟨coin, hcoin, hvalue, hrun⟩ | ⟨s', lower, larger, hrun, hsift⟩
  · rw [hrun]
    exact h.selects_one (hperm.subset hcoin) (by rw [hvalue])
  · have hkept : Sifting args c (args.eligibles vCoins) .start s' lower larger :=
      { hsift with split := hsift.split.trans hperm }
    have hlower : lower <+~ args.eligibles vCoins :=
      (List.sublist_append_left _ _).subperm.trans hkept.split.subperm
    have htotal : s'.nTotalLower.toInt = coinSum lower := by
      rw [hkept.total, Sifted.start, Int64.zero_add, (h.countedCoins.subperm hlower).toInt_ofInt]
    have hvalues : s'.vValue = lower := hkept.vValue
    rw [hrun]
    by_cases hexact : s'.nTotalLower = args.nTargetValue
    · refine inOrder_of_eq (if_pos hexact) ?_
      rw [hvalues]
      exact h.selects hlower (by rw [← htotal, hexact])
    · by_cases hless : s'.nTotalLower < args.nTargetValue
      · rcases hkept.lowest with ⟨hnone, hlarger⟩ | ⟨coin, hcoin, hlowest⟩
        · -- no coin is larger, so all are set aside, and they are not enough
          refine inOrder_of_eq (f := false) (r := .none) ?_ (selects_none ?_)
          · refine (if_neg hexact).trans ((if_pos hless).trans ?_)
            rw [hnone]
            rfl
          · have hall : larger = [] := by
              refine List.eq_nil_iff_forall_not_mem.mpr fun coin hcoin => ?_
              refine hlarger coin hcoin (h.lt_maxValue ?_)
              exact hkept.split.subset (List.mem_append_right _ hcoin)
            have hsplit := hkept.split
            rw [hall, List.append_nil] at hsplit
            rw [← coinSum_perm hsplit, ← htotal]
            exact Int64.lt_iff_toInt_lt.mp hless
        · refine inOrder_of_eq (f := true) (r := Chosen.none.add coin) ?_
            (h.selects_one (hkept.split.subset (List.mem_append_right _ hcoin))
              (target_le_of_larger hc (hkept.larger_le coin hcoin)))
          refine (if_neg hexact).trans ((if_pos hless).trans ?_)
          rw [hlowest]
          rfl
      · have hle : args.nTargetValue.toInt ≤ s'.nTotalLower.toInt := by
          rw [Int64.lt_iff_toInt_lt] at hless
          omega
        obtain ⟨r, hr, hselects⟩ := chooseSubset_selects h hc luck hkept hle
        refine inOrder_of_eq ?_ hselects
        refine (if_neg hexact).trans ((if_neg hless).trans ?_)
        rw [hr]
        rfl

/-! ## 9. Some lists -/

/-- A coin of a colour and a value, ten blocks deep. -/
def sampleCoin (address : Nat) (nValue : Int64) (nColor : Int32) : COutput :=
  ⟨⟨address, ⟨1, 0, [], [⟨nValue, nColor, []⟩], 0, [], 0⟩, fun _ => true⟩, ⟨0, Nat.one_pos⟩, 10⟩

/-- A payment from coins one block deep. -/
def samplePayment (nTargetValue : Int64) : SelectArgs := ⟨nTargetValue, 100, 1, 6, false⟩

/-- A shuffle that leaves all as it is, and coins put in by turns. -/
def steadyLuck : Luck := ⟨id, fun _ => List.Perm.refl _, fun _ nRep i => (nRep + i) % 2 == 0⟩

/-- The choice from a list, with that luck, is in order. -/
abbrev SteadilyInOrder (nTargetValue : Int64) (vCoins : List COutput) : Prop :=
  InOrder (samplePayment nTargetValue) vCoins
    (selectCoinsMinConf (samplePayment nTargetValue) steadyLuck vCoins)

/-- Coins of BAM, each at an address of its own. -/
def bamCoins (values : List Int64) : List COutput :=
  values.zipIdx.map fun (nValue, address) => sampleCoin address nValue Color.bam.toInt32

/-- Four coins, for a payment of six. -/
theorem selectCoinsMinConf_inOrder_bam : SteadilyInOrder 6 (bamCoins [5, 3, 4, 9]) :=
  selectCoinsMinConf_inOrder steadyLuck
    ⟨by decide, by decide, by decide, Color.bam, rfl, by decide⟩

/-- **Lists whose books are not kept**: a coin that is there twice, a coin of a negative value, two
coins whose sum wraps, a coin of the greatest `int64_t`, a target to which a cent cannot be added,
and a coin of no colour. -/
theorem uncountable_not_inOrder :
    ¬ SteadilyInOrder 10 [sampleCoin 1 5 Color.bam.toInt32, sampleCoin 1 5 Color.bam.toInt32] ∧
      ¬ SteadilyInOrder 10 (bamCoins [-5, 10]) ∧
      ¬ SteadilyInOrder (2 ^ 62 + 1) (bamCoins [2 ^ 62, 2 ^ 62]) ∧
      ¬ SteadilyInOrder 10 (bamCoins [Int64.maxValue]) ∧
      ¬ SteadilyInOrder Int64.maxValue (bamCoins [5]) ∧
      ¬ SteadilyInOrder 10 [sampleCoin 1 5 58] := by
  refine ⟨?_, ?_, ?_, ?_, ?_, ?_⟩ <;> decide +kernel

end Breakout
