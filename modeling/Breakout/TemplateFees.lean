/-
# The fees of a template

`CreateNewBlock` collects transactions of the memory pool and pays their fees, colour by colour, to
the coinbase, with the coins that were minted and lost.  `getblocktemplatekawpow` reports a fee for
each transaction and colour, from which a pool operator should be able to tell what the coinbase
pays.

The two disagree in three ways.  The report adds the lost coins to the fee of every transaction,
where the coinbase has them once.  It puts the sum into an `int`.  And `CreateNewBlock` counts the
fees of a transaction before it is done with it: those of a transaction that is dropped afterwards
stay.  `feesAccount_iff` says when the totals agree.
-/
import Breakout.BlockIndex
import Breakout.Amounts

namespace Breakout

open Lib

/-! ## 1. Fees -/

/-- A transaction of the memory pool that `CreateNewBlock` may collect.  It does not mature, its
colour is a colour, and its outputs are in the money range, so that `GetValueOut` returns their sum.
-/
structure PoolTx where
  tx : CTransaction
  color : Color
  immature : tx.doesMature = false
  getColor : tx.getColor = color.toInt32
  inRange : ∀ c : Color, c ≠ .none → ∃ v, tx.getValueOut c.toInt32 = .ok v

/-- The outputs that inputs spend.  A transaction is found by its id, so that whoever finds the
previous transactions finds the same ones. -/
abbrev Coins := COutPoint → CTxOut

def CTransaction.getValueIn (tx : CTransaction) (coins : Coins) (c : Color) : Int64 :=
  if tx.isCoinBase then 0
  else tx.vin.foldl (fun nResult txin =>
    let txOut := coins txin.prevout
    if txOut.nColor = c.toInt32 then nResult + txOut.nValue else nResult) 0

namespace PoolTx

/-- What `GetValueOut` returns. -/
def valueOut (p : PoolTx) (c : Color) : Int64 :=
  match p.tx.getValueOut c.toInt32 with
  | .ok v => v
  | .error _ => 0

/-- `tx.GetValueIn(mapInputs, i) - tx.GetValueOut(i)` -/
def fee (p : PoolTx) (coins : Coins) (c : Color) : Int64 := p.tx.getValueIn coins c - p.valueOut c

end PoolTx

/-! ## 2. `CreateNewBlock` -/

/-- A transaction as it comes from the priority queue, whose order is one of floating point numbers:
is it passed over for its size, its signature operations, its time or its rate, are its inputs
fetched, do the scripts it spends have too many signature operations, and does it connect? -/
structure Candidate extends PoolTx where
  fPassedOver : Bool
  fFetched : Bool
  fTooManySigOps : Bool
  fConnects : Bool

/-- What has been collected: the transactions after the coinbase, and `nFees`. -/
structure Assembly where
  vtx : List PoolTx
  nFees : Color → Int64

/-- `nTxFees`: the fee in the fee colour. -/
def Candidate.nTxFees (coins : Coins) (k : Candidate) : Int64 :=
  if feeColor k.color = .none then 0 else k.fee coins (feeColor k.color)

/-- A round of the loop over the queue. -/
def collect (coins : Coins) (vMinTxFee : Color → Int64) (a : Assembly) (k : Candidate) : Assembly :=
  if k.fPassedOver then a
  else if k.fFetched = false then a
  else
    -- "only collect scavengable fees"
    let a := { a with
      nFees := fun c => if c ≠ .none ∧ scavengable c then a.nFees c + k.fee coins c else a.nFees c }
    if k.nTxFees coins < vMinTxFee (feeColor k.color) then a
    else if k.fTooManySigOps then a
    else if k.fConnects = false then a
    else { a with vtx := a.vtx ++ [k.toPoolTx] }

/-- What a template is made from: the coins, the tip, the least fees, the queue, and whether the
report finds the inputs of a transaction. -/
structure TemplateData where
  coins : Coins
  pindexPrev : CBlockIndex
  vMinTxFee : Color → Int64
  queue : List Candidate
  fReported : CTransaction → Bool

namespace TemplateData

/-- `nTotalMintPrev - nMoneySupplyPrev` -/
def unclaimed (t : TemplateData) (c : Color) : Int64 :=
  t.pindexPrev.vTotalMint c - t.pindexPrev.vMoneySupply c

/-- The proof-of-work reward. -/
def reward (t : TemplateData) : Amount := getProofOfWorkReward t.pindexPrev

/-- The transactions that are collected, and the fees, with the coins that were lost. -/
def assembly (t : TemplateData) : Assembly :=
  let a := t.queue.foldl (collect t.coins t.vMinTxFee) ⟨[], fun _ => 0⟩
  { a with nFees := fun c =>
      if c ≠ .none ∧ scavengable c then a.nFees c + t.unclaimed c else a.nFees c }

/-- The outputs of the coinbase: the reward with the fees in its colour, and the other fees. -/
def coinBaseOutputs (t : TemplateData) : List (Color × Int64) :=
  let nFees := t.assembly.nFees
  (t.reward.nColor, t.reward.nValue + nFees t.reward.nColor) ::
    realColors.filterMap fun c =>
      if 0 < nFees c ∧ c ≠ t.reward.nColor then some (c, nFees c) else none

/-- What the coinbase pays of a colour. -/
def paid (t : TemplateData) (c : Color) : Int :=
  ((t.coinBaseOutputs.filter fun out => decide (out.1 = c)).map fun out => out.2.toInt).sum

/-! ## 3. `getblocktemplatekawpow` -/

/-- The sum before it is an `int`. -/
def feeSum (t : TemplateData) (p : PoolTx) (c : Color) : Int64 := p.fee t.coins c + t.unclaimed c

/-- `feeObj`: the colours of a transaction, with `int fee`.  Transactions that mature are not
listed. -/
def feeObj (t : TemplateData) (p : PoolTx) : List (Color × Int32) :=
  realColors.filterMap fun c =>
    let fee := (t.feeSum p c).toInt32
    if scavengable c = true ∧ fee > 0 then some (c, fee) else none

/-- The "fee" of each transaction of the report; there is none if its inputs are not found. -/
def report (t : TemplateData) : List (Option (List (Color × Int32))) :=
  t.assembly.vtx.map fun p => if t.fReported p.tx then some (t.feeObj p) else none

/-- The sum of the reported fees of a colour. -/
def reported (t : TemplateData) (c : Color) : Int :=
  (t.report.map fun entry =>
    (((entry.getD []).filter fun pair => decide (pair.1 = c)).map fun pair => pair.2.toInt).sum).sum

/-! ## 4. What the template should be -/

/-- The fees of a transaction are counted. -/
def Counted (k : Candidate) : Bool := !k.fPassedOver && k.fFetched

/-- The transaction is collected. -/
def kept (t : TemplateData) (k : Candidate) : Bool :=
  Counted k && !decide (k.nTxFees t.coins < t.vMinTxFee (feeColor k.color)) && !k.fTooManySigOps &&
    k.fConnects

/-- The transactions that are listed. -/
def listed (t : TemplateData) : List PoolTx := (t.queue.filter t.kept).map Candidate.toPoolTx

/-- Those whose inputs the report finds. -/
def found (t : TemplateData) : List PoolTx := t.listed.filter fun p => t.fReported p.tx

/-- The sum of the fees of transactions. -/
def feesOf (t : TemplateData) (l : List PoolTx) (c : Color) : Int :=
  (l.map fun p => (p.fee t.coins c).toInt).sum

/-- All fees that are counted. -/
def counted (t : TemplateData) (c : Color) : Int :=
  t.feesOf ((t.queue.filter Counted).map Candidate.toPoolTx) c

/-- The fees of transactions that are dropped after their fees were counted. -/
def dropped (t : TemplateData) (c : Color) : Int :=
  t.feesOf ((t.queue.filter fun k => Counted k && !t.kept k).map Candidate.toPoolTx) c

/-- The fees of listed transactions that the report says nothing about. -/
def unreported (t : TemplateData) (c : Color) : Int :=
  t.feesOf (t.listed.filter fun p => !t.fReported p.tx) c

/-- No sum of the amounts leaves 64 bits. -/
structure NoOverflow (t : TemplateData) (c : Color) : Prop where
  total : FitsInt64 (t.counted c + (t.unclaimed c).toInt)
  coinBase : FitsInt64 (t.reward.nValue.toInt + (t.counted c + (t.unclaimed c).toInt))
  fees : ∀ p ∈ t.listed, FitsInt64 ((p.fee t.coins c).toInt + (t.unclaimed c).toInt)

/-- **The report accounts for the coinbase**: no fee is narrowed, and for every scavengable colour
the fees, and the reward, are what the coinbase pays. -/
structure FeesAccount (t : TemplateData) : Prop where
  exact : ∀ c, scavengable c = true → ∀ p ∈ t.found,
    (t.feeSum p c).toInt32.toInt = (t.feeSum p c).toInt
  agrees : ∀ c, scavengable c = true →
    t.reported c + (if c = t.reward.nColor then t.reward.nValue.toInt else 0) = t.paid c

/-- The fees of a colour, with the lost coins, fit into an `int`. -/
def ReportFits (t : TemplateData) (c : Color) : Prop :=
  ∀ p ∈ t.found, -2 ^ 31 ≤ (p.fee t.coins c).toInt + (t.unclaimed c).toInt ∧
    (p.fee t.coins c).toInt + (t.unclaimed c).toInt < 2 ^ 31

/-- **What is reported twice is what is not reported**: the lost coins of each transaction, which
take no more than its fee when they are negative, are the lost coins, the fees that were dropped and
those that are not reported.  When the total is negative nothing is paid, and nothing must be
reported. -/
def Balanced (t : TemplateData) (c : Color) : Prop :=
  if c ≠ t.reward.nColor ∧ t.counted c + (t.unclaimed c).toInt < 0 then
    ∀ p ∈ t.found, (p.fee t.coins c).toInt + (t.unclaimed c).toInt ≤ 0
  else
    (t.found.map fun p => max (t.unclaimed c).toInt (-(p.fee t.coins c).toInt)).sum =
      (t.unclaimed c).toInt + t.dropped c + t.unreported c

end TemplateData

/-- **A block template**, whose amounts do not overflow. -/
structure Template extends TemplateData where
  noOverflow : ∀ c, scavengable c = true → toTemplateData.NoOverflow c

namespace TemplateData

variable {t : TemplateData} {c : Color} {k : Candidate}

/-! ## 5. What is collected -/

theorem collect_vtx (a : Assembly) (k : Candidate) :
    (collect t.coins t.vMinTxFee a k).vtx = a.vtx ++ if t.kept k then [k.toPoolTx] else [] := by
  unfold collect kept Counted
  cases k.fPassedOver <;> cases k.fFetched <;> cases k.fTooManySigOps <;> cases k.fConnects <;>
    by_cases hfee : k.nTxFees t.coins < t.vMinTxFee (feeColor k.color) <;> simp [hfee]

theorem collect_nFees (hc : scavengable c = true) (a : Assembly) (k : Candidate) :
    (collect t.coins t.vMinTxFee a k).nFees c =
      a.nFees c + if Counted k then k.fee t.coins c else 0 := by
  have hne := (scavengable_iff c).mp hc
  unfold collect Counted
  cases k.fPassedOver with
  | true => simp
  | false =>
    cases k.fFetched with
    | false => simp
    | true =>
      dsimp only
      split_ifs <;> simp_all

theorem foldl_collect_vtx (queue : List Candidate) (a : Assembly) :
    (queue.foldl (collect t.coins t.vMinTxFee) a).vtx =
      a.vtx ++ (queue.filter t.kept).map Candidate.toPoolTx := by
  induction queue generalizing a with
  | nil => simp
  | cons k queue ih =>
    rw [List.foldl_cons, ih, collect_vtx, List.append_assoc, List.filter_cons]
    split_ifs <;> rfl

theorem feesOf_cons (p : PoolTx) (l : List PoolTx) :
    t.feesOf (p :: l) c = (p.fee t.coins c).toInt + t.feesOf l c := by
  rw [feesOf, List.map_cons, List.sum_cons, feesOf]

theorem foldl_collect_nFees (hc : scavengable c = true) (queue : List Candidate) (a : Assembly) :
    (queue.foldl (collect t.coins t.vMinTxFee) a).nFees c =
      a.nFees c + Int64.ofInt (t.feesOf ((queue.filter Counted).map Candidate.toPoolTx) c) := by
  induction queue generalizing a with
  | nil => simp [feesOf]
  | cons k queue ih =>
    rw [List.foldl_cons, ih, collect_nFees hc, List.filter_cons]
    split_ifs
    · rw [List.map_cons, feesOf_cons, Int64.ofInt_add, Int64.ofInt_toInt, Int64.add_assoc]
    · rw [Int64.add_zero]

theorem assembly_vtx (t : TemplateData) : t.assembly.vtx = t.listed := by
  rw [assembly]
  dsimp only
  rw [foldl_collect_vtx]
  rfl

/-- **The fees of the coinbase**: all that were counted, and the lost coins. -/
theorem assembly_nFees (hc : scavengable c = true) (h : t.NoOverflow c) :
    (t.assembly.nFees c).toInt = t.counted c + (t.unclaimed c).toInt := by
  rw [assembly]
  dsimp only
  rw [if_pos ⟨(scavengable_iff c).mp hc, hc⟩, foldl_collect_nFees hc]
  have hsum : (0 : Int64) + Int64.ofInt (t.counted c) + t.unclaimed c =
      Int64.ofInt (t.counted c + (t.unclaimed c).toInt) := by
    rw [Int64.ofInt_add, Int64.ofInt_toInt, Int64.zero_add]
  rw [counted] at hsum
  rw [hsum]
  exact toInt_ofInt_of_fits h.total

/-! ## 6. What is paid, and what is reported -/

/-- Of the pairs that are made for the colours, one at most is of a colour. -/
theorem sum_pairs {V : Type} {l : List Color} (hl : l.Nodup) (P : Color → Prop) [DecidablePred P]
    (f : Color → V) (value : V → Int) (c : Color) :
    (((l.filterMap fun i => if P i then some (i, f i) else none).filter
      fun pair => decide (pair.1 = c)).map fun pair => value pair.2).sum =
        if c ∈ l ∧ P c then value (f c) else 0 := by
  induction l with
  | nil => rw [if_neg fun h => absurd h.1 List.not_mem_nil]; rfl
  | cons i l ih =>
    obtain ⟨hnew, hl⟩ := List.nodup_cons.mp hl
    rw [List.filterMap_cons]
    by_cases hi : i = c
    · subst hi
      have hrest := ih hl
      rw [if_neg fun h => hnew h.1] at hrest
      by_cases hP : P i
      · simp [hP, hrest]
      · simp [hP, hrest]
    · have hne : c ≠ i := Ne.symm hi
      by_cases hP : P i
      · simp [hP, hi, hne, ih hl]
      · simp [hP, hne, ih hl]

theorem realColors_nodup : realColors.Nodup := (List.nodup_finRange nColors).tail

/-- What the coinbase pays of a colour. -/
theorem paid_eq (hc : scavengable c = true) (h : t.NoOverflow c) :
    t.paid c = if c = t.reward.nColor then
        t.reward.nValue.toInt + (t.counted c + (t.unclaimed c).toInt)
      else max 0 (t.counted c + (t.unclaimed c).toInt) := by
  have hfees := assembly_nFees hc h
  have hin := mem_realColors.mpr ((scavengable_iff c).mp hc)
  unfold paid coinBaseOutputs
  dsimp only
  rw [List.filter_cons]
  by_cases hreward : c = t.reward.nColor
  · have hsum : t.reward.nValue + t.assembly.nFees c = Int64.ofInt
        (t.reward.nValue.toInt + (t.counted c + (t.unclaimed c).toInt)) := by
      rw [Int64.ofInt_add, Int64.ofInt_toInt, ← hfees, Int64.ofInt_toInt]
    rw [if_pos (decide_eq_true hreward.symm), List.map_cons, List.sum_cons,
      sum_pairs realColors_nodup, if_neg fun h => h.2.2 hreward, if_pos hreward, ← hreward, hsum,
      toInt_ofInt_of_fits h.coinBase, Int.add_zero]
  · have hlt : 0 < t.assembly.nFees c ↔ 0 < t.counted c + (t.unclaimed c).toInt := by
      rw [← hfees]
      exact Int64.lt_iff_toInt_lt
    rw [if_neg (by simpa using Ne.symm hreward), sum_pairs realColors_nodup, if_neg hreward, hfees]
    split_ifs with hpos
    · rw [max_eq_right (hlt.mp hpos.2.1).le]
    · rw [max_eq_left (not_lt.mp fun hpos' => hpos ⟨hin, hlt.mpr hpos', hreward⟩)]

theorem feeSum_toInt (h : t.NoOverflow c) {p : PoolTx} (hp : p ∈ t.listed) :
    (t.feeSum p c).toInt = (p.fee t.coins c).toInt + (t.unclaimed c).toInt := by
  have hsum : t.feeSum p c = Int64.ofInt ((p.fee t.coins c).toInt + (t.unclaimed c).toInt) := by
    rw [Int64.ofInt_add, Int64.ofInt_toInt, Int64.ofInt_toInt, feeSum]
  rw [hsum, toInt_ofInt_of_fits (h.fees p hp)]

/-- What is reported of a transaction. -/
theorem sum_feeObj (hc : scavengable c = true) (p : PoolTx) :
    (((t.feeObj p).filter fun pair => decide (pair.1 = c)).map fun pair => pair.2.toInt).sum =
      max 0 (t.feeSum p c).toInt32.toInt := by
  have hin := mem_realColors.mpr ((scavengable_iff c).mp hc)
  unfold feeObj
  dsimp only
  have hlt : (t.feeSum p c).toInt32 > 0 ↔ 0 < (t.feeSum p c).toInt32.toInt := Int32.lt_iff_toInt_lt
  rw [sum_pairs realColors_nodup]
  split_ifs with hpos
  · rw [max_eq_right (hlt.mp hpos.2.2).le]
  · rw [max_eq_left (not_lt.mp fun hpos' => hpos ⟨hin, hc, hlt.mpr hpos'⟩)]

/-- **What is reported of a colour**, when nothing is narrowed. -/
theorem reported_eq (hc : scavengable c = true) (h : t.NoOverflow c)
    (hexact : ∀ p ∈ t.found, (t.feeSum p c).toInt32.toInt = (t.feeSum p c).toInt) :
    t.reported c =
      (t.found.map fun p => max 0 ((p.fee t.coins c).toInt + (t.unclaimed c).toInt)).sum := by
  have hsum : t.reported c = (t.found.map fun p => max 0 (t.feeSum p c).toInt32.toInt).sum := by
    rw [reported, report, assembly_vtx, found]
    induction t.listed with
    | nil => rfl
    | cons p l ih =>
      rw [List.map_cons, List.map_cons, List.sum_cons, ih, List.filter_cons]
      by_cases hfound : t.fReported p.tx = true
      · rw [if_pos hfound, if_pos hfound, List.map_cons, List.sum_cons, Option.getD_some,
          sum_feeObj hc]
      · rw [if_neg hfound, if_neg hfound, Option.getD_none, List.filter_nil, List.map_nil,
          List.sum_nil, Int.zero_add]
  rw [hsum]
  congr 1
  refine List.map_congr_left fun p hp => ?_
  rw [hexact p hp, feeSum_toInt h (List.mem_of_mem_filter hp)]

/-- The fees of a list, by those for which something holds and the others. -/
theorem feesOf_filter (l : List PoolTx) (P : PoolTx → Bool) :
    t.feesOf l c = t.feesOf (l.filter P) c + t.feesOf (l.filter fun p => !P p) c := by
  induction l with
  | nil => rfl
  | cons p l ih =>
    rw [feesOf_cons, ih, List.filter_cons, List.filter_cons]
    cases P p <;> simp [feesOf_cons] <;> omega

theorem counted_eq (t : TemplateData) (c : Color) :
    t.counted c = t.feesOf t.found c + t.unreported c + t.dropped c := by
  have hlisted : t.feesOf t.listed c = t.feesOf t.found c + t.unreported c := feesOf_filter _ _
  have hcounted : t.counted c = t.feesOf t.listed c + t.dropped c := by
    unfold counted listed dropped
    induction t.queue with
    | nil => rfl
    | cons k queue ih =>
      simp only [List.filter_cons]
      cases hcount : Counted k with
      | false =>
        have hkept : t.kept k = false := by simp [kept, hcount]
        simpa [hkept] using ih
      | true =>
        cases hkept : t.kept k <;> simp [feesOf_cons, ih] <;> omega
  omega

/-- A fee with the lost coins, or nothing: the fee, and what the lost coins add. -/
theorem sum_max (l : List PoolTx) :
    (l.map fun p => max 0 ((p.fee t.coins c).toInt + (t.unclaimed c).toInt)).sum =
      t.feesOf l c + (l.map fun p => max (t.unclaimed c).toInt (-(p.fee t.coins c).toInt)).sum := by
  induction l with
  | nil => rfl
  | cons p l ih =>
    rw [List.map_cons, List.map_cons, List.sum_cons, List.sum_cons, ih, feesOf_cons]
    omega

theorem sum_max_eq_zero_iff (l : List PoolTx) :
    (l.map fun p => max 0 ((p.fee t.coins c).toInt + (t.unclaimed c).toInt)).sum = 0 ↔
      ∀ p ∈ l, (p.fee t.coins c).toInt + (t.unclaimed c).toInt ≤ 0 := by
  have hnonneg : ∀ l : List PoolTx,
      0 ≤ (l.map fun p => max 0 ((p.fee t.coins c).toInt + (t.unclaimed c).toInt)).sum := by
    intro l
    refine List.sum_nonneg fun x hx => ?_
    obtain ⟨p, -, rfl⟩ := List.mem_map.mp hx
    exact le_max_left _ _
  induction l with
  | nil => simp
  | cons p l ih =>
    have hrest := hnonneg l
    rw [List.map_cons, List.sum_cons, List.forall_mem_cons]
    refine Iff.trans ?_ (and_congr_right fun _ => ih)
    omega

/-! ## 7. When the totals agree -/

theorem exact_iff (h : t.NoOverflow c) :
    (∀ p ∈ t.found, (t.feeSum p c).toInt32.toInt = (t.feeSum p c).toInt) ↔ t.ReportFits c := by
  refine forall₂_congr fun p hp => ?_
  have hsum := feeSum_toInt h (List.mem_of_mem_filter hp)
  rw [← hsum, Int64.toInt_toInt32]
  constructor
  · intro hexact
    have hle := Int.le_bmod (x := (t.feeSum p c).toInt) (m := 2 ^ 32) (by decide)
    have hlt := Int.bmod_lt (x := (t.feeSum p c).toInt) (m := 2 ^ 32) (by decide)
    rw [hexact] at hle hlt
    exact ⟨hle, hlt⟩
  · rintro ⟨hle, hlt⟩
    exact Int.bmod_eq_of_le hle hlt

theorem agrees_iff (hc : scavengable c = true) (h : t.NoOverflow c) (hfits : t.ReportFits c) :
    t.reported c + (if c = t.reward.nColor then t.reward.nValue.toInt else 0) = t.paid c ↔
      t.Balanced c := by
  have hreported := reported_eq hc h ((exact_iff h).mpr hfits)
  have hcounted := t.counted_eq c
  have hzero := @sum_max_eq_zero_iff t c t.found
  have hsum := @sum_max t c t.found
  rw [paid_eq hc h, hreported, Balanced]
  by_cases hreward : c = t.reward.nColor
  · rw [if_pos hreward, if_pos hreward, if_neg fun hboth => hboth.1 hreward, hsum]
    omega
  · rw [if_neg hreward, if_neg hreward]
    split_ifs with hneg
    · rw [Int.add_zero, max_eq_left hneg.2.le]
      exact hzero
    · have hnonneg : 0 ≤ t.counted c + (t.unclaimed c).toInt :=
        not_lt.mp fun hlt => hneg ⟨hreward, hlt⟩
      rw [max_eq_right hnonneg, hsum]
      omega

/-- **When the report accounts for the coinbase**: for every scavengable colour no reported fee is
too large for an `int`, and the lost coins that are reported once for each transaction are those
that are paid once, with the fees that were dropped and those that are not reported. -/
theorem feesAccount_iff (t : Template) : t.FeesAccount ↔
    ∀ c, scavengable c = true → t.ReportFits c ∧ t.Balanced c := by
  constructor
  · intro h c hc
    have hfits := (exact_iff (t.noOverflow c hc)).mp (h.exact c hc)
    exact ⟨hfits, (agrees_iff hc (t.noOverflow c hc) hfits).mp (h.agrees c hc)⟩
  · intro h
    refine ⟨fun c hc => (exact_iff (t.noOverflow c hc)).mpr (h c hc).1, fun c hc => ?_⟩
    exact (agrees_iff hc (t.noOverflow c hc) (h c hc).1).mpr (h c hc).2

/-- When nothing is negative: the lost coins times the listed transactions. -/
theorem balanced_iff_of_nonneg (hunclaimed : 0 ≤ (t.unclaimed c).toInt)
    (hfees : ∀ p ∈ t.found, 0 ≤ (p.fee t.coins c).toInt)
    (htotal : 0 ≤ t.counted c + (t.unclaimed c).toInt) : t.Balanced c ↔
      t.found.length * (t.unclaimed c).toInt =
        (t.unclaimed c).toInt + t.dropped c + t.unreported c := by
  have hmax : ∀ p ∈ t.found, max (t.unclaimed c).toInt (-(p.fee t.coins c).toInt) =
      (t.unclaimed c).toInt := by
    intro p hp
    have := hfees p hp
    omega
  rw [Balanced, if_neg fun hboth => absurd hboth.2 (not_lt.mpr htotal),
    List.map_congr_left hmax, List.map_const', List.sum_replicate, nsmul_eq_mul]

end TemplateData

/-- A tip after the premines, where five BRX were minted and lost. -/
def lossyTip (lost : Int64) : CBlockIndex where
  nFile := 1
  nBlockPos := 0
  nHeight := 600
  nTime := UInt32.ofNat genesisTime
  nVersion := 1
  vTotalMint c := if c = .brx then lost else 0
  vMoneySupply _ := 0
  vCoinbase _ := 0
  nStakeColor := Color.none.toInt32
  nCoinbaseColor := Color.none.toInt32

/-- A template without transactions. -/
def lossyTemplate : Template where
  coins _ := ⟨0, 0, []⟩
  pindexPrev := lossyTip 5
  vMinTxFee := minTxFee
  queue := []
  fReported _ := true
  noOverflow c hc := by
    have hsums : ∀ c : Color, FitsInt64 (0 + ((if c = .brx then 5 else 0 : Int64) - 0).toInt) ∧
        FitsInt64 ((getProofOfWorkReward (lossyTip 5)).nValue.toInt +
          (0 + ((if c = .brx then 5 else 0 : Int64) - 0).toInt)) := by decide +kernel
    exact ⟨(hsums c).1, (hsums c).2, fun p hp => absurd hp List.not_mem_nil⟩

/-- A transaction that leaves thirty SIS to the miner. -/
def generousTx : CTransaction :=
  ⟨1, 0, [⟨⟨1, 0⟩, [], 0⟩], [⟨1, Color.sis.toInt32, []⟩], 0, [], 0⟩

/-- It is in the pool, and collected. -/
def generousCandidate : Candidate where
  tx := generousTx
  color := .sis
  immature := by decide
  getColor := rfl
  inRange c hc := by
    have haccepts : ∀ c : Color, c ≠ .none →
        (generousTx.getValueOut c.toInt32).accepts = true := by decide +kernel
    exact accepts_iff.mp (haccepts c hc)
  fPassedOver := false
  fFetched := true
  fTooManySigOps := false
  fConnects := true

/-- A template with it. -/
def generousData : TemplateData where
  coins _ := ⟨3000000001, Color.sis.toInt32, []⟩
  pindexPrev := lossyTip 0
  vMinTxFee := minTxFee
  queue := [generousCandidate]
  fReported _ := true

def generousTemplate : Template where
  toTemplateData := generousData
  noOverflow c hc := by
    have hsums : ∀ c : Color,
        FitsInt64 (generousData.counted c + (generousData.unclaimed c).toInt) ∧
        FitsInt64 (generousData.reward.nValue.toInt +
          (generousData.counted c + (generousData.unclaimed c).toInt)) ∧
        ∀ p ∈ generousData.listed, FitsInt64 ((p.fee generousData.coins c).toInt +
          (generousData.unclaimed c).toInt) := by decide +kernel
    exact ⟨(hsums c).1, (hsums c).2.1, (hsums c).2.2⟩

/-- **Two templates whose report does not account for the coinbase**: five lost BRX are paid and not
reported, as there is no transaction to report them with; and a fee of thirty SIS is not reported,
as it is negative as an `int`. -/
theorem reported_not_paid :
    (lossyTemplate.paid .brx = 5 ∧ lossyTemplate.reported .brx = 0 ∧ ¬ lossyTemplate.FeesAccount) ∧
      generousTemplate.paid .sis = generousTemplate.reward.nValue.toInt + 3000000000 ∧
        generousTemplate.reported .sis = 0 ∧ ¬ generousTemplate.FeesAccount := by
  have hpaid : lossyTemplate.paid .brx = 5 := by decide +kernel
  have hreported : lossyTemplate.reported .brx = 0 := by decide +kernel
  have hpaid' : generousTemplate.paid .sis = generousTemplate.reward.nValue.toInt + 3000000000 := by
    decide +kernel
  have hreported' : generousTemplate.reported .sis = 0 := by decide +kernel
  refine ⟨⟨hpaid, hreported, fun h => ?_⟩, hpaid', hreported', fun h => ?_⟩
  · have hagrees := h.agrees .brx (by decide)
    rw [hpaid, hreported] at hagrees
    revert hagrees
    decide +kernel
  · have hagrees := h.agrees .sis (by decide)
    rw [hpaid', hreported', if_pos (by decide +kernel)] at hagrees
    omega

end Breakout
