/-
# Payments

What `CreateTransaction` makes is to pay each recipient, in order and with the narrations behind
what they annotate, in the colour asked for; to take in, colour by colour, what it pays out, but for
a fee in the fee colour; and that fee is to be enough.

It is so where the sums are in range (`payment_right`): the coins that are available are not
negative and add up, and there is room for a fee and a cent above what is sent.  The loop that adds
up what is sent looks for a sum that has become negative, but nothing looks at the fee on top of it;
with a sum that becomes negative only then, no coins are needed at all (`paid_out_of_nothing`).
-/
import Breakout.CreateTransaction

namespace Breakout

open Lib
open scoped List

variable {K : Crypto}

/-! ## 1. Order -/

/-- **Outputs are found in a longer list in their order**, the one at `i` at `pos i`, and one
without a value right behind the one before it. -/
structure KeepsOrder (outputs vout : List CTxOut) (pos : Nat → Nat) : Prop where
  found : ∀ i < outputs.length, vout[pos i]? = outputs[i]?
  increasing : ∀ i j, i < j → pos i < pos j
  behind : ∀ i txout, outputs[i + 1]? = some txout → txout.nValue = 0 → pos (i + 1) = pos i + 1

theorem KeepsOrder.refl (outputs : List CTxOut) : KeepsOrder outputs outputs id :=
  ⟨fun _ _ => rfl, fun _ _ h => h, fun _ _ _ _ => rfl⟩

/-- An output is put in front of all, behind all or in front of an output with a value. -/
def Spares (vout : List CTxOut) (p : Nat) : Prop :=
  p ≤ vout.length ∧
    (p = 0 ∨ p = vout.length ∨ ∃ txout, vout[p]? = some txout ∧ txout.nValue ≠ 0)

variable {outputs vout : List CTxOut} {pos : Nat → Nat}

/-- **An output put in there** leaves the others in order. -/
theorem KeepsOrder.insertIdx (h : KeepsOrder outputs vout pos) {p : Nat} (hp : Spares vout p)
    (change : CTxOut) :
    KeepsOrder outputs (vout.insertIdx p change)
      fun i => if pos i < p then pos i else pos i + 1 where
  found i hi := by
    split
    · next hlt =>
      rw [List.getElem?_insertIdx_of_lt hlt]
      exact h.found i hi
    · rw [List.getElem?_insertIdx_of_gt (by omega)]
      exact h.found i hi
  increasing i j hij := by
    have hlt := h.increasing i j hij
    split <;> split <;> omega
  behind i txout htxout hzero := by
    have hnext := h.behind i txout htxout hzero
    have hat : vout[pos (i + 1)]? = some txout := by
      rw [h.found (i + 1) (List.getElem?_eq_some_iff.mp htxout).1, htxout]
    have hinside : pos (i + 1) < vout.length := (List.getElem?_eq_some_iff.mp hat).1
    have hother : pos (i + 1) ≠ p := by
      rintro rfl
      rcases hp.2 with hfirst | hend | ⟨txout', htxout', hvalue⟩
      · omega
      · omega
      · rw [hat] at htxout'
        cases htxout'
        exact hvalue hzero
    split <;> split <;> omega

theorem KeepsOrder.place (h : KeepsOrder outputs vout pos) {change : Option Placed}
    (hp : ∀ p, change = some p → Spares vout p.position) :
    ∃ pos, KeepsOrder outputs (place vout change) pos := by
  cases change with
  | none => exact ⟨pos, h⟩
  | some p => exact ⟨_, h.insertIdx (hp p rfl) p.txout⟩

/-! ## 2. Sums -/

/-- The exact sum of what is sent. -/
def sentTotal (vecSend : List (CScript × Int64)) : Int := (vecSend.map fun s => s.2.toInt).sum

/-- **The sum of what is sent is exact**, where it has not become negative. -/
theorem sumSend_exact {vecSend : List (CScript × Int64)} {nValue n : Int64}
    (h : sumSend vecSend nValue = some n) (hn : 0 ≤ n.toInt) :
    0 ≤ nValue.toInt ∧ n.toInt = nValue.toInt + sentTotal vecSend := by
  induction vecSend generalizing nValue with
  | nil =>
    cases h
    exact ⟨hn, (add_zero _).symm⟩
  | cons s vecSend ih =>
    rw [sumSend] at h
    split at h
    · cases h
    · next hnot =>
      obtain ⟨hnext, hsum⟩ := ih h
      rw [Int64.lt_iff_toInt_lt, not_lt] at hnot
      have hzero : (0 : Int64).toInt = 0 := rfl
      rw [hzero] at hnot
      have hlow := s.2.le_toInt
      have hhigh := s.2.toInt_lt
      have hhigh' := nValue.toInt_lt
      -- a sum that wraps is negative, and the next look at it ends the loop
      have hexact : (nValue + s.2).toInt = nValue.toInt + s.2.toInt := by
        rw [Int64.toInt_add] at hnext ⊢
        by_cases hfits : nValue.toInt + s.2.toInt < 2 ^ 63
        · exact Int.bmod_eq_of_le (by omega) (by omega)
        · have hwrap : (nValue.toInt + s.2.toInt).bmod (2 ^ 64) =
              nValue.toInt + s.2.toInt - 2 ^ 64 := by
            rw [Int.bmod]
            omega
          omega
      refine ⟨hnot, ?_⟩
      rw [hsum, hexact, sentTotal, sentTotal, List.map_cons, List.sum_cons]
      ring

/-- The exact sum of some coins. -/
def outputSum (coins : List COutput) : Int := (coins.map fun o => o.nValue.toInt).sum

/-- A colour of a wallet whose coins add up: none is negative, and their sum is below the greatest
`int64_t`. -/
structure CoinWallet.AddsUp (w : CoinWallet K) (d : Color) : Prop where
  nonneg : ∀ o ∈ w.availableCoins d false true none, 0 ≤ o.nValue.toInt
  total : outputSum (w.availableCoins d false true none) < 2 ^ 63 - 1

theorem coinSum_map_coin (coins : List COutput) :
    coinSum (coins.map COutput.coin) = outputSum coins := by
  rw [coinSum, outputSum, List.map_map]
  rfl

theorem outputSum_perm {coins coins' : List COutput} (h : coins ~ coins') :
    outputSum coins = outputSum coins' := (h.map _).sum_eq

theorem coinsOf_perm (vCoins : List COutput) (setCoins : Finset CoinKey) :
    coinsOf vCoins setCoins ~ vCoins.filter fun o => decide (o.key ∈ setCoins) :=
  List.mergeSort_perm _ _

/-- **The value that a choice returns is the sum of the coins** that a loop over its set finds. -/
theorem Selects.total {args : SelectArgs} {vCoins : List COutput} {f : Bool} {r : Chosen}
    (h : Selects args vCoins f r) (hnodup : (vCoins.map COutput.key).Nodup) :
    r.nValueRet.toInt = outputSum (coinsOf vCoins r.setCoinsRet) := by
  have hset : ((vCoins.filter fun o => decide (o.key ∈ r.setCoinsRet)).map COutput.key).toFinset =
      r.setCoinsRet := by
    ext key
    rw [List.mem_toFinset, List.mem_map]
    constructor
    · rintro ⟨o, ho, rfl⟩
      exact of_decide_eq_true (List.mem_filter.mp ho).2
    · intro hkey
      obtain ⟨coin, hcoin, hsame⟩ := h.eligible key hkey
      obtain ⟨o, ho, rfl⟩ := List.mem_map.mp hcoin
      refine ⟨o, List.mem_filter.mpr ⟨List.mem_of_mem_filter ho, decide_eq_true ?_⟩, hsame⟩
      rw [← hsame] at hkey
      exact hkey
  have hkeys : ((vCoins.filter fun o => decide (o.key ∈ r.setCoinsRet)).map COutput.key).Nodup :=
    hnodup.sublist (List.filter_sublist.map _)
  have heligible : ((args.eligibles vCoins).map Prod.snd).Nodup := by
    rw [SelectArgs.eligibles, List.map_map]
    exact hnodup.sublist (List.filter_sublist.map _)
  rw [h.sum, outputSum_perm (coinsOf_perm vCoins r.setCoinsRet), outputSum]
  conv_lhs => rw [← hset]
  rw [List.sum_toFinset _ hkeys, List.map_map]
  refine congrArg List.sum (List.map_congr_left fun o ho => ?_)
  obtain ⟨hmem, hkey⟩ := List.mem_filter.mp ho
  obtain ⟨coin, hcoin, hsame⟩ := h.eligible o.key (of_decide_eq_true hkey)
  have hvalue := valueAt_of_mem heligible hcoin
  obtain ⟨o', ho', rfl⟩ := List.mem_map.mp hcoin
  have heq : o' = o := List.inj_on_of_nodup_map hnodup (List.mem_of_mem_filter ho') hmem hsame
  rw [heq] at hvalue
  exact hvalue

/-! ## 3. Inputs -/

/-- The output that an input spends, of those in the wallet. -/
def CoinWallet.prevout (w : CoinWallet K) (prevout : COutPoint) : Option CTxOut :=
  (w.mapWallet.find? fun e => decide (e.tx.getHash K = prevout.hash)).bind fun e =>
    e.tx.vout[prevout.n.toNat]?

namespace CoinWallet

variable {w : CoinWallet K} {d : Color} {fMultiSig fOnlyConfirmed : Bool}
  {coinControl : Option CCoinControl} {o o' : COutput}

theorem mem_availableCoins (h : o ∈ w.availableCoins d fMultiSig fOnlyConfirmed coinControl) :
    o ∈ w.availableCoins d fMultiSig fOnlyConfirmed none ∧ o.txout.nColor = d.toInt32 ∧
      ∃ e ∈ w.mapWallet, o.tx = e.ptr := by
  obtain ⟨e, he, ho⟩ := List.mem_flatMap.mp h
  split at ho
  · next havailable =>
    obtain ⟨houtput, hboth⟩ := List.mem_filter.mp ho
    obtain ⟨hspendable, -⟩ := Bool.and_eq_true_iff.mp hboth
    have hcolor := hspendable
    simp only [isSpendable, Bool.and_eq_true, decide_eq_true_eq] at hcolor
    obtain ⟨i, -, rfl⟩ := List.mem_map.mp houtput
    refine ⟨List.mem_flatMap.mpr ⟨e, he, ?_⟩, hcolor.1.1.1, e, he, rfl⟩
    rw [if_pos havailable]
    exact List.mem_filter.mpr ⟨houtput, Bool.and_eq_true_iff.mpr ⟨hspendable, rfl⟩⟩
  · cases ho

variable {e : WalletEntry}

theorem hash_outPoint (ho : o.tx = e.ptr) :
    (o.outPoint K).hash = e.tx.getHash K :=
  congrArg (fun ptr : WtxPtr => ptr.tx.getHash K) ho

theorem n_outPoint (he : e ∈ w.mapWallet) (ho : o.tx = e.ptr) :
    (o.outPoint K).n.toNat = o.i.val := by
  have hsize : o.tx.tx.vout.length ≤ 2 ^ 32 := by
    rw [ho]
    exact w.sized e he
  exact UInt32.toNat_ofNat_of_lt' (o.i.isLt.trans_le hsize)

/-- **An input made of a coin spends the coin.** -/
theorem prevout_outPoint (he : e ∈ w.mapWallet) (ho : o.tx = e.ptr) :
    w.prevout (o.outPoint K) = some o.txout := by
  have hfind : (w.mapWallet.find? fun e => decide (e.tx.getHash K = (o.outPoint K).hash)) =
      some e := by
    rw [hash_outPoint ho]
    cases hfound : w.mapWallet.find? fun e' => decide (e'.tx.getHash K = e.tx.getHash K) with
    | none => exact absurd (decide_eq_true rfl) (List.find?_eq_none.mp hfound e he)
    | some e' =>
      have hhash : e'.tx.getHash K = e.tx.getHash K := by simpa using List.find?_some hfound
      exact congrArg some (List.inj_on_of_nodup_map w.nodup_hash (List.mem_of_find?_eq_some hfound)
        he hhash)
  rw [prevout, hfind, Option.bind_some, n_outPoint he ho, WalletEntry.tx, ← ho]
  exact List.getElem?_eq_getElem o.i.isLt

/-- Coins that make the same input are the same. -/
theorem key_of_outPoint {e' : WalletEntry} (he : e ∈ w.mapWallet) (he' : e' ∈ w.mapWallet)
    (ho : o.tx = e.ptr) (ho' : o'.tx = e'.ptr) (h : o.outPoint K = o'.outPoint K) :
    o.key = o'.key := by
  have hhash : e.tx.getHash K = e'.tx.getHash K := by
    rw [← hash_outPoint ho, ← hash_outPoint ho', h]
  obtain rfl := List.inj_on_of_nodup_map w.nodup_hash he he' hhash
  have hi : o.i.val = o'.i.val := by rw [← n_outPoint he ho, ← n_outPoint he ho', h]
  exact Prod.ext (congrArg WtxPtr.address (ho.trans ho'.symm)) hi

/-- **Coins of a colour that are spent**, with the value that is returned for them: all of them
available, none twice, and the value their sum. -/
structure Spends (w : CoinWallet K) (d : Color) (coins : List COutput) (nValueRet : Int64) :
    Prop where
  available : ∀ o ∈ coins, o ∈ w.availableCoins d false true none
  distinct : (coins.map COutput.key).Nodup
  sum : nValueRet.toInt = outputSum coins

theorem spends_nil (w : CoinWallet K) (d : Color) : w.Spends d [] 0 :=
  ⟨fun _ h => absurd h List.not_mem_nil, List.nodup_nil, rfl⟩

theorem color_of_mem_availableCoins
    (h : o ∈ w.availableCoins d fMultiSig fOnlyConfirmed coinControl) :
    o.txout.nColor = d.toInt32 := (mem_availableCoins h).2.1

/-- What is available under a control is part of what is available. -/
theorem availableCoins_subperm (w : CoinWallet K) (d : Color) (coinControl : Option CCoinControl) :
    w.availableCoins d false true coinControl <+~ w.availableCoins d false true none :=
  (w.nodup_availableCoins d false true coinControl).of_map.subperm fun _ ho =>
    (mem_availableCoins ho).1

theorem AddsUp.coins_nonneg (h : w.AddsUp d) :
    ∀ coin ∈ (w.availableCoins d false true none).map COutput.coin, 0 ≤ coin.1.toInt := by
  intro coin hcoin
  obtain ⟨o, ho, rfl⟩ := List.mem_map.mp hcoin
  exact h.nonneg o ho

/-- Of a colour that adds up, a part of what is available does. -/
theorem AddsUp.outputSum_lt (h : w.AddsUp d) {coins : List COutput}
    (hsub : coins <+~ w.availableCoins d false true none) :
    0 ≤ outputSum coins ∧ outputSum coins < 2 ^ 63 - 1 := by
  obtain ⟨l, hperm, hsublist⟩ := hsub
  have hcoins : coins.map COutput.coin <+~ (w.availableCoins d false true none).map COutput.coin :=
    ⟨l.map COutput.coin, hperm.map _, hsublist.map _⟩
  have hle := coinSum_le_of_subperm h.coins_nonneg hcoins
  have hnonneg := coinSum_nonneg fun coin hcoin => h.coins_nonneg coin (hcoins.subset hcoin)
  rw [coinSum_map_coin] at hle hnonneg
  rw [coinSum_map_coin] at hle
  exact ⟨hnonneg, hle.trans_lt h.total⟩

/-- Of a colour that adds up, the list for a payment can be counted. -/
theorem AddsUp.countable (h : w.AddsUp d) {args : SelectArgs}
    (hroom : args.nTargetValue.toInt + (cent d).toInt < 2 ^ 63) :
    CountableCoins args (w.availableCoins d false true coinControl) where
  distinct := by
    rw [SelectArgs.eligibles, List.map_map]
    exact (w.nodup_availableCoins d false true coinControl).sublist (List.filter_sublist.map _)
  nonneg coin hcoin := by
    obtain ⟨o, ho, rfl⟩ := List.mem_map.mp hcoin
    exact h.nonneg o (mem_availableCoins (List.mem_of_mem_filter ho)).1
  total := by
    rw [SelectArgs.eligibles, coinSum_map_coin]
    exact (h.outputSum_lt (List.filter_sublist.subperm.trans
      (w.availableCoins_subperm d coinControl))).2
  cent := by
    cases hcoins : w.availableCoins d false true coinControl with
    | nil =>
      have hnone : (cent Color.none).toInt ≤ (cent d).toInt := cent_nonneg d
      exact ⟨.none, rfl, by omega⟩
    | cons o coins =>
      refine ⟨d, ?_, hroom⟩
      have hmem : o ∈ w.availableCoins d false true coinControl := by
        rw [hcoins]
        exact List.mem_cons_self
      exact color_of_mem_availableCoins hmem

/-- A loop over a set of the available coins finds coins that are available, and none twice. -/
theorem spends_coinsOf {setCoins : Finset CoinKey} {nValueRet : Int64}
    (hsum : nValueRet.toInt =
      outputSum (coinsOf (w.availableCoins d false true coinControl) setCoins)) :
    w.Spends d (coinsOf (w.availableCoins d false true coinControl) setCoins) nValueRet where
  available o ho :=
    (mem_availableCoins (List.mem_of_mem_filter ((coinsOf_perm _ _).subset ho))).1
  distinct := by
    rw [((coinsOf_perm _ setCoins).map COutput.key).nodup_iff]
    exact (w.nodup_availableCoins d false true coinControl).sublist (List.filter_sublist.map _)
  sum := hsum

/-- **`SelectCoins`, where it succeeds**: it spends coins that are worth what it says, and at least
the target. -/
theorem selectCoins_spec {nTargetValue : Int64} {nSpendTime : UInt32} {luck : Nat → Luck}
    {r : Chosen} (hcoins : w.AddsUp d) (hroom : nTargetValue.toInt + (cent d).toInt < 2 ^ 63)
    (h : w.selectCoins nTargetValue d nSpendTime false coinControl luck = .ok (true, r)) :
    w.Spends d (coinsOf (w.availableCoins d false true coinControl) r.setCoinsRet) r.nValueRet ∧
      nTargetValue.toInt ≤ r.nValueRet.toInt := by
  have htry : ∀ {nConfMine nConfTheirs : Int} {luck : Luck} {f : Bool} {r : Chosen},
      selectCoinsMinConf ⟨nTargetValue, nSpendTime, nConfMine, nConfTheirs, false⟩ luck
        (w.availableCoins d false true coinControl) = .ok (f, r) → f = true →
      w.Spends d (coinsOf (w.availableCoins d false true coinControl) r.setCoinsRet) r.nValueRet ∧
        nTargetValue.toInt ≤ r.nValueRet.toInt := by
    intro nConfMine nConfTheirs luck f r hrun hf
    have horder := selectCoinsMinConf_inOrder luck (@AddsUp.countable K w d coinControl hcoins
      ⟨nTargetValue, nSpendTime, nConfMine, nConfTheirs, false⟩ hroom)
    rw [hrun] at horder
    have hselects : Selects _ _ f r := horder
    exact ⟨spends_coinsOf (hselects.total (w.nodup_availableCoins d false true coinControl)),
      hselects.target hf⟩
  unfold selectCoins at h
  dsimp only at h
  split at h
  · -- the coins that are selected all go into the transaction
    obtain ⟨hreached, rfl⟩ := Prod.mk.inj (Except.ok.inj h)
    have hall : coinsOf (w.availableCoins d false true coinControl)
        (Chosen.none.addAll
          ((w.availableCoins d false true coinControl).map COutput.coin)).setCoinsRet ~
        w.availableCoins d false true coinControl := by
      refine (coinsOf_perm _ _).trans (List.Perm.of_eq (List.filter_eq_self.mpr fun o ho => ?_))
      rw [setCoinsRet_addAll, List.map_map]
      refine decide_eq_true (Finset.mem_union_right _ ?_)
      exact List.mem_toFinset.mpr (List.mem_map_of_mem ho)
    refine ⟨spends_coinsOf ?_, Int64.le_iff_toInt_le.mp (of_decide_eq_true hreached)⟩
    obtain ⟨hnonneg, hlt⟩ := hcoins.outputSum_lt (w.availableCoins_subperm d coinControl)
    rw [outputSum_perm hall, nValueRet_addAll, coinSum_map_coin]
    have hzero : Chosen.none.nValueRet = 0 := rfl
    rw [hzero, Int64.zero_add, toInt_ofInt_of_fits ⟨by omega, by omega⟩]
  · obtain ⟨⟨f, r'⟩, hrun, h⟩ := bind_eq_ok.mp h
    dsimp only at h
    split at h
    · next hf =>
      cases h
      exact htry hrun hf
    · obtain ⟨⟨f, r'⟩, hrun, h⟩ := bind_eq_ok.mp h
      dsimp only at h
      split at h
      · next hf =>
        cases h
        exact htry hrun hf
      · exact htry h rfl

end CoinWallet

/-! ## 4. Coins, change and fee -/

/-- **The coins of an attempt**, for what is sent and its fee: they are spent, and they are enough.
-/
structure PaymentCoins.Enough (w : CoinWallet K) (c : Color) (nValue nFee : Int64)
    (p : PaymentCoins) : Prop where
  coins : w.Spends c p.coins p.nValueIn
  feeCoins : w.Spends (feeColor c) p.feeCoins p.nFeeValueIn
  same : c = feeColor c → p.feeCoins = [] ∧ nValue.toInt + nFee.toInt ≤ p.nValueIn.toInt
  other : c ≠ feeColor c → nValue.toInt ≤ p.nValueIn.toInt ∧ nFee.toInt ≤ p.nFeeValueIn.toInt

theorem cent_le_feeColor : ∀ c : Color, (cent c).toInt ≤ (cent (feeColor c)).toInt := by decide

theorem choosePayment_spec {env : CreateEnv K} {args : CreateArgs} {c : Color}
    {nValue nFee : Int64} {d : Draws} {p : PaymentCoins} (hcoins : env.wallet.AddsUp c)
    (hfeeCoins : env.wallet.AddsUp (feeColor c)) (hvalue : 0 ≤ nValue.toInt) (hfee : 0 ≤ nFee.toInt)
    (hroom : nValue.toInt + nFee.toInt + (cent (feeColor c)).toInt < 2 ^ 63)
    (h : choosePayment env args c nValue nFee d = .ok (some p)) :
    p.Enough env.wallet c nValue nFee := by
  have hcent := cent_le_feeColor c
  have hnonneg := cent_nonneg (feeColor c)
  unfold choosePayment at h
  dsimp only at h
  obtain ⟨⟨f, r⟩, hrun, h⟩ := bind_eq_ok.mp h
  dsimp only at h
  split at h
  · cases h
  · next hf =>
    rw [Bool.not_eq_false] at hf
    subst hf
    by_cases hsame : c = feeColor c
    · have hexact : (nValue + nFee).toInt = nValue.toInt + nFee.toInt := by
        rw [Int64.toInt_add, Int.bmod_eq_of_le (by omega) (by omega)]
      rw [if_pos (decide_eq_true hsame)] at hrun h
      obtain ⟨hspends, htarget⟩ := CoinWallet.selectCoins_spec hcoins (by omega) hrun
      cases h
      exact ⟨hspends, CoinWallet.spends_nil _ _, fun _ => ⟨rfl, hexact.symm.trans_le htarget⟩,
        fun hother => absurd hsame hother⟩
    · have hnot : ¬ decide (c = feeColor c) = true := by simpa using hsame
      rw [if_neg hnot] at hrun h
      obtain ⟨hspends, htarget⟩ := CoinWallet.selectCoins_spec hcoins (by omega) hrun
      split at h
      · obtain ⟨⟨f, rFee⟩, hrunFee, h⟩ := bind_eq_ok.mp h
        dsimp only at h
        split at h
        · cases h
        · next hf =>
          rw [Bool.not_eq_false] at hf
          subst hf
          obtain ⟨hspendsFee, htargetFee⟩ :=
            CoinWallet.selectCoins_spec hfeeCoins (by omega) hrunFee
          cases h
          exact ⟨hspends, hspendsFee, fun h => absurd h hsame, fun _ => ⟨htarget, htargetFee⟩⟩
      · next hnone =>
        cases h
        refine ⟨hspends, CoinWallet.spends_nil _ _, fun h => absurd h hsame, fun _ => ⟨htarget, ?_⟩⟩
        exact not_lt.mp fun hpos => hnone (Int64.lt_iff_toInt_lt.mpr hpos)

/-- **The change and the fee** come to what there is above what is sent; neither change is negative.
-/
structure PaymentChange.Exact (c : Color) (nValue : Int64) (p : PaymentCoins) (q : PaymentChange) :
    Prop where
  nonneg : 0 ≤ q.nChange.toInt ∧ 0 ≤ q.nFeeChange.toInt
  same : c = feeColor c → q.nFeeChange = 0 ∧
    q.nChange.toInt + q.nFeeRet.toInt = p.nValueIn.toInt - nValue.toInt
  other : c ≠ feeColor c → q.nChange.toInt = p.nValueIn.toInt - nValue.toInt ∧
    q.nFeeChange.toInt + q.nFeeRet.toInt = p.nFeeValueIn.toInt

theorem toInt_sub_of_nonneg {a b : Int64} (ha : 0 ≤ a.toInt) (hb : 0 ≤ b.toInt) :
    (a - b).toInt = a.toInt - b.toInt := by
  have ha' := a.toInt_lt
  have hb' := b.toInt_lt
  rw [Int64.toInt_sub, Int.bmod_eq_of_le (by omega) (by omega)]

/-- What is moved from the change to the fee: no more than the change, and no more than is missing.
-/
theorem move_spec (nChange : Int64) {minFee nFee : Int64} (hchange : 0 ≤ nChange.toInt)
    (hfee : 0 ≤ nFee.toInt) (hless : nFee.toInt < minFee.toInt) :
    0 ≤ (nChange - min nChange (minFee - nFee)).toInt ∧
      nFee.toInt ≤ (nFee + min nChange (minFee - nFee)).toInt ∧
      (nChange - min nChange (minFee - nFee)).toInt + (nFee + min nChange (minFee - nFee)).toInt =
        nChange.toInt + nFee.toInt := by
  have hmissing := toInt_sub_of_nonneg (hfee.trans hless.le) hfee
  have hmin : (min nChange (minFee - nFee)).toInt =
      min nChange.toInt (minFee.toInt - nFee.toInt) := by
    rw [toInt_min, hmissing]
  have hbound := minFee.toInt_lt
  have hrest := toInt_sub_of_nonneg hchange (b := min nChange (minFee - nFee)) (by omega)
  have hmore : (nFee + min nChange (minFee - nFee)).toInt =
      nFee.toInt + (min nChange (minFee - nFee)).toInt := by
    rw [Int64.toInt_add, Int.bmod_eq_of_le (by omega) (by omega)]
  omega

theorem paymentChange_spec {w : CoinWallet K} {c : Color} {nValue nFee : Int64} {p : PaymentCoins}
    (h : p.Enough w c nValue nFee) (hvalue : 0 ≤ nValue.toInt) (hfee : 0 ≤ nFee.toInt) :
    (paymentChange c nValue nFee p).Exact c nValue p := by
  unfold paymentChange
  by_cases hsame : c = feeColor c
  · obtain ⟨-, henough⟩ := h.same hsame
    have hrest := toInt_sub_of_nonneg (a := p.nValueIn) (by omega) hvalue
    have hchange : (p.nValueIn - nValue - nFee).toInt =
        p.nValueIn.toInt - nValue.toInt - nFee.toInt := by
      rw [toInt_sub_of_nonneg (by omega) hfee, hrest]
    rw [if_pos hsame]
    dsimp only
    split
    · next hmove =>
      obtain ⟨hnonneg, -, hsum⟩ := move_spec (p.nValueIn - nValue - nFee) (by omega) hfee
        (Int64.lt_iff_toInt_lt.mp hmove.1)
      refine ⟨⟨hnonneg, le_rfl⟩, fun _ => ⟨rfl, ?_⟩, fun hother => absurd hsame hother⟩
      dsimp only
      omega
    · refine ⟨⟨?_, le_rfl⟩, fun _ => ⟨rfl, ?_⟩, fun hother => absurd hsame hother⟩ <;>
        dsimp only <;> omega
  · obtain ⟨henough, henoughFee⟩ := h.other hsame
    have hchange := toInt_sub_of_nonneg (a := p.nValueIn) (by omega) hvalue
    have hfeeChange := toInt_sub_of_nonneg (a := p.nFeeValueIn) (by omega) hfee
    rw [if_neg hsame]
    dsimp only
    split
    · next hmove =>
      obtain ⟨hnonneg, -, hsum⟩ := move_spec (p.nFeeValueIn - nFee) (by omega) hfee
        (Int64.lt_iff_toInt_lt.mp hmove.1)
      refine ⟨⟨?_, hnonneg⟩, fun h => absurd h hsame, fun _ => ⟨hchange, ?_⟩⟩ <;> dsimp only <;>
        omega
    · refine ⟨⟨?_, ?_⟩, fun h => absurd h hsame, fun _ => ⟨hchange, ?_⟩⟩ <;> dsimp only <;> omega

/-! ## 5. What a payment should be -/

/-- **A payment that is right**, with the coins of a wallet: the recipients' outputs are in order,
with the narrations behind what they annotate; it takes in what it pays out of each colour, and in
the fee colour a fee beside it; and the fee is at least the one that is returned, which is enough.
-/
structure Created.RightPayment (w : CoinWallet K) (args : CreateArgs) (c : Color) (r : Created) :
    Prop where
  first : r.wtxNew.vout.head?.map CTxOut.nColor = some args.nColor
  ordered : ∃ pos, KeepsOrder (args.outputs c) r.wtxNew.vout pos
  once : (r.wtxNew.vin.map CTxIn.prevout).Nodup
  balanced : ∃ prevs nFeePaid, (r.wtxNew.vin.map fun txin => w.prevout txin.prevout) =
      prevs.map some ∧ r.nFeeRet.toInt ≤ nFeePaid ∧
    ∀ nColor, colorSum prevs nColor = colorSum r.wtxNew.vout nColor +
      if nColor = (feeColor c).toInt32 then nFeePaid else 0
  minFee : ∃ nMinFee, r.wtxNew.getMinFee (maxBlockSize / 50).toUInt32 .gmfSend
    r.wtxNew.serialize.length.toUInt32 = .ok nMinFee ∧ nMinFee.toInt ≤ r.nFeeRet.toInt

/-- The exact value of an output that was put in, or not. -/
def placedSum (change : Option Placed) (nColor : Int32) : Int :=
  match change with
  | none => 0
  | some p => if p.txout.nColor = nColor then p.txout.nValue.toInt else 0

theorem colorSum_place {vout : List CTxOut} {change : Option Placed}
    (h : ∀ p, change = some p → p.position ≤ vout.length) (nColor : Int32) :
    colorSum (place vout change) nColor = colorSum vout nColor + placedSum change nColor := by
  cases change with
  | none => exact (add_zero _).symm
  | some p =>
    have hperm := List.perm_insertIdx p.txout vout (h p rfl)
    have hsum : colorSum (vout.insertIdx p.position p.txout) nColor =
        colorSum (p.txout :: vout) nColor := (hperm.map _).sum_eq
    rw [place, hsum, colorSum_cons, add_comm]
    rfl

theorem colorSum_outputs (args : CreateArgs) (c : Color) (nColor : Int32) :
    colorSum (args.outputs c) nColor =
      if nColor = c.toInt32 then sentTotal args.vecSend else 0 := by
  unfold CreateArgs.outputs sentTotal
  induction args.vecSend with
  | nil => simp
  | cons s vecSend ih =>
    rw [List.map_cons, colorSum_cons, ih, List.map_cons, List.sum_cons]
    by_cases h : nColor = c.toInt32
    · rw [if_pos h, if_pos h, if_pos h.symm]
    · rw [if_neg h, if_neg h, if_neg fun hsame => h hsame.symm, zero_add]

variable {coins : List COutput} {nValueRet : Int64}

/-- What is spent is of the colour, and comes to its sum. -/
theorem CoinWallet.Spends.colorSum_eq {w : CoinWallet K} {d : Color}
    (h : w.Spends d coins nValueRet) (nColor : Int32) :
    colorSum (coins.map COutput.txout) nColor =
      if nColor = d.toInt32 then nValueRet.toInt else 0 := by
  rw [h.sum]
  have hcolor : ∀ o ∈ coins, o.txout.nColor = d.toInt32 := fun o ho =>
    CoinWallet.color_of_mem_availableCoins (h.available o ho)
  clear h
  induction coins with
  | nil => simp [outputSum]
  | cons o coins ih =>
    obtain ⟨hhead, htail⟩ := List.forall_mem_cons.mp hcolor
    rw [List.map_cons, colorSum_cons, ih htail, hhead, outputSum, outputSum, List.map_cons,
      List.sum_cons]
    by_cases h : nColor = d.toInt32
    · rw [if_pos h, if_pos h, if_pos h.symm]
      rfl
    · rw [if_neg h, if_neg h, if_neg fun hsame => h hsame.symm, zero_add]

/-! ## 6. What a payment is -/

theorem cent_tenth_other : ∀ c : Color, c ≠ feeColor c → cent c / 10 = 0 := by decide

/-- The fee of an attempt only gets larger. -/
theorem nFee_le_nFeeRet {c : Color} {nValue nFee : Int64} {p : PaymentCoins}
    (hfee : 0 ≤ nFee.toInt) : nFee.toInt ≤ (paymentChange c nValue nFee p).nFeeRet.toInt := by
  unfold paymentChange
  by_cases hsame : c = feeColor c
  · rw [if_pos hsame]
    dsimp only
    split
    · next hmove =>
      have hpos := Int64.lt_iff_toInt_lt.mp hmove.2.1
      exact (move_spec (p.nValueIn - nValue - nFee) hpos.le hfee
        (Int64.lt_iff_toInt_lt.mp hmove.1)).2.1
    · exact le_rfl
  · rw [if_neg hsame]
    dsimp only
    split
    · next hmove =>
      rw [cent_tenth_other c hsame] at hmove
      exact absurd (Int64.lt_trans hmove.2.1 hmove.2.2) (Int64.lt_irrefl)
    · exact le_rfl

theorem CoinWallet.Spends.entry {w : CoinWallet K} {d : Color} (h : w.Spends d coins nValueRet)
    {o : COutput} (ho : o ∈ coins) :
    ∃ e ∈ w.mapWallet, o.tx = e.ptr :=
  (CoinWallet.mem_availableCoins (h.available o ho)).2.2

/-- A coin of another colour is another coin. -/
theorem CoinWallet.Spends.key_ne {w : CoinWallet K} {d d' : Color} {coins' : List COutput}
    {n n' : Int64} (h : w.Spends d coins n) (h' : w.Spends d' coins' n') (hother : d ≠ d')
    {o o' : COutput} (ho : o ∈ coins) (ho' : o' ∈ coins') : o.key ≠ o'.key := by
  intro hkey
  obtain ⟨e, he, heq⟩ := h.entry ho
  obtain ⟨e', he', heq'⟩ := h'.entry ho'
  have haddress : e.ptr.address = e'.ptr.address := by
    rw [← heq, ← heq']
    exact congrArg Prod.fst hkey
  obtain rfl := List.inj_on_of_nodup_map w.nodup_address he he' haddress
  have hsame : o.outPoint K = o'.outPoint K := by
    have hi : o.i.val = o'.i.val := congrArg Prod.snd hkey
    rw [COutput.outPoint, COutput.outPoint, hi]
    exact congrArg (COutPoint.mk · _) ((hash_outPoint heq).trans (hash_outPoint heq').symm)
  have htxout := prevout_outPoint he heq
  rw [hsame, prevout_outPoint he heq', Option.some_inj] at htxout
  have hcolor := color_of_mem_availableCoins (h.available o ho)
  rw [← htxout, color_of_mem_availableCoins (h'.available o' ho'), Color.toInt32_inj] at hcolor
  exact hother hcolor.symm

/-- **The inputs of an attempt** differ from one another, and spend its coins. -/
theorem PaymentCoins.Enough.inputs {w : CoinWallet K} {c : Color} {nValue nFee : Int64}
    {p : PaymentCoins} (h : p.Enough w c nValue nFee) :
    ((p.coins ++ p.feeCoins).map fun o => o.outPoint K).Nodup ∧
      ((p.coins ++ p.feeCoins).map fun o => w.prevout (o.outPoint K)) =
        ((p.coins ++ p.feeCoins).map COutput.txout).map some := by
  have hentry : ∀ o ∈ p.coins ++ p.feeCoins, ∃ e ∈ w.mapWallet, o.tx = e.ptr := fun o ho =>
    (List.mem_append.mp ho).elim h.coins.entry h.feeCoins.entry
  have hkeys : ((p.coins ++ p.feeCoins).map COutput.key).Nodup := by
    by_cases hsame : c = feeColor c
    · rw [(h.same hsame).1, List.append_nil]
      exact h.coins.distinct
    · rw [List.map_append]
      refine List.Nodup.append h.coins.distinct h.feeCoins.distinct fun key hkey hkey' => ?_
      obtain ⟨o, ho, rfl⟩ := List.mem_map.mp hkey
      obtain ⟨o', ho', heq⟩ := List.mem_map.mp hkey'
      exact h.coins.key_ne h.feeCoins hsame ho ho' heq.symm
  constructor
  · refine List.Nodup.map_on (fun o ho o' ho' hsame => ?_) hkeys.of_map
    obtain ⟨e, he, heq⟩ := hentry o ho
    obtain ⟨e', he', heq'⟩ := hentry o' ho'
    exact List.inj_on_of_nodup_map hkeys ho ho' (CoinWallet.key_of_outPoint he he' heq heq' hsame)
  · rw [List.map_map]
    refine List.map_congr_left fun o ho => ?_
    obtain ⟨e, he, heq⟩ := hentry o ho
    exact CoinWallet.prevout_outPoint he heq

section Made

variable {env : CreateEnv K} {args : CreateArgs} {c : Color} {nValue nFee : Int64}
  {p : PaymentCoins} {r : Created}

/-- Both insertions of an attempt spare the narrations. -/
theorem Created.Made.spares (h : r.Made env args c nValue nFee p) (hsend : args.vecSend ≠ []) :
    (∀ q, r.change = some q → Spares (args.outputs c) q.position) ∧
      ∀ q, r.feeChange = some q → 0 < q.position ∧
        Spares (place (args.outputs c) r.change) q.position := by
  refine ⟨fun q hq => ?_, fun q hq => ?_⟩
  · rw [(placeChange_some (h.change.symm.trans hq)).1]
    exact args.changeAt_spec c _
  · obtain ⟨hpos, hle, hplace⟩ := h.feeChange_spec hsend hq
    exact ⟨hpos, hle, Or.inr hplace⟩

/-- **The first output** stays one of the colour asked for. -/
theorem Created.Made.first (h : r.Made env args c nValue nFee p) (hsend : args.vecSend ≠ []) :
    r.wtxNew.vout.head?.map CTxOut.nColor = some c.toInt32 := by
  have houtputs : (args.outputs c).head?.map CTxOut.nColor = some c.toInt32 := by
    unfold CreateArgs.outputs
    cases hvec : args.vecSend with
    | nil => exact absurd hvec hsend
    | cons s vecSend => rfl
  have hchange : (place (args.outputs c) r.change).head?.map CTxOut.nColor = some c.toInt32 := by
    cases hc : r.change with
    | none => exact houtputs
    | some q =>
      rw [place, List.head?_eq_getElem?, List.getElem?_insertIdx]
      split
      · rw [← List.head?_eq_getElem?]
        exact houtputs
      · next hfirst =>
        rw [if_pos (by omega), if_pos (Nat.zero_le _), Option.map_some,
          (placeChange_some (h.change.symm.trans hc)).2.2.2.1]
  rw [h.vout]
  cases hf : r.feeChange with
  | none => exact hchange
  | some q =>
    have hpos := ((h.spares hsend).2 q hf).1
    change ((place (args.outputs c) r.change).insertIdx q.position q.txout).head?.map _ = _
    rw [List.head?_eq_getElem?, List.getElem?_insertIdx_of_lt hpos, ← List.head?_eq_getElem?]
    exact hchange

/-- **What is put among the outputs**: the change, but for one that is small, and the change of a
fee in another colour. -/
theorem Created.Made.placed (h : r.Made env args c nValue nFee p)
    (hexact : (paymentChange c nValue nFee p).Exact c nValue p) :
    (∃ n, (∀ nColor, placedSum r.change nColor = if nColor = c.toInt32 then n else 0) ∧
      n ≤ (paymentChange c nValue nFee p).nChange.toInt ∧
      (c ≠ feeColor c → n = (paymentChange c nValue nFee p).nChange.toInt)) ∧
    ∃ n, (∀ nColor, placedSum r.feeChange nColor =
        if nColor = (feeColor c).toInt32 then n else 0) ∧
      n ≤ (paymentChange c nValue nFee p).nFeeChange.toInt ∧ (c = feeColor c → n = 0) := by
  constructor
  · cases hc : r.change with
    | none =>
      refine ⟨0, fun _ => (ite_self _).symm, hexact.nonneg.1, fun hother => ?_⟩
      have hsmall := h.change.symm.trans hc
      unfold placeChange at hsmall
      rw [cent_tenth_other c hother] at hsmall
      split at hsmall
      · cases hsmall
      · next hnot =>
        have hle := hexact.nonneg.1
        exact le_antisymm hle (not_lt.mp fun hpos => hnot (Int64.lt_iff_toInt_lt.mpr hpos))
    | some q =>
      obtain ⟨-, -, hvalue, hcolor, -⟩ := placeChange_some (h.change.symm.trans hc)
      refine ⟨_, fun nColor => ?_, le_rfl, fun _ => rfl⟩
      rw [placedSum, hvalue, hcolor]
      exact if_congr eq_comm rfl rfl
  · cases hf : r.feeChange with
    | none => exact ⟨0, fun _ => (ite_self _).symm, hexact.nonneg.2, fun _ => rfl⟩
    | some q =>
      obtain ⟨-, -, hvalue, hcolor, hother, -⟩ := placeFeeChange_some (h.feeChange.symm.trans hf)
      refine ⟨_, fun nColor => ?_, le_rfl, fun hsame => absurd hsame hother⟩
      rw [placedSum, hvalue, hcolor]
      exact if_congr eq_comm rfl rfl

end Made

/-- **`CreateTransaction` makes a payment that is right**, where the coins of the colour and of its
fee colour add up, and what is sent, the fee that is returned and a cent of the fee colour do. -/
theorem payment_right (env : CreateEnv K) (fuel : Nat) (args : CreateArgs) {c : Color}
    (hc : args.nColor = c.toInt32) {r : Created}
    (h : createTransaction env fuel args = .ok (some r)) (hcoins : env.wallet.AddsUp c)
    (hfeeCoins : env.wallet.AddsUp (feeColor c))
    (hroom : sentTotal args.vecSend + r.nFeeRet.toInt + (cent (feeColor c)).toInt < 2 ^ 63) :
    r.RightPayment env.wallet args c := by
  obtain ⟨c', -, hc', hsend, nValue, nFee, p, hsum, hvalue, hfee, hmade⟩ := createTransaction_some h
  obtain rfl : c = c' := Color.toInt32_injective (hc.symm.trans hc')
  obtain ⟨-, hsent⟩ := sumSend_exact hsum hvalue
  have hzero : (0 : Int64).toInt = 0 := rfl
  rw [hzero, zero_add] at hsent
  have hlarger := @nFee_le_nFeeRet c nValue nFee p hfee
  rw [← hmade.fee] at hlarger
  have henough := choosePayment_spec hcoins hfeeCoins hvalue hfee (by omega) hmade.chosen
  have hexact := paymentChange_spec henough hvalue hfee
  obtain ⟨hspare, hspareFee⟩ := hmade.spares hsend
  obtain ⟨honce, hprevs⟩ := henough.inputs
  refine ⟨(hmade.first hsend).trans (congrArg some hc.symm), ?_, ?_, ?_, hmade.minFee⟩
  · rw [hmade.vout]
    obtain ⟨pos, hpos⟩ := (KeepsOrder.refl (args.outputs c)).place hspare
    exact hpos.place fun q hq => (hspareFee q hq).2
  · rw [hmade.vin]
    exact honce
  · obtain ⟨⟨n, hchange, hle, hother⟩, nFeeChange, hfeeChange, hleFee, hsame⟩ := hmade.placed hexact
    have hin : ∀ nColor, colorSum ((p.coins ++ p.feeCoins).map COutput.txout) nColor =
        (if nColor = c.toInt32 then p.nValueIn.toInt else 0) +
          if nColor = (feeColor c).toInt32 then p.nFeeValueIn.toInt else 0 := by
      intro nColor
      rw [List.map_append, colorSum_append, henough.coins.colorSum_eq, henough.feeCoins.colorSum_eq]
    have hout : ∀ nColor, colorSum r.wtxNew.vout nColor =
        (if nColor = c.toInt32 then sentTotal args.vecSend else 0) +
          (if nColor = c.toInt32 then n else 0) +
          if nColor = (feeColor c).toInt32 then nFeeChange else 0 := by
      intro nColor
      rw [hmade.vout, colorSum_place fun q hq => (hspareFee q hq).2.1,
        colorSum_place fun q hq => (hspare q hq).1, colorSum_outputs, hchange, hfeeChange]
    have hprevs' : (r.wtxNew.vin.map fun txin => env.wallet.prevout txin.prevout) =
        ((p.coins ++ p.feeCoins).map COutput.txout).map some := by
      have hmap := congrArg (List.map env.wallet.prevout) hmade.vin
      rw [List.map_map, List.map_map] at hmap
      exact hmap.trans hprevs
    rw [hmade.fee]
    by_cases hone : c = feeColor c
    · -- the fee is what the change leaves
      obtain ⟨-, hrest⟩ := hexact.same hone
      refine ⟨_, p.nValueIn.toInt - sentTotal args.vecSend - n, hprevs', by omega, fun nColor => ?_⟩
      have hnone : p.nFeeValueIn.toInt = 0 := by
        rw [henough.feeCoins.sum, (henough.same hone).1]
        rfl
      rw [hin, hout, hsame hone, hnone, ← hone]
      split <;> omega
    · -- the fee is what its change leaves, and the change leaves nothing
      obtain ⟨hrest, hrestFee⟩ := hexact.other hone
      have hn := hother hone
      refine ⟨_, p.nFeeValueIn.toInt - nFeeChange, hprevs', by omega, fun nColor => ?_⟩
      rw [hin, hout]
      split <;> split <;> omega

/-! ## 7. Two payments -/

/-- One BRX paid from three, where the change is put behind it. -/
theorem payment_right_brx :
    (paidBrx false).RightPayment threeBrx (paymentOf .brx [100000000]) .brx :=
  payment_right (payingEnv threeBrx (drawsOf (fun _ => 1) false)) 1 (paymentOf .brx [100000000])
    (show _ = Color.brx.toInt32 from rfl) (by decide +kernel) ⟨by decide +kernel, by decide +kernel⟩
    ⟨by decide +kernel, by decide +kernel⟩ (by decide +kernel)

/-- As much BRX as an `int64_t` can count, paid out of no coins at all, with change. -/
def paidNothing : Created :=
  createdOf (paymentOf .brx [Int64.maxValue]) .brx [] 1500000
    (some (changeOf (-Int64.maxValue - 1500000) .brx 1 false)) none

/-- **A payment out of nothing.**  The sum with the fee is negative, and so no coins are needed. -/
theorem paid_out_of_nothing :
    createTransaction (payingEnv noCoins (drawsOf (fun _ => 1) false)) 1
        (paymentOf .brx [Int64.maxValue]) = .ok (some paidNothing) ∧
      ¬ paidNothing.RightPayment noCoins (paymentOf .brx [Int64.maxValue]) .brx := by
  refine ⟨by decide +kernel, fun h => ?_⟩
  obtain ⟨prevs, nFeePaid, hprevs, hfee, hbalance⟩ := h.balanced
  have hnone : prevs = [] := List.map_eq_nil_iff.mp hprevs.symm
  have hbrx := hbalance Color.brx.toInt32
  have hout : colorSum paidNothing.wtxNew.vout Color.brx.toInt32 = 18446744073708051616 := by
    decide +kernel
  have hfee' : (0 : Int) ≤ paidNothing.nFeeRet.toInt := by decide +kernel
  rw [hnone, colorSum_nil, hout, if_pos (by decide)] at hbrx
  omega

end Breakout
