/-
# The balances of a wallet

A wallet keeps five balance maps, from colours to amounts, and changes them as it goes.
`GetSnapshot` computes the same maps from the entries of the wallet alone: what each of them
received and what it sent (`GetAmounts`), counted by its depth and its kind.  What an entry sent is
read off the outputs it spends, so it depends on which other entries the wallet has.

The maps hold sums that wrap.  Beside each loop stands the exact total that it reduces, and
`getSnapshot_spec` says of the five maps which total each one holds.
-/
import Breakout.Amounts
import Breakout.Lib.KeyedList
import Breakout.MerkleTx

namespace Breakout

open Lib

/-! ## 1. Maps added to maps -/

namespace ColorsMap

/-- `ColorsMap::Add` of a map -/
def addMap (m other : ColorsMap) : ColorsMap :=
  other.mapAmounts.foldl (fun m p => m.add p.1 p.2) m

/-- `ColorsMap::Subtract` of a map -/
def subtractMap (m other : ColorsMap) : ColorsMap :=
  other.mapAmounts.foldl (fun m p => m.add p.1 (-p.2)) m

/-- `ColorsMap::operator==` -/
def opEq (m other : ColorsMap) : Bool :=
  m.mapAmounts.all (fun p => decide (p.2 = other.get p.1)) &&
    other.mapAmounts.all fun p => m.mapAmounts.any (fun q => decide (q.1 = p.1)) || decide (p.2 = 0)

/-- Entries added one by one, each as `f` has it. -/
theorem get_foldl_add {f : Int64 → Int64} (hf : f 0 = 0) (n : Int32) :
    ∀ {l : List (Int32 × Int64)} {m : ColorsMap}, AscendingKeys l →
      (l.foldl (fun m p => m.add p.1 (f p.2)) m).get n = m.get n + f (lookupAmount n l)
  | [], m, _ => by simp [lookupAmount, hf]
  | (d, w) :: l, m, h => by
    obtain ⟨hd, hl⟩ := List.pairwise_cons.mp h
    rw [List.foldl_cons, get_foldl_add hf n hl, get_add, lookupAmount]
    by_cases hn : n = d
    · rw [if_pos hn, if_pos hn, hn, lookupAmount_of_lt hd, hf]
      simp
    · rw [if_neg hn, if_neg hn]
      simp

theorem get_addMap (m other : ColorsMap) (n : Int32) :
    (m.addMap other).get n = m.get n + other.get n :=
  get_foldl_add (f := id) rfl n other.ascending

theorem get_subtractMap (m other : ColorsMap) (n : Int32) :
    (m.subtractMap other).get n = m.get n - other.get n := by
  rw [Int64.sub_eq_add_neg]
  exact get_foldl_add (f := fun v => -v) rfl n other.ascending

theorem lookupAmount_eq_of_mem {d : Int32} {w : Int64} :
    ∀ {l : List (Int32 × Int64)}, AscendingKeys l → (d, w) ∈ l → lookupAmount d l = w
  | (e, v) :: l, h, hmem => by
    obtain ⟨he, hl⟩ := List.pairwise_cons.mp h
    rw [lookupAmount]
    rcases List.mem_cons.mp hmem with heq | hmem
    · cases heq
      rw [if_pos rfl]
    · have hne : d ≠ e := (Int32.ne_of_lt (he (d, w) hmem)).symm
      rw [if_neg hne, lookupAmount_eq_of_mem hl hmem]

theorem lookupAmount_of_forall_ne {n : Int32} :
    ∀ {l : List (Int32 × Int64)}, (∀ p ∈ l, p.1 ≠ n) → lookupAmount n l = 0
  | [], _ => rfl
  | (d, w) :: l, h => by
    have hne : n ≠ d := (h (d, w) List.mem_cons_self).symm
    rw [lookupAmount, if_neg hne]
    exact lookupAmount_of_forall_ne fun p hp => h p (List.mem_cons_of_mem _ hp)

/-- **Two maps are equal** when they have the same amount of every colour. -/
theorem opEq_iff {m other : ColorsMap} : m.opEq other = true ↔ ∀ n, m.get n = other.get n := by
  simp only [opEq, Bool.and_eq_true, List.all_eq_true, decide_eq_true_eq, Bool.or_eq_true,
    List.any_eq_true]
  constructor
  · rintro ⟨hleft, hright⟩ n
    by_cases hn : ∃ p ∈ m.mapAmounts, p.1 = n
    · obtain ⟨p, hp, rfl⟩ := hn
      exact (lookupAmount_eq_of_mem m.ascending hp).trans (hleft p hp)
    · simp only [not_exists, not_and] at hn
      have hzero : m.get n = 0 := lookupAmount_of_forall_ne hn
      rw [hzero]
      by_cases ho : ∃ p ∈ other.mapAmounts, p.1 = n
      · obtain ⟨p, hp, rfl⟩ := ho
        rcases hright p hp with ⟨q, hq, heq⟩ | hp0
        · exact absurd heq (hn q hq)
        · exact ((lookupAmount_eq_of_mem other.ascending hp).trans hp0).symm
      · simp only [not_exists, not_and] at ho
        exact (lookupAmount_of_forall_ne ho).symm
  · intro h
    refine ⟨fun p hp => ?_, fun p hp => ?_⟩
    · rw [← h p.1]
      exact (lookupAmount_eq_of_mem m.ascending hp).symm
    · by_cases hm : ∃ q ∈ m.mapAmounts, q.1 = p.1
      · exact Or.inl hm
      · simp only [not_exists, not_and] at hm
        refine Or.inr ?_
        rw [← lookupAmount_eq_of_mem other.ascending hp]
        exact (h p.1).symm.trans (lookupAmount_of_forall_ne hm)

end ColorsMap

/-! ## 2. What an entry received and sent -/

def isMineSpendable : UInt8 := 4
def isMineSignable : UInt8 := isMineSpendable ||| 8

/-- `BalanceMapType`: the balance maps by their names. -/
inductive BalanceMapType where
  | confirmed | stake | coinbase | received | sent
deriving DecidableEq, Repr

/-- `mapConfirmed`, `mapStake`, `mapCoinbase`, `mapReceived` and `mapSent`. -/
abbrev BalanceMaps := BalanceMapType → ColorsMap

namespace BalanceMaps

/-- The five maps, cleared. -/
def clear : BalanceMaps := fun _ => .empty

/-- `map….Add(other)` -/
def add (b : BalanceMaps) (t : BalanceMapType) (other : ColorsMap) : BalanceMaps :=
  Function.update b t ((b t).addMap other)

/-- `map….Subtract(other)` -/
def subtract (b : BalanceMaps) (t : BalanceMapType) (other : ColorsMap) : BalanceMaps :=
  Function.update b t ((b t).subtractMap other)

theorem get_add (b : BalanceMaps) (t u : BalanceMapType) (other : ColorsMap) (n : Int32) :
    (b.add t other u).get n = (b u).get n + if u = t then other.get n else 0 := by
  unfold add
  by_cases h : u = t
  · subst h
    rw [Function.update_self, if_pos rfl, ColorsMap.get_addMap]
  · rw [Function.update_of_ne h, if_neg h]
    simp

theorem get_subtract (b : BalanceMaps) (t u : BalanceMapType) (other : ColorsMap) (n : Int32) :
    (b.subtract t other u).get n = (b u).get n - if u = t then other.get n else 0 := by
  unfold subtract
  by_cases h : u = t
  · subst h
    rw [Function.update_self, if_pos rfl, ColorsMap.get_subtractMap]
  · rw [Function.update_of_ne h, if_neg h]
    simp

end BalanceMaps

/-- What is read and changed of a `CWallet`; `isMine` is `IsMine` of a script, without multisig, by
the wallet's keys. -/
structure CWallet where
  fFileBacked : Bool
  isMine : CScript → UInt8
  mapWallet : KeyedList UInt256 CMerkleTx
  maps : BalanceMaps

namespace CWallet

/-- `CWallet::GetDebit` of an input -/
def getDebit (W : CWallet) (txin : CTxIn) : Int32 × Int64 :=
  match W.mapWallet.find txin.prevout.hash with
  | none => (Color.none.toInt32, 0)
  | some prev =>
    match prev.tx.vout[txin.prevout.n.toNat]? with
    | none => (Color.none.toInt32, 0)
    | some txout =>
      if W.isMine txout.scriptPubKey &&& isMineSignable ≠ 0 then (txout.nColor, txout.nValue)
      else (Color.none.toInt32, 0)

/-- One input of `FillDebits`. -/
def fillDebit (W : CWallet) (mapDebit : ColorsMap) (txin : CTxIn) : Run ColorsMap :=
  let nDebit := (W.getDebit txin).2
  if nDebit ≤ 0 then .ok mapDebit
  else do
    let nColor ← tableIndex (W.getDebit txin).1
    if moneyRange nDebit nColor then .ok (mapDebit.add nColor.toInt32 nDebit)
    else .error (.throw "CWallet::GetDebit() : value out of range")

def fillDebits (W : CWallet) (tx : CTransaction) : Run ColorsMap :=
  tx.vin.foldlM W.fillDebit .empty

/-- One output of `GetAmounts`. -/
def addReceived (W : CWallet) (mapReceived : ColorsMap) (txout : CTxOut) : ColorsMap :=
  if txout.scriptPubKey = [] then mapReceived
  else if isOpReturn txout.scriptPubKey then mapReceived
  else if W.isMine txout.scriptPubKey &&& isMineSpendable ≠ 0 then
    mapReceived.add txout.nColor txout.nValue
  else mapReceived

/-- `CWalletTx::GetAmounts` of an entry: what it received, and what it sent. -/
def getAmounts (W : CWallet) (wtx : CMerkleTx) : Run (ColorsMap × ColorsMap) := do
  let mapSent ← W.fillDebits wtx.tx
  return (wtx.tx.vout.foldl W.addReceived .empty, mapSent)

/-! The exact totals. -/

/-- What an input takes of a colour out of the wallet. -/
def debit (W : CWallet) (n : Int32) (txin : CTxIn) : Int :=
  if 0 < (W.getDebit txin).2 ∧ (W.getDebit txin).1 = n then (W.getDebit txin).2.toInt else 0

/-- What an output brings of a colour into the wallet. -/
def credit (W : CWallet) (n : Int32) (txout : CTxOut) : Int :=
  if txout.scriptPubKey ≠ [] ∧ isOpReturn txout.scriptPubKey = false ∧
      W.isMine txout.scriptPubKey &&& isMineSpendable ≠ 0 ∧ txout.nColor = n then
    txout.nValue.toInt
  else 0

/-- What an entry sent of a colour. -/
def sentTotal (W : CWallet) (wtx : CMerkleTx) (n : Int32) : Int :=
  (wtx.tx.vin.map (W.debit n)).sum

/-- What an entry received of a colour. -/
def rcvdTotal (W : CWallet) (wtx : CMerkleTx) (n : Int32) : Int :=
  (wtx.tx.vout.map (W.credit n)).sum

/-- An input takes nothing out of the wallet, or an amount in the money range of its colour. -/
def DebitInRange (W : CWallet) (txin : CTxIn) : Prop :=
  0 < (W.getDebit txin).2 →
    ∃ c : Color, (W.getDebit txin).1 = c.toInt32 ∧ moneyRange (W.getDebit txin).2 c = true

/-- Every input of an entry does. -/
def DebitsInRange (W : CWallet) (wtx : CMerkleTx) : Prop := ∀ txin ∈ wtx.tx.vin, W.DebitInRange txin

variable {W : CWallet}

theorem fillDebit_eq_ok {m m' : ColorsMap} {txin : CTxIn} :
    W.fillDebit m txin = .ok m' ↔ W.DebitInRange txin ∧
      m' = if 0 < (W.getDebit txin).2 then m.add (W.getDebit txin).1 (W.getDebit txin).2 else m := by
  unfold fillDebit DebitInRange
  by_cases hpos : 0 < (W.getDebit txin).2
  · have hle : ¬ (W.getDebit txin).2 ≤ 0 := Int64.not_le.mpr hpos
    rw [if_neg hle, if_pos hpos]
    constructor
    · intro h
      obtain ⟨c, hc, h⟩ := bind_eq_ok.mp h
      rw [tableIndex_eq_ok] at hc
      split at h
      · next hrange =>
        cases h
        exact ⟨fun _ => ⟨c, hc, hrange⟩, by rw [hc]⟩
      · cases h
    · rintro ⟨hrange, rfl⟩
      obtain ⟨c, hc, hrange⟩ := hrange hpos
      refine bind_eq_ok.mpr ⟨c, tableIndex_eq_ok.mpr hc, ?_⟩
      rw [if_pos hrange, hc]
  · have hle : (W.getDebit txin).2 ≤ 0 := Int64.not_lt.mp hpos
    rw [if_pos hle, if_neg hpos, Except.ok.injEq]
    exact ⟨fun h => ⟨fun hlt => absurd hlt hpos, h.symm⟩, fun h => h.2.symm⟩

/-- `FillDebits` stops at an amount out of range, and otherwise holds the totals. -/
theorem foldlM_fillDebit :
    ∀ {l : List CTxIn} {m m' : ColorsMap}, l.foldlM W.fillDebit m = .ok m' →
      (∀ txin ∈ l, W.DebitInRange txin) ∧
        ∀ n, m'.get n = m.get n + Int64.ofInt (l.map (W.debit n)).sum
  | [], m, m', h => by
    cases h
    simp
  | txin :: l, m, m', h => by
    rw [List.foldlM_cons] at h
    obtain ⟨m₁, h₁, h⟩ := bind_eq_ok.mp h
    obtain ⟨hrange, rfl⟩ := fillDebit_eq_ok.mp h₁
    obtain ⟨hall, hget⟩ := foldlM_fillDebit h
    refine ⟨List.forall_mem_cons.mpr ⟨hrange, hall⟩, fun n => ?_⟩
    have hone : (if 0 < (W.getDebit txin).2 then m.add (W.getDebit txin).1 (W.getDebit txin).2
        else m).get n = m.get n + Int64.ofInt (W.debit n txin) := by
      unfold debit
      by_cases hpos : 0 < (W.getDebit txin).2
      · rw [if_pos hpos, ColorsMap.get_add]
        by_cases hn : n = (W.getDebit txin).1
        · rw [if_pos hn, if_pos ⟨hpos, hn.symm⟩, Int64.ofInt_toInt]
        · rw [if_neg hn, if_neg fun h => hn h.2.symm]
          rfl
      · rw [if_neg hpos, if_neg fun h => hpos h.1]
        simp
    rw [hget, hone, List.map_cons, List.sum_cons, Int64.ofInt_add, Int64.add_assoc]

theorem get_foldl_addReceived (n : Int32) :
    ∀ (l : List CTxOut) (m : ColorsMap),
      (l.foldl W.addReceived m).get n = m.get n + Int64.ofInt (l.map (W.credit n)).sum
  | [], m => by simp
  | txout :: l, m => by
    have hone : (W.addReceived m txout).get n = m.get n + Int64.ofInt (W.credit n txout) := by
      unfold addReceived credit
      by_cases hempty : txout.scriptPubKey = []
      · simp [hempty]
      · by_cases hret : isOpReturn txout.scriptPubKey = true
        · simp [hempty, hret]
        · by_cases hmine : W.isMine txout.scriptPubKey &&& isMineSpendable ≠ 0
          · rw [if_neg hempty, if_neg hret, if_pos hmine, ColorsMap.get_add]
            by_cases hn : n = txout.nColor
            · simp [hempty, hret, hmine, hn]
            · simp [hn, Ne.symm hn]
          · rw [if_neg hempty, if_neg hret, if_neg hmine, if_neg fun h => hmine h.2.2.1]
            simp
    rw [List.foldl_cons, get_foldl_addReceived n l, hone, List.map_cons, List.sum_cons,
      Int64.ofInt_add, Int64.add_assoc]

variable {wtx : CMerkleTx}

/-- **What `GetAmounts` finds**, where it does not stop: the exact totals, reduced. -/
theorem getAmounts_spec {a : ColorsMap × ColorsMap} (h : W.getAmounts wtx = .ok a) :
    W.DebitsInRange wtx ∧ (∀ n, a.1.get n = Int64.ofInt (W.rcvdTotal wtx n)) ∧
      ∀ n, a.2.get n = Int64.ofInt (W.sentTotal wtx n) := by
  obtain ⟨mapSent, hsent, h⟩ := bind_eq_ok.mp h
  cases h
  obtain ⟨hrange, hget⟩ := foldlM_fillDebit hsent
  refine ⟨hrange, fun n => ?_, fun n => ?_⟩
  · rw [get_foldl_addReceived, ColorsMap.get_empty, Int64.zero_add]
    rfl
  · rw [hget, ColorsMap.get_empty, Int64.zero_add]
    rfl

/-- It stops at nothing but an amount out of range. -/
theorem getAmounts_ok (h : W.DebitsInRange wtx) :
    ∃ a, W.getAmounts wtx = .ok a := by
  obtain ⟨mapSent, hsent, -⟩ := foldlM_ok (f := W.fillDebit) (P := fun _ => True) wtx.tx.vin
    (fun m txin hmem _ => ⟨_, fillDebit_eq_ok.mpr ⟨h txin hmem, rfl⟩, trivial⟩)
    (a := ColorsMap.empty) trivial
  exact ⟨_, bind_eq_ok.mpr ⟨mapSent, hsent, rfl⟩⟩

/-! ## 3. The snapshot -/

end CWallet

/-- `DoesMature() && GetBlocksToMaturity() > 0` -/
def CMerkleTx.isImmature (K : Crypto) (fTestNet : Bool) (c : MainChain) (wtx : CMerkleTx) : Bool :=
  wtx.tx.doesMature && decide (0 < wtx.getBlocksToMaturity K fTestNet c)

/-- **A depth asked for again is the same**, whatever flag the first time has set: so the loops
below read it without writing the entry. -/
theorem getDepthInMainChain_asked (K : Crypto) (c : MainChain) (w : CMerkleTx) :
    (w.getDepthInMainChainInternal K c).2.getDepthInMainChain K c = w.getDepthInMainChain K c := by
  have hagain : (w.getDepthInMainChainInternal K c).2.tx = w.tx ∧
      (w.getDepthInMainChainInternal K c).2.getDepthInMainChainInternal K c =
        w.getDepthInMainChainInternal K c := by
    unfold CMerkleTx.getDepthInMainChainInternal
    by_cases hnone : w.hashBlock = 0 ∨ w.nIndex = none
    · simp only [if_pos hnone, and_self]
    · cases hfind : c.find w.hashBlock with
      | none => simp only [if_neg hnone, hfind, and_self]
      | some b =>
        by_cases hbad : w.fMerkleVerified = false ∧
            checkMerkleBranch K (w.tx.getHash K) w.vMerkleBranch w.nIndex ≠ b.2.hashMerkleRoot
        · simp only [if_neg hnone, hfind, if_pos hbad, and_self]
        · simp only [if_neg hnone, hfind, if_neg hbad, true_and]
          exact if_neg fun h => absurd h.1 (by simp)
  unfold CMerkleTx.getDepthInMainChain
  rw [hagain.2, hagain.1]

namespace CWallet

variable (K : Crypto) (fTestNet : Bool) (c : MainChain)

/-- The part of `GetSnapshot` that is about coins yet to mature. -/
def addImmature (b : BalanceMaps) (wtx : CMerkleTx) (mapRcvd : ColorsMap) : Run BalanceMaps :=
  if wtx.isImmature K fTestNet c = false then .ok b
  else if wtx.tx.isCoinStake then .ok (b.add .stake mapRcvd)
  else if wtx.tx.isCoinBase then .ok (b.add .coinbase mapRcvd)
  else .error (.throw "GetSnapshot(): TSNH - matures but not coinstake or coinbase")

/-- One entry of `GetSnapshot`. -/
def addEntry (W : CWallet) (nMinDepth : Int) (b : BalanceMaps) (wtx : CMerkleTx) :
    Run BalanceMaps :=
  let nDepth := wtx.getDepthInMainChain K c
  -- disconnected from the main chain
  if nDepth < 0 then .ok b
  else do
    let (mapRcvd, mapSnt) ← W.getAmounts wtx
    let b := if nMinDepth ≤ nDepth then b.add .confirmed mapRcvd else b
    let b ← addImmature K fTestNet c b wtx mapRcvd
    return if nDepth = 0 then (b.add .received mapRcvd).add .sent mapSnt
      else b.subtract .confirmed mapSnt

def getSnapshot (W : CWallet) (nMinDepth : Int) : Run BalanceMaps :=
  (W.mapWallet.entries.map Prod.snd).foldlM (W.addEntry K fTestNet c nMinDepth) .clear

/-- How often what an entry received is counted into a map. -/
def rcvdCount (nMinDepth : Int) (wtx : CMerkleTx) : BalanceMapType → Int
  | .confirmed =>
    if 0 ≤ wtx.getDepthInMainChain K c ∧ nMinDepth ≤ wtx.getDepthInMainChain K c then 1 else 0
  | .stake =>
    if 0 ≤ wtx.getDepthInMainChain K c ∧ wtx.isImmature K fTestNet c = true ∧
        wtx.tx.isCoinStake = true then 1 else 0
  | .coinbase =>
    if 0 ≤ wtx.getDepthInMainChain K c ∧ wtx.isImmature K fTestNet c = true ∧
        wtx.tx.isCoinStake = false then 1 else 0
  | .received => if wtx.getDepthInMainChain K c = 0 then 1 else 0
  | .sent => 0

/-- How often what an entry sent is counted into a map. -/
def sentCount (wtx : CMerkleTx) : BalanceMapType → Int
  | .confirmed => if 0 < wtx.getDepthInMainChain K c then -1 else 0
  | .sent => if wtx.getDepthInMainChain K c = 0 then 1 else 0
  | _ => 0

/-- What an entry adds to a map. -/
def share (W : CWallet) (nMinDepth : Int) (t : BalanceMapType) (n : Int32) (wtx : CMerkleTx) :
    Int :=
  rcvdCount K fTestNet c nMinDepth wtx t * W.rcvdTotal wtx n +
    sentCount K c wtx t * W.sentTotal wtx n

variable {K fTestNet c} {W : CWallet}

variable {b b' : BalanceMaps} {wtx : CMerkleTx} {nMinDepth : Int}

theorem addImmature_spec {mapRcvd : ColorsMap}
    (h : addImmature K fTestNet c b wtx mapRcvd = .ok b') (t : BalanceMapType) (n : Int32) :
    (b' t).get n = (b t).get n +
      if wtx.isImmature K fTestNet c = true ∧
          t = (if wtx.tx.isCoinStake then .stake else .coinbase) then mapRcvd.get n
      else 0 := by
  unfold addImmature at h
  split_ifs at h with himm hstake hbase
  · cases h
    simp [himm]
  · cases h
    rw [BalanceMaps.get_add]
    simp [himm, hstake]
  · cases h
    rw [BalanceMaps.get_add]
    simp [himm, hstake]

theorem addImmature_ok (K : Crypto) (fTestNet : Bool) (c : MainChain) (b : BalanceMaps)
    (wtx : CMerkleTx) (mapRcvd : ColorsMap) :
    ∃ b', addImmature K fTestNet c b wtx mapRcvd = .ok b' := by
  unfold addImmature
  split_ifs with himm hstake hbase
  · exact ⟨_, rfl⟩
  · exact ⟨_, rfl⟩
  · exact ⟨_, rfl⟩
  · rw [CMerkleTx.isImmature, CTransaction.doesMature] at himm
    simp [hstake, hbase] at himm

/-- What one entry adds to the maps. -/
theorem addEntry_spec (h : W.addEntry K fTestNet c nMinDepth b wtx = .ok b') :
    (0 ≤ wtx.getDepthInMainChain K c → W.DebitsInRange wtx) ∧
      ∀ t n, (b' t).get n = (b t).get n + Int64.ofInt (W.share K fTestNet c nMinDepth t n wtx) := by
  unfold addEntry at h
  dsimp only at h
  by_cases hneg : wtx.getDepthInMainChain K c < 0
  · rw [if_pos hneg, Except.ok.injEq] at h
    subst h
    refine ⟨fun h => absurd h (by omega), fun t n => ?_⟩
    have hzero : W.share K fTestNet c nMinDepth t n wtx = 0 := by
      have h0 : ¬ 0 ≤ wtx.getDepthInMainChain K c := by omega
      have h1 : ¬ 0 < wtx.getDepthInMainChain K c := by omega
      have h2 : wtx.getDepthInMainChain K c ≠ 0 := by omega
      cases t <;> simp [share, rcvdCount, sentCount, h0, h1, h2]
    rw [hzero]
    simp
  · rw [if_neg hneg] at h
    obtain ⟨⟨mapRcvd, mapSnt⟩, ha, h⟩ := bind_eq_ok.mp h
    obtain ⟨hrange, hrcvd, hsent⟩ := getAmounts_spec ha
    obtain ⟨b₁, himm, h⟩ := bind_eq_ok.mp h
    rw [pure_eq_ok] at h
    refine ⟨fun _ => hrange, fun t n => ?_⟩
    have hdepth : 0 ≤ wtx.getDepthInMainChain K c := by omega
    have hpos : 0 < wtx.getDepthInMainChain K c ↔ wtx.getDepthInMainChain K c ≠ 0 := by omega
    have hlast : (b' t).get n = (b₁ t).get n +
        Int64.ofInt (match t with
          | .confirmed => sentCount K c wtx .confirmed * W.sentTotal wtx n
          | .received => rcvdCount K fTestNet c nMinDepth wtx .received * W.rcvdTotal wtx n
          | .sent => sentCount K c wtx .sent * W.sentTotal wtx n
          | _ => 0) := by
      subst h
      by_cases hzero : wtx.getDepthInMainChain K c = 0
      · rw [if_pos hzero, BalanceMaps.get_add, BalanceMaps.get_add, hrcvd, hsent]
        cases t <;> simp [rcvdCount, sentCount, hzero]
      · rw [if_neg hzero, BalanceMaps.get_subtract, hsent, Int64.sub_eq_add_neg]
        cases t <;> simp [rcvdCount, sentCount, hzero, hpos, Int64.ofInt_neg]
    have hfirst : ((if nMinDepth ≤ wtx.getDepthInMainChain K c then b.add .confirmed mapRcvd
        else b) t).get n = (b t).get n +
          if t = .confirmed ∧ nMinDepth ≤ wtx.getDepthInMainChain K c then
            Int64.ofInt (W.rcvdTotal wtx n) else 0 := by
      by_cases hmin : nMinDepth ≤ wtx.getDepthInMainChain K c
      · simp [hmin, BalanceMaps.get_add, hrcvd]
      · simp [hmin]
    rw [hlast, addImmature_spec himm, hfirst, hrcvd]
    cases t with
    | confirmed =>
      by_cases hmin : nMinDepth ≤ wtx.getDepthInMainChain K c <;>
        cases hs : wtx.tx.isCoinStake <;>
        simp [share, rcvdCount, hdepth, hmin, Int64.ofInt_add, Int64.add_assoc]
    | stake =>
      cases hs : wtx.tx.isCoinStake <;> cases hi : wtx.isImmature K fTestNet c <;>
        simp [share, rcvdCount, sentCount, hdepth, hs, hi]
    | coinbase =>
      cases hs : wtx.tx.isCoinStake <;> cases hi : wtx.isImmature K fTestNet c <;>
        simp [share, rcvdCount, sentCount, hdepth, hs, hi]
    | received => cases hs : wtx.tx.isCoinStake <;> simp [share, sentCount]
    | sent => cases hs : wtx.tx.isCoinStake <;> simp [share, rcvdCount]

/-- It stops at nothing but an amount out of range. -/
theorem addEntry_ok (b : BalanceMaps) (h : 0 ≤ wtx.getDepthInMainChain K c → W.DebitsInRange wtx) :
    ∃ b', W.addEntry K fTestNet c nMinDepth b wtx = .ok b' := by
  unfold addEntry
  dsimp only
  by_cases hneg : wtx.getDepthInMainChain K c < 0
  · exact ⟨b, if_pos hneg⟩
  · rw [if_neg hneg]
    obtain ⟨a, ha⟩ := getAmounts_ok (h (by omega))
    obtain ⟨b₁, himm⟩ := addImmature_ok K fTestNet c
      (if nMinDepth ≤ wtx.getDepthInMainChain K c then b.add .confirmed a.1 else b) wtx a.1
    exact ⟨_, bind_eq_ok.mpr ⟨a, ha, bind_eq_ok.mpr ⟨b₁, himm, rfl⟩⟩⟩

/-- The entries that count send amounts in the money range. -/
def EntriesInRange (K : Crypto) (c : MainChain) (W : CWallet) : Prop :=
  ∀ e ∈ W.mapWallet.entries, 0 ≤ e.2.getDepthInMainChain K c → W.DebitsInRange e.2

/-- What the entries of a list add to a map. -/
def shares (K : Crypto) (fTestNet : Bool) (c : MainChain) (W : CWallet) (nMinDepth : Int)
    (t : BalanceMapType) (n : Int32) (l : List (UInt256 × CMerkleTx)) : Int :=
  (l.map fun e => W.share K fTestNet c nMinDepth t n e.2).sum

/-- **What `GetSnapshot` computes**, where it does not stop: for each map the exact total of what
the entries add to it, reduced. -/
theorem getSnapshot_spec (h : W.getSnapshot K fTestNet c nMinDepth = .ok b) :
    W.EntriesInRange K c ∧ ∀ t n,
      (b t).get n = Int64.ofInt (W.shares K fTestNet c nMinDepth t n W.mapWallet.entries) := by
  have hfold : ∀ (l : List (UInt256 × CMerkleTx)) (b₀ : BalanceMaps),
      (l.map Prod.snd).foldlM (W.addEntry K fTestNet c nMinDepth) b₀ = .ok b →
        (∀ e ∈ l, 0 ≤ e.2.getDepthInMainChain K c → W.DebitsInRange e.2) ∧ ∀ t n,
          (b t).get n = (b₀ t).get n + Int64.ofInt (W.shares K fTestNet c nMinDepth t n l) := by
    intro l
    induction l with
    | nil =>
      intro b₀ h
      cases h
      simp [shares]
    | cons e l ih =>
      intro b₀ h
      rw [List.map_cons, List.foldlM_cons] at h
      obtain ⟨b₁, hone, h⟩ := bind_eq_ok.mp h
      obtain ⟨hrange, hget⟩ := addEntry_spec hone
      obtain ⟨hall, hrest⟩ := ih b₁ h
      refine ⟨List.forall_mem_cons.mpr ⟨hrange, hall⟩, fun t n => ?_⟩
      rw [hrest, hget, shares, shares, List.map_cons, List.sum_cons, Int64.ofInt_add,
        Int64.add_assoc]
  obtain ⟨hrange, hget⟩ := hfold W.mapWallet.entries .clear h
  refine ⟨hrange, fun t n => ?_⟩
  rw [hget]
  exact Int64.zero_add _

theorem getSnapshot_ok (nMinDepth : Int) (h : W.EntriesInRange K c) :
    ∃ b, W.getSnapshot K fTestNet c nMinDepth = .ok b := by
  obtain ⟨b, hb, -⟩ := foldlM_ok (f := W.addEntry K fTestNet c nMinDepth) (P := fun _ => True)
    (W.mapWallet.entries.map Prod.snd)
    (fun b wtx hmem _ => by
      obtain ⟨e, he, rfl⟩ := List.mem_map.mp hmem
      obtain ⟨b', hb'⟩ := addEntry_ok b (h e he)
      exact ⟨b', hb', trivial⟩)
    (a := BalanceMaps.clear) trivial
  exact ⟨b, hb⟩

end CWallet

end Breakout
