/-
# Erasing an entry

`EraseFromWallet` takes an entry out of the wallet and what it received and sent out of the balance
maps.  Its cases are not those of `GetSnapshot`: coins yet to mature are taken out of one map, but
counted into more; an entry without a depth is taken out, but not counted; and the entries that
spend an output of the erased one have sent less once it is gone, which no map is told.

So the maps agree with a snapshot afterwards exactly where these come out even
(`eraseFromWallet_reconciled_iff`).
-/
import Breakout.Wallet

namespace Breakout

open Lib

namespace CWallet

/-! ## 1. The step -/

section Step

variable (K : Crypto) (fTestNet : Bool) (c : MainChain)

/-- `CWallet::EraseFromWallet`: how it ends, and the wallet it leaves. -/
def eraseFromWallet (W : CWallet) (hash : UInt256) : Run Bool × CWallet :=
  if W.fFileBacked = false then (.ok false, W)
  else
    match W.mapWallet.find hash with
    | none => (.ok true, W)
    | some wtx =>
      match W.getAmounts wtx with
      | .error e => (.error e, W)
      | .ok (mapRcvd, mapSnt) =>
        let mapWallet := W.mapWallet.erase hash
        if wtx.isImmature K fTestNet c then
          if wtx.tx.isCoinStake then
            (.ok true, { W with mapWallet, maps := W.maps.subtract .stake mapRcvd })
          else if wtx.tx.isCoinBase then
            (.ok true, { W with mapWallet, maps := W.maps.subtract .coinbase mapRcvd })
          else
            (.error (.throw "EraseFromWallet(): TSNH matures but not coinstake or coinbase"),
              { W with mapWallet })
        -- unconfirmed, or of no depth at all
        else if wtx.getDepthInMainChain K c ≤ 0 then
          (.ok true, { W with
            mapWallet, maps := (W.maps.subtract .received mapRcvd).subtract .sent mapSnt })
        else
          (.ok true, { W with
            mapWallet, maps := (W.maps.subtract .confirmed mapRcvd).add .confirmed mapSnt })

/-- The balance maps are what `FillSnapshot` would make them. -/
def Reconciled (W : CWallet) : Prop :=
  ∃ b, W.getSnapshot K fTestNet c 1 = .ok b ∧ ∀ t, (W.maps t).opEq (b t) = true

/-- What an entry takes of a colour out of the outputs of another. -/
def spentFrom (W : CWallet) (hash : UInt256) (n : Int32) (wtx : CMerkleTx) : Int :=
  (wtx.tx.vin.map fun txin => if txin.prevout.hash = hash then W.debit n txin else 0).sum

/-- What the entries at which `P` holds of the depth take out of them. -/
def spentBy (W : CWallet) (hash : UInt256) (P : Int → Bool) (n : Int32) : Int :=
  (((W.mapWallet.erase hash).entries.filter fun e => P (e.2.getDepthInMainChain K c)).map fun e =>
    W.spentFrom hash n e.2).sum

/-- **The case `EraseFromWallet` takes comes out even** for a colour: what the other entries take
out of the outputs of the erased one, and what it received and sent itself. -/
structure ComesOutEven (W : CWallet) (hash : UInt256) (wtx : CMerkleTx) (n : Int32) : Prop where
  confirmed :
    W.spentBy K c hash (fun nDepth => decide (0 < nDepth)) n ≡
      if wtx.isImmature K fTestNet c = true ∧ 0 < wtx.getDepthInMainChain K c then
        W.rcvdTotal wtx n - W.sentTotal wtx n else 0 [ZMOD 2 ^ 64]
  sent :
    W.spentBy K c hash (fun nDepth => decide (nDepth = 0)) n ≡
      if wtx.isImmature K fTestNet c = true ∧ wtx.getDepthInMainChain K c = 0 then
        -W.sentTotal wtx n
      else if wtx.isImmature K fTestNet c = false ∧ wtx.getDepthInMainChain K c < 0 then
        W.sentTotal wtx n else 0 [ZMOD 2 ^ 64]
  received :
    wtx.getDepthInMainChain K c < 0 ∨
        wtx.isImmature K fTestNet c = true ∧ wtx.getDepthInMainChain K c = 0 →
      W.rcvdTotal wtx n ≡ 0 [ZMOD 2 ^ 64]

end Step

variable {K : Crypto} {fTestNet : Bool} {c : MainChain} {W : CWallet} {hash : UInt256}

theorem reconciled_iff : W.Reconciled K fTestNet c ↔ W.EntriesInRange K c ∧ ∀ t n,
    (W.maps t).get n = Int64.ofInt (W.shares K fTestNet c 1 t n W.mapWallet.entries) := by
  constructor
  · rintro ⟨b, hb, hmaps⟩
    obtain ⟨hrange, hget⟩ := getSnapshot_spec hb
    exact ⟨hrange, fun t n => (ColorsMap.opEq_iff.mp (hmaps t) n).trans (hget t n)⟩
  · rintro ⟨hrange, hmaps⟩
    obtain ⟨b, hb⟩ : ∃ b, W.getSnapshot K fTestNet c 1 = .ok b := getSnapshot_ok 1 hrange
    refine ⟨b, hb, fun t => ColorsMap.opEq_iff.mpr fun n => ?_⟩
    exact (hmaps t n).trans ((getSnapshot_spec hb).2 t n).symm

/-! ## 2. The entries that are left -/

/-- The wallet without the entry. -/
def without (W : CWallet) (hash : UInt256) : CWallet :=
  { W with mapWallet := W.mapWallet.erase hash }

variable {txin : CTxIn} {wtx : CMerkleTx}

theorem getDebit_without_self (h : txin.prevout.hash = hash) :
    (W.without hash).getDebit txin = (Color.none.toInt32, 0) := by
  have hnone : (W.without hash).mapWallet.find txin.prevout.hash = none := by
    rw [h]
    exact KeyedList.find_erase_self
  unfold getDebit
  rw [hnone]

theorem getDebit_without_of_ne (h : txin.prevout.hash ≠ hash) :
    (W.without hash).getDebit txin = W.getDebit txin := by
  have hsame : (W.without hash).mapWallet.find txin.prevout.hash =
      W.mapWallet.find txin.prevout.hash := KeyedList.find_erase_of_ne h
  unfold getDebit
  rw [hsame]
  rfl

theorem debit_without (n : Int32) (txin : CTxIn) :
    (W.without hash).debit n txin =
      W.debit n txin - if txin.prevout.hash = hash then W.debit n txin else 0 := by
  by_cases h : txin.prevout.hash = hash
  · have hzero : (W.without hash).debit n txin = 0 := by
      unfold debit
      rw [getDebit_without_self h]
      exact if_neg fun hpos => absurd hpos.1 (by decide)
    rw [hzero, if_pos h, Int.sub_self]
  · rw [if_neg h, Int.sub_zero, debit, debit, getDebit_without_of_ne h]

/-- **An entry has sent less** once the outputs of the erased one are not the wallet's. -/
theorem sentTotal_without (n : Int32) (wtx : CMerkleTx) :
    (W.without hash).sentTotal wtx n = W.sentTotal wtx n - W.spentFrom hash n wtx := by
  unfold sentTotal spentFrom
  induction wtx.tx.vin with
  | nil => rfl
  | cons txin l ih =>
    simp only [List.map_cons, List.sum_cons, debit_without, ih]
    omega

theorem DebitsInRange.without (h : W.DebitsInRange wtx) :
    (W.without hash).DebitsInRange wtx := by
  intro txin hmem hpos
  by_cases hin : txin.prevout.hash = hash
  · rw [getDebit_without_self hin] at hpos
    exact absurd hpos (by decide)
  · rw [getDebit_without_of_ne hin] at hpos ⊢
    exact h txin hmem hpos

theorem share_without (t : BalanceMapType) (n : Int32) (wtx : CMerkleTx) :
    (W.without hash).share K fTestNet c 1 t n wtx =
      W.share K fTestNet c 1 t n wtx - sentCount K c wtx t * W.spentFrom hash n wtx := by
  have hrcvd : (W.without hash).rcvdTotal wtx n = W.rcvdTotal wtx n := rfl
  rw [share, share, sentTotal_without, hrcvd, Int.mul_sub]
  omega

/-- What the entries that are left no longer count as sent. -/
def uncounted (K : Crypto) (c : MainChain) (W : CWallet) (hash : UInt256) (n : Int32) :
    BalanceMapType → Int
  | .confirmed => -W.spentBy K c hash (fun nDepth => decide (0 < nDepth)) n
  | .sent => W.spentBy K c hash (fun nDepth => decide (nDepth = 0)) n
  | _ => 0

theorem shares_without (t : BalanceMapType) (n : Int32) :
    (W.without hash).shares K fTestNet c 1 t n (W.mapWallet.erase hash).entries =
      W.shares K fTestNet c 1 t n (W.mapWallet.erase hash).entries - W.uncounted K c hash n t := by
  have hsum : ∀ l : List (UInt256 × CMerkleTx),
      (W.without hash).shares K fTestNet c 1 t n l = W.shares K fTestNet c 1 t n l -
        (l.map fun e => sentCount K c e.2 t * W.spentFrom hash n e.2).sum := by
    intro l
    simp only [shares, share_without]
    induction l with
    | nil => rfl
    | cons e l ih =>
      simp only [List.map_cons, List.sum_cons, ih]
      omega
  rw [hsum]
  congr 1
  unfold uncounted spentBy
  induction (W.mapWallet.erase hash).entries with
  | nil => cases t <;> rfl
  | cons e l ih =>
    rw [List.map_cons, List.sum_cons, ih]
    cases t with
    | confirmed =>
      by_cases hpos : 0 < e.2.getDepthInMainChain K c
      · simp [sentCount, hpos]
        omega
      · simp [sentCount, hpos]
    | sent =>
      by_cases hzero : e.2.getDepthInMainChain K c = 0
      · simp [sentCount, hzero]
      · simp [sentCount, hzero]
    | stake => simp [sentCount]
    | coinbase => simp [sentCount]
    | received => simp [sentCount]

/-- The erased entry's share, and the rest. -/
theorem shares_split (h : W.mapWallet.find hash = some wtx) (t : BalanceMapType) (n : Int32) :
    W.shares K fTestNet c 1 t n W.mapWallet.entries = W.share K fTestNet c 1 t n wtx +
      W.shares K fTestNet c 1 t n (W.mapWallet.erase hash).entries := by
  unfold shares
  rw [((KeyedList.entries_perm h).map _).sum_eq, List.map_cons, List.sum_cons]

/-! ## 3. What the step takes out -/

/-- How often `EraseFromWallet` takes what the entry received out of a map. -/
def rcvdErased (K : Crypto) (fTestNet : Bool) (c : MainChain) (wtx : CMerkleTx) :
    BalanceMapType → Int
  | .confirmed =>
    if wtx.isImmature K fTestNet c = false ∧ 0 < wtx.getDepthInMainChain K c then 1 else 0
  | .stake => if wtx.isImmature K fTestNet c = true ∧ wtx.tx.isCoinStake = true then 1 else 0
  | .coinbase => if wtx.isImmature K fTestNet c = true ∧ wtx.tx.isCoinStake = false then 1 else 0
  | .received =>
    if wtx.isImmature K fTestNet c = false ∧ wtx.getDepthInMainChain K c ≤ 0 then 1 else 0
  | .sent => 0

/-- How often it takes what the entry sent out of a map. -/
def sentErased (K : Crypto) (fTestNet : Bool) (c : MainChain) (wtx : CMerkleTx) :
    BalanceMapType → Int
  | .confirmed =>
    if wtx.isImmature K fTestNet c = false ∧ 0 < wtx.getDepthInMainChain K c then -1 else 0
  | .sent =>
    if wtx.isImmature K fTestNet c = false ∧ wtx.getDepthInMainChain K c ≤ 0 then 1 else 0
  | _ => 0

/-- **What `EraseFromWallet` does** to an entry whose amounts it can find. -/
theorem eraseFromWallet_spec (hbacked : W.fFileBacked = true)
    (hfind : W.mapWallet.find hash = some wtx) (hrange : W.DebitsInRange wtx) :
    ∃ maps, W.eraseFromWallet K fTestNet c hash = (.ok true, { W.without hash with maps }) ∧
      ∀ t n, (maps t).get n = (W.maps t).get n -
        Int64.ofInt (rcvdErased K fTestNet c wtx t * W.rcvdTotal wtx n +
          sentErased K fTestNet c wtx t * W.sentTotal wtx n) := by
  obtain ⟨⟨mapRcvd, mapSnt⟩, ha⟩ := getAmounts_ok hrange
  obtain ⟨-, hrcvd, hsent⟩ := getAmounts_spec ha
  dsimp only at hrcvd hsent
  have hfalse : W.fFileBacked ≠ false := by simp [hbacked]
  unfold eraseFromWallet
  rw [if_neg hfalse, hfind]
  dsimp only
  rw [ha]
  dsimp only
  by_cases himm : wtx.isImmature K fTestNet c = true
  · rw [if_pos himm]
    have hdoes : wtx.tx.isCoinStake = false → wtx.tx.isCoinBase = true := by
      intro hs
      have hmature := himm
      rw [CMerkleTx.isImmature, Bool.and_eq_true, CTransaction.doesMature, hs, Bool.or_false]
        at hmature
      exact hmature.1
    by_cases hstake : wtx.tx.isCoinStake = true
    · rw [if_pos hstake]
      refine ⟨_, rfl, fun t n => ?_⟩
      rw [BalanceMaps.get_subtract, hrcvd]
      cases t <;> simp [rcvdErased, sentErased, himm, hstake]
    · rw [if_neg hstake, if_pos (hdoes (Bool.not_eq_true _ ▸ hstake))]
      refine ⟨_, rfl, fun t n => ?_⟩
      rw [BalanceMaps.get_subtract, hrcvd]
      cases t <;> simp [rcvdErased, sentErased, himm, hstake]
  · rw [if_neg himm]
    by_cases hdepth : wtx.getDepthInMainChain K c ≤ 0
    · rw [if_pos hdepth]
      refine ⟨_, rfl, fun t n => ?_⟩
      have hpos : ¬ 0 < wtx.getDepthInMainChain K c := by omega
      rw [BalanceMaps.get_subtract, BalanceMaps.get_subtract, hrcvd, hsent]
      cases t <;> simp [rcvdErased, sentErased, himm, hdepth, hpos]
    · rw [if_neg hdepth]
      refine ⟨_, rfl, fun t n => ?_⟩
      have hpos : 0 < wtx.getDepthInMainChain K c := by omega
      rw [BalanceMaps.get_add, BalanceMaps.get_subtract, hrcvd, hsent]
      cases t <;> simp [rcvdErased, sentErased, himm, hdepth, hpos, Int64.ofInt_add,
        Int64.ofInt_neg, Int64.sub_eq_add_neg, Int64.neg_add, Int64.add_assoc]

/-! ## 4. When the maps still agree -/

/-- What a map has too much. -/
def leftover (K : Crypto) (fTestNet : Bool) (c : MainChain) (W : CWallet) (hash : UInt256)
    (wtx : CMerkleTx) (n : Int32) (t : BalanceMapType) : Int :=
  (rcvdCount K fTestNet c 1 wtx t - rcvdErased K fTestNet c wtx t) * W.rcvdTotal wtx n +
    (sentCount K c wtx t - sentErased K fTestNet c wtx t) * W.sentTotal wtx n +
    W.uncounted K c hash n t

theorem reconciled_without_iff (h : W.Reconciled K fTestNet c)
    (hfind : W.mapWallet.find hash = some wtx) {maps : BalanceMaps}
    (hmaps : ∀ t n, (maps t).get n = (W.maps t).get n -
      Int64.ofInt (rcvdErased K fTestNet c wtx t * W.rcvdTotal wtx n +
        sentErased K fTestNet c wtx t * W.sentTotal wtx n)) :
    ({ W.without hash with maps } : CWallet).Reconciled K fTestNet c ↔
      ∀ n t, W.leftover K fTestNet c hash wtx n t ≡ 0 [ZMOD 2 ^ 64] := by
  obtain ⟨hrange, hcached⟩ := reconciled_iff.mp h
  have hrange' : ({ W.without hash with maps } : CWallet).EntriesInRange K c := by
    intro e hmem hdepth
    exact DebitsInRange.without (hrange e (KeyedList.mem_erase.mp hmem).1 hdepth)
  have heach : ∀ n t, ((maps t).get n = Int64.ofInt
      (({ W.without hash with maps } : CWallet).shares K fTestNet c 1 t n
        (W.mapWallet.erase hash).entries)) ↔
      W.leftover K fTestNet c hash wtx n t ≡ 0 [ZMOD 2 ^ 64] := by
    intro n t
    have hsame : ({ W.without hash with maps } : CWallet).shares K fTestNet c 1 t n
        (W.mapWallet.erase hash).entries = (W.without hash).shares K fTestNet c 1 t n
          (W.mapWallet.erase hash).entries := rfl
    rw [hmaps, hcached, shares_split hfind, hsame, shares_without, ← Int64.ofInt_sub,
      ofInt_eq_ofInt_iff, Int.modEq_iff_dvd, Int.modEq_zero_iff_dvd, ← dvd_neg]
    have hleft : W.leftover K fTestNet c hash wtx n t =
        W.share K fTestNet c 1 t n wtx - (rcvdErased K fTestNet c wtx t * W.rcvdTotal wtx n +
          sentErased K fTestNet c wtx t * W.sentTotal wtx n) + W.uncounted K c hash n t := by
      unfold leftover share
      ring
    rw [hleft]
    ring_nf
  rw [reconciled_iff]
  constructor
  · rintro ⟨-, hafter⟩ n t
    exact (heach n t).mp (hafter t n)
  · intro hafter
    exact ⟨hrange', fun t n => (heach n t).mpr (hafter n t)⟩

theorem leftover_confirmed (wtx : CMerkleTx) (n : Int32) :
    W.leftover K fTestNet c hash wtx n .confirmed =
      (if wtx.isImmature K fTestNet c = true ∧ 0 < wtx.getDepthInMainChain K c then
        W.rcvdTotal wtx n - W.sentTotal wtx n else 0) -
          W.spentBy K c hash (fun nDepth => decide (0 < nDepth)) n := by
  have hmin : (0 ≤ wtx.getDepthInMainChain K c ∧ 1 ≤ wtx.getDepthInMainChain K c) ↔
      0 < wtx.getDepthInMainChain K c := by omega
  simp only [leftover, rcvdCount, rcvdErased, sentCount, sentErased, uncounted, hmin]
  cases wtx.isImmature K fTestNet c <;> by_cases hpos : 0 < wtx.getDepthInMainChain K c <;>
    simp [hpos]
  omega

theorem leftover_sent (wtx : CMerkleTx) (n : Int32) :
    W.leftover K fTestNet c hash wtx n .sent =
      W.spentBy K c hash (fun nDepth => decide (nDepth = 0)) n -
        if wtx.isImmature K fTestNet c = true ∧ wtx.getDepthInMainChain K c = 0 then
          -W.sentTotal wtx n
        else if wtx.isImmature K fTestNet c = false ∧ wtx.getDepthInMainChain K c < 0 then
          W.sentTotal wtx n else 0 := by
  simp only [leftover, rcvdCount, rcvdErased, sentCount, sentErased, uncounted]
  cases wtx.isImmature K fTestNet c with
  | true => by_cases hzero : wtx.getDepthInMainChain K c = 0 <;> simp [hzero, Int.add_comm]
  | false =>
    rcases lt_trichotomy (wtx.getDepthInMainChain K c) 0 with hneg | hzero | hpos
    · simp [hneg, hneg.le, hneg.ne, Int.add_comm, Int.sub_eq_add_neg]
    · simp [hzero]
    · simp [hpos.ne', not_le.mpr hpos, hpos.not_gt]

theorem leftover_received (wtx : CMerkleTx) (n : Int32) :
    W.leftover K fTestNet c hash wtx n .received =
      if wtx.isImmature K fTestNet c = true then
        if wtx.getDepthInMainChain K c = 0 then W.rcvdTotal wtx n else 0
      else if wtx.getDepthInMainChain K c < 0 then -W.rcvdTotal wtx n else 0 := by
  simp only [leftover, rcvdCount, rcvdErased, sentCount, sentErased, uncounted]
  cases wtx.isImmature K fTestNet c with
  | true => by_cases hzero : wtx.getDepthInMainChain K c = 0 <;> simp [hzero]
  | false =>
    rcases lt_trichotomy (wtx.getDepthInMainChain K c) 0 with hneg | hzero | hpos
    · simp [hneg, hneg.le, hneg.ne]
    · simp [hzero]
    · simp [hpos.ne', not_le.mpr hpos, hpos.not_gt]

/-- The map of the coins yet to mature that the entry is counted into. -/
theorem leftover_immature (wtx : CMerkleTx) (n : Int32) :
    W.leftover K fTestNet c hash wtx n (if wtx.tx.isCoinStake then .stake else .coinbase) =
      if wtx.isImmature K fTestNet c = true ∧ wtx.getDepthInMainChain K c < 0 then
        -W.rcvdTotal wtx n else 0 := by
  cases hs : wtx.tx.isCoinStake <;> cases hi : wtx.isImmature K fTestNet c <;>
    by_cases hneg : wtx.getDepthInMainChain K c < 0 <;>
    simp [leftover, rcvdCount, rcvdErased, sentCount, sentErased, uncounted, hs, hi, hneg,
      Int.not_le.mpr, Int.not_lt.mp]

theorem leftover_mature (wtx : CMerkleTx) (n : Int32) :
    W.leftover K fTestNet c hash wtx n (if wtx.tx.isCoinStake then .coinbase else .stake) = 0 := by
  cases hs : wtx.tx.isCoinStake <;>
    simp [leftover, rcvdCount, rcvdErased, sentCount, sentErased, uncounted, hs]

theorem comesOutEven_iff {n : Int32} :
    W.ComesOutEven K fTestNet c hash wtx n ↔
      ∀ t, W.leftover K fTestNet c hash wtx n t ≡ 0 [ZMOD 2 ^ 64] := by
  have hneg : -W.rcvdTotal wtx n ≡ 0 [ZMOD 2 ^ 64] ↔ W.rcvdTotal wtx n ≡ 0 [ZMOD 2 ^ 64] := by
    rw [Int.modEq_zero_iff_dvd, Int.modEq_zero_iff_dvd, dvd_neg]
  constructor
  · intro h t
    have hcase : t = (if wtx.tx.isCoinStake then .stake else .coinbase) ∨
        t = (if wtx.tx.isCoinStake then .coinbase else .stake) ∨
        t = .confirmed ∨ t = .sent ∨ t = .received := by
      cases t <;> cases wtx.tx.isCoinStake <;> simp
    rcases hcase with rfl | rfl | rfl | rfl | rfl
    · rw [leftover_immature]
      split_ifs with hif
      · exact hneg.mpr (h.received (Or.inl hif.2))
      · rfl
    · rw [leftover_mature]
    · rw [leftover_confirmed, Int.modEq_zero_iff_dvd]
      exact h.confirmed.dvd
    · rw [leftover_sent, Int.modEq_zero_iff_dvd]
      exact h.sent.symm.dvd
    · rw [leftover_received]
      split_ifs with himm hzero hlt
      · exact h.received (Or.inr ⟨himm, hzero⟩)
      · rfl
      · exact hneg.mpr (h.received (Or.inl hlt))
      · rfl
  · intro h
    have hconfirmed := h .confirmed
    have hsent := h .sent
    have hreceived := h .received
    have himmature := h (if wtx.tx.isCoinStake then .stake else .coinbase)
    rw [leftover_confirmed, Int.modEq_zero_iff_dvd] at hconfirmed
    rw [leftover_sent, Int.modEq_zero_iff_dvd] at hsent
    rw [leftover_received] at hreceived
    rw [leftover_immature] at himmature
    refine ⟨Int.modEq_iff_dvd.mpr hconfirmed, (Int.modEq_iff_dvd.mpr hsent).symm, ?_⟩
    rintro (hlt | ⟨himm, hzero⟩)
    · cases himm : wtx.isImmature K fTestNet c with
      | true =>
        rw [if_pos ⟨himm, hlt⟩] at himmature
        exact hneg.mp himmature
      | false =>
        rw [if_neg (by simp [himm]), if_pos hlt] at hreceived
        exact hneg.mp hreceived
    · rw [if_pos himm, if_pos hzero] at hreceived
      exact hreceived

/-- **When `EraseFromWallet` leaves the maps as a snapshot has them.** -/
theorem eraseFromWallet_reconciled_iff (h : W.Reconciled K fTestNet c) (hash : UInt256) :
    (W.eraseFromWallet K fTestNet c hash).2.Reconciled K fTestNet c ↔
      (W.fFileBacked = true → ∀ wtx, W.mapWallet.find hash = some wtx → W.DebitsInRange wtx →
        ∀ n, W.ComesOutEven K fTestNet c hash wtx n) := by
  by_cases hbacked : W.fFileBacked = false
  · have hsame : (W.eraseFromWallet K fTestNet c hash).2 = W := by
      unfold eraseFromWallet
      rw [if_pos hbacked]
    rw [hsame]
    exact ⟨fun _ htrue => absurd (hbacked.symm.trans htrue) (by decide), fun _ => h⟩
  · cases hfind : W.mapWallet.find hash with
    | none =>
      have hsame : (W.eraseFromWallet K fTestNet c hash).2 = W := by
        unfold eraseFromWallet
        rw [if_neg hbacked, hfind]
      rw [hsame]
      exact ⟨fun _ _ _ hnone => absurd hnone (by simp), fun _ => h⟩
    | some wtx =>
      rw [Bool.not_eq_false] at hbacked
      by_cases hrange : W.DebitsInRange wtx
      · obtain ⟨maps, herase, hmaps⟩ :=
          eraseFromWallet_spec (K := K) (c := c) hbacked hfind hrange
        rw [herase, reconciled_without_iff h hfind hmaps]
        constructor
        · intro hall _ wtx' hwtx _ n
          rw [← Option.some_inj.mp hwtx]
          exact comesOutEven_iff.mpr (hall n)
        · intro heven n
          exact comesOutEven_iff.mp (heven hbacked wtx rfl hrange n)
      · have hsame : (W.eraseFromWallet K fTestNet c hash).2 = W := by
          have hstop : ∃ e, W.getAmounts wtx = .error e := by
            cases ha : W.getAmounts wtx with
            | error e => exact ⟨e, rfl⟩
            | ok a => exact absurd (getAmounts_spec ha).1 hrange
          obtain ⟨e, he⟩ := hstop
          unfold eraseFromWallet
          rw [if_neg (by simp [hbacked]), hfind]
          dsimp only
          rw [he]
        rw [hsame]
        refine ⟨fun _ _ wtx' hwtx hrange' => absurd ?_ hrange, fun _ => h⟩
        rw [Option.some_inj.mp hwtx]
        exact hrange'

/-! A wallet that was paid. -/

/-- A payment of five BRX. -/
def payment : CTransaction :=
  ⟨1, 0, [⟨⟨1, 0⟩, [], 0⟩], [⟨5, 1, [0x51]⟩], 0, [], 0⟩

/-- The payment is in no block; it is in the memory pool, or it is not. -/
def unconfirmedChain (fPool : Bool) : MainChain where
  mapBlockIndex _ := none
  pindexBest := genesisIndex ⟨1, 0, firstFile_notNull⟩
  blocks := []
  pool _ := fPool

def paidWallet (maps : BalanceMaps) : CWallet where
  fFileBacked := true
  isMine _ := isMineSpendable
  mapWallet := ⟨[(payment.getHash (Crypto.sample []), .ofTx payment)], by simp⟩
  maps := maps

/-- In the pool it counts as received, and is taken out of there. -/
theorem eraseFromWallet_reconciled_iff_pool :
    ((paidWallet (BalanceMaps.clear.add .received (ColorsMap.empty.add 1 5))).eraseFromWallet
      (Crypto.sample []) false (unconfirmedChain true)
        (payment.getHash (Crypto.sample []))).2.Reconciled
      (Crypto.sample []) false (unconfirmedChain true) := by
  refine (eraseFromWallet_reconciled_iff ⟨_, rfl, fun t => by cases t <;> rfl⟩ _).mpr ?_
  rintro - wtx hwtx - n
  obtain rfl : CMerkleTx.ofTx payment = wtx := Option.some_inj.mp hwtx
  refine ⟨?_, ?_, ?_⟩
  · rw [if_neg (by decide)]
    rfl
  · rw [if_neg (by decide), if_neg (by decide)]
    rfl
  · exact fun h => absurd h (by decide)

/-- Out of the pool it does not count, and is taken out all the same. -/
theorem not_reconciled_of_dropped :
    ¬ ∀ (K : Crypto) (fTestNet : Bool) (c : MainChain) (W : CWallet) (hash : UInt256),
      W.Reconciled K fTestNet c →
        (W.eraseFromWallet K fTestNet c hash).2.Reconciled K fTestNet c := by
  intro h
  have hbefore : (paidWallet .clear).Reconciled (Crypto.sample []) false
      (unconfirmedChain false) := ⟨.clear, rfl, fun t => by cases t <;> rfl⟩
  obtain ⟨b, hb, hmaps⟩ := h _ _ _ _ (payment.getHash (Crypto.sample [])) hbefore
  -- no entry is left, and a snapshot of none is empty
  obtain rfl : BalanceMaps.clear = b := Except.ok.inj hb
  exact absurd (hmaps .received) (by decide)

end CWallet

end Breakout
