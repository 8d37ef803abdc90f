/-
# A plan of blocks

The blocks are a function of the height (`blockAt`):

* heights 1 to 57 mint the premines in full, one card of each kind among them;
* heights 58 to 299 claim nothing, while the premined coins mature;
* heights 300 to 307 stake eight cards.  Between the third and the fourth fork each stake mints
  some `10^18` units of SIS, of which the coinbase takes nothing;
* from then on each coinbase takes as much of it as `MAX_MONEY` lets one transaction pay, except
  that height 600 stakes a ninth card.

This module defines them, shows that they pass `CheckBlock` and that their transactions do not
collide, and adds up what they mint and pay.  That they form a chain is shown in `Overrun`.
-/
import Breakout.Acceptance

namespace Breakout

open Lib

/-! ## 1. Ids under the sample hash -/

variable {a b tx : CTransaction} {h : Nat} {card c : Color} {f : Nat → Int}

/-- The sample hash keeps the version and the time of a transaction. -/
theorem sample_getHash {signed : List (List UInt8 × UInt256 × List UInt8)}
    (h : a.getHash (Crypto.sample signed) = b.getHash (Crypto.sample signed)) :
    a.hashed.nVersion = b.hashed.nVersion ∧ a.nTime = b.nTime := by
  have hsplit : ∀ tx : CTransaction, ∃ rest,
      ((tx.getHash (Crypto.sample signed)).toNat =
        tx.hashed.nVersion.toBitVec.toNat + 2 ^ 32 * (tx.nTime.toNat + 2 ^ 32 * rest)) := by
    intro tx
    obtain ⟨r, hr⟩ : ∃ r, tx.hashed.serialize =
        serInt32 tx.hashed.nVersion ++ (serUInt32 tx.hashed.nTime ++ r) := ⟨_, rfl⟩
    refine ⟨leNat (r.take 24), ?_⟩
    have htake : tx.hashed.serialize.take 32 =
        leBytes 4 tx.hashed.nVersion.toBitVec.toNat ++
          (leBytes 4 tx.nTime.toNat ++ r.take 24) := by
      rw [hr, serInt32, serUInt32, CTransaction.hashed_nTime, List.take_append, List.take_append,
        List.take_of_length_le (by simp), List.take_of_length_le (by simp)]
      simp
    have hlt := leNat_lt (tx.hashed.serialize.take 32)
    have hlen : (tx.hashed.serialize.take 32).length ≤ 32 := by simp
    have hpow : 256 ^ (tx.hashed.serialize.take 32).length ≤ 256 ^ 32 :=
      Nat.pow_le_pow_right (by norm_num) hlen
    rw [CTransaction.getHash, Crypto.sample, BitVec.toNat_ofNat, Nat.mod_eq_of_lt (by omega), htake,
      leNat_append, leNat_append, leNat_leBytes tx.hashed.nVersion.toBitVec.isLt,
      leNat_leBytes tx.nTime.toNat_lt]
    simp
  obtain ⟨ra, ha⟩ := hsplit a
  obtain ⟨rb, hb⟩ := hsplit b
  rw [h, hb] at ha
  have h1 := a.hashed.nVersion.toBitVec.isLt
  have h2 := b.hashed.nVersion.toBitVec.isLt
  have h3 := a.nTime.toNat_lt
  have h4 := b.nTime.toNat_lt
  exact ⟨Int32.toBitVec_inj.mp (BitVec.eq_of_toNat_eq (by omega)), UInt32.toNat_inj.mp (by omega)⟩

/-! ## 2. The plan -/

/-- The functions the plan is evaluated with; nothing in it is signed. -/
def planCrypto : Crypto := Crypto.sample []

/-- Where the plan ends. -/
def lastHeight : Nat := 4701

/-- The time of a height: all lie between the third and the fourth fork. -/
def timeAt (h : Nat) : UInt32 := UInt32.ofNat (1502434816 + 32 * h)

/-- The card a height stakes. -/
def cardAt (h : Nat) : Option Color :=
  if 300 ≤ h ∧ h ≤ 307 then some (Fin.ofNat nColors (h - 296))
  else if h = 600 then some 12
  else none

/-- The colour a height mints. -/
def colorAt (h : Nat) : Color := if hlt : h < nColors then ⟨h, hlt⟩ else .sis

/-- What the coinbase of a height takes. -/
def payAt (h : Nat) : Int64 :=
  if h < nColors then powSubsidy (colorAt h)
  else if h < 300 ∨ (cardAt h).isSome then 0
  else maxMoney .sis

/-- The coinbase of a height. -/
def coinbaseAt (h : Nat) : CTransaction :=
  ⟨1, timeAt h, [⟨⟨0, 0xffffffff⟩, [1, 1], 0⟩], [⟨payAt h, (colorAt h).toInt32, []⟩], 0, [], 0⟩

/-- The coinstake of a height that stakes a card: it spends the card's premine. -/
def coinstakeAt (h : Nat) (card : Color) : CTransaction :=
  ⟨2, timeAt h, [⟨⟨(coinbaseAt card.val).getHash planCrypto, 0⟩, [1, 1], 0⟩],
    [⟨0, card.toInt32, []⟩, ⟨1, card.toInt32, []⟩], 0, [], 0⟩

/-- The transactions of a height. -/
def vtxAt (h : Nat) : List CTransaction :=
  coinbaseAt h :: ((cardAt h).map (coinstakeAt h)).toList

/-- The block of a height. -/
def blockAt (h : Nat) : CBlock :=
  let block : CBlock :=
    ⟨6, 0, 0, timeAt h, 0x1d3fffff, 0, 0, 0, 0, vtxAt h, []⟩
  { block with hashMerkleRoot := block.buildMerkleTree planCrypto }

/-- Where the genesis block lies. -/
def planGenesis : DiskBlockPos := ⟨1, 0, firstFile_notNull⟩

/-- Where the block of a height lies. -/
def planPos (h : Nat) : DiskBlockPos := ⟨1, UInt32.ofNat h, firstFile_notNull⟩

/-- A node of the main network that holds the plan's coinbases. -/
def planEnv : NodeEnv where
  clock := ⟨false, 1503000000⟩
  disk pos := if pos.nBlockPos.toNat ≤ lastHeight then some (coinbaseAt pos.nBlockPos.toNat) else none
  mempool _ := none
  fExplore := true

/-- The transactions of the plan. -/
def planTxs : Set CTransaction := {tx | ∃ h ≤ lastHeight, tx ∈ vtxAt h}

theorem mem_vtxAt :
    tx ∈ vtxAt h ↔ tx = coinbaseAt h ∨ ∃ card, cardAt h = some card ∧ tx = coinstakeAt h card := by
  simp [vtxAt, eq_comm]

theorem nTime_of_mem_vtxAt (htx : tx ∈ vtxAt h) :
    tx.nTime = timeAt h := by
  rcases mem_vtxAt.mp htx with rfl | ⟨card, -, rfl⟩ <;> rfl

theorem toNat_timeAt (hh : h ≤ lastHeight) : (timeAt h).toNat = 1502434816 + 32 * h := by
  unfold lastHeight at hh
  rw [timeAt, UInt32.toNat_ofNat', Nat.mod_eq_of_lt (by omega)]

theorem getFork_timeAt (hh : h ≤ lastHeight) :
    getFork (timeAt h).toNat = .fork003 := by
  rw [toNat_timeAt hh]
  unfold lastHeight at hh
  simp only [getFork, aForks, forkLoop]
  rw [if_neg (by omega), if_neg (by omega), if_neg (by omega), if_pos (by omega)]

/-- Transactions of the plan with one id are of one height. -/
theorem height_of_getHash {i j : Nat} (hi : i ≤ lastHeight) (hj : j ≤ lastHeight)
    (ha : a ∈ vtxAt i) (hb : b ∈ vtxAt j) (h : a.getHash planCrypto = b.getHash planCrypto) :
    i = j := by
  have ht := (sample_getHash h).2
  rw [nTime_of_mem_vtxAt ha, nTime_of_mem_vtxAt hb] at ht
  have := congrArg UInt32.toNat ht
  rw [toNat_timeAt hi, toNat_timeAt hj] at this
  omega

theorem hashed_nVersion (tx : CTransaction) : tx.hashed.nVersion = tx.nVersion := by
  unfold CTransaction.hashed
  split <;> rfl

/-- **The plan has no two transactions with one id.** -/
theorem planTxs_collisionFree : CollisionFree planCrypto planTxs := by
  constructor
  · rintro tx ⟨h, -, htx⟩
    rcases mem_vtxAt.mp htx with rfl | ⟨card, -, rfl⟩
    · exact show (coinbaseAt h).serialize.length < 2 ^ 64 by
        rw [show (coinbaseAt h).serialize.length = 75 from rfl]
        norm_num
    · exact show (coinstakeAt h card).serialize.length < 2 ^ 64 by
        rw [show (coinstakeAt h card).serialize.length = 88 from rfl]
        norm_num
  · rintro a ⟨i, hi, ha⟩ b ⟨j, hj, hb⟩ hid
    obtain rfl := height_of_getHash hi hj ha hb hid
    have hv := (sample_getHash hid).1
    rw [hashed_nVersion, hashed_nVersion] at hv
    rcases mem_vtxAt.mp ha with rfl | ⟨card, hc, rfl⟩
    · rcases mem_vtxAt.mp hb with rfl | ⟨card', -, rfl⟩
      · rfl
      · exact absurd hv (show (1 : Int32) ≠ 2 by decide)
    · rcases mem_vtxAt.mp hb with rfl | ⟨card', hc', rfl⟩
      · exact absurd hv (show (2 : Int32) ≠ 1 by decide)
      · rw [hc] at hc'
        cases hc'
        rfl

theorem planEnv_holds (h : planEnv.Holds tx) : tx ∈ planTxs := by
  rcases h with ⟨pos, h⟩ | ⟨hash, h⟩
  · simp only [planEnv] at h
    split at h
    · next hle =>
      cases h
      exact ⟨_, hle, mem_vtxAt.mpr (Or.inl rfl)⟩
    · cases h
  · cases h

/-! ## 3. The blocks pass `CheckBlock` -/

theorem payAt_range (h : Nat) :
    0 ≤ (payAt h).toInt ∧ (payAt h).toInt ≤ (maxMoney (colorAt h)).toInt := by
  have hpre : ∀ c : Color, 0 ≤ (powSubsidy c).toInt ∧
      (powSubsidy c).toInt ≤ (maxMoney c).toInt := by decide
  by_cases hlt : h < nColors
  · rw [payAt, if_pos hlt]
    exact hpre _
  · rw [payAt, if_neg hlt, colorAt, dif_neg hlt]
    split_ifs <;> decide

theorem checkTransaction_coinbaseAt (hh : h ≤ lastHeight) :
    checkTransaction false 1503000000 (coinbaseAt h) = .ok () := by
  have htime := toNat_timeAt hh
  obtain ⟨h0, hmax⟩ := payAt_range h
  unfold lastHeight at hh
  simp only [checkTransaction, bind_eq_ok, refuse_eq_ok]
  refine ⟨(), List.cons_ne_nil _ _, (), List.cons_ne_nil _ _, (), ?_, (), ?_, (), rfl, (), ?_, (),
    by simp [coinbaseAt], (), rfl, by simp [coinbaseAt]⟩
  · show ¬ (timeAt h).toNat > futureDrift false 1503000000
    simp only [htime, futureDrift]
    omega
  · rw [show (coinbaseAt h).serialize.length = 75 from rfl]
    decide
  · show checkOutputValues true [⟨payAt h, (colorAt h).toInt32, []⟩] (fun _ => 0) = .ok ()
    simp only [checkOutputValues, bind_eq_ok, refuse_eq_ok, tableIndex_toInt32, Except.ok.injEq,
      exists_eq_left']
    refine ⟨(), by simp, (), ?_, (), ?_, (), ?_, trivial⟩
    · rw [Int64.not_lt, Int64.le_iff_toInt_le]
      exact h0
    · rw [Int64.not_lt, Int64.le_iff_toInt_le]
      exact hmax
    · rw [Int64.zero_add, Bool.not_eq_false, moneyRange_iff]
      exact ⟨h0, hmax⟩

theorem vtxAt_of_cardAt_none (hc : cardAt h = none) : vtxAt h = [coinbaseAt h] := by
  simp [vtxAt, hc]

/-- A height that stakes nothing. -/
theorem checkBlock_work (hh : h ≤ lastHeight) (hc : cardAt h = none) (st : TxStore) :
    checkBlock planCrypto planEnv.clock st (blockAt h) true true false = .ok () := by
  have htime := toNat_timeAt hh
  have hfork := getFork_timeAt hh
  have hvtx : (blockAt h).vtx = [coinbaseAt h] := vtxAt_of_cardAt_none hc
  have hpos : (blockAt h).isProofOfStake = false := by simp [CBlock.isProofOfStake, hvtx]
  have hsize : (blockAt h).serialize.length = 157 := by
    simp only [CBlock.serialize, hvtx]
    rfl
  have hhash : (blockAt h).getHash planCrypto = .ok 0 := by
    simp only [CBlock.getHash, show (blockAt h).nTime = timeAt h from rfl, hfork]
    rfl
  have hwork : checkProofOfWork planCrypto false 0 (blockAt h) = .ok true := by
    have hpow : checkSHA256ProofOfWork false 0 0x1d3fffff = true := by decide +kernel
    simp only [checkProofOfWork, show (blockAt h).isKawpowBlock = false from rfl,
      show (blockAt h).nBits = 0x1d3fffff from rfl, hpow, Bool.false_eq_true, if_false]
  simp only [checkBlock, bind_eq_ok, refuse_eq_ok]
  refine ⟨(), ?_, (), ?_, (), ?_, (), ?_, (), ?_, (), ?_, (), ?_, (), ?_, (), ?_, (), ?_, ?_⟩
  · simp [hvtx, hsize, maxBlockSize]
  · simp only [checkWork, hpos, Bool.not_false, Bool.and_true, if_true, bind_eq_ok, refuse_eq_ok]
    exact ⟨0, hhash, true, hwork, by decide⟩
  · show ¬ (timeAt h).toNat > futureDrift false 1503000000
    simp only [htime, futureDrift]
    unfold lastHeight at hh
    omega
  · rw [hvtx, not_not]
    exact ⟨_, rfl, rfl⟩
  · simp [hvtx]
  · rw [hvtx]
    rintro ⟨tx, htx, hlate⟩
    cases htx
    exact absurd hlate (by show ¬ (timeAt h).toNat > (timeAt h).toNat + 17; omega)
  · simp [checkStake, hpos]
  · simp only [hvtx, checkTransactions, bind_eq_ok, refuse_eq_ok]
    refine ⟨(), ?_, (), lt_irrefl _, trivial⟩
    rw [relayCheck_eq_ok]
    exact checkTransaction_coinbaseAt hh
  · simp [hvtx]
  · simp only [hvtx, List.map_cons, List.map_nil, List.sum_cons, List.sum_nil]
    exact show ¬ 0 > maxBlockSigops by decide
  · rintro ⟨-, hne⟩
    exact hne rfl

/-- The heights that stake. -/
def stakeHeights : List Nat := [300, 301, 302, 303, 304, 305, 306, 307, 600]

theorem mem_stakeHeights (hc : cardAt h = some card) :
    h ∈ stakeHeights := by
  unfold cardAt at hc
  split_ifs at hc with h1 h2
  · obtain ⟨ha, hb⟩ := h1
    interval_cases h <;> decide
  · subst h2
    decide

/-- The heights that stake, one by one. -/
theorem checkBlock_stake (hc : cardAt h = some card) (st : TxStore) :
    checkBlock planCrypto planEnv.clock st (blockAt h) true true false = .ok () := by
  have key : ∀ h ∈ stakeHeights,
      checkBlock planCrypto planEnv.clock ⟨fun _ => none, fun _ => none⟩ (blockAt h) true true
        false = .ok () := by
    decide +kernel
  rw [checkBlock_unsigned planEnv.clock st ⟨fun _ => none, fun _ => none⟩]
  exact key h (mem_stakeHeights hc)

/-! ## 4. What the plan mints and pays -/

/-- What a height adds to the minted total of its colour. -/
def mintAt (h : Nat) : Int :=
  if h < nColors then (powSubsidy (colorAt h)).toInt
  else
    match cardAt h with
    | some card => 10 ^ 18 + 10 ^ 16 * (basePosReward card).toInt
    | none => 5000000000

/-- The total of a colour up to a height. -/
def totalBy (f : Nat → Int) (c : Color) : Nat → Int
  | 0 => 0
  | h + 1 => totalBy f c h + if colorAt (h + 1) = c then f (h + 1) else 0

/-- What the coinbases up to a height took of a colour. -/
def paidBy : Color → Nat → Int := totalBy fun h => (payAt h).toInt

/-- What was minted of a colour up to a height. -/
def mintedBy : Color → Nat → Int := totalBy mintAt

/-- The card of a height: which, and when. -/
theorem cardAt_spec (hc : cardAt h = some card) :
    (300 ≤ h ∧ h ≤ 307 ∧ card.val + 296 = h) ∨ (h = 600 ∧ card.val = 12) := by
  unfold cardAt at hc
  split_ifs at hc with h1 h2
  · have hval : card.val = (h - 296) % nColors := by rw [← Option.some_inj.mp hc]; rfl
    simp only [nColors] at hval
    omega
  · rw [← Option.some_inj.mp hc]
    exact Or.inr ⟨h2, rfl⟩

/-- What staking one of the plan's cards mints. -/
theorem card_reward (card : Color) (h : 4 ≤ card.val ∧ card.val ≤ 12) :
    isDeck card.toInt32 = true ∧ mintColor card = .sis ∧ powSubsidy card = 1 ∧
      0 < basePosReward card ∧ basePosReward card < baseCoin ∧
      (2 * (5000000000 * coin .sis + 5000000000 * cent .sis * basePosReward card)).toInt =
        10 ^ 18 + 10 ^ 16 * (basePosReward card).toInt ∧
      0 ≤ (basePosReward card).toInt := by
  revert card
  decide

theorem colorAt_of_lt (hh : h < nColors) : (colorAt h).val = h := by
  rw [colorAt, dif_pos hh]

theorem colorAt_of_le (hh : nColors ≤ h) : colorAt h = .sis := by
  rw [colorAt, dif_neg (not_lt.mpr hh)]

theorem colorAt_ne_none (hh : 1 ≤ h) : colorAt h ≠ .none := by
  intro he
  by_cases hlt : h < nColors
  · have := colorAt_of_lt hlt
    rw [he] at this
    exact absurd this (by show ¬ 0 = h; omega)
  · rw [colorAt_of_le (not_lt.mp hlt)] at he
    exact absurd he (by decide)

theorem mintAt_nonneg (h : Nat) : 0 ≤ mintAt h := by
  unfold mintAt
  split
  · exact (powSubsidy_bounds _).1
  · split
    · next card hc =>
      have := (card_reward card (by have := cardAt_spec hc; omega)).2.2.2.2.2.2
      omega
    · decide

/-- Totals of what is not negative grow. -/
theorem totalBy_mono (hf : ∀ i, 0 ≤ f i) (c : Color) : Monotone (totalBy f c) := by
  refine monotone_nat_of_le_succ fun h => ?_
  have := hf (h + 1)
  rw [totalBy]
  split <;> omega

theorem mintedBy_mono (c : Color) : Monotone (mintedBy c) := totalBy_mono mintAt_nonneg c

theorem paidBy_mono (c : Color) : Monotone (paidBy c) :=
  totalBy_mono (fun h => (payAt_range h).1) c

/-- A colour whose height is still to come has no total. -/
theorem totalBy_of_lt :
    ∀ {h : Nat}, h < c.val → totalBy f c h = 0
  | 0, _ => rfl
  | h + 1, hc => by
    have hlt : h + 1 < nColors := hc.trans c.isLt
    have hne : colorAt (h + 1) ≠ c := by
      intro he
      have := colorAt_of_lt hlt
      rw [he] at this
      omega
    rw [totalBy, totalBy_of_lt (by omega), if_neg hne]
    rfl

/-- Only SIS has a total that moves after the colour's own height. -/
theorem totalBy_premined (hc : c ≠ .sis) (hh : c.val ≤ h) :
    totalBy f c h = totalBy f c c.val := by
  induction h, hh using Nat.le_induction with
  | base => rfl
  | succ h hh ih =>
    have hne : colorAt (h + 1) ≠ c := by
      intro he
      by_cases hlt : h + 1 < nColors
      · have hval := colorAt_of_lt hlt
        rw [he] at hval
        omega
      · exact hc (he.symm.trans (colorAt_of_le (not_lt.mp hlt)))
    rw [totalBy, ih, if_neg hne, add_zero]

/-- The total of SIS after the premines. -/
theorem totalBy_add {a : Nat} (ha : 57 ≤ a) (k : Nat) :
    totalBy f .sis (a + k) = totalBy f .sis a + ∑ i ∈ Finset.range k, f (a + i + 1) := by
  induction k with
  | zero => simp
  | succ k ih =>
    rw [← Nat.add_assoc, totalBy, ih, if_pos (colorAt_of_le (by simp only [nColors]; omega)),
      Finset.sum_range_succ, add_assoc]

/-- Over heights that all add the same. -/
theorem totalBy_const {a k : Nat} {m : Int} (ha : 57 ≤ a)
    (h : ∀ i, a < i → i ≤ a + k → f i = m) :
    totalBy f .sis (a + k) = totalBy f .sis a + k * m := by
  rw [totalBy_add ha, Finset.sum_congr rfl fun i hi => h _ (by omega)
    (by rw [Finset.mem_range] at hi; omega), Finset.sum_const, Finset.card_range, nsmul_eq_mul]

theorem cardAt_eq_none (h1 : h < 300 ∨ 307 < h) (h2 : h ≠ 600) : cardAt h = none := by
  rw [cardAt, if_neg (by omega), if_neg h2]

theorem mintAt_claim (hh : nColors ≤ h) (hc : cardAt h = none) : mintAt h = 5000000000 := by
  rw [mintAt, if_neg (not_lt.mpr hh), hc]

theorem payAt_claim (h1 : 307 < h) (h2 : h ≠ 600) :
    (payAt h).toInt = 2100000000000000 := by
  have hc : ¬ (h < 300 ∨ (cardAt h).isSome = true) := by
    rw [cardAt_eq_none (Or.inr h1) h2]
    simp
    omega
  rw [payAt, if_neg (by simp only [nColors]; omega), if_neg hc]
  rfl

theorem payAt_idle (h1 : nColors ≤ h) (h2 : h < 300) : (payAt h).toInt = 0 := by
  rw [payAt, if_neg (by omega), if_pos (Or.inl h2)]
  rfl

/-- The totals while the premines mature. -/
theorem sis_idle (h1 : 57 ≤ h) (h2 : h < 300) :
    mintedBy .sis h = 5000000000 * (h - 57 : Nat) ∧ paidBy .sis h = 0 := by
  obtain ⟨k, rfl⟩ := Nat.exists_eq_add_of_le h1
  have h57 : mintedBy .sis 57 = 0 ∧ paidBy .sis 57 = 0 := by decide
  rw [mintedBy, totalBy_const le_rfl fun i hi hik => mintAt_claim (by simp only [nColors]; omega)
    (cardAt_eq_none (by omega) (by omega)), ← mintedBy, h57.1]
  rw [paidBy, totalBy_const (m := 0) le_rfl fun i hi hik =>
    payAt_idle (by simp only [nColors]; omega) (by omega), ← paidBy, h57.2]
  constructor <;> omega

/-- Claims are all that a height takes once eight cards have been staked, but for the ninth. -/
theorem sis_after {a k : Nat} (ha : 307 ≤ a) (hk : a < 600 → a + k < 600) :
    mintedBy .sis (a + k) = mintedBy .sis a + k * 5000000000 ∧
      paidBy .sis (a + k) = paidBy .sis a + k * 2100000000000000 :=
  ⟨totalBy_const (by omega) fun i hi hik =>
    mintAt_claim (by simp only [nColors]; omega) (cardAt_eq_none (by omega) (by omega)),
    totalBy_const (by omega) fun i hi hik => payAt_claim (by omega) (by omega)⟩

/-- The totals once eight cards have been staked. -/
theorem sis_claims (h1 : 307 ≤ h) (h2 : h < 600) :
    mintedBy .sis h = 8550001210000000000 + 5000000000 * (h - 307 : Nat) ∧
      paidBy .sis h = 2100000000000000 * (h - 307 : Nat) := by
  obtain ⟨k, rfl⟩ := Nat.exists_eq_add_of_le h1
  obtain ⟨hm, hp⟩ := sis_idle (h := 299) (by decide) (by decide)
  have hstaked : ∑ i ∈ Finset.range 8, mintAt (299 + i + 1) = 8550000000000000000 ∧
      ∑ i ∈ Finset.range 8, (payAt (299 + i + 1)).toInt = 0 := by
    decide
  have hm' : mintedBy .sis 307 = mintedBy .sis 299 + _ := totalBy_add (by decide) 8
  have hp' : paidBy .sis 307 = paidBy .sis 299 + _ := totalBy_add (by decide) 8
  rw [hstaked.1] at hm'
  rw [hstaked.2] at hp'
  have hafter := @sis_after 307 k le_rfl fun _ => h2
  omega

/-- The totals once nine cards have been staked. -/
theorem sis_overrun (h1 : 600 ≤ h) :
    mintedBy .sis h = 9630002670000000000 + 5000000000 * (h - 600 : Nat) ∧
      paidBy .sis h = 613200000000000000 + 2100000000000000 * (h - 600 : Nat) := by
  obtain ⟨k, rfl⟩ := Nat.exists_eq_add_of_le h1
  obtain ⟨hm, hp⟩ := sis_claims (h := 599) (by decide) (by decide)
  have hstaked : mintAt 600 = 1080000000000000000 ∧ (payAt 600).toInt = 0 := by decide
  have hm' : mintedBy .sis 600 = mintedBy .sis 599 + mintAt 600 := rfl
  have hp' : paidBy .sis 600 = paidBy .sis 599 + (payAt 600).toInt := rfl
  have hafter := @sis_after 600 k (by omega) fun h => absurd h (lt_irrefl 600)
  omega

/-- The totals before a ninth card is staked fit in 64 bits, and those before any card is staked are
within the limits. -/
theorem totals_bounded (c : Color) :
    mintedBy c 599 < 2 ^ 63 ∧ mintedBy c 299 ≤ (maxMoney c).toInt ∧ paidBy c 299 < 2 ^ 63 := by
  by_cases hc : c = .sis
  · obtain ⟨hm, hp⟩ := sis_idle (h := 299) (by decide) (by decide)
    obtain ⟨hm', -⟩ := sis_claims (h := 599) (by decide) (by decide)
    rw [hc, hm, hp, hm']
    decide
  · have hle : c.val ≤ 299 := by
      have := c.isLt
      simp only [nColors] at this
      omega
    rw [mintedBy, paidBy, totalBy_premined hc (by omega), totalBy_premined hc hle,
      totalBy_premined hc hle]
    revert c
    decide +kernel

theorem mintedBy_fits (c : Color) (hh : h ≤ 599) : FitsInt64 (mintedBy c h) := by
  have hzero : 0 ≤ mintedBy c h := mintedBy_mono c (Nat.zero_le h)
  exact ⟨by omega, (mintedBy_mono c hh).trans_lt (totals_bounded c).1⟩

theorem paidBy_fits (c : Color) (hh : h ≤ 299) : FitsInt64 (paidBy c h) := by
  have hzero : 0 ≤ paidBy c h := paidBy_mono c (Nat.zero_le h)
  exact ⟨by omega, (paidBy_mono c hh).trans_lt (totals_bounded c).2.2⟩

/-- **There is room for what a height takes**: it is within the reward and what is left to
scavenge, and that fits in 64 bits. -/
theorem payAt_le (hh : h + 1 ≤ lastHeight) (hc : cardAt (h + 1) = none) :
    let c := colorAt (h + 1)
    0 ≤ mintedBy c h - paidBy c h ∧ mintAt (h + 1) + (mintedBy c h - paidBy c h) < 2 ^ 63 ∧
      (payAt (h + 1)).toInt ≤ mintAt (h + 1) + (mintedBy c h - paidBy c h) := by
  intro c
  unfold lastHeight at hh
  by_cases hlt : h + 1 < nColors
  · have hval := colorAt_of_lt hlt
    have hm : mintedBy c h = 0 := totalBy_of_lt (by omega)
    have hp : paidBy c h = 0 := totalBy_of_lt (by omega)
    have hb := powSubsidy_bounds (colorAt (h + 1))
    rw [hm, hp, mintAt, payAt, if_pos hlt, if_pos hlt]
    omega
  · have hsis : c = .sis := colorAt_of_le (not_lt.mp hlt)
    have hmint := mintAt_claim (not_lt.mp hlt) hc
    simp only [nColors, not_lt] at hlt
    rw [hsis, hmint]
    by_cases h300 : h < 300
    · obtain ⟨hm, hp⟩ := sis_idle (h := h) (by omega) h300
      have hpay : (payAt (h + 1)).toInt = 0 := by
        refine payAt_idle hlt ?_
        by_contra hge
        have : h + 1 = 300 := by omega
        rw [this] at hc
        exact absurd hc (by decide)
      rw [hm, hp, hpay]
      omega
    · have h307 : 307 ≤ h := by
        by_contra hlt
        rw [cardAt, if_pos (by omega)] at hc
        cases hc
      have h600 : h + 1 ≠ 600 := by
        intro he
        rw [he] at hc
        exact absurd hc (by decide)
      rw [payAt_claim (by omega) h600]
      by_cases hb : h < 600
      · obtain ⟨hm, hp⟩ := sis_claims h307 hb
        rw [hm, hp]
        omega
      · obtain ⟨hm, hp⟩ := sis_overrun (not_lt.mp hb)
        rw [hm, hp]
        omega

end Breakout
