/-
# Which proof-of-work algorithm a block is checked by

A proof-of-work block is checked by the kawpow algorithm if its version is 7, and by the old one
otherwise.  The sender picks the version.  The target that `AcceptBlock` requires goes by the time
of the block: from the seventh fork on it is the kawpow target.  Nothing on the way from
`ProcessBlock` to the index compares the two; "kawpow-too-early" is an answer of
`TestBlockValidityKawpow` only, and the miner's `CheckWorkKawpow` looks at the fork of its own
blocks.

So a block of the wrong version is accepted whenever it meets the required target by the algorithm
its version picks, within that algorithm's limit.  Only a target above the old limit keeps the
blocks of version 6 out, and only want of room those of version 7 (`algorithm_iff`).
-/
import Breakout.Kawpow
import Breakout.DiskIndex

namespace Breakout

open Lib

variable (K : Crypto)

/-! ## 1. The work of a block -/

/-- The work by the old algorithm: the id of the block meets the target it claims. -/
def ClassicWork (fTestNet : Bool) (block : CBlock) : Prop :=
  ∃ hash, block.getHash K = .ok hash ∧ checkSHA256ProofOfWork fTestNet hash block.nBits = true

/-- The work by the algorithm that the version picks. -/
def WorkByVersion (fTestNet : Bool) (block : CBlock) : Prop :=
  if block.isKawpowBlock then CheapWork K fTestNet block else ClassicWork K fTestNet block

/-- The version goes with the time. -/
def RightAlgorithm (block : CBlock) : Prop :=
  block.isKawpowBlock = true ↔ Fork.fork007 ≤ getFork block.nTime.toNat

variable {K} {block : CBlock}

/-- "Check proof of work matches claimed amount" -/
theorem checkWork_iff {clock : Clock} (hpow : block.isProofOfStake = false) :
    checkWork K clock block true = .ok () ↔ WorkByVersion K clock.fTestNet block := by
  unfold WorkByVersion
  cases hkawpow : block.isKawpowBlock with
  | true =>
    rw [checkWork_kawpow_iff hkawpow, if_pos rfl]
    exact ⟨fun h => h hpow, fun h _ => h⟩
  | false =>
    simp only [checkWork, hpow, Bool.not_false, Bool.and_self, if_true, bind_eq_ok, refuse_eq_ok,
      checkProofOfWork, hkawpow, Bool.false_eq_true, if_false, Except.ok.injEq, exists_eq_left',
      ClassicWork, Bool.not_eq_false]

/-! ## 2. The other checks -/

section

variable (K) {DB E : Type}

/-- What the checks on arrival ask of a proof-of-work block besides its work. -/
structure PowArrives (env : AcceptEnv DB E) (r : Receiver DB E) (block : CBlock) : Prop where
  new : ∃ hash, block.getHash K = .ok hash ∧ r.node.mapBlockIndex hash = none ∧
    r.mapOrphanBlocks hash = none
  size : ¬ (block.vtx = [] ∨ block.vtx.length > maxBlockSize ∨
    block.serialize.length > maxBlockSize)
  notFuture : block.nTime.toNat ≤ futureDrift env.clock.fTestNet env.clock.nAdjustedTime
  coinbaseFirst : ∃ tx ∈ block.vtx.head?, tx.isCoinBase = true
  oneCoinbase : ¬ ∃ tx ∈ block.vtx.tail, tx.isCoinBase = true
  coinbaseTime : ¬ ∃ tx ∈ block.vtx.head?,
    block.nTime.toNat > futureDrift env.clock.fTestNet tx.nTime.toNat
  transactions : checkTransactions env.clock block.nTime.toNat block.vtx = .ok ()
  txids : (block.vtx.map (·.getHash K)).Nodup
  sigops : (block.vtx.map (·.getLegacySigOpCount)).sum ≤ maxBlockSigops
  merkleRoot : block.hashMerkleRoot = block.buildMerkleTree K
  enough : ¬ TooLittleProof env r.node block
  unsigned : block.vchBlockSig = []

/-- What `AcceptBlock` asks of a proof-of-work block on top of `pindexPrev`. -/
structure PowFits (env : AcceptEnv DB E) (n : Node DB E) (pindexPrev : BlockPtr) (block : CBlock) :
    Prop where
  new : ∃ hash, block.getHash K = .ok hash ∧ n.mapBlockIndex hash = none
  coinbase : ∃ coinbase txin, block.vtx.head? = some coinbase ∧ coinbase.vin.head? = some txin ∧
    block.nTime.toNat ≤ futureDrift env.clock.fTestNet coinbase.nTime.toNat ∧
    scriptInt (pindexPrev.height + 1) <+: txin.scriptSig
  target : block.nBits =
    getNextTargetRequired env.clock.fTestNet block.nTime pindexPrev block.isProofOfStake
  later : ¬ (block.nTime ≤ pindexPrev.top.block.nTime ∨
    futureDrift env.clock.fTestNet block.nTime.toNat < pindexPrev.top.block.nTime.toNat)
  launched : launchTime ≤ block.nTime.toNat
  final : ∀ tx ∈ block.vtx, tx.isFinal n.nBestHeight env.clock.nAdjustedTime
    (pindexPrev.height + 1 : Nat) block.nTime.toNat = true
  diskSpace : env.checkDiskSpace block = true
  written : (env.writeToDisk block).isSome = true

variable {K} {env : AcceptEnv DB E} {r : Receiver DB E} {n : Node DB E} {pfrom fAllow : Bool}

/-- When a proof-of-work block passes the checks on arrival. -/
theorem arrivalChecks_pow_iff (hpow : block.isProofOfStake = false) :
    (∃ hash, arrivalChecks K env r pfrom fAllow block = .ok hash) ↔
      WorkByVersion K env.clock.fTestNet block ∧ PowArrives K env r block := by
  have hsig : checkSignatureEncodingOf pfrom block = .ok () ↔ block.vchBlockSig = [] := by
    unfold checkSignatureEncodingOf isCanonicalBlockSignature
    rw [hpow, if_neg Bool.false_ne_true]
    cases block.vchBlockSig with
    | nil => simp
    | cons b bs => cases pfrom <;> simp
  simp only [arrivalChecks, bind_eq_ok, refuse_eq_ok, pure_eq_ok, hpow, Bool.false_eq_true,
    false_and, not_false_eq_true, exists_const, true_and, Option.not_isSome_iff_eq_none]
  constructor
  · rintro ⟨hash, hash', hhash, hnew, horphan, ⟨⟩, hblock, henough, ⟨⟩, hsigned, -⟩
    obtain ⟨h, -⟩ := checkBlock_eq_ok_iff.mp hblock
    exact ⟨(checkWork_iff hpow).mp h.work, ⟨hash', hhash, hnew, horphan⟩, h.size, h.notFuture,
      h.coinbaseFirst, h.oneCoinbase, h.coinbaseTime, h.transactions, h.txids, h.sigops,
      h.merkleRoot, henough, hsig.mp hsigned⟩
  · rintro ⟨hwork, h⟩
    obtain ⟨hash, hhash, hnew, horphan⟩ := h.new
    have hstake : checkStake K env.clock .empty block false = .ok () := by
      rw [checkStake, hpow]
      rfl
    have hblock : checkBlock K env.clock (env.store r.node.txdb) block true true true = .ok () :=
      checkBlock_eq_ok_iff.mpr ⟨⟨h.size, (checkWork_iff hpow).mpr hwork, h.notFuture,
        h.coinbaseFirst, h.oneCoinbase, h.coinbaseTime, hstake, h.transactions, h.txids, h.sigops,
        h.merkleRoot⟩, fun hpos => by rw [hpow] at hpos; cases hpos⟩
    exact ⟨hash, hash, hhash, hnew, horphan, (), hblock, h.enough, (), hsig.mpr h.unsigned, rfl⟩

/-- When a proof-of-work block passes `AcceptBlock` on top of a block. -/
theorem acceptOn_pow_iff {pindexPrev : BlockPtr} {hash : UInt256}
    (hpow : block.isProofOfStake = false) (hhash : block.getHash K = .ok hash)
    (hnew : n.mapBlockIndex hash = none) :
    (∃ b, acceptOn K env n pindexPrev hash block = .ok b) ↔ PowFits K env n pindexPrev block := by
  have htime : acceptStakeTime env block = .ok () := by
    rw [acceptStakeTime, hpow]
    rfl
  have hstake : acceptStake K env n.txdb pindexPrev block = .ok () := by
    rw [acceptStake, hpow]
    rfl
  have hhard : checkHardened env.hashGenesisBlock (pindexPrev.height + 1) hash = true := by
    simp [checkHardened]
  simp only [acceptOn, htime, hstake, hhard, bind_eq_ok, refuse_eq_ok, exists_const, true_and,
    txAt_zero_eq_ok, firstIn_eq_ok, reduceCtorEq, not_false_eq_true]
  constructor
  · rintro ⟨b, coinbase, hcb, hearly, htarget, hlater, hlaunch, hfinal, txin, htxin, hheight,
      hspace, hwritten⟩
    refine ⟨⟨hash, hhash, hnew⟩, ⟨coinbase, txin, hcb, htxin, not_lt.mp hearly,
      not_not.mp hheight⟩, not_not.mp htarget, hlater, not_lt.mp hlaunch, fun tx htx => ?_,
      by simpa using hspace, ?_⟩
    · by_contra hnot
      exact hfinal ⟨tx, htx, by simpa using hnot⟩
    · cases hpos : env.writeToDisk block with
      | none => simp [hpos] at hwritten
      | some pos => rfl
  · intro h
    obtain ⟨coinbase, txin, hcb, htxin, hearly, hheight⟩ := h.coinbase
    obtain ⟨pos, hpos⟩ := Option.isSome_iff_exists.mp h.written
    have hfinal : ¬ ∃ tx ∈ block.vtx, tx.isFinal n.nBestHeight env.clock.nAdjustedTime
        (pindexPrev.height + 1 : Nat) block.nTime.toNat = false := by
      rintro ⟨tx, htx, hnot⟩
      rw [h.final tx htx] at hnot
      cases hnot
    refine ⟨⟨hash, pos, block⟩, coinbase, hcb, not_lt.mpr hearly, not_not.mpr h.target, h.later,
      not_lt.mpr h.launched, hfinal, txin, htxin, not_not.mpr hheight, by simp [h.diskSpace], ?_⟩
    simp [hpos]

theorem acceptChecks_pow_iff (hpow : block.isProofOfStake = false) :
    (∃ b, acceptChecks K env n block = .ok b) ↔
      ∃ pindexPrev, n.mapBlockIndex block.hashPrevBlock = some pindexPrev ∧
        PowFits K env n pindexPrev block := by
  constructor
  · rintro ⟨b, h⟩
    obtain ⟨hhash, -, hnew, pindexPrev, hprev, hon⟩ := acceptChecks_spec h
    exact ⟨pindexPrev, hprev, (acceptOn_pow_iff hpow hhash hnew).mp ⟨b, hon⟩⟩
  · rintro ⟨pindexPrev, hprev, h⟩
    obtain ⟨hash, hhash, hnew⟩ := h.new
    obtain ⟨b, hb⟩ := (acceptOn_pow_iff hpow hhash hnew).mpr h
    refine ⟨b, ?_⟩
    simp only [acceptChecks, bind_eq_ok, refuse_eq_ok]
    refine ⟨hash, hhash, (), by simp [hnew], ?_⟩
    rw [hprev]
    exact hb

/-! ## 3. Other headers -/

/-- The block passes in the states, on arrival and when it is accepted. -/
def Passes (K : Crypto) (w : Passage DB E) (block : CBlock) : Prop :=
  ∃ b, b.block = block ∧ w.Passed K b

/-- Another header over the same parent and transactions: the fields that a miner is free to set,
what the header happens to hash to, and what the disk says. -/
structure OtherHeader where
  nVersion : Int32
  nNonce : UInt32
  nHeight : UInt32
  nNonce64 : UInt64
  mixHash : UInt256
  id : UInt256
  work : UInt256
  checkDiskSpace : Bool
  writeToDisk : Option DiskBlockPos

namespace OtherHeader

/-- The block with the header. -/
def header (a : OtherHeader) (block : CBlock) : CBlock :=
  { block with
    nVersion := a.nVersion
    nNonce := a.nNonce
    nHeight := a.nHeight
    nNonce64 := a.nNonce64
    mixHash := a.mixHash }

/-- The functions, which are as before on all but the header: `id` is the hash of its bytes, `work`
what scrypt or ProgPoW make of it. -/
def functions (a : OtherHeader) (K : Crypto) (block : CBlock) : Crypto :=
  { K with
    hash := Function.update K.hash (a.header block).serializeHeader a.id
    scryptBlockhash := Function.update K.scryptBlockhash (a.header block).classicHeader a.work
    progpowNoVerify := fun nHeight hashHeader mixHash nNonce64 =>
      if nHeight = a.nHeight.toNat ∧ hashHeader = (a.header block).getKAWPOWHeaderHash K ∧
          mixHash = a.mixHash ∧ nNonce64 = a.nNonce64 then a.work
      else K.progpowNoVerify nHeight hashHeader mixHash nNonce64 }

/-- The states, with that disk. -/
def passage (a : OtherHeader) (w : Passage DB E) : Passage DB E :=
  { w with
    acceptEnv := { w.acceptEnv with
      checkDiskSpace := fun _ => a.checkDiskSpace
      writeToDisk := fun _ => a.writeToDisk } }

end OtherHeader

/-- **The header alone tells the algorithms apart**: from the seventh fork on the target is above
the old limit, and before it there is no room for the longer header. -/
def TellsApart (fTestNet : Bool) (block : CBlock) : Prop :=
  if Fork.fork007 ≤ getFork block.nTime.toNat then
    powTargetLimit fTestNet genesisTime < setCompact block.nBits
  else maxBlockSize < ({ block with nVersion := CBlock.kawpowVersion } : CBlock).serialize.length

theorem passes_pow_iff {w : Passage DB E} (hpow : block.isProofOfStake = false) :
    Passes K w block ↔ WorkByVersion K w.arrivalEnv.clock.fTestNet block ∧
      PowArrives K w.arrivalEnv w.receiver block ∧
      ∃ pindexPrev, w.node.mapBlockIndex block.hashPrevBlock = some pindexPrev ∧
        PowFits K w.acceptEnv w.node pindexPrev block := by
  rw [← acceptChecks_pow_iff hpow, ← and_assoc,
    ← @arrivalChecks_pow_iff K block DB E w.arrivalEnv w.receiver w.pfrom w.fAllowDuplicateStake
      hpow]
  constructor
  · rintro ⟨b, rfl, harrived, hb⟩
    exact ⟨harrived, b, hb⟩
  · rintro ⟨harrived, b, hb⟩
    obtain ⟨-, rfl, -⟩ := acceptChecks_spec hb
    exact ⟨b, rfl, harrived, hb⟩

/-- The states of a call of `ProcessBlock` whose block has a parent. -/
def callOf (env : ProcessEnv DB E) (r : Receiver DB E) : Passage DB E :=
  ⟨env.toAcceptEnv, r, true, false, env.toAcceptEnv, r.node⟩

theorem passes_callOf {env : ProcessEnv DB E} {r : Receiver DB E}
    (harrives : (arrivalChecks K env.toAcceptEnv r true false block).accepts = true)
    (haccepted : (acceptChecks K env.toAcceptEnv r.node block).accepts = true) :
    Passes K (callOf env r) block := by
  obtain ⟨b, hb⟩ := accepts_iff.mp haccepted
  obtain ⟨-, hblock, -⟩ := acceptChecks_spec hb
  rw [← hblock] at harrives hb
  exact ⟨b, hblock, accepts_iff.mp harrives, hb⟩

/-- **Enough**: a block that passes has the right algorithm if the header tells. -/
theorem rightAlgorithm_of_tellsApart {w : Passage DB E} (hpow : block.isProofOfStake = false)
    (h : Passes K w block) (htells : TellsApart w.arrivalEnv.clock.fTestNet block) :
    RightAlgorithm block := by
  obtain ⟨hwork, harrives, -⟩ := (passes_pow_iff hpow).mp h
  unfold TellsApart at htells
  unfold RightAlgorithm
  split_ifs at htells with hlate
  · refine iff_of_true ?_ hlate
    by_contra hclassic
    unfold WorkByVersion at hwork
    rw [if_neg hclassic] at hwork
    obtain ⟨hash, -, hmet⟩ := hwork
    simp only [checkSHA256ProofOfWork, Bool.and_eq_true, decide_eq_true_eq] at hmet
    omega
  · refine iff_of_false (fun hkawpow => ?_) hlate
    have hversion : block.nVersion = CBlock.kawpowVersion := by
      simpa [CBlock.isKawpowBlock] using hkawpow
    refine harrives.size (Or.inr (Or.inr ?_))
    rw [← hversion] at htells
    exact htells

/-! ## 4. Headers that pass -/

/-- Some nonce makes a text that is none of these. -/
theorem exists_notMem {f : UInt64 → List UInt8} (hf : Function.Injective f) (l : List (List UInt8))
    (hl : l.length < 2 ^ 64) : ∃ n, f n ∉ l := by
  have hinjective : Set.InjOn (fun i => f (UInt64.ofNat i)) (Finset.range (l.length + 1)) := by
    intro i hi j hj heq
    have hi := Finset.mem_range.mp hi
    have hj := Finset.mem_range.mp hj
    have hnat := congrArg UInt64.toNat (hf heq)
    rwa [UInt64.toNat_ofNat', UInt64.toNat_ofNat', Nat.mod_eq_of_lt (by omega),
      Nat.mod_eq_of_lt (by omega)] at hnat
  have hcard : l.toFinset.card <
      ((Finset.range (l.length + 1)).image fun i => f (UInt64.ofNat i)).card := by
    rw [Finset.card_image_of_injOn hinjective, Finset.card_range]
    exact Nat.lt_succ_of_le l.toFinset_card_le
  obtain ⟨x, hx, hnot⟩ := Finset.exists_mem_notMem_of_card_lt_card hcard
  obtain ⟨i, -, rfl⟩ := Finset.mem_image.mp hx
  exact ⟨_, fun hmem => hnot (List.mem_toFinset.mpr hmem)⟩

variable {w : Passage DB E} {a : OtherHeader} {hash : UInt256}

/-- The Merkle root of the same transactions, if their ids are the same. -/
theorem buildMerkleTree_otherHeader
    (htxids : ∀ tx ∈ block.vtx, tx.getHash (a.functions K block) = tx.getHash K) :
    (a.header block).buildMerkleTree (a.functions K block) = block.buildMerkleTree K := by
  have hpair : ∀ x y : UInt256, (a.functions K block).hash (serUInt256 x ++ serUInt256 y) =
      K.hash (serUInt256 x ++ serUInt256 y) := by
    intro x y
    refine Function.update_of_ne (fun heq => ?_) _ _
    have hlength := congrArg List.length heq
    rw [CBlock.length_serializeHeader, List.length_append, serUInt256, serUInt256, length_leBytes,
      length_leBytes, headerSize] at hlength
    split_ifs at hlength <;> omega
  have hids : (a.header block).vtx.map (·.getHash (a.functions K block)) =
      block.vtx.map (·.getHash K) := List.map_congr_left htxids
  unfold CBlock.buildMerkleTree
  simp only [hpair, hids]

/-- **Another header passes like the block**, if it has its id, as much room and work. -/
theorem passes_otherHeader (hpow : block.isProofOfStake = false) (h : Passes K w block)
    (hhash : block.getHash K = .ok hash)
    (hid : (a.header block).getHash (a.functions K block) = .ok hash)
    (htxids : ∀ tx ∈ block.vtx, tx.getHash (a.functions K block) = tx.getHash K)
    (hsize : (a.header block).serialize.length ≤ maxBlockSize)
    (hwork : WorkByVersion (a.functions K block) w.arrivalEnv.clock.fTestNet (a.header block))
    (hdisk : a.checkDiskSpace = true) (hfile : a.writeToDisk.isSome = true) :
    Passes (a.functions K block) (a.passage w) (a.header block) := by
  obtain ⟨-, harrives, pindexPrev, hprev, hfits⟩ := (passes_pow_iff hpow).mp h
  have hpow' : (a.header block).isProofOfStake = false := hpow
  refine (passes_pow_iff hpow').mpr ⟨hwork, ?_, pindexPrev, hprev, ?_⟩
  · refine ⟨?_, ?_, harrives.notFuture, harrives.coinbaseFirst, harrives.oneCoinbase,
      harrives.coinbaseTime, harrives.transactions, ?_, harrives.sigops, ?_, harrives.enough,
      harrives.unsigned⟩
    · obtain ⟨hash', hhash', hnew⟩ := harrives.new
      rw [hhash] at hhash'
      cases hhash'
      exact ⟨hash, hid, hnew⟩
    · rintro (hempty | hmany | hlarge)
      · exact harrives.size (Or.inl hempty)
      · exact harrives.size (Or.inr (Or.inl hmany))
      · omega
    · change (block.vtx.map (·.getHash (a.functions K block))).Nodup
      rw [List.map_congr_left htxids]
      exact harrives.txids
    · rw [buildMerkleTree_otherHeader htxids]
      exact harrives.merkleRoot
  · refine ⟨?_, hfits.coinbase, hfits.target, hfits.later, hfits.launched, hfits.final, hdisk,
      hfile⟩
    obtain ⟨hash', hhash', hnew⟩ := hfits.new
    rw [hhash] at hhash'
    cases hhash'
    exact ⟨hash, hid, hnew⟩

/-- The work of a block, which is its id from the third fork on. -/
theorem exists_work {fTestNet : Bool} (hhash : block.getHash K = .ok hash)
    (hwork : WorkByVersion K fTestNet block) :
    ∃ work : UInt256, 0 < setCompact block.nBits ∧ (work.toNat : Int) ≤ setCompact block.nBits ∧
      setCompact block.nBits ≤ powTargetLimit fTestNet kawpowActivationTime ∧
      (¬ getFork block.nTime.toNat < .fork003 → work = hash) := by
  unfold WorkByVersion at hwork
  split_ifs at hwork with hkawpow
  · obtain ⟨hpos, hlimit, hmix, hmet⟩ := hwork
    refine ⟨_, hpos, hmet, hlimit, fun hfork => ?_⟩
    rw [CBlock.getHash, if_neg hfork, if_neg (by simp [hkawpow]), if_neg hmix] at hhash
    exact Except.ok.inj hhash
  · obtain ⟨hash', hhash', hmet⟩ := hwork
    rw [hhash] at hhash'
    cases hhash'
    simp only [checkSHA256ProofOfWork, Bool.and_eq_true, decide_eq_true_eq] at hmet
    have hlimits : powTargetLimit fTestNet genesisTime ≤
        powTargetLimit fTestNet kawpowActivationTime := by
      cases fTestNet <;> decide
    exact ⟨hash, hmet.1.1, hmet.2, hmet.1.2.trans hlimits, fun _ => rfl⟩


theorem length_serialize_header (block : CBlock) (a : OtherHeader) :
    (a.header block).serialize.length + headerSize block.nVersion =
      block.serialize.length + headerSize a.nVersion := by
  have hlength : ∀ b : CBlock, b.serialize.length = headerSize b.nVersion +
      (encVec CTransaction.serialize b.vtx ++ serBytes b.vchBlockSig).length := fun b => by
    rw [CBlock.serialize, List.length_append, CBlock.length_serializeHeader]
  rw [hlength, hlength block]
  change headerSize a.nVersion + (encVec CTransaction.serialize block.vtx ++
    serBytes block.vchBlockSig).length + _ = _
  omega

theorem length_serialize_le (h : PowArrives K w.arrivalEnv w.receiver block) :
    block.serialize.length ≤ maxBlockSize := by
  by_contra hlarge
  exact h.size (Or.inr (Or.inr (Nat.lt_of_not_le hlarge)))

/-- A header of version 6, which is hashed to `work` for its work; its bytes hash to what they
did. -/
def OtherHeader.classic (K : Crypto) (block : CBlock) (work : UInt256)
    (writeToDisk : Option DiskBlockPos) : OtherHeader :=
  let a : OtherHeader := ⟨6, 0, 0, 0, 0, 0, work, true, writeToDisk⟩
  { a with id := K.hash (a.header block).serializeHeader }

/-- From the seventh fork on: a header of version 6 whose hash is the block's. -/
theorem passes_classic (hpow : block.isProofOfStake = false) (h : Passes K w block)
    (hlate : Fork.fork007 ≤ getFork block.nTime.toNat)
    (hlimit : setCompact block.nBits ≤ powTargetLimit w.arrivalEnv.clock.fTestNet genesisTime) :
    ∃ a : OtherHeader, a.nVersion = 6 ∧
      Passes (a.functions K block) (a.passage w) (a.header block) := by
  obtain ⟨hwork, harrives, pindexPrev, -, hfits⟩ := (passes_pow_iff hpow).mp h
  obtain ⟨hash, hhash, -⟩ := harrives.new
  obtain ⟨work, hpos, hmet, -, hid⟩ := exists_work hhash hwork
  have hfork : ¬ getFork block.nTime.toNat < .fork003 := by
    revert hlate
    cases getFork block.nTime.toNat <;> decide
  rw [hid hfork] at hmet
  obtain ⟨a, ha⟩ : ∃ a, a = OtherHeader.classic K block hash (w.acceptEnv.writeToDisk block) := ⟨_, rfl⟩
  have hversion : a.nVersion = 6 := by rw [ha]; rfl
  have hkawpow : (a.header block).isKawpowBlock = false := by rw [ha]; rfl
  have hsame : (a.functions K block).hash = K.hash := by
    rw [ha]
    exact Function.update_eq_self _ _
  have hid : (a.header block).getHash (a.functions K block) = .ok hash := by
    have hscrypt : (a.functions K block).scryptBlockhash (a.header block).classicHeader = hash := by
      rw [ha]
      exact Function.update_self _ _ _
    unfold CBlock.getHash
    rw [hkawpow, hscrypt]
    exact (if_neg hfork).trans (if_pos rfl)
  refine ⟨a, hversion, passes_otherHeader hpow h hhash hid (fun tx _ => ?_) ?_ ?_ ?_ ?_⟩
  · rw [CTransaction.getHash, hsame, CTransaction.getHash]
  · have hlength := length_serialize_header block a
    have hsize : headerSize a.nVersion = 80 := by rw [hversion]; rfl
    have hbounds : 80 ≤ headerSize block.nVersion := by
      unfold headerSize
      split_ifs <;> omega
    have hmax := length_serialize_le harrives
    omega
  · unfold WorkByVersion
    rw [hkawpow, if_neg Bool.false_ne_true]
    refine ⟨hash, hid, ?_⟩
    simp only [checkSHA256ProofOfWork, Bool.and_eq_true, decide_eq_true_eq]
    exact ⟨⟨hpos, hlimit⟩, hmet⟩
  · rw [ha]
    rfl
  · rw [ha]
    exact hfits.written

/-- A header of version 7. -/
def OtherHeader.kawpow (nNonce64 : UInt64) (id work : UInt256) (writeToDisk : Option DiskBlockPos) :
    OtherHeader := ⟨7, 0, 0, nNonce64, 1, id, work, true, writeToDisk⟩

/-- Its nonce is in its bytes. -/
theorem serializeHeader_kawpow_injective (block : CBlock) (id work : UInt256)
    (writeToDisk : Option DiskBlockPos) : Function.Injective fun nNonce64 =>
      ((OtherHeader.kawpow nNonce64 id work writeToDisk).header block).serializeHeader := by
  intro m n heq
  have hbytes := List.append_cancel_left (List.append_cancel_left heq)
  have hnonce := (List.append_inj hbytes (by rw [length_leBytes, length_leBytes])).1
  have hvalue := congrArg leNat hnonce
  rw [leNat_leBytes m.toNat_lt, leNat_leBytes n.toNat_lt] at hvalue
  exact UInt64.toNat_inj.mp hvalue

/-- What it is hashed to for its work. -/
theorem kawpowHashOnlyMix_otherHeader {a : OtherHeader} (hversion : a.nVersion = 7) :
    (a.header block).kawpowHashOnlyMix (a.functions K block) = a.work := by
  have hheader : (a.header block).getKAWPOWHeaderHash (a.functions K block) =
      (a.header block).getKAWPOWHeaderHash K := by
    refine Function.update_of_ne (fun heq => ?_) _ _
    have hlength := congrArg List.length heq
    have hsize : headerSize (a.header block).nVersion = 120 := by
      change headerSize a.nVersion = 120
      rw [hversion]
      rfl
    rw [CBlock.length_serializeHeader, hsize] at hlength
    simp [CBlock.commonHeader, serInt32, serUInt32, serUInt256, length_leBytes] at hlength
  rw [CBlock.kawpowHashOnlyMix, hheader]
  exact if_pos ⟨rfl, rfl, rfl, rfl⟩

/-- Before it: a header of version 7 with the block's id and work. -/
theorem passes_kawpow (hpow : block.isProofOfStake = false) (h : Passes K w block)
    (hroom : ({ block with nVersion := CBlock.kawpowVersion } : CBlock).serialize.length ≤
      maxBlockSize) :
    ∃ a : OtherHeader, a.nVersion = 7 ∧
      Passes (a.functions K block) (a.passage w) (a.header block) := by
  obtain ⟨hwork, harrives, pindexPrev, -, hfits⟩ := (passes_pow_iff hpow).mp h
  obtain ⟨hash, hhash, -⟩ := harrives.new
  obtain ⟨work, hpos, hmet, hlimit, hsame⟩ := exists_work hhash hwork
  -- a nonce with which the header is none of the transactions
  have hcount : (block.vtx.map (·.hashed.serialize)).length < 2 ^ 64 := by
    have hsize := harrives.size
    simp only [not_or, not_lt] at hsize
    rw [List.length_map]
    exact lt_of_le_of_lt hsize.2.1 (by decide)
  obtain ⟨nNonce64, hnonce⟩ := exists_notMem (serializeHeader_kawpow_injective block hash work
    (w.acceptEnv.writeToDisk block)) _ hcount
  obtain ⟨a, ha⟩ : ∃ a, a = OtherHeader.kawpow nNonce64 hash work (w.acceptEnv.writeToDisk block) :=
    ⟨_, rfl⟩
  rw [← ha] at hnonce
  have hversion : a.nVersion = 7 := by rw [ha]; rfl
  have hkawpow : (a.header block).isKawpowBlock = true := by rw [ha]; rfl
  have hmix : (a.header block).mixHash ≠ 0 := by
    rw [ha]
    change (1 : UInt256) ≠ 0
    decide
  have hlight : (a.header block).kawpowHashOnlyMix (a.functions K block) = work := by
    rw [kawpowHashOnlyMix_otherHeader hversion, ha]
    rfl
  refine ⟨a, hversion, passes_otherHeader hpow h hhash ?_ (fun tx htx => ?_) ?_ ?_ ?_ ?_⟩
  · unfold CBlock.getHash
    split_ifs with hfork hclassic
    · rw [ha]
      exact congrArg Except.ok (Function.update_self _ _ _)
    · rw [hkawpow] at hclassic
      cases hclassic
    · rw [hlight, hsame hfork]
  · refine Function.update_of_ne (fun heq => hnonce ?_) _ _
    rw [← heq]
    exact List.mem_map_of_mem htx
  · have hlength := length_serialize_header block a
    have hlong := length_serialize_header block
      ⟨CBlock.kawpowVersion, block.nNonce, block.nHeight, block.nNonce64, block.mixHash, 0, 0, true,
        none⟩
    have hsize : headerSize a.nVersion = headerSize CBlock.kawpowVersion := by rw [hversion]; rfl
    change ({ block with nVersion := CBlock.kawpowVersion } : CBlock).serialize.length + _ =
      _ + headerSize CBlock.kawpowVersion at hlong
    omega
  · unfold WorkByVersion
    rw [hkawpow, if_pos rfl]
    refine ⟨hpos, hlimit, hmix, ?_⟩
    rw [hlight]
    exact hmet
  · rw [ha]
    rfl
  · rw [ha]
    exact hfits.written

/-! ## 5. When the version goes with the time -/

theorem rightAlgorithm_iff_tellsApart (hpow : block.isProofOfStake = false) (h : Passes K w block) :
    (∀ a : OtherHeader, Passes (a.functions K block) (a.passage w) (a.header block) →
      RightAlgorithm (a.header block)) ↔ TellsApart w.arrivalEnv.clock.fTestNet block := by
  constructor
  · intro hall
    unfold TellsApart
    split_ifs with hlate
    · by_contra hlow
      obtain ⟨a, hversion, ha⟩ := passes_classic hpow h hlate (not_lt.mp hlow)
      have hkawpow := (hall a ha).mpr hlate
      change (a.nVersion == CBlock.kawpowVersion) = true at hkawpow
      rw [hversion] at hkawpow
      cases hkawpow
    · by_contra hroom
      obtain ⟨a, hversion, ha⟩ := passes_kawpow hpow h (not_lt.mp hroom)
      refine hlate ((hall a ha).mp ?_)
      change (a.nVersion == CBlock.kawpowVersion) = true
      rw [hversion]
      rfl
  · intro htells a ha
    have htells' : TellsApart (a.passage w).arrivalEnv.clock.fTestNet (a.header block) := htells
    have hpow' : (a.header block).isProofOfStake = false := hpow
    exact rightAlgorithm_of_tellsApart hpow' ha htells'

variable (K DB E) in
/-- **Which proof-of-work blocks have the algorithm of their time.**  Every block that a run of
`ProcessBlock` indexes passed in some states of the node.  A proof-of-work block that passes has the
right algorithm if its header tells the algorithms apart; and only then is there none of the wrong
algorithm, that is no other header over the same parent and transactions that could be
hashed to something with which it passes in the same states. -/
theorem algorithm_iff :
    (∀ (r r' : Receiver DB E) (h : UInt256) (p : BlockPtr), ProcessRun K r r' →
      r.node.HashesOk → r.mapOrphanBlocksByPrev = [] → r.node.mapBlockIndex h = none →
      r'.node.mapBlockIndex h = some p → ∃ w : Passage DB E, w.Passed K p.top) ∧
    ∀ (w : Passage DB E) (block : CBlock), Passes K w block → block.isProofOfStake = false →
      (TellsApart w.arrivalEnv.clock.fTestNet block → RightAlgorithm block) ∧
      ((∀ a : OtherHeader, Passes (a.functions K block) (a.passage w) (a.header block) →
        RightAlgorithm (a.header block)) ↔ TellsApart w.arrivalEnv.clock.fTestNet block) :=
  ⟨fun _ _ _ _ run hhashes hnone hnew hp => run.passed hhashes hnone hnew hp,
    fun _ _ h hpow => ⟨rightAlgorithm_of_tellsApart hpow h, rightAlgorithm_iff_tellsApart hpow h⟩⟩

end

/-! ## 6. A block too early and a block too late -/

/-- A block after the seventh fork with the target of the main network's old limit. -/
def lateBase (n : Nat) : IndexedBlock :=
  ⟨BitVec.ofNat 256 (1000 + n), ⟨1, UInt32.ofNat n, firstFile_notNull⟩,
    ⟨7, BitVec.ofNat 256 (999 + n), 0, UInt32.ofNat (1777836782 + 120 * n), 0x1d00ffff, 0,
      UInt32.ofNat n, 0, 1, [], []⟩⟩

/-- A branch of that many blocks on top of the first. -/
def lateTip (k : Nat) : BlockPtr :=
  (List.range k).foldl (fun p n => .child (lateBase (n + 1)) p) (.root (lateBase 0))

/-- A node with twenty-six of them. -/
def lateReceiver : Receiver ChainState Unit where
  node :=
    { mapBlockIndex := fun h => (lateTip 26).ancestors.find? fun p => p.hash == h
      pindexGenesisBlock := some (.root (lateBase 0))
      pindexBest := some (lateTip 26)
      hashBestChain := (lateTip 26).hash
      nBestHeight := 26
      nBestChainTrust := (lateTip 26).nChainTrust
      pnext := (lateTip 26).next
      mapBlockLookup := (lateTip 26).atHeight
      txdb := ⟨fun _ => none, []⟩
      txdbBest := (lateTip 26).hash
      exploredb := () }
  mapOrphanBlocks _ := none
  mapOrphanBlocksByPrev := []
  setStakeSeen := ∅
  setStakeSeenOrphan := ∅

/-- Their clock is past the last of them. -/
def lateEnv : ProcessEnv ChainState Unit :=
  { forkEnv with
    clock := ⟨false, 1777840000⟩
    hashGenesisBlock := (lateBase 0).hash
    ops := chainOps forkCrypto ⟨⟨false, 1777840000⟩, fun _ => none, fun _ => none, true⟩
      (lateBase 0).pos }

/-- A block of version 6 on a side branch, past twenty-four of them. -/
def lateBlock : CBlock :=
  let coinbase : CTransaction :=
    ⟨1, 1777839782, [⟨⟨0, 0xffffffff⟩, [1, 25], 0⟩], [⟨0, Color.sis.toInt32, [op1]⟩], 0, [], 0⟩
  let block : CBlock :=
    ⟨6, (lateTip 24).hash, 0, 1777839782,
      getNextTargetRequired false 1777839782 (lateTip 24) false, 0, 0, 0, 0, [coinbase], []⟩
  { block with hashMerkleRoot := block.buildMerkleTree forkCrypto }

/-- **Both ways to pick the algorithm.**  A block of version 7 is accepted long before the seventh
fork, and one of version 6 after it, although the miner's own checks would not have it. -/
theorem algorithm_picked :
    (getFork (earlyBlock 1).nTime.toNat < .fork007 ∧ (earlyBlock 1).isKawpowBlock = true ∧
      (earlyBlock 1).isProofOfStake = false ∧
      (processBlock forkCrypto forkEnv forkReceiver true false (earlyBlock 1)).1 = .ok false) ∧
    (Fork.fork007 ≤ getFork lateBlock.nTime.toNat ∧ lateBlock.isKawpowBlock = false ∧
      lateBlock.isProofOfStake = false ∧
      (processBlock forkCrypto lateEnv lateReceiver true false lateBlock).1 = .ok false ∧
      ((processBlock forkCrypto lateEnv lateReceiver true false
        lateBlock).2.node.mapBlockIndex 0).isSome = true) :=
  ⟨by decide +kernel, by decide +kernel⟩

/-- A node that has only the first two of them on top of the first. -/
def easyReceiver : Receiver ChainState Unit :=
  { lateReceiver with
    node :=
      { lateReceiver.node with
        pindexBest := some (lateTip 2)
        hashBestChain := (lateTip 2).hash
        nBestHeight := 2
        nBestChainTrust := (lateTip 2).nChainTrust
        txdbBest := (lateTip 2).hash } }

/-- A block of version 7 with one of the first targets after the fork, which are easier than the old
limit. -/
def easyBlock : CBlock :=
  let coinbase : CTransaction :=
    ⟨1, 1777837142, [⟨⟨0, 0xffffffff⟩, [0x53, 1], 0⟩], [⟨0, Color.sis.toInt32, [op1]⟩], 0, [], 0⟩
  let block : CBlock :=
    ⟨7, (lateTip 2).hash, 0, 1777837142,
      getNextTargetRequired false 1777837142 (lateTip 2) false, 0, 3, 0, 1, [coinbase], []⟩
  { block with hashMerkleRoot := block.buildMerkleTree forkCrypto }

/-- The header of this block tells: none of version 6 passes in its place.  Of the late block one
does. -/
theorem algorithm_iff_easy :
    (∃ w : Passage ChainState Unit, w.Passed forkCrypto (earlyPtr 1).top) ∧
    (∀ a : OtherHeader, Passes (a.functions forkCrypto easyBlock)
      (a.passage (callOf lateEnv easyReceiver)) (a.header easyBlock) →
        RightAlgorithm (a.header easyBlock)) ∧
    ¬ ∀ a : OtherHeader, Passes (a.functions forkCrypto lateBlock)
      (a.passage (callOf lateEnv lateReceiver)) (a.header lateBlock) →
        RightAlgorithm (a.header lateBlock) := by
  obtain ⟨hruns, hpasses⟩ := algorithm_iff forkCrypto ChainState Unit
  refine ⟨hruns forkReceiver _ (earlyPtr 1).hash (earlyPtr 1) (earlyBlock_run 1)
    forkReceiver_hashesOk rfl (by decide +kernel) (by decide +kernel), ?_, fun hall => ?_⟩
  · obtain ⟨-, hiff⟩ := hpasses (callOf lateEnv easyReceiver) easyBlock
      (passes_callOf (by decide +kernel) (by decide +kernel)) (by decide +kernel)
    exact hiff.mpr (by unfold TellsApart; decide +kernel)
  · obtain ⟨-, hiff⟩ := hpasses (callOf lateEnv lateReceiver) lateBlock
      (passes_callOf (by decide +kernel) (by decide +kernel)) (by decide +kernel)
    have hnot : ¬ TellsApart false lateBlock := by
      unfold TellsApart
      decide +kernel
    exact hnot (hiff.mp hall)

end Breakout
