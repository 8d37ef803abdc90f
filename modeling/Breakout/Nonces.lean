/-
# The nonces of a proof-of-stake block

"enforce 0 nonce for proof-of-stake to prevent degradation to PoW", says `ProcessBlock`, and looks at
`nNonce`.  A header of the extended layout has no `nNonce`; it has `nNonce64` and `mix_hash`, and
nothing is asked of them.  The work of a proof-of-stake block is not checked either.

So the rule holds of the headers whose id is not a hash of these two fields (`noncesZero_iff`).  A
block of version 7 after the third fork never meets it: its id is not computed while `mix_hash` is
null.
-/
import Breakout.DiskIndex
import Breakout.StakeColor

namespace Breakout

open Lib

variable {K : Crypto}

/-! ## 1. Fields that are hashed -/

namespace CBlock

/-- The id depends on a field: with another value in it, another header is hashed. -/
def Feeds {α : Type} (set : CBlock → α → CBlock) (block : CBlock) : Prop :=
  ∃ x, (set block x).headerPreimage ≠ block.headerPreimage

/-- Every nonce that the id depends on is zero. -/
structure NoncesZero (block : CBlock) : Prop where
  nNonce : Feeds (fun b x => { b with nNonce := x }) block → block.nNonce = 0
  nNonce64 : Feeds (fun b x => { b with nNonce64 := x }) block → block.nNonce64 = 0
  mixHash : Feeds (fun b x => { b with mixHash := x }) block → block.mixHash = 0

variable {block : CBlock}

/-- A field feeds the id if the fields of the extended layout do, when it is one of them. -/
theorem feeds_iff {α : Type} {set : CBlock → α → CBlock} {old x : α} (hx : x ≠ old)
    (hset : ∀ x, (set block x).headerPreimage = block.headerPreimage ↔
      ¬ block.HashesExtended ∨ x = old) : Feeds set block ↔ block.HashesExtended := by
  constructor
  · rintro ⟨y, hy⟩
    by_contra hnot
    exact hy ((hset y).mpr (.inl hnot))
  · intro h
    refine ⟨x, fun hsame => ?_⟩
    rcases (hset x).mp hsame with hnot | heq
    · exact hnot h
    · exact hx heq

theorem feeds_nNonce64_iff :
    Feeds (fun b x => { b with nNonce64 := x }) block ↔ block.HashesExtended := by
  have hother : block.nNonce64 + 1 ≠ block.nNonce64 := by simp
  refine feeds_iff hother fun x => ?_
  have h := headerPreimage_withExtended block block.nHeight x block.mixHash
  rw [eq_self, true_and, eq_self, and_true] at h
  exact h

theorem feeds_mixHash_iff :
    Feeds (fun b x => { b with mixHash := x }) block ↔ block.HashesExtended := by
  have hother : block.mixHash + 1 ≠ block.mixHash := by simp
  refine feeds_iff hother fun x => ?_
  have h := headerPreimage_withExtended block block.nHeight block.nNonce64 x
  rw [eq_self, true_and, eq_self, true_and] at h
  exact h

/-- A block of version 7 with an id has a mix hash, from the third fork on. -/
theorem mixHash_ne_zero {hash : UInt256} (h : block.getHash K = .ok hash)
    (hext : block.HashesExtended) (hfork : ¬ getFork block.nTime.toNat < .fork003) :
    block.mixHash ≠ 0 := by
  rw [HashesExtended, if_neg hfork] at hext
  rw [getHash, if_neg hfork, if_neg (by simp [hext])] at h
  intro hmix
  rw [if_pos hmix] at h
  cases h

end CBlock

/-! ## 2. What `ProcessBlock` enforces -/

variable {DB E : Type} {env : AcceptEnv DB E} {r : Receiver DB E} {pfrom fAllow : Bool}
  {block : CBlock}

/-- The rule of `ProcessBlock`. -/
theorem nNonce_of_arrivalChecks {hash : UInt256}
    (h : arrivalChecks K env r pfrom fAllow block = .ok hash)
    (hpos : block.isProofOfStake = true) :
    block.nNonce = 0 ∧ block.getHash K = .ok hash := by
  simp only [arrivalChecks, bind_eq_ok, refuse_eq_ok, pure_eq_ok] at h
  obtain ⟨_, hhash, -, -, -, -, -, hnonce, -, -, -, -, -, -, -, -, rfl⟩ := h
  exact ⟨by simpa [hpos] using hnonce, hhash⟩

/-- **When the nonces of a proof-of-stake block are zero.**  Of every proof-of-stake block that
passes `ProcessBlock`, all nonces that feed the id are zero if and only if the id is not a hash of the
extended fields, or the block is before the third fork and its sender left them null. -/
theorem noncesZero_iff {env : ProcessEnv DB E} {fOrphan : Bool}
    (hpass : (processBlock K env r pfrom fAllow block).1 = .ok fOrphan)
    (hpos : block.isProofOfStake = true) :
    block.NoncesZero ↔ ¬ block.HashesExtended ∨
      (getFork block.nTime.toNat < .fork003 ∧ block.nNonce64 = 0 ∧ block.mixHash = 0) := by
  unfold processBlock at hpass
  split at hpass
  · cases hpass
  · next hash hok =>
    obtain ⟨hnonce, hhash⟩ := nNonce_of_arrivalChecks hok hpos
    constructor
    · intro hzero
      by_cases hext : block.HashesExtended
      · have hmix := hzero.mixHash (CBlock.feeds_mixHash_iff.mpr hext)
        refine .inr ⟨?_, hzero.nNonce64 (CBlock.feeds_nNonce64_iff.mpr hext), hmix⟩
        by_contra hfork
        exact CBlock.mixHash_ne_zero hhash hext hfork hmix
      · exact .inl hext
    · rintro (hnot | ⟨-, hnonce64, hmix⟩)
      · exact ⟨fun _ => hnonce, fun h => absurd (CBlock.feeds_nNonce64_iff.mp h) hnot,
          fun h => absurd (CBlock.feeds_mixHash_iff.mp h) hnot⟩
      · exact ⟨fun _ => hnonce, fun _ => hnonce64, fun _ => hmix⟩

/-! ## 3. A proof of stake with a nonce -/

/-- A block signature that is canonical. -/
def blockSig : Valtype := [0x30, 7, 2, 2, 1, 1, 2, 1, 1]

/-- The staker signs every block as well, and the id of a kawpow block is its nonce. -/
def nonceCrypto : Crypto :=
  { stakeCrypto with
    verify := fun pubkey hash sig =>
      (pubkey == samplePubKey && sig == blockSig) || stakeCrypto.verify pubkey hash sig
    progpowNoVerify := fun _ _ _ nNonce64 => BitVec.ofNat 256 nNonce64.toNat }

/-- A block of the branch that is staked on; its transactions are in the store. -/
def nonceBase (n : Nat) : IndexedBlock :=
  ⟨BitVec.ofNat 256 (1000 + n), ⟨1, UInt32.ofNat n, firstFile_notNull⟩,
    ⟨7, BitVec.ofNat 256 (999 + n), 0, 1777836700, 0x1d00ffff, 0, UInt32.ofNat n, 0, 1, [], []⟩⟩

/-- Twelve blocks on top of the genesis block. -/
def nonceTip : BlockPtr :=
  (List.range 12).foldl (fun p n => .child (nonceBase (n + 1)) p) (.root (nonceBase 0))

/-- The node with these blocks. -/
def nonceReceiver : Receiver ChainState Unit where
  node :=
    { mapBlockIndex := fun h => nonceTip.ancestors.find? fun p => p.hash == h
      pindexGenesisBlock := some (.root (nonceBase 0))
      pindexBest := some nonceTip
      hashBestChain := nonceTip.hash
      nBestHeight := 12
      nBestChainTrust := nonceTip.nChainTrust
      pnext := nonceTip.next
      mapBlockLookup := nonceTip.atHeight
      txdb := ⟨stakeTip.txdb, stakeBranch.map fun p => (p, (nonceBase 0).block)⟩
      txdbBest := nonceTip.hash
      exploredb := () }
  mapOrphanBlocks _ := none
  mapOrphanBlocksByPrev := []
  setStakeSeen := ∅
  setStakeSeenOrphan := ∅

/-- What it reads while it processes a block, on the test network. -/
def nonceEnv : ProcessEnv ChainState Unit where
  clock := stakeTip.env.clock
  hashGenesisBlock := (nonceBase 0).hash
  ops := chainOps nonceCrypto stakeTip.env (nonceBase 0).pos
  store s := ⟨s.txdb, stakeTip.env.disk⟩
  hasBlock _ _ _ := true
  bnStakeModifier _ := 0
  modifierOk _ := true
  checkDiskSpace _ := true
  writeToDisk _ := some ⟨1, 2000, firstFile_notNull⟩
  isInitialBlockDownload _ := true
  maxOrphanBlocks := 100
  rand := 0

/-- A block that stakes BRX, with a nonce of its own. -/
def nonceBlock (nNonce64 : UInt64) : CBlock :=
  let block : CBlock :=
    ⟨7, nonceTip.hash, 0, 1777836782, 0x2000ffff, 0, 13, nNonce64, 1,
      [⟨1, 1777836782, [⟨⟨0, 0xffffffff⟩, [0x5d, 1], 0⟩],
        [⟨400000000, Color.brk.toInt32, [op1]⟩], 0, [], 0⟩, brxCoinstake [stakedTx] goodSig],
      blockSig⟩
  { block with hashMerkleRoot := block.buildMerkleTree nonceCrypto }

/-- The block with nonce 6 passes with the nonce in its id. -/
theorem noncesZero_nonceBlock : ¬ (nonceBlock 6).NoncesZero := by
  have hpass : (processBlock nonceCrypto nonceEnv nonceReceiver true false (nonceBlock 6)).1 =
      .ok false := by decide +kernel
  exact mt (noncesZero_iff hpass (by decide +kernel)).mp (by decide +kernel)

/-- **One proof of stake, two ids.**  Two blocks that differ in `nNonce64` only pass `ProcessBlock` in
the same state, and each becomes the best block there. -/
theorem nonce_varied :
    (nonceBlock 5).isProofOfStake = true ∧ nonceBlock 6 = { nonceBlock 5 with nNonce64 := 6 } ∧
      (∀ n ∈ [5, 6],
        (processBlock nonceCrypto nonceEnv nonceReceiver true false (nonceBlock n)).1 = .ok false ∧
        (processBlock nonceCrypto nonceEnv nonceReceiver true false
          (nonceBlock n)).2.node.nBestHeight = 13) ∧
      (nonceBlock 5).getHash nonceCrypto ≠ (nonceBlock 6).getHash nonceCrypto ∧
      ¬ (nonceBlock 5).NoncesZero := by
  have hext : (nonceBlock 5).HashesExtended := by decide +kernel
  have hnonce : (nonceBlock 5).nNonce64 ≠ 0 := by decide +kernel
  refine ⟨by decide +kernel, by decide +kernel, ?_, by decide +kernel,
    fun h => hnonce (h.nNonce64 (CBlock.feeds_nNonce64_iff.mpr hext))⟩
  intro n hn
  rcases List.mem_pair.mp hn with rfl | rfl
  · decide +kernel
  · decide +kernel

end Breakout
