/-
# The mix hash of a kawpow block

The work of a kawpow block can be checked in two ways.  `KAWPOWHash` computes the mix hash, which
needs the data set of the epoch, and the final hash from it.  `KAWPOWHash_OnlyMix` takes the mix
hash from the header and computes the final hash alone, which is cheap.  `CheckBlock` goes the cheap
way, and no later check of a block goes the other.  "bad-mix-hash" is the answer of
`TestBlockValidityKawpow` only.

So a block is accepted with a mix hash that was never computed, as long as the final hash that
follows from it is small enough, or a staker has signed it.  It is the right one for sure only if
`hash_no_verify` leaves no choice (`mixHash_checked_iff`).
-/
import Mathlib.Data.BitVec
import Breakout.BlockContext

namespace Breakout

open Lib

variable (K : Crypto)

/-- `progpow::hash`: the mix hash and the final hash, which is what `progpow::hash_no_verify` makes
of that mix hash. -/
structure Progpow where
  hash : Nat → UInt256 → UInt64 → UInt256 × UInt256
  final_eq : ∀ nHeight hashHeader nNonce64, (hash nHeight hashHeader nNonce64).2 =
    K.progpowNoVerify nHeight hashHeader (hash nHeight hashHeader nNonce64).1 nNonce64

variable {K} (P : Progpow K)

namespace CBlock

/-- `KAWPOWHash`: the mix hash it sets and the final hash it returns. -/
def kawpowHash (block : CBlock) : UInt256 × UInt256 :=
  P.hash block.nHeight.toNat (block.getKAWPOWHeaderHash K) block.nNonce64

/-- The header carries the mix hash that `KAWPOWHash` computes, and the two ways agree. -/
def MixRight (block : CBlock) : Prop :=
  block.mixHash = (block.kawpowHash P).1 ∧ block.kawpowHashOnlyMix K = (block.kawpowHash P).2

/-- With the right mix hash the final hashes agree. -/
theorem mixRight_iff (block : CBlock) :
    block.MixRight P ↔ block.mixHash = (block.kawpowHash P).1 := by
  refine ⟨And.left, fun hmix => ⟨hmix, ?_⟩⟩
  rw [kawpowHashOnlyMix, hmix]
  exact (P.final_eq _ _ _).symm

end CBlock

/-- The final hash that follows from the mix hash in the header meets the target. -/
def CheapWork (K : Crypto) (fTestNet : Bool) (block : CBlock) : Prop :=
  0 < setCompact block.nBits ∧
    setCompact block.nBits ≤ powTargetLimit fTestNet kawpowActivationTime ∧
    block.mixHash ≠ 0 ∧ ((block.kawpowHashOnlyMix K).toNat : Int) ≤ setCompact block.nBits

/-- "Check proof of work matches claimed amount", for a kawpow block. -/
theorem checkWork_kawpow_iff {clock : Clock} {block : CBlock}
    (hkawpow : block.isKawpowBlock = true) :
    checkWork K clock block true = .ok () ↔
      (block.isProofOfStake = false → CheapWork K clock.fTestNet block) := by
  unfold checkWork
  cases hpos : block.isProofOfStake with
  | true => simp
  | false =>
    simp only [Bool.not_false, Bool.and_self, if_true, bind_eq_ok, refuse_eq_ok, forall_const,
      checkProofOfWork, hkawpow, checkKawpowProofOfWork, CheapWork]
    by_cases hrange : setCompact block.nBits ≤ 0 ∨
        setCompact block.nBits > powTargetLimit clock.fTestNet kawpowActivationTime
    · rw [if_pos hrange]
      constructor
      · rintro ⟨hash, -, fOk, hok, hnot⟩
        cases hok
        exact absurd rfl hnot
      · rintro ⟨hpos, hle, -⟩
        rcases hrange with hrange | hrange <;> omega
    · rw [if_neg hrange]
      rw [not_or, not_le, not_lt] at hrange
      by_cases hmix : block.mixHash = 0
      · rw [if_pos hmix]
        simp [hmix]
      · rw [if_neg hmix]
        have hash : ∃ hash, block.getHash K = .ok hash := by
          unfold CBlock.getHash
          split_ifs
          all_goals exact ⟨_, rfl⟩
        obtain ⟨hash, hhash⟩ := hash
        simpa [hhash, hrange] using fun _ => hmix

/-- The block with another mix hash in its header, signed anew. -/
def CBlock.claiming (block : CBlock) (mixHash : UInt256) (vchBlockSig : Valtype) : CBlock :=
  { block with mixHash := mixHash, vchBlockSig := vchBlockSig }

/-- What `CheckBlock` asks of a mix hash.  In a proof-of-work block: that the final hash which
follows from it meets the target.  In a proof-of-stake block: a signature of the id with it. -/
def PassesAs (K : Crypto) (st : TxStore) (block : CBlock) (mixHash : UInt256) : Prop :=
  if block.isProofOfStake then
    ∃ vchBlockSig, (block.claiming mixHash vchBlockSig).serialize.length ≤ maxBlockSize ∧
      checkBlockSignature K st (block.claiming mixHash vchBlockSig) = .ok .sigOk
  else mixHash ≠ 0 ∧ ((K.progpowNoVerify block.nHeight.toNat (block.getKAWPOWHeaderHash K) mixHash
    block.nNonce64).toNat : Int) ≤ setCompact block.nBits

/-- **`hash_no_verify` leaves no choice**: what `KAWPOWHash` computes meets the target (or has been
signed), and no two mix hashes pass. -/
structure MixPinned (st : TxStore) (block : CBlock) : Prop where
  worked : block.isProofOfStake = false → (block.kawpowHash P).1 ≠ 0 ∧
    (((block.kawpowHash P).2).toNat : Int) ≤ setCompact block.nBits
  signed : block.isProofOfStake = true → PassesAs K st block (block.kawpowHash P).1
  one : ∀ mix mix', PassesAs K st block mix → PassesAs K st block mix' → mix = mix'

variable {P} {clock : Clock} {st : TxStore} {block : CBlock} {mix : UInt256} {sig : Valtype}

/-- The mix hash that `KAWPOWHash` computes passes if the final hash that it computes does. -/
theorem passesAs_kawpowHash_iff (P : Progpow K) (hpow : block.isProofOfStake = false) :
    PassesAs K st block (block.kawpowHash P).1 ↔ (block.kawpowHash P).1 ≠ 0 ∧
      (((block.kawpowHash P).2).toNat : Int) ≤ setCompact block.nBits := by
  have hfinal := P.final_eq block.nHeight.toNat (block.getKAWPOWHeaderHash K) block.nNonce64
  unfold PassesAs CBlock.kawpowHash
  rw [hpow, if_neg Bool.false_ne_true, hfinal]

theorem MixPinned.passes (h : MixPinned P st block) :
    PassesAs K st block (block.kawpowHash P).1 := by
  cases hpos : block.isProofOfStake with
  | true => exact h.signed hpos
  | false => exact (passesAs_kawpowHash_iff P hpos).mpr (h.worked hpos)

/-- A mix hash has a fixed size. -/
theorem length_serialize_claiming (mix : UInt256) :
    (block.claiming mix block.vchBlockSig).serialize.length = block.serialize.length := by
  unfold CBlock.serialize CBlock.serializeHeader CBlock.claiming
  dsimp only
  split_ifs
  · rfl
  · simp [CBlock.commonHeader, serUInt256, length_leBytes]

/-- With a mix hash that passes, the block is accepted like the one it has been made of. -/
theorem checkBlock_claiming (hkawpow : block.isKawpowBlock = true)
    (hok : checkBlock K clock st block true true true = .ok ())
    (hmix : PassesAs K st block mix) :
    ∃ sig, checkBlock K clock st (block.claiming mix sig) true true true = .ok () := by
  obtain ⟨h, -⟩ := checkBlock_eq_ok_iff.mp hok
  have hwork := (checkWork_kawpow_iff hkawpow).mp h.work
  have hother : ∀ sig, (block.claiming mix sig).serialize.length ≤ maxBlockSize →
      (block.isProofOfStake = false → CheapWork K clock.fTestNet (block.claiming mix sig)) →
      OtherwiseValid K clock (block.claiming mix sig) := by
    intro sig hsize hcheap
    refine ⟨?_, (@checkWork_kawpow_iff K clock (block.claiming mix sig) hkawpow).mpr hcheap,
      h.notFuture, h.coinbaseFirst, h.oneCoinbase, h.coinbaseTime, h.stake, h.transactions, h.txids,
      h.sigops, h.merkleRoot⟩
    rintro (hempty | hmany | hlarge)
    · exact h.size (Or.inl hempty)
    · exact h.size (Or.inr (Or.inl hmany))
    · omega
  unfold PassesAs at hmix
  cases hpos : block.isProofOfStake with
  | true =>
    rw [hpos, if_pos rfl] at hmix
    obtain ⟨sig, hsize, hsig⟩ := hmix
    refine ⟨sig, checkBlock_eq_ok_iff.mpr ⟨hother sig hsize fun hpow => ?_, fun _ => hsig⟩⟩
    rw [hpos] at hpow
    cases hpow
  | false =>
    rw [hpos, if_neg Bool.false_ne_true] at hmix
    obtain ⟨hlow, hhigh, -, -⟩ := hwork hpos
    have hsize : block.serialize.length ≤ maxBlockSize := by
      by_contra hlarge
      exact h.size (Or.inr (Or.inr (Nat.lt_of_not_le hlarge)))
    refine ⟨block.vchBlockSig, checkBlock_eq_ok_iff.mpr ⟨hother _ ?_ fun _ => ?_, fun hstake => ?_⟩⟩
    · rwa [length_serialize_claiming]
    · exact ⟨hlow, hhigh, hmix⟩
    · have hstake : block.isProofOfStake = true := hstake
      rw [hpos] at hstake
      cases hstake

/-- And an accepted one has a mix hash that passes. -/
theorem passes_of_checkBlock (hkawpow : block.isKawpowBlock = true)
    (hok : checkBlock K clock st (block.claiming mix sig) true true true = .ok ()) :
    PassesAs K st block mix := by
  obtain ⟨h, hsig⟩ := checkBlock_eq_ok_iff.mp hok
  unfold PassesAs
  split_ifs with hpos
  · refine ⟨sig, ?_, hsig hpos⟩
    by_contra hlarge
    exact h.size (Or.inr (Or.inr (Nat.lt_of_not_le hlarge)))
  · have hwork := (@checkWork_kawpow_iff K clock (block.claiming mix sig) hkawpow).mp h.work
    exact (hwork (Bool.eq_false_of_not_eq_true hpos)).2.2

variable (P) in
/-- **When `CheckBlock` checks the mix hash**: the mix hash of an accepted kawpow block could not be
another than the one `KAWPOWHash` computes, exactly if `hash_no_verify` leaves no choice. -/
theorem mixHash_checked_iff (hkawpow : block.isKawpowBlock = true)
    (hok : checkBlock K clock st block true true true = .ok ()) :
    (∀ mix sig, checkBlock K clock st (block.claiming mix sig) true true true = .ok () →
      (block.claiming mix sig).MixRight P) ↔ MixPinned P st block := by
  have hright : ∀ mix sig, (block.claiming mix sig).MixRight P ↔ mix = (block.kawpowHash P).1 :=
    fun mix sig => (block.claiming mix sig).mixRight_iff P
  have hown := @passes_of_checkBlock K clock st block block.mixHash block.vchBlockSig hkawpow hok
  constructor
  · intro hall
    have heq : ∀ mix, PassesAs K st block mix → mix = (block.kawpowHash P).1 := by
      intro mix hmix
      obtain ⟨sig, hsig⟩ := checkBlock_claiming hkawpow hok hmix
      exact (hright mix sig).mp (hall mix sig hsig)
    rw [heq _ hown] at hown
    refine ⟨fun hpow => ?_, fun _ => hown, fun mix mix' hmix hmix' =>
      (heq mix hmix).trans (heq mix' hmix').symm⟩
    exact (passesAs_kawpowHash_iff P hpow).mp hown
  · intro hpinned mix sig hsig
    exact (hright mix sig).mpr (hpinned.one _ _ (passes_of_checkBlock hkawpow hsig) hpinned.passes)

/-! ## A block without work -/

/-- Functions to evaluate the example with: the final hash is the mix hash. -/
def mixCrypto : Crypto := { Crypto.sample [] with progpowNoVerify := fun _ _ mixHash _ => mixHash }

/-- Every mix hash is too large for every target. -/
def mixProgpow : Progpow mixCrypto := ⟨fun _ _ _ => (2 ^ 255, 2 ^ 255), fun _ _ _ => rfl⟩

/-- A kawpow block that claims a small mix hash. -/
def unminedBlock : CBlock :=
  let coinbase : CTransaction :=
    ⟨1, 1777836782, [⟨⟨0, 0xffffffff⟩, [1, 1], 0⟩], [⟨0, Color.sis.toInt32, [op1]⟩], 0, [], 0⟩
  let block : CBlock := ⟨7, 0, 0, 1777836782, 0x1d00ffff, 0, 601, 0, 1, [coinbase], []⟩
  { block with hashMerkleRoot := block.buildMerkleTree mixCrypto }

/-- **A block is accepted without its work.**  Its mix hash is not the one `KAWPOWHash` computes,
and the final hash that `KAWPOWHash` computes is above the target. -/
theorem unminedBlock_accepted :
    unminedBlock.isKawpowBlock = true ∧
      checkBlock mixCrypto ⟨false, 1777836782⟩ .empty unminedBlock true true true = .ok () ∧
      ¬ unminedBlock.MixRight mixProgpow ∧
      (((unminedBlock.kawpowHash mixProgpow).2).toNat : Int) > setCompact unminedBlock.nBits := by
  refine ⟨by decide, by decide +kernel, ?_, by decide +kernel⟩
  rw [CBlock.mixRight_iff]
  decide +kernel

/-- Functions that lead no other mix hash than 1 to a number within a target. -/
def pinnedCrypto : Crypto :=
  { Crypto.sample [] with
    progpowNoVerify := fun _ _ mixHash _ => if mixHash = 1 then 0 else 2 ^ 255 }

/-- And compute it. -/
def pinnedProgpow : Progpow pinnedCrypto := ⟨fun _ _ _ => (1, 0), fun _ _ _ => rfl⟩

/-- With them the block has been mined, and nobody can forge it; but a staker can sign whatever mix
hash he likes. -/
theorem mixHash_checked_iff_mined :
    (∀ mix sig, checkBlock pinnedCrypto ⟨false, 1777836782⟩ .empty (unminedBlock.claiming mix sig)
      true true true = .ok () → (unminedBlock.claiming mix sig).MixRight pinnedProgpow) ∧
    ∀ P : Progpow (Crypto.sample stakerSigned),
      ¬ ∀ mix sig, checkBlock (Crypto.sample stakerSigned) ⟨false, 1777836782⟩
        (.single (Crypto.sample stakerSigned) stakedTx) (stakedBlock.claiming mix sig)
        true true true = .ok () → (stakedBlock.claiming mix sig).MixRight P := by
  constructor
  · refine (mixHash_checked_iff pinnedProgpow (by decide) (by decide +kernel)).mpr
      ⟨fun _ => by decide +kernel, fun hpos => ?_, ?_⟩
    · have hpow : unminedBlock.isProofOfStake = false := by decide +kernel
      rw [hpow] at hpos
      cases hpos
    · have hone : ∀ mix, PassesAs pinnedCrypto .empty unminedBlock mix → mix = 1 := by
        rintro mix hmix
        by_contra hother
        have hmeets := hmix.2
        unfold pinnedCrypto at hmeets
        dsimp only at hmeets
        rw [if_neg hother] at hmeets
        exact absurd hmeets (by decide +kernel)
      intro mix mix' hmix hmix'
      rw [hone mix hmix, hone mix' hmix']
  · intro P hall
    have hpinned := (mixHash_checked_iff P (by decide) (by decide +kernel)).mp hall
    have hboth := hpinned.one 1 2 ⟨[0x30], by decide +kernel⟩ ⟨[0x30], by decide +kernel⟩
    exact absurd hboth (by decide)

end Breakout
