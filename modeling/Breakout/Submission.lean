/-
# A kawpow solution that is submitted

`pprpcsb` takes the text of a header hash, the text of a mix hash and a nonce.  It finds the template,
has `ValidateKawpowSubmission` check the solution from the two texts, and puts the solution into the
template.  `CheckKawpowProofOfWork` then checks the block from the two numbers.

Both paths ask the hash library, and compare what it returns with the same target.  But the bytes of a
text come in the other order.  So whatever the hash function is, the paths agree if and only if both
hashes are the same bytes in either order (`submission_iff`).
-/
import Breakout.Kernel
import Breakout.Templates

namespace Breakout

open Lib

/-- `progpow::hash_no_verify` -/
abbrev HashNoVerify : Type := Nat → Hash256 → Hash256 → UInt64 → Hash256

/-- The functions with another `hash_no_verify`, as `KAWPOWHash_OnlyMix` calls it. -/
def Crypto.withProgpow (K : Crypto) (F : HashNoVerify) : Crypto :=
  { K with
    progpowNoVerify := fun nHeight hashHeader hashMix nNonce64 =>
      (F nHeight (hash256 hashHeader) (hash256 hashMix) nNonce64).toUInt256 }

def validateKawpowSubmission (F : HashNoVerify) (headerHashHex mixHashHex : List Char)
    (nonce64 : UInt64) (height : Nat) (hashTarget : UInt256) : Bool :=
  let blockHash := F height (textHash256 headerHashHex) (textHash256 mixHashHex) nonce64
  if blockHash.toUInt256 > hashTarget then false else true

/-- The template with the solution. -/
def CBlock.solved (nonce : UInt64) (mixHash : List Char) (block : CBlock) : CBlock :=
  { block with nNonce64 := nonce, mixHash := uint256S mixHash }

/-- What becomes of a submission: "Block template not found", "invalid-solution", or the block goes to
`ProcessBlock`. -/
inductive Submission where
  | notFound
  | invalidSolution
  | processed (block : CBlock)
deriving DecidableEq

/-- `pprpcsb`, from the parsed nonce on. -/
def Templates.pprpcsb (s : Templates) (F : HashNoVerify) (headerHash mixHash : List Char)
    (nonce : UInt64) : Submission :=
  match s.getKawpowBlockTemplate headerHash with
  | none => .notFound
  | some pblock =>
    let hashTarget := getuint256 (setCompact pblock.nBits)
    if validateKawpowSubmission F headerHash mixHash nonce pblock.nHeight.toNat hashTarget = false then
      .invalidSolution
    else .processed (pblock.solved nonce mixHash)

/-- The target test of `CheckKawpowProofOfWork`. -/
def CBlock.MeetsTarget (K : Crypto) (block : CBlock) : Prop :=
  ¬ block.kawpowHashOnlyMix K > getuint256 (setCompact block.nBits)

instance (K : Crypto) (block : CBlock) : Decidable (block.MeetsTarget K) :=
  inferInstanceAs (Decidable (¬ _))

/-- The same bytes in either order. -/
def Symmetric (x : UInt256) : Prop := (serUInt256 x).reverse = serUInt256 x

variable {K : Crypto} {F : HashNoVerify} {s : Templates} {block : CBlock}
  {headerHash mixHash : List Char} {nonce : UInt64}

/-! ## 1. The target -/

/-- A compact number of more than three bytes ends with a zero byte. -/
theorem setCompact_ne (nCompact : UInt32) : (setCompact nCompact).natAbs % 2 ^ 256 ≠ 2 ^ 256 - 1 := by
  have habs : ∀ m : Nat, ∀ p : Prop, [Decidable p] →
      (if p then -(m : Int) else (m : Int)).natAbs = m := by
    intro m p _
    split_ifs
    · rw [Int.natAbs_neg, Int.natAbs_natCast]
    · rw [Int.natAbs_natCast]
  unfold setCompact
  dsimp only
  rw [habs]
  have hmantissa : nCompact.toNat % 2 ^ 23 < 2 ^ 23 := Nat.mod_lt _ (by norm_num)
  split_ifs with hsize
  · have hle : nCompact.toNat % 2 ^ 23 / 256 ^ (3 - nCompact.toNat / 2 ^ 24) < 2 ^ 23 :=
      (Nat.div_le_self ..).trans_lt hmantissa
    generalize nCompact.toNat % 2 ^ 23 / 256 ^ (3 - nCompact.toNat / 2 ^ 24) = n at hle ⊢
    omega
  · obtain ⟨k, hk⟩ : ∃ k, nCompact.toNat / 2 ^ 24 - 3 = k + 1 :=
      ⟨nCompact.toNat / 2 ^ 24 - 4, by omega⟩
    rw [hk, pow_succ 256 k, ← mul_assoc]
    generalize nCompact.toNat % 2 ^ 23 * 256 ^ k = n
    omega

/-- There is always a hash above the target. -/
theorem getuint256_setCompact_lt (nCompact : UInt32) :
    getuint256 (setCompact nCompact) < BitVec.ofNat 256 (2 ^ 256 - 1) := by
  have hne := setCompact_ne nCompact
  have hlt : (setCompact nCompact).natAbs % 2 ^ 256 < 2 ^ 256 := Nat.mod_lt _ (by norm_num)
  rw [BitVec.lt_def, getuint256, BitVec.toNat_ofNat, BitVec.toNat_ofNat]
  omega

/-! ## 2. The two paths -/

/-- A submission goes on if the hash library, asked with the bytes in the other order, says so. -/
theorem pprpcsb_iff (hcached : s.getKawpowBlockTemplate headerHash = some block)
    (hheader : headerHash = block.headerText K) (hmix : LowerHex mixHash)
    (hlen : mixHash.length = 64) :
    s.pprpcsb F headerHash mixHash nonce = .processed (block.solved nonce mixHash) ↔
      ¬ (F block.nHeight.toNat (textHash256 (getHex (block.getKAWPOWHeaderHash K)))
        (textHash256 (getHex (uint256S mixHash))) nonce).toUInt256 >
          getuint256 (setCompact block.nBits) := by
  unfold Templates.pprpcsb validateKawpowSubmission
  rw [hcached, getHex_uint256S hmix hlen, hheader]
  dsimp only
  rw [CBlock.headerText]
  by_cases habove : (F block.nHeight.toNat (textHash256 (getHex (block.getKAWPOWHeaderHash K)))
      (textHash256 mixHash) nonce).toUInt256 > getuint256 (setCompact block.nBits)
  · rw [if_pos habove, if_pos rfl]
    exact iff_of_false nofun fun h => h habove
  · rw [if_neg habove, if_neg (by decide)]
    exact iff_of_true rfl habove

/-- The check of the block asks with the bytes as they are. -/
theorem meetsTarget_solved :
    (block.solved nonce mixHash).MeetsTarget (K.withProgpow F) ↔
      ¬ (F block.nHeight.toNat (hash256 (block.getKAWPOWHeaderHash K)) (hash256 (uint256S mixHash))
        nonce).toUInt256 > getuint256 (setCompact block.nBits) :=
  Iff.rfl

theorem textHash256_eq_iff (x : UInt256) : textHash256 (getHex x) = hash256 x ↔ Symmetric x := by
  rw [Hash256.ext_iff, textHash256_getHex]
  rfl

/-- **When a submission is judged as the block will be**: for every template in the cache under its
header hash, every mix hash of 64 digits and every nonce, `pprpcsb` goes on with exactly the solutions
that meet the target, whatever the hash function is, if and only if the header hash and the mix hash
are each the same bytes in either order. -/
theorem submission_iff (K : Crypto) (s : Templates) (block : CBlock) (headerHash mixHash : List Char)
    (nonce : UInt64) (hcached : s.getKawpowBlockTemplate headerHash = some block)
    (hheader : headerHash = block.headerText K) (hmix : LowerHex mixHash)
    (hlen : mixHash.length = 64) :
    (∀ F : HashNoVerify,
      s.pprpcsb F headerHash mixHash nonce = .processed (block.solved nonce mixHash) ↔
        (block.solved nonce mixHash).MeetsTarget (K.withProgpow F)) ↔
      Symmetric (block.getKAWPOWHeaderHash K) ∧ Symmetric (uint256S mixHash) := by
  simp only [pprpcsb_iff hcached hheader hmix hlen, meetsTarget_solved]
  rw [← textHash256_eq_iff, ← textHash256_eq_iff]
  generalize textHash256 (getHex (block.getKAWPOWHeaderHash K)) = header',
    hash256 (block.getKAWPOWHeaderHash K) = header,
    textHash256 (getHex (uint256S mixHash)) = mix', hash256 (uint256S mixHash) = mix
  constructor
  · intro hagree
    by_contra hdiffer
    -- a hash function for which the solution is good with the bytes as they are, and only then
    have hboth := hagree fun _ a b _ =>
      if a = header ∧ b = mix then hash256 0 else hash256 (BitVec.ofNat 256 (2 ^ 256 - 1))
    rw [if_neg hdiffer, if_pos ⟨rfl, rfl⟩] at hboth
    have hzero : (hash256 0).toUInt256 = 0 := by decide
    have hones : (hash256 (BitVec.ofNat 256 (2 ^ 256 - 1))).toUInt256 =
        BitVec.ofNat 256 (2 ^ 256 - 1) := by decide
    rw [hzero, hones] at hboth
    exact hboth.mpr (by simp) (getuint256_setCompact_lt block.nBits)
  · rintro ⟨rfl, rfl⟩ F
    exact Iff.rfl

/-! ## 3. A solution that is refused, and one that is not -/

/-- One template is cached. -/
def oneTemplate : Templates :=
  .run forkCrypto ⟨7, 600⟩ [.createNewBlock ⟨7, 600⟩ (some Templates.emptyTemplate) false 1777836782]

/-- The template. -/
def cachedTemplate : CBlock := fillHeader forkCrypto ⟨7, 600⟩ false 1777836782 Templates.emptyTemplate

/-- A mix hash. -/
def someMixHash : List Char := List.replicate 62 '0' ++ ['5', 'a']

/-- The template is found, and two orders of the bytes are two hashes. -/
theorem submission_iff_template :
    (∀ F : HashNoVerify,
      oneTemplate.pprpcsb F (cachedTemplate.headerText forkCrypto) someMixHash 1 =
          .processed (cachedTemplate.solved 1 someMixHash) ↔
        (cachedTemplate.solved 1 someMixHash).MeetsTarget (forkCrypto.withProgpow F)) ↔
      Symmetric (cachedTemplate.getKAWPOWHeaderHash forkCrypto) ∧ Symmetric (uint256S someMixHash) :=
  submission_iff forkCrypto oneTemplate cachedTemplate (cachedTemplate.headerText forkCrypto)
    someMixHash 1 (by decide +kernel) rfl (by decide) (by decide)

/-- A hash function with one good input. -/
def oneGood (header mix : Hash256) : HashNoVerify := fun _ a b _ =>
  if a = header ∧ b = mix then hash256 0 else hash256 (BitVec.ofNat 256 (2 ^ 256 - 1))

/-- Good is the solution with the bytes as they are. -/
def copiedGood : HashNoVerify :=
  oneGood (hash256 (cachedTemplate.getKAWPOWHeaderHash forkCrypto)) (hash256 (uint256S someMixHash))

/-- Good is the solution with the bytes as the texts are read. -/
def readGood : HashNoVerify :=
  oneGood (textHash256 (cachedTemplate.headerText forkCrypto)) (textHash256 someMixHash)

/-- **Judged apart**: a solution that meets the target is "invalid-solution", and one that does not
goes on. -/
theorem judged_apart :
    ((cachedTemplate.solved 1 someMixHash).MeetsTarget (forkCrypto.withProgpow copiedGood) ∧
      oneTemplate.pprpcsb copiedGood (cachedTemplate.headerText forkCrypto) someMixHash 1 =
        .invalidSolution) ∧
    ¬ (cachedTemplate.solved 1 someMixHash).MeetsTarget (forkCrypto.withProgpow readGood) ∧
      oneTemplate.pprpcsb readGood (cachedTemplate.headerText forkCrypto) someMixHash 1 =
        .processed (cachedTemplate.solved 1 someMixHash) := by
  decide +kernel

end Breakout
