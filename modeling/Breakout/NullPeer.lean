/-
# Blocks without a peer

`ProcessBlock` gets blocks from peers; and from the miner, the RPC commands and the bootstrap file,
with a null pointer in the place of a peer.  Where it scores the sender of a bad block, and where it
asks the sender of an orphan for more, it looks at the pointer first.  It does not where the
encoding of the block's signature is bad.

So the null pointer is used if and only if a block without a peer passes all checks before that one,
and its signature is not canonical (`nullPeer_iff`): for a proof-of-work block, if it has one.
-/
import Breakout.Lib.Metered
import Breakout.Algorithm

namespace Breakout

open Lib

variable (K : Crypto) {DB E : Type}

/-! ## 1. `ProcessBlock`, with the uses of a null peer counted -/

/-- A call on `pfrom`, or with it.  A null pointer stops the node. -/
def usePeer (pfrom : Bool) : Metered Unit := if pfrom then pure () else ⟨1, .error (.oob 0)⟩

/-- `if (pfrom) { pfrom->Misbehaving(100); }` -/
def scorePeer (pfrom : Bool) : Metered Unit := if pfrom then usePeer pfrom else pure ()

/-- A check that scores the sender when it fails. -/
def refuseScored (pfrom : Bool) (c : Prop) [Decidable c] (msg : String) : Metered Unit :=
  if c then do
    scorePeer pfrom
    Metered.lift (.error (.reject (peerScore pfrom) msg))
  else pure ()

/-- `checkSignatureEncodingOf` -/
def checkSignatureEncodingC (pfrom : Bool) (block : CBlock) : Metered Unit :=
  if isCanonicalBlockSignature block then pure ()
  else do
    usePeer pfrom
    Metered.lift (.error (.reject 100 "ProcessBlock(): bad block signature encoding"))

/-- `arrivalChecks` -/
def arrivalChecksC (env : AcceptEnv DB E) (r : Receiver DB E) (pfrom fAllowDuplicateStake : Bool)
    (block : CBlock) : Metered UInt256 := do
  let hash ← Metered.lift (block.getHash K)
  Metered.lift
    (refuse ((r.node.mapBlockIndex hash).isSome = true) 0 "ProcessBlock() : already have block")
  Metered.lift (refuse ((r.mapOrphanBlocks hash).isSome = true) 0
    "ProcessBlock() : already have block (orphan)")
  refuseScored pfrom (block.isProofOfStake = true ∧ block.nNonce ≠ 0)
    "ProcessBlock() : PoS block has non-zero nonce"
  Metered.lift (refuse (block.isProofOfStake = true ∧ block.getProofOfStake ∈ r.setStakeSeen ∧
    r.hasChild hash = false ∧ fAllowDuplicateStake = false) 0
    "ProcessBlock() : duplicate proof-of-stake")
  Metered.lift (checkBlock K env.clock (env.store r.node.txdb) block true true true)
  refuseScored pfrom (TooLittleProof env r.node block)
    (if block.isProofOfStake then "ProcessBlock() : block with too little proof-of-stake"
      else "ProcessBlock() : block with too little proof-of-work")
  checkSignatureEncodingC pfrom block
  return hash

/-- `shuntOff`: the sender is asked for the missing blocks, and past the initial download for the
one the orphan wants. -/
def shuntOffC (env : ProcessEnv DB E) (r : Receiver DB E) (pfrom : Bool) (hash : UInt256)
    (block : CBlock) : Metered Bool :=
  if pfrom = false then pure true
  else if block.isProofOfStake = true ∧ block.getProofOfStake ∈ r.setStakeSeenOrphan ∧
      r.hasChild hash = false then
    Metered.lift
      (.error (.reject 0 "ProcessBlock() : duplicate proof-of-stake for orphan block"))
  else do
    usePeer pfrom                                             -- PushGetBlocks
    if env.isInitialBlockDownload r.node = false then usePeer pfrom else pure ()  -- AskFor
    return true

/-- `processBlock` -/
def processBlockC (env : ProcessEnv DB E) (r : Receiver DB E) (pfrom fAllowDuplicateStake : Bool)
    (block : CBlock) : Metered Bool := do
  let hash ← arrivalChecksC K env.toAcceptEnv r pfrom fAllowDuplicateStake block
  if (r.node.mapBlockIndex block.hashPrevBlock).isSome = false then
    shuntOffC env r pfrom hash block
  else Metered.lift ((r.acceptBlock K env.toAcceptEnv block).1 >>= fun _ => .ok false)

/-! ## 2. It ends as it does uncounted -/

variable {K} {env : ProcessEnv DB E} {r : Receiver DB E} {pfrom fAllowDuplicateStake : Bool}
  {block : CBlock}

theorem result_refuseScored (c : Prop) [Decidable c] (msg : String) :
    (refuseScored pfrom c msg).result = refuse c (peerScore pfrom) msg := by
  unfold refuseScored refuse
  split
  · cases pfrom <;> rfl
  · rfl

theorem result_checkSignatureEncodingC :
    (checkSignatureEncodingC pfrom block).result = checkSignatureEncodingOf pfrom block := by
  unfold checkSignatureEncodingC checkSignatureEncodingOf
  split
  · rfl
  · cases pfrom <;> rfl

theorem result_arrivalChecksC (env : AcceptEnv DB E) :
    (arrivalChecksC K env r pfrom fAllowDuplicateStake block).result =
      arrivalChecks K env r pfrom fAllowDuplicateStake block := by
  simp only [arrivalChecksC, arrivalChecks, Metered.result_bind, Metered.result_lift,
    result_refuseScored, result_checkSignatureEncodingC]
  rfl

theorem result_shuntOffC (hash : UInt256) :
    (shuntOffC env r pfrom hash block).result = (r.shuntOff env pfrom hash block).1 := by
  unfold shuntOffC Receiver.shuntOff
  split
  · rfl
  · next hpeer =>
    split
    · rfl
    · obtain rfl : pfrom = true := Bool.not_eq_false _ ▸ hpeer
      rw [Metered.result_bind]
      split <;> rfl

theorem result_processBlockC :
    (processBlockC K env r pfrom fAllowDuplicateStake block).result =
      (processBlock K env r pfrom fAllowDuplicateStake block).1 := by
  rw [processBlockC, Metered.result_bind, result_arrivalChecksC]
  unfold processBlock
  cases arrivalChecks K env.toAcceptEnv r pfrom fAllowDuplicateStake block with
  | error e => rfl
  | ok hash =>
    change Metered.result (if _ then _ else _) = _
    dsimp only
    split
    · exact result_shuntOffC hash
    · rw [Metered.result_lift]
      rcases r.acceptBlock K env.toAcceptEnv block with ⟨e | u, r'⟩ <;> rfl

/-! ## 3. When a null peer is used -/

variable (K) in
/-- The block passes the checks that come before the one of its signature's encoding. -/
structure Vetted (env : AcceptEnv DB E) (r : Receiver DB E) (fAllowDuplicateStake : Bool)
    (block : CBlock) : Prop where
  new : ∃ hash, block.getHash K = .ok hash ∧ r.node.mapBlockIndex hash = none ∧
    r.mapOrphanBlocks hash = none ∧
    ¬ (block.isProofOfStake = true ∧ block.getProofOfStake ∈ r.setStakeSeen ∧
      r.hasChild hash = false ∧ fAllowDuplicateStake = false)
  nonce : ¬ (block.isProofOfStake = true ∧ block.nNonce ≠ 0)
  checked : checkBlock K env.clock (env.store r.node.txdb) block true true true = .ok ()
  proof : ¬ TooLittleProof env r.node block

theorem count_refuseScored (c : Prop) [Decidable c] (msg : String) :
    (refuseScored pfrom c msg).count = 0 := by
  unfold refuseScored
  split
  · cases pfrom <;> rfl
  · rfl

theorem count_checkSignatureEncodingC :
    (checkSignatureEncodingC pfrom block).count = 0 ↔
      pfrom = true ∨ isCanonicalBlockSignature block = true := by
  unfold checkSignatureEncodingC
  split
  · next hcanonical => exact ⟨fun _ => .inr hcanonical, fun _ => rfl⟩
  · next hcanonical =>
    cases pfrom with
    | false =>
      exact ⟨fun h => absurd h (by decide), fun h => absurd (h.resolve_left nofun) hcanonical⟩
    | true => exact ⟨fun _ => .inl rfl, fun _ => rfl⟩

theorem count_shuntOffC (hash : UInt256) : (shuntOffC env r pfrom hash block).count = 0 := by
  unfold shuntOffC
  split
  · rfl
  · next hpeer =>
    obtain rfl : pfrom = true := Bool.not_eq_false _ ▸ hpeer
    split
    · rfl
    · rw [Metered.count_bind_eq_zero]
      refine ⟨rfl, fun _ _ => ?_⟩
      split <;> rfl

theorem count_arrivalChecksC (env : AcceptEnv DB E) :
    (arrivalChecksC K env r pfrom fAllowDuplicateStake block).count = 0 ↔
      pfrom = true ∨ isCanonicalBlockSignature block = true ∨
        ¬ Vetted K env r fAllowDuplicateStake block := by
  simp only [arrivalChecksC, Metered.count_bind_eq_zero, Metered.count_lift, Metered.result_lift,
    count_refuseScored, result_refuseScored, count_checkSignatureEncodingC, Metered.count_pure,
    true_and, implies_true, and_true, refuse_eq_ok, forall_const]
  constructor
  · intro h
    by_cases hvetted : Vetted K env r fAllowDuplicateStake block
    · obtain ⟨hash, hhash, hindex, horphan, hstake⟩ := hvetted.new
      have hlast := h hash hhash (by simp [hindex]) (by simp [horphan]) hvetted.nonce hstake ()
        hvetted.checked hvetted.proof
      exact hlast.imp_right .inl
    · exact .inr (.inr hvetted)
  · intro h hash hhash hindex horphan hnonce hstake _ hchecked hproof
    rcases h with hpeer | hcanonical | hvetted
    · exact .inl hpeer
    · exact .inr hcanonical
    · refine absurd ⟨⟨hash, hhash, ?_, ?_, hstake⟩, hnonce, hchecked, hproof⟩ hvetted
      · simpa using hindex
      · simpa using horphan

/-- **When `ProcessBlock` uses a null peer.**  The count is of the routine itself.  It is zero if
and only if there is a peer, or the block's signature is canonical, or a check before that one
refuses the block. -/
theorem nullPeer_iff (env : ProcessEnv DB E) (r : Receiver DB E) (pfrom fAllowDuplicateStake : Bool)
    (block : CBlock) :
    (processBlockC K env r pfrom fAllowDuplicateStake block).result =
        (processBlock K env r pfrom fAllowDuplicateStake block).1 ∧
      ((processBlockC K env r pfrom fAllowDuplicateStake block).count = 0 ↔
        pfrom = true ∨ isCanonicalBlockSignature block = true ∨
          ¬ Vetted K env.toAcceptEnv r fAllowDuplicateStake block) := by
  refine ⟨result_processBlockC, ?_⟩
  rw [processBlockC, Metered.count_bind_eq_zero, count_arrivalChecksC]
  refine and_iff_left fun hash _ => ?_
  split
  · exact count_shuntOffC hash
  · rfl

/-- A block of the miner, with a signature that proof-of-work blocks do not have. -/
def signedEarlyBlock : CBlock := { earlyBlock 1 with vchBlockSig := [0x30] }

/-- **A null peer is used.**  The block is submitted here, and everything else about it is in order:
without the signature it is accepted. -/
theorem nullPeer_used :
    signedEarlyBlock.isProofOfStake = false ∧
      (processBlockC forkCrypto forkEnv forkReceiver false false signedEarlyBlock).count = 1 ∧
      (processBlock forkCrypto forkEnv forkReceiver false false (earlyBlock 1)).1 = .ok false :=
  ⟨by decide +kernel, by decide +kernel, by decide +kernel⟩

end Breakout
