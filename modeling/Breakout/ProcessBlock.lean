/-
# `ProcessBlock`

A block that arrives is checked before anything else is done with it, and then accepted, if its
parent is known, or held as an orphan.  An accepted block may be the parent of orphans, which are
accepted in turn; they have been checked when they arrived.

So a block gets into the index of a node on one of two ways, and on both it has passed the checks
made on arrival (`arrivalChecks`), and those of `AcceptBlock`, which may have been made later and in
another state of the node (`ProcessRun.admitted`).
-/
import Breakout.AcceptBlock

namespace Breakout

open Lib

variable (K : Crypto)

/-! ## 1. The receiver -/

def CBlock.getProofOfStake (block : CBlock) : COutPoint × UInt32 :=
  match block.isProofOfStake, block.vtx with
  | true, _ :: ⟨_, nTime, txin :: _, _, _, _, _⟩ :: _ => (txin.prevout, nTime)
  | _, _ => (⟨0, 0xffffffff⟩, 0)

structure COrphanBlock where
  hashBlock : UInt256
  hashPrev : UInt256
  stake : COutPoint × UInt32
  vchBlock : CBlock
deriving DecidableEq

/-- The block as it is read back from `vchBlock`.  Its transactions came off the wire and read back
as they are; so does its header, unless the block was made here. -/
def CBlock.reread (block : CBlock) : CBlock :=
  { block.headerRead with vtx := block.vtx, vchBlockSig := block.vchBlockSig }

/-- A node with the blocks it holds: those that wait for a parent, and the stakes it has seen in the
index and among the held. -/
structure Receiver (DB E : Type) where
  node : Node DB E
  mapOrphanBlocks : UInt256 → Option COrphanBlock
  mapOrphanBlocksByPrev : List COrphanBlock
  setStakeSeen : Finset (COutPoint × UInt32)
  setStakeSeenOrphan : Finset (COutPoint × UInt32)

variable {DB E : Type}

/-- What the node reads while it processes a block.  `rand` is what `insecure_rand` returns. -/
structure ProcessEnv (DB E : Type) extends AcceptEnv DB E where
  maxOrphanBlocks : Nat
  rand : Nat

namespace Receiver

/-- `mapOrphanBlocksByPrev.count(hash)` is not zero. -/
def hasChild (r : Receiver DB E) (hash : UInt256) : Bool :=
  r.mapOrphanBlocksByPrev.any fun o => o.hashPrev == hash

def acceptBlock (env : AcceptEnv DB E) (r : Receiver DB E) (block : CBlock) :
    Run Unit × Receiver DB E :=
  match acceptChecks K env r.node block with
  | .error e => (.error e, r)
  | .ok b =>
    if env.modifierOk (r.node.newPtr b) = false then
      (.error (.reject 0 "AcceptBlock() : AddToBlockIndex failed"), r)
    else
      let added := r.node.addToBlockIndex env.ops env.hashGenesisBlock
        (env.isInitialBlockDownload r.node) b
      (refuse (added.1 = false) 0 "AcceptBlock() : AddToBlockIndex failed",
        { r with
          node := added.2
          setStakeSeen :=
            if block.isProofOfStake then insert block.getProofOfStake r.setStakeSeen
            else r.setStakeSeen })

/-! ## 2. Orphans -/

/-- "As long as this block has other orphans depending on it, move to one of those successors."
Hashes do not go round in circles, so that there are no more steps than orphans. -/
def leafOf (held : List COrphanBlock) : Nat → COrphanBlock → COrphanBlock
  | 0, o => o
  | fuel + 1, o =>
    match held.find? fun o' => o'.hashPrev == o.hashBlock with
    | none => o
    | some o' => leafOf held fuel o'

def pruneOrphanBlocks (env : ProcessEnv DB E) (r : Receiver DB E) : Receiver DB E :=
  let held := r.mapOrphanBlocksByPrev
  if held.length ≤ env.maxOrphanBlocks then r
  else
    match held[env.rand % held.length]? with
    | none => r
    | some o =>
      let leaf := leafOf held held.length o
      { r with
        setStakeSeenOrphan := r.setStakeSeenOrphan.erase leaf.stake
        mapOrphanBlocksByPrev := held.erase leaf
        mapOrphanBlocks := Function.update r.mapOrphanBlocks leaf.hashBlock none }

/-- The block is kept until its parent arrives. -/
def hold (r : Receiver DB E) (hash : UInt256) (block : CBlock) : Receiver DB E :=
  let o : COrphanBlock := ⟨hash, block.hashPrevBlock, block.getProofOfStake, block⟩
  { r with
    mapOrphanBlocks := Function.update r.mapOrphanBlocks hash (some o)
    mapOrphanBlocksByPrev := r.mapOrphanBlocksByPrev ++ [o]
    setStakeSeenOrphan :=
      if block.isProofOfStake then insert block.getProofOfStake r.setStakeSeenOrphan
      else r.setStakeSeenOrphan }

/-- "If don't already have its previous block, shunt it off to holding area until we get it".
A block without a peer to ask for its parents is dropped. -/
def shuntOff (env : ProcessEnv DB E) (r : Receiver DB E) (pfrom : Bool) (hash : UInt256)
    (block : CBlock) : Run Bool × Receiver DB E :=
  if pfrom = false then (.ok true, r)
  else if block.isProofOfStake = true ∧ block.getProofOfStake ∈ r.setStakeSeenOrphan ∧
      r.hasChild hash = false then
    (.error (.reject 0 "ProcessBlock() : duplicate proof-of-stake for orphan block"), r)
  else (.ok true, (r.pruneOrphanBlocks env).hold hash block)

/-- An orphan that had its turn. -/
def release (r : Receiver DB E) (o : COrphanBlock) : Receiver DB E :=
  { r with
    mapOrphanBlocks := Function.update r.mapOrphanBlocks o.hashBlock none
    setStakeSeenOrphan := r.setStakeSeenOrphan.erase o.vchBlock.reread.getProofOfStake }

/-- `mapOrphanBlocksByPrev.erase(hashPrev)` -/
def forgetPrev (r : Receiver DB E) (hashPrev : UInt256) : Receiver DB E :=
  { r with
    mapOrphanBlocksByPrev := r.mapOrphanBlocksByPrev.filter fun o => o.hashPrev != hashPrev }

/-- The orphans on top of one block, and the hashes of those that were accepted. -/
def acceptOrphans (env : AcceptEnv DB E) :
    List COrphanBlock → Receiver DB E → List UInt256 × Receiver DB E
  | [], r => ([], r)
  | o :: os, r =>
    let accepted := r.acceptBlock K env o.vchBlock.reread
    let rest := acceptOrphans env os (accepted.2.release o)
    (if accepted.1.accepts then o.hashBlock :: rest.1 else rest.1, rest.2)

/-- `vWorkQueue`: every round past the first belongs to an orphan that is no longer held. -/
def workQueue (env : AcceptEnv DB E) : Nat → List UInt256 → Receiver DB E → Receiver DB E
  | 0, _, r => r
  | _ + 1, [], r => r
  | fuel + 1, hashPrev :: queue, r =>
    let round := acceptOrphans K env
      (r.mapOrphanBlocksByPrev.filter fun o => o.hashPrev == hashPrev) r
    workQueue env fuel (queue ++ round.1) (round.2.forgetPrev hashPrev)

end Receiver

/-! ## 3. The checks on arrival -/

/-- `IsDERSignature` without a hash type. -/
def isDERSignatureOnly (vchSig : Valtype) : Bool :=
  let byte := fun i => vchSig.getD i 0
  let nLenR := (byte 3).toNat
  let nLenS := (byte (5 + nLenR)).toNat
  !decide (vchSig.length < 9) && !decide (vchSig.length > 73) && byte 0 == 0x30 &&
    decide ((byte 1).toNat = vchSig.length - 2) && !decide (5 + nLenR ≥ vchSig.length) &&
    decide (nLenR + nLenS + 6 = vchSig.length) &&
    derIntegerOk (byte 2) nLenR (byte 4) (byte 5) &&
    derIntegerOk (byte (4 + nLenR)) nLenS (byte (6 + nLenR)) (byte (7 + nLenR))

def isCanonicalBlockSignature (block : CBlock) : Bool :=
  if block.isProofOfStake then isDERSignatureOnly block.vchBlockSig
  else block.vchBlockSig.isEmpty

def getLastCheckpoint (hashGenesisBlock : UInt256) (n : Node DB E) : Option BlockPtr :=
  (n.mapBlockIndex hashGenesisBlock).or n.pindexGenesisBlock

/-- The target a block must not exceed that does not build on the best block. -/
def requiredBits (fTestNet : Bool) (pcheckpoint : BlockPtr) (block : CBlock) : UInt32 :=
  let nBase := (pcheckpoint.getLastBlockIndex block.isProofOfStake).top.block.nBits
  let deltaTime := block.nTime - pcheckpoint.top.block.nTime
  if block.isProofOfStake then computeMinStake fTestNet nBase deltaTime
  else computeMinWork fTestNet nBase deltaTime block.nTime

/-- "Extra checks to prevent "fill up memory by spamming with bogus blocks"" -/
def TooLittleProof (env : AcceptEnv DB E) (n : Node DB E) (block : CBlock) : Prop :=
  ∃ pcheckpoint ∈ getLastCheckpoint env.hashGenesisBlock n,
    block.hashPrevBlock ≠ n.hashBestChain ∧
      setCompact block.nBits > setCompact (requiredBits env.clock.fTestNet pcheckpoint block)

instance (env : AcceptEnv DB E) (n : Node DB E) (block : CBlock) :
    Decidable (TooLittleProof env n block) := inferInstanceAs (Decidable (∃ _, _))

/-- What is done to a peer, if there is one. -/
def peerScore (pfrom : Bool) : Nat := if pfrom then 100 else 0

/-- The last check: the peer's score is raised whether there is a peer or not. -/
def checkSignatureEncodingOf (pfrom : Bool) (block : CBlock) : Run Unit :=
  if isCanonicalBlockSignature block then .ok ()
  else if pfrom then .error (.reject 100 "ProcessBlock(): bad block signature encoding")
  else .error (.oob 0)

/-- The checks of `ProcessBlock` up to the place where it looks for the parent; and the block's
hash. -/
def arrivalChecks (env : AcceptEnv DB E) (r : Receiver DB E) (pfrom fAllowDuplicateStake : Bool)
    (block : CBlock) : Run UInt256 := do
  let hash ← block.getHash K
  refuse ((r.node.mapBlockIndex hash).isSome = true) 0 "ProcessBlock() : already have block"
  refuse ((r.mapOrphanBlocks hash).isSome = true) 0
    "ProcessBlock() : already have block (orphan)"
  -- "enforce 0 nonce for proof-of-stake to prevent degradation to PoW"
  refuse (block.isProofOfStake = true ∧ block.nNonce ≠ 0) (peerScore pfrom)
    "ProcessBlock() : PoS block has non-zero nonce"
  refuse (block.isProofOfStake = true ∧ block.getProofOfStake ∈ r.setStakeSeen ∧
    r.hasChild hash = false ∧ fAllowDuplicateStake = false) 0
    "ProcessBlock() : duplicate proof-of-stake"
  checkBlock K env.clock (env.store r.node.txdb) block true true true
  refuse (TooLittleProof env r.node block) (peerScore pfrom)
    (if block.isProofOfStake then "ProcessBlock() : block with too little proof-of-stake"
      else "ProcessBlock() : block with too little proof-of-work")
  checkSignatureEncodingOf pfrom block
  return hash

/-! ## 4. `ProcessBlock` -/

/-- `ProcessBlock`: what it returns with `fOrphan`, and the receiver it leaves. -/
def processBlock (env : ProcessEnv DB E) (r : Receiver DB E) (pfrom fAllowDuplicateStake : Bool)
    (block : CBlock) : Run Bool × Receiver DB E :=
  match arrivalChecks K env.toAcceptEnv r pfrom fAllowDuplicateStake block with
  | .error e => (.error e, r)
  | .ok hash =>
    if (r.node.mapBlockIndex block.hashPrevBlock).isSome = false then
      r.shuntOff env pfrom hash block
    else
      match r.acceptBlock K env.toAcceptEnv block with
      | (.error e, r') => (.error e, r')
      | (.ok (), r') =>
        (.ok false, r'.workQueue K env.toAcceptEnv (r'.mapOrphanBlocksByPrev.length + 1) [hash])

/-- **Runs of `ProcessBlock`**, on any blocks in any order.  What a peer sends was read off the
wire. -/
inductive ProcessRun : Receiver DB E → Receiver DB E → Prop
  | nil (r : Receiver DB E) : ProcessRun r r
  | step {r r' : Receiver DB E} (env : ProcessEnv DB E) (pfrom fAllowDuplicateStake : Bool)
      (block : CBlock) : ProcessRun r r' → (pfrom = true → block.reread = block) →
      ProcessRun r (processBlock K env r' pfrom fAllowDuplicateStake block).2

/-! ## 5. What gets into the index -/

namespace Node

variable (ops : BlockOps DB E) (n : Node DB E)

/-- No step of a call of `SetBestChain` touches the index of blocks. -/
theorem setBestChainInner_mapBlockIndex (p : BlockPtr) :
    (setBestChainInner ops n p).2.mapBlockIndex = n.mapBlockIndex := by
  unfold setBestChainInner
  split
  · rfl
  · split
    · rfl
    · split <;> rfl

theorem connectSecondary_mapBlockIndex (l : List BlockPtr) (n : Node DB E) :
    (connectSecondary ops l n).2.mapBlockIndex = n.mapBlockIndex := by
  induction l generalizing n with
  | nil => rfl
  | cons p l ih =>
    have hinner := setBestChainInner_mapBlockIndex ops n p
    rw [connectSecondary]
    split
    · next hstep => rwa [hstep] at hinner
    · next hstep =>
      rw [hstep] at hinner
      rw [ih, hinner]

theorem reorganize_mapBlockIndex (p : BlockPtr) :
    (reorganize ops n p).2.mapBlockIndex = n.mapBlockIndex := by
  unfold reorganize
  split
  · rfl
  · next best _ =>
    split
    · rfl
    · next f _ =>
      split
      · rfl
      · next db e _ =>
        have hcut := (foldl_framed unlink_framed (best.above f) (n.commit p db e)).tree.1
        dsimp only
        split
        · exact hcut
        · exact (foldl_framed link_framed (p.above f).reverse _).tree.1.trans hcut

theorem setBestChain_mapBlockIndex (hashGenesisBlock : UInt256) (f : Bool) (p : BlockPtr) :
    (setBestChain ops hashGenesisBlock f n p).2.mapBlockIndex = n.mapBlockIndex := by
  unfold setBestChain
  split
  · rfl
  · split
    · have hinner := setBestChainInner_mapBlockIndex ops n p
      split
      · next hstep => rwa [hstep] at hinner
      · next hstep => rwa [hstep] at hinner
    · split
      · rfl
      · next best _ =>
        have hreorg := reorganize_mapBlockIndex ops n (postpone best.nChainTrust p).1
        dsimp only
        split
        · next hstep => rwa [hstep] at hreorg
        · next hstep =>
          rw [hstep] at hreorg
          exact (connectSecondary_mapBlockIndex ops _ _).trans hreorg

/-- `AddToBlockIndex` adds its block to the index, whatever becomes of the best chain. -/
theorem addToBlockIndex_mapBlockIndex (hashGenesisBlock : UInt256) (f : Bool) {b : IndexedBlock}
    (hnew : n.mapBlockIndex b.hash = none) :
    (n.addToBlockIndex ops hashGenesisBlock f b).2.mapBlockIndex =
      Function.update n.mapBlockIndex b.hash (some (n.newPtr b)) := by
  unfold addToBlockIndex
  rw [if_neg (by simp [hnew])]
  split
  · exact setBestChain_mapBlockIndex ops _ _ _ _
  · rfl

/-- Every block is indexed under its hash. -/
def HashesOk (n : Node DB E) : Prop := ∀ h p, n.mapBlockIndex h = some p → p.hash = h

end Node

/-- What a block has passed: the checks on arrival in one state of a node and those of `AcceptBlock`
in another, which may be the same. -/
structure Passage (DB E : Type) where
  arrivalEnv : AcceptEnv DB E
  receiver : Receiver DB E
  pfrom : Bool
  fAllowDuplicateStake : Bool
  acceptEnv : AcceptEnv DB E
  node : Node DB E

/-- The block passed the checks on arrival. -/
def Passage.Arrived (w : Passage DB E) (block : CBlock) : Prop :=
  ∃ hash, arrivalChecks K w.arrivalEnv w.receiver w.pfrom w.fAllowDuplicateStake block = .ok hash

/-- The block passed both, and is indexed as `b`. -/
def Passage.Passed (w : Passage DB E) (b : IndexedBlock) : Prop :=
  w.Arrived K b.block ∧ acceptChecks K w.acceptEnv w.node b.block = .ok b

/-- An entry of the index that was made for a block that passed. -/
def Admitted (DB E : Type) (h : UInt256) (p : BlockPtr) : Prop :=
  ∃ (w : Passage DB E) (b : IndexedBlock), w.Passed K b ∧ w.node.HashesOk ∧ w.node.newPtr b = p ∧
    b.hash = h

/-- A held block: it reads back as it was, and has passed the checks on arrival. -/
def HeldOk (DB E : Type) (o : COrphanBlock) : Prop :=
  o.vchBlock.reread = o.vchBlock ∧ ∃ w : Passage DB E, w.Arrived K o.vchBlock

/-- What holds in every state of a run from `r₀`. -/
structure Sound (r₀ r : Receiver DB E) : Prop where
  hashes : r.node.HashesOk
  indexed : ∀ h p, r.node.mapBlockIndex h = some p →
    r₀.node.mapBlockIndex h = some p ∨ Admitted K DB E h p
  held : ∀ o ∈ r.mapOrphanBlocksByPrev, HeldOk K DB E o

namespace Sound

variable {K} {r₀ r : Receiver DB E} {block : CBlock}

/-- Changes to the held blocks that add none. -/
theorem of_held (h : Sound K r₀ r) {r' : Receiver DB E} (hnode : r'.node = r.node)
    (hheld : ∀ o ∈ r'.mapOrphanBlocksByPrev, o ∈ r.mapOrphanBlocksByPrev) : Sound K r₀ r' :=
  ⟨hnode ▸ h.hashes, hnode ▸ h.indexed, fun o ho => h.held o (hheld o ho)⟩

theorem acceptBlock (h : Sound K r₀ r) (env : AcceptEnv DB E)
    (harrived : ∃ w : Passage DB E, w.Arrived K block) :
    Sound K r₀ (r.acceptBlock K env block).2 := by
  unfold Receiver.acceptBlock
  split
  · exact h
  · next b hb =>
    split
    · exact h
    · obtain ⟨-, hblock, hnew, -⟩ := acceptChecks_spec hb
      obtain ⟨q, hprev, hptr⟩ := newPtr_of_acceptChecks hb
      obtain ⟨w, hw⟩ := harrived
      have hmap := Node.addToBlockIndex_mapBlockIndex env.ops r.node env.hashGenesisBlock
        (env.isInitialBlockDownload r.node) hnew
      have hcases : ∀ k p, Function.update r.node.mapBlockIndex b.hash (some (r.node.newPtr b)) k =
          some p → (k = b.hash ∧ p = r.node.newPtr b) ∨ r.node.mapBlockIndex k = some p := by
        intro k p hp
        rw [Function.update_apply] at hp
        split at hp
        · next hk => exact .inl ⟨hk, (Option.some_inj.mp hp).symm⟩
        · exact .inr hp
      refine ⟨fun k p hp => ?_, fun k p hp => ?_, h.held⟩
      · dsimp only at hp
        rw [hmap] at hp
        rcases hcases k p hp with ⟨rfl, rfl⟩ | hold
        · rw [hptr]
          rfl
        · exact h.hashes k p hold
      · dsimp only at hp
        rw [hmap] at hp
        rcases hcases k p hp with ⟨rfl, rfl⟩ | hold
        · refine .inr ⟨{ w with acceptEnv := env, node := r.node }, b, ⟨?_, ?_⟩, h.hashes, rfl, rfl⟩
          · rw [hblock]
            exact hw
          · rw [hblock]
            exact hb
        · exact h.indexed k p hold

theorem acceptOrphans (env : AcceptEnv DB E) :
    ∀ {os : List COrphanBlock} {r : Receiver DB E}, Sound K r₀ r → (∀ o ∈ os, HeldOk K DB E o) →
      Sound K r₀ (r.acceptOrphans K env os).2
  | [], _, h, _ => h
  | o :: os, r, h, hos => by
    obtain ⟨hread, harrived⟩ := hos o List.mem_cons_self
    have hstep : Sound K r₀ (r.acceptBlock K env o.vchBlock.reread).2 :=
      h.acceptBlock env (hread.symm ▸ harrived)
    have hreleased : Sound K r₀ ((r.acceptBlock K env o.vchBlock.reread).2.release o) :=
      hstep.of_held rfl fun _ ho => ho
    exact hreleased.acceptOrphans env fun o' ho' => hos o' (List.mem_cons_of_mem _ ho')

theorem workQueue (env : AcceptEnv DB E) :
    ∀ {fuel : Nat} {queue : List UInt256} {r : Receiver DB E}, Sound K r₀ r →
      Sound K r₀ (r.workQueue K env fuel queue)
  | 0, _, _, h => h
  | _ + 1, [], _, h => h
  | fuel + 1, hashPrev :: queue, r, h => by
    have hheld : ∀ o ∈ r.mapOrphanBlocksByPrev.filter fun o => o.hashPrev == hashPrev,
        HeldOk K DB E o := fun o ho => h.held o (List.mem_filter.mp ho).1
    have hround := h.acceptOrphans env hheld
    have hrest : Sound K r₀ ((r.acceptOrphans K env
        (r.mapOrphanBlocksByPrev.filter fun o => o.hashPrev == hashPrev)).2.forgetPrev hashPrev) :=
      hround.of_held rfl fun o ho => (List.mem_filter.mp ho).1
    exact hrest.workQueue env

theorem pruneOrphanBlocks (h : Sound K r₀ r) (env : ProcessEnv DB E) :
    Sound K r₀ (r.pruneOrphanBlocks env) := by
  unfold Receiver.pruneOrphanBlocks
  dsimp only
  split
  · exact h
  · split
    · exact h
    · exact h.of_held rfl fun _ ho => List.mem_of_mem_erase ho

theorem shuntOff (h : Sound K r₀ r) (env : ProcessEnv DB E) {pfrom : Bool} {hash : UInt256}
    (hwire : pfrom = true → block.reread = block) (harrived : ∃ w : Passage DB E, w.Arrived K block) :
    Sound K r₀ (r.shuntOff env pfrom hash block).2 := by
  unfold Receiver.shuntOff
  split
  · exact h
  · next hpfrom =>
    split
    · exact h
    · have hpruned := h.pruneOrphanBlocks env
      refine ⟨hpruned.hashes, hpruned.indexed, fun o ho => ?_⟩
      rcases List.mem_append.mp ho with ho | ho
      · exact hpruned.held o ho
      · rw [List.mem_singleton.mp ho]
        exact ⟨hwire (by simpa using hpfrom), harrived⟩

theorem processBlock (h : Sound K r₀ r) (env : ProcessEnv DB E) {pfrom fAllow : Bool}
    (hwire : pfrom = true → block.reread = block) :
    Sound K r₀ (processBlock K env r pfrom fAllow block).2 := by
  unfold Breakout.processBlock
  split
  · exact h
  · next hash hok =>
    have harrived : ∃ w : Passage DB E, w.Arrived K block :=
      ⟨⟨env.toAcceptEnv, r, pfrom, fAllow, env.toAcceptEnv, r.node⟩, hash, hok⟩
    split
    · exact h.shuntOff env hwire harrived
    · have haccepted := h.acceptBlock env.toAcceptEnv harrived
      split
      · next hstep =>
        rw [hstep] at haccepted
        exact haccepted
      · next hstep =>
        rw [hstep] at haccepted
        exact haccepted.workQueue env.toAcceptEnv

end Sound

variable {K} {r r' : Receiver DB E}

/-- **How a block gets into the index**: in every run from a node that holds no orphans, an entry
that is new was made for a block that passed the checks on arrival and those of `AcceptBlock`. -/
theorem ProcessRun.sound (run : ProcessRun K r r') (hhashes : r.node.HashesOk)
    (hnone : r.mapOrphanBlocksByPrev = []) : Sound K r r' := by
  induction run with
  | nil =>
    refine ⟨hhashes, fun h p hp => .inl hp, fun o ho => ?_⟩
    rw [hnone] at ho
    cases ho
  | step env pfrom fAllow block _ hwire ih => exact ih.processBlock env hwire

theorem ProcessRun.admitted (run : ProcessRun K r r') (hhashes : r.node.HashesOk)
    (hnone : r.mapOrphanBlocksByPrev = []) {h : UInt256} {p : BlockPtr}
    (hnew : r.node.mapBlockIndex h = none) (hp : r'.node.mapBlockIndex h = some p) :
    Admitted K DB E h p := by
  rcases (run.sound hhashes hnone).indexed h p hp with hold | hadm
  · rw [hnew] at hold
    cases hold
  · exact hadm

/-- Every block that a run indexes passed. -/
theorem ProcessRun.passed (run : ProcessRun K r r') (hhashes : r.node.HashesOk)
    (hnone : r.mapOrphanBlocksByPrev = []) {h : UInt256} {p : BlockPtr}
    (hnew : r.node.mapBlockIndex h = none) (hp : r'.node.mapBlockIndex h = some p) :
    ∃ w : Passage DB E, w.Passed K p.top := by
  obtain ⟨w, b, hpassed, -, rfl, -⟩ := run.admitted hhashes hnone hnew hp
  obtain ⟨q, -, hptr⟩ := newPtr_of_acceptChecks hpassed.2
  rw [hptr]
  exact ⟨w, hpassed⟩

end Breakout
