/-
# The three indices of orphan blocks

A block whose parent is not known is held in `mapOrphanBlocks` under its hash and in
`mapOrphanBlocksByPrev` under its parent's, and its proof of stake, if it has one, is in
`setStakeSeenOrphan`.  An orphan leaves when it has its turn on top of an accepted block, whatever
comes of that, or when it is pruned to make room.

The two maps always hold the same blocks, and what is pruned is a leaf of the forest the orphans
make.  The stakes are a set, but two orphans may have the same stake: a second one is let in if an
orphan already builds on it.  The first of the two that leaves takes the stake with it.
`orphanBlocks_iff` says that the three indices are in step in every state of a run exactly when that
never happens.

Hashes do not go round in circles: the blocks that arrive have ranks below those of the blocks on
top of them.
-/
import Breakout.Lib.History
import Breakout.Nonces

namespace Breakout

open Lib

variable (K : Crypto) {DB E : Type}

/-! ## 1. What holds of the indices -/

/-- `CBlock::IsProofOfStake` of the block that is held. -/
def COrphanBlock.isProofOfStake (o : COrphanBlock) : Bool := o.vchBlock.isProofOfStake

namespace Receiver

/-- The two maps hold the same blocks, each once. -/
structure SameOrphans (r : Receiver DB E) : Prop where
  same : ∀ hash o, r.mapOrphanBlocks hash = some o ↔
    o ∈ r.mapOrphanBlocksByPrev ∧ o.hashBlock = hash
  once : r.mapOrphanBlocksByPrev.Nodup

/-- The stakes that have been seen are those of the orphans with a proof of stake. -/
def StakesSeen (r : Receiver DB E) : Prop :=
  ∀ stake, stake ∈ r.setStakeSeenOrphan ↔
    ∃ o ∈ r.mapOrphanBlocksByPrev, o.isProofOfStake = true ∧ o.stake = stake

/-- What pruning takes away has no orphan on top of it. -/
def PrunesLeaf (r : Receiver DB E) : Prop :=
  ∀ (env : ProcessEnv DB E), ∀ o ∈ r.mapOrphanBlocksByPrev,
    o ∉ (r.pruneOrphanBlocks env).mapOrphanBlocksByPrev →
      ∀ o' ∈ r.mapOrphanBlocksByPrev, o'.hashPrev ≠ o.hashBlock

/-- **The three indices are in step.** -/
structure OrphansInStep (r : Receiver DB E) : Prop where
  maps : r.SameOrphans
  stakes : r.StakesSeen
  leaf : r.PrunesLeaf

/-- No orphans. -/
structure NoOrphans (r : Receiver DB E) : Prop where
  map : ∀ hash, r.mapOrphanBlocks hash = none
  byPrev : r.mapOrphanBlocksByPrev = []
  stakes : r.setStakeSeenOrphan = ∅

/-! ## 2. What leaves and what enters -/

/-- The orphans that have their turn when a work queue is gone through. -/
def resolved (env : AcceptEnv DB E) : Nat → List UInt256 → Receiver DB E → List COrphanBlock
  | 0, _, _ => []
  | _ + 1, [], _ => []
  | fuel + 1, hashPrev :: queue, r =>
    let os := r.mapOrphanBlocksByPrev.filter fun o => o.hashPrev == hashPrev
    let round := acceptOrphans K env os r
    os ++ resolved env fuel (queue ++ round.1) (round.2.forgetPrev hashPrev)

/-- The orphan that is pruned. -/
def pruned (env : ProcessEnv DB E) (r : Receiver DB E) : Option COrphanBlock :=
  let held := r.mapOrphanBlocksByPrev
  if held.length ≤ env.maxOrphanBlocks then none
  else (held[env.rand % held.length]?).map (leafOf held held.length)

end Receiver

/-- A call of `ProcessBlock`.  What a peer sends was read off the wire; and its hash is above its
parent's. -/
structure Arrival (rank : UInt256 → Nat) (DB E : Type) where
  env : ProcessEnv DB E
  pfrom : Bool
  fAllowDuplicateStake : Bool
  block : CBlock
  wire : pfrom = true → block.reread = block
  ranked : ∀ hash, block.getHash K = .ok hash → rank block.hashPrevBlock < rank hash

variable {K} {rank : UInt256 → Nat}

namespace Receiver

/-- The receiver after the call. -/
def receive (r : Receiver DB E) (a : Arrival K rank DB E) : Receiver DB E :=
  (processBlock K a.env r a.pfrom a.fAllowDuplicateStake a.block).2

/-- The orphans that leave, and the block that becomes one. -/
def changes (r : Receiver DB E) (a : Arrival K rank DB E) : List COrphanBlock × Option CBlock :=
  match arrivalChecks K a.env.toAcceptEnv r a.pfrom a.fAllowDuplicateStake a.block with
  | .error _ => ([], none)
  | .ok hash =>
    if (r.node.mapBlockIndex a.block.hashPrevBlock).isSome = false then
      if a.pfrom = false then ([], none)
      else if a.block.isProofOfStake = true ∧ a.block.getProofOfStake ∈ r.setStakeSeenOrphan ∧
          r.hasChild hash = false then ([], none)
      else ((r.pruned a.env).toList, some a.block)
    else
      match r.acceptBlock K a.env.toAcceptEnv a.block with
      | (.error _, _) => ([], none)
      | (.ok (), r') =>
        (resolved K a.env.toAcceptEnv (r'.mapOrphanBlocksByPrev.length + 1) [hash] r', none)

/-- **No stake is lost**: no orphan that leaves has the stake of one that stays, unless the block
that becomes an orphan has it too. -/
def KeepsStakes (r : Receiver DB E) (a : Arrival K rank DB E) : Prop :=
  ∀ o ∈ (r.changes a).1, o.isProofOfStake = true →
    ∀ o' ∈ r.mapOrphanBlocksByPrev, o' ∉ (r.changes a).1 → o'.isProofOfStake = true →
      o'.stake = o.stake →
        ∃ block ∈ (r.changes a).2, block.isProofOfStake = true ∧ block.getProofOfStake = o.stake

end Receiver

/-! ## 3. Proofs of stake -/

/-- What `GetProofOfStake` returns for a block without one. -/
def noStake : COutPoint × UInt32 := (⟨0, 0xffffffff⟩, 0)

variable {block : CBlock}

theorem CBlock.getProofOfStake_of_not (h : block.isProofOfStake = false) :
    block.getProofOfStake = noStake := by
  unfold CBlock.getProofOfStake
  rw [h]
  rfl

/-- A proof of stake spends something. -/
theorem CBlock.getProofOfStake_ne (h : block.isProofOfStake = true) :
    block.getProofOfStake ≠ noStake := by
  unfold CBlock.getProofOfStake
  rw [h]
  unfold CBlock.isProofOfStake at h
  split at h
  · next coinbase coinstake rest hv =>
    unfold CTransaction.isCoinStake at h
    split at h
    · next txin ins out0 out1 outs hin hout =>
      rw [hv]
      obtain ⟨_, _, vin, vout, _, _, _⟩ := coinstake
      dsimp only at hin hout
      subst hin
      intro heq
      have hnull : txin.prevout = ⟨0, 0xffffffff⟩ := congrArg Prod.fst heq
      rw [hnull] at h
      exact absurd h (by simp [COutPoint.isNull])
    · cases h
  · cases h

/-! ## 4. Orphans that leave -/

/-- How an orphan was made. -/
structure COrphanBlock.MadeOf (rank : UInt256 → Nat) (o : COrphanBlock) : Prop where
  reread : o.vchBlock.reread = o.vchBlock
  stake : o.stake = o.vchBlock.getProofOfStake
  ranked : rank o.hashPrev < rank o.hashBlock

theorem COrphanBlock.MadeOf.stake_ne {o : COrphanBlock} (h : o.MadeOf rank)
    (hpos : o.isProofOfStake = true) : o.stake ≠ noStake := by
  rw [h.stake]
  exact CBlock.getProofOfStake_ne hpos

theorem COrphanBlock.MadeOf.stake_eq {o : COrphanBlock} (h : o.MadeOf rank)
    (hpos : o.isProofOfStake = false) : o.stake = noStake := by
  rw [h.stake]
  exact CBlock.getProofOfStake_of_not hpos

namespace Receiver

variable {r r' r'' : Receiver DB E} {L L' : List COrphanBlock} {o o' : COrphanBlock}

/-- What is known of the maps in every state of a run: no two orphans have the same hash. -/
structure OrphansOk (rank : UInt256 → Nat) (r : Receiver DB E) : Prop where
  same : ∀ hash o, r.mapOrphanBlocks hash = some o ↔
    o ∈ r.mapOrphanBlocksByPrev ∧ o.hashBlock = hash
  nodup : (r.mapOrphanBlocksByPrev.map COrphanBlock.hashBlock).Nodup
  made : ∀ o ∈ r.mapOrphanBlocksByPrev, o.MadeOf rank

theorem OrphansOk.eq_of_hash (h : r.OrphansOk rank) (ho : o ∈ r.mapOrphanBlocksByPrev)
    (ho' : o' ∈ r.mapOrphanBlocksByPrev) (heq : o.hashBlock = o'.hashBlock) : o = o' := by
  have hsome := (h.same _ o).mpr ⟨ho, heq⟩
  rw [(h.same _ o').mpr ⟨ho', rfl⟩, Option.some_inj] at hsome
  exact hsome.symm

theorem OrphansOk.sameOrphans (h : r.OrphansOk rank) : r.SameOrphans :=
  ⟨h.same, h.nodup.of_map _⟩

/-- These orphans have gone, from each of the three indices. -/
structure Dropped (L : List COrphanBlock) (r r' : Receiver DB E) : Prop where
  map : ∀ hash o, r'.mapOrphanBlocks hash = some o ↔
    r.mapOrphanBlocks hash = some o ∧ hash ∉ L.map COrphanBlock.hashBlock
  byPrev : r'.mapOrphanBlocksByPrev = r.mapOrphanBlocksByPrev.filter fun o => decide (o ∉ L)
  stakes : ∀ stake, stake ∈ r'.setStakeSeenOrphan ↔
    stake ∈ r.setStakeSeenOrphan ∧ stake ∉ L.map COrphanBlock.stake

/-- Nothing is done to the indices. -/
theorem Dropped.of_eq (hmap : r'.mapOrphanBlocks = r.mapOrphanBlocks)
    (hprev : r'.mapOrphanBlocksByPrev = r.mapOrphanBlocksByPrev)
    (hstakes : r'.setStakeSeenOrphan = r.setStakeSeenOrphan) : Dropped [] r r' :=
  ⟨by simp [hmap], by simp [hprev], by simp [hstakes]⟩

theorem Dropped.trans (h : Dropped L r r') (h' : Dropped L' r' r'') :
    Dropped (L ++ L') r r'' := by
  constructor
  · intro hash o
    rw [h'.map, h.map, List.map_append, List.mem_append]
    tauto
  · rw [h'.byPrev, h.byPrev, List.filter_filter]
    refine List.filter_congr fun o _ => ?_
    simp [Bool.and_comm]
  · intro stake
    rw [h'.stakes, h.stakes, List.map_append, List.mem_append]
    tauto

theorem Dropped.mem_iff (h : Dropped L r r') :
    o ∈ r'.mapOrphanBlocksByPrev ↔ o ∈ r.mapOrphanBlocksByPrev ∧ o ∉ L := by
  rw [h.byPrev, List.mem_filter, decide_eq_true_iff]

/-- What is left is as it was. -/
theorem OrphansOk.dropped (hok : r.OrphansOk rank) (hL : ∀ o ∈ L, o ∈ r.mapOrphanBlocksByPrev)
    (h : Dropped L r r') : r'.OrphansOk rank := by
  refine ⟨fun hash o => ?_, ?_, fun o ho => hok.made o (h.mem_iff.mp ho).1⟩
  · rw [h.map, h.mem_iff, hok.same]
    constructor
    · rintro ⟨⟨ho, rfl⟩, hin⟩
      exact ⟨⟨ho, fun hmem => hin (List.mem_map_of_mem hmem)⟩, rfl⟩
    · rintro ⟨⟨ho, hout⟩, rfl⟩
      refine ⟨⟨ho, rfl⟩, fun hin => ?_⟩
      obtain ⟨o₁, ho₁, heq⟩ := List.mem_map.mp hin
      rw [hok.eq_of_hash (hL o₁ ho₁) ho heq] at ho₁
      exact hout ho₁
  · rw [h.byPrev]
    exact hok.nodup.sublist (List.filter_sublist.map _)

/-! ## 5. One round of the work queue -/

/-- `AcceptBlock` does not look at the orphans. -/
theorem acceptBlock_dropped (env : AcceptEnv DB E) (r : Receiver DB E) (block : CBlock) :
    Dropped [] r (r.acceptBlock K env block).2 := by
  unfold acceptBlock
  split
  · exact .of_eq rfl rfl rfl
  · split
    · exact .of_eq rfl rfl rfl
    · exact .of_eq rfl rfl rfl

/-- What a round does to the first map and to the stakes; the second map is left for its end. -/
theorem acceptOrphans_spec (K : Crypto) (env : AcceptEnv DB E) (os : List COrphanBlock)
    (hmade : ∀ o ∈ os, o.MadeOf rank) :
    ∀ r : Receiver DB E,
      (∀ hash o, (acceptOrphans K env os r).2.mapOrphanBlocks hash = some o ↔
        r.mapOrphanBlocks hash = some o ∧ hash ∉ os.map COrphanBlock.hashBlock) ∧
      (acceptOrphans K env os r).2.mapOrphanBlocksByPrev = r.mapOrphanBlocksByPrev ∧
      ∀ stake, stake ∈ (acceptOrphans K env os r).2.setStakeSeenOrphan ↔
        stake ∈ r.setStakeSeenOrphan ∧ stake ∉ os.map COrphanBlock.stake := by
  induction os with
  | nil =>
    intro r
    simp [acceptOrphans]
  | cons o os ih =>
    intro r
    obtain ⟨ho, hos⟩ := List.forall_mem_cons.mp hmade
    have haccept := acceptBlock_dropped (K := K) env r o.vchBlock.reread
    obtain ⟨hmap, hprev, hstakes⟩ :=
      ih hos ((r.acceptBlock K env o.vchBlock.reread).2.release o)
    have hstake : o.vchBlock.reread.getProofOfStake = o.stake := by rw [ho.reread, ho.stake]
    refine ⟨fun hash o' => ?_, ?_, fun stake => ?_⟩
    · rw [acceptOrphans]
      dsimp only
      rw [hmap, release]
      dsimp only
      rw [List.map_cons, List.mem_cons]
      by_cases heq : hash = o.hashBlock
      · rw [heq, Function.update_self]
        simp
      · rw [Function.update_of_ne heq, haccept.map]
        simp [heq]
    · rw [acceptOrphans]
      dsimp only
      rw [hprev, release]
      dsimp only
      rw [haccept.byPrev]
      simp
    · rw [acceptOrphans]
      dsimp only
      rw [hstakes, release]
      dsimp only
      rw [Finset.mem_erase, hstake, haccept.stakes, List.map_cons, List.mem_cons]
      simp
      tauto

/-- A round takes the orphans on top of one block out of all three indices. -/
theorem round_dropped (env : AcceptEnv DB E) (hashPrev : UInt256) (hok : r.OrphansOk rank) :
    Dropped (r.mapOrphanBlocksByPrev.filter fun o => o.hashPrev == hashPrev) r
      ((acceptOrphans K env (r.mapOrphanBlocksByPrev.filter fun o => o.hashPrev == hashPrev)
        r).2.forgetPrev hashPrev) := by
  obtain ⟨hmap, hprev, hstakes⟩ := acceptOrphans_spec K env
    (r.mapOrphanBlocksByPrev.filter fun o => o.hashPrev == hashPrev)
    (fun o ho => hok.made o (List.mem_filter.mp ho).1) r
  refine ⟨hmap, ?_, hstakes⟩
  rw [forgetPrev]
  dsimp only
  rw [hprev]
  refine List.filter_congr fun o ho => ?_
  by_cases heq : o.hashPrev = hashPrev
  · simp [ho, heq]
  · simp [heq]

/-- **What the work queue takes out.** -/
theorem workQueue_dropped (env : AcceptEnv DB E) :
    ∀ (fuel : Nat) (queue : List UInt256) (r : Receiver DB E), r.OrphansOk rank →
      (∀ o ∈ resolved K env fuel queue r, o ∈ r.mapOrphanBlocksByPrev) ∧
        Dropped (resolved K env fuel queue r) r (r.workQueue K env fuel queue) := by
  intro fuel
  induction fuel with
  | zero => exact fun queue r _ => ⟨by simp [resolved], .of_eq rfl rfl rfl⟩
  | succ fuel ih =>
    intro queue r hok
    cases queue with
    | nil => exact ⟨by simp [resolved], .of_eq rfl rfl rfl⟩
    | cons hashPrev queue =>
      have hround := round_dropped (K := K) env hashPrev hok
      have hsub : ∀ o ∈ r.mapOrphanBlocksByPrev.filter fun o => o.hashPrev == hashPrev,
          o ∈ r.mapOrphanBlocksByPrev := fun o ho => (List.mem_filter.mp ho).1
      obtain ⟨hmem, hrest⟩ := ih _ _ (hok.dropped hsub hround)
      refine ⟨fun o ho => ?_, hround.trans hrest⟩
      rcases List.mem_append.mp ho with ho | ho
      · exact hsub o ho
      · exact (hround.mem_iff.mp (hmem o ho)).1

variable {block : CBlock} {hash : UInt256} {held : List COrphanBlock}
  {c : List COrphanBlock × Option CBlock}

theorem orphan_of_arrivalChecks {env : AcceptEnv DB E} {pfrom fAllow : Bool}
    (h : arrivalChecks K env r pfrom fAllow block = .ok hash) :
    block.getHash K = .ok hash ∧ r.mapOrphanBlocks hash = none := by
  simp only [arrivalChecks, bind_eq_ok, refuse_eq_ok, pure_eq_ok] at h
  obtain ⟨_, hhash, -, -, -, hnew, -, -, -, -, -, -, -, -, -, -, rfl⟩ := h
  exact ⟨hhash, by simpa using hnew⟩

/-! ## 6. Pruning -/

theorem leafOf_mem :
    ∀ (fuel : Nat) {o : COrphanBlock}, o ∈ held → leafOf held fuel o ∈ held := by
  intro fuel
  induction fuel with
  | zero => exact id
  | succ fuel ih =>
    intro o ho
    rw [leafOf]
    split
    · exact ho
    · next o' hfind => exact ih (List.mem_of_find?_eq_some hfind)

theorem countP_lt_of_imp {α : Type} {p q : α → Bool} {l : List α} {a : α}
    (himp : ∀ x ∈ l, q x = true → p x = true) (ha : a ∈ l) (hp : p a = true) (hq : q a = false) :
    l.countP q < l.countP p := by
  induction l with
  | nil => cases ha
  | cons x l ih =>
    obtain ⟨hx, hl⟩ := List.forall_mem_cons.mp himp
    rw [List.countP_cons, List.countP_cons]
    rcases List.mem_cons.mp ha with rfl | ha
    · have hle := List.countP_mono_left hl
      rw [if_pos hp, hq]
      exact Nat.lt_succ_of_le hle
    · have hlt := ih hl ha
      by_cases hqx : q x = true
      · rw [if_pos hqx, if_pos (hx hqx)]
        omega
      · rw [if_neg hqx]
        omega

/-- The walk ends at an orphan without orphans on top of it: there are no more steps than orphans of
a higher rank. -/
theorem leafOf_leaf (hmade : ∀ o ∈ held, o.MadeOf rank) :
    ∀ (fuel : Nat) (o : COrphanBlock),
      held.countP (fun o' => decide (rank o.hashBlock < rank o'.hashBlock)) ≤ fuel →
        ∀ o' ∈ held, o'.hashPrev ≠ (leafOf held fuel o).hashBlock := by
  intro fuel
  induction fuel with
  | zero =>
    intro o hcount o' ho' heq
    have habove := List.countP_eq_zero.mp (Nat.le_zero.mp hcount) o' ho'
    have hranked := (hmade o' ho').ranked
    rw [heq, leafOf] at hranked
    exact habove (decide_eq_true hranked)
  | succ fuel ih =>
    intro o hcount
    rw [leafOf]
    split
    · next hnone =>
      intro o' ho' heq
      exact List.find?_eq_none.mp hnone o' ho' (beq_iff_eq.mpr heq)
    · next o₁ hfind =>
      have hmem := List.mem_of_find?_eq_some hfind
      have hprev : o₁.hashPrev = o.hashBlock := by simpa using List.find?_some hfind
      have hup : rank o.hashBlock < rank o₁.hashBlock := hprev ▸ (hmade o₁ hmem).ranked
      refine ih o₁ (Nat.le_of_lt_succ (Nat.lt_of_lt_of_le ?_ hcount))
      -- the child is counted for its parent, and not for itself
      refine countP_lt_of_imp (fun o' _ habove => ?_) hmem (by simpa using hup) (by simp)
      rw [decide_eq_true_iff] at habove ⊢
      exact hup.trans habove

theorem pruneOrphanBlocks_eq (env : ProcessEnv DB E) (r : Receiver DB E) :
    r.pruneOrphanBlocks env =
      match r.pruned env with
      | none => r
      | some leaf =>
        { r with
          setStakeSeenOrphan := r.setStakeSeenOrphan.erase leaf.stake
          mapOrphanBlocksByPrev := r.mapOrphanBlocksByPrev.erase leaf
          mapOrphanBlocks := Function.update r.mapOrphanBlocks leaf.hashBlock none } := by
  unfold pruneOrphanBlocks pruned
  dsimp only
  split
  · rfl
  · cases r.mapOrphanBlocksByPrev[env.rand % r.mapOrphanBlocksByPrev.length]? with
    | none => rfl
    | some o => rfl

/-- What is pruned is an orphan, and none is on top of it. -/
theorem pruned_spec (hok : r.OrphansOk rank) {env : ProcessEnv DB E} (h : r.pruned env = some o) :
    o ∈ r.mapOrphanBlocksByPrev ∧ ∀ o' ∈ r.mapOrphanBlocksByPrev, o'.hashPrev ≠ o.hashBlock := by
  unfold pruned at h
  dsimp only at h
  split at h
  · cases h
  · obtain ⟨o₁, ho₁, rfl⟩ := Option.map_eq_some_iff.mp h
    exact ⟨leafOf_mem _ (List.mem_of_getElem? ho₁),
      leafOf_leaf hok.made _ _ List.countP_le_length⟩

theorem pruneOrphanBlocks_dropped (hok : r.OrphansOk rank) (env : ProcessEnv DB E) :
    (∀ o ∈ (r.pruned env).toList, o ∈ r.mapOrphanBlocksByPrev) ∧
      Dropped (r.pruned env).toList r (r.pruneOrphanBlocks env) := by
  rw [pruneOrphanBlocks_eq]
  cases hpruned : r.pruned env with
  | none => exact ⟨by simp, .of_eq rfl rfl rfl⟩
  | some leaf =>
    obtain ⟨hmem, -⟩ := pruned_spec hok hpruned
    refine ⟨by simpa using hmem, fun hash o => ?_, ?_, fun stake => ?_⟩
    · by_cases heq : hash = leaf.hashBlock
      · simp [heq]
      · simp [heq]
    · have hnodup : r.mapOrphanBlocksByPrev.Nodup := hok.nodup.of_map _
      dsimp only
      rw [hnodup.erase_eq_filter]
      refine List.filter_congr fun o _ => ?_
      by_cases heq : o = leaf
      · simp [heq]
      · simp [heq]
    · simp [and_comm]

/-- **What pruning takes away is a leaf.** -/
theorem OrphansOk.prunesLeaf (hok : r.OrphansOk rank) : r.PrunesLeaf := by
  intro env o ho hgone
  obtain ⟨-, hdropped⟩ := pruneOrphanBlocks_dropped hok env
  rw [hdropped.mem_iff, not_and, not_not] at hgone
  have hpruned : r.pruned env = some o := by simpa using hgone ho
  exact (pruned_spec hok hpruned).2

/-! ## 7. The stakes -/

/-- How a call changes the indices: orphans have left, and a block may have become one. -/
inductive Changed (rank : UInt256 → Nat) (r : Receiver DB E) :
    List COrphanBlock × Option CBlock → Receiver DB E → Prop
  | left {L : List COrphanBlock} {r' : Receiver DB E} :
      (∀ o ∈ L, o ∈ r.mapOrphanBlocksByPrev) → Dropped L r r' → Changed rank r (L, none) r'
  | entered {L : List COrphanBlock} {r' : Receiver DB E} {hash : UInt256} {block : CBlock} :
      (∀ o ∈ L, o ∈ r.mapOrphanBlocksByPrev) → Dropped L r r' → r.mapOrphanBlocks hash = none →
      block.reread = block → rank block.hashPrevBlock < rank hash →
      Changed rank r (L, some block) (r'.hold hash block)

/-- A new orphan is held under its own hash. -/
theorem OrphansOk.hold (hok : r.OrphansOk rank) (hnew : r.mapOrphanBlocks hash = none)
    (hread : block.reread = block) (hrank : rank block.hashPrevBlock < rank hash) :
    (r.hold hash block).OrphansOk rank := by
  have hother : ∀ o ∈ r.mapOrphanBlocksByPrev, o.hashBlock ≠ hash := by
    intro o ho heq
    rw [(hok.same hash o).mpr ⟨ho, heq⟩] at hnew
    cases hnew
  refine ⟨fun h o => ?_, ?_, fun o ho => ?_⟩
  · by_cases heq : h = hash
    · subst heq
      simp only [Receiver.hold, Function.update_self, Option.some_inj, List.mem_append,
        List.mem_singleton]
      constructor
      · rintro rfl
        exact ⟨.inr rfl, rfl⟩
      · rintro ⟨ho | rfl, hhash⟩
        · exact absurd hhash (hother o ho)
        · rfl
    · simp only [Receiver.hold, Function.update_of_ne heq, List.mem_append, List.mem_singleton]
      rw [hok.same]
      constructor
      · rintro ⟨ho, hhash⟩
        exact ⟨.inl ho, hhash⟩
      · rintro ⟨ho | rfl, hhash⟩
        · exact ⟨ho, hhash⟩
        · exact absurd hhash.symm heq
  · simp only [Receiver.hold, List.map_append, List.map_cons, List.map_nil]
    refine List.nodup_append.mpr ⟨hok.nodup, List.nodup_singleton _, ?_⟩
    intro h hin h' hin' heq
    obtain ⟨o, ho, rfl⟩ := List.mem_map.mp hin
    rw [List.mem_singleton.mp hin'] at heq
    exact hother o ho heq
  · rcases List.mem_append.mp ho with ho | ho
    · exact hok.made o ho
    · rw [List.mem_singleton.mp ho]
      exact ⟨hread, rfl, hrank⟩

theorem Changed.orphansOk (hok : r.OrphansOk rank) (h : Changed rank r c r') :
    r'.OrphansOk rank := by
  cases h with
  | left hL hdropped => exact hok.dropped hL hdropped
  | entered hL hdropped hnew hread hrank =>
    refine (hok.dropped hL hdropped).hold (Option.eq_none_iff_forall_ne_some.mpr ?_) hread hrank
    intro o ho
    rw [((hdropped.map _ _).mp ho).1] at hnew
    cases hnew

/-- The stakes and the orphans after a change. -/
theorem Changed.mem_iff (h : Changed rank r c r') :
    (∀ stake, stake ∈ r'.setStakeSeenOrphan ↔
      (stake ∈ r.setStakeSeenOrphan ∧ stake ∉ c.1.map COrphanBlock.stake) ∨
        ∃ block ∈ c.2, block.isProofOfStake = true ∧ block.getProofOfStake = stake) ∧
    ∀ stake, (∃ o ∈ r'.mapOrphanBlocksByPrev, o.isProofOfStake = true ∧ o.stake = stake) ↔
      (∃ o ∈ r.mapOrphanBlocksByPrev, o ∉ c.1 ∧ o.isProofOfStake = true ∧ o.stake = stake) ∨
        ∃ block ∈ c.2, block.isProofOfStake = true ∧ block.getProofOfStake = stake := by
  cases h with
  | left hL hdropped =>
    refine ⟨fun stake => by simp [hdropped.stakes], fun stake => ?_⟩
    simp [hdropped.mem_iff, and_assoc]
  | @entered L r₁ hash block hL hdropped hnew hread hrank =>
    refine ⟨fun stake => ?_, fun stake => ?_⟩
    · rw [Receiver.hold, ← hdropped.stakes]
      dsimp only
      by_cases hpos : block.isProofOfStake = true
      · rw [if_pos hpos, Finset.mem_insert]
        constructor
        · rintro (rfl | hin)
          · exact .inr ⟨block, rfl, hpos, rfl⟩
          · exact .inl hin
        · rintro (hin | ⟨b, hb, -, rfl⟩)
          · exact .inr hin
          · exact .inl (by rw [Option.mem_some_iff.mp hb])
      · rw [if_neg hpos]
        refine ⟨.inl, ?_⟩
        rintro (hin | ⟨b, hb, hpos', -⟩)
        · exact hin
        · rw [← Option.mem_some_iff.mp hb] at hpos'
          exact absurd hpos' hpos
    · constructor
      · rintro ⟨o, ho, hpos, rfl⟩
        rcases List.mem_append.mp ho with ho | ho
        · obtain ⟨ho, hstays⟩ := hdropped.mem_iff.mp ho
          exact .inl ⟨o, ho, hstays, hpos, rfl⟩
        · rw [List.mem_singleton.mp ho] at hpos ⊢
          exact .inr ⟨block, rfl, hpos, rfl⟩
      · rintro (⟨o, ho, hstays, hpos, rfl⟩ | ⟨b, hb, hpos, rfl⟩)
        · exact ⟨o, List.mem_append.mpr (.inl (hdropped.mem_iff.mpr ⟨ho, hstays⟩)), hpos, rfl⟩
        · obtain rfl := Option.mem_some_iff.mp hb
          exact ⟨_, List.mem_append.mpr (.inr (List.mem_singleton.mpr rfl)), hpos, rfl⟩

/-- **When the stakes stay in step.** -/
theorem Changed.stakesSeen_iff (hok : r.OrphansOk rank) (hseen : r.StakesSeen)
    (hc : ∀ o ∈ c.1, o ∈ r.mapOrphanBlocksByPrev) (h : Changed rank r c r') :
    r'.StakesSeen ↔ ∀ o ∈ c.1, o.isProofOfStake = true → ∀ o' ∈ r.mapOrphanBlocksByPrev,
      o' ∉ c.1 → o'.isProofOfStake = true → o'.stake = o.stake →
        ∃ block ∈ c.2, block.isProofOfStake = true ∧ block.getProofOfStake = o.stake := by
  obtain ⟨hstakes, hheld⟩ := h.mem_iff
  constructor
  · intro hseen' o ho hpos o' ho' hstays hpos' heq
    have hleft : o.stake ∈ c.1.map COrphanBlock.stake := List.mem_map_of_mem ho
    have hin := (hseen' o.stake).mpr ((hheld _).mpr (.inl ⟨o', ho', hstays, hpos', heq⟩))
    rcases (hstakes _).mp hin with ⟨-, hout⟩ | hblock
    · exact absurd hleft hout
    · exact hblock
  · intro hkeep stake
    rw [hstakes, hheld]
    constructor
    · rintro (⟨hin, hout⟩ | hblock)
      · obtain ⟨o, ho, hpos, rfl⟩ := (hseen stake).mp hin
        exact .inl ⟨o, ho, fun hleft => hout (List.mem_map_of_mem hleft), hpos, rfl⟩
      · exact .inr hblock
    · rintro (⟨o', ho', hstays, hpos', rfl⟩ | hblock)
      · by_cases hleft : o'.stake ∈ c.1.map COrphanBlock.stake
        · obtain ⟨o, ho, heq⟩ := List.mem_map.mp hleft
          have hmade := hok.made o (hc o ho)
          -- the stake of a block without one is nobody's
          have hpos : o.isProofOfStake = true := by
            by_contra hnot
            have hnone := hmade.stake_eq (by simpa using hnot)
            exact (hok.made o' ho').stake_ne hpos' (heq ▸ hnone)
          exact .inr (heq ▸ hkeep o ho hpos o' ho' hstays hpos' heq.symm)
        · exact .inl ⟨(hseen _).mpr ⟨o', ho', hpos', rfl⟩, hleft⟩
      · exact .inr hblock

/-! ## 8. Runs -/

variable (a : Arrival K rank DB E)

/-- **What a call of `ProcessBlock` does to the orphans.** -/
theorem receive_changed (hok : r.OrphansOk rank) : Changed rank r (r.changes a) (r.receive a) := by
  unfold receive changes processBlock
  generalize hresult :
    arrivalChecks K a.env.toAcceptEnv r a.pfrom a.fAllowDuplicateStake a.block = result
  cases result with
  | error e => exact .left (by simp) (.of_eq rfl rfl rfl)
  | ok hash =>
    obtain ⟨hhash, hnew⟩ := orphan_of_arrivalChecks hresult
    dsimp only
    split
    · unfold shuntOff
      split
      · exact .left (by simp) (.of_eq rfl rfl rfl)
      · next hpeer =>
        split
        · exact .left (by simp) (.of_eq rfl rfl rfl)
        · obtain ⟨hL, hdropped⟩ := pruneOrphanBlocks_dropped hok a.env
          exact .entered hL hdropped hnew (a.wire (by simpa using hpeer)) (a.ranked hash hhash)
    · have haccept := acceptBlock_dropped (K := K) a.env.toAcceptEnv r a.block
      have hok' := hok.dropped (by simp) haccept
      generalize r.acceptBlock K a.env.toAcceptEnv a.block = accepted at haccept hok'
      obtain ⟨verdict, r₁⟩ := accepted
      cases verdict with
      | error e => exact .left (by simp) haccept
      | ok =>
        obtain ⟨hmem, hqueue⟩ := workQueue_dropped (K := K) a.env.toAcceptEnv
          (r₁.mapOrphanBlocksByPrev.length + 1) [hash] r₁ hok'
        refine .left (fun o ho => ?_) (haccept.trans hqueue)
        exact (haccept.mem_iff.mp (hmem o ho)).1

theorem changes_mem (hok : r.OrphansOk rank) :
    ∀ o ∈ (r.changes a).1, o ∈ r.mapOrphanBlocksByPrev := by
  have h := receive_changed a hok
  generalize r.changes a = c at h
  generalize r.receive a = r' at h
  cases h with
  | left hL => exact hL
  | entered hL => exact hL

theorem OrphansOk.receive (hok : r.OrphansOk rank) : (r.receive a).OrphansOk rank :=
  (receive_changed a hok).orphansOk hok

/-- **When a call keeps the indices in step.** -/
theorem receive_inStep_iff (hok : r.OrphansOk rank) (h : r.OrphansInStep) :
    (r.receive a).OrphansInStep ↔ r.KeepsStakes a := by
  have hstakes := (receive_changed a hok).stakesSeen_iff hok h.stakes (changes_mem a hok)
  have hok' := hok.receive a
  constructor
  · exact fun h' => hstakes.mp h'.stakes
  · exact fun hkeep => ⟨hok'.sameOrphans, hstakes.mpr hkeep, hok'.prunesLeaf⟩

theorem NoOrphans.orphansOk (h : r.NoOrphans) : r.OrphansOk rank :=
  ⟨fun hash o => by simp [h.map, h.byPrev], by simp [h.byPrev], by simp [h.byPrev]⟩

theorem NoOrphans.inStep (h : r.NoOrphans) : r.OrphansInStep := by
  have hok : r.OrphansOk fun _ => 0 := h.orphansOk
  exact ⟨hok.sameOrphans, fun stake => by simp [h.byPrev, h.stakes], hok.prunesLeaf⟩

/-- **When the orphan indices are in step**: in every run from no orphans, the two maps hold the same
blocks, the stakes are those of the orphans and only leaves are pruned, in every state, exactly when
no step loses a stake. -/
theorem orphanBlocks_iff (h : r.NoOrphans) (arrivals : List (Arrival K rank DB E)) :
    (∀ as, as <+: arrivals → (as.foldl receive r).OrphansInStep) ↔
      ∀ as a, as ++ [a] <+: arrivals → (as.foldl receive r).KeepsStakes a :=
  everywhere_iff (J := OrphansOk rank) h.orphansOk h.inStep (fun _ a hok _ => hok.receive a)
    (fun _ a hok hstep => receive_inStep_iff a hok hstep) arrivals

end Receiver

/-! ## 9. Two orphans with one stake -/

/-- A block without a known parent; two of one time have one stake. -/
def orphanBlock (nNonce64 : UInt64) (hashPrevBlock : UInt256) (nTime : UInt32) : CBlock :=
  let coinbase : CTransaction := ⟨1, nTime, [⟨⟨0, 0xffffffff⟩, [0x5d, 1], 0⟩],
    [⟨400000000, Color.brk.toInt32, [op1]⟩], 0, [], 0⟩
  let coinstake := { brxCoinstake [stakedTx] goodSig with nTime := nTime }
  let block : CBlock :=
    ⟨7, hashPrevBlock, 0, nTime, 0x1d00ffff, 0, 13, nNonce64, 1, [coinbase, coinstake], blockSig⟩
  { block with hashMerkleRoot := block.buildMerkleTree nonceCrypto }

/-- A peer sends it to a node that makes room when it holds more than two orphans. -/
def orphanArrival (nNonce64 : UInt64) (hashPrevBlock : UInt256) (nTime : UInt32)
    (h : ¬ getFork nTime.toNat < .fork003 ∧
      hashPrevBlock.toNat < (BitVec.ofNat 256 nNonce64.toNat).toNat) :
    Arrival nonceCrypto BitVec.toNat ChainState Unit where
  env := { nonceEnv with maxOrphanBlocks := 2, rand := 1 }
  pfrom := true
  fAllowDuplicateStake := false
  block := orphanBlock nNonce64 hashPrevBlock nTime
  wire _ := rfl
  ranked hash hhash := by
    have hfork : ¬ getFork (orphanBlock nNonce64 hashPrevBlock nTime).nTime.toNat < .fork003 := h.1
    have hkawpow : (orphanBlock nNonce64 hashPrevBlock nTime).isKawpowBlock = true := rfl
    have hmix : (orphanBlock nNonce64 hashPrevBlock nTime).mixHash ≠ 0 := by
      change (1 : UInt256) ≠ 0
      decide
    unfold CBlock.getHash at hhash
    rw [if_neg hfork, if_neg (by simp [hkawpow]), if_neg hmix] at hhash
    cases hhash
    exact h.2

/-- Block 41 is on top of block 31; blocks 30 and 31 have the same stake; block 50 makes room for
itself. -/
def orphanArrivals : List (Arrival nonceCrypto BitVec.toNat ChainState Unit) :=
  [orphanArrival 41 31 1777836784 (by decide), orphanArrival 30 20 1777836782 (by decide),
    orphanArrival 31 21 1777836782 (by decide), orphanArrival 50 22 1777836786 (by decide)]

theorem nonceReceiver_noOrphans : nonceReceiver.NoOrphans := ⟨fun _ => rfl, rfl, rfl⟩

/-- The first three leave the indices in step, for none of them makes another leave. -/
theorem orphanBlocks_iff_arrivals :
    (∀ as, as <+: orphanArrivals.take 3 → (as.foldl Receiver.receive nonceReceiver).OrphansInStep) ↔
      ∀ as a, as ++ [a] <+: orphanArrivals.take 3 →
        (as.foldl Receiver.receive nonceReceiver).KeepsStakes a :=
  Receiver.orphanBlocks_iff nonceReceiver_noOrphans _

/-- **A stake is lost**: the fourth block makes block 30 leave, and the stake of block 31, which is
held, has not been seen. -/
theorem stake_lost :
    ¬ (orphanArrivals.foldl Receiver.receive nonceReceiver).OrphansInStep := by
  have hheld : ∃ o ∈ (orphanArrivals.foldl Receiver.receive nonceReceiver).mapOrphanBlocksByPrev,
      o.isProofOfStake = true ∧
        o.stake ∉ (orphanArrivals.foldl Receiver.receive nonceReceiver).setStakeSeenOrphan := by
    decide +kernel
  generalize orphanArrivals.foldl Receiver.receive nonceReceiver = r at hheld ⊢
  obtain ⟨o, ho, hpos, hlost⟩ := hheld
  exact fun h => hlost ((h.stakes o.stake).mpr ⟨o, ho, hpos, rfl⟩)

end Breakout
