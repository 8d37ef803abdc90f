/-
# A node that is started again

A node's index is in memory and, record by record, on disk.  When the node is started again, the
memory is what `LoadBlockIndex` makes of the records.  It is the memory that was (`reloads_of_run`), in
every run in which no batch that is thrown away has changed the counters in memory and no postponed
reconnect fails.

The batch of a call can be thrown away after `ConnectBlock` has entered counters: its own, when it
fails after `CheckBlock`, and those of the blocks it connected before another failed.
-/
import Breakout.LoadIndex
import Breakout.ExploreReorg

namespace Breakout

open Lib Node

/-! ## 1. Runs -/

/-- A batch that is thrown away leaves the counters in memory. -/
def BatchKept {DB E : Type} (ops : BlockOps DB E) (n : Node DB E) (p : BlockPtr) : Prop :=
  (batch ops n p).1 = none → (batch ops n p).2 = n.exploredb

/-- A call that keeps memory and disk in step. -/
def CallKept {DB E : Type} (ops : BlockOps DB E) (n : Node DB E) (p : BlockPtr) : Prop :=
  PostponedOk ops n p ∧ BatchKept ops n p

namespace IndexNode

/-- `LoadBlockIndex` on empty databases: the genesis block is indexed, with its record, and its height
entered in the lookup. -/
def loadGenesis {D : Type} (K : Crypto) (env : AddEnv) (work : IndexWork D)
    (fIsInitialDownload : Bool) (d : D) (mem : IndexMemory) (g : IndexedBlock) : IndexNode D :=
  let n := (addToBlockIndex K env work fIsInitialDownload (Node.empty (d, fun _ => none) mem) g).2
  { n with mapBlockLookup := Function.update n.mapBlockLookup 0 (n.mapBlockIndex g.hash) }

end IndexNode

open IndexNode

variable {D : Type} {K : Crypto} {g : IndexedBlock} {checkpoints : Nat → Option UInt32}
  {n n' : IndexNode D} {top p q : BlockPtr} {b : IndexedBlock}

/-- **Runs of a node with its records**: honest blocks are indexed, and `SetBestChain` is called on
any known block at any time, where the call meets `C`. -/
inductive IndexRun (K : Crypto) (g : IndexedBlock) (checkpoints : Nat → Option UInt32)
    (C : BlockOps (D × Records) IndexMemory → IndexNode D → BlockPtr → Prop) : IndexNode D → Prop
  | load {env : AddEnv} {work : IndexWork D} (fIsInitialDownload : Bool) (d : D)
      (mem : IndexMemory) :
      0 < getBlockTrust g.block.nBits → HonestIndex K (.root g) → env.hashGenesisBlock = g.hash →
      env.checkpoints = checkpoints →
      (indexNew K env (Node.empty (d, fun _ => none) mem) g).isSome = true →
      IndexRun K g checkpoints C (loadGenesis K env work fIsInitialDownload d mem g)
  | index {env : AddEnv} {n n' : IndexNode D} {b : IndexedBlock} :
      IndexRun K g checkpoints C n → (n.mapBlockIndex b.block.hashPrevBlock).isSome = true →
      HonestIndex K (n.newPtr b) → env.hashGenesisBlock = g.hash → env.checkpoints = checkpoints →
      indexNew K env n b = some n' → IndexRun K g checkpoints C n'
  | call {n : IndexNode D} {p : BlockPtr} (clock : IndexClock) (work : IndexWork D)
      (fIsInitialDownload : Bool) :
      IndexRun K g checkpoints C n → n.mapBlockIndex p.hash = some p →
      C (indexOps K clock work) n p →
      IndexRun K g checkpoints C
        (setBestChain (indexOps K clock work) g.hash fIsInitialDownload n p).2

theorem toOption_eq_some {α : Type} {x : Run α} {a : α} (h : x.toOption = some a) : x = .ok a := by
  cases x with
  | error _ => cases h
  | ok a' =>
    cases h
    rfl

/-- What indexing a block does. -/
structure Indexed (K : Crypto) (env : AddEnv) (n n' : IndexNode D) (b : IndexedBlock)
    (fields : IndexFields) : Prop where
  new : n.mapBlockIndex b.hash = none
  left : ∃ records, writeBlockIndex K env.clock (.ofIndex fields none (n.newPtr b)) n.txdb.2 =
      .ok records ∧
    n' = { n.index b with
      txdb := (n.txdb.1, records)
      exploredb := Function.update n.exploredb (n.newPtr b) fields }
  stored : fields.stake.stored = fields.stake
  checksum : getStakeModifierChecksum K env.hashGenesisBlock
    ((n.newPtr b).parent?.map fun q => (n.exploredb q).nStakeModifierChecksum) b.hash fields.stake =
      .ok fields.nStakeModifierChecksum
  checkpoint : checkStakeModifierCheckpoints env.checkpoints (n.newPtr b).height
    fields.nStakeModifierChecksum = true

theorem indexNew_spec {env : AddEnv} (h : indexNew K env n b = some n') :
    ∃ fields, Indexed K env n n' b fields := by
  unfold indexNew at h
  simp only at h
  split at h
  · cases h
  · next hnew =>
    obtain ⟨⟨bnStakeModifier, fGenerated⟩, -, h⟩ := Option.bind_eq_some_iff.mp h
    obtain ⟨checksum, hchecksum, h⟩ := Option.bind_eq_some_iff.mp h
    split at h
    · cases h
    · next hcheckpoint =>
      obtain ⟨records, hrecords, h⟩ := Option.bind_eq_some_iff.mp h
      cases h
      refine ⟨_, by simpa using hnew, ⟨records, toOption_eq_some hrecords, rfl⟩, ?_,
        toOption_eq_some hchecksum, by simpa using hcheckpoint⟩
      exact StakeFields.stored_new _ _ _ _ _

theorem hash_newPtr (n : IndexNode D) (b : IndexedBlock) : (n.newPtr b).hash = b.hash := by
  unfold Node.newPtr
  split <;> rfl

/-! ## 2. The invariant -/

/-- The blocks in the index of a node. -/
abbrev Known (n : IndexNode D) (p : BlockPtr) : Prop := n.mapBlockIndex p.hash = some p

/-- **Memory and records are in step**, on a tree of honest blocks. -/
structure IndexInv (K : Crypto) (g : IndexedBlock) (checkpoints : Nat → Option UInt32)
    (n : IndexNode D) (top : BlockPtr) : Prop where
  tree : TreeOk n g
  best : BestOk n top
  trust : n.nBestChainTrust = top.nChainTrust
  honest : ∀ {p : BlockPtr}, Known n p → HonestIndex K p
  fields : ∀ {p : BlockPtr}, Known n p → FieldsOk K g.hash checkpoints n.exploredb p
  sync : Synced (Known n) top.next n.exploredb n.txdb.2

variable {mem mem' : IndexMemory} {hashGenesisBlock : UInt256}

theorem FieldsOk.congr (h : FieldsOk K hashGenesisBlock checkpoints mem p)
    (hself : (mem' p).stake = (mem p).stake)
    (hsum : (mem' p).nStakeModifierChecksum = (mem p).nStakeModifierChecksum)
    (hparent : ∀ q ∈ p.parent?, (mem' q).nStakeModifierChecksum = (mem q).nStakeModifierChecksum) :
    FieldsOk K hashGenesisBlock checkpoints mem' p := by
  obtain ⟨hstored, hchecksum, hcheckpoint⟩ := h
  have hprev : (p.parent?.map fun q => (mem' q).nStakeModifierChecksum) =
      p.parent?.map fun q => (mem q).nStakeModifierChecksum := Option.map_congr hparent
  exact ⟨by rw [hself, hstored], by rw [hprev, hself, hsum, hchecksum], by rw [hsum, hcheckpoint]⟩

/-- Other counters leave what `AddToBlockIndex` made sure of. -/
theorem FieldsOk.sameStakes (h : FieldsOk K hashGenesisBlock checkpoints mem p)
    (hsame : SameStakes mem mem') :
    FieldsOk K hashGenesisBlock checkpoints mem' p :=
  h.congr (hsame p).1 (hsame p).2 fun q _ => (hsame q).2

/-! ## 3. Indexing a block -/

section

variable {env : AddEnv} {fields : IndexFields} (h : Indexed K env n n' b fields)

include h

theorem Indexed.known_iff : Known n' p ↔ p = n.newPtr b ∨ Known n p := by
  obtain ⟨records, -, rfl⟩ := h.left
  have hmap : ∀ k, (n.index b).mapBlockIndex k =
      if k = b.hash then some (n.newPtr b) else n.mapBlockIndex k := by
    intro k
    by_cases hk : k = b.hash
    · rw [if_pos hk, hk]
      exact Function.update_self ..
    · rw [if_neg hk]
      exact Function.update_of_ne hk ..
  have hknown : Known { n.index b with
      txdb := (n.txdb.1, records)
      exploredb := Function.update n.exploredb (n.newPtr b) fields } p ↔
        (n.index b).mapBlockIndex p.hash = some p := Iff.rfl
  rw [hknown, hmap]
  by_cases hp : p.hash = b.hash
  · rw [if_pos hp, Option.some_inj]
    constructor
    · exact fun heq => Or.inl heq.symm
    · rintro (heq | hold)
      · exact heq.symm
      · unfold Known at hold
        rw [hp, h.new] at hold
        cases hold
  · rw [if_neg hp]
    constructor
    · exact Or.inr
    · rintro (rfl | hold)
      · exact absurd (hash_newPtr n b) hp
      · exact hold

theorem Indexed.not_known : ¬ Known n (n.newPtr b) := by
  intro hknown
  unfold Known at hknown
  rw [hash_newPtr, h.new] at hknown
  cases hknown

theorem Indexed.exploredb_of_known (hp : Known n p) : n'.exploredb p = n.exploredb p := by
  have hne : p ≠ n.newPtr b := by
    rintro rfl
    exact h.not_known hp
  obtain ⟨records, -, rfl⟩ := h.left
  exact Function.update_of_ne hne ..

theorem Indexed.exploredb_self : n'.exploredb (n.newPtr b) = fields := by
  obtain ⟨records, -, rfl⟩ := h.left
  exact Function.update_self ..

/-- The record of the new block is written, and the others are left. -/
theorem Indexed.sync {links : BlockPtr → Option BlockPtr} (hhonest : HonestIndex K (n.newPtr b))
    (hsync : Synced (Known n) links n.exploredb n.txdb.2) (hlink : links (n.newPtr b) = none) :
    Synced (Known n') links n'.exploredb n'.txdb.2 := by
  obtain ⟨records, hwrite, hleft⟩ := h.left
  rw [hhonest.write] at hwrite
  cases hwrite
  have hrecords : n'.txdb.2 = Function.update n.txdb.2 (n.newPtr b).hash
      (some (storedRecord fields none (n.newPtr b))) := by
    rw [hleft]
  rw [hrecords]
  constructor
  · intro p hp
    rcases h.known_iff.mp hp with rfl | hold
    · rw [Function.update_self, h.exploredb_self, hlink]
    · have hne : p.hash ≠ (n.newPtr b).hash := by
        intro heq
        unfold Known at hold
        rw [heq, hash_newPtr, h.new] at hold
        cases hold
      rw [Function.update_of_ne hne, h.exploredb_of_known hold]
      exact hsync.record hold
  · intro k r hr
    by_cases hk : k = (n.newPtr b).hash
    · exact ⟨n.newPtr b, h.known_iff.mpr (Or.inl rfl), hk.symm⟩
    · rw [Function.update_of_ne hk] at hr
      obtain ⟨p, hp, hhash⟩ := hsync.only hr
      exact ⟨p, h.known_iff.mpr (Or.inr hp), hhash⟩

/-- What is made sure of for the new block, and stays so for the others. -/
theorem Indexed.fieldsOk (hgenesis : env.hashGenesisBlock = g.hash)
    (hcheckpoints : env.checkpoints = checkpoints)
    (hparent : ∀ {p q : BlockPtr}, Known n p → p.parent? = some q → Known n q)
    (hself : ∀ q ∈ (n.newPtr b).parent?, Known n q)
    (hold : ∀ {p : BlockPtr}, Known n p → FieldsOk K g.hash checkpoints n.exploredb p)
    (hp : Known n' p) : FieldsOk K g.hash checkpoints n'.exploredb p := by
  rcases h.known_iff.mp hp with rfl | hknown
  · have hprev : ((n.newPtr b).parent?.map fun q => (n'.exploredb q).nStakeModifierChecksum) =
        (n.newPtr b).parent?.map fun q => (n.exploredb q).nStakeModifierChecksum :=
      Option.map_congr fun q hq => by rw [h.exploredb_of_known (hself q hq)]
    refine ⟨?_, ?_, ?_⟩
    · rw [h.exploredb_self, h.stored]
    · rw [hprev, h.exploredb_self, hash_newPtr, ← hgenesis]
      exact h.checksum
    · rw [h.exploredb_self, ← hcheckpoints]
      exact h.checkpoint
  · refine (hold hknown).congr ?_ ?_ fun q hq => ?_
    · rw [h.exploredb_of_known hknown]
    · rw [h.exploredb_of_known hknown]
    · rw [h.exploredb_of_known (hparent hknown hq)]

end

/-- **Indexing keeps memory and records in step.** -/
theorem IndexInv.index {env : AddEnv} (h : IndexInv K g checkpoints n top)
    (hprev : (n.mapBlockIndex b.block.hashPrevBlock).isSome = true)
    (hhonest : HonestIndex K (n.newPtr b)) (hgenesis : env.hashGenesisBlock = g.hash)
    (hcheckpoints : env.checkpoints = checkpoints) (hnew : indexNew K env n b = some n') :
    IndexInv K g checkpoints n' top := by
  obtain ⟨fields, hindexed⟩ := indexNew_spec hnew
  obtain ⟨htree, hbest⟩ := index_ok h.tree h.best hindexed.new hprev
  obtain ⟨q, hq⟩ := Option.isSome_iff_exists.mp hprev
  have hptr : n.newPtr b = .child b q := by
    unfold Node.newPtr
    rw [hq]
  have hqknown : Known n q := by
    unfold Known
    rw [h.tree.hash_eq hq]
    exact hq
  have hlink : top.next (n.newPtr b) = none := by
    by_contra hsome
    obtain ⟨r, hr⟩ := Option.ne_none_iff_exists'.mp hsome
    obtain ⟨hmem, hpar⟩ := Branch.next_eq_some.mp hr
    exact hindexed.not_known (h.tree.ancestors_known h.best.known (Branch.parent_mem hmem hpar))
  have hself : ∀ r ∈ (n.newPtr b).parent?, Known n r := by
    rw [hptr]
    rintro r hr
    cases hr
    exact hqknown
  have hstep : TreeOk n' g ∧ BestOk n' top ∧ n'.nBestChainTrust = n.nBestChainTrust := by
    obtain ⟨records, -, rfl⟩ := hindexed.left
    exact ⟨htree.congr ⟨rfl, rfl⟩, ⟨hbest.pindexBest, hbest.hashBestChain, hbest.nBestHeight,
      ⟨hbest.tables.pnext, hbest.tables.lookup⟩, hbest.txdbBest, hbest.known⟩, rfl⟩
  obtain ⟨htree', hbest', htrust⟩ := hstep
  refine ⟨htree', hbest', htrust.trans h.trust, ?_, ?_, hindexed.sync hhonest h.sync hlink⟩
  · intro p hp
    rcases hindexed.known_iff.mp hp with rfl | hold
    · exact hhonest
    · exact h.honest hold
  · intro p hp
    exact hindexed.fieldsOk hgenesis hcheckpoints (fun hp hq => (h.tree.parent hp hq).1) hself
      h.fields hp

variable {mem : IndexMemory}

/-- The node that is loaded is the one with the genesis block, whose databases are those that indexing
it leaves. -/
theorem loadGenesis_eq {env : AddEnv} (work : IndexWork D) (f : Bool) {d : D}
    (htrust : 0 < getBlockTrust g.block.nBits) (hgenesis : env.hashGenesisBlock = g.hash)
    (hnew : indexNew K env (Node.empty (d, fun _ => none) mem) g = some n') :
    loadGenesis K env work f d mem g =
      Node.loadBlockIndex (indexOps K env.clock work) f n'.txdb n'.exploredb g := by
  obtain ⟨fields, hindexed⟩ := indexNew_spec hnew
  obtain ⟨records, -, hleft⟩ := hindexed.left
  have hadd : IndexNode.addToBlockIndex K env work f (Node.empty (d, fun _ => none) mem) g =
      setBestChain (indexOps K env.clock work) g.hash f n' (.root g) := by
    unfold IndexNode.addToBlockIndex
    rw [hnew, hgenesis]
    exact if_pos htrust
  have hset : setBestChain (indexOps K env.clock work) g.hash f n' (.root g) =
      (true, publish f (.root g)
        { n' with txdbBest := g.hash, pindexGenesisBlock := some (.root g) }) := by
    rw [hleft]
    exact if_pos ⟨rfl, rfl⟩
  rw [loadBlockIndex_eq _ _ _ _ htrust]
  unfold loadGenesis
  rw [hadd, hset, hleft]
  simp [publish, locatorSet, Branch.parent?, Node.index, Node.newPtr, BlockPtr.hash, Branch.top,
    Branch.height, BlockPtr.nChainTrust, Node.empty]

/-- The node that is loaded is in step. -/
theorem IndexInv.load {env : AddEnv} (work : IndexWork D) (f : Bool) {d : D}
    (htrust : 0 < getBlockTrust g.block.nBits) (hhonest : HonestIndex K (.root g))
    (hgenesis : env.hashGenesisBlock = g.hash) (hcheckpoints : env.checkpoints = checkpoints)
    (hnew : indexNew K env (Node.empty (d, fun _ => none) mem) g = some n') :
    IndexInv K g checkpoints (loadGenesis K env work f d mem g) (.root g) := by
  obtain ⟨fields, hindexed⟩ := indexNew_spec hnew
  rw [loadGenesis_eq work f htrust hgenesis hnew]
  obtain ⟨htree, hbest⟩ := load_ok (indexOps K env.clock work) f n'.txdb n'.exploredb htrust
  have hnone : ∀ {p : BlockPtr}, ¬ Known (Node.empty (d, fun _ => none) mem) p := nofun
  have hsync : Synced (Known n') (Branch.root g).next n'.exploredb n'.txdb.2 :=
    hindexed.sync hhonest ⟨fun hp => absurd hp hnone, nofun⟩
      (Branch.next_eq_none_of_le (le_refl _))
  rw [loadBlockIndex_eq _ _ _ _ htrust] at htree hbest ⊢
  have hknown : ∀ {p : BlockPtr}, Known n' p ↔
      Function.update (fun _ => none) g.hash (some (Branch.root g)) p.hash = some p := by
    intro p
    obtain ⟨records, -, rfl⟩ := hindexed.left
    exact Iff.rfl
  refine ⟨htree, hbest, rfl, ?_, ?_, ?_⟩
  · intro p hp
    rcases hindexed.known_iff.mp (hknown.mpr hp) with rfl | hold
    · exact hhonest
    · exact absurd hold hnone
  · intro p hp
    exact hindexed.fieldsOk hgenesis hcheckpoints (fun hp => absurd hp hnone)
      (fun q hq => nomatch hq) (fun hp => absurd hp hnone) (hknown.mpr hp)
  · exact ⟨fun hp => hsync.record (hknown.mpr hp), fun hr => by
      obtain ⟨p, hp, hhash⟩ := hsync.only hr
      exact ⟨p, hknown.mp hp, hhash⟩⟩

/-! ## 4. Calls -/

/-- A call fails and leaves the databases, or its block has the chain and the records are those of
it. -/
theorem IndexInv.setBestChain_cases (h : IndexInv K g checkpoints n top) (clock : IndexClock)
    (work : IndexWork D) (f : Bool) (hknown : Known n p)
    (hpost : PostponedOk (indexOps K clock work) n p) :
    ((batch (indexOps K clock work) n p).1 = none ∧
      setBestChain (indexOps K clock work) g.hash f n p =
        (false, { n with exploredb := (batch (indexOps K clock work) n p).2 })) ∨
      ∃ n', setBestChain (indexOps K clock work) g.hash f n p = (true, publish f p n') ∧
        Synced (Known n) p.next n'.exploredb n'.txdb.2 ∧ SameStakes n.exploredb n'.exploredb := by
  have hcarry := indexOps_carry clock work n.exploredb (fun hp hq => known_inj hp hq) h.honest
    fun hp hq => (h.tree.parent hp hq).1
  have hU : ∀ {r q : BlockPtr}, q ∈ p.ancestors → q ∉ r.ancestors → Known n q ∧ r.next q = none := by
    intro r q hq hqr
    refine ⟨h.tree.ancestors_known hknown hq, ?_⟩
    by_contra hsome
    obtain ⟨s, hs⟩ := Option.ne_none_iff_exists'.mp hsome
    obtain ⟨hmem, hpar⟩ := Branch.next_eq_some.mp hs
    exact hqr (Branch.parent_mem hmem hpar)
  have hV : ∀ q ∈ top.ancestors, Known n q := fun q hq => h.tree.ancestors_known h.best.known hq
  exact hcarry.setBestChain h.tree h.best hknown hpost hU hV ⟨h.sync, .refl _⟩ f

/-- **A call keeps memory and records in step**, if it throws no changed counters away. -/
theorem IndexInv.call (h : IndexInv K g checkpoints n top) (clock : IndexClock) (work : IndexWork D)
    (f : Bool) (hknown : Known n p) (hkept : CallKept (indexOps K clock work) n p) :
    ∃ top', IndexInv K g checkpoints (setBestChain (indexOps K clock work) g.hash f n p).2 top' := by
  obtain ⟨hpost, hbatch⟩ := hkept
  obtain ⟨htree, hbest⟩ := setBestChain_spec h.tree h.best hknown hpost f
  rcases h.setBestChain_cases clock work f hknown hpost with
    ⟨hnone, hfail⟩ | ⟨n', hdone, hsync, hstakes⟩
  · refine ⟨top, ?_⟩
    rw [hfail, hbatch hnone]
    exact h
  · refine ⟨p, ?_⟩
    rw [hdone] at htree hbest ⊢
    have hsame : ∀ {q : BlockPtr}, Known (publish f p n') q ↔ Known n q := by
      intro q
      unfold Known
      rw [htree.1]
    refine ⟨h.tree.congr htree, hbest, rfl, ?_, ?_, ?_⟩
    · exact fun hq => h.honest (hsame.mp hq)
    · exact fun hq => (h.fields (hsame.mp hq)).sameStakes hstakes
    · exact ⟨fun hq => hsync.record (hsame.mp hq), fun hr => by
        obtain ⟨q, hq, hhash⟩ := hsync.only hr
        exact ⟨q, hsame.mpr hq, hhash⟩⟩

/-- **Memory and records are in step in every run** whose calls throw no changed counters away. -/
theorem IndexRun.inv (h : IndexRun K g checkpoints CallKept n) :
    ∃ top, IndexInv K g checkpoints n top := by
  induction h with
  | load f d mem htrust hhonest hgenesis hcheckpoints hnew =>
    obtain ⟨n', hnew⟩ := Option.isSome_iff_exists.mp hnew
    exact ⟨_, .load _ f htrust hhonest hgenesis hcheckpoints hnew⟩
  | index _ hprev hhonest hgenesis hcheckpoints hnew ih =>
    obtain ⟨top, hinv⟩ := ih
    exact ⟨top, hinv.index hprev hhonest hgenesis hcheckpoints hnew⟩
  | call clock work f _ hknown hkept ih =>
    obtain ⟨top, hinv⟩ := ih
    exact hinv.call clock work f hknown hkept

/-! ## 5. Loading again -/

/-- What is loaded is what the node has in memory, with ids for pointers. -/
structure SameNode (n : IndexNode D) (l : LoadedNode) : Prop where
  index : ∀ {p : BlockPtr}, Known n p →
    l.mapBlockIndex p.hash = some (.ofPtr n.exploredb n.pnext p)
  only : ∀ {h : UInt256}, (l.mapBlockIndex h).isSome → (n.mapBlockIndex h).isSome
  genesis : l.pindexGenesisBlock = n.pindexGenesisBlock.map BlockPtr.hash
  pindexBest : l.pindexBest = n.pindexBest.map BlockPtr.hash
  hashBestChain : l.hashBestChain = n.hashBestChain
  nBestHeight : l.nBestHeight = n.nBestHeight
  nBestChainTrust : l.nBestChainTrust = n.nBestChainTrust
  lookup : ∀ k, l.mapBlockLookup k = (n.mapBlockLookup k).map BlockPtr.hash

/-- **`LoadBlockIndex` on the committed records gives the memory back**, in whatever order the records
are read, if the blocks themselves can be read.  The best chain is moved back only from a block that
is found bad. -/
def Reloads (K : Crypto) (hashGenesisBlock : UInt256) (checkpoints : Nat → Option UInt32)
    (n : IndexNode D) : Prop :=
  ∀ (env : LoadEnv) (entries : List (UInt256 × IndexRecord)),
    env.hashGenesisBlock = hashGenesisBlock → env.checkpoints = checkpoints →
    Visits entries n.txdb.2 → (∀ p, Known n p → (env.checkBlock p.hash).isSome = true) →
    ∃ l, CTxDB.loadBlockIndex K env (entries.map Prod.snd) (some n.txdbBest) = .ok l ∧
      SameNode n l ∧
      ((∀ p, Known n p → env.checkBlock p.hash = some true) → l.pindexFork = none)

theorem IndexInv.indexedTree (h : IndexInv K g checkpoints n top) :
    IndexedTree K g.hash checkpoints (Known n) n.exploredb top := by
  have hroot : Known n (.root g) := by
    have hbottom := h.tree.bottom h.best.known
    refine h.tree.ancestors_known h.best.known ?_
    rw [← hbottom]
    exact Branch.bottom_mem_ancestors top
  refine ⟨known_inj, fun hp hq => (h.tree.parent hp hq).1, ?_, h.honest, h.fields, h.best.known⟩
  intro p hp
  constructor
  · intro hnone
    cases p with
    | root b =>
      have hbottom : Branch.root b = .root g := h.tree.bottom hp
      rw [hbottom]
      rfl
    | child b q => cases hnone
  · intro hhash
    rw [known_inj hp hroot hhash]
    rfl

/-- Memory and records that are in step are the same after a restart. -/
theorem IndexInv.reloads (h : IndexInv K g checkpoints n top) :
    Reloads K g.hash checkpoints n := by
  rintro env entries hgenesis hcheckpoints hvisits hreadable
  have hanc : ∀ q ∈ top.ancestors, Known n q := fun q hq => h.tree.ancestors_known h.best.known hq
  have htree := h.indexedTree
  rw [← hgenesis, ← hcheckpoints] at htree
  obtain ⟨l, hload, hl, hfork⟩ := CTxDB.loadBlockIndex_spec htree h.sync hvisits
    fun q hq => hreadable q (hanc q hq)
  rw [h.best.txdbBest]
  refine ⟨l, hload, ?_, fun hgood => hfork fun q hq => hgood q (hanc q hq)⟩
  constructor
  · intro p hp
    rw [h.best.tables.pnext]
    exact hl.index hp
  · intro k hk
    obtain ⟨p, hp, rfl⟩ := hl.only hk
    rw [hp]
    rfl
  · rw [hl.genesis, h.tree.genesis, hgenesis]
    rfl
  · rw [hl.pindexBest, h.best.pindexBest]
    rfl
  · rw [hl.hashBestChain, h.best.hashBestChain]
  · rw [hl.nBestHeight, h.best.nBestHeight]
  · rw [hl.nBestChainTrust, h.trust]
  · intro k
    rw [hl.lookup, h.best.tables.lookup]

/-- **A restart changes nothing**, after any run in which no batch that is thrown away has changed the
counters in memory and no postponed reconnect fails. -/
theorem reloads_of_run (h : IndexRun K g checkpoints CallKept n) :
    Reloads K g.hash checkpoints n := by
  obtain ⟨top, hinv⟩ := h.inv
  exact hinv.reloads

/-! ## 6. A node that has reorganised -/

/-- What the example's node reads when it indexes a block. -/
def testAdd : AddEnv where
  clock := ⟨true, 1465546351⟩
  hashGenesisBlock := testGenesis.hash
  checkpoints _ := none
  hashProof := 0
  computeNextStakeModifier _ := some (0, false)

/-- What its `ConnectBlock` and `DisconnectBlock` do. -/
def testWork : IndexWork TxDB := nodeWork forkCrypto (testEnv fun _ => none)

/-- The node with the genesis block. -/
def savedStart : IndexNode TxDB :=
  loadGenesis forkCrypto testAdd testWork true (fun _ => none)
    (fun _ => ⟨⟨0, 0, ⟨0, 0xffffffff⟩, 0, 0⟩, 0, .new testGenesis.block⟩) testGenesis

/-- The node when a block is indexed. -/
def afterIndex (n : IndexNode TxDB) (b : IndexedBlock) : IndexNode TxDB :=
  (indexNew forkCrypto testAdd n b).getD n

/-- The node when `SetBestChain` has been called. -/
def afterCall (n : IndexNode TxDB) (p : BlockPtr) : IndexNode TxDB :=
  (setBestChain (indexOps forkCrypto testAdd.clock testWork) testGenesis.hash true n p).2

/-- The node when the first block is its best. -/
def savedFirst : IndexNode TxDB := afterCall (afterIndex savedStart (firstBlock payScript)) (firstPtr payScript)

/-- Runs of the example's node. -/
abbrev SavedRun : IndexNode TxDB → Prop :=
  IndexRun forkCrypto testGenesis (fun _ => none) CallKept

/-- A block of the example is honest: nothing of its extended header is hashed. -/
theorem honestIndex_of {p : BlockPtr}
    (h : p.hash ≠ 0 ∧ p.top.block.getHash forkCrypto = .ok p.hash ∧
      p.hashPrevBlock = (p.parent?.map BlockPtr.hash).getD 0 ∧ ¬ p.top.block.HashesExtended ∧
      p.top.block.reread = p.top.block) : HonestIndex forkCrypto p := by
  obtain ⟨hne, hid, hprev, hheight, hreread⟩ := h
  exact ⟨hne, hid, hprev, Or.inl hheight, hreread⟩

theorem SavedRun.indexed {n : IndexNode TxDB} (h : SavedRun n) {b : IndexedBlock}
    (hprev : (n.mapBlockIndex b.block.hashPrevBlock).isSome = true)
    (hhonest : HonestIndex forkCrypto (n.newPtr b))
    (hnew : (indexNew forkCrypto testAdd n b).isSome = true) : SavedRun (afterIndex n b) := by
  obtain ⟨n', hnew⟩ := Option.isSome_iff_exists.mp hnew
  unfold afterIndex
  rw [hnew]
  have hgenesis : testAdd.hashGenesisBlock = testGenesis.hash := rfl
  exact .index h hprev hhonest hgenesis rfl hnew

theorem SavedRun.called {n : IndexNode TxDB} (h : SavedRun n) {p : BlockPtr} (hknown : Known n p)
    (hnone : ∀ best ∈ n.pindexBest, (postpone best.nChainTrust p).2 = [])
    (hsome : (batch (indexOps forkCrypto testAdd.clock testWork) n p).1.isSome = true) :
    SavedRun (afterCall n p) := by
  refine .call testAdd.clock testWork true h hknown ⟨postponedOk_of_nil hnone, fun hfail => ?_⟩
  rw [hfail] at hsome
  cases hsome

theorem savedStart_run : SavedRun savedStart :=
  .load true _ _ (by decide +kernel) (honestIndex_of (by decide +kernel)) rfl rfl
    (by decide +kernel)

theorem savedFirst_run : SavedRun savedFirst := by
  have hindexed : SavedRun (afterIndex savedStart (firstBlock payScript)) :=
    savedStart_run.indexed (by decide +kernel) (honestIndex_of (by decide +kernel))
      (by decide +kernel)
  exact hindexed.called (by decide +kernel) (by decide +kernel) (by decide +kernel)

/-- The node when it has reorganised from the first block to another one. -/
def savedReorganized : IndexNode TxDB :=
  afterCall (afterIndex savedFirst sideBlock) (.child sideBlock (.root testGenesis))

theorem savedReorganized_run : SavedRun savedReorganized := by
  have hside : SavedRun (afterIndex savedFirst sideBlock) :=
    savedFirst_run.indexed (by decide +kernel) (honestIndex_of (by decide +kernel))
      (by decide +kernel)
  exact hside.called (by decide +kernel) (by decide +kernel) (by decide +kernel)

/-- The node is the same after a restart, also when it has reorganised. -/
theorem reloads_of_run_reorganized :
    savedFirst.pindexBest = some (firstPtr payScript) ∧
      savedReorganized.pindexBest = some (.child sideBlock (.root testGenesis)) ∧
      Reloads forkCrypto testGenesis.hash (fun _ => none) savedReorganized :=
  ⟨by decide +kernel, by decide +kernel, reloads_of_run savedReorganized_run⟩

end Breakout
