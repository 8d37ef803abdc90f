/-
# The explorer's index and a call that fails

The explorer commits its own batch once per block, inside `ConnectBlock` and `DisconnectBlock`,
while the transaction database commits once per reorganisation.  When a block operation fails
part-way, the transaction database is as it was, and the index has all that was done before.

`explore_after_failure` says when that does no harm: a call that fails leaves an index that
describes the committed chain if and only if the operation that failed was the first.  The index's
record of the best block shows it: every operation writes the block it got to, and none of these is
the old best block.
-/
import Breakout.ExploreUndo

namespace Breakout

open Lib Node

/-! ## 1. The operations with the explorer -/

/-- `ConnectBlock` and `DisconnectBlock` with the explorer's index.  They end in its call, which
sees the batch of the transaction database; the map in memory is in step with the index. -/
def exploreOps (K : Crypto) (X : Explorer) (env : NodeEnv) (pos : DiskBlockPos) :
    BlockOps ChainState ExploreDB where
  connectBlock _ p s d :=
    match connectBlock K { env with fExplore := true } s.txdb
      (newBlockIndex p.top.pos p.top.block (tipOf pos s.blocks)) (tipOf pos s.blocks)
      (ancestorsOf pos s.blocks) p.top.block false with
    | .error _ => (none, d)
    | .ok (pindex', txdb') =>
      match exploreConnectBlock K X env txdb' p.hash (some (exploreIndex p)) p.top.block
        ⟨d, d.sizes⟩ with
      | (false, _) => (none, d)
      | (true, e) => (some ⟨txdb', (pindex', p.top.block) :: s.blocks⟩, e.db)
  disconnectBlock _ p s d :=
    match disconnectTxs K p.top.block.vtx.reverse s.txdb with
    | .error _ => (none, d)
    | .ok txdb' =>
      match exploreDisconnectBlock K X env txdb' (some (exploreIndex p)) p.top.block
        ⟨d, d.sizes⟩ with
      | (false, _) => (none, d)
      | (true, e) => (some ⟨txdb', s.blocks.tail⟩, e.db)

/-- **The index describes the chain of a branch**: its record of the best block, and the records of
every address. -/
structure DescribesChain (K : Crypto) (X : Explorer) (T : Set CTransaction) (p : BlockPtr)
    (d : ExploreDB) : Prop where
  best : d.exploreBest = some (p.hash, (p.height : Int))
  addr : ∀ key, Represents (d.addr key) (booksOf (entriesOf K X T (chainTxs p)) key)

/-- The first block operation of the call is the one that fails: the block goes on top of the best
block, or the first operation of the reorganisation does not go through. -/
def FailsAtOnce {DB E : Type} (ops : BlockOps DB E) (n : Node DB E) (p : BlockPtr) : Prop :=
  p.hashPrevBlock = n.hashBestChain ∨
    ∀ best pfork, n.pindexBest = some best →
      best.findFork (postpone best.nChainTrust p).1 = some pfork →
      ∀ op ∈ (reorgOps ops n.pnext best pfork (postpone best.nChainTrust p).1).head?,
        (op n.txdb n.exploredb).1 = none

variable {K : Crypto} {X : Explorer} {T : Set CTransaction} {env : NodeEnv} {pos : DiskBlockPos}
  {pnext : BlockPtr → Option BlockPtr} {p q : BlockPtr} {b : IndexedBlock} {s s' : ChainState}
  {d d' : ExploreDB}

/-- A block that is not connected leaves the index. -/
theorem exploreOps_not_connected
    (h : ((exploreOps K X env pos).connectBlock pnext p s d).1 = none) :
    ((exploreOps K X env pos).connectBlock pnext p s d).2 = d := by
  simp only [exploreOps] at h ⊢
  split
  · rfl
  · split
    · rfl
    · next hconn _ _ hexplore =>
      rw [hconn] at h
      simp only [hexplore] at h
      cases h

/-- A block that is not disconnected leaves the index. -/
theorem exploreOps_not_disconnected
    (h : ((exploreOps K X env pos).disconnectBlock pnext p s d).1 = none) :
    ((exploreOps K X env pos).disconnectBlock pnext p s d).2 = d := by
  simp only [exploreOps] at h ⊢
  split
  · rfl
  · split
    · rfl
    · next hdisc _ _ hexplore =>
      rw [hdisc] at h
      simp only [hexplore] at h
      cases h

theorem exploreBest_of_connect
    (h : (exploreOps K X env pos).connectBlock pnext p s d = (some s', d')) :
    d'.exploreBest = some (p.hash, (p.height : Int)) := by
  simp only [exploreOps] at h
  split at h
  · cases h
  · split at h
    · cases h
    · next hrun =>
      cases h
      unfold exploreConnectBlock at hrun
      simp only at hrun
      split at hrun
      · cases hrun
      · cases hrun
        rfl

theorem exploreBest_of_disconnect
    (h : (exploreOps K X env pos).disconnectBlock pnext (.child b p) s d = (some s', d')) :
    d'.exploreBest = some (BlockPtr.hash p, (Branch.height p : Int)) := by
  simp only [exploreOps] at h
  split at h
  · cases h
  · split at h
    · cases h
    · next hrun =>
      cases h
      unfold exploreDisconnectBlock at hrun
      split at hrun
      · cases hrun
      · simp only [exploreIndex, Branch.parent?, Option.map_some, Option.bind_some] at hrun
        cases hrun
        rfl

/-! ## 2. Where the operations lead -/

/-- An operation that goes through leaves `Q`, and one that does not leaves what there was. -/
def Leads {DB E : Type} (Q : E → Prop) (f : DB → E → Option DB × E) : Prop :=
  (∀ db e db' e', f db e = (some db', e') → Q e') ∧ ∀ db e, (f db e).1 = none → (f db e).2 = e

/-- What every operation leaves is left by a row of them. -/
theorem runOps_forall {DB E : Type} {Q : E → Prop} :
    ∀ {l : List (DB → E → Option DB × E)} {db : DB} {e : E},
      (∀ f ∈ l, Leads Q f) → Q e → Q (runOps l db e).2
  | [], _, _, _, h => h
  | f :: fs, db, e, hall, h => by
    obtain ⟨⟨hf, hfail⟩, hfs⟩ := List.forall_mem_cons.mp hall
    rw [runOps]
    split
    · next e' hop =>
      have hsame := hfail db e (by rw [hop])
      rw [hop] at hsame
      exact hsame ▸ h
    · next hop => exact runOps_forall hfs (hf _ _ _ _ hop)

section

variable {n n' : Node ChainState ExploreDB} {g : IndexedBlock} {best f : BlockPtr}

/-- **No operation of a reorganisation leads to the old best block.** -/
theorem reorgOps_leave (htree : TreeOk n g) (hbest : n.mapBlockIndex best.hash = some best)
    (hp : n.mapBlockIndex p.hash = some p) (hfork : best.findFork p = some f) :
    ∀ op ∈ reorgOps (exploreOps K X env pos) pnext best f p,
      Leads (fun d => d.exploreBest ≠ some (best.hash, (best.height : Int))) op := by
  obtain ⟨hfb, hfp, hlast⟩ := Branch.findFork_spec hfork
  have hne : ∀ q : BlockPtr, n.mapBlockIndex q.hash = some q → q ≠ best →
      some (q.hash, (q.height : Int)) ≠ some (best.hash, (best.height : Int)) := by
    intro q hq hne heq
    rw [Option.some_inj, Prod.mk.injEq] at heq
    exact hne (known_inj hq hbest heq.1)
  intro op hop
  rcases List.mem_append.mp hop with hop | hop
  · obtain ⟨q, hq, rfl⟩ := List.mem_map.mp hop
    refine ⟨fun s d s' d' hrun => ?_, fun s d => exploreOps_not_disconnected⟩
    have hheight := height_lt_of_mem_above hfb hq
    have hanc := mem_ancestors_of_mem_above hfb hq
    cases q with
    | root b => exact absurd hheight (Nat.not_lt_zero _)
    | child b q =>
      beta_reduce
      rw [exploreBest_of_disconnect hrun]
      have hqanc : q ∈ best.ancestors := Branch.parent_mem hanc rfl
      refine hne q (htree.ancestors_known hbest hqanc) ?_
      rintro rfl
      have hle := Branch.height_le_of_mem hanc
      exact absurd hle (Nat.not_succ_le_self _)
  · obtain ⟨q, hq, rfl⟩ := List.mem_map.mp hop
    rw [List.mem_reverse] at hq
    refine ⟨fun s d s' d' hrun => ?_, fun s d => exploreOps_not_connected⟩
    have hheight := height_lt_of_mem_above hfp hq
    have hanc := mem_ancestors_of_mem_above hfp hq
    beta_reduce
    rw [exploreBest_of_connect hrun]
    refine hne q (htree.ancestors_known hp hanc) ?_
    rintro rfl
    have hle := Branch.height_le_of_mem (hlast q (Branch.self_mem_ancestors q) hanc)
    exact absurd hheight (Nat.not_lt.mpr hle)

/-- What a reorganisation that fails leaves. -/
theorem reorganize_failed (hok : BestOk n best) {ops : BlockOps ChainState ExploreDB}
    (h : reorganize ops n p = (false, n')) :
    n'.txdbBest = n.txdbBest ∧ n'.txdb = n.txdb ∧
      ((best.findFork p = none ∧ n'.exploredb = n.exploredb) ∨ ∃ f, best.findFork p = some f ∧
        n'.exploredb = (runOps (reorgOps ops n.pnext best f p) n.txdb n.exploredb).2) := by
  have hsame : n'.txdbBest = n.txdbBest ∧ n'.txdb = n.txdb := by
    rcases @reorganize_cases _ _ ops n best p hok.pindexBest hok.tables with
      ⟨e, he, -⟩ | ⟨n₁, h₁, -, -⟩
    · rw [h] at he
      cases he
      exact ⟨rfl, rfl⟩
    · rw [h] at h₁
      cases h₁
  refine ⟨hsame.1, hsame.2, ?_⟩
  unfold reorganize at h
  rw [hok.pindexBest] at h
  simp only at h
  split at h
  · next hnone =>
    cases h
    exact Or.inl ⟨hnone, rfl⟩
  · next f hfork =>
    refine Or.inr ⟨f, hfork, ?_⟩
    split at h
    · next e hrun =>
      cases h
      rw [hrun]
    · next db e hrun =>
      split at h
      · cases h
        rw [hrun, (foldl_framed unlink_framed (best.above f) (n.commit p db e)).exploredb]
        rfl
      · cases h

/-- A row of operations that fails at the first leaves what there was, and one that does not leaves
what an operation left. -/
theorem runOps_head {DB E : Type} {Q : E → Prop} {l : List (DB → E → Option DB × E)} {db : DB}
    {e : E} (hall : ∀ f ∈ l, Leads Q f) :
    (∀ f ∈ l.head?, (f db e).1 = none) ∧ (runOps l db e).2 = e ∨
      (¬ ∀ f ∈ l.head?, (f db e).1 = none) ∧ Q (runOps l db e).2 := by
  cases l with
  | nil => exact Or.inl ⟨nofun, rfl⟩
  | cons f fs =>
    obtain ⟨⟨hf, hfail⟩, hfs⟩ := List.forall_mem_cons.mp hall
    rw [runOps]
    split
    · next e' hop =>
      have hnone : (f db e).1 = none := by rw [hop]
      have hsame := hfail db e hnone
      rw [hop] at hsame
      refine Or.inl ⟨?_, hsame⟩
      rintro _ ⟨⟩
      exact hnone
    · next hop =>
      refine Or.inr ⟨fun h => ?_, runOps_forall hfs (hf _ _ _ _ hop)⟩
      have hnone := h f rfl
      rw [hop] at hnone
      cases hnone

/-- **The index after a call that failed** describes the committed chain, as it did before, if and
only if the operation that failed was the first one of the call.  The transaction database is as it
was in either case. -/
theorem explore_after_failure {A : Set (BlockOps ChainState ExploreDB)} (hrun : Calls A g s d n)
    (hbest : n.pindexBest = some best) (hdesc : DescribesChain K X T best n.exploredb)
    (hp : n.mapBlockIndex p.hash = some p) {fIsInitialDownload : Bool}
    (hfail : setBestChain (exploreOps K X env pos) g.hash fIsInitialDownload n p = (false, n')) :
    n'.txdbBest = best.hash ∧ n'.txdb = n.txdb ∧
      (DescribesChain K X T best n'.exploredb ↔ FailsAtOnce (exploreOps K X env pos) n p) := by
  obtain ⟨htree, best', hok⟩ := hrun.inv
  obtain rfl : best' = best := Option.some_inj.mp (hok.pindexBest.symm.trans hbest)
  have hgen : ¬ (n.pindexGenesisBlock = none ∧ p.hash = g.hash) := by
    rw [htree.genesis]
    exact fun h => nomatch h.1
  unfold setBestChain at hfail
  rw [if_neg hgen] at hfail
  split at hfail
  · next hext =>
    -- on top of the best block there is one operation, and it failed
    have hsame : n'.exploredb = n.exploredb ∧ n'.txdbBest = n.txdbBest ∧ n'.txdb = n.txdb := by
      cases p with
      | root b =>
        cases hfail
        exact ⟨rfl, rfl, rfl⟩
      | child b q =>
        obtain ⟨hq, hprev⟩ := htree.parent hp rfl
        obtain rfl : q = best' := by
          rw [hprev, hok.hashBestChain] at hext
          exact known_inj hq hok.known hext
        rcases @setBestChainInner_cases _ _ (exploreOps K X env pos) n b q hok.tables with
          ⟨e, hop, hinner⟩ | ⟨n₁, hinner, -⟩
        · rw [hinner] at hfail
          cases hfail
          have hleft := exploreOps_not_connected (congrArg Prod.fst hop)
          rw [hop] at hleft
          exact ⟨hleft, rfl, rfl⟩
        · rw [hinner] at hfail
          cases hfail
    obtain ⟨hexplore, hdisk, htxdb⟩ := hsame
    rw [hexplore]
    exact ⟨hdisk.trans hok.txdbBest, htxdb, fun _ => Or.inl hext, fun _ => hdesc⟩
  · next hext =>
    rw [hbest] at hfail
    simp only at hfail
    obtain ⟨hmem, -⟩ := postpone_spec best'.nChainTrust p
    have hto := htree.ancestors_known hp hmem
    split at hfail
    · next n₁ hreorg =>
      cases hfail
      obtain ⟨hdisk, htxdb, hcases⟩ := reorganize_failed hok hreorg
      refine ⟨hdisk.trans hok.txdbBest, htxdb, ?_⟩
      rcases hcases with ⟨hnone, hsame⟩ | ⟨f, hfork, hleft⟩
      · rw [hsame]
        refine ⟨fun _ => Or.inr ?_, fun _ => hdesc⟩
        intro best f hb hf
        obtain rfl : best' = best := Option.some_inj.mp (hbest.symm.trans hb)
        rw [hnone] at hf
        cases hf
      · have hiff : FailsAtOnce (exploreOps K X env pos) n p ↔
            ∀ op ∈ (reorgOps (exploreOps K X env pos) n.pnext best' f
              (postpone best'.nChainTrust p).1).head?, (op n.txdb n.exploredb).1 = none := by
          constructor
          · rintro (hext' | hall)
            · exact absurd hext' hext
            · exact hall best' f hbest hfork
          · intro hall
            refine Or.inr fun best f' hb hf => ?_
            obtain rfl : best' = best := Option.some_inj.mp (hbest.symm.trans hb)
            obtain rfl : f = f' := Option.some_inj.mp (hfork.symm.trans hf)
            exact hall
        rw [hiff, hleft]
        rcases @runOps_head _ _ (fun d => d.exploreBest ≠ some (best'.hash, (best'.height : Int)))
            _ n.txdb n.exploredb (reorgOps_leave htree hok.known hto hfork) with
          ⟨hfirst, hsame⟩ | ⟨hlater, hother⟩
        · rw [hsame]
          exact ⟨fun _ => hfirst, fun _ => hdesc⟩
        · exact ⟨fun hno => absurd hno.best hother, fun hfirst => absurd hfirst hlater⟩
    · cases hfail

end

/-! ## 3. Operations that go through -/

/-- A state that describes the chain has the map its database asks for. -/
theorem ExploreInv.eq_mk {g : IndexedBlock} {e : ExploreState} (h : ExploreInv K X T g p e) :
    e = ⟨e.db, e.db.sizes⟩ := by
  obtain ⟨-, -, hmap⟩ := describes_iff.mp h.describes
  rw [← hmap]

theorem ExploreInv.describesChain {g : IndexedBlock} {e : ExploreState}
    (h : ExploreInv K X T g p e) : DescribesChain K X T p e.db :=
  ⟨h.best, h.describes.addr⟩

/-- **A block that is connected with the explorer** is described by the index then. -/
theorem exploreOps_connect {fTestNet : Bool} {g : IndexedBlock} (hT : CollisionFree K T)
    (hinv : ExploreInv K X T g p ⟨d, d.sizes⟩) (hchain : OnChain K T fTestNet (.child b p))
    (hbounded : Bounded K X T (.child b p)) (hf : ∀ txdb, env.Faithful K T txdb)
    (h : (exploreOps K X env pos).connectBlock pnext (.child b p) s d = (some s', d')) :
    ExploreInv K X T g (.child b p) ⟨d', d'.sizes⟩ := by
  simp only [exploreOps] at h
  split at h
  · cases h
  · next txdb' _ =>
    split at h
    · cases h
    · next e hrun =>
      cases h
      obtain ⟨-, ⟨e', hrun', hinv', -⟩ | ⟨e₁, done, hrun', -⟩⟩ :=
        hinv.connect hT (hf txdb') (hbounded.entriesOk hT hchain) hbounded.small
      · have hsame := hrun.symm.trans hrun'
        cases hsame
        rw [hinv'.eq_mk] at hinv'
        exact hinv'
      · have hsame := hrun.symm.trans hrun'
        cases hsame

section

variable {DB E : Type} {ops : BlockOps DB E} {n : Node DB E} {g : IndexedBlock} {best : BlockPtr}

/-- A block that arrives on top of the best block, and connects. -/
theorem addToBlockIndex_extends {db : DB} {e : E} (htree : TreeOk n g) (hok : BestOk n best)
    (hnew : n.mapBlockIndex b.hash = none) (hptr : n.newPtr b = .child b best)
    (hprev : b.block.hashPrevBlock = best.hash)
    (htrust : (n.newPtr b).nChainTrust > n.nBestChainTrust)
    (hop : ops.connectBlock n.pnext (.child b best) n.txdb n.exploredb = (some db, e))
    (fIsInitialDownload : Bool) :
    (addToBlockIndex ops g.hash fIsInitialDownload n b).2.exploredb = e := by
  have hnone : ¬ (n.mapBlockIndex b.hash).isSome = true := by simp [hnew]
  have hgen : ¬ ((n.index b).pindexGenesisBlock = none ∧ (n.newPtr b).hash = g.hash) := by
    rintro ⟨h, -⟩
    rw [show (n.index b).pindexGenesisBlock = n.pindexGenesisBlock from rfl, htree.genesis] at h
    cases h
  have hext : (n.newPtr b).hashPrevBlock = (n.index b).hashBestChain := by
    rw [hptr]
    exact hprev.trans hok.hashBestChain.symm
  have htables : ((n.index b).commit (.child b best) db e).Tables best :=
    ⟨hok.tables.pnext, hok.tables.lookup⟩
  have hinner : setBestChainInner ops (n.index b) (n.newPtr b) =
      (true, ((n.index b).commit (.child b best) db e).link (.child b best)) := by
    rw [hptr]
    simp only [setBestChainInner, Branch.parent?]
    rw [show ops.connectBlock (n.index b).pnext (.child b best) (n.index b).txdb
      (n.index b).exploredb = (some db, e) from hop]
    simp only [if_neg htables.connected]
  unfold addToBlockIndex
  rw [if_neg hnone, if_pos htrust]
  unfold setBestChain
  rw [if_neg hgen, if_pos hext, hinner]
  rfl

end

/-- Indexing a block leaves the index of the explorer. -/
theorem index_exploredb {DB E : Type} (n : Node DB E) (b : IndexedBlock) :
    (n.index b).exploredb = n.exploredb := rfl

/-! ## 4. Two calls that fail -/

/-- The node's operations with the explorer. -/
def testOps : BlockOps ChainState ExploreDB :=
  exploreOps forkCrypto testExplorer (testEnv fun _ => none) testGenesis.pos

/-- The node with the genesis block. -/
def testStart : Node ChainState ExploreDB :=
  loadBlockIndex testOps true ⟨fun _ => none, []⟩ genesisExplored.2.db testGenesis

/-- The node after the first block has arrived. -/
def testNode : Node ChainState ExploreDB :=
  (addToBlockIndex testOps testGenesis.hash true testStart (firstBlock payScript)).2

/-- A block that competes with the first. -/
def sideBlock : IndexedBlock := { firstBlock [op1] with pos := ⟨1, 3000, firstFile_notNull⟩ }

/-- A second block that cannot be connected: it has to mint BRK, and mints BRX. -/
def badBlock (hashPrevBlock : UInt256) : IndexedBlock :=
  testBlock hashPrevBlock 2 [{ testCoinbase 1 0 [op1] with nTime := testTime 2 }]

/-- Runs of the example's node. -/
abbrev TestCalls : Node ChainState ExploreDB → Prop :=
  Calls {testOps} testGenesis ⟨fun _ => none, []⟩ genesisExplored.2.db

theorem testStart_ok : TreeOk testStart testGenesis ∧ BestOk testStart (.root testGenesis) :=
  load_ok testOps true _ _ (by decide +kernel)

theorem testNode_calls : TestCalls testNode := by
  have hnone : ∀ best ∈ (testStart.index (firstBlock payScript)).pindexBest,
      (postpone best.nChainTrust (testStart.newPtr (firstBlock payScript))).2 = [] := by
    decide +kernel
  have hprev : (testStart.mapBlockIndex
      (firstBlock payScript).block.hashPrevBlock).isSome = true := by decide +kernel
  have hstart : Arrivals {testOps} testGenesis ⟨fun _ => none, []⟩ genesisExplored.2.db testStart :=
    .load testOps true (by decide +kernel)
  have harrive : ArrivalOk testOps testStart (firstBlock payScript) :=
    fun _ _ => postponedOk_of_nil hnone
  exact (Arrivals.arrive true hstart (Set.mem_singleton _) hprev harrive).calls

theorem exists_of_fst {α β : Type} {x : α × β} {a : α} (h : x.1 = a) : ∃ b, x = (a, b) :=
  ⟨x.2, eq_mk_of_fst h⟩

/-- The index of the node describes the chain with the first block. -/
theorem testNode_describes : DescribesChain forkCrypto testExplorer {tx | tx ∈ firstTxs payScript}
    (firstPtr payScript) testNode.exploredb := by
  have hconn : (testOps.connectBlock testStart.pnext
      (.child (firstBlock payScript) (.root testGenesis)) testStart.txdb
      testStart.exploredb).1.isSome = true := by decide +kernel
  obtain ⟨s, hconn⟩ := Option.isSome_iff_exists.mp hconn
  obtain ⟨d, hop⟩ := exists_of_fst hconn
  have hnew : testStart.mapBlockIndex (firstBlock payScript).hash = none := by decide +kernel
  have hptr : testStart.newPtr (firstBlock payScript) =
      .child (firstBlock payScript) (.root testGenesis) := by decide +kernel
  have htrust : (testStart.newPtr (firstBlock payScript)).nChainTrust >
      testStart.nBestChainTrust := by decide +kernel
  have hprev : (firstBlock payScript).block.hashPrevBlock = testGenesis.hash := by decide +kernel
  obtain ⟨htree, hok⟩ := testStart_ok
  have hleft := addToBlockIndex_extends htree hok hnew hptr hprev htrust hop true
  have hexplore : testStart.exploredb = genesisExplored.2.db := by
    unfold testStart
    rw [loadBlockIndex_eq testOps true _ _ (by decide +kernel)]
    rfl
  have hinv : ExploreInv forkCrypto testExplorer {tx | tx ∈ firstTxs payScript} testGenesis
      (.root testGenesis) ⟨testStart.exploredb, testStart.exploredb.sizes⟩ := by
    rw [hexplore]
    have hrun : ExploreInv forkCrypto testExplorer {tx | tx ∈ firstTxs payScript} testGenesis
        (.root testGenesis) genesisExplored.2 :=
      Explored.inv firstTxs_collisionFree (fun _ hbounded => hbounded)
        (fun _ _ hsame => hsame) genesisExplored_run
    rw [hrun.eq_mk] at hrun
    exact hrun
  rw [testNode, hleft]
  unfold testOps at hop
  exact (exploreOps_connect firstTxs_collisionFree hinv (firstPtr_onChain (by decide +kernel))
    firstPtr_orderly.1 (fun _ => faithful_none) hop).describesChain

/-- The node when a block on top of its best block is indexed. -/
def topNode : Node ChainState ExploreDB := testNode.index (badBlock (firstBlock payScript).hash)

/-- The call for that block fails at once, and the index describes the chain as it did. -/
theorem explore_after_failure_first :
    let r := setBestChain testOps testGenesis.hash true topNode
      (.child (badBlock (firstBlock payScript).hash) (firstPtr payScript))
    r.1 = false ∧ r.2.txdbBest = (firstBlock payScript).hash ∧
      DescribesChain forkCrypto testExplorer {tx | tx ∈ firstTxs payScript} (firstPtr payScript)
        r.2.exploredb := by
  have hnew : testNode.mapBlockIndex (badBlock (firstBlock payScript).hash).hash = none := by
    decide +kernel
  have hprev : (testNode.mapBlockIndex
      (badBlock (firstBlock payScript).hash).block.hashPrevBlock).isSome = true := by
    decide +kernel
  have hcalls : TestCalls topNode := .index testNode_calls hnew hprev
  have hknown : topNode.mapBlockIndex
      (BlockPtr.hash (.child (badBlock (firstBlock payScript).hash) (firstPtr payScript))) =
      some (.child (badBlock (firstBlock payScript).hash) (firstPtr payScript)) := by
    decide +kernel
  have hfail : (setBestChain testOps testGenesis.hash true topNode
      (.child (badBlock (firstBlock payScript).hash) (firstPtr payScript))).1 = false := by
    decide +kernel
  have hext : FailsAtOnce testOps topNode
      (.child (badBlock (firstBlock payScript).hash) (firstPtr payScript)) :=
    Or.inl (by decide +kernel)
  have hcall := eq_mk_of_fst hfail
  intro r
  have hr : setBestChain testOps testGenesis.hash true topNode
      (.child (badBlock (firstBlock payScript).hash) (firstPtr payScript)) = (false, r.2) := hcall
  have hdesc : DescribesChain forkCrypto testExplorer {tx | tx ∈ firstTxs payScript}
      (firstPtr payScript) topNode.exploredb := by
    rw [topNode, index_exploredb]
    exact testNode_describes
  have hbest : topNode.pindexBest = some (firstPtr payScript) := by decide +kernel
  unfold testOps at hext hr
  obtain ⟨hdisk, -, hiff⟩ := explore_after_failure hcalls hbest hdesc hknown hr
  exact ⟨hfail, hdisk, hiff.mpr hext⟩

/-- A branch of two blocks, of which the second cannot be connected. -/
def sidePtr : BlockPtr := .child (badBlock sideBlock.hash) (.child sideBlock (.root testGenesis))

/-- The node when both are indexed. -/
def sideNode : Node ChainState ExploreDB :=
  (testNode.index sideBlock).index (badBlock sideBlock.hash)

/-- **An index of another chain.**  The branch has more trust than the best chain.  Its first block
is connected, with the explorer's index, and its second is not, so the reorganisation fails: the
transaction database still has the old chain, and the index the first block of the branch. -/
theorem index_of_another_chain :
    let r := setBestChain testOps testGenesis.hash true sideNode sidePtr
    TestCalls sideNode ∧ sideNode.pindexBest = some (firstPtr payScript) ∧
      DescribesChain forkCrypto testExplorer {tx | tx ∈ firstTxs payScript} (firstPtr payScript)
        sideNode.exploredb ∧
      sideNode.mapBlockIndex sidePtr.hash = some sidePtr ∧
      sidePtr.nChainTrust > sideNode.nBestChainTrust ∧
      r.1 = false ∧ r.2.txdbBest = (firstBlock payScript).hash ∧
      r.2.exploredb.exploreBest = some (sideBlock.hash, 1) ∧
      (sideNode.exploredb.addr ("address", 1)).balance = some (12500000 * baseCoin) ∧
      (r.2.exploredb.addr ("address", 1)).balance = some 0 ∧
      ¬ DescribesChain forkCrypto testExplorer {tx | tx ∈ firstTxs payScript} (firstPtr payScript)
        r.2.exploredb := by
  have hnew : testNode.mapBlockIndex sideBlock.hash = none ∧
      (testNode.index sideBlock).mapBlockIndex (badBlock sideBlock.hash).hash = none := by
    decide +kernel
  have hprev : (testNode.mapBlockIndex sideBlock.block.hashPrevBlock).isSome = true ∧
      ((testNode.index sideBlock).mapBlockIndex
        (badBlock sideBlock.hash).block.hashPrevBlock).isSome = true := by
    decide +kernel
  have hcalls : TestCalls sideNode :=
    .index (.index testNode_calls hnew.1 hprev.1) hnew.2 hprev.2
  have hwrong : (setBestChain testOps testGenesis.hash true sideNode
      sidePtr).2.exploredb.exploreBest = some (sideBlock.hash, 1) := by decide +kernel
  have hne : sideBlock.hash ≠ (firstPtr payScript).hash := by decide +kernel
  have hbefore : DescribesChain forkCrypto testExplorer {tx | tx ∈ firstTxs payScript}
      (firstPtr payScript) sideNode.exploredb := by
    rw [sideNode, index_exploredb, index_exploredb]
    exact testNode_describes
  refine ⟨hcalls, by decide +kernel, hbefore, by decide +kernel, by decide +kernel,
    by decide +kernel, by decide +kernel, hwrong, by decide +kernel, by decide +kernel,
    fun hdesc => ?_⟩
  have hbest := hwrong.symm.trans hdesc.best
  rw [Option.some_inj, Prod.mk.injEq] at hbest
  exact hne hbest.1

end Breakout
