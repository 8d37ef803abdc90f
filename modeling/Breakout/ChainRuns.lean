/-
# Runs of a node over the tree of blocks

Two kinds of runs from an empty node.  In `Calls` blocks are indexed and `SetBestChain` is called
on any known block at any time, with any outcome of the block operations; `LoadBlockIndex` makes
such a call when it moves the best chain back.  In `Arrivals` the calls are those `AddToBlockIndex`
makes.  In both, no postponed reconnect fails: that is the one thing that breaks the invariant, and
`tip_not_committed` is a run in which it does.

The operations of the first part of the development are an instance (`chainOps`), and the
database a run commits is a chain of `Reachable` for the blocks below `pindexBest`
(`Calls.reachable`).
-/
import Breakout.BestChain

namespace Breakout

open Lib Node

variable {DB E : Type} {A : Set (BlockOps DB E)} {g : IndexedBlock} {db : DB} {e : E}
  {n : Node DB E}

/-! ## 1. Runs -/

/-- **Runs of `SetBestChain` calls** in which no postponed reconnect fails.  `A` are the operations
a call may have. -/
inductive Calls (A : Set (BlockOps DB E)) (g : IndexedBlock) (db : DB) (e : E) : Node DB E → Prop
  | load (ops : BlockOps DB E) (fIsInitialDownload : Bool) :
      0 < getBlockTrust g.block.nBits →
      Calls A g db e (loadBlockIndex ops fIsInitialDownload db e g)
  | index {n : Node DB E} {b : IndexedBlock} :
      Calls A g db e n → n.mapBlockIndex b.hash = none →
      (n.mapBlockIndex b.block.hashPrevBlock).isSome = true → Calls A g db e (n.index b)
  | call {n : Node DB E} {ops : BlockOps DB E} (fIsInitialDownload : Bool) {p : BlockPtr} :
      Calls A g db e n → ops ∈ A → n.mapBlockIndex p.hash = some p → PostponedOk ops n p →
      Calls A g db e (setBestChain ops g.hash fIsInitialDownload n p).2

/-- A block that arrives makes no call, or one in which no postponed reconnect fails. -/
def ArrivalOk (ops : BlockOps DB E) (n : Node DB E) (b : IndexedBlock) : Prop :=
  n.mapBlockIndex b.hash = none → (n.newPtr b).nChainTrust > n.nBestChainTrust →
    PostponedOk ops (n.index b) (n.newPtr b)

/-- **Runs of block arrivals.**  `AcceptBlock` has refused a block whose parent is not known. -/
inductive Arrivals (A : Set (BlockOps DB E)) (g : IndexedBlock) (db : DB) (e : E) :
    Node DB E → Prop
  | load (ops : BlockOps DB E) (fIsInitialDownload : Bool) :
      0 < getBlockTrust g.block.nBits →
      Arrivals A g db e (loadBlockIndex ops fIsInitialDownload db e g)
  | arrive {n : Node DB E} {ops : BlockOps DB E} (fIsInitialDownload : Bool) {b : IndexedBlock} :
      Arrivals A g db e n → ops ∈ A → (n.mapBlockIndex b.block.hashPrevBlock).isSome = true →
      ArrivalOk ops n b → Arrivals A g db e (addToBlockIndex ops g.hash fIsInitialDownload n b).2

variable {p best f q : BlockPtr} {b : IndexedBlock}

/-- A call that postpones nothing. -/
theorem postponedOk_of_nil {ops : BlockOps DB E}
    (h : ∀ best ∈ n.pindexBest, (postpone best.nChainTrust p).2 = []) : PostponedOk ops n p := by
  intro best n' hbest _
  rw [h best hbest]
  rfl

theorem index_newPtr (n : Node DB E) (b : IndexedBlock) :
    (n.index b).mapBlockIndex (n.newPtr b).hash = some (n.newPtr b) := by
  have hhash : (n.newPtr b).hash = b.hash := by
    unfold Node.newPtr
    split <;> rfl
  rw [hhash]
  exact Function.update_self ..

/-- A run of arrivals is a run of calls. -/
theorem Arrivals.calls (h : Arrivals A g db e n) : Calls A g db e n := by
  induction h with
  | load ops f htrust => exact .load ops f htrust
  | @arrive n ops f b _ hops hprev hok ih =>
    unfold addToBlockIndex
    split
    · exact ih
    · next hnew =>
      have hnone : n.mapBlockIndex b.hash = none := by simpa using hnew
      have hindex : Calls A g db e (n.index b) := .index ih hnone hprev
      split
      · next htrust => exact .call f hindex hops (index_newPtr n b) (hok hnone htrust)
      · exact hindex

/-! ## 2. The invariant -/

/-- The node after the genesis block is loaded. -/
theorem loadBlockIndex_eq (ops : BlockOps DB E) (f : Bool) (db : DB) (e : E)
    (htrust : 0 < getBlockTrust g.block.nBits) :
    loadBlockIndex ops f db e g =
      { Node.empty db e with
        mapBlockIndex := Function.update (fun _ => none) g.hash (some (.root g))
        pindexGenesisBlock := some (.root g)
        pindexBest := some (.root g)
        hashBestChain := g.hash
        nBestHeight := 0
        nBestChainTrust := getBlockTrust g.block.nBits
        mapBlockLookup := Function.update (fun _ => none) 0 (some (.root g))
        txdbBest := g.hash } := by
  have hadd : addToBlockIndex ops g.hash f (Node.empty db e) g =
      setBestChain ops g.hash f ((Node.empty db e).index g) (.root g) := by
    unfold addToBlockIndex
    rw [if_neg (by simp [Node.empty])]
    exact if_pos htrust
  have hset : setBestChain ops g.hash f ((Node.empty db e).index g) (.root g) =
      (true, publish f (.root g) { (Node.empty db e).index g with
        txdbBest := g.hash, pindexGenesisBlock := some (.root g) }) :=
    if_pos ⟨rfl, rfl⟩
  unfold loadBlockIndex
  rw [hadd, hset]
  simp [publish, locatorSet, Branch.parent?, Node.index, Node.newPtr, BlockPtr.hash, Branch.top,
    Branch.height, BlockPtr.nChainTrust, Node.empty]

theorem load_ok (ops : BlockOps DB E) (f : Bool) (db : DB) (e : E)
    (htrust : 0 < getBlockTrust g.block.nBits) :
    TreeOk (loadBlockIndex ops f db e g) g ∧ BestOk (loadBlockIndex ops f db e g) (.root g) := by
  rw [loadBlockIndex_eq ops f db e htrust]
  have honly : ∀ {h : UInt256} {p : BlockPtr},
      Function.update (fun _ => none) g.hash (some (Branch.root g)) h = some p →
        p = .root g ∧ h = g.hash := by
    intro h p hp
    by_cases hh : h = g.hash
    · subst hh
      rw [Function.update_self] at hp
      exact ⟨(Option.some_inj.mp hp).symm, rfl⟩
    · rw [Function.update_of_ne hh] at hp
      cases hp
  refine ⟨⟨rfl, ?_, ?_, ?_⟩, rfl, rfl, rfl, ⟨rfl, rfl⟩, rfl, ?_⟩
  · intro h p hp
    obtain ⟨rfl, rfl⟩ := honly hp
    rfl
  · intro h p q hp hq
    obtain ⟨rfl, -⟩ := honly hp
    cases hq
  · intro h p hp
    obtain ⟨rfl, -⟩ := honly hp
    rfl
  · exact Function.update_self g.hash (some (Branch.root g)) fun _ => none

/-- Indexing a new block keeps the blocks that are known. -/
theorem index_known (hnew : n.mapBlockIndex b.hash = none) {h : UInt256}
    (hp : n.mapBlockIndex h = some p) : (n.index b).mapBlockIndex h = some p := by
  have hne : h ≠ b.hash := by
    rintro rfl
    rw [hnew] at hp
    cases hp
  rw [← hp]
  exact Function.update_of_ne hne ..

/-- Indexing a block whose parent is known. -/
theorem index_tree (htree : TreeOk n g) (hnew : n.mapBlockIndex b.hash = none)
    (hprev : (n.mapBlockIndex b.block.hashPrevBlock).isSome = true) : TreeOk (n.index b) g := by
  obtain ⟨q, hq⟩ := Option.isSome_iff_exists.mp hprev
  have hptr : n.newPtr b = .child b q := by
    unfold Node.newPtr
    rw [hq]
  have hcases : ∀ {h : UInt256} {p : BlockPtr}, (n.index b).mapBlockIndex h = some p →
      (p = .child b q ∧ h = b.hash) ∨ n.mapBlockIndex h = some p := by
    intro h p hp
    by_cases hh : h = b.hash
    · subst hh
      have hself : (n.index b).mapBlockIndex b.hash = some (n.newPtr b) :=
        Function.update_self ..
      rw [hself, hptr, Option.some_inj] at hp
      exact Or.inl ⟨hp.symm, rfl⟩
    · have hne : (n.index b).mapBlockIndex h = n.mapBlockIndex h := Function.update_of_ne hh ..
      exact Or.inr (hne ▸ hp)
  have hqid : q.hash = b.block.hashPrevBlock := htree.hash_eq hq
  refine ⟨htree.genesis, ?_, ?_, ?_⟩
  · intro h p hp
    rcases hcases hp with ⟨rfl, rfl⟩ | hp
    · rfl
    · exact htree.hash_eq hp
  · intro h p r hp hr
    rcases hcases hp with ⟨rfl, rfl⟩ | hp
    · cases hr
      exact ⟨index_known hnew (hqid ▸ hq), hqid.symm⟩
    · obtain ⟨hr', hid⟩ := htree.parent hp hr
      exact ⟨index_known hnew hr', hid⟩
  · intro h p hp
    rcases hcases hp with ⟨rfl, rfl⟩ | hp
    · have hbottom := htree.bottom hq
      exact hbottom
    · exact htree.bottom hp

/-- Indexing changes nothing about the best chain. -/
theorem index_ok (htree : TreeOk n g) (hbest : BestOk n best)
    (hnew : n.mapBlockIndex b.hash = none)
    (hprev : (n.mapBlockIndex b.block.hashPrevBlock).isSome = true) :
    TreeOk (n.index b) g ∧ BestOk (n.index b) best :=
  ⟨index_tree htree hnew hprev, hbest.pindexBest, hbest.hashBestChain, hbest.nBestHeight,
    ⟨hbest.tables.pnext, hbest.tables.lookup⟩, hbest.txdbBest, index_known hnew hbest.known⟩

/-- **The invariant of the runs.** -/
theorem Calls.inv (h : Calls A g db e n) : TreeOk n g ∧ ∃ best, BestOk n best := by
  induction h with
  | load ops f htrust =>
    obtain ⟨htree, hbest⟩ := load_ok ops f db e htrust
    exact ⟨htree, _, hbest⟩
  | index _ hnew hprev ih =>
    obtain ⟨htree, best, hbest⟩ := ih
    obtain ⟨htree', hbest'⟩ := index_ok htree hbest hnew hprev
    exact ⟨htree', best, hbest'⟩
  | call f _ _ hp hpost ih =>
    obtain ⟨htree, best, hbest⟩ := ih
    obtain ⟨hsame, hbest'⟩ := setBestChain_spec htree hbest hp hpost f
    exact ⟨htree.congr hsame, _, hbest'⟩

/-! ## 3. The main chain -/

/-- `pindexBest` is the last block of the links that start at the genesis block. -/
theorem Node.BestOk.follows (htree : TreeOk n g) (h : BestOk n best) :
    best.bottom = .root g ∧ Branch.Follows n.pnext (.root g) best.ancestors.reverse := by
  have hbottom := htree.bottom h.known
  refine ⟨hbottom, ?_⟩
  rw [h.tables.pnext, ← hbottom]
  exact best.follows_next

theorem Node.BestOk.isInMainChain_iff (h : BestOk n best) (p : BlockPtr) :
    n.isInMainChain p = true ↔ p ∈ best.ancestors := by
  rw [Node.isInMainChain, Bool.or_eq_true, decide_eq_true_eq, h.pindexBest, Option.some_inj,
    h.tables.pnext, Option.isSome_iff_exists]
  constructor
  · rintro (⟨r, hr⟩ | rfl)
    · obtain ⟨hmem, hpar⟩ := Branch.next_eq_some.mp hr
      exact Branch.parent_mem hmem hpar
    · exact Branch.self_mem_ancestors _
  · intro hp
    by_cases hbp : best = p
    · exact Or.inr hbp
    · refine Or.inl (Option.ne_none_iff_exists'.mp fun hnone => ?_)
      exact hbp ((Branch.next_eq_none_iff hp).mp hnone).symm

/-- **The main chain, in every run of calls.**  The links from the genesis block visit the
ancestors of `pindexBest` in the order of their heights, `IsInMainChain` holds of these and no
others, and the lookup has the one of each height and nothing above the best. -/
theorem mainChain_of_calls (h : Calls A g db e n) :
    ∃ best, n.pindexBest = some best ∧ best.bottom = .root g ∧ n.nBestHeight = best.height ∧
      Branch.Follows n.pnext (.root g) best.ancestors.reverse ∧
      best.ancestors.reverse.map Branch.height = List.range (best.height + 1) ∧
      (∀ p, n.isInMainChain p = true ↔ p ∈ best.ancestors) ∧
      (∀ k ≤ best.height, ∃ p ∈ best.ancestors, p.height = k ∧ n.mapBlockLookup k = some p) ∧
      ∀ k > best.height, n.mapBlockLookup k = none := by
  obtain ⟨htree, best, hbest⟩ := h.inv
  obtain ⟨hbottom, hfollows⟩ := hbest.follows htree
  refine ⟨best, hbest.pindexBest, hbottom, hbest.nBestHeight, hfollows, best.height_ancestors,
    hbest.isInMainChain_iff, ?_, ?_⟩
  · intro k hk
    obtain ⟨p, hp⟩ := Branch.exists_atHeight hk
    obtain ⟨hmem, hheight⟩ := Branch.atHeight_eq_some.mp hp
    exact ⟨p, hmem, hheight, by rw [hbest.tables.lookup, hp]⟩
  · intro k hk
    rw [hbest.tables.lookup]
    exact Branch.atHeight_eq_none_of_lt hk

/-- **Memory and disk name one tip, in every run of arrivals**, and the links from the genesis
block end there. -/
theorem tip_of_arrivals (h : Arrivals A g db e n) :
    ∃ best l, n.pindexBest = some best ∧ n.hashBestChain = best.hash ∧
      n.txdbBest = n.hashBestChain ∧ Branch.Follows n.pnext (.root g) (l ++ [best]) := by
  obtain ⟨htree, best, hbest⟩ := h.calls.inv
  obtain ⟨-, hfollows⟩ := hbest.follows htree
  refine ⟨best, best.ancestors.tail.reverse, hbest.pindexBest, hbest.hashBestChain, ?_, ?_⟩
  · rw [hbest.txdbBest, hbest.hashBestChain]
  · cases best <;> simpa [Branch.ancestors] using hfollows

/-! ## 4. What the databases hold

A property that the block operations carry along the tree holds of the committed database, and of
what is changed in place as long as no batch is thrown away. -/

/-- The operations carry `P` from a block to its child, where `U` holds of the links in memory and
the child, and back, where `V` holds of it. -/
structure Carry (ops : BlockOps DB E) (U : (BlockPtr → Option BlockPtr) → BlockPtr → Prop)
    (V : BlockPtr → Prop) (P : BlockPtr → DB → E → Prop) : Prop where
  connect : ∀ {pnext : BlockPtr → Option BlockPtr} {b : IndexedBlock} {p : BlockPtr} {db db' : DB}
    {e e' : E}, U pnext (.child b p) → ops.connectBlock pnext (.child b p) db e = (some db', e') →
      P p db e → P (.child b p) db' e'
  disconnect : ∀ {pnext : BlockPtr → Option BlockPtr} {b : IndexedBlock} {p : BlockPtr}
    {db db' : DB} {e e' : E}, V (.child b p) →
      ops.disconnectBlock pnext (.child b p) db e = (some db', e') → P (.child b p) db e →
      P p db' e'

theorem runOps_append (l l' : List (DB → E → Option DB × E)) (db : DB) (e : E) :
    runOps (l ++ l') db e =
      match runOps l db e with
      | (none, e') => (none, e')
      | (some db', e') => runOps l' db' e' := by
  induction l generalizing db e with
  | nil => rfl
  | cons f l ih =>
    simp only [List.cons_append, runOps]
    split
    · rfl
    · exact ih _ _

/-- The first batch of a call of `SetBestChain`: what is in it, unless an operation failed, and what
the operations changed in place. -/
def batch (ops : BlockOps DB E) (n : Node DB E) (p : BlockPtr) : Option DB × E :=
  if p.hashPrevBlock = n.hashBestChain then
    match p.parent? with
    | none => (none, n.exploredb)
    | some _ => ops.connectBlock n.pnext p n.txdb n.exploredb
  else
    match n.pindexBest with
    | none => (none, n.exploredb)
    | some best => reorgBatch ops n best (postpone best.nChainTrust p).1

/-- The blocks above an ancestor are higher. -/
theorem height_lt_of_mem_above :
    ∀ {p q : BlockPtr}, f ∈ p.ancestors → q ∈ p.above f → f.height < q.height
  | .root b, q, hf, hq => by
    obtain rfl := List.mem_singleton.mp hf
    rw [Branch.above_self] at hq
    cases hq
  | .child b p, q, hf, hq => by
    rcases List.mem_cons.mp hf with rfl | hf
    · rw [Branch.above_self] at hq
      cases hq
    · rw [Branch.above_child b hf] at hq
      rcases List.mem_cons.mp hq with rfl | hq
      · exact Nat.lt_succ_of_le (Branch.height_le_of_mem hf)
      · exact height_lt_of_mem_above hf hq

theorem mem_ancestors_of_mem_above (hf : f ∈ p.ancestors) (hq : q ∈ p.above f) :
    q ∈ p.ancestors := by
  rw [Branch.ancestors_eq_above_append hf]
  exact List.mem_append_left _ hq

/-- The blocks above the fork are not in the other branch. -/
theorem not_mem_of_mem_above (hfork : best.findFork p = some f) (hq : q ∈ p.above f) :
    q ∉ best.ancestors := by
  obtain ⟨-, hfp, hlast⟩ := Branch.findFork_spec hfork
  intro hqb
  have hle := Branch.height_le_of_mem (hlast q hqb (mem_ancestors_of_mem_above hfp hq))
  exact absurd (height_lt_of_mem_above hfp hq) (Nat.not_lt.mpr hle)

section

variable {ops : BlockOps DB E} {U : (BlockPtr → Option BlockPtr) → BlockPtr → Prop}
  {V : BlockPtr → Prop} {P : BlockPtr → DB → E → Prop} {pnext : BlockPtr → Option BlockPtr}
  (hP : Carry ops U V P)

include hP

variable {f best p : BlockPtr}

theorem Carry.down :
    ∀ {p : BlockPtr} {db db' : DB} {e e' : E}, (∀ q ∈ p.above f, V q) → f ∈ p.ancestors →
      P p db e → runOps ((p.above f).map (ops.disconnectBlock pnext)) db e = (some db', e') →
      P f db' e'
  | .root b, db, db', e, e', _, hf, hp, hrun => by
    obtain rfl := List.mem_singleton.mp hf
    rw [Branch.above_self] at hrun
    cases hrun
    exact hp
  | .child b p, db, db', e, e', hV, hf, hp, hrun => by
    rcases List.mem_cons.mp hf with rfl | hf
    · rw [Branch.above_self] at hrun
      cases hrun
      exact hp
    · rw [Branch.above_child b hf] at hV hrun
      obtain ⟨hVb, hV⟩ := List.forall_mem_cons.mp hV
      rw [List.map_cons, runOps] at hrun
      split at hrun
      · cases hrun
      · next hop => exact Carry.down hV hf (hP.disconnect hVb hop hp) hrun

theorem Carry.up :
    ∀ {p : BlockPtr} {db db' : DB} {e e' : E}, (∀ q ∈ p.above f, U pnext q) →
      f ∈ p.ancestors → P f db e →
      runOps ((p.above f).reverse.map (ops.connectBlock pnext)) db e = (some db', e') → P p db' e'
  | .root b, db, db', e, e', _, hf, hp, hrun => by
    obtain rfl := List.mem_singleton.mp hf
    rw [Branch.above_self] at hrun
    cases hrun
    exact hp
  | .child b p, db, db', e, e', hU, hf, hp, hrun => by
    rcases List.mem_cons.mp hf with rfl | hf
    · rw [Branch.above_self] at hrun
      cases hrun
      exact hp
    · rw [Branch.above_child b hf] at hU hrun
      obtain ⟨hUb, hU⟩ := List.forall_mem_cons.mp hU
      rw [List.reverse_cons, List.map_append, runOps_append] at hrun
      split at hrun
      · cases hrun
      · next db₁ e₁ hrun₁ =>
        have hp₁ := Carry.up hU hf hp hrun₁
        simp only [List.map_cons, List.map_nil, runOps] at hrun
        split at hrun
        · cases hrun
        · next hop =>
          cases hrun
          exact hP.connect hUb hop hp₁

theorem Carry.reorganize {db : DB} {e : E} (hV : ∀ q ∈ best.ancestors, V q)
    (hU : ∀ q ∈ p.ancestors, q ∉ best.ancestors → U n.pnext q) (hp : P best n.txdb n.exploredb)
    (h : reorgBatch ops n best p = (some db, e)) : P p db e := by
  unfold reorgBatch at h
  split at h
  · cases h
  · next f hfork =>
    obtain ⟨hfb, hfp, -⟩ := Branch.findFork_spec hfork
    rw [reorgOps, runOps_append] at h
    split at h
    · cases h
    · next hdown =>
      have hVf : ∀ q ∈ best.above f, V q := by
        intro q hq
        exact hV q (mem_ancestors_of_mem_above hfb hq)
      have hUf : ∀ q ∈ p.above f, U n.pnext q := by
        intro q hq
        exact hU q (mem_ancestors_of_mem_above hfp hq) (not_mem_of_mem_above hfork hq)
      exact hP.up hUf hfp (hP.down hVf hfb hp hdown) h

theorem Carry.inner {b : IndexedBlock} {n' : Node DB E} (hU : U n.pnext (.child b p))
    (hp : P p n.txdb n.exploredb) (h : setBestChainInner ops n (.child b p) = (true, n')) :
    P (.child b p) n'.txdb n'.exploredb := by
  simp only [setBestChainInner, Branch.parent?] at h
  split at h
  · cases h
  · next hop =>
    split at h
    · cases h
    · cases h
      exact hP.connect hU hop hp

theorem Carry.secondary {i : BlockPtr} (htables : n.Tables i) (hdisk : n.txdbBest = i.hash)
    (hp : P i n.txdb n.exploredb) :
    ∀ {p : BlockPtr} {n' : Node DB E},
      (∀ {b : IndexedBlock} {q : BlockPtr}, .child b q ∈ p.ancestors → U q.next (.child b q)) →
      i ∈ p.ancestors → connectSecondary ops (p.above i).reverse n = (true, n') →
      P p n'.txdb n'.exploredb
  | .root b, n', _, hi, h => by
    obtain rfl := List.mem_singleton.mp hi
    rw [Branch.above_self] at h
    cases h
    exact hp
  | .child b p, n', hU, hi, h => by
    rcases List.mem_cons.mp hi with rfl | hi
    · rw [Branch.above_self] at h
      cases h
      exact hp
    · rw [Branch.above_child b hi, List.reverse_cons, connectSecondary_append] at h
      split at h
      · cases h
      · next n₁ hn₁ =>
        have hmoved := connectSecondary_above htables hdisk hi hn₁
        have hUb : U n₁.pnext (.child b p) := by
          rw [hmoved.tables.pnext]
          exact hU (Branch.self_mem_ancestors _)
        exact hP.inner hUb
          (Carry.secondary htables hdisk hp (fun hq => hU (List.mem_cons_of_mem _ hq)) hi hn₁) h

/-- **What a call carries.**  It fails, throws its batch away and leaves what the batch changed in
place, or it carries `P` to the block it was called on. -/
theorem Carry.setBestChain (htree : TreeOk n g) (hok : BestOk n best)
    (hknown : n.mapBlockIndex p.hash = some p) (hpost : PostponedOk ops n p)
    (hU : ∀ {r q : BlockPtr}, q ∈ p.ancestors → q ∉ r.ancestors → U r.next q)
    (hV : ∀ q ∈ best.ancestors, V q) (hp : P best n.txdb n.exploredb) (fIsInitialDownload : Bool) :
    ((batch ops n p).1 = none ∧ Node.setBestChain ops g.hash fIsInitialDownload n p =
        (false, { n with exploredb := (batch ops n p).2 })) ∨
      ∃ n', Node.setBestChain ops g.hash fIsInitialDownload n p =
          (true, Node.publish fIsInitialDownload p n') ∧ P p n'.txdb n'.exploredb := by
  have hgen : ¬ (n.pindexGenesisBlock = none ∧ p.hash = g.hash) := by
    rw [htree.genesis]
    exact fun h => nomatch h.1
  unfold Node.setBestChain batch
  rw [if_neg hgen]
  split
  · next hext =>
    cases p with
    | root b => exact Or.inl ⟨rfl, rfl⟩
    | child b q =>
      obtain ⟨hq, hprev⟩ := htree.parent hknown rfl
      obtain rfl : best = q := by
        rw [hprev, hok.hashBestChain] at hext
        rw [hext, hok.known] at hq
        exact Option.some_inj.mp hq
      rcases @setBestChainInner_cases _ _ ops n b best hok.tables with
        ⟨e, hop, hfail⟩ | ⟨n', hdone, -⟩
      · rw [hfail]
        simp only [Branch.parent?, hop]
        exact Or.inl ⟨trivial, trivial⟩
      · have hUb : U n.pnext (.child b best) := by
          rw [hok.tables.pnext]
          exact hU (Branch.self_mem_ancestors _)
            (Branch.not_mem_ancestors_of_lt (Nat.lt_succ_self best.height))
        have hdb := hP.inner hUb hp hdone
        rw [hdone]
        exact Or.inr ⟨n', rfl, hdb⟩
  · have hbest := hok.pindexBest
    obtain ⟨hmem, habove⟩ := postpone_spec best.nChainTrust p
    rcases @reorganize_cases _ _ ops n best (postpone best.nChainTrust p).1 hbest hok.tables with
      ⟨e, hfail, hbatch⟩ | ⟨n', hdone, hmoved, hbatch⟩
    · simp only [hbest, hfail, hbatch]
      exact Or.inl ⟨trivial, trivial⟩
    · have hsec := hpost best n' hbest hdone
      have hUn : ∀ q ∈ (postpone best.nChainTrust p).1.ancestors, q ∉ best.ancestors →
          U n.pnext q := by
        intro q hq hqb
        rw [hok.tables.pnext]
        exact hU (Branch.mem_ancestors_trans hq hmem) hqb
      have hdb := hP.reorganize hV hUn hp hbatch
      simp only [hbest, hdone]
      rw [habove] at hsec ⊢
      have hUs : ∀ {b : IndexedBlock} {q : BlockPtr}, .child b q ∈ p.ancestors →
          U q.next (.child b q) := by
        intro b q hq
        exact hU hq (Branch.not_mem_ancestors_of_lt (Nat.lt_succ_self q.height))
      exact Or.inr ⟨_, rfl, hP.secondary hmoved.tables hmoved.txdbBest hdb hUs hmem
        (Prod.ext hsec rfl)⟩

end

/-- The operations carry `P` from a block to its child, if the child is a block of `B`, and
back. -/
structure Carries (ops : BlockOps DB E) (B : Set IndexedBlock) (P : BlockPtr → DB → Prop) :
    Prop where
  connect : ∀ {pnext : BlockPtr → Option BlockPtr} {b : IndexedBlock} {p : BlockPtr} {db db' : DB}
    {e e' : E}, b ∈ B → ops.connectBlock pnext (.child b p) db e = (some db', e') → P p db →
      P (.child b p) db'
  disconnect : ∀ {pnext : BlockPtr → Option BlockPtr} {b : IndexedBlock} {p : BlockPtr}
    {db db' : DB} {e e' : E}, ops.disconnectBlock pnext (.child b p) db e = (some db', e') →
      P (.child b p) db → P p db'

variable {B : Set IndexedBlock} {p q : BlockPtr}

theorem Carries.carry {ops : BlockOps DB E} {P : BlockPtr → DB → Prop} (h : Carries ops B P) :
    Carry ops (fun _ p => p.top ∈ B) (fun _ => True) fun p db _ => P p db :=
  ⟨fun hb hop hp => h.connect hb hop hp, fun _ hop hp => h.disconnect hop hp⟩

/-- Ids name their blocks. -/
theorem known_inj (hp : n.mapBlockIndex p.hash = some p) (hq : n.mapBlockIndex q.hash = some q)
    (h : p.hash = q.hash) : p = q := by
  rw [h, hq] at hp
  exact (Option.some_inj.mp hp).symm

theorem Node.TreeOk.ancestors_known (htree : TreeOk n g) (hp : n.mapBlockIndex p.hash = some p)
    (hq : q ∈ p.ancestors) :
    n.mapBlockIndex q.hash = some q := by
  induction p with
  | root b =>
    obtain rfl := List.mem_singleton.mp hq
    exact hp
  | child b p ih =>
    rcases List.mem_cons.mp hq with rfl | hq
    · exact hp
    · exact ih (htree.parent hp rfl).1 hq

/-- **What the operations carry holds of the committed database**, for the branch of
`pindexBest`. -/
theorem Calls.carried {P : BlockPtr → DB → Prop} (hP : ∀ ops ∈ A, Carries ops B P)
    (hroot : P (.root g) db) (h : Calls A g db e n)
    (hB : ∀ p, n.mapBlockIndex p.hash = some p → p.top ∈ B) :
    ∃ best, n.pindexBest = some best ∧ P best n.txdb := by
  induction h with
  | load ops f htrust =>
    rw [loadBlockIndex_eq ops f db e htrust]
    exact ⟨_, rfl, hroot⟩
  | index _ hnew _ ih => exact ih fun p hp => hB p (index_known hnew hp)
  | @call n ops f p hrun hops hp hpost ih =>
    obtain ⟨htree, best, hok⟩ := hrun.inv
    obtain ⟨hsame, -⟩ := setBestChain_spec htree hok hp hpost f
    rw [hsame.1] at hB
    obtain ⟨best', hbest, hdb⟩ := ih hB
    obtain rfl : best = best' := Option.some_inj.mp (hok.pindexBest.symm.trans hbest)
    have hBp : ∀ {r q : BlockPtr}, q ∈ p.ancestors → q ∉ r.ancestors → q.top ∈ B :=
      fun hq _ => hB _ (htree.ancestors_known hp hq)
    rcases (hP ops hops).carry.setBestChain htree hok hp hpost hBp (fun _ _ => trivial) hdb f with
      ⟨-, hfail⟩ | ⟨n', hdone, hdb'⟩
    · rw [hfail]
      exact ⟨_, hbest, hdb⟩
    · rw [hdone]
      exact ⟨p, rfl, hdb'⟩

/-! ## 5. The operations of the node -/

/-- `ConnectBlock` and `DisconnectBlock` as the operations of a call; `pos` is the place of the
genesis block. -/
def chainOps (K : Crypto) (env : NodeEnv) (pos : DiskBlockPos) : BlockOps ChainState Unit where
  connectBlock _ p s _ :=
    match connectBlock K env s.txdb
      (newBlockIndex p.top.pos p.top.block (tipOf pos s.blocks)) (tipOf pos s.blocks)
      (ancestorsOf pos s.blocks) p.top.block false with
    | .ok (pindex', txdb') => (some ⟨txdb', (pindex', p.top.block) :: s.blocks⟩, ())
    | .error _ => (none, ())
  disconnectBlock _ p s _ :=
    match disconnectBlock K env s.txdb p.top.block with
    | .ok txdb' => (some ⟨txdb', s.blocks.tail⟩, ())
    | .error _ => (none, ())

/-- The blocks of a branch above the genesis block, the newest first. -/
def blocksOf : BlockPtr → List CBlock
  | .root _ => []
  | .child b p => b.block :: blocksOf p

/-- The chain is reachable, and its blocks are those of the branch. -/
def ChainOf (K : Crypto) (T : Set CTransaction) (fTestNet : Bool) (pos : DiskBlockPos)
    (p : BlockPtr) (s : ChainState) : Prop :=
  Reachable K T fTestNet pos s ∧ s.blocks.map Prod.snd = blocksOf p

theorem chainOps_carries {K : Crypto} {T : Set CTransaction} {fTestNet : Bool} {env : NodeEnv}
    {pos : DiskBlockPos} (htest : env.clock.fTestNet = fTestNet)
    (hholds : ∀ tx, env.Holds tx → tx ∈ T) :
    Carries (chainOps K env pos) {b | ∀ tx ∈ b.block.vtx, tx ∈ T}
      (ChainOf K T fTestNet pos) := by
  constructor
  · rintro _ b p s s' _ _ hb hop ⟨hreach, hblocks⟩
    simp only [chainOps, Branch.top] at hop
    split at hop
    · next pindex' txdb' hconn =>
      cases hop
      refine ⟨.connect hreach htest hholds hb hconn, ?_⟩
      rw [List.map_cons, hblocks]
      rfl
    · cases hop
  · rintro _ b p ⟨txdb, blocks⟩ s' _ _ hop ⟨hreach, hblocks⟩
    simp only [chainOps, Branch.top] at hop
    split at hop
    · next txdb' hdisc =>
      cases hop
      obtain ⟨⟨pindex, block⟩, rest, rfl, hblock, hrest⟩ := List.map_eq_cons_iff.mp hblocks
      obtain rfl : block = b.block := hblock
      exact ⟨.disconnect hreach hdisc, hrest⟩
    · cases hop

/-- **The committed chain is reachable.**  In every run of the node's operations the database is
that of a chain of `Reachable`, and the chain's blocks are those of the branch of `pindexBest`. -/
theorem chain_of_calls {K : Crypto} {T : Set CTransaction} {fTestNet : Bool}
    {A : Set (BlockOps ChainState Unit)} {n : Node ChainState Unit}
    (hA : ∀ ops ∈ A, ∃ env : NodeEnv, ops = chainOps K env g.pos ∧
      env.clock.fTestNet = fTestNet ∧ ∀ tx, env.Holds tx → tx ∈ T)
    (h : Calls A g ⟨fun _ => none, []⟩ () n)
    (hT : ∀ p, n.mapBlockIndex p.hash = some p → ∀ tx ∈ p.top.block.vtx, tx ∈ T) :
    ∃ best, n.pindexBest = some best ∧ Reachable K T fTestNet g.pos n.txdb ∧
      n.txdb.blocks.map Prod.snd = blocksOf best := by
  have hcarries : ∀ ops ∈ A, Carries ops {b | ∀ tx ∈ b.block.vtx, tx ∈ T}
      (ChainOf K T fTestNet g.pos) := by
    intro ops hops
    obtain ⟨env, rfl, htest, hholds⟩ := hA ops hops
    exact chainOps_carries htest hholds
  exact h.carried hcarries ⟨.genesis, rfl⟩ hT

/-! ## 6. A tip that is not committed -/

/-- A coinbase that pays nothing, in BRX. -/
def forkCoinbase (nTime : UInt32) : CTransaction :=
  ⟨1, nTime, [⟨⟨0, 0xffffffff⟩, [1, 1], 0⟩], [⟨0, Color.brx.toInt32, [op1]⟩], 0, [], 0⟩

/-- A block with that coinbase. -/
def forkBlock (hashPrevBlock : UInt256) (nTime : UInt32) (pos : DiskBlockPos) : IndexedBlock :=
  let block : CBlock :=
    ⟨1, hashPrevBlock, (forkCoinbase nTime).getHash forkCrypto, nTime, 0x1d00ffff, 0, 0, 0, 0,
      [forkCoinbase nTime], []⟩
  ⟨forkCrypto.hash block.serializeHeader, pos, block⟩

/-- The genesis block of the example. -/
def forkGenesis : IndexedBlock := forkBlock 0 1465544351 ⟨1, 0, firstFile_notNull⟩

/-- The first block mints BRX, so it may have that coinbase. -/
def forkFirst : IndexedBlock := forkBlock forkGenesis.hash 1465544400 ⟨1, 1000, firstFile_notNull⟩

/-- The second has to mint BRK, so it may not. -/
def forkSecond : IndexedBlock := forkBlock forkFirst.hash 1465544500 ⟨1, 2000, firstFile_notNull⟩

/-- The node's operations, when the explorer's index can or cannot be written. -/
def forkOps (fExplore : Bool) : BlockOps ChainState Unit :=
  chainOps forkCrypto ⟨⟨false, 1465544500⟩, fun _ => none, fun _ => none, fExplore⟩
    forkGenesis.pos

/-- The node with the genesis block. -/
def forkStart : Node ChainState Unit :=
  loadBlockIndex (forkOps true) true ⟨fun _ => none, []⟩ () forkGenesis

/-- The first block arrives while the explorer's index cannot be written, and is indexed only. -/
def forkNode : Node ChainState Unit :=
  (addToBlockIndex (forkOps false) forkGenesis.hash true forkStart forkFirst).2

/-- Runs of the example's node. -/
abbrev ForkArrivals : Node ChainState Unit → Prop :=
  Arrivals (Set.range forkOps) forkGenesis ⟨fun _ => none, []⟩ ()

theorem forkStart_arrivals : ForkArrivals forkStart :=
  .load (forkOps true) true (by decide +kernel)

theorem forkNode_arrivals : ForkArrivals forkNode := by
  have hfirst : (forkStart.mapBlockIndex forkFirst.block.hashPrevBlock).isSome = true ∧
      ∀ best ∈ (forkStart.index forkFirst).pindexBest,
        (postpone best.nChainTrust (forkStart.newPtr forkFirst)).2 = [] := by
    decide +kernel
  exact .arrive true forkStart_arrivals ⟨false, rfl⟩ hfirst.1 fun _ _ =>
    postponedOk_of_nil hfirst.2

/-- Another first block, as heavy as the first. -/
def forkSide : IndexedBlock := forkBlock forkGenesis.hash 1465544450 ⟨1, 3000, firstFile_notNull⟩

/-- The coinbase of its child, in BRK. -/
def sideCoinbase : CTransaction :=
  { forkCoinbase 1465544480 with vout := [⟨0, Color.brk.toInt32, [op1]⟩] }

/-- Its child: with it that branch is the heaviest. -/
def sideSecond : IndexedBlock :=
  let pos : DiskBlockPos := ⟨1, 4000, firstFile_notNull⟩
  let block : CBlock :=
    { (forkBlock forkSide.hash 1465544480 pos).block with
      hashMerkleRoot := sideCoinbase.getHash forkCrypto
      vtx := [sideCoinbase] }
  ⟨forkCrypto.hash block.serializeHeader, pos, block⟩

/-- The node after the arrival of a block. -/
def forkArrive (n : Node ChainState Unit) (b : IndexedBlock) : Node ChainState Unit :=
  (addToBlockIndex (forkOps true) forkGenesis.hash true n b).2

/-- The first block is connected, the other one is indexed, and its child makes the node
reorganise. -/
def reorganized : Node ChainState Unit :=
  forkArrive (forkArrive (forkArrive forkStart forkFirst) forkSide) sideSecond

theorem ForkArrivals.arrive {n : Node ChainState Unit} {b : IndexedBlock} (h : ForkArrivals n)
    (hprev : (n.mapBlockIndex b.block.hashPrevBlock).isSome = true)
    (hnone : ∀ best ∈ (n.index b).pindexBest,
      (postpone best.nChainTrust (n.newPtr b)).2 = []) : ForkArrivals (forkArrive n b) :=
  Arrivals.arrive true h ⟨true, rfl⟩ hprev fun _ _ => postponedOk_of_nil hnone

theorem reorganized_arrivals : ForkArrivals reorganized := by
  have hfirst : ForkArrivals (forkArrive forkStart forkFirst) :=
    ForkArrivals.arrive forkStart_arrivals (by decide +kernel) (by decide +kernel)
  have hside : ForkArrivals (forkArrive (forkArrive forkStart forkFirst) forkSide) :=
    ForkArrivals.arrive hfirst (by decide +kernel) (by decide +kernel)
  exact ForkArrivals.arrive hside (by decide +kernel) (by decide +kernel)

/-- What the node has before and after the reorganisation. -/
theorem reorganized_run :
    (forkArrive forkStart forkFirst).hashBestChain = forkFirst.hash ∧
      reorganized.hashBestChain = sideSecond.hash ∧ reorganized.txdb.blocks.length = 2 ∧
      reorganized.isInMainChain (.child forkFirst (.root forkGenesis)) = false := by
  decide +kernel

/-- The main chain after the reorganisation: the block that was connected first has left it. -/
theorem mainChain_of_calls_fork :
    reorganized.isInMainChain (.child forkFirst (.root forkGenesis)) = false ∧
      ∃ best, reorganized.pindexBest = some best ∧ reorganized.nBestHeight = best.height ∧
        ∀ p, reorganized.isInMainChain p = true ↔ p ∈ best.ancestors := by
  obtain ⟨best, hbest, -, hheight, -, -, hmain, -⟩ :=
    mainChain_of_calls (Arrivals.calls reorganized_arrivals)
  exact ⟨reorganized_run.2.2.2, best, hbest, hheight, hmain⟩

/-- The chain after the reorganisation, which is two blocks long. -/
theorem chain_of_calls_fork :
    reorganized.txdb.blocks.length = 2 ∧ ∃ best, reorganized.pindexBest = some best ∧
      Reachable forkCrypto Set.univ false forkGenesis.pos reorganized.txdb ∧
      reorganized.txdb.blocks.map Prod.snd = blocksOf best := by
  have hA : ∀ ops ∈ Set.range forkOps, ∃ env : NodeEnv,
      ops = chainOps forkCrypto env forkGenesis.pos ∧ env.clock.fTestNet = false ∧
        ∀ tx, env.Holds tx → tx ∈ Set.univ := by
    rintro _ ⟨fExplore, rfl⟩
    exact ⟨_, rfl, rfl, fun tx _ => Set.mem_univ tx⟩
  exact ⟨reorganized_run.2.2.1,
    chain_of_calls hA (Arrivals.calls reorganized_arrivals) fun _ _ tx _ => Set.mem_univ tx⟩

/-- After the reorganisation the new tip is committed. -/
theorem tip_of_arrivals_fork :
    (forkArrive forkStart forkFirst).hashBestChain = forkFirst.hash ∧
      reorganized.hashBestChain = sideSecond.hash ∧
      reorganized.txdbBest = reorganized.hashBestChain := by
  obtain ⟨best, l, -, -, hdisk, -⟩ := tip_of_arrivals reorganized_arrivals
  exact ⟨reorganized_run.1, reorganized_run.2.1, hdisk⟩

/-- **A tip that is not committed.**  The second block arrives when the explorer's index can be
written again.  The node reorganises to the first block and postpones the second, which fails;
`SetBestChain` returns true with the second as the best block, while the database has the first
and the links end there. -/
theorem tip_not_committed :
    let r := addToBlockIndex (forkOps true) forkGenesis.hash true forkNode forkSecond
    let first : BlockPtr := .child forkFirst (.root forkGenesis)
    ForkArrivals forkNode ∧
      (forkNode.newPtr forkSecond).nChainTrust > forkNode.nBestChainTrust ∧ r.1 = true ∧
      r.2.pindexBest = some (.child forkSecond first) ∧ r.2.hashBestChain = forkSecond.hash ∧
      r.2.txdbBest = forkFirst.hash ∧ forkFirst.hash ≠ forkSecond.hash ∧
      r.2.pnext (.root forkGenesis) = some first ∧ r.2.pnext first = none :=
  ⟨forkNode_arrivals, by decide +kernel, by decide +kernel, by decide +kernel,
    by decide +kernel, by decide +kernel, by decide +kernel, by decide +kernel, by decide +kernel⟩

end Breakout
