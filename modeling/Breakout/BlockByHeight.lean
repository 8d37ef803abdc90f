/-
# The block at a height

`FindBlockByHeight` starts at the genesis block, at the best block, or at the block it returned the
last time, whichever is near, and follows `pprev` down or `pnext` up.  The block it keeps between
calls may have been disconnected since; `SetBestChain` forgets it where it publishes a new best block.

In the runs here (`Finds`) calls of `FindBlockByHeight` at any height and calls of `SetBestChain`
come in any order.  As long as no postponed reconnect fails the links are those of the branch of
`pindexBest`, the kept block is on it, and every height from zero to `nBestHeight` is found
(`findBlockByHeight_of_runs`).  When one fails the links end below the published best block, and a
walk upwards runs into the end (`height_not_found`).
-/
import Breakout.ChainRuns

namespace Breakout

open Lib Node

variable {DB E : Type}

/-! ## 1. `FindBlockByHeight` -/

/-- The loop through `pprev`; it does not return from below the lowest block. -/
def stepBack (nHeight : Int) : BlockPtr → Option BlockPtr
  | .root b => if (0 : Int) > nHeight then none else some (.root b)
  | .child b p =>
    if ((Branch.child b p).height : Int) > nHeight then stepBack nHeight p else some (.child b p)

/-- The loop through `pnext`; it does not return from above the highest block.  A link leads up, so
there are no more rounds than blocks below the height. -/
def stepForward (pnext : BlockPtr → Option BlockPtr) (nHeight : Int) :
    Nat → BlockPtr → Option BlockPtr
  | fuel, p =>
    if (p.height : Int) < nHeight then
      match fuel, pnext p with
      | fuel + 1, some q => stepForward pnext nHeight fuel q
      | _, _ => none
    else some p

/-- The block `FindBlockByHeight` starts at; `pblockindexFBBHLast` is the one it returned last. -/
def Node.findStart (n : Node DB E) (pblockindexFBBHLast : Option BlockPtr) (nHeight : Int) :
    Option BlockPtr :=
  match if nHeight < n.nBestHeight.tdiv 2 then n.pindexGenesisBlock else n.pindexBest with
  | none => none
  | some p =>
    match pblockindexFBBHLast with
    | none => some p
    | some last =>
      if |nHeight - (p.height : Int)| > |nHeight - (last.height : Int)| then some last else some p

/-- `FindBlockByHeight`; it returns unless it follows a link that is not there. -/
def Node.findBlockByHeight (n : Node DB E) (pblockindexFBBHLast : Option BlockPtr)
    (nHeight : Int) : Option BlockPtr :=
  ((n.findStart pblockindexFBBHLast nHeight).bind (stepBack nHeight)).bind
    (stepForward n.pnext nHeight nHeight.toNat)

/-! ## 2. The two walks -/

theorem stepBack_mem {nHeight : Int} :
    ∀ {p r : BlockPtr}, stepBack nHeight p = some r → r ∈ p.ancestors
  | .root b, r, h => by
    unfold stepBack at h
    split at h
    · cases h
    · cases h
      exact Branch.self_mem_ancestors _
  | .child b p, r, h => by
    unfold stepBack at h
    split at h
    · exact List.mem_cons_of_mem _ (stepBack_mem h)
    · cases h
      exact Branch.self_mem_ancestors _

/-- The walk down ends at the height, or where it starts if that is lower. -/
theorem stepBack_spec {nHeight : Int} (hpos : 0 ≤ nHeight) :
    ∀ p : BlockPtr, ∃ r ∈ p.ancestors, stepBack nHeight p = some r ∧
      (r.height : Int) = min nHeight p.height
  | .root b => by
    refine ⟨.root b, Branch.self_mem_ancestors _, if_neg (by omega), ?_⟩
    simp [Branch.height, hpos]
  | .child b p => by
    by_cases hhigh : ((Branch.child b p).height : Int) > nHeight
    · obtain ⟨r, hr, hwalk, hheight⟩ := stepBack_spec hpos p
      refine ⟨r, List.mem_cons_of_mem _ hr, ?_, ?_⟩
      · rw [stepBack, if_pos hhigh]
        exact hwalk
      · rw [Branch.height] at hhigh ⊢
        omega
    · exact ⟨.child b p, Branch.self_mem_ancestors _, if_neg hhigh, by omega⟩

theorem stepForward_mem {best : BlockPtr} {nHeight : Int} :
    ∀ {fuel : Nat} {p r : BlockPtr}, p ∈ best.ancestors →
      stepForward best.next nHeight fuel p = some r → r ∈ best.ancestors := by
  intro fuel
  induction fuel with
  | zero =>
    intro p r hp h
    unfold stepForward at h
    split at h
    · cases h
    · cases h
      exact hp
  | succ fuel ih =>
    intro p r hp h
    unfold stepForward at h
    split at h
    · cases hnext : best.next p with
      | none =>
        rw [hnext] at h
        cases h
      | some q =>
        rw [hnext] at h
        exact ih (Branch.next_eq_some.mp hnext).1 h
    · cases h
      exact hp

/-- The walk up along the links of a branch ends at the height, if the branch is as high. -/
theorem stepForward_spec {best : BlockPtr} {nHeight : Int} (hbest : nHeight ≤ best.height) :
    ∀ (fuel : Nat) {p : BlockPtr}, p ∈ best.ancestors → (p.height : Int) ≤ nHeight →
      nHeight ≤ p.height + fuel →
      ∃ r ∈ best.ancestors, stepForward best.next nHeight fuel p = some r ∧
        (r.height : Int) = nHeight := by
  intro fuel
  induction fuel with
  | zero =>
    intro p hp hle hfuel
    refine ⟨p, hp, ?_, by omega⟩
    unfold stepForward
    exact if_neg (by omega)
  | succ fuel ih =>
    intro p hp hle hfuel
    unfold stepForward
    by_cases hlow : (p.height : Int) < nHeight
    · -- below the top there is a link, and it leads one block up
      obtain ⟨q, hq⟩ : ∃ q, best.next p = some q := by
        refine Option.ne_none_iff_exists'.mp fun hnone => ?_
        rw [(Branch.next_eq_none_iff hp).mp hnone] at hlow
        omega
      obtain ⟨hmem, hpar⟩ := Branch.next_eq_some.mp hq
      have hup : q.height = p.height + 1 := by
        cases q with
        | root b => cases hpar
        | child b q =>
          cases hpar
          rfl
      rw [if_pos hlow, hq]
      exact ih hmem (by omega) (by omega)
    · exact ⟨p, hp, if_neg hlow, by omega⟩

/-! ## 3. One call -/

section

variable {n : Node DB E} {g : IndexedBlock} {best : BlockPtr} {last : Option BlockPtr}
  {nHeight : Int}

/-- A call starts on the best chain, if the kept block is on it. -/
theorem findStart_mem (htree : TreeOk n g) (hbest : BestOk n best)
    (hlast : ∀ q ∈ last, q ∈ best.ancestors) :
    ∃ p ∈ best.ancestors, n.findStart last nHeight = some p := by
  have hroot : Branch.root g ∈ best.ancestors :=
    htree.bottom hbest.known ▸ best.bottom_mem_ancestors
  obtain ⟨p, hp, hstart⟩ : ∃ p ∈ best.ancestors,
      (if nHeight < n.nBestHeight.tdiv 2 then n.pindexGenesisBlock else n.pindexBest) = some p := by
    split
    · exact ⟨_, hroot, htree.genesis⟩
    · exact ⟨best, best.self_mem_ancestors, hbest.pindexBest⟩
  unfold Node.findStart
  rw [hstart]
  cases last with
  | none => exact ⟨p, hp, rfl⟩
  | some q =>
    dsimp only
    split
    · exact ⟨q, hlast q rfl, rfl⟩
    · exact ⟨p, hp, rfl⟩

/-- What a call returns is on the best chain. -/
theorem findBlockByHeight_mem (htree : TreeOk n g) (hbest : BestOk n best)
    (hlast : ∀ q ∈ last, q ∈ best.ancestors) {r : BlockPtr}
    (h : n.findBlockByHeight last nHeight = some r) : r ∈ best.ancestors := by
  obtain ⟨p, hp, hstart⟩ := @findStart_mem _ _ n g best last nHeight htree hbest hlast
  unfold Node.findBlockByHeight at h
  rw [hstart, hbest.tables.pnext] at h
  obtain ⟨q, hq, hwalk⟩ := Option.bind_eq_some_iff.mp h
  exact stepForward_mem (Branch.mem_ancestors_trans (stepBack_mem hq) hp) hwalk

/-- **A call at a height of the best chain** returns its block there. -/
theorem findBlockByHeight_spec (htree : TreeOk n g) (hbest : BestOk n best)
    (hlast : ∀ q ∈ last, q ∈ best.ancestors) (hpos : 0 ≤ nHeight) (hle : nHeight ≤ n.nBestHeight) :
    ∃ r ∈ best.ancestors, n.findBlockByHeight last nHeight = some r ∧
      (r.height : Int) = nHeight := by
  rw [hbest.nBestHeight] at hle
  obtain ⟨p, hp, hstart⟩ := @findStart_mem _ _ n g best last nHeight htree hbest hlast
  obtain ⟨q, hq, hdown, hlow⟩ := stepBack_spec hpos p
  obtain ⟨r, hr, hup, hheight⟩ := stepForward_spec hle nHeight.toNat
    (Branch.mem_ancestors_trans hq hp) (by omega) (by omega)
  refine ⟨r, hr, ?_, hheight⟩
  unfold Node.findBlockByHeight
  rw [hstart, hbest.tables.pnext]
  exact Option.bind_eq_some_iff.mpr ⟨q, hdown, hup⟩

end

/-! ## 4. Runs -/

variable {A : Set (BlockOps DB E)} {g : IndexedBlock} {db : DB} {e : E} {n : Node DB E}
  {last : Option BlockPtr}

/-- **Runs with calls of `FindBlockByHeight`**, at any height it returns from.  A call of
`SetBestChain` that returns true has forgotten the kept block. -/
inductive Finds (A : Set (BlockOps DB E)) (g : IndexedBlock) (db : DB) (e : E) :
    Node DB E → Option BlockPtr → Prop
  | load (ops : BlockOps DB E) (fIsInitialDownload : Bool) :
      0 < getBlockTrust g.block.nBits →
      Finds A g db e (loadBlockIndex ops fIsInitialDownload db e g) none
  | index {n : Node DB E} {last : Option BlockPtr} {b : IndexedBlock} :
      Finds A g db e n last → n.mapBlockIndex b.hash = none →
      (n.mapBlockIndex b.block.hashPrevBlock).isSome = true → Finds A g db e (n.index b) last
  | call {n : Node DB E} {last : Option BlockPtr} {ops : BlockOps DB E}
      (fIsInitialDownload : Bool) {p : BlockPtr} :
      Finds A g db e n last → ops ∈ A → n.mapBlockIndex p.hash = some p → PostponedOk ops n p →
      Finds A g db e (setBestChain ops g.hash fIsInitialDownload n p).2
        (if (setBestChain ops g.hash fIsInitialDownload n p).1 then none else last)
  | find {n : Node DB E} {last : Option BlockPtr} (nHeight : Int) {r : BlockPtr} :
      Finds A g db e n last → n.findBlockByHeight last nHeight = some r →
      Finds A g db e n (some r)

/-- **The invariant of the runs**: the kept block is on the best chain. -/
theorem Finds.inv (h : Finds A g db e n last) :
    TreeOk n g ∧ ∃ best, BestOk n best ∧ ∀ q ∈ last, q ∈ best.ancestors := by
  induction h with
  | load ops f htrust =>
    obtain ⟨htree, hbest⟩ := load_ok ops f db e htrust
    exact ⟨htree, _, hbest, nofun⟩
  | index _ hnew hprev ih =>
    obtain ⟨htree, best, hbest, hlast⟩ := ih
    obtain ⟨htree', hbest'⟩ := index_ok htree hbest hnew hprev
    exact ⟨htree', best, hbest', hlast⟩
  | call f _ _ hp hpost ih =>
    obtain ⟨htree, best, hbest, hlast⟩ := ih
    obtain ⟨hsame, hbest'⟩ := setBestChain_spec htree hbest hp hpost f
    refine ⟨htree.congr hsame, _, hbest', ?_⟩
    split
    · exact nofun
    · exact hlast
  | find nHeight _ hfound ih =>
    obtain ⟨htree, best, hbest, hlast⟩ := ih
    refine ⟨htree, best, hbest, ?_⟩
    rintro q ⟨⟩
    exact findBlockByHeight_mem htree hbest hlast hfound

/-- **Every height is found, in every run** in which no postponed reconnect fails: from zero to
`nBestHeight` the call returns the ancestor of `pindexBest` at the height. -/
theorem findBlockByHeight_of_runs (h : Finds A g db e n last) {nHeight : Int} (hpos : 0 ≤ nHeight)
    (hle : nHeight ≤ n.nBestHeight) :
    ∃ best r, n.pindexBest = some best ∧ r ∈ best.ancestors ∧ (r.height : Int) = nHeight ∧
      n.findBlockByHeight last nHeight = some r := by
  obtain ⟨htree, best, hbest, hlast⟩ := h.inv
  obtain ⟨r, hr, hfound, hheight⟩ := findBlockByHeight_spec htree hbest hlast hpos hle
  exact ⟨best, r, hbest.pindexBest, hr, hheight, hfound⟩

/-! ## 5. A height that is not found -/

/-- Two blocks more on the branch of the second. -/
def forkThird : IndexedBlock := forkBlock forkSecond.hash 1465544600 ⟨1, 3000, firstFile_notNull⟩

def forkFourth : IndexedBlock := forkBlock forkThird.hash 1465544700 ⟨1, 4000, firstFile_notNull⟩

/-- The first three blocks have arrived while the explorer's index could not be written, and are
indexed only. -/
def waitingNode : Node ChainState Unit :=
  let n := (addToBlockIndex (forkOps false) forkGenesis.hash true forkNode forkSecond).2
  (addToBlockIndex (forkOps false) forkGenesis.hash true n forkThird).2

/-- Runs of the example's node with calls of `FindBlockByHeight`. -/
abbrev ForkFinds : Node ChainState Unit → Option BlockPtr → Prop :=
  Finds (Set.range forkOps) forkGenesis ⟨fun _ => none, []⟩ ()

/-- A block arrives that does not make a new best chain. -/
theorem ForkFinds.side {n : Node ChainState Unit} {last : Option BlockPtr} {b : IndexedBlock}
    (h : ForkFinds n last) (hnew : n.mapBlockIndex b.hash = none)
    (hprev : (n.mapBlockIndex b.block.hashPrevBlock).isSome = true)
    (hlight : ¬ (n.newPtr b).nChainTrust > n.nBestChainTrust) :
    ForkFinds (forkArrive n b) last := by
  unfold forkArrive addToBlockIndex
  rw [hnew, if_neg (by simp), if_neg hlight]
  exact .index h hnew hprev

/-- A block arrives that does. -/
theorem ForkFinds.best {n : Node ChainState Unit} {last : Option BlockPtr} {b : IndexedBlock}
    (h : ForkFinds n last) (hnew : n.mapBlockIndex b.hash = none)
    (hprev : (n.mapBlockIndex b.block.hashPrevBlock).isSome = true)
    (hheavy : (n.newPtr b).nChainTrust > n.nBestChainTrust)
    (hnone : ∀ best ∈ (n.index b).pindexBest, (postpone best.nChainTrust (n.newPtr b)).2 = [])
    (hdone : (addToBlockIndex (forkOps true) forkGenesis.hash true n b).1 = true) :
    ForkFinds (forkArrive n b) none := by
  have hcall := Finds.call true (.index h hnew hprev) ⟨true, rfl⟩ (index_newPtr n b)
    (postponedOk_of_nil hnone)
  unfold addToBlockIndex at hdone
  unfold forkArrive addToBlockIndex
  rw [hnew, if_neg (by simp), if_pos hheavy] at hdone ⊢
  rwa [if_pos hdone] at hcall

/-- The first block is found and kept; the node reorganises away from it, and has forgotten it; the
genesis block is found and kept, and then the block that is at height 1 now. -/
theorem findBlockByHeight_of_runs_fork :
    (forkArrive forkStart forkFirst).findBlockByHeight none 1 =
        some (.child forkFirst (.root forkGenesis)) ∧
      ∃ best r, reorganized.pindexBest = some best ∧ r ∈ best.ancestors ∧ (r.height : Int) = 1 ∧
        BlockPtr.hash r = forkSide.hash ∧
        reorganized.findBlockByHeight (some (.root forkGenesis)) 1 = some r := by
  have hfirst : ForkFinds (forkArrive forkStart forkFirst) none :=
    ForkFinds.best (.load (forkOps true) true (by decide +kernel)) (by decide +kernel)
      (by decide +kernel) (by decide +kernel) (by decide +kernel) (by decide +kernel)
  have hfound : (forkArrive forkStart forkFirst).findBlockByHeight none 1 =
      some (.child forkFirst (.root forkGenesis)) := by decide +kernel
  have hside := ForkFinds.side (b := forkSide) (.find 1 hfirst hfound) (by decide +kernel)
    (by decide +kernel) (by decide +kernel)
  have hsecond : ForkFinds reorganized none :=
    ForkFinds.best hside (by decide +kernel) (by decide +kernel) (by decide +kernel)
      (by decide +kernel) (by decide +kernel)
  have hkept : ForkFinds reorganized (some (.root forkGenesis)) :=
    .find 0 hsecond (by decide +kernel)
  obtain ⟨best, r, hbest, hr, hheight, hr1⟩ :=
    findBlockByHeight_of_runs hkept (show (0 : Int) ≤ 1 by decide) (by decide +kernel)
  refine ⟨hfound, best, r, hbest, hr, hheight, ?_, hr1⟩
  have hhash : (reorganized.findBlockByHeight (some (.root forkGenesis)) 1).map BlockPtr.hash =
      some forkSide.hash := by decide +kernel
  rw [hr1] at hhash
  exact Option.some.inj hhash

/-- **A height that is not found.**  The fourth block arrives when the explorer's index can be
written.  The node reorganises to the first block, the second cannot be connected, and the fourth is
published.  The first call of `FindBlockByHeight` returns the first block and keeps it; the second
starts there, and there is no link to the second block. -/
theorem height_not_found :
    let r := addToBlockIndex (forkOps true) forkGenesis.hash true waitingNode forkFourth
    let first : BlockPtr := .child forkFirst (.root forkGenesis)
    r.1 = true ∧ r.2.nBestHeight = 4 ∧ r.2.pnext first = none ∧
      r.2.findBlockByHeight none 1 = some first ∧ r.2.findBlockByHeight (some first) 2 = none :=
  ⟨by decide +kernel, by decide +kernel, by decide +kernel, by decide +kernel, by decide +kernel⟩

end Breakout
