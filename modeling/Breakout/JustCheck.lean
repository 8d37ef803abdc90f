/-
# `ConnectBlock` as a mere check

`ConnectBlock` takes a flag for a pass that validates and nothing more, "so it must not write the
index".  The transaction database and the explore database are indeed left alone, and of the index
in memory every entry but the block's own.  The block's own entry gets its counters as they are
computed, and its record is written before the flag is looked at.

So a check leaves everything as it was, whatever the block's entry and the records are, only where
`CheckBlock` refuses the block, and a check that returns true leaves a record (`just_check_iff`).
-/
import Breakout.ExploreRuns
import Breakout.IndexWrites

namespace Breakout

open Lib Node

variable (K : Crypto) {E : Type}

/-! ## 1. The call -/

/-- What `ConnectBlock` can change: the index of transactions, the records of blocks, the explore
database and the index of blocks in memory. -/
structure Stores (E : Type) where
  txdb : TxDB
  records : Records
  exploredb : E
  mem : IndexMemory

/-- What `ConnectBlock` reads besides.  `exploreConnectBlock` is `none` where the function fails. -/
structure ConnectNode (E : Type) where
  env : NodeEnv
  clock : IndexClock
  pnext : BlockPtr → Option BlockPtr
  fWithExploreAPI : Bool
  exploreConnectBlock : TxDB → E → Option E

/-- The call for the child `b` of `q`. -/
def ConnectNode.ctx (node : ConnectNode E) (s : Stores E) (b : IndexedBlock) (q : BlockPtr)
    (fJustCheck : Bool) : ConnectCtx where
  env := node.env
  txdb := s.txdb
  pindex := BlockPtr.toIndex (.child b q) (s.mem (.child b q))
  pprev := BlockPtr.toIndex q (s.mem q)
  ancestors := q.ancestors.tail.map fun r => BlockPtr.toIndex r (s.mem r)
  fProofOfStake := b.block.isProofOfStake
  fJustCheck := fJustCheck

/-- The part behind the flag. -/
def ConnectNode.write (node : ConnectNode E) (q : BlockPtr) (hashNext : UInt256) (queued : TxDB)
    (s : Stores E) : Bool × Stores E :=
  let s := { s with txdb := queued.over s.txdb }
  match writeBlockIndex K node.clock
      { IndexRecord.ofIndex (s.mem q) (node.pnext q) q with hashNext := hashNext } s.records with
  | .error _ => (false, s)
  | .ok records =>
    let s := { s with records := records }
    if node.fWithExploreAPI then
      match node.exploreConnectBlock s.txdb s.exploredb with
      | none => (false, s)
      | some exploredb => (true, { s with exploredb := exploredb })
    else (true, s)

/-- `CBlock::ConnectBlock`, with all that it changes.  The result is false also where it throws. -/
def ConnectNode.connectBlock (node : ConnectNode E) (b : IndexedBlock) (q : BlockPtr)
    (fJustCheck : Bool) (s : Stores E) : Bool × Stores E :=
  let p : BlockPtr := .child b q
  let ctx := node.ctx s b q fJustCheck
  match connectBody K ctx b.block with
  | .error _ => (false, { s with mem := s.mem.enter p (.ofIndex (connectLeft K ctx b.block)) })
  | .ok (pindex', queued) =>
    let s := { s with mem := s.mem.enter p (.ofIndex pindex') }
    match writeBlockIndex K node.clock (.ofIndex (s.mem p) (node.pnext p) p) s.records with
    | .error _ => (false, s)
    | .ok records =>
      let s := { s with records := records }
      if fJustCheck then (true, s) else node.write K q p.hash queued s

/-! ## 2. What a check leaves alone -/

variable {K} {node : ConnectNode E} {b : IndexedBlock} {q : BlockPtr} {s : Stores E}

/-- **The databases of transactions and of the explorer, and the other entries.** -/
theorem just_check_frame :
    ((node.connectBlock K b q true s).2.txdb = s.txdb ∧
      (node.connectBlock K b q true s).2.exploredb = s.exploredb) ∧
    ∀ r ≠ Branch.child b q, (node.connectBlock K b q true s).2.mem r = s.mem r := by
  have hmem : ∀ (supply : SupplyFields) (r : BlockPtr), r ≠ Branch.child b q →
      (s.mem.enter (.child b q) supply) r = s.mem r :=
    fun _ _ hr => Function.update_of_ne hr _ _
  unfold ConnectNode.connectBlock
  dsimp only
  split
  · exact ⟨⟨rfl, rfl⟩, hmem _⟩
  · split
    · exact ⟨⟨rfl, rfl⟩, hmem _⟩
    · exact ⟨⟨rfl, rfl⟩, hmem _⟩

/-! ## 3. When a check leaves everything alone -/

/-- The block has no record. -/
def NoRecord (K : Crypto) (node : ConnectNode E) (s : Stores E) (p : BlockPtr) : Prop :=
  ∀ hash, (CDiskBlockIndex.ofIndex p).getBlockHash K node.clock.fUseFastIndex
    node.clock.nAdjustedTime = .ok hash → s.records hash = none

/-- `CheckBlock` refuses the block, as `ConnectBlock` calls it for a check. -/
def CheckRefused (K : Crypto) (node : ConnectNode E) (s : Stores E) (b : IndexedBlock) : Prop :=
  ∃ e, checkBlock K node.env.clock ⟨s.txdb, node.env.disk⟩ b.block false false false = .error e

/-- The colour that is entered for the coinbase. -/
def coinbaseColor (block : CBlock) : Int32 :=
  ((block.vtx[0]?).map (·.getColor)).getD Color.none.toInt32

/-- What every call enters that `CheckBlock` lets go on: the totals of the parent, or further on all
counters and with them the colour of the coinbase. -/
def EntersSomething (ctx : ConnectCtx) (block : CBlock) (pindex' : CBlockIndex) : Prop :=
  pindex'.vTotalMint = totalMintPrev ctx.pprev ctx.pindex ∨
    pindex'.nCoinbaseColor = coinbaseColor block

variable {ctx : ConnectCtx} {block : CBlock}

theorem entersSomething_connectLeft
    (h : ∀ e, checkBlock K ctx.env.clock ⟨ctx.txdb, ctx.env.disk⟩ block (!ctx.fJustCheck)
      (!ctx.fJustCheck) false ≠ .error e) : EntersSomething ctx block (connectLeft K ctx block) := by
  unfold connectLeft
  split
  · next e hcheck => exact absurd hcheck (h e)
  · dsimp only
    split
    · exact Or.inl rfl
    · split
      · exact Or.inl rfl
      · exact Or.inr rfl

theorem entersSomething_connectBody {pindex' : CBlockIndex} {queued : TxDB}
    (h : connectBody K ctx block = .ok (pindex', queued)) :
    EntersSomething ctx block pindex' := by
  simp only [connectBody, bind_eq_ok] at h
  obtain ⟨_, -, s, -, vTotalMint, -, k, -, hpair⟩ := h
  cases hpair
  exact Or.inr rfl

/-- So it stands in the entry after the call. -/
theorem entersSomething_of_checked (h : ¬ CheckRefused K node s b) : ∃ pindex',
    ((node.connectBlock K b q true s).2.mem (.child b q)).supply = .ofIndex pindex' ∧
      EntersSomething (node.ctx s b q true) b.block pindex' := by
  have hentered : ∀ supply : SupplyFields,
      (s.mem.enter (.child b q) supply (.child b q)).supply = supply := by
    intro supply
    rw [IndexMemory.enter, Function.update_self]
  unfold ConnectNode.connectBlock
  dsimp only
  split
  · exact ⟨_, hentered _, entersSomething_connectLeft fun e he => h ⟨e, he⟩⟩
  · next pindex' queued hbody =>
    refine ⟨pindex', ?_, entersSomething_connectBody hbody⟩
    split
    · exact hentered _
    · exact hentered _

/-- A block that is refused leaves the entry as it is. -/
theorem just_check_of_refused (h : CheckRefused K node s b) :
    (node.connectBlock K b q true s).2 = s := by
  obtain ⟨e, hcheck⟩ := h
  have hcheck' : checkBlock K (node.ctx s b q true).env.clock
      ⟨(node.ctx s b q true).txdb, (node.ctx s b q true).env.disk⟩ b.block
      (!(node.ctx s b q true).fJustCheck) (!(node.ctx s b q true).fJustCheck) false = .error e :=
    hcheck
  have hbody : connectBody K (node.ctx s b q true) b.block = .error e := by
    rw [connectBody, hcheck']
    rfl
  have hleft : connectLeft K (node.ctx s b q true) b.block = (node.ctx s b q true).pindex := by
    simp only [connectLeft, hcheck']
  have hown : s.mem.enter (.child b q) (.ofIndex (node.ctx s b q true).pindex) = s.mem :=
    Function.update_eq_self (Branch.child b q) s.mem
  unfold ConnectNode.connectBlock
  dsimp only
  rw [hbody]
  dsimp only
  rw [hleft, hown]

/-- The stores with an entry that has neither the totals of the parent nor the colour of the
coinbase. -/
def Stores.disagreeing (s : Stores E) (node : ConnectNode E) (b : IndexedBlock) (q : BlockPtr) :
    Stores E :=
  let ctx := node.ctx s b q true
  let supply : SupplyFields :=
    { (s.mem (.child b q)).supply with
      vTotalMint := fun c => totalMintPrev ctx.pprev ctx.pindex c + 1
      nCoinbaseColor := coinbaseColor b.block + 1 }
  { s with mem := s.mem.enter (.child b q) supply }

/-- Such an entry is changed. -/
theorem just_check_disagreeing (h : ¬ CheckRefused K node s b) :
    (node.connectBlock K b q true (s.disagreeing node b q)).2 ≠ s.disagreeing node b q := by
  intro heq
  have hparent : q ≠ Branch.child b q := fun hself => by
    have hheight := congrArg Branch.height hself
    rw [Branch.height] at hheight
    omega
  have hpprev : (node.ctx (s.disagreeing node b q) b q true).pprev =
      (node.ctx s b q true).pprev := by
    change BlockPtr.toIndex q (Function.update s.mem _ _ q) = BlockPtr.toIndex q (s.mem q)
    rw [Function.update_of_ne hparent]
  have hsupply : ((s.disagreeing node b q).mem (.child b q)).supply =
      { (s.mem (.child b q)).supply with
        vTotalMint := fun c =>
          totalMintPrev (node.ctx s b q true).pprev (node.ctx s b q true).pindex c + 1
        nCoinbaseColor := coinbaseColor b.block + 1 } := by
    change (Function.update s.mem _ _ _).supply = _
    rw [Function.update_self]
  obtain ⟨pindex', hentered, hsome⟩ :=
    entersSomething_of_checked (s := s.disagreeing node b q) (q := q) h
  rw [heq, hsupply] at hentered
  rcases hsome with hmint | hcolor
  · have hbrx := congrFun ((congrArg SupplyFields.vTotalMint hentered).trans hmint) Color.brx
    rw [hpprev] at hbrx
    change totalMintPrev _ (node.ctx s b q true).pindex _ + 1 =
      totalMintPrev _ (node.ctx s b q true).pindex _ at hbrx
    simp at hbrx
  · have hsame := (congrArg SupplyFields.nCoinbaseColor hentered).trans hcolor
    simp at hsame

/-- A check that returns true has written a record. -/
theorem not_unchanged_of_true (htrue : (node.connectBlock K b q true s).1 = true)
    (hnone : NoRecord K node s (.child b q)) : (node.connectBlock K b q true s).2 ≠ s := by
  intro heq
  have hrecords := congrArg Stores.records heq
  unfold ConnectNode.connectBlock at htrue hrecords
  dsimp only at htrue hrecords
  split at htrue
  · cases htrue
  · next hbody =>
    rw [hbody] at hrecords
    dsimp only at hrecords
    split at htrue
    · cases htrue
    · next hwrite =>
      rw [hwrite] at hrecords
      obtain ⟨hash, hkey, hstored⟩ := bind_eq_ok.mp hwrite
      cases hstored
      have hrecord := congrFun hrecords hash
      change Function.update s.records hash _ hash = _ at hrecord
      rw [Function.update_self, hnone hash hkey] at hrecord
      cases hrecord

/-- **When a check changes nothing.**  Whatever the entry of the block and the records are, the
stores are after the call what they were, if and only if `CheckBlock` refuses the block; and a check
that returns true changes stores in which the block has no record. -/
theorem just_check_iff :
    ((∀ s' : Stores E, s'.txdb = s.txdb → (∀ r ≠ Branch.child b q, s'.mem r = s.mem r) →
        (node.connectBlock K b q true s').2 = s') ↔ CheckRefused K node s b) ∧
    ((node.connectBlock K b q true s).1 = true → NoRecord K node s (.child b q) →
      (node.connectBlock K b q true s).2 ≠ s) := by
  refine ⟨⟨fun hall => ?_, ?_⟩, fun htrue hnone heq => ?_⟩
  · by_contra hchecked
    exact just_check_disagreeing hchecked (hall _ rfl fun r hr => Function.update_of_ne hr _ _)
  · intro hrefused s' htxdb _
    unfold CheckRefused at hrefused
    rw [← htxdb] at hrefused
    exact just_check_of_refused hrefused
  · exact not_unchanged_of_true htrue hnone heq

/-! ## 4. A check that writes -/

/-- A node on the test net. -/
def checkingNode : ConnectNode Unit where
  env := testEnv fun _ => none
  clock := ⟨true, 1465546351⟩
  pnext _ := none
  fWithExploreAPI := true
  exploreConnectBlock _ _ := some ()

/-- Its stores, when the first block is new: all counters are zero and nothing is on disk. -/
def freshStores : Stores Unit where
  txdb _ := none
  records _ := none
  exploredb := ()
  mem p := ⟨⟨0, 0, ⟨0, 0xffffffff⟩, 0, 0⟩, 0, .new p.top.block⟩

/-- The check of the first block. -/
def firstChecked : Bool × Stores Unit :=
  checkingNode.connectBlock forkCrypto (firstBlock payScript) (.root testGenesis) true freshStores

/-- **The index is written**: the first block, with the premine, is checked and accepted, and the
check leaves its counters in memory and its record on disk. -/
theorem just_check_writes :
    (firstChecked.1 = true ∧
      (firstChecked.2.records (firstBlock payScript).hash).isSome = true ∧
      (firstChecked.2.mem (firstPtr payScript)).supply.vMoneySupply Color.brx =
          12500000 * baseCoin) ∧
    firstChecked.2 ≠ freshStores := by
  have hrun : firstChecked.1 = true ∧
      (firstChecked.2.records (firstBlock payScript).hash).isSome = true ∧
      (firstChecked.2.mem (firstPtr payScript)).supply.vMoneySupply Color.brx =
          12500000 * baseCoin := by
    decide +kernel
  refine ⟨hrun, fun h => ?_⟩
  have hrecord := hrun.2.1
  rw [h] at hrecord
  cases hrecord

/-- The first block: it is checked and accepted, and so something is changed in the new stores, and
in some with other counters. -/
theorem just_check_iff_first :
    firstChecked.2 ≠ freshStores ∧
    ¬ ∀ s' : Stores Unit, s'.txdb = freshStores.txdb →
      (∀ r ≠ Branch.child (firstBlock payScript) (.root testGenesis),
        s'.mem r = freshStores.mem r) →
      (checkingNode.connectBlock forkCrypto (firstBlock payScript) (.root testGenesis) true s').2 =
        s' := by
  obtain ⟨hall, hrecord⟩ := @just_check_iff forkCrypto Unit checkingNode (firstBlock payScript)
    (.root testGenesis) freshStores
  refine ⟨hrecord (by decide +kernel) fun _ _ => rfl, fun hsame => ?_⟩
  obtain ⟨e, he⟩ := hall.mp hsame
  have hok : checkBlock forkCrypto checkingNode.env.clock
      ⟨freshStores.txdb, checkingNode.env.disk⟩ (firstBlock payScript).block false false false =
        .ok () := by decide +kernel
  rw [hok] at he
  cases he

end Breakout
