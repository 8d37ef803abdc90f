/-
# The best chain

`SetBestChain` moves a node to another block of its tree: by one block, when the block extends the
best chain, and else by a reorganisation, which disconnects the blocks above the fork and connects
those of the other branch.  The work on the transaction database is done in one batch.  The memory
side (`pnext`, `mapBlockLookup`) is changed after the batch is committed, block by block, and the
tip (`pindexBest`, `hashBestChain`) is published at the very end.

A pointer to a `CBlockIndex` is the block with all its ancestors (`Lib.Branch`): `AddToBlockIndex`
links it to its parent once and for all.  What `ConnectBlock` and `DisconnectBlock` do is a
parameter (`BlockOps`), and may differ from call to call, since their verdicts depend on the clock
and on other things than the tree.  They queue changes to the transaction database in the batch, and
change other things in place: the explorer's own index, which they commit themselves, and the
counters of a `CBlockIndex`.  So a call that fails leaves the first as it was and not the others.

A reorganisation may postpone reconnects: the last blocks of the branch, once the branch is longer
than the old one, are connected one by one, each in a batch of its own.  When one of them fails,
the loop stops, and the tail of the function publishes the requested tip all the same.  Apart from
that, the tables are those of the branch of `pindexBest` after every call (`BestOk`).
-/
import Breakout.Lib.Branch
import Breakout.Chain
import Breakout.Kernel

namespace Breakout

open Lib

/-! ## 1. The tree of blocks -/

deriving instance DecidableEq for DiskBlockPos

/-- What a `CBlockIndex` holds of its own block: its id, its place, and what is read there. -/
structure IndexedBlock where
  hash : UInt256
  pos : DiskBlockPos
  block : CBlock
deriving DecidableEq

/-- A pointer to a `CBlockIndex`. -/
abbrev BlockPtr := Branch IndexedBlock

def getBlockTrust (nBits : UInt32) : UInt256 :=
  if setCompact nBits ≤ 0 then 0 else getuint256 (2 ^ 256 / (setCompact nBits + 1))

namespace BlockPtr

/-- `CBlockIndex::GetBlockHash` -/
def hash (p : BlockPtr) : UInt256 := p.top.hash

/-- `hashPrevBlock` of the block. -/
def hashPrevBlock (p : BlockPtr) : UInt256 := p.top.block.hashPrevBlock

def nChainTrust : BlockPtr → UInt256
  | .root b => getBlockTrust b.block.nBits
  | .child b p => nChainTrust p + getBlockTrust b.block.nBits

end BlockPtr

/-! ## 2. The node -/

/-- What `ConnectBlock` and `DisconnectBlock` make of the database batch, which is `none` when they
return false, and of what they change in place.  They see the links in memory. -/
structure BlockOps (DB E : Type) where
  connectBlock : (BlockPtr → Option BlockPtr) → BlockPtr → DB → E → Option DB × E
  disconnectBlock : (BlockPtr → Option BlockPtr) → BlockPtr → DB → E → Option DB × E

/-- The node: the index of blocks, the best chain in memory, and the databases as committed. -/
structure Node (DB E : Type) where
  mapBlockIndex : UInt256 → Option BlockPtr
  pindexGenesisBlock : Option BlockPtr
  pindexBest : Option BlockPtr
  hashBestChain : UInt256
  nBestHeight : Int
  nBestChainTrust : UInt256
  pnext : BlockPtr → Option BlockPtr
  mapBlockLookup : Nat → Option BlockPtr
  txdb : DB
  txdbBest : UInt256
  exploredb : E

variable {DB E : Type}

namespace Node

def isInMainChain (n : Node DB E) (p : BlockPtr) : Bool :=
  (n.pnext p).isSome || decide (n.pindexBest = some p)

/-- Memory, when a block is taken off the best chain. -/
def unlink (n : Node DB E) (p : BlockPtr) : Node DB E :=
  { n with
    pnext := match p.parent? with
      | some q => Function.update n.pnext q none
      | none => n.pnext
    mapBlockLookup := Function.update n.mapBlockLookup p.height none }

/-- Memory, when a block is put on it. -/
def link (n : Node DB E) (p : BlockPtr) : Node DB E :=
  { n with
    pnext := match p.parent? with
      | some q => Function.update n.pnext q (some p)
      | none => n.pnext
    mapBlockLookup := Function.update n.mapBlockLookup p.height (some p) }

/-- `WriteHashBestChain` and `TxnCommit`. -/
def commit (n : Node DB E) (p : BlockPtr) (db : DB) (e : E) : Node DB E :=
  { n with txdb := db, txdbBest := p.hash, exploredb := e }

/-- "previous block is not properly connected" -/
def notConnected (n : Node DB E) (p : BlockPtr) : Prop :=
  ∃ q ∈ p.parent?, ∃ r ∈ q.parent?, n.pnext r ≠ some q

instance (n : Node DB E) (p : BlockPtr) : Decidable (n.notConnected p) :=
  inferInstanceAs (Decidable (∃ _, _))

/-! ## 3. Reorganising -/

variable (ops : BlockOps DB E)

/-- Block operations one after another: what is in the batch, unless one failed, and what they
changed in place. -/
def runOps : List (DB → E → Option DB × E) → DB → E → Option DB × E
  | [], db, e => (some db, e)
  | f :: fs, db, e =>
    match f db e with
    | (none, e') => (none, e')
    | (some db', e') => runOps fs db' e'

/-- The operations of a reorganisation, from the fork's point of view: down from the best block
and up to the new one. -/
def reorgOps (pnext : BlockPtr → Option BlockPtr) (best pfork pindexNew : BlockPtr) :
    List (DB → E → Option DB × E) :=
  (best.above pfork).map (ops.disconnectBlock pnext) ++
    (pindexNew.above pfork).reverse.map (ops.connectBlock pnext)

/-- The batch of a reorganisation: what is in it, unless an operation failed or there is no fork, and
what the operations changed in place. -/
def reorgBatch (n : Node DB E) (best pindexNew : BlockPtr) : Option DB × E :=
  match best.findFork pindexNew with
  | none => (none, n.exploredb)
  | some pfork => runOps (reorgOps ops n.pnext best pfork pindexNew) n.txdb n.exploredb

def reorganize (n : Node DB E) (pindexNew : BlockPtr) : Bool × Node DB E :=
  match n.pindexBest with
  | none => (false, n)
  | some best =>
    match best.findFork pindexNew with
    | none => (false, n)
    | some pfork =>
      match runOps (reorgOps ops n.pnext best pfork pindexNew) n.txdb n.exploredb with
      | (none, e) => (false, { n with exploredb := e })
      | (some db, e) =>
        let cut := (best.above pfork).foldl unlink (n.commit pindexNew db e)
        let vConnect := (pindexNew.above pfork).reverse
        if ∃ p ∈ vConnect.head?, cut.notConnected p then (false, cut)
        else (true, vConnect.foldl link cut)

/-- `CBlock::SetBestChainInner`.  The source follows `pprev` without a check; no block that is
attached lacks one. -/
def setBestChainInner (n : Node DB E) (pindexNew : BlockPtr) : Bool × Node DB E :=
  match pindexNew.parent? with
  | none => (false, n)
  | some _ =>
    match ops.connectBlock n.pnext pindexNew n.txdb n.exploredb with
    | (none, e) => (false, { n with exploredb := e })
    | (some db, e) =>
      if (n.commit pindexNew db e).notConnected pindexNew then (false, n.commit pindexNew db e)
      else (true, (n.commit pindexNew db e).link pindexNew)

/-- "list of blocks that need to be connected afterwards": step back while the parent alone would
make the best chain. -/
def postpone (nBestTrust : UInt256) : BlockPtr → BlockPtr × List BlockPtr
  | .root b => (.root b, [])
  | .child b p =>
    if BlockPtr.nChainTrust p > nBestTrust then
      ((postpone nBestTrust p).1, .child b p :: (postpone nBestTrust p).2)
    else (.child b p, [])

/-- "Connect further blocks": stops at the first that fails, and says whether it got through. -/
def connectSecondary : List BlockPtr → Node DB E → Bool × Node DB E
  | [], n => (true, n)
  | p :: ps, n =>
    match setBestChainInner ops n p with
    | (false, n') => (false, n')
    | (true, n') => connectSecondary ps n'

/-! ## 4. `SetBestChain` -/

/-- The loop of `CBlockLocator::Set`, for what it does to `mapBlockLookup`; every round goes down
by a block at least. -/
def locatorLoop : Nat → Option BlockPtr → Nat → Nat → Nat → (Nat → Option BlockPtr) →
    (Nat → Option BlockPtr)
  | 0, _, _, _, _, lookup => lookup
  | _ + 1, none, _, _, _, lookup => lookup
  | fuel + 1, some p, nHeight, nStep, nHave, lookup =>
    if nHeight < nStep + 1 then lookup
    else
      let nHeight' := nHeight - nStep
      let nStep' := if nHave + 1 > 10 then nStep * 2 else nStep
      if nStep < 21 then
        locatorLoop fuel ((fun q => q.bind Branch.parent?)^[nStep] (some p)) nHeight' nStep'
          (nHave + 1) lookup
      else
        match lookup nHeight' with
        | some q => locatorLoop fuel (some q) nHeight' nStep' (nHave + 1) lookup
        | none =>
          match p.ancestors.find? (fun q => q.height = nHeight') with
          | none => lookup
          | some q =>
            locatorLoop fuel (some q) nHeight' nStep' (nHave + 1)
              (Function.update lookup nHeight' (some q))

/-- `CBlockLocator::Set` -/
def locatorSet (pindex : BlockPtr) (lookup : Nat → Option BlockPtr) : Nat → Option BlockPtr :=
  match pindex.parent? with
  | none => lookup
  | some _ => locatorLoop pindex.height (some pindex) pindex.height 1 0 lookup

/-- The tail of `SetBestChain`: "New best block". -/
def publish (fIsInitialDownload : Bool) (pindexNew : BlockPtr) (n : Node DB E) : Node DB E :=
  { n with
    mapBlockLookup :=
      if fIsInitialDownload then n.mapBlockLookup else locatorSet pindexNew n.mapBlockLookup
    hashBestChain := pindexNew.hash
    pindexBest := some pindexNew
    nBestHeight := pindexNew.height
    nBestChainTrust := pindexNew.nChainTrust }

variable (hashGenesisBlock : UInt256)

/-- `CBlock::SetBestChain`, called on the block of `pindexNew`: what it returns and the node it
leaves. -/
def setBestChain (fIsInitialDownload : Bool) (n : Node DB E) (pindexNew : BlockPtr) :
    Bool × Node DB E :=
  if n.pindexGenesisBlock = none ∧ pindexNew.hash = hashGenesisBlock then
    (true, publish fIsInitialDownload pindexNew
      { n with txdbBest := pindexNew.hash, pindexGenesisBlock := some pindexNew })
  else if pindexNew.hashPrevBlock = n.hashBestChain then
    match setBestChainInner ops n pindexNew with
    | (false, n') => (false, n')
    | (true, n') => (true, publish fIsInitialDownload pindexNew n')
  else
    match n.pindexBest with
    | none => (false, n)
    | some best =>
      let postponed := postpone best.nChainTrust pindexNew
      match reorganize ops n postponed.1 with
      | (false, n') => (false, n')
      | (true, n') =>
        (true, publish fIsInitialDownload pindexNew
          (connectSecondary ops postponed.2.reverse n').2)

/-- No postponed reconnect of the call fails. -/
def PostponedOk (n : Node DB E) (pindexNew : BlockPtr) : Prop :=
  ∀ best n', n.pindexBest = some best →
    reorganize ops n (postpone best.nChainTrust pindexNew).1 = (true, n') →
    (connectSecondary ops (postpone best.nChainTrust pindexNew).2.reverse n').1 = true

/-! ## 5. New blocks -/

/-- The pointer `AddToBlockIndex` makes for a new block. -/
def newPtr (n : Node DB E) (b : IndexedBlock) : BlockPtr :=
  match n.mapBlockIndex b.block.hashPrevBlock with
  | some q => .child b q
  | none => .root b

/-- The index with a new block in it. -/
def index (n : Node DB E) (b : IndexedBlock) : Node DB E :=
  { n with mapBlockIndex := Function.update n.mapBlockIndex b.hash (some (n.newPtr b)) }

def addToBlockIndex (fIsInitialDownload : Bool) (n : Node DB E) (b : IndexedBlock) :
    Bool × Node DB E :=
  if (n.mapBlockIndex b.hash).isSome then (false, n)
  else if (n.newPtr b).nChainTrust > n.nBestChainTrust then
    setBestChain ops hashGenesisBlock fIsInitialDownload (n.index b) (n.newPtr b)
  else (true, n.index b)

/-- A node before anything is loaded. -/
def empty (db : DB) (e : E) : Node DB E where
  mapBlockIndex _ := none
  pindexGenesisBlock := none
  pindexBest := none
  hashBestChain := 0
  nBestHeight := -1
  nBestChainTrust := 0
  pnext _ := none
  mapBlockLookup _ := none
  txdb := db
  txdbBest := 0
  exploredb := e

/-- `LoadBlockIndex` on empty databases: the genesis block is indexed and its height entered in
the lookup. -/
def loadBlockIndex (fIsInitialDownload : Bool) (db : DB) (e : E) (genesis : IndexedBlock) :
    Node DB E :=
  let n := (addToBlockIndex ops genesis.hash fIsInitialDownload (empty db e) genesis).2
  { n with mapBlockLookup := Function.update n.mapBlockLookup 0 (n.mapBlockIndex genesis.hash) }

/-! ## 6. The tables and the tree -/

/-- The tables and the committed best block are those of a branch. -/
structure Tables (n : Node DB E) (p : BlockPtr) : Prop where
  pnext : n.pnext = p.next
  lookup : n.mapBlockLookup = p.atHeight

/-- The index of blocks: ids name their blocks, parents are known, and all blocks stand on the
genesis block. -/
structure TreeOk (n : Node DB E) (g : IndexedBlock) : Prop where
  genesis : n.pindexGenesisBlock = some (.root g)
  hash_eq : ∀ {h : UInt256} {p : BlockPtr}, n.mapBlockIndex h = some p → p.hash = h
  parent : ∀ {h : UInt256} {p q : BlockPtr}, n.mapBlockIndex h = some p → p.parent? = some q →
    n.mapBlockIndex q.hash = some q ∧ p.hashPrevBlock = q.hash
  bottom : ∀ {h : UInt256} {p : BlockPtr}, n.mapBlockIndex h = some p → p.bottom = .root g

/-- The steps of a call leave the index of blocks alone. -/
def SameTree (n n' : Node DB E) : Prop :=
  n'.mapBlockIndex = n.mapBlockIndex ∧ n'.pindexGenesisBlock = n.pindexGenesisBlock

/-- **The best chain in memory and on disk**: everything is that of the branch of `best`. -/
structure BestOk (n : Node DB E) (best : BlockPtr) : Prop where
  pindexBest : n.pindexBest = some best
  hashBestChain : n.hashBestChain = best.hash
  nBestHeight : n.nBestHeight = best.height
  tables : n.Tables best
  txdbBest : n.txdbBest = best.hash
  known : n.mapBlockIndex best.hash = some best

variable {ops} {n n' : Node DB E} {g : IndexedBlock}

variable {b : IndexedBlock} {p f : BlockPtr}

theorem Tables.link (h : n.Tables p) :
    (n.link (.child b p)).Tables (.child b p) :=
  ⟨by rw [Branch.next_child, ← h.pnext]; rfl, by rw [Branch.atHeight_child, ← h.lookup]; rfl⟩

theorem Tables.unlink (h : n.Tables (.child b p)) :
    (n.unlink (.child b p)).Tables p :=
  ⟨by rw [← Branch.next_unlink b p, ← h.pnext]; rfl,
    by rw [← Branch.atHeight_unlink b p, ← h.lookup]; rfl⟩

/-- Taking off the blocks above an ancestor, from the top down. -/
theorem Tables.unlink_above :
    ∀ {p : BlockPtr} {n : Node DB E}, n.Tables p → f ∈ p.ancestors →
      ((p.above f).foldl Node.unlink n).Tables f
  | .root b, n, h, hf => by
    obtain rfl := List.mem_singleton.mp hf
    rwa [Branch.above_self]
  | .child b p, n, h, hf => by
    rcases List.mem_cons.mp hf with rfl | hf
    · rwa [Branch.above_self]
    · rw [Branch.above_child b hf, List.foldl_cons]
      exact h.unlink.unlink_above hf

/-- Putting on the blocks above an ancestor, from the bottom up. -/
theorem Tables.link_above (h : n.Tables f) :
    ∀ {p : BlockPtr}, f ∈ p.ancestors → ((p.above f).reverse.foldl Node.link n).Tables p
  | .root b, hf => by
    obtain rfl := List.mem_singleton.mp hf
    rwa [Branch.above_self]
  | .child b p, hf => by
    rcases List.mem_cons.mp hf with rfl | hf
    · rwa [Branch.above_self]
    · rw [Branch.above_child b hf, List.reverse_cons, List.foldl_append]
      exact (h.link_above hf).link

/-- In a node with the tables of a branch the next block is properly connected. -/
theorem Tables.connected (h : n.Tables p) :
    ¬ n.notConnected (.child b p) := by
  rintro ⟨q, hq, r, hr, hne⟩
  cases hq
  rw [h.pnext, Branch.next_eq_some.mpr ⟨Branch.self_mem_ancestors _, hr⟩] at hne
  exact hne rfl

theorem SameTree.refl (n : Node DB E) : SameTree n n := ⟨rfl, rfl⟩

theorem SameTree.trans {a b c : Node DB E} (h : SameTree a b) (h' : SameTree b c) :
    SameTree a c := ⟨h'.1.trans h.1, h'.2.trans h.2⟩

/-- What the steps over the tables leave alone. -/
structure Framed (n n' : Node DB E) : Prop where
  tree : SameTree n n'
  txdb : n'.txdb = n.txdb
  txdbBest : n'.txdbBest = n.txdbBest
  exploredb : n'.exploredb = n.exploredb

theorem Framed.refl (n : Node DB E) : Framed n n := ⟨.refl n, rfl, rfl, rfl⟩

theorem Framed.trans {a b c : Node DB E} (h : Framed a b) (h' : Framed b c) : Framed a c :=
  ⟨h.tree.trans h'.tree, h'.txdb.trans h.txdb, h'.txdbBest.trans h.txdbBest,
    h'.exploredb.trans h.exploredb⟩

theorem foldl_framed {f : Node DB E → BlockPtr → Node DB E} (hf : ∀ n p, Framed n (f n p)) :
    ∀ (l : List BlockPtr) (n : Node DB E), Framed n (l.foldl f n)
  | [], n => .refl n
  | p :: l, n => (hf n p).trans (foldl_framed hf l (f n p))

theorem link_framed (n : Node DB E) (p : BlockPtr) : Framed n (n.link p) :=
  ⟨.refl n, rfl, rfl, rfl⟩

theorem unlink_framed (n : Node DB E) (p : BlockPtr) : Framed n (n.unlink p) :=
  ⟨.refl n, rfl, rfl, rfl⟩

/-! ## 7. What a call does -/

/-- What a successful step leaves: the tables and the committed best block of its target. -/
structure Moved (n n' : Node DB E) (p : BlockPtr) : Prop where
  tables : n'.Tables p
  txdbBest : n'.txdbBest = p.hash
  tree : SameTree n n'

theorem Moved.trans {n'' : Node DB E} {q : BlockPtr} (h : Moved n n' p) (h' : Moved n' n'' q) :
    Moved n n'' q := ⟨h'.tables, h'.txdbBest, h.tree.trans h'.tree⟩

theorem Tables.commit (h : n.Tables p) (q : BlockPtr) (db : DB) (e : E) :
    (n.commit q db e).Tables p := ⟨h.pnext, h.lookup⟩

theorem setBestChainInner_cases {b : IndexedBlock} {p : BlockPtr} (h : n.Tables p) :
    (∃ e, ops.connectBlock n.pnext (.child b p) n.txdb n.exploredb = (none, e) ∧
      setBestChainInner ops n (.child b p) = (false, { n with exploredb := e })) ∨
      ∃ n', setBestChainInner ops n (.child b p) = (true, n') ∧ Moved n n' (.child b p) := by
  simp only [setBestChainInner, Branch.parent?]
  rcases ops.connectBlock n.pnext (.child b p) n.txdb n.exploredb with ⟨_ | db, e⟩
  · exact Or.inl ⟨e, rfl, rfl⟩
  · have htables := h.commit (.child b p) db e
    refine Or.inr ⟨(n.commit (.child b p) db e).link (.child b p), ?_, ?_⟩
    · simp only [if_neg htables.connected]
    · exact ⟨htables.link, rfl, .refl _⟩

/-- What is changed in place is none of the best chain's. -/
theorem BestOk.changed {best : BlockPtr} (h : BestOk n best) (e : E) :
    BestOk { n with exploredb := e } best :=
  ⟨h.pindexBest, h.hashBestChain, h.nBestHeight, ⟨h.tables.pnext, h.tables.lookup⟩, h.txdbBest,
    h.known⟩

theorem connectSecondary_append (l : List BlockPtr) (p : BlockPtr) (n : Node DB E) :
    connectSecondary ops (l ++ [p]) n =
      match connectSecondary ops l n with
      | (false, n') => (false, n')
      | (true, n') => setBestChainInner ops n' p := by
  induction l generalizing n with
  | nil =>
    simp only [List.nil_append, connectSecondary]
    split
    · next heq => exact heq.symm
    · next heq => exact heq.symm
  | cons q l ih =>
    simp only [List.cons_append, connectSecondary]
    split
    · rfl
    · exact ih _

/-- Attaching the postponed blocks, when none fails. -/
theorem connectSecondary_above {i : BlockPtr} (h : n.Tables i) (hbest : n.txdbBest = i.hash) :
    ∀ {p : BlockPtr}, i ∈ p.ancestors → ∀ {n' : Node DB E},
      connectSecondary ops (p.above i).reverse n = (true, n') → Moved n n' p
  | .root b, hi, n', hc => by
    obtain rfl := List.mem_singleton.mp hi
    rw [Branch.above_self] at hc
    cases hc
    exact ⟨h, hbest, .refl n⟩
  | .child b p, hi, n', hc => by
    rcases List.mem_cons.mp hi with rfl | hi
    · rw [Branch.above_self] at hc
      cases hc
      exact ⟨h, hbest, .refl n⟩
    · rw [Branch.above_child b hi, List.reverse_cons, connectSecondary_append] at hc
      split at hc
      · cases hc
      · next n₁ hn₁ =>
        have hmoved := connectSecondary_above h hbest hi hn₁
        rcases @setBestChainInner_cases _ _ ops n₁ b p hmoved.tables with
          ⟨e, -, hfail⟩ | ⟨n₂, hok, hm⟩
        · rw [hfail] at hc
          cases hc
        · rw [hok] at hc
          cases hc
          exact hmoved.trans hm

/-- The blocks a call postpones are those above the one it reorganises to. -/
theorem postpone_spec (t : UInt256) :
    ∀ p : BlockPtr, (postpone t p).1 ∈ p.ancestors ∧ (postpone t p).2 = p.above (postpone t p).1
  | .root b => ⟨List.mem_singleton_self _, (Branch.above_self _).symm⟩
  | .child b p => by
    obtain ⟨hmem, habove⟩ := postpone_spec t p
    unfold postpone
    split
    · exact ⟨List.mem_cons_of_mem _ hmem, by rw [Branch.above_child b hmem, ← habove]⟩
    · exact ⟨List.mem_cons_self, (Branch.above_self _).symm⟩

/-- The lowest block above a proper ancestor has it as its parent. -/
theorem head_above_reverse :
    ∀ {p q : BlockPtr}, f ∈ p.ancestors → (p.above f).reverse.head? = some q → q.parent? = some f
  | .root b, q, hf, hq => by
    obtain rfl := List.mem_singleton.mp hf
    rw [Branch.above_self] at hq
    cases hq
  | .child b p, q, hf, hq => by
    rcases List.mem_cons.mp hf with rfl | hf
    · rw [Branch.above_self] at hq
      cases hq
    · rw [Branch.above_child b hf, List.reverse_cons] at hq
      cases hl : (p.above f).reverse.head? with
      | none =>
        have hnil : p.above f = [] := by simpa using hl
        have hp : p.ancestors = f.ancestors := by
          rw [Branch.ancestors_eq_above_append hf, hnil, List.nil_append]
        have hpf : p = f := Branch.eq_of_mem_of_height (hp ▸ Branch.self_mem_ancestors p)
          (Branch.height_le_of_mem hf)
        rw [hnil] at hq
        cases hq
        rw [hpf]
        rfl
      | some r =>
        have hq' : (p.above f).reverse.head? = some q := by
          rw [hl]
          simpa [List.head?_append, hl] using hq
        exact head_above_reverse hf hq'

/-- **What a reorganisation can do**: fail and leave nothing behind but what its batch changed in
place, or move to its target. -/
theorem reorganize_cases {best p : BlockPtr} (hbest : n.pindexBest = some best)
    (h : n.Tables best) :
    (∃ e, reorganize ops n p = (false, { n with exploredb := e }) ∧
      reorgBatch ops n best p = (none, e)) ∨
      ∃ n', reorganize ops n p = (true, n') ∧ Moved n n' p ∧
        reorgBatch ops n best p = (some n'.txdb, n'.exploredb) := by
  unfold reorganize reorgBatch
  split
  · next hnone =>
    rw [hbest] at hnone
    cases hnone
  · next best' hsome =>
    rw [hbest] at hsome
    cases hsome
    split
    · exact Or.inl ⟨n.exploredb, rfl, rfl⟩
    · next f hfork =>
      obtain ⟨hfb, hfp, -⟩ := Branch.findFork_spec hfork
      split
      · next e hrun => exact Or.inl ⟨e, rfl, hrun⟩
      · next db e hrun =>
        have hcut : ((best.above f).foldl unlink (n.commit p db e)).Tables f :=
          (h.commit p db e).unlink_above hfb
        have hconn : ¬ ∃ q ∈ (p.above f).reverse.head?,
            ((best.above f).foldl unlink (n.commit p db e)).notConnected q := by
          rintro ⟨q, hq, hnot⟩
          have hpar := head_above_reverse hfp hq
          cases q with
          | root b => cases hpar
          | child b q =>
            cases hpar
            exact hcut.connected hnot
        have hframe := (foldl_framed unlink_framed (best.above f) (n.commit p db e)).trans
          (foldl_framed link_framed (p.above f).reverse _)
        have hmoved : Moved n ((p.above f).reverse.foldl link
            ((best.above f).foldl unlink (n.commit p db e))) p :=
          ⟨hcut.link_above hfp, hframe.txdbBest, hframe.tree⟩
        refine Or.inr ⟨_, if_neg hconn, hmoved, ?_⟩
        rw [hframe.txdb, hframe.exploredb]
        exact hrun

/-- The locator adds nothing to a lookup that has every height. -/
theorem locatorLoop_eq {lookup : Nat → Option BlockPtr} {m : Nat}
    (h : ∀ k ≤ m, (lookup k).isSome = true) :
    ∀ (fuel : Nat) (q : Option BlockPtr) (nHeight nStep nHave : Nat), nHeight ≤ m →
      locatorLoop fuel q nHeight nStep nHave lookup = lookup
  | 0, _, _, _, _, _ => rfl
  | _ + 1, none, _, _, _, _ => rfl
  | fuel + 1, some p, nHeight, nStep, nHave, hle => by
    have hle' : nHeight - nStep ≤ m := (Nat.sub_le _ _).trans hle
    simp only [locatorLoop]
    generalize (if nHave + 1 > 10 then nStep * 2 else nStep) = nStep'
    split
    · rfl
    · split
      · exact locatorLoop_eq h fuel _ _ _ _ hle'
      · split
        · exact locatorLoop_eq h fuel _ _ _ _ hle'
        · next hnone =>
          have := h _ hle'
          rw [hnone] at this
          cases this

theorem locatorSet_eq (p : BlockPtr) : locatorSet p p.atHeight = p.atHeight := by
  have hall : ∀ k ≤ p.height, (p.atHeight k).isSome = true := by
    intro k hk
    obtain ⟨r, hr⟩ := Branch.exists_atHeight hk
    rw [hr]
    rfl
  unfold locatorSet
  split
  · rfl
  · exact locatorLoop_eq hall _ _ _ _ _ le_rfl

/-- Publishing the block the tables lead to. -/
theorem Moved.publish (h : Moved n n' p) (hp : n.mapBlockIndex p.hash = some p)
    (fIsInitialDownload : Bool) :
    BestOk (publish fIsInitialDownload p n') p ∧
      SameTree n (publish fIsInitialDownload p n') := by
  have hlookup : (Node.publish fIsInitialDownload p n').mapBlockLookup = p.atHeight := by
    simp only [Node.publish, h.tables.lookup, locatorSet_eq, ite_self]
  refine ⟨⟨rfl, rfl, rfl, ⟨h.tables.pnext, hlookup⟩, h.txdbBest, ?_⟩, h.tree⟩
  rw [← hp]
  exact congrFun h.tree.1 _

theorem TreeOk.congr (h : TreeOk n g) (hs : SameTree n n') : TreeOk n' g := by
  obtain ⟨hmap, hgen⟩ := hs
  refine ⟨hgen ▸ h.genesis, ?_, ?_, ?_⟩
  · intro k p hp
    exact h.hash_eq (hmap ▸ hp)
  · intro k p q hp hq
    rw [hmap] at hp ⊢
    exact h.parent hp hq
  · intro k p hp
    exact h.bottom (hmap ▸ hp)

variable {hashGenesisBlock}

/-- **What a call of `SetBestChain` leaves**, unless a postponed reconnect fails: the chain of the
block it was called on when it returns true, and the old one when it returns false. -/
theorem setBestChain_spec {best p : BlockPtr} (htree : TreeOk n g) (hok : BestOk n best)
    (hp : n.mapBlockIndex p.hash = some p) (hpost : PostponedOk ops n p)
    (fIsInitialDownload : Bool) :
    SameTree n (setBestChain ops hashGenesisBlock fIsInitialDownload n p).2 ∧
      BestOk (setBestChain ops hashGenesisBlock fIsInitialDownload n p).2
        (if (setBestChain ops hashGenesisBlock fIsInitialDownload n p).1 then p else best) := by
  have hgen : ¬ (n.pindexGenesisBlock = none ∧ p.hash = hashGenesisBlock) := by
    rw [htree.genesis]
    exact fun h => nomatch h.1
  unfold setBestChain
  rw [if_neg hgen]
  split
  · next hext =>
    -- the block's parent is the best block, because ids name their blocks
    cases p with
    | root b => exact ⟨.refl n, hok⟩
    | child b q =>
      obtain ⟨hq, hprev⟩ := htree.parent hp rfl
      have hqb : q = best := by
        rw [hprev, hok.hashBestChain] at hext
        rw [hext, hok.known] at hq
        exact (Option.some_inj.mp hq).symm
      subst hqb
      rcases @setBestChainInner_cases _ _ ops n b q hok.tables with
        ⟨e, -, hfail⟩ | ⟨n', hdone, hmoved⟩
      · rw [hfail]
        exact ⟨.refl n, hok.changed e⟩
      · rw [hdone]
        exact (hmoved.publish hp fIsInitialDownload).symm
  · rw [hok.pindexBest]
    obtain ⟨hmem, habove⟩ := postpone_spec best.nChainTrust p
    rcases @reorganize_cases _ _ ops n best (postpone best.nChainTrust p).1 hok.pindexBest
      hok.tables with ⟨e, hfail, -⟩ | ⟨n', hdone, hmoved, -⟩
    · simp only [hfail]
      exact ⟨.refl n, hok.changed e⟩
    · have hsec := hpost best n' hok.pindexBest hdone
      simp only [hdone]
      rw [habove] at hsec ⊢
      have hmoved' := hmoved.trans (connectSecondary_above hmoved.tables hmoved.txdbBest hmem
        (Prod.ext hsec rfl))
      exact (hmoved'.publish hp fIsInitialDownload).symm

end Node

end Breakout
