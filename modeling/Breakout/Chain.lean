/-
# Runs of a node: blocks connected and disconnected

A node's chain is its transaction index and the blocks it has connected, the newest first.
`Reachable` is every chain a node can get to from the genesis block by any sequence of
successful `ConnectBlock` and `DisconnectBlock` calls.  What a node reads besides (its clock, its
block files, its memory pool) may differ from call to call and is arbitrary.

The one premise is on the hash: among the transactions the node ever sees, `T`, no two with
different hash preimages have the same id.  Without it "the output an input names" means
nothing.

Two levels are connected here.  Below, the index with its spent markers; above, the list of
transactions of the chain as moves of a ledger (`Lib.Ledger`).  The index of a reachable chain
holds exactly the outputs the ledger leaves unspent (`Reachable.inv`), after connecting and after
disconnecting alike, although an index entry can be lost on the way when a fully spent
transaction is overwritten and the overwriting block disconnected.
-/
import Breakout.ConnectSpec

namespace Breakout

open Lib

/-! ## 1. Chains and runs -/

/-- The connected blocks, newest first, each with its index. -/
abbrev Blocks := List (CBlockIndex × CBlock)

/-- The index at the top, above the genesis block's own. -/
def tipOf (g : DiskBlockPos) : Blocks → CBlockIndex
  | [] => genesisIndex g
  | (pindex, _) :: _ => pindex

/-- The indices below the top. -/
def ancestorsOf (g : DiskBlockPos) : Blocks → List CBlockIndex
  | [] => []
  | _ :: rest => tipOf g rest :: ancestorsOf g rest

/-- A node's best chain. -/
structure ChainState where
  txdb : TxDB
  blocks : Blocks

/-- The transactions of a chain, newest first. -/
def txsOf (blocks : Blocks) : List CTransaction := blocks.flatMap fun b => b.2.vtx.reverse

@[simp] theorem txsOf_nil : txsOf [] = [] := rfl

@[simp] theorem txsOf_cons (pindex : CBlockIndex) (block : CBlock) (rest : Blocks) :
    txsOf ((pindex, block) :: rest) = block.vtx.reverse ++ txsOf rest := rfl

section

variable (K : Crypto) (T : Set CTransaction) (fTestNet : Bool) (g : DiskBlockPos)

/-- **The chains a node can get to.** -/
inductive Reachable : ChainState → Prop
  | genesis : Reachable ⟨fun _ => none, []⟩
  | connect {s : ChainState} {env : NodeEnv} {pos : DiskBlockPos} {block : CBlock}
      {pindex' : CBlockIndex} {txdb' : TxDB} :
      Reachable s → env.clock.fTestNet = fTestNet → (∀ tx, env.Holds tx → tx ∈ T) →
      (∀ tx ∈ block.vtx, tx ∈ T) →
      connectBlock K env s.txdb (newBlockIndex pos block (tipOf g s.blocks)) (tipOf g s.blocks)
        (ancestorsOf g s.blocks) block false = .ok (pindex', txdb') →
      Reachable ⟨txdb', (pindex', block) :: s.blocks⟩
  | disconnect {txdb txdb' : TxDB} {pindex : CBlockIndex} {block : CBlock} {rest : Blocks}
      {env : NodeEnv} :
      Reachable ⟨txdb, (pindex, block) :: rest⟩ →
      disconnectBlock K env txdb block = .ok txdb' → Reachable ⟨txdb', rest⟩

/-! ## 2. Outputs by id -/

open Classical in
/-- The output an outpoint names, among the transactions of `T`. -/
noncomputable def outputIn (o : COutPoint) : Option CTxOut :=
  if h : ∃ tx ∈ T, tx.getHash K = o.hash then h.choose.vout[o.n.toNat]? else none

/-- The value of an output if it has the colour `c`. -/
def colorValue (c : Color) (o : Option CTxOut) : Int :=
  match o with
  | some out => if out.nColor = c.toInt32 then out.nValue.toInt else 0
  | none => 0

/-- The value in a colour of the output an outpoint names. -/
noncomputable def valueIn (c : Color) (o : COutPoint) : Int := colorValue c (outputIn K T o)

/-- Is the output an outpoint names null data? -/
noncomputable def burnIn (o : COutPoint) : Bool := (outputIn K T o).any isBurn

end

variable {K : Crypto} {T : Set CTransaction} {fTestNet : Bool} {g : DiskBlockPos}

variable {tx : CTransaction} {view view' : TxDB} {ctx : ConnectCtx} {prevs : List CTxOut}

theorem CollisionFree.outputIn_eq (hT : CollisionFree K T) (htx : tx ∈ T) {o : COutPoint}
    (ho : tx.getHash K = o.hash) : outputIn K T o = tx.vout[o.n.toNat]? := by
  have hex : ∃ tx ∈ T, tx.getHash K = o.hash := ⟨tx, htx, ho⟩
  rw [outputIn, dif_pos hex, hT.vout_eq hex.choose_spec.1 htx (hex.choose_spec.2.trans ho.symm)]

/-- The outpoints a transaction creates name its outputs. -/
theorem CollisionFree.map_creates (hT : CollisionFree K T) (htx : tx ∈ T)
    (hlen : tx.vout.length ≤ 2 ^ 32) :
    (tx.creates K).map (outputIn K T) = tx.vout.map some := by
  apply List.ext_getElem?
  intro i
  rw [CTransaction.creates, List.map_map, List.getElem?_map, List.getElem?_map]
  by_cases hi : i < tx.vout.length
  · rw [List.getElem?_range hi, List.getElem?_eq_getElem hi, Option.map_some, Option.map_some,
      Function.comp_apply, hT.outputIn_eq htx rfl]
    rw [UInt32.toNat_ofNat', Nat.mod_eq_of_lt (by omega), List.getElem?_eq_getElem hi]
  · rw [List.getElem?_eq_none (by simpa using hi), List.getElem?_eq_none (by simpa using hi)]
    rfl

theorem CollisionFree.sum_creates (hT : CollisionFree K T) (htx : tx ∈ T)
    (hlen : tx.vout.length ≤ 2 ^ 32) (c : Color) :
    ((tx.creates K).map (valueIn K T c)).sum = colorSum tx.vout c.toInt32 := by
  have h : (tx.creates K).map (valueIn K T c) =
      ((tx.creates K).map (outputIn K T)).map (colorValue c) := by
    rw [List.map_map]
    rfl
  rw [h, hT.map_creates htx hlen, List.map_map]
  rfl

/-- A checked transaction has few enough outputs to number them in 32 bits. -/
theorem CheckedTx.vout_length (h : CheckedTx tx) :
    tx.vout.length ≤ 2 ^ 32 := by
  have hsize := h.size_le
  have hout := length_le_encVec (e := CTxOut.serialize)
    (fun o => by have := length_serialize_txOut o; omega) tx.vout
  simp only [CTransaction.serialize, List.length_append, maxBlockSize] at hsize
  omega

/-! ## 3. One transaction in the ledger -/

/-- A transaction is in order where the outputs `U` are unspent. -/
structure TxOk (K : Crypto) (T : Set CTransaction) (U : Finset COutPoint) (tx : CTransaction) :
    Prop where
  mem : tx ∈ T
  checked : CheckedTx tx
  move : (tx.toMove K).Ok U
  fresh : ∀ o ∈ U, o.hash ≠ tx.getHash K
  spendable : ∀ o ∈ tx.spends, burnIn K T o = false

/-- The moves of a list of transactions. -/
def ledgerOf (K : Crypto) (txs : List CTransaction) : List (Move COutPoint) :=
  txs.map (·.toMove K)

@[simp] theorem ledgerOf_nil : ledgerOf K [] = [] := rfl

@[simp] theorem ledgerOf_cons (tx : CTransaction) (txs : List CTransaction) :
    ledgerOf K (tx :: txs) = tx.toMove K :: ledgerOf K txs := rfl

/-- Every transaction of a list, newest first, was in order when it came. -/
def LedgerOk (K : Crypto) (T : Set CTransaction) : List CTransaction → Prop
  | [] => True
  | tx :: h => TxOk K T (unspent (ledgerOf K h)) tx ∧ LedgerOk K T h

theorem SpentInput.outputIn_eq (hT : CollisionFree K T) {env : NodeEnv} {pindexBlock : CBlockIndex}
    {ancestors : List CBlockIndex} {txin : CTxIn} {txPrev : CTransaction} {idx : CTxIndex}
    {txout : CTxOut} (hholds : ∀ t, env.Holds t → t ∈ T)
    (h : SpentInput K env view pindexBlock ancestors txin txPrev idx txout) :
    outputIn K T txin.prevout = some txout := by
  rw [hT.outputIn_eq (hholds _ h.holds) h.getHash, h.output]

theorem sum_valueIn_prevouts {c : Color} :
    ∀ {vin : List CTxIn} {prevs : List CTxOut},
      List.Forall₂ (fun txin txout => outputIn K T txin.prevout = some txout) vin prevs →
      ((vin.map CTxIn.prevout).map (valueIn K T c)).sum = colorSum prevs c.toInt32
  | _, _, .nil => rfl
  | _, _, .cons hout hrest => by
    rw [List.map_cons, List.map_cons, List.sum_cons, colorSum_cons, sum_valueIn_prevouts hrest,
      valueIn, hout]
    rfl

/-- The outputs a transaction spends are worth what its previous transactions say. -/
theorem ConnectedTx.sum_spends (hT : CollisionFree K T) (hholds : ∀ t, ctx.env.Holds t → t ∈ T)
    (h : ConnectedTx K ctx view view' tx prevs) (c : Color) :
    (tx.spends.map (valueIn K T c)).sum = colorSum prevs c.toInt32 := by
  obtain ⟨mid, nTxPos, ⟨hcb, rfl, -⟩ | ⟨hcb, hci⟩, -⟩ := h.entered
  · simp [CTransaction.spends, hcb]
  · simp only [CTransaction.spends, hcb, Bool.false_eq_true, if_false]
    refine sum_valueIn_prevouts (hci.spent.imp ?_)
    rintro txin txout ⟨txPrev, idx, hs⟩
    exact hs.outputIn_eq hT hholds

theorem exists_of_forall₂ {α β : Type} {R : α → β → Prop} :
    ∀ {l : List α} {l' : List β}, List.Forall₂ R l l' → ∀ a ∈ l, ∃ b, R a b
  | _, _, .nil, a, ha => by cases ha
  | _, _, .cons hab hrest, a, ha => by
    rcases List.mem_cons.mp ha with rfl | ha
    · exact ⟨_, hab⟩
    · exact exists_of_forall₂ hrest a ha

/-- What is left of the view once the inputs of a transaction are spent. -/
theorem ConnectedTx.spends_spec (hT : CollisionFree K T) (hholds : ∀ t, ctx.env.Holds t → t ∈ T)
    (h : ConnectedTx K ctx view view' tx prevs) :
    tx.spends.Nodup ∧ (∀ o ∈ tx.spends, Unspent view o ∧ burnIn K T o = false) ∧
      ∃ mid nTxPos, (∀ o, Unspent mid o ↔ Unspent view o ∧ o ∉ tx.spends) ∧
        view' = mid.update (tx.getHash K)
          (.new ⟨ctx.pindex.nFile, ctx.pindex.nBlockPos, nTxPos⟩ tx.vout.length) := by
  obtain ⟨mid, nTxPos, ⟨hcb, -, rfl⟩ | ⟨hcb, hci⟩, hview⟩ := h.entered
  · have hspends : tx.spends = [] := by simp [CTransaction.spends, hcb]
    rw [hspends]
    exact ⟨List.nodup_nil, by simp, mid, nTxPos, by simp, hview⟩
  · have hspends : tx.spends = tx.vin.map CTxIn.prevout := by simp [CTransaction.spends, hcb]
    rw [hspends]
    refine ⟨hci.nodup, ?_, mid, nTxPos, hci.view_iff, hview⟩
    intro o ho
    obtain ⟨txin, htx, rfl⟩ := List.mem_map.mp ho
    obtain ⟨txout, txPrev, idx, hs⟩ := exists_of_forall₂ hci.spent txin htx
    refine ⟨hs.unspent, ?_⟩
    by_contra hb
    rw [burnIn, hs.outputIn_eq hT hholds, Option.any_some, Bool.not_eq_false] at hb
    have hop := isOpReturn_of_isBurn hb
    rw [hs.spendable] at hop
    cases hop

/-- **A connected transaction moves the ledger.** -/
theorem ConnectedTx.txOk (hT : CollisionFree K T) (hholds : ∀ t, ctx.env.Holds t → t ∈ T)
    (hmem : tx ∈ T) (hchk : CheckedTx tx) (h : ConnectedTx K ctx view view' tx prevs)
    (hfresh : ∀ o, Unspent view o → o.hash ≠ tx.getHash K) :
    TxOk K T (unspentSet view) tx ∧ unspentSet view' = (tx.toMove K).apply (unspentSet view) := by
  have hlen := hchk.vout_length
  obtain ⟨hnd, hspent, mid, nTxPos, hmid, rfl⟩ := h.spends_spec hT hholds
  refine ⟨⟨hmem, hchk, ⟨hnd, ?_, CTransaction.nodup_creates hlen, ?_⟩, ?_, ?_⟩, ?_⟩
  · exact fun o ho => mem_unspentSet.mpr (hspent o ho).1
  · intro o ho hu
    exact hfresh o (mem_unspentSet.mp hu) ((CTransaction.mem_creates hlen).mp ho).1
  · exact fun o ho => hfresh o (mem_unspentSet.mp ho)
  · exact fun o ho => (hspent o ho).2
  · ext o
    rw [mem_unspentSet, Move.mem_apply, unspent_enter, hmid, mem_unspentSet, CTransaction.toMove,
      CTransaction.mem_creates hlen]
    constructor
    · rintro (ho | ⟨-, ho⟩)
      · exact Or.inr ho
      · exact Or.inl ho
    · rintro (ho | ho)
      · exact Or.inr ⟨hfresh o ho.1, ho⟩
      · exact Or.inl ho

/-! ## 4. Blocks in the ledger -/

/-- **The transactions of a block move the ledger**, one after another.  An id of the block that
is unspent in the view was unspent in the database before the block, and was refused there. -/
theorem ConnectedTxs.ledgerOk (hT : CollisionFree K T) (hholds : ∀ t, ctx.env.Holds t → t ∈ T) :
    ∀ {l : List (CTransaction × List CTxOut)} {view view' : TxDB} {h : List CTransaction},
      ConnectedTxs K ctx view l view' → (∀ p ∈ l, p.1 ∈ T ∧ CheckedTx p.1) →
      (l.map fun p => p.1.getHash K).Nodup →
      (∀ o, Unspent view o → Unspent ctx.txdb o ∨ ∀ p ∈ l, o.hash ≠ p.1.getHash K) →
      LedgerOk K T h → unspentSet view = unspent (ledgerOf K h) →
      LedgerOk K T ((l.map Prod.fst).reverse ++ h) ∧
        unspentSet view' = unspent (ledgerOf K ((l.map Prod.fst).reverse ++ h))
  | _, _, _, h, .nil _, _, _, _, hok, hview => ⟨hok, hview⟩
  | _, view, view', h, @ConnectedTxs.cons _ _ _ view₁ _ tx prevs rest htx hrest,
      hall, hnd, hfresh, hok, hview => by
    rw [List.map_cons, List.nodup_cons] at hnd
    obtain ⟨hmem, hchk⟩ := hall (tx, prevs) List.mem_cons_self
    have hfresh₀ : ∀ o, Unspent view o → o.hash ≠ tx.getHash K := by
      intro o ho
      rcases hfresh o ho with hdb | hne
      · exact htx.fresh o hdb
      · exact hne (tx, prevs) List.mem_cons_self
    obtain ⟨htxok, happly⟩ := htx.txOk hT hholds hmem hchk hfresh₀
    rw [hview] at htxok happly
    have hfresh₁ : ∀ o, Unspent view₁ o →
        Unspent ctx.txdb o ∨ ∀ p ∈ rest, o.hash ≠ p.1.getHash K := by
      intro o ho
      rw [← mem_unspentSet, happly, Move.mem_apply, ← hview, mem_unspentSet] at ho
      rcases ho with ⟨ho, -⟩ | ho
      · exact (hfresh o ho).imp_right fun hne p hp => hne p (List.mem_cons_of_mem _ hp)
      · refine Or.inr fun p hp heq => hnd.1 ?_
        have hid : o.hash = tx.getHash K :=
          ((CTransaction.mem_creates hchk.vout_length).mp ho).1
        rw [← hid, heq]
        exact List.mem_map_of_mem hp
    have hres := ConnectedTxs.ledgerOk hT hholds (h := tx :: h) hrest
      (fun p hp => hall p (List.mem_cons_of_mem _ hp)) hnd.2 hfresh₁ ⟨htxok, hok⟩ happly
    simpa using hres

/-- **Disconnecting transactions, newest first, restores the ledger.** -/
theorem disconnectTxs_spec {txdb' : TxDB} :
    ∀ {l h : List CTransaction} {txdb : TxDB}, LedgerOk K T (l ++ h) →
      unspentSet txdb = unspent (ledgerOf K (l ++ h)) → disconnectTxs K l txdb = .ok txdb' →
      unspentSet txdb' = unspent (ledgerOf K h)
  | [], h, txdb, _, hset, hd => by
    cases hd
    exact hset
  | tx :: l, h, txdb, hok, hset, hd => by
    simp only [disconnectTxs, bind_eq_ok] at hd
    obtain ⟨db, hdi, hd⟩ := hd
    obtain ⟨htx, hok⟩ := hok
    refine disconnectTxs_spec hok ?_ hd
    have hundo := htx.move.undo_apply (R := fun o => o.hash = tx.getHash K)
      (fun o ho => ((CTransaction.mem_creates htx.checked.vout_length).mp ho).1) htx.fresh
    show unspentSet db = unspent (ledgerOf K (l ++ h))
    refine Eq.trans ?_ hundo
    ext o
    rw [mem_unspentSet, disconnectInputs_spec hdi o, ← mem_unspentSet, hset]
    simp [ledgerOf, unspent, CTransaction.toMove]

section

variable (K : Crypto) (T : Set CTransaction) (fTestNet : Bool) (g : DiskBlockPos)

/-- Chains of blocks each of which was connected to the ones below it, in some database that held
what those leave unspent. -/
inductive ChainOk : Blocks → Prop
  | genesis : ChainOk []
  | block {rest : Blocks} {pindex : CBlockIndex} {block : CBlock} {env : NodeEnv}
      {txdb txdb' : TxDB} {pos : DiskBlockPos} {l : List (CTransaction × List CTxOut)} :
      ChainOk rest → env.clock.fTestNet = fTestNet → (∀ tx, env.Holds tx → tx ∈ T) →
      (∀ tx ∈ block.vtx, tx ∈ T) → unspentSet txdb = unspent (ledgerOf K (txsOf rest)) →
      ConnectedBlock K (ctxOf env txdb pos block (tipOf g rest) (ancestorsOf g rest)) block pindex
        txdb' l →
      ChainOk ((pindex, block) :: rest)

end

/-- A connected block extends the ledger. -/
theorem ConnectedBlock.ledgerOk (hT : CollisionFree K T) {ctx : ConnectCtx} {block : CBlock}
    {pindex' : CBlockIndex} {txdb' : TxDB} {l : List (CTransaction × List CTxOut)}
    {h : List CTransaction} (hb : ConnectedBlock K ctx block pindex' txdb' l)
    (hholds : ∀ t, ctx.env.Holds t → t ∈ T) (hmem : ∀ tx ∈ block.vtx, tx ∈ T)
    (hok : LedgerOk K T h) (hset : unspentSet ctx.txdb = unspent (ledgerOf K h)) :
    LedgerOk K T (block.vtx.reverse ++ h) ∧
      unspentSet txdb' = unspent (ledgerOf K (block.vtx.reverse ++ h)) := by
  rw [← hb.txs]
  have hall : ∀ p ∈ l, p.1 ∈ block.vtx := by
    intro p hp
    rw [← hb.txs]
    exact List.mem_map_of_mem hp
  refine hb.connected.ledgerOk hT hholds ?_ ?_ (fun o ho => Or.inl ho) hok hset
  · exact fun p hp => ⟨hmem p.1 (hall p hp), (hb.checked.checked p.1 (hall p hp)).1⟩
  · have hnd := hb.checked.txids_nodup
    rwa [← hb.txs, List.map_map] at hnd

theorem ChainOk.ledgerOk (hT : CollisionFree K T) :
    ∀ {blocks : Blocks}, ChainOk K T fTestNet g blocks → LedgerOk K T (txsOf blocks)
  | _, .genesis => trivial
  | _, .block hrest _ hholds hmem hset hb =>
    (hb.ledgerOk hT hholds hmem (ChainOk.ledgerOk hT hrest) hset).1

/-- **The index of a reachable chain holds what the ledger leaves unspent**, and each of its
blocks was connected to such an index. -/
theorem Reachable.inv (hT : CollisionFree K T) {s : ChainState}
    (h : Reachable K T fTestNet g s) :
    ChainOk K T fTestNet g s.blocks ∧
      unspentSet s.txdb = unspent (ledgerOf K (txsOf s.blocks)) := by
  induction h with
  | genesis =>
    refine ⟨.genesis, ?_⟩
    ext o
    simp [Unspent, unspent]
  | connect _ htest hholds hmem hconn ih =>
    obtain ⟨hchain, hset⟩ := ih
    obtain ⟨l, hb⟩ := connectBlock_spec hconn
    exact ⟨.block hchain htest hholds hmem hset hb,
      (hb.ledgerOk hT hholds hmem (hchain.ledgerOk hT) hset).2⟩
  | @disconnect txdb txdb' pindex block rest env _ hd ih =>
    obtain ⟨hchain, hset⟩ := ih
    have hok : LedgerOk K T (block.vtx.reverse ++ txsOf rest) := hchain.ledgerOk hT
    simp only [disconnectBlock, bind_eq_ok, pure_eq_ok] at hd
    obtain ⟨db, hdt, _, _, rfl⟩ := hd
    cases hchain with
    | block hrest => exact ⟨hrest, disconnectTxs_spec hok hset hdt⟩

end Breakout
