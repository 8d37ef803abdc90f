/-
# The explorer along the chain

Runs of the explorer beside a node: the genesis block is entered, blocks are connected and
disconnected, a call may be aborted, and the node may be restarted.  The database a call reads the
previous outputs from is the node's at that time, or, when the index is rebuilt, one that is
further on; all that matters of it is that it is faithful.

After every step the index describes the chain (`ExploreInv`): its records mirror the books of the
chain's transactions.  Two conditions are needed.  The books have to stay within the machine's
numbers (`Bounded`); and a call that is aborted, or a restart, has to leave the map in memory as it
should be, which it does only if the addresses rank the same.
-/
import Breakout.AcceptedRuns
import Breakout.ChainRuns
import Breakout.ExploreHistory
import Breakout.ExploreRecords

namespace Breakout

open Lib

/-! ## 1. The transactions of a branch -/

/-- The transactions of a branch above the genesis block, the newest first. -/
def chainTxs : BlockPtr → List PlacedTx
  | .root _ => []
  | .child b p => (placed (Branch.height p + 1) 0 b.block.vtx).reverse ++ chainTxs p

/-- What the explorer reads of a block's index. -/
def exploreIndex (p : BlockPtr) : ExploreIndex :=
  ⟨p.top.block.nTime, p.height, p.parent?.map fun q => (BlockPtr.hash q, (Branch.height q : Int))⟩

section

variable (K : Crypto) (X : Explorer) (T : Set CTransaction) (fTestNet : Bool)

/-- The blocks of the branch can be connected: a node gets there. -/
def OnChain (p : BlockPtr) : Prop :=
  ∃ s, AcceptedRun K T fTestNet p.bottom.top.pos s ∧ s.blocks.map Prod.snd = blocksOf p

/-- The books of the branch stay within the machine's numbers, and no id is zero. -/
structure Bounded (p : BlockPtr) : Prop where
  ids : ∀ q ∈ chainTxs p, q.tx.getHash K ≠ 0
  small : EntriesSmall (entriesOf K X T (chainTxs p))

/-- All scripts of the branch can be read: every output spent is of a known kind, and no output
has a key that is no key. -/
def ReadableChain (p : BlockPtr) : Prop :=
  ∀ q ∈ chainTxs p, ReadableTx K X q.tx (prevOutsIn K T q.tx)

/-- The genesis block, as `LoadBlockIndex` makes it: no transaction of it has an input, and their
outputs are empty and of no colour. -/
def EmptyBlock (block : CBlock) : Prop :=
  ∀ tx ∈ block.vtx, tx ∈ T ∧ tx.isCoinBase = true ∧ tx.vout ≠ [] ∧
    ∀ txOut ∈ tx.vout, txOut.scriptPubKey = [] ∧ txOut.nColor = Color.none.toInt32

end

variable {K : Crypto} {X : Explorer} {T : Set CTransaction} {fTestNet : Bool}

theorem map_tx_chainTxs : ∀ p : BlockPtr,
    (chainTxs p).map PlacedTx.tx = (blocksOf p).flatMap fun b => b.vtx.reverse
  | .root _ => rfl
  | .child b p => by
    rw [chainTxs, List.map_append, List.map_reverse, map_tx_placed, map_tx_chainTxs p]
    rfl

/-- The ledger of a chain is in order, and no id repeats. -/
theorem OnChain.ledger (hT : CollisionFree K T) {p : BlockPtr} (h : OnChain K T fTestNet p) :
    LedgerOk K T ((chainTxs p).map PlacedTx.tx) ∧
      ((chainTxs p).map fun q => q.tx.getHash K).Nodup := by
  obtain ⟨s, hrun, hblocks⟩ := h
  have htxs : (chainTxs p).map PlacedTx.tx = txsOf s.blocks := by
    rw [map_tx_chainTxs, ← hblocks, List.flatMap_map]
    rfl
  have hids : ((chainTxs p).map fun q => q.tx.getHash K) =
      (txsOf s.blocks).map (·.getHash K) := by
    rw [← htxs, List.map_map]
    rfl
  rw [htxs, hids]
  exact hrun.ledger hT

theorem OnChain.parent {p : BlockPtr} {b : IndexedBlock} (h : OnChain K T fTestNet (.child b p)) :
    OnChain K T fTestNet p := by
  obtain ⟨⟨txdb, blocks⟩, hrun, hblocks⟩ := h
  obtain ⟨⟨pindex, block⟩, rest, rfl, -, hrest⟩ := List.map_eq_cons_iff.mp hblocks
  obtain ⟨db, hrun'⟩ := hrun.suffix (List.suffix_cons _ _)
  exact ⟨_, hrun', hrest⟩

/-- **The entries of a chain fit.** -/
theorem Bounded.entriesOk (hT : CollisionFree K T) {p : BlockPtr} (h : Bounded K X T p)
    (hchain : OnChain K T fTestNet p) : EntriesOk (entriesOf K X T (chainTxs p)) := by
  obtain ⟨hledger, hnodup⟩ := hchain.ledger hT
  exact (entriesOf_ok hT hledger hnodup h.ids).1

/-! ## 2. Runs -/

/-- **Runs of the explorer.**  `C` is asked of every block that is connected.  `A l l'` is asked
where the map in memory is that of the transactions `l` while the database has `l'`. -/
inductive Explored (K : Crypto) (X : Explorer) (T : Set CTransaction) (fTestNet : Bool)
    (g : IndexedBlock) (C : BlockPtr → Prop) (A : List PlacedTx → List PlacedTx → Prop) :
    BlockPtr → ExploreState → Prop
  | genesis {env : NodeEnv} {txdb : TxDB} {e : ExploreState} :
      EmptyBlock T g.block → env.Faithful K T txdb →
      exploreConnectBlock K X env txdb g.hash (some (exploreIndex (.root g))) g.block
        ⟨.clear, fun _ => none⟩ = (true, e) →
      Explored K X T fTestNet g C A (.root g) e
  | connect {p : BlockPtr} {b : IndexedBlock} {env : NodeEnv} {txdb : TxDB} {e e' : ExploreState} :
      Explored K X T fTestNet g C A p e → OnChain K T fTestNet (.child b p) → C (.child b p) →
      env.Faithful K T txdb →
      exploreConnectBlock K X env txdb b.hash (some (exploreIndex (.child b p))) b.block e =
        (true, e') →
      Explored K X T fTestNet g C A (.child b p) e'
  | disconnect {p : BlockPtr} {b : IndexedBlock} {env : NodeEnv} {txdb : TxDB}
      {e e' : ExploreState} :
      Explored K X T fTestNet g C A (.child b p) e → env.Faithful K T txdb →
      exploreDisconnectBlock K X env txdb (some (exploreIndex (.child b p))) b.block e =
        (true, e') →
      Explored K X T fTestNet g C A p e'
  | connectAborted {p : BlockPtr} {b : IndexedBlock} {env : NodeEnv} {txdb : TxDB}
      {e e' : ExploreState} :
      Explored K X T fTestNet g C A p e → OnChain K T fTestNet (.child b p) → C (.child b p) →
      env.Faithful K T txdb →
      exploreConnectBlock K X env txdb b.hash (some (exploreIndex (.child b p))) b.block e =
        (false, e') →
      (∀ done, FailsAfter env txdb b.block.vtx done →
        A ((placed (p.height + 1) 0 done).reverse ++ chainTxs p) (chainTxs p)) →
      Explored K X T fTestNet g C A p e'
  | disconnectAborted {p : BlockPtr} {b : IndexedBlock} {env : NodeEnv} {txdb : TxDB}
      {e e' : ExploreState} :
      Explored K X T fTestNet g C A (.child b p) e → env.Faithful K T txdb →
      exploreDisconnectBlock K X env txdb (some (exploreIndex (.child b p))) b.block e =
        (false, e') →
      (∀ done rest, (placed (p.height + 1) 0 b.block.vtx).reverse = done ++ rest →
        FailsAfter env txdb b.block.vtx.reverse (done.map PlacedTx.tx) →
        A (rest ++ chainTxs p) (chainTxs (.child b p))) →
      Explored K X T fTestNet g C A (.child b p) e'
  | restart {p : BlockPtr} {e : ExploreState} :
      Explored K X T fTestNet g C A p e → A [] (chainTxs p) →
      Explored K X T fTestNet g C A p ⟨e.db, fun _ => none⟩

/-- **The index describes the chain.** -/
structure ExploreInv (K : Crypto) (X : Explorer) (T : Set CTransaction) (g : IndexedBlock)
    (p : BlockPtr) (e : ExploreState) : Prop where
  describes : e.Describes (entriesOf K X T (chainTxs p))
  ok : EntriesOk (entriesOf K X T (chainTxs p))
  small : EntriesSmall (entriesOf K X T (chainTxs p))
  best : e.db.exploreBest = some (p.hash, (p.height : Int))
  txs : ∀ txid, (e.db.exploreTx txid).isSome = true →
    txid ∈ idsOf K (chainTxs p) ∨ txid ∈ g.block.vtx.map (·.getHash K)

variable {g : IndexedBlock} {p : BlockPtr} {b : IndexedBlock} {env : NodeEnv} {txdb : TxDB}
  {e e' : ExploreState}

/-! ## 3. What a call does -/

/-- The block's record is not part of what is described. -/
theorem ExploreState.Describes.putBest {es : List Entry} (h : e.Describes es)
    (best : UInt256 × Int) : (e.putBest best).Describes es := by
  obtain ⟨haddr, hsets, hmap⟩ := describes_iff.mp h
  exact describes_iff.mpr ⟨haddr, hsets, hmap⟩

/-- **An aborted call leaves a state that describes the books**, if the addresses rank the same in
those the call had got to. -/
theorem ExploreState.Describes.abort {e₁ : ExploreState} {es es₁ : List Entry}
    (h : e.Describes es) (h₁ : e₁.Describes es₁)
    (hrank : (booksOf es₁).rank = (booksOf es).rank) : (e.abort e₁).Describes es := by
  obtain ⟨haddr, hsets, -⟩ := describes_iff.mp h
  obtain ⟨-, hsets₁, hmap₁⟩ := describes_iff.mp h₁
  refine describes_iff.mpr ⟨haddr, hsets, ?_⟩
  have hsame : e₁.db.addrSet = e.db.addrSet := Buckets.ext (hrank ▸ hsets₁) hsets
  have hsizes : e₁.db.sizes = e.db.sizes := by
    unfold ExploreDB.sizes
    rw [hsame]
  exact hmap₁.trans hsizes

/-- The transactions of the next block. -/
theorem mem_chainTxs_child {tx : CTransaction} :
    (∃ q ∈ (placed (p.height + 1) 0 b.block.vtx).reverse, q.tx = tx) ↔ tx ∈ b.block.vtx := by
  rw [← List.mem_map, List.map_reverse, map_tx_placed, List.mem_reverse]

/-- The ids of a chain with one more block. -/
theorem idsOf_child (txid : UInt256) : txid ∈ idsOf K (chainTxs (.child b p)) ↔
    txid ∈ b.block.vtx.map (·.getHash K) ∨ txid ∈ idsOf K (chainTxs p) := by
  have hchain : chainTxs (.child b p) =
      (placed (p.height + 1) 0 b.block.vtx).reverse ++ chainTxs p := rfl
  have hblock : (∃ q ∈ (placed (p.height + 1) 0 b.block.vtx).reverse, q.tx.getHash K = txid) ↔
      txid ∈ b.block.vtx.map (·.getHash K) := by
    rw [List.mem_map]
    constructor
    · rintro ⟨q, hq, hid⟩
      exact ⟨q.tx, mem_chainTxs_child.mp ⟨q, hq, rfl⟩, hid⟩
    · rintro ⟨tx, htx, hid⟩
      obtain ⟨q, hq, rfl⟩ := (@mem_chainTxs_child p b tx).mpr htx
      exact ⟨q, hq, hid⟩
  rw [← hblock]
  simp only [idsOf, Set.mem_ofPred_eq, hchain, List.mem_append, or_and_right, exists_or]

/-- What a call for a block leaves alone. -/
structure Beside (K : Crypto) (block : CBlock) (e e' : ExploreState) : Prop where
  exploreTx : ∀ txid ∉ block.vtx.map (·.getHash K), e'.db.exploreTx txid = e.db.exploreTx txid
  sentinel : e'.db.sentinel = e.db.sentinel

/-- **`ExploreConnectBlock`** goes through and describes the chain with the block, or is aborted at
the first transaction whose previous outputs cannot be fetched. -/
theorem ExploreInv.connect (hT : CollisionFree K T) (hf : env.Faithful K T txdb)
    (h : ExploreInv K X T g p e) (hok : EntriesOk (entriesOf K X T (chainTxs (.child b p))))
    (hs : EntriesSmall (entriesOf K X T (chainTxs (.child b p)))) :
    (ReadableChain K X T (.child b p) → ConnectQuiet K X env txdb b.hash b.block.nTime
        (p.height + 1) 0 b.block.vtx e) ∧
      ((∃ e', exploreConnectBlock K X env txdb b.hash (some (exploreIndex (.child b p))) b.block e =
          (true, e') ∧ ExploreInv K X T g (.child b p) e' ∧ Beside K b.block e e') ∨
        ∃ e₁ done, exploreConnectBlock K X env txdb b.hash (some (exploreIndex (.child b p)))
            b.block e = (false, e.abort e₁) ∧ FailsAfter env txdb b.block.vtx done ∧
          e₁.Describes (entriesOf K X T ((placed (p.height + 1) 0 done).reverse ++ chainTxs p))) := by
  obtain ⟨hquiet, r, e₁, done, rest, hrun, hvtx, hwent, htrue, hfalse⟩ :=
    @exploreConnectTxs_went K X T env txdb b.hash b.block.nTime (p.height + 1) hT hf b.block.vtx 0 _
      e h.describes hok hs
  refine ⟨fun hread => hquiet fun tx htx => ?_, ?_⟩
  · obtain ⟨q, hq, rfl⟩ := (@mem_chainTxs_child p b tx).mpr htx
    exact hread q (List.mem_append_left _ hq)
  · have hblock : exploreConnectBlock K X env txdb b.hash (some (exploreIndex (.child b p))) b.block
        e = if r then (true, e₁.putBest (b.hash, (p.height + 1 : Int)))
          else (false, e.abort e₁) := by
      replace hrun : exploreConnectTxs K X env txdb b.hash (exploreIndex (.child b p)).nTime
          (exploreIndex (.child b p)).nHeight 0 b.block.vtx
          (if (exploreIndex (.child b p)).pprev = none then
            { e with db := { e.db with sentinel := some 0 } } else e) = (r, e₁) := hrun
      unfold exploreConnectBlock
      dsimp only
      rw [hrun]
      cases r <;> rfl
    rw [hblock]
    cases r with
    | false => exact Or.inr ⟨e₁, done, rfl, hfalse rfl, hwent.describes⟩
    | true =>
      obtain rfl := htrue rfl
      rw [List.append_nil] at hvtx
      subst hvtx
      refine Or.inl ⟨_, rfl, ⟨hwent.describes.putBest _, hok, hs, rfl, fun txid htx => ?_⟩,
        hwent.exploreTx, hwent.sentinel⟩
      rw [idsOf_child]
      by_cases hid : txid ∈ b.block.vtx.map (·.getHash K)
      · exact Or.inl (Or.inl hid)
      · have hold : e₁.db.exploreTx txid = e.db.exploreTx txid := hwent.exploreTx txid hid
        rcases h.txs txid (hold ▸ htx) with hin | hgen
        · exact Or.inl (Or.inr hin)
        · exact Or.inr hgen

/-- **`ExploreDisconnectBlock`** goes through and describes the chain without the block, or is
aborted at the first transaction, from the last on, whose previous outputs cannot be fetched. -/
theorem ExploreInv.disconnect (hT : CollisionFree K T) (hf : env.Faithful K T txdb)
    (h : ExploreInv K X T g (.child b p) e) :
    (ReadableChain K X T (.child b p) →
        DisconnectQuiet K X env txdb (placed (p.height + 1) 0 b.block.vtx).reverse e) ∧
      ((∃ e', exploreDisconnectBlock K X env txdb (some (exploreIndex (.child b p))) b.block e =
          (true, e') ∧ ExploreInv K X T g p e' ∧ Beside K b.block e e') ∨
        ∃ e₁ done rest, exploreDisconnectBlock K X env txdb (some (exploreIndex (.child b p)))
            b.block e = (false, e.abort e₁) ∧
          (placed (p.height + 1) 0 b.block.vtx).reverse = done ++ rest ∧
          FailsAfter env txdb b.block.vtx.reverse (done.map PlacedTx.tx) ∧
          e₁.Describes (entriesOf K X T (rest ++ chainTxs p))) := by
  obtain ⟨hquiet, r, e₁, done, rest, hrun, hps, hwent, htrue, hfalse⟩ :=
    @exploreDisconnectTxs_went K X T env txdb hT hf (chainTxs p)
      (placed (p.height + 1) 0 b.block.vtx).reverse e h.describes h.ok h.small
  have hvtx : (placed (p.height + 1) 0 b.block.vtx).reverse.map PlacedTx.tx =
      b.block.vtx.reverse := by
    rw [List.map_reverse, map_tx_placed]
  rw [hvtx] at hrun hfalse
  refine ⟨fun hread => hquiet fun q hq => hread q (List.mem_append_left _ hq), ?_⟩
  have hblock : exploreDisconnectBlock K X env txdb (some (exploreIndex (.child b p))) b.block
      e = if r then (true, e₁.putBest (BlockPtr.hash p, (Branch.height p : Int)))
        else (false, e.abort e₁) := by
    unfold exploreDisconnectBlock
    rw [hrun]
    cases r <;> rfl
  rw [hblock]
  cases r with
  | false => exact Or.inr ⟨e₁, done, rest, rfl, hps, hfalse rfl, hwent.describes⟩
  | true =>
    obtain ⟨rfl, hnone⟩ := htrue rfl
    have hsuffix := suffix_entriesOf (K := K) (X := X) (T := T)
      (placed (p.height + 1) 0 b.block.vtx).reverse (chainTxs p)
    have hbeside : ∀ txid ∉ b.block.vtx.map (·.getHash K),
        e₁.db.exploreTx txid = e.db.exploreTx txid := by
      intro txid hnot
      refine hwent.exploreTx txid ?_
      rw [hvtx, List.map_reverse, List.mem_reverse]
      exact hnot
    refine Or.inl ⟨_, rfl, ⟨hwent.describes.putBest _, h.ok.of_suffix hsuffix,
      h.small.of_suffix hsuffix, rfl, fun txid htx => ?_⟩, hbeside, hwent.sentinel⟩
    by_cases hid : txid ∈ b.block.vtx.map (·.getHash K)
    · obtain ⟨tx, hmem, rfl⟩ := List.mem_map.mp hid
      obtain ⟨q, hq, rfl⟩ := (@mem_chainTxs_child p b tx).mpr hmem
      have hgone : e₁.db.exploreTx (q.tx.getHash K) = none := hnone q hq
      have hsome : (e₁.db.exploreTx (q.tx.getHash K)).isSome = true := htx
      rw [hgone] at hsome
      cases hsome
    · rcases h.txs txid (hbeside txid hid ▸ htx) with hin | hgen
      · exact Or.inl (((idsOf_child txid).mp hin).resolve_left hid)
      · exact Or.inr hgen

/-! ## 4. The invariant -/

/-- Transactions without inputs and scripts make no entries. -/
theorem entriesOf_empty : ∀ {l : List PlacedTx},
    (∀ q ∈ l, q.tx.isCoinBase = true ∧ ∀ txOut ∈ q.tx.vout, txOut.scriptPubKey = []) →
      entriesOf K X T l = []
  | [], _ => rfl
  | q :: l, h => by
    obtain ⟨⟨hcb, houts⟩, hl⟩ := List.forall_mem_cons.mp h
    have hnone : prevOutsIn K T q.tx = [] := by simp [prevOutsIn, CTransaction.spends, hcb]
    have hskip : ∀ (outs : List CTxOut) (n : Nat),
        (∀ txOut ∈ outs, txOut.scriptPubKey = []) →
          enterOutputs K X (q.txAt K X T) n outs [] = [] := by
      intro outs
      induction outs with
      | nil => exact fun _ _ => rfl
      | cons txOut outs ih =>
        intro n hout
        obtain ⟨hfirst, hrest⟩ := List.forall_mem_cons.mp hout
        rw [enterOutputs, enter_of_not_address (by simp [payee_of_empty hfirst])]
        exact ih (n + 1) hrest
    rw [entriesOf, entriesOf_empty hl, enterTx, hnone, List.zip_nil_right, enterInputs]
    exact hskip _ 0 houts

/-- No limit for dust is negative. -/
theorem not_dust_lt_zero (nColor : Int32) : ¬ (0 : Int64) > exploreMaxDust nColor := by
  have hcent : ∀ c : Color, ¬ (0 : Int64) > cent c := by decide
  unfold exploreMaxDust
  split
  · exact hcent _
  · exact fun h => Int64.lt_irrefl h

/-- With no entries nobody ranks. -/
theorem rank_booksOf_nil : (booksOf []).rank = fun _ => none := by
  funext key
  exact ranked_of_not_gt (not_dust_lt_zero key.2)

/-- A cleared index describes nothing. -/
theorem describes_clear {sentinel : Option Int} :
    (⟨{ ExploreDB.clear with sentinel := sentinel }, fun _ => none⟩ : ExploreState).Describes
      [] := by
  refine describes_iff.mpr ⟨fun _ => represents_empty, ?_, rfl⟩
  rw [rank_booksOf_nil]
  exact Buckets.none

/-- The genesis block leaves an empty index that names it. -/
theorem ExploreInv.genesis (hT : CollisionFree K T) (hf : env.Faithful K T txdb)
    (hempty : EmptyBlock T g.block)
    (h : exploreConnectBlock K X env txdb g.hash (some (exploreIndex (.root g))) g.block
      ⟨.clear, fun _ => none⟩ = (true, e)) : ExploreInv K X T g (.root g) e := by
  have hall : entriesOf K X T ((placed 0 0 g.block.vtx).reverse ++ []) = [] := by
    refine entriesOf_empty fun q hq => ?_
    rw [List.append_nil, List.mem_reverse] at hq
    have hmem := List.mem_map_of_mem (f := PlacedTx.tx) hq
    rw [map_tx_placed] at hmem
    obtain ⟨-, hcb, -, houts⟩ := hempty q.tx hmem
    exact ⟨hcb, fun txOut ho => (houts txOut ho).1⟩
  obtain ⟨-, r, e₁, done, rest, hrun, hvtx, hwent, htrue, -⟩ :=
    @exploreConnectTxs_went K X T env txdb g.hash g.block.nTime 0 hT hf g.block.vtx 0 []
      _ (@describes_clear (some 0)) (by rw [hall]; trivial) (by rw [hall]; trivial)
  have hblock : exploreConnectBlock K X env txdb g.hash (some (exploreIndex (.root g))) g.block
      ⟨.clear, fun _ => none⟩ = if r then (true, e₁.putBest (g.hash, 0))
        else (false, ExploreState.abort ⟨.clear, fun _ => none⟩ e₁) := by
    replace hrun : exploreConnectTxs K X env txdb g.hash (exploreIndex (.root g)).nTime
        (exploreIndex (.root g)).nHeight 0 g.block.vtx
        (if (exploreIndex (.root g)).pprev = none then
          { (⟨.clear, fun _ => none⟩ : ExploreState) with
            db := { ExploreDB.clear with sentinel := some 0 } }
        else ⟨.clear, fun _ => none⟩) = (r, e₁) := hrun
    unfold exploreConnectBlock
    dsimp only
    rw [hrun]
    cases r <;> rfl
  rw [hblock] at h
  cases r with
  | false => cases h
  | true =>
    cases h
    obtain rfl := htrue rfl
    rw [List.append_nil] at hvtx
    subst hvtx
    have hdesc := hwent.describes
    rw [hall] at hdesc
    refine ⟨hdesc.putBest _, trivial, trivial, rfl, fun txid htx => Or.inr ?_⟩
    by_contra hnot
    have hold : e₁.db.exploreTx txid = none := hwent.exploreTx txid hnot
    have hsome : (e₁.db.exploreTx txid).isSome = true := htx
    rw [hold] at hsome
    cases hsome

section

variable {C : BlockPtr → Prop} {A : List PlacedTx → List PlacedTx → Prop}

/-- **The index describes the chain, in every run.** -/
theorem Explored.inv (hT : CollisionFree K T) (hC : ∀ p, C p → Bounded K X T p)
    (hA : ∀ l l', A l l' →
      (booksOf (entriesOf K X T l)).rank = (booksOf (entriesOf K X T l')).rank)
    (h : Explored K X T fTestNet g C A p e) : ExploreInv K X T g p e := by
  induction h with
  | genesis hempty hf hrun => exact .genesis hT hf hempty hrun
  | connect _ hchain hc hf hrun ih =>
    obtain ⟨-, ⟨e', hrun', hinv, -⟩ | ⟨e₁, done, hrun', -⟩⟩ :=
      ih.connect hT hf ((hC _ hc).entriesOk hT hchain) (hC _ hc).small
    · rw [hrun] at hrun'
      cases hrun'
      exact hinv
    · rw [hrun] at hrun'
      cases hrun'
  | disconnect _ hf hrun ih =>
    obtain ⟨-, ⟨e', hrun', hinv, -⟩ | ⟨e₁, done, rest, hrun', -⟩⟩ := ih.disconnect hT hf
    · rw [hrun] at hrun'
      cases hrun'
      exact hinv
    · rw [hrun] at hrun'
      cases hrun'
  | connectAborted _ hchain hc hf hrun hab ih =>
    obtain ⟨-, ⟨e', hrun', -⟩ | ⟨e₁, done, hrun', hfails, hdesc⟩⟩ :=
      ih.connect hT hf ((hC _ hc).entriesOk hT hchain) (hC _ hc).small
    · rw [hrun] at hrun'
      cases hrun'
    · rw [hrun] at hrun'
      cases hrun'
      exact ⟨ih.describes.abort hdesc (hA _ _ (hab done hfails)), ih.ok, ih.small, ih.best, ih.txs⟩
  | disconnectAborted _ hf hrun hab ih =>
    obtain ⟨-, ⟨e', hrun', -⟩ | ⟨e₁, done, rest, hrun', hps, hfails, hdesc⟩⟩ := ih.disconnect hT hf
    · rw [hrun] at hrun'
      cases hrun'
    · rw [hrun] at hrun'
      cases hrun'
      exact ⟨ih.describes.abort hdesc (hA _ _ (hab done rest hps hfails)), ih.ok, ih.small, ih.best,
        ih.txs⟩
  | @restart p e _ hab ih =>
    -- a restart is an abort of a call that had gone back to the empty books
    have hrank := hA _ _ hab
    rw [entriesOf] at hrank
    exact ⟨ih.describes.abort (@describes_clear none) hrank, ih.ok, ih.small, ih.best, ih.txs⟩

end

/-! ## 5. The records of every address -/

variable (K X T) in
/-- What is asked of a chain for its records to be consistent and its routines not to stop. -/
def Orderly (p : BlockPtr) : Prop := Bounded K X T p ∧ ReadableChain K X T p

/-- The scripts of the chain can be read, in every run over orderly chains. -/
theorem Explored.readable {A : List PlacedTx → List PlacedTx → Prop}
    (h : Explored K X T fTestNet g (Orderly K X T) A p e) : ReadableChain K X T p := by
  induction h with
  | genesis => exact nofun
  | connect _ _ hc => exact hc.2
  | disconnect _ _ _ ih => exact fun q hq => ih q (List.mem_append_right _ hq)
  | connectAborted _ _ _ _ _ _ ih => exact ih
  | disconnectAborted _ _ _ _ ih => exact ih
  | restart _ _ ih => exact ih

theorem ExploreInv.consistent (h : ExploreInv K X T g p e) (key : AddrKey) :
    (e.db.addr key).Consistent :=
  (h.describes.addr key).consistent (h.ok.ok h.small key) (h.small.small key)

/-- **The records of every address are consistent, and no routine stops**, in every run of calls
that went through, over chains that are orderly: neither in the calls of the run nor in the next
one. -/
theorem records_consistent (hT : CollisionFree K T)
    (h : Explored K X T fTestNet g (Orderly K X T) (fun _ _ => False) p e) :
    (∀ key, (e.db.addr key).Consistent) ∧
      (∀ b env txdb, OnChain K T fTestNet (.child b p) → Orderly K X T (.child b p) →
        env.Faithful K T txdb → ConnectQuiet K X env txdb b.hash b.block.nTime (p.height + 1) 0
          b.block.vtx e) ∧
      ∀ b q env txdb, p = .child b q → env.Faithful K T txdb →
        DisconnectQuiet K X env txdb (placed (q.height + 1) 0 b.block.vtx).reverse e := by
  have hinv : ExploreInv K X T g p e := h.inv hT (fun _ hc => hc.1) (fun _ _ => False.elim)
  refine ⟨hinv.consistent, fun b env txdb hchain horderly hf => ?_, fun b q env txdb hp hf => ?_⟩
  · exact (hinv.connect hT hf (horderly.1.entriesOk hT hchain) horderly.1.small).1 horderly.2
  · subst hp
    exact (hinv.disconnect hT hf).1 h.readable

/-! ## 6. The rich list -/

variable (K X T) in
/-- The same addresses rank, with the same balances. -/
def SameRanks (l l' : List PlacedTx) : Prop :=
  (booksOf (entriesOf K X T l)).rank = (booksOf (entriesOf K X T l')).rank

theorem ranked_eq_some {key : AddrKey} {nBalance nBalance' : Int64} :
    ranked key nBalance = some nBalance' ↔
      nBalance' > exploreMaxDust key.2 ∧ nBalance = nBalance' := by
  unfold ranked
  split
  · next h =>
    rw [Option.some_inj]
    exact ⟨fun heq => ⟨heq ▸ h, heq⟩, fun heq => heq.2⟩
  · next h =>
    simp only [reduceCtorEq, false_iff, not_and]
    rintro hgt rfl
    exact h hgt

/-- **The rich list is exact, after every call of a run**: the set of a colour and a balance has
the addresses whose balance it is, where that is above the limit for dust, and the map in memory
has its size.  The calls may be aborted, if the addresses rank the same in the transactions they had
got to. -/
theorem richList_exact (hT : CollisionFree K T)
    (h : Explored K X T fTestNet g (Bounded K X T) (SameRanks K X T) p e) (c : Int32) (b : Int64) :
    (∀ a, a ∈ (e.db.addrSet (c, b)).getD ∅ ↔
        b > exploreMaxDust c ∧ (e.db.addr (a, c)).balance.getD 0 = b) ∧
      e.mapAddressBalances (c, b) = (e.db.addrSet (c, b)).map Finset.card := by
  obtain ⟨haddr, hsets, hmap⟩ := describes_iff.mp (h.inv hT (fun _ hc => hc) fun _ _ h => h).describes
  refine ⟨fun a => ?_, by rw [hmap]; rfl⟩
  rw [hsets.mem, Books.rank, ranked_eq_some, (haddr (a, c)).balance]

/-! ## 7. Faithful databases -/

/-- Entries that stay at their places are read as before. -/
theorem NodeEnv.Faithful.of_keeps {txdb' : TxDB} (h : env.Faithful K T txdb)
    (hkeeps : Keeps txdb txdb') : env.Faithful K T txdb' := by
  intro hash idx tx hidx hread
  obtain ⟨idx₀, h₀, hpos⟩ := hkeeps hash idx hidx
  refine h hash idx₀ tx h₀ ?_
  unfold readPrev at hread ⊢
  rw [hpos]
  exact hread

/-- The index of a chain has the ids of its transactions only, so it is enough to look at these. -/
theorem AcceptedRun.faithful (hT : CollisionFree K T) {pos : DiskBlockPos} {s : ChainState}
    (h : AcceptedRun K T fTestNet pos s)
    (hread : ∀ tx ∈ txsOf s.blocks, ∀ idx ∈ s.txdb (tx.getHash K),
      ∀ tx' ∈ readPrev env (tx.getHash K) idx, tx' ∈ T ∧ tx'.getHash K = tx.getHash K) :
    env.Faithful K T s.txdb := by
  intro hash idx tx hidx htx
  obtain ⟨b, hb, -, -, tx₀, htx₀, rfl⟩ := (h.inv hT).stored hash idx hidx
  exact hread tx₀ (List.mem_flatMap.mpr ⟨b, hb, List.mem_reverse.mpr htx₀⟩) idx hidx tx htx

/-! ## 8. Rebuilding the index -/

section

variable (K X)

/-- The chain of a branch whose blocks are accepted one after another: `AcceptBlock` has refused a
block that is not later than its parent. -/
def acceptBranch (env : NodeEnv) : BlockPtr → Run ChainState
  | .root _ => .ok ⟨fun _ => none, []⟩
  | .child b p => do
    let s ← acceptBranch env p
    let tip := tipOf p.bottom.top.pos s.blocks
    refuse (b.block.nTime ≤ tip.nTime) 0 "AcceptBlock() : block's timestamp is too early"
    let (pindex', txdb') ← connectBlock K env s.txdb (newBlockIndex b.pos b.block tip) tip
      (ancestorsOf p.bottom.top.pos s.blocks) b.block false
    return ⟨txdb', (pindex', b.block) :: s.blocks⟩

/-- "Reindexing the Breakout Explore index": the loop over the blocks of the main chain, from the
genesis block on. -/
def reindexExplore (env : NodeEnv) (txdb : TxDB) : BlockPtr → Bool × ExploreState
  | .root g =>
    exploreConnectBlock K X env txdb g.hash (some (exploreIndex (.root g))) g.block
      ⟨.clear, fun _ => none⟩
  | .child b p =>
    match reindexExplore env txdb p with
    | (false, e) => (false, e)
    | (true, e) =>
      exploreConnectBlock K X env txdb b.hash (some (exploreIndex (.child b p))) b.block e

end

/-- The blocks of the branch are accepted. -/
theorem acceptBranch_run (htest : env.clock.fTestNet = fTestNet)
    (hholds : ∀ tx, env.Holds tx → tx ∈ T) :
    ∀ {p : BlockPtr} {s : ChainState}, acceptBranch K env p = .ok s →
      (∀ q ∈ chainTxs p, q.tx ∈ T) →
      AcceptedRun K T fTestNet p.bottom.top.pos s ∧ s.blocks.map Prod.snd = blocksOf p
  | .root g, s, h, _ => by
    cases h
    exact ⟨.genesis, rfl⟩
  | .child b p, s, h, hmem => by
    simp only [acceptBranch, bind_eq_ok, refuse_eq_ok, pure_eq_ok, Prod.exists] at h
    obtain ⟨s₀, hs₀, -, htime, pindex', txdb', hconn, rfl⟩ := h
    obtain ⟨hrun, hblocks⟩ := acceptBranch_run htest hholds hs₀
      fun q hq => hmem q (List.mem_append_right _ hq)
    refine ⟨.connect hrun htest hholds (fun tx htx => ?_) ?_ hconn, ?_⟩
    · obtain ⟨q, hq, rfl⟩ := (@mem_chainTxs_child p b tx).mpr htx
      exact hmem q (List.mem_append_left _ hq)
    · exact UInt32.not_le.mp htime
    · rw [List.map_cons, hblocks]
      rfl

/-- The last step of the loop. -/
theorem reindexExplore_child (h : reindexExplore K X env txdb (.child b p) = (true, e)) :
    ∃ e₀, reindexExplore K X env txdb p = (true, e₀) ∧
      exploreConnectBlock K X env txdb b.hash (some (exploreIndex (.child b p))) b.block e₀ =
        (true, e) := by
  rw [reindexExplore] at h
  split at h
  · cases h
  · next e₀ he₀ => exact ⟨e₀, he₀, h⟩

/-- **A rebuilt index is one of a run.** -/
theorem Explored.reindex {C : BlockPtr → Prop} {A : List PlacedTx → List PlacedTx → Prop}
    (hf : env.Faithful K T txdb) :
    ∀ {p : BlockPtr} {e : ExploreState}, reindexExplore K X env txdb p = (true, e) →
      EmptyBlock T p.bottom.top.block → OnChain K T fTestNet p → (∀ q ∈ p.ancestors, C q) →
      Explored K X T fTestNet p.bottom.top C A p e
  | .root g, e, h, hempty, _, _ => .genesis hempty hf h
  | .child b p, e, h, hempty, hchain, hall => by
    obtain ⟨hc, hall⟩ := List.forall_mem_cons.mp hall
    obtain ⟨e₀, he₀, hconn⟩ := reindexExplore_child h
    exact .connect (Explored.reindex hf he₀ hempty hchain.parent hall) hchain hc hf hconn

/-! ## 9. Blocks to try it on -/

/-- The time of the block at a height. -/
def testTime (n : Nat) : UInt32 := UInt32.ofNat (1465544351 + 100 * n)

/-- The coinbase at a height, in the colour the block mints. -/
def testCoinbase (n : Nat) (nValue : Int64) (scriptPubKey : CScript) : CTransaction :=
  ⟨1, testTime n, [⟨⟨0, 0xffffffff⟩, [1, 1], 0⟩], [⟨nValue, Int32.ofNat n, scriptPubKey⟩], 0, [],
    0⟩

/-- A block at a height. -/
def testBlock (hashPrevBlock : UInt256) (n : Nat) (vtx : List CTransaction) : IndexedBlock :=
  let block : CBlock := ⟨1, hashPrevBlock, 0, testTime n, 0x1d00ffff, 0, 0, 0, 0, vtx, []⟩
  let block := { block with hashMerkleRoot := block.buildMerkleTree forkCrypto }
  ⟨forkCrypto.hash block.serializeHeader, ⟨1, UInt32.ofNat (1000 * n), firstFile_notNull⟩, block⟩

/-- A node on the test net, with its block files. -/
def testEnv (disk : Disk) : NodeEnv := ⟨⟨true, 1465546351⟩, disk, fun _ => none, true⟩

/-- An explorer that calls every address by one name. -/
def testExplorer : Explorer := ⟨fun _ _ => "address", false⟩

/-- Pay to a key hash. -/
def payScript : CScript := [0x76, 0xa9, 0x14] ++ List.replicate 20 7 ++ [0x88, 0xac]

/-- Pay to a key that is no key: the first byte is none a key can have. -/
def badKeyScript : CScript := [0x21] ++ List.replicate 33 5 ++ [opChecksig]

/-- The coinbase of the genesis block: an empty output of no colour. -/
def testGenesisCoinbase : CTransaction :=
  ⟨1, testTime 0, [⟨⟨0, 0xffffffff⟩, [1, 1], 0⟩], [⟨0, Color.none.toInt32, []⟩], 0, [], 0⟩

/-- The genesis block. -/
def testGenesis : IndexedBlock := testBlock 0 0 [testGenesisCoinbase]

/-- The coinbase of the first block, with the premine of BRX paid to a script. -/
def firstCoinbase (scriptPubKey : CScript) : CTransaction :=
  testCoinbase 1 (12500000 * baseCoin) scriptPubKey

/-- The first block. -/
def firstBlock (scriptPubKey : CScript) : IndexedBlock :=
  testBlock testGenesis.hash 1 [firstCoinbase scriptPubKey]

/-- The branch with that block. -/
def firstPtr (scriptPubKey : CScript) : BlockPtr :=
  .child (firstBlock scriptPubKey) (.root testGenesis)

/-- The transactions of that branch. -/
def firstTxs (scriptPubKey : CScript) : List CTransaction :=
  [testGenesisCoinbase, firstCoinbase scriptPubKey]

theorem testGenesis_empty (hT : testGenesisCoinbase ∈ T) : EmptyBlock T testGenesis.block := by
  intro tx htx
  have htx' : tx = testGenesisCoinbase := List.mem_singleton.mp htx
  rw [htx']
  have hempty : ∀ txOut ∈ testGenesisCoinbase.vout,
      txOut.scriptPubKey = [] ∧ txOut.nColor = Color.none.toInt32 := by decide
  exact ⟨hT, by decide, by decide, hempty⟩

/-- A node that can read nothing reads nothing wrong. -/
theorem faithful_none : (testEnv fun _ => none).Faithful K T txdb := by
  intro hash idx tx _ hread
  unfold readPrev at hread
  split at hread <;> cases hread

theorem firstPtr_onChain {scriptPubKey : CScript}
    (h : (acceptBranch forkCrypto (testEnv fun _ => none) (firstPtr scriptPubKey)).accepts = true) :
    OnChain forkCrypto {tx | tx ∈ firstTxs scriptPubKey} true (firstPtr scriptPubKey) := by
  obtain ⟨s, hs⟩ := accepts_iff.mp h
  refine ⟨s, acceptBranch_run rfl ?_ hs ?_⟩
  · rintro tx (⟨pos, hpos⟩ | ⟨hash, hhash⟩)
    · cases hpos
    · cases hhash
  · intro q hq
    have hq' : q = ⟨1, 0, firstCoinbase scriptPubKey⟩ := List.mem_singleton.mp hq
    rw [hq']
    exact List.mem_cons_of_mem _ List.mem_cons_self

/-- The outputs a transaction spends, looked up in a list. -/
def prevOutsAt (K : Crypto) (txs : List CTransaction) (tx : CTransaction) : List CTxOut :=
  tx.spends.filterMap (outputAt K txs)

/-- The entries of a list of transactions, with these outputs. -/
def entriesAt (K : Crypto) (X : Explorer) (txs : List CTransaction) : List PlacedTx → List Entry
  | [] => []
  | p :: l =>
    let prevs := prevOutsAt K txs p.tx
    enterTx K X (txAt K X p.nHeight p.nVtx p.tx prevs) p.tx prevs (entriesAt K X txs l)

variable {txs : List CTransaction} {disk : Disk} {s : ChainState}

theorem prevOutsIn_eq (hT : CollisionFree K {tx | tx ∈ txs}) :
    prevOutsIn K {tx | tx ∈ txs} = prevOutsAt K txs := by
  funext tx
  unfold prevOutsIn prevOutsAt
  congr 1
  funext o
  unfold outputAt
  cases hfind : txs.find? fun tx => decide (tx.getHash K = o.hash) with
  | some tx =>
    exact hT.outputIn_eq (List.mem_of_find?_eq_some hfind) (by simpa using List.find?_some hfind)
  | none =>
    refine dif_neg ?_
    rintro ⟨tx, htx, hid⟩
    exact List.find?_eq_none.mp hfind tx htx (decide_eq_true hid)

theorem entriesOf_eq (hT : CollisionFree K {tx | tx ∈ txs}) :
    ∀ l : List PlacedTx, entriesOf K X {tx | tx ∈ txs} l = entriesAt K X txs l
  | [] => rfl
  | p :: l => by
    rw [entriesOf, entriesAt, PlacedTx.txAt, prevOutsIn_eq hT, entriesOf_eq hT l]

instance (b : Book) : Decidable b.Small :=
  decidable_of_iff
    (b.outputs.length < 2 ^ 30 ∧ b.balance < 2 ^ 63 ∧ b.valueIn < 2 ^ 63 ∧ b.valueOut < 2 ^ 63)
    ⟨fun ⟨hlength, hbalance, hin, hout⟩ => ⟨hlength, hbalance, hin, hout⟩,
      fun h => ⟨h.length_lt, h.balance_lt, h.valueIn_lt, h.valueOut_lt⟩⟩

instance decidableEntriesSmall : ∀ es : List Entry, Decidable (EntriesSmall es)
  | [] => isTrue trivial
  | x :: h =>
    have := decidableEntriesSmall h
    inferInstanceAs (Decidable ((booksOf (x :: h) x.key).Small ∧ EntriesSmall h))

instance (p : Payee) : Decidable p.Readable :=
  inferInstanceAs (Decidable (p ≠ .insoluble ∧ p ≠ .bad))

instance (tx : CTransaction) (prevs : List CTxOut) : Decidable (ReadableTx K X tx prevs) :=
  decidable_of_iff
    ((∀ o ∈ prevs, (payee K X o).Readable) ∧ ∀ o ∈ tx.vout, payee K X o ≠ .bad)
    ⟨fun ⟨hprevs, houts⟩ => ⟨hprevs, houts⟩, fun h => ⟨h.prevs, h.outs⟩⟩

/-- The branch is orderly, as it is computed. -/
theorem orderly_of (hT : CollisionFree K {tx | tx ∈ txs})
    (h : (∀ q ∈ chainTxs p, q.tx.getHash K ≠ 0) ∧ EntriesSmall (entriesAt K X txs (chainTxs p)) ∧
      ∀ q ∈ chainTxs p, ReadableTx K X q.tx (prevOutsAt K txs q.tx)) :
    Orderly K X {tx | tx ∈ txs} p := by
  obtain ⟨hids, hsmall, hread⟩ := h
  rw [← entriesOf_eq hT] at hsmall
  rw [← prevOutsIn_eq hT] at hread
  exact ⟨⟨hids, hsmall⟩, hread⟩

/-- The transactions of a list, checked by computing. -/
theorem collisionFree_of
    (h : (∀ tx ∈ txs, tx.serialize.length < 2 ^ 64) ∧ ∀ a ∈ txs, ∀ b ∈ txs,
      a.getHash K = b.getHash K → a.hashed.serialize = b.hashed.serialize) :
    CollisionFree K {tx | tx ∈ txs} := ⟨h.1, h.2⟩

theorem firstTxs_collisionFree : CollisionFree forkCrypto {tx | tx ∈ firstTxs payScript} :=
  collisionFree_of (by decide +kernel)

theorem firstPtr_orderly : Orderly forkCrypto testExplorer {tx | tx ∈ firstTxs payScript}
    (firstPtr payScript) :=
  orderly_of firstTxs_collisionFree (by decide +kernel)

/-- A run that goes through is what it leaves. -/
theorem eq_ok_getD {α : Type} {r : Run α} (h : r.accepts = true) (a : α) :
    r = .ok (r.toOption.getD a) := by
  obtain ⟨b, rfl⟩ := accepts_iff.mp h
  rfl

/-- A pair is known by its first part. -/
theorem eq_mk_of_fst {α β : Type} {x : α × β} {a : α} (h : x.1 = a) : x = (a, x.2) := by
  rw [← h]

/-- **An output to a key that is no key.**  The first block pays the premine to such an output.  It
is connected, and the index of it too, although the routine for the output stops at what should not
happen. -/
theorem bad_key_stops :
    ∃ e e', Explored forkCrypto testExplorer {tx | tx ∈ firstTxs badKeyScript} true testGenesis
        (fun _ => True) (fun _ _ => False) (.root testGenesis) e ∧
      OnChain forkCrypto {tx | tx ∈ firstTxs badKeyScript} true (firstPtr badKeyScript) ∧
      exploreConnectBlock forkCrypto testExplorer (testEnv fun _ => none) (fun _ => none)
        (firstBlock badKeyScript).hash (some (exploreIndex (firstPtr badKeyScript)))
        (firstBlock badKeyScript).block e = (true, e') ∧
      ((exploreConnectOutput forkCrypto testExplorer 1 0 (firstCoinbase badKeyScript)
        ((firstCoinbase badKeyScript).getHash forkCrypto) 0 ⟨12500000 * baseCoin, 1, badKeyScript⟩
        true).run e.work).1 = .error "ExploreConnectOutput() : TSNH scriptPubKey is bad" ∧
      ¬ ConnectQuiet forkCrypto testExplorer (testEnv fun _ => none) (fun _ => none)
        (firstBlock badKeyScript).hash (firstBlock badKeyScript).block.nTime 1 0
        (firstBlock badKeyScript).block.vtx e := by
  set e := (reindexExplore forkCrypto testExplorer (testEnv fun _ => none) (fun _ => none)
    (.root testGenesis)).2 with he
  have hgen : (reindexExplore forkCrypto testExplorer (testEnv fun _ => none) (fun _ => none)
      (.root testGenesis)).1 = true := by decide +kernel
  have hconn : (exploreConnectBlock forkCrypto testExplorer (testEnv fun _ => none) (fun _ => none)
        (firstBlock badKeyScript).hash (some (exploreIndex (firstPtr badKeyScript)))
        (firstBlock badKeyScript).block e).1 = true := by decide +kernel
  have hstop : ((exploreConnectOutput forkCrypto testExplorer 1 0 (firstCoinbase badKeyScript)
        ((firstCoinbase badKeyScript).getHash forkCrypto) 0 ⟨12500000 * baseCoin, 1, badKeyScript⟩
        true).run e.work).1 = .error "ExploreConnectOutput() : TSNH scriptPubKey is bad" := by
    decide +kernel
  refine ⟨e, _, .genesis (testGenesis_empty List.mem_cons_self) faithful_none (Prod.ext hgen rfl),
    firstPtr_onChain (by decide +kernel), Prod.ext hconn rfl, hstop, fun hquiet => ?_⟩
  have hfirst : ((exploreConnectOutput forkCrypto testExplorer 1 0 (firstCoinbase badKeyScript)
        ((firstCoinbase badKeyScript).getHash forkCrypto) 0 ⟨12500000 * baseCoin, 1, badKeyScript⟩
        true).run e.work).1 = .ok () := hquiet.1.1
  rw [hstop] at hfirst
  cases hfirst

/-! ## 10. A chain with a spend inside a block -/

/-- A transaction that spends the first output of another, which anyone can. -/
def testSpend (txPrev : CTransaction) (nValue : Int64) (c : Color) (scriptPubKey : CScript) :
    CTransaction :=
  ⟨1, testTime 12, [⟨⟨txPrev.getHash forkCrypto, 0⟩, [], 0xffffffff⟩],
    [⟨nValue, c.toInt32, scriptPubKey⟩], 0, [], 0⟩

/-- The coinbase of BRK's premine. -/
def brkCoinbase : CTransaction := testCoinbase 2 (19500000 * baseCoin) [op1]

/-- Spends the premine of BRX. -/
def outerSpend : CTransaction :=
  testSpend (firstCoinbase [op1]) (12400000 * baseCoin) .brx [op1]

/-- Spends what `outerSpend` pays. -/
def innerSpend : CTransaction := testSpend outerSpend (12300000 * baseCoin) .brx [op1]

/-- Spends the premine of BRK and pays an address. -/
def lastSpend : CTransaction := testSpend brkCoinbase (19400000 * baseCoin) .brk payScript

/-- The transactions at a height. -/
def tallVtx (n : Nat) : List CTransaction :=
  if n = 1 then [firstCoinbase [op1]]
  else if n = 2 then [brkCoinbase]
  else if n = 12 then [testCoinbase 12 0 [op1], outerSpend, innerSpend, lastSpend]
  else [testCoinbase n 0 [op1]]

/-- A chain of as many blocks. -/
def tallPtr : Nat → BlockPtr
  | 0 => .root testGenesis
  | n + 1 => .child (testBlock (BlockPtr.hash (tallPtr n)) (n + 1) (tallVtx (n + 1))) (tallPtr n)

/-- The transactions of the chain of twelve blocks. -/
def tallTxs : List CTransaction := testGenesisCoinbase :: (List.range 13).flatMap tallVtx

/-- The block files, as far as they are read. -/
def tallDisk : Disk := fun pos =>
  if pos = ⟨1, 1000, 1081⟩ then some (firstCoinbase [op1])
  else if pos = ⟨1, 2000, 2081⟩ then some brkCoinbase
  else if pos = ⟨1, 12000, 12157⟩ then some outerSpend
  else none

/-- The chain of twelve blocks, accepted. -/
def tallChain : ChainState :=
  (acceptBranch forkCrypto (testEnv tallDisk) (tallPtr 12)).toOption.getD ⟨fun _ => none, []⟩

/-- The database as `DisconnectBlock` leaves it before it calls the explorer. -/
def tallDbBack : TxDB :=
  (disconnectTxs forkCrypto (tallVtx 12).reverse tallChain.txdb).toOption.getD fun _ => none

/-- The rebuilt index of the chain. -/
def tallIndex : Bool × ExploreState :=
  reindexExplore forkCrypto testExplorer (testEnv tallDisk) tallChain.txdb (tallPtr 12)

/-- What disconnecting the last block makes of the index. -/
def tallAborted : Bool × ExploreState :=
  exploreDisconnectBlock forkCrypto testExplorer (testEnv tallDisk) tallDbBack
    (some (exploreIndex (tallPtr 12))) (tallPtr 12).top.block tallIndex.2

theorem tall_computed :
    ((∀ tx ∈ tallTxs, tx.serialize.length < 2 ^ 64) ∧
      (∀ a ∈ tallTxs, ∀ b ∈ tallTxs, a.getHash forkCrypto = b.getHash forkCrypto →
        a.hashed.serialize = b.hashed.serialize) ∧
      (firstCoinbase [op1] ∈ tallTxs ∧ brkCoinbase ∈ tallTxs ∧ outerSpend ∈ tallTxs) ∧
      ∀ q ∈ chainTxs (tallPtr 12), q.tx ∈ tallTxs) ∧
    ((acceptBranch forkCrypto (testEnv tallDisk) (tallPtr 12)).accepts = true ∧
      ∀ tx ∈ txsOf tallChain.blocks, ∀ idx ∈ tallChain.txdb (tx.getHash forkCrypto),
        ∀ tx' ∈ readPrev (testEnv tallDisk) (tx.getHash forkCrypto) idx,
          tx' ∈ tallTxs ∧ tx'.getHash forkCrypto = tx.getHash forkCrypto) ∧
    tallIndex.1 = true ∧
    (disconnectTxs forkCrypto (tallVtx 12).reverse tallChain.txdb).accepts = true ∧
    tallAborted.1 = false ∧
    tallAborted.2.db.addrSet (2, 19400000 * baseCoin) = some {"address"} ∧
    tallAborted.2.mapAddressBalances (2, 19400000 * baseCoin) = none := by
  decide +kernel

theorem tallTxs_collisionFree : CollisionFree forkCrypto {tx | tx ∈ tallTxs} :=
  ⟨tall_computed.1.1, tall_computed.1.2.1⟩

/-- A branch that is accepted, over files that hold the transactions of a list. -/
theorem testChain_run {p : BlockPtr} (hdisk : ∀ pos tx, disk pos = some tx → tx ∈ txs)
    (hmem : ∀ q ∈ chainTxs p, q.tx ∈ txs)
    (haccepts : (acceptBranch forkCrypto (testEnv disk) p).accepts = true)
    (hs : s = (acceptBranch forkCrypto (testEnv disk) p).toOption.getD ⟨fun _ => none, []⟩) :
    AcceptedRun forkCrypto {tx | tx ∈ txs} true p.bottom.top.pos s ∧
      s.blocks.map Prod.snd = blocksOf p := by
  have hholds : ∀ tx, (testEnv disk).Holds tx → tx ∈ {tx | tx ∈ txs} := by
    rintro tx (⟨pos, hpos⟩ | ⟨hash, hhash⟩)
    · exact hdisk pos tx hpos
    · cases hhash
  rw [hs]
  exact acceptBranch_run rfl hholds (eq_ok_getD haccepts _) hmem

theorem tallChain_run : AcceptedRun forkCrypto {tx | tx ∈ tallTxs} true testGenesis.pos tallChain ∧
    tallChain.blocks.map Prod.snd = blocksOf (tallPtr 12) := by
  obtain ⟨⟨-, -, hread, hmem⟩, ⟨haccepts, -⟩, -⟩ := tall_computed
  have hdisk : ∀ pos tx, tallDisk pos = some tx → tx ∈ tallTxs := by
    intro pos tx hpos
    unfold tallDisk at hpos
    split_ifs at hpos
    · cases hpos
      exact hread.1
    · cases hpos
      exact hread.2.1
    · cases hpos
      exact hread.2.2
  have hbottom : (tallPtr 12).bottom.top.pos = testGenesis.pos := by
    simp only [tallPtr, Branch.bottom, Branch.top]
  rw [← hbottom]
  exact testChain_run hdisk hmem haccepts rfl

theorem tallChain_faithful :
    (testEnv tallDisk).Faithful forkCrypto {tx | tx ∈ tallTxs} tallChain.txdb :=
  tallChain_run.1.faithful tallTxs_collisionFree tall_computed.2.1.2

theorem tallIndex_ok : reindexExplore forkCrypto testExplorer (testEnv tallDisk) tallChain.txdb
    (tallPtr 12) = (true, tallIndex.2) := by
  have hok := tall_computed.2.2.1
  unfold tallIndex at hok ⊢
  exact eq_mk_of_fst hok

theorem tallPtr_bottom (n : Nat) : (tallPtr n).bottom.top = testGenesis := by
  induction n with
  | zero => rfl
  | succ n ih => exact ih

theorem tallPtr_onChain : OnChain forkCrypto {tx | tx ∈ tallTxs} true (tallPtr 12) := by
  refine ⟨tallChain, ?_, tallChain_run.2⟩
  rw [tallPtr_bottom]
  exact tallChain_run.1

theorem tallPtr_explored {A : List PlacedTx → List PlacedTx → Prop} {n : Nat} {e : ExploreState}
    (hchain : OnChain forkCrypto {tx | tx ∈ tallTxs} true (tallPtr n))
    (h : reindexExplore forkCrypto testExplorer (testEnv tallDisk) tallChain.txdb (tallPtr n) =
      (true, e)) :
    Explored forkCrypto testExplorer {tx | tx ∈ tallTxs} true testGenesis (fun _ => True) A
      (tallPtr n) e := by
  have hbottom := tallPtr_bottom n
  have hempty : EmptyBlock {tx | tx ∈ tallTxs} (tallPtr n).bottom.top.block := by
    rw [hbottom]
    exact testGenesis_empty List.mem_cons_self
  rw [← hbottom]
  exact Explored.reindex tallChain_faithful h hempty hchain fun _ _ => trivial

theorem tallDbBack_ok : disconnectTxs forkCrypto (tallPtr 12).top.block.vtx.reverse
    tallChain.txdb = .ok tallDbBack :=
  eq_ok_getD tall_computed.2.2.2.1 _

/-- **A map in memory that lost an address.**  The twelfth block spends, after the premine of BRX, an
output of its own.  When it is disconnected, the last transaction is taken back first; the one
before it cannot be, since `DisconnectInputs` has erased what it spends from the transaction index.
The batch is thrown away, so the database still has the last transaction, and the address it pays;
the map does not. -/
theorem map_wrong_after_abort :
    ∃ e e' txdb, Explored forkCrypto testExplorer {tx | tx ∈ tallTxs} true testGenesis
        (fun _ => True) (fun _ _ => False) (tallPtr 12) e ∧
      disconnectTxs forkCrypto (tallPtr 12).top.block.vtx.reverse tallChain.txdb = .ok txdb ∧
      exploreDisconnectBlock forkCrypto testExplorer (testEnv tallDisk) txdb
        (some (exploreIndex (tallPtr 12))) (tallPtr 12).top.block e = (false, e') ∧
      e'.db.addrSet (2, 19400000 * baseCoin) = some {"address"} ∧
      e'.mapAddressBalances (2, 19400000 * baseCoin) = none := by
  obtain ⟨-, -, -, -, hfail, hset, hmap⟩ := tall_computed
  refine ⟨tallIndex.2, tallAborted.2, tallDbBack, tallPtr_explored tallPtr_onChain tallIndex_ok,
    tallDbBack_ok, ?_, hset, hmap⟩
  unfold tallAborted at hfail ⊢
  exact eq_mk_of_fst hfail

/-! ## 11. A chain with a stake and spends -/

/-- An explorer that calls different addresses by different names. -/
def addressName : CTxDestination → String
  | .keyID id => String.ofList ('k' :: id.map fun b => Char.ofNat b.toNat)
  | .scriptID id => String.ofList ('s' :: id.map fun b => Char.ofNat b.toNat)

def nameExplorer : Explorer := ⟨fun dest _ => addressName dest, false⟩

/-- A script that is its own hash, and true. -/
def stakeRedeem : CScript := 0x13 :: List.replicate 19 1

/-- Pay to its hash. -/
def stakeScript : CScript := [0xa9, 0x14] ++ stakeRedeem ++ [0x87]

/-- Pay to another hash. -/
def otherScript : CScript := [0xa9, 0x14] ++ List.replicate 20 2 ++ [0x87]

/-- Spends the first output of a transaction that pays to the hash. -/
def stakeInput (txPrev : CTransaction) : CTxIn :=
  ⟨⟨txPrev.getHash forkCrypto, 0⟩, 0x14 :: stakeRedeem, 0xffffffff⟩

/-- A time a coinstake can have. -/
def stakeTime : UInt32 := testTime 12 + 1

/-- A coinstake of the premine of BRX. -/
def testStake (vout : List CTxOut) : CTransaction :=
  ⟨1, stakeTime, [stakeInput (firstCoinbase stakeScript)], ⟨0, 1, []⟩ :: vout, 0, [], 0⟩

/-- The coinbase that comes with it. -/
def stakeCoinbase : CTransaction :=
  ⟨1, stakeTime, [⟨⟨0, 0xffffffff⟩, [1, 1], 0⟩], [⟨1, 2, [op1]⟩], 0, [], 0⟩

/-- A block at a height, the twelfth by proof of stake. -/
def stakeBlock (vtxAt : Nat → List CTransaction) (hashPrevBlock : UInt256) (n : Nat) :
    IndexedBlock :=
  let nTime := if n = 12 then stakeTime else testTime n
  let block : CBlock := ⟨1, hashPrevBlock, 0, nTime, 0x1d00ffff, 0, 0, 0, 0, vtxAt n, []⟩
  let block := { block with hashMerkleRoot := block.buildMerkleTree forkCrypto }
  ⟨forkCrypto.hash block.serializeHeader, ⟨1, UInt32.ofNat (1000 * n), firstFile_notNull⟩, block⟩

/-- A chain of as many blocks. -/
def stakePtr (vtxAt : Nat → List CTransaction) : Nat → BlockPtr
  | 0 => .root testGenesis
  | n + 1 => .child (stakeBlock vtxAt (BlockPtr.hash (stakePtr vtxAt n)) (n + 1)) (stakePtr vtxAt n)

theorem stakePtr_bottom (vtxAt : Nat → List CTransaction) (n : Nat) :
    (stakePtr vtxAt n).bottom.top = testGenesis := by
  induction n with
  | zero => rfl
  | succ n ih => exact ih

/-- A transaction that pays from the hash, in BRK. -/
def stakeSpend (txPrev : CTransaction) (nValue : Int64) (scriptPubKey : CScript) : CTransaction :=
  { testSpend txPrev nValue .brk scriptPubKey with vin := [stakeInput txPrev] }

/-- The coinstake pays back what it takes. -/
def washStake : CTransaction := testStake [⟨12500000 * baseCoin, 1, stakeScript⟩]

/-- The coinbase of BRK's premine, to the same address. -/
def washCoinbase : CTransaction := testCoinbase 2 (19500000 * baseCoin) stakeScript

/-- It pays itself, and then another address. -/
def washSpend : CTransaction := stakeSpend washCoinbase (19400000 * baseCoin) stakeScript

def washLast : CTransaction := stakeSpend washSpend (19300000 * baseCoin) otherScript

def washVtx (n : Nat) : List CTransaction :=
  if n = 1 then [firstCoinbase stakeScript]
  else if n = 2 then [washCoinbase]
  else if n = 12 then [stakeCoinbase, washStake, washSpend, washLast]
  else [testCoinbase n 0 [op1]]

def washTxs : List CTransaction := testGenesisCoinbase :: (List.range 13).flatMap washVtx

def washDisk : Disk := fun pos =>
  if pos = ⟨1, 1000, 1081⟩ then some (firstCoinbase stakeScript)
  else if pos = ⟨1, 2000, 2081⟩ then some washCoinbase
  else if pos = ⟨1, 12000, 12287⟩ then some washSpend
  else none

def washChain : ChainState :=
  (acceptBranch forkCrypto (testEnv washDisk) (stakePtr washVtx 12)).toOption.getD
    ⟨fun _ => none, []⟩

def washDbBack : TxDB :=
  (disconnectTxs forkCrypto (washVtx 12).reverse washChain.txdb).toOption.getD fun _ => none

def washIndex : Bool × ExploreState :=
  reindexExplore forkCrypto nameExplorer (testEnv washDisk) washChain.txdb (stakePtr washVtx 12)

/-- What disconnecting the last block makes of the index: the call fails at once, as the output that
the last transaction spends is no longer indexed. -/
def washAborted : Bool × ExploreState :=
  exploreDisconnectBlock forkCrypto nameExplorer (testEnv washDisk) washDbBack
    (some (exploreIndex (stakePtr washVtx 12))) (stakePtr washVtx 12).top.block washIndex.2

/-- The address, in a colour. -/
def stakeAddress (nColor : Int32) : AddrKey := (addressName (.scriptID stakeRedeem), nColor)

theorem wash_computed :
    ((∀ tx ∈ washTxs, tx.serialize.length < 2 ^ 64) ∧
      (∀ a ∈ washTxs, ∀ b ∈ washTxs, a.getHash forkCrypto = b.getHash forkCrypto →
        a.hashed.serialize = b.hashed.serialize) ∧
      (firstCoinbase stakeScript ∈ washTxs ∧ washCoinbase ∈ washTxs ∧ washSpend ∈ washTxs) ∧
      ∀ q ∈ chainTxs (stakePtr washVtx 12), q.tx ∈ washTxs) ∧
    ((acceptBranch forkCrypto (testEnv washDisk) (stakePtr washVtx 12)).accepts = true ∧
      ∀ tx ∈ txsOf washChain.blocks, ∀ idx ∈ washChain.txdb (tx.getHash forkCrypto),
        ∀ tx' ∈ readPrev (testEnv washDisk) (tx.getHash forkCrypto) idx,
          tx' ∈ washTxs ∧ tx'.getHash forkCrypto = tx.getHash forkCrypto) ∧
    washIndex.1 = true ∧
    (washAborted.1 = false ∧
      washAborted.2.mapAddressBalances (1, 12500000 * baseCoin) = some 1) ∧
    (disconnectTxs forkCrypto (washVtx 12).reverse washChain.txdb).accepts = true ∧
    (washIndex.2.db.addr (stakeAddress 2)).balance = some 0 ∧
    (explorePrevOuts (testEnv washDisk) washDbBack washLast).accepts = false ∧
    ∀ p ∈ (stakePtr washVtx 12).ancestors, (∀ q ∈ chainTxs p, q.tx.getHash forkCrypto ≠ 0) ∧
      EntriesSmall (entriesAt forkCrypto nameExplorer washTxs (chainTxs p)) ∧
      ∀ q ∈ chainTxs p,
        ReadableTx forkCrypto nameExplorer q.tx (prevOutsAt forkCrypto washTxs q.tx) := by
  decide +kernel

theorem washTxs_collisionFree : CollisionFree forkCrypto {tx | tx ∈ washTxs} :=
  collisionFree_of ⟨wash_computed.1.1, wash_computed.1.2.1⟩

/-- The rebuilt index of an accepted branch over files that hold the transactions of a list. -/
theorem explored_of_accepted {X : Explorer} {C : BlockPtr → Prop}
    {A : List PlacedTx → List PlacedTx → Prop} (hT : CollisionFree forkCrypto {tx | tx ∈ txs})
    (hdisk : ∀ pos tx, disk pos = some tx → tx ∈ txs) (hmem : ∀ q ∈ chainTxs p, q.tx ∈ txs)
    (haccepts : (acceptBranch forkCrypto (testEnv disk) p).accepts = true)
    (hs : s = (acceptBranch forkCrypto (testEnv disk) p).toOption.getD ⟨fun _ => none, []⟩)
    (hstored : ∀ tx ∈ txsOf s.blocks, ∀ idx ∈ s.txdb (tx.getHash forkCrypto),
      ∀ tx' ∈ readPrev (testEnv disk) (tx.getHash forkCrypto) idx,
        tx' ∈ txs ∧ tx'.getHash forkCrypto = tx.getHash forkCrypto)
    (hbottom : p.bottom.top = testGenesis) (hgenesis : testGenesisCoinbase ∈ txs)
    (hok : (reindexExplore forkCrypto X (testEnv disk) s.txdb p).1 = true)
    (hC : ∀ q ∈ p.ancestors, C q) :
    (testEnv disk).Faithful forkCrypto {tx | tx ∈ txs} s.txdb ∧
      Explored forkCrypto X {tx | tx ∈ txs} true testGenesis C A p
        (reindexExplore forkCrypto X (testEnv disk) s.txdb p).2 := by
  obtain ⟨hrun, hblocks⟩ := testChain_run hdisk hmem haccepts hs
  have hfaithful := hrun.faithful hT hstored
  have hempty : EmptyBlock {tx | tx ∈ txs} p.bottom.top.block := by
    rw [hbottom]
    exact testGenesis_empty hgenesis
  refine ⟨hfaithful, ?_⟩
  rw [← hbottom]
  exact Explored.reindex hfaithful (eq_mk_of_fst hok) hempty ⟨s, hrun, hblocks⟩ hC

theorem washIndex_explored {C : BlockPtr → Prop} {A : List PlacedTx → List PlacedTx → Prop}
    (hC : ∀ q ∈ (stakePtr washVtx 12).ancestors, C q) :
    (testEnv washDisk).Faithful forkCrypto {tx | tx ∈ washTxs} washChain.txdb ∧
      Explored forkCrypto nameExplorer {tx | tx ∈ washTxs} true testGenesis C A
        (stakePtr washVtx 12) washIndex.2 := by
  obtain ⟨⟨-, -, hread, hmem⟩, ⟨haccepts, hstored⟩, hok, -⟩ := wash_computed
  have hdisk : ∀ pos tx, washDisk pos = some tx → tx ∈ washTxs := by
    intro pos tx hpos
    unfold washDisk at hpos
    split_ifs at hpos
    · cases hpos
      exact hread.1
    · cases hpos
      exact hread.2.1
    · cases hpos
      exact hread.2.2
  exact explored_of_accepted washTxs_collisionFree hdisk hmem haccepts rfl hstored
    (stakePtr_bottom washVtx 12) List.mem_cons_self hok hC

theorem washPtr_orderly : ∀ p ∈ (stakePtr washVtx 12).ancestors,
    Orderly forkCrypto nameExplorer {tx | tx ∈ washTxs} p := fun p hp =>
  orderly_of washTxs_collisionFree (wash_computed.2.2.2.2.2.2.2 p hp)

/-- The address that stakes the premine of BRX, and spends that of BRK, has consistent records. -/
theorem records_consistent_wash :
    (washIndex.2.db.addr (stakeAddress 2)).balance = some 0 ∧
      ∀ key, (washIndex.2.db.addr key).Consistent := by
  obtain ⟨-, -, -, -, -, hbalance, -⟩ := wash_computed
  exact ⟨hbalance,
    (records_consistent washTxs_collisionFree (washIndex_explored washPtr_orderly).2).1⟩

/-- The aborted call had not taken any transaction back. -/
theorem washAborted_explored :
    Explored forkCrypto nameExplorer {tx | tx ∈ washTxs} true testGenesis
      (Bounded forkCrypto nameExplorer {tx | tx ∈ washTxs})
      (SameRanks forkCrypto nameExplorer {tx | tx ∈ washTxs}) (stakePtr washVtx 12)
      washAborted.2 := by
  obtain ⟨-, -, -, ⟨hfail, -⟩, hback, -, hlast, -⟩ := wash_computed
  obtain ⟨hfaithful, hrun⟩ := @washIndex_explored
    (Bounded forkCrypto nameExplorer {tx | tx ∈ washTxs})
    (SameRanks forkCrypto nameExplorer {tx | tx ∈ washTxs}) fun q hq => (washPtr_orderly q hq).1
  have hvtx : (stakePtr washVtx 12).top.block.vtx.reverse =
      [washLast, washSpend, washStake, stakeCoinbase] := rfl
  have hdb : disconnectTxs forkCrypto (washVtx 12).reverse washChain.txdb = .ok washDbBack :=
    eq_ok_getD hback _
  refine Explored.disconnectAborted hrun (hfaithful.of_keeps (disconnectTxs_keeps hdb).1)
    (eq_mk_of_fst hfail) ?_
  rintro done rest hsplit ⟨tx, left, hleft, hok, -⟩
  cases done with
  | nil =>
    rw [List.nil_append] at hsplit
    unfold SameRanks
    rw [← hsplit]
    rfl
  | cons q done =>
    have hfirst : q.tx = washLast := (List.cons.inj (hvtx.symm.trans hleft)).1.symm
    obtain ⟨prevs, hprevs⟩ := hok q.tx List.mem_cons_self
    rw [hfirst] at hprevs
    rw [hprevs] at hlast
    cases hlast

/-- The rich list is exact after the aborted call. -/
theorem richList_exact_wash :
    washAborted.1 = false ∧
      washAborted.2.mapAddressBalances (1, 12500000 * baseCoin) = some 1 ∧
      (∀ a, a ∈ (washAborted.2.db.addrSet (1, 12500000 * baseCoin)).getD ∅ ↔
        12500000 * baseCoin > exploreMaxDust 1 ∧
          (washAborted.2.db.addr (a, 1)).balance.getD 0 = 12500000 * baseCoin) ∧
      washAborted.2.mapAddressBalances (1, 12500000 * baseCoin) =
        (washAborted.2.db.addrSet (1, 12500000 * baseCoin)).map Finset.card := by
  have hrun := richList_exact washTxs_collisionFree washAborted_explored 1 (12500000 * baseCoin)
  obtain ⟨-, -, -, ⟨hfail, hmap⟩, -⟩ := wash_computed
  exact ⟨hfail, hmap, hrun⟩

end Breakout
