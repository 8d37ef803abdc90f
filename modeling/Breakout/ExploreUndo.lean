/-
# Taking a block back from the index

`DisconnectBlock` first takes the block's transactions off the transaction index and then has the
explorer take them off its own.  The explorer looks up the outputs they spent as it did when the
block came, and finds them there if they are not of the block itself; if one is, its transaction is
gone from the transaction index, and the call fails.

Where no transaction of the block spends another's output the call goes through and the index is
what it was.  Counters and totals that were never written may be zeros now: "no desire to remove
evidence of this address".
-/
import Breakout.ExploreRuns

namespace Breakout

open Lib

variable {K : Crypto} {X : Explorer} {T : Set CTransaction} {fTestNet : Bool} {g : IndexedBlock}
  {p : BlockPtr} {b : IndexedBlock} {env : NodeEnv} {txdb txdb' : TxDB} {e e' : ExploreState}

/-! ## 1. When previous outputs can be fetched -/

/-- The output an input spends can be fetched. -/
def Fetchable (env : NodeEnv) (txdb : TxDB) (txin : CTxIn) : Prop :=
  ∃ idx txPrev, txdb txin.prevout.hash = some idx ∧
    readPrev env txin.prevout.hash idx = some txPrev ∧
    txin.prevout.n.toNat < txPrev.vout.length ∧ txin.prevout.n.toNat < idx.vSpent.length

/-- The loop of `FetchInputs` gets through where everything can be read. -/
theorem fetchLoop_ok :
    ∀ {vin : List CTxIn} (inputs : MapPrevTx),
      (∀ txin ∈ vin, ∃ idx txPrev, txdb txin.prevout.hash = some idx ∧
        readPrev env txin.prevout.hash idx = some txPrev) →
      ∃ inputs', fetchLoop env txdb vin inputs = .ok inputs' ∧
        (∀ txin ∈ vin, (inputs' txin.prevout.hash).isSome = true) ∧
        ∀ hash, (inputs hash).isSome = true → (inputs' hash).isSome = true
  | [], inputs, _ => ⟨inputs, rfl, nofun, fun _ h => h⟩
  | txin :: vin, inputs, h => by
    obtain ⟨⟨idx, txPrev, hidx, hread⟩, hrest⟩ := List.forall_mem_cons.mp h
    rw [fetchLoop]
    by_cases hgot : (inputs txin.prevout.hash).isSome = true
    · rw [if_pos hgot]
      obtain ⟨inputs', hrun, hall, hkeep⟩ := fetchLoop_ok inputs hrest
      exact ⟨inputs', hrun, List.forall_mem_cons.mpr ⟨hkeep _ hgot, hall⟩, hkeep⟩
    · rw [if_neg hgot]
      simp only [hidx, hread]
      obtain ⟨inputs', hrun, hall, hkeep⟩ := fetchLoop_ok
        (Function.update inputs txin.prevout.hash (some (idx, txPrev))) hrest
      have hself : (inputs' txin.prevout.hash).isSome = true := by
        refine hkeep _ ?_
        rw [Function.update_self]
        rfl
      refine ⟨inputs', hrun, List.forall_mem_cons.mpr ⟨hself, hall⟩, fun hash hsome => ?_⟩
      by_cases hh : hash = txin.prevout.hash
      · exact hh ▸ hself
      · refine hkeep hash ?_
        rwa [Function.update_of_ne hh]

theorem getOutputs_ok {inputs : MapPrevTx} :
    ∀ {vin : List CTxIn}, (∀ txin ∈ vin, ∃ idx txPrev, inputs txin.prevout.hash =
        some (idx, txPrev) ∧ txin.prevout.n.toNat < txPrev.vout.length) →
      ∃ prevs, getOutputs inputs vin = .ok prevs
  | [], _ => ⟨[], rfl⟩
  | txin :: vin, h => by
    obtain ⟨⟨idx, txPrev, hin, hn⟩, hrest⟩ := List.forall_mem_cons.mp h
    obtain ⟨prevs, hprevs⟩ := getOutputs_ok hrest
    have hget : getOutputFor inputs txin = .ok txPrev.vout[txin.prevout.n.toNat] :=
      getOutputFor_eq_ok.mpr ⟨idx, txPrev, hin, List.getElem?_eq_getElem hn⟩
    exact ⟨_, bind_eq_ok.mpr ⟨_, hget, bind_eq_ok.mpr ⟨prevs, hprevs, rfl⟩⟩⟩

variable {txin : CTxIn} {tx : CTransaction} {ids : List UInt256} {C : BlockPtr → Prop}
  {A : List PlacedTx → List PlacedTx → Prop}

theorem prevoutInRange_iff {inputs : MapPrevTx} :
    prevoutInRange inputs txin = true ↔ ∃ idx txPrev,
      inputs txin.prevout.hash = some (idx, txPrev) ∧
        txin.prevout.n.toNat < txPrev.vout.length ∧ txin.prevout.n.toNat < idx.vSpent.length := by
  unfold prevoutInRange
  cases inputs txin.prevout.hash with
  | none => simp
  | some q =>
    obtain ⟨idx, txPrev⟩ := q
    simp

/-- **The previous outputs of a transaction can be fetched** if and only if each of its inputs has
an entry that can be read and has the output. -/
theorem explorePrevOuts_ok_iff (hcb : tx.isCoinBase = false) :
    (∃ prevs, explorePrevOuts env txdb tx = .ok prevs) ↔
      ∀ txin ∈ tx.vin, Fetchable env txdb txin := by
  have hfrom : ∀ {inputs : MapPrevTx}, fetchInputs env txdb tx = .ok inputs →
      ∀ hash idx tx, inputs hash = some (idx, tx) →
        txdb hash = some idx ∧ readPrev env hash idx = some tx := fun hfetch =>
    fetchInputs_forall (P := fun hash idx tx => txdb hash = some idx ∧
      readPrev env hash idx = some tx) (fun _ _ _ hidx hread => ⟨hidx, hread⟩) hfetch
  have hfetch : ∀ inputs : MapPrevTx, fetchInputs env txdb tx = .ok inputs ↔
      fetchLoop env txdb tx.vin (fun _ => none) = .ok inputs ∧
        ∀ txin ∈ tx.vin, prevoutInRange inputs txin = true := by
    intro inputs
    simp only [fetchInputs, hcb, Bool.false_eq_true, if_false, bind_eq_ok, refuse_eq_ok, pure_eq_ok,
      not_exists, not_and, Bool.not_eq_false]
    constructor
    · rintro ⟨m, hrun, -, hrange, rfl⟩
      exact ⟨hrun, hrange⟩
    · rintro ⟨hrun, hrange⟩
      exact ⟨inputs, hrun, (), hrange, rfl⟩
  constructor
  · rintro ⟨prevs, h⟩ txin htxin
    simp only [explorePrevOuts, bind_eq_ok] at h
    obtain ⟨inputs, hin, -⟩ := h
    obtain ⟨idx, txPrev, hgot, hrange⟩ := prevoutInRange_iff.mp (((hfetch _).mp hin).2 txin htxin)
    obtain ⟨hidx, hread⟩ := hfrom hin _ _ _ hgot
    exact ⟨idx, txPrev, hidx, hread, hrange⟩
  · intro h
    obtain ⟨inputs, hrun, hall, -⟩ := @fetchLoop_ok env txdb tx.vin (fun _ => none)
      fun txin htxin => by
        obtain ⟨idx, txPrev, hidx, hread, -⟩ := h txin htxin
        exact ⟨idx, txPrev, hidx, hread⟩
    have hgot : ∀ txin ∈ tx.vin, ∃ idx txPrev, inputs txin.prevout.hash = some (idx, txPrev) ∧
        txin.prevout.n.toNat < txPrev.vout.length ∧ txin.prevout.n.toNat < idx.vSpent.length := by
      intro txin htxin
      obtain ⟨⟨idx, txPrev⟩, hq⟩ := Option.isSome_iff_exists.mp (hall txin htxin)
      obtain ⟨idx', txPrev', hidx', hread', hrange⟩ := h txin htxin
      obtain ⟨hidx, hread⟩ := fetchLoop_forall (P := fun hash idx tx => txdb hash = some idx ∧
        readPrev env hash idx = some tx) (fun _ _ _ hidx hread => ⟨hidx, hread⟩)
        (fun _ _ _ hnone => by cases hnone) hrun _ _ _ hq
      rw [hidx', Option.some_inj] at hidx
      subst hidx
      rw [hread', Option.some_inj] at hread
      subst hread
      exact ⟨_, _, hq, hrange⟩
    have hin : fetchInputs env txdb tx = .ok inputs :=
      (hfetch _).mpr ⟨hrun, fun txin htxin => prevoutInRange_iff.mpr (hgot txin htxin)⟩
    obtain ⟨prevs, hprevs⟩ := @getOutputs_ok inputs tx.vin fun txin htxin => by
      obtain ⟨idx, txPrev, hq, hn, -⟩ := hgot txin htxin
      exact ⟨idx, txPrev, hq, hn⟩
    refine ⟨prevs, ?_⟩
    simp only [explorePrevOuts, bind_eq_ok, hcb, Bool.false_eq_true, if_false]
    exact ⟨inputs, hin, hprevs⟩

/-- A coinbase has nothing to fetch. -/
theorem explorePrevOuts_coinbase (hcb : tx.isCoinBase = true) :
    explorePrevOuts env txdb tx = .ok [] := by
  simp only [explorePrevOuts, fetchInputs, hcb, if_true]
  rfl

/-! ## 2. What disconnecting leaves in the transaction index -/

/-- The entries of `db` under other ids than `ids` are in `db'`, with their place and size. -/
def Held (ids : List UInt256) (db db' : TxDB) : Prop :=
  ∀ hash ∉ ids, ∀ idx, db hash = some idx →
    ∃ idx', db' hash = some idx' ∧ idx'.pos = idx.pos ∧ idx'.vSpent.length = idx.vSpent.length

theorem Held.trans {ids' : List UInt256} {a b c : TxDB} (h : Held ids a b) (h' : Held ids' b c) :
    Held (ids ++ ids') a c := by
  intro hash hnot idx hidx
  rw [List.mem_append, not_or] at hnot
  obtain ⟨idx₁, h₁, hpos₁, hlen₁⟩ := h hash hnot.1 idx hidx
  obtain ⟨idx₂, h₂, hpos₂, hlen₂⟩ := h' hash hnot.2 idx₁ h₁
  exact ⟨idx₂, h₂, hpos₂.trans hpos₁, hlen₂.trans hlen₁⟩

/-- An entry may be written anew, with its place and its length kept. -/
theorem held_update {db : TxDB} {id : UInt256} {idx idx' : CTxIndex} (hid : db id = some idx)
    (hpos : idx'.pos = idx.pos) (hlen : idx'.vSpent.length = idx.vSpent.length) :
    Held [] db (db.update id idx') := by
  intro hash _ old hold
  by_cases hh : hash = id
  · subst hh
    obtain rfl : idx = old := Option.some_inj.mp (hid.symm.trans hold)
    exact ⟨idx', Function.update_self .., hpos, hlen⟩
  · exact ⟨old, by rw [TxDB.update, Function.update_of_ne hh, hold], rfl, rfl⟩

theorem giveBackInputs_held :
    ∀ {vin : List CTxIn} {txdb : TxDB}, giveBackInputs vin txdb = .ok txdb' → Held [] txdb txdb'
  | [], txdb, h => by
    cases h
    exact fun _ _ idx hidx => ⟨idx, hidx, rfl, rfl⟩
  | txin :: vin, txdb, h => by
    unfold giveBackInputs at h
    split at h
    · cases h
    · next idx hidx =>
      simp only [bind_eq_ok, refuse_eq_ok] at h
      obtain ⟨-, -, h⟩ := h
      have hspent : Held [] txdb
          (txdb.update txin.prevout.hash (idx.setSpent txin.prevout.n .null)) :=
        held_update hidx rfl (List.length_set ..)
      exact hspent.trans (giveBackInputs_held h)

theorem held_erase (db : TxDB) (id : UInt256) : Held [id] db (db.erase id) := by
  intro hash hnot idx hidx
  rw [List.mem_singleton] at hnot
  exact ⟨idx, by rw [TxDB.erase, Function.update_of_ne hnot, hidx], rfl, rfl⟩

theorem disconnectInputs_held (h : disconnectInputs K txdb tx = .ok txdb') :
    Held [tx.getHash K] txdb txdb' := by
  unfold disconnectInputs at h
  split at h
  · cases h
    exact held_erase _ _
  · simp only [bind_eq_ok, pure_eq_ok] at h
    obtain ⟨db, hgive, rfl⟩ := h
    exact (giveBackInputs_held hgive).trans (held_erase _ _)

/-- **Disconnecting transactions leaves the entries of all others.** -/
theorem disconnectTxs_held :
    ∀ {l : List CTransaction} {txdb : TxDB}, disconnectTxs K l txdb = .ok txdb' →
      Held (l.map (·.getHash K)) txdb txdb'
  | [], txdb, h => by
    cases h
    exact fun _ _ idx hidx => ⟨idx, hidx, rfl, rfl⟩
  | tx :: l, txdb, h => by
    simp only [disconnectTxs, bind_eq_ok] at h
    obtain ⟨db, hdi, h⟩ := h
    exact (disconnectInputs_held hdi).trans (disconnectTxs_held h)

theorem Fetchable.held (h : Fetchable env txdb txin) (hheld : Held ids txdb txdb')
    (hnot : txin.prevout.hash ∉ ids) : Fetchable env txdb' txin := by
  obtain ⟨idx, txPrev, hidx, hread, hout, hspent⟩ := h
  obtain ⟨idx', hidx', hpos, hlen⟩ := hheld _ hnot idx hidx
  refine ⟨idx', txPrev, hidx', ?_, hout, hlen ▸ hspent⟩
  unfold readPrev at hread ⊢
  rw [hpos]
  exact hread

/-- What was fetched when the transactions came is there when they go, if it is not of one of
them. -/
theorem explorePrevOuts_held {prevs : List CTxOut} (h : explorePrevOuts env txdb tx = .ok prevs)
    (hheld : Held ids txdb txdb') (hnot : ∀ o ∈ tx.spends, o.hash ∉ ids) :
    ∃ prevs', explorePrevOuts env txdb' tx = .ok prevs' := by
  cases hcb : tx.isCoinBase with
  | true => exact ⟨[], explorePrevOuts_coinbase hcb⟩
  | false =>
    have hspends : tx.spends = tx.vin.map CTxIn.prevout := by simp [CTransaction.spends, hcb]
    refine (explorePrevOuts_ok_iff hcb).mpr fun txin htxin => ?_
    refine ((explorePrevOuts_ok_iff hcb).mp ⟨prevs, h⟩ txin htxin).held hheld (hnot _ ?_)
    rw [hspends]
    exact List.mem_map_of_mem htxin

/-- A block that was indexed had all its previous outputs. -/
theorem prevOuts_of_exploreConnectTxs {hashBlock : UInt256} {nBlockTime : UInt32} {nHeight : Int} :
    ∀ {vtx : List CTransaction} {nVtx : Int} {e : ExploreState},
      exploreConnectTxs K X env txdb hashBlock nBlockTime nHeight nVtx vtx e = (true, e') →
      ∀ tx ∈ vtx, ∃ prevs, explorePrevOuts env txdb tx = .ok prevs
  | [], _, _, _ => nofun
  | tx :: vtx, nVtx, e, h => by
    rw [exploreConnectTxs] at h
    cases hprevs : explorePrevOuts env txdb tx with
    | error err =>
      have hfail : exploreConnectTx K X env txdb hashBlock nBlockTime nHeight nVtx tx e =
          (false, e) := by
        rw [exploreConnectTx, hprevs]
      rw [hfail] at h
      cases h
    | ok prevs =>
      refine List.forall_mem_cons.mpr ⟨⟨prevs, hprevs⟩, ?_⟩
      split at h
      · cases h
      · exact prevOuts_of_exploreConnectTxs h

theorem prevOuts_of_exploreConnectBlock {h : UInt256} {i : ExploreIndex} {block : CBlock}
    (hconn : exploreConnectBlock K X env txdb h (some i) block e = (true, e')) :
    ∀ tx ∈ block.vtx, ∃ prevs, explorePrevOuts env txdb tx = .ok prevs := by
  unfold exploreConnectBlock at hconn
  simp only at hconn
  split at hconn
  · cases hconn
  · next hrun => exact prevOuts_of_exploreConnectTxs hrun

/-! ## 3. The index as it was -/

/-- The records of an address are the same, with a counter or total that is not there read as
zero. -/
structure AddrRecords.Same (r r' : AddrRecords) : Prop where
  qtyInput : r.qtyInput.getD 0 = r'.qtyInput.getD 0
  qtyOutput : r.qtyOutput.getD 0 = r'.qtyOutput.getD 0
  qtyInOut : r.qtyInOut.getD 0 = r'.qtyInOut.getD 0
  qtyVio : r.qtyVio.getD 0 = r'.qtyVio.getD 0
  txInput : r.txInput = r'.txInput
  txOutput : r.txOutput = r'.txOutput
  txInOut : r.txInOut = r'.txInOut
  listVio : r.listVio = r'.listVio
  lookupOutput : r.lookupOutput = r'.lookupOutput
  balance : r.balance.getD 0 = r'.balance.getD 0
  valueIn : r.valueIn.getD 0 = r'.valueIn.getD 0
  valueOut : r.valueOut.getD 0 = r'.valueOut.getD 0

/-- The explorer's state is the same, with the records of addresses the same as above. -/
structure ExploreState.Same (e e' : ExploreState) : Prop where
  addr : ∀ key, (e.db.addr key).Same (e'.db.addr key)
  addrSet : e.db.addrSet = e'.db.addrSet
  exploreTx : e.db.exploreTx = e'.db.exploreTx
  exploreBest : e.db.exploreBest = e'.db.exploreBest
  sentinel : e.db.sentinel = e'.db.sentinel
  mapAddressBalances : e.mapAddressBalances = e'.mapAddressBalances

theorem Represents.same {r r' : AddrRecords} {b : Book} (h : Represents r b)
    (h' : Represents r' b) : r.Same r' where
  qtyInput := h.inputs.qty.trans h'.inputs.qty.symm
  qtyOutput := h.outputs.qty.trans h'.outputs.qty.symm
  qtyInOut := h.inOuts.inouts.qty.trans h'.inOuts.inouts.qty.symm
  qtyVio := h.inOuts.vios.qty.trans h'.inOuts.vios.qty.symm
  txInput := h.inputs.table.trans h'.inputs.table.symm
  txOutput := h.outputs.table.trans h'.outputs.table.symm
  txInOut := h.inOuts.inouts.table.trans h'.inOuts.inouts.table.symm
  listVio := h.inOuts.vios.table.trans h'.inOuts.vios.table.symm
  lookupOutput := h.lookupOutput.trans h'.lookupOutput.symm
  balance := h.balance.trans h'.balance.symm
  valueIn := h.valueIn.trans h'.valueIn.symm
  valueOut := h.valueOut.trans h'.valueOut.symm

theorem Explored.genesis_empty (h : Explored K X T fTestNet g C A p e) : EmptyBlock T g.block := by
  induction h with
  | genesis hempty => exact hempty
  | connect _ _ _ _ _ ih => exact ih
  | disconnect _ _ _ ih => exact ih
  | connectAborted _ _ _ _ _ _ ih => exact ih
  | disconnectAborted _ _ _ _ ih => exact ih
  | restart _ _ ih => exact ih

/-- No transaction of a chain has the id of one of the genesis block, whose outputs have no
colour. -/
theorem OnChain.not_genesis (hT : CollisionFree K T) (h : OnChain K T fTestNet p)
    (hempty : EmptyBlock T g.block) :
    ∀ q ∈ chainTxs p, q.tx.getHash K ∉ g.block.vtx.map (·.getHash K) := by
  obtain ⟨hledger, -⟩ := h.ledger hT
  obtain ⟨s, hrun, hblocks⟩ := h
  intro q hq hid
  obtain ⟨tx, htx, hid⟩ := List.mem_map.mp hid
  obtain ⟨hmem, -, hne, hcolor⟩ := hempty tx htx
  have hq' : q.tx ∈ (chainTxs p).map PlacedTx.tx := List.mem_map_of_mem hq
  have hvout : tx.vout = q.tx.vout := hT.vout_eq hmem (hledger.of_mem hq').1 hid
  obtain ⟨o, ho⟩ := List.exists_mem_of_ne_nil _ hne
  have hsome : checkColor o.nColor = true := by
    refine hrun.colors q.tx ?_ o (hvout ▸ ho)
    rw [map_tx_chainTxs, ← hblocks, List.flatMap_map] at hq'
    exact hq'
  rw [(hcolor o ho).2] at hsome
  exact absurd hsome (by decide)

/-- The ids of the next block are new. -/
theorem OnChain.new_ids (hT : CollisionFree K T) (h : OnChain K T fTestNet (.child b p))
    (hempty : EmptyBlock T g.block) :
    ∀ txid ∈ b.block.vtx.map (·.getHash K),
      txid ∉ idsOf K (chainTxs p) ∧ txid ∉ g.block.vtx.map (·.getHash K) := by
  intro txid hid
  obtain ⟨tx, htx, rfl⟩ := List.mem_map.mp hid
  obtain ⟨q, hq, rfl⟩ := (@mem_chainTxs_child p b tx).mpr htx
  obtain ⟨-, hnodup⟩ := h.ledger hT
  refine ⟨?_, h.not_genesis hT hempty q (List.mem_append_left _ hq)⟩
  rintro ⟨q', hq', hsame⟩
  rw [chainTxs, List.map_append, List.nodup_append] at hnodup
  exact hnodup.2.2 _ (List.mem_map_of_mem hq) _ (List.mem_map_of_mem hq') hsame.symm

/-- **Connecting a block and taking it back leaves the index as it was.**  The block was indexed,
`DisconnectInputs` has taken its transactions off the transaction index, and none of them spends an
output of another. -/
theorem exploreDisconnectBlock_restores (hT : CollisionFree K T)
    (h : Explored K X T fTestNet g (Bounded K X T) (SameRanks K X T) p e)
    (hchain : OnChain K T fTestNet (.child b p)) (hbounded : Bounded K X T (.child b p))
    (hf : env.Faithful K T txdb)
    (hconn : exploreConnectBlock K X env txdb b.hash (some (exploreIndex (.child b p))) b.block e =
      (true, e'))
    (hdisc : disconnectTxs K b.block.vtx.reverse txdb = .ok txdb')
    (hown : ∀ tx ∈ b.block.vtx, ∀ o ∈ tx.spends, o.hash ∉ b.block.vtx.map (·.getHash K)) :
    ∃ e'', exploreDisconnectBlock K X env txdb' (some (exploreIndex (.child b p))) b.block e' =
      (true, e'') ∧ e''.Same e := by
  have hinv : ExploreInv K X T g p e := h.inv hT (fun _ hc => hc) fun _ _ hsame => hsame
  obtain ⟨hinv', hbeside⟩ : ExploreInv K X T g (.child b p) e' ∧ Beside K b.block e e' := by
    obtain ⟨-, ⟨e₁, hrun, hgood⟩ | ⟨e₁, done, hrun, -⟩⟩ :=
      hinv.connect hT hf (hbounded.entriesOk hT hchain) hbounded.small
    · rw [hconn] at hrun
      cases hrun
      exact hgood
    · rw [hconn] at hrun
      cases hrun
  -- all previous outputs can still be fetched
  have hheld := disconnectTxs_held hdisc
  have hfetch : ∀ tx ∈ b.block.vtx, ∃ prevs, explorePrevOuts env txdb' tx = .ok prevs := by
    intro tx htx
    obtain ⟨prevs, hprevs⟩ := prevOuts_of_exploreConnectBlock hconn tx htx
    refine explorePrevOuts_held hprevs hheld fun o ho => ?_
    rw [List.map_reverse, List.mem_reverse]
    exact hown tx htx o ho
  obtain ⟨-, ⟨e'', hrun, hinv'', hbeside'⟩ | ⟨e₁, done, rest, -, -, hfails, -⟩⟩ :=
    hinv'.disconnect hT (hf.of_keeps (disconnectTxs_keeps hdisc).1)
  · refine ⟨e'', hrun, ?_⟩
    obtain ⟨haddr, hsets, hmap⟩ := describes_iff.mp hinv.describes
    obtain ⟨haddr'', hsets'', hmap''⟩ := describes_iff.mp hinv''.describes
    have hsame : e''.db.addrSet = e.db.addrSet := Buckets.ext hsets'' hsets
    -- neither the chain nor the genesis block has an id of the block
    have hnone : ∀ {e : ExploreState}, ExploreInv K X T g p e →
        ∀ txid ∈ b.block.vtx.map (·.getHash K), e.db.exploreTx txid = none := by
      intro e hinv txid hid
      obtain ⟨hchainNot, hgenesisNot⟩ := hchain.new_ids hT h.genesis_empty txid hid
      by_contra hsome
      rcases hinv.txs txid (Option.isSome_iff_ne_none.mpr hsome) with hin | hgen
      · exact hchainNot hin
      · exact hgenesisNot hgen
    refine ⟨fun key => (haddr'' key).same (haddr key), hsame, ?_, ?_, ?_, ?_⟩
    · funext txid
      by_cases hid : txid ∈ b.block.vtx.map (·.getHash K)
      · rw [hnone hinv'' txid hid, hnone hinv txid hid]
      · rw [hbeside'.exploreTx txid hid, hbeside.exploreTx txid hid]
    · rw [hinv''.best, hinv.best]
    · rw [hbeside'.sentinel, hbeside.sentinel]
    · rw [hmap'', hmap]
      unfold ExploreDB.sizes
      rw [hsame]
  · obtain ⟨tx, rest', hvtx, -, err, herr⟩ := hfails
    have htx : tx ∈ b.block.vtx.reverse := by
      rw [hvtx]
      exact List.mem_append_right _ List.mem_cons_self
    obtain ⟨prevs, hprevs⟩ := hfetch tx (List.mem_reverse.mp htx)
    rw [hprevs] at herr
    cases herr

/-! ## 4. Two blocks taken back -/

/-- The index with the genesis block. -/
def genesisExplored : Bool × ExploreState :=
  reindexExplore forkCrypto testExplorer (testEnv fun _ => none) (fun _ => none) (.root testGenesis)

theorem genesisExplored_run :
    Explored forkCrypto testExplorer {tx | tx ∈ firstTxs payScript} true testGenesis C A
      (.root testGenesis) genesisExplored.2 := by
  have hok : genesisExplored.1 = true := by decide +kernel
  exact .genesis (testGenesis_empty List.mem_cons_self)
    (@faithful_none _ _ fun _ => none) (eq_mk_of_fst hok)

/-- The database with the first block. -/
def firstDb : TxDB :=
  ((acceptBranch forkCrypto (testEnv fun _ => none) (firstPtr payScript)).toOption.getD
    ⟨fun _ => none, []⟩).txdb

/-- The index after the first block is connected. -/
def firstConnected : Bool × ExploreState :=
  exploreConnectBlock forkCrypto testExplorer (testEnv fun _ => none) firstDb
    (firstBlock payScript).hash (some (exploreIndex (firstPtr payScript)))
    (firstBlock payScript).block genesisExplored.2

/-- The database after it is disconnected. -/
def firstDbBack : TxDB :=
  (disconnectTxs forkCrypto (firstBlock payScript).block.vtx.reverse firstDb).toOption.getD
    fun _ => none

/-- The first block, which pays an address, is taken back. -/
theorem exploreDisconnectBlock_restores_first :
    ∃ e, exploreDisconnectBlock forkCrypto testExplorer (testEnv fun _ => none) firstDbBack
        (some (exploreIndex (firstPtr payScript))) (firstBlock payScript).block
        firstConnected.2 = (true, e) ∧ e.Same genesisExplored.2 := by
  have hconn : firstConnected.1 = true := by decide +kernel
  have hback : (disconnectTxs forkCrypto (firstBlock payScript).block.vtx.reverse
      firstDb).accepts = true := by decide +kernel
  have hown : ∀ tx ∈ (firstBlock payScript).block.vtx, ∀ o ∈ tx.spends,
      o.hash ∉ (firstBlock payScript).block.vtx.map (·.getHash forkCrypto) := by decide +kernel
  exact exploreDisconnectBlock_restores firstTxs_collisionFree genesisExplored_run
    (firstPtr_onChain (by decide +kernel)) firstPtr_orderly.1 faithful_none
    (eq_mk_of_fst hconn) (eq_ok_getD hback _) hown

/-- **Not as it was.**  The first block pays a new address; taken back, it leaves a balance record
of zero where there was none.  The twelfth block of `tallPtr` spends an output of its own; taking
it back fails. -/
theorem undo_not_exact :
    ((genesisExplored.2.db.addr ("address", 1)).balance = none ∧ firstConnected.1 = true ∧
      disconnectTxs forkCrypto (firstBlock payScript).block.vtx.reverse firstDb =
        .ok firstDbBack ∧
      ((exploreDisconnectBlock forkCrypto testExplorer (testEnv fun _ => none) firstDbBack
        (some (exploreIndex (firstPtr payScript))) (firstBlock payScript).block
        firstConnected.2).2.db.addr ("address", 1)).balance = some 0) ∧
      ∃ e e' e'' txdb, Explored forkCrypto testExplorer {tx | tx ∈ tallTxs} true testGenesis
          (fun _ => True) (fun _ _ => False) (tallPtr 11) e ∧
        exploreConnectBlock forkCrypto testExplorer (testEnv tallDisk) tallChain.txdb
          (BlockPtr.hash (tallPtr 12)) (some (exploreIndex (tallPtr 12))) (tallPtr 12).top.block
          e = (true, e') ∧
        disconnectTxs forkCrypto (tallPtr 12).top.block.vtx.reverse tallChain.txdb = .ok txdb ∧
        exploreDisconnectBlock forkCrypto testExplorer (testEnv tallDisk) txdb
          (some (exploreIndex (tallPtr 12))) (tallPtr 12).top.block e' = (false, e'') := by
  have hback : (disconnectTxs forkCrypto (firstBlock payScript).block.vtx.reverse
      firstDb).accepts = true := by decide +kernel
  refine ⟨⟨by decide +kernel, by decide +kernel, eq_ok_getD hback _, by decide +kernel⟩, ?_⟩
  obtain ⟨e, he, hconn⟩ := reindexExplore_child tallIndex_ok
  obtain ⟨-, -, -, -, hfail, -⟩ := tall_computed
  refine ⟨e, tallIndex.2, tallAborted.2, tallDbBack,
    tallPtr_explored tallPtr_onChain.parent he, hconn, tallDbBack_ok, ?_⟩
  unfold tallAborted at hfail ⊢
  exact eq_mk_of_fst hfail

end Breakout
