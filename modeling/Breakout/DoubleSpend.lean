/-
# No double spend

Along a chain of accepted blocks every outpoint is consumed at most once, and only after a
transaction of the chain created it.

That what is spent was unspent is the ledger's (`LedgerOk`).  What has to be added is that no
transaction id comes back once everything under it is spent, which `ConnectBlock` itself allows:
its rule against overwriting looks at unspent outputs only.  A transaction that spends cannot come
back, because what it spends is gone.  A coinbase spends nothing, and before the third fork its id
does not depend on the height either.  It cannot come back because of two clocks: its outputs
stay immature for a number of blocks, so they are not all spent before that many blocks have
passed, and the block that would repeat it has a time only a few seconds past the
coinbase's.  Block times increase by a second at least (`AcceptBlock`).
-/
import Breakout.MoneySupply

namespace Breakout

open Lib

variable {K : Crypto} {T : Set CTransaction} {fTestNet : Bool} {g : DiskBlockPos}

/-! ## 1. Accepted chains -/

/-- **Chains of blocks accepted one after another.**  `AcceptBlock` has refused a block whose time
is not past its parent's. -/
inductive Accepted (K : Crypto) (T : Set CTransaction) (fTestNet : Bool) (g : DiskBlockPos) :
    ChainState → Prop
  | genesis : Accepted K T fTestNet g ⟨fun _ => none, []⟩
  | connect {s : ChainState} {env : NodeEnv} {pos : DiskBlockPos} {block : CBlock}
      {pindex' : CBlockIndex} {txdb' : TxDB} :
      Accepted K T fTestNet g s → env.clock.fTestNet = fTestNet → (∀ tx, env.Holds tx → tx ∈ T) →
      (∀ tx ∈ block.vtx, tx ∈ T) → (tipOf g s.blocks).nTime < block.nTime →
      connectBlock K env s.txdb (newBlockIndex pos block (tipOf g s.blocks)) (tipOf g s.blocks)
        (ancestorsOf g s.blocks) block false = .ok (pindex', txdb') →
      Accepted K T fTestNet g ⟨txdb', (pindex', block) :: s.blocks⟩

theorem Accepted.reachable {s : ChainState} (h : Accepted K T fTestNet g s) :
    Reachable K T fTestNet g s := by
  induction h with
  | genesis => exact .genesis
  | connect _ htest hholds hmem _ hconn ih => exact .connect ih htest hholds hmem hconn

/-! ## 2. Transaction ids do not come back -/

theorem LedgerOk.valid : ∀ {txs : List CTransaction}, LedgerOk K T txs → Valid (ledgerOf K txs)
  | [], _ => trivial
  | _ :: _, h => ⟨h.1.move, LedgerOk.valid h.2⟩

theorem consumed_ledgerOf (txs : List CTransaction) :
    consumed (ledgerOf K txs) = txs.flatMap CTransaction.spends := by
  simp [consumed, ledgerOf, List.flatMap_map, CTransaction.toMove]

/-- When no id repeats, no output is created twice. -/
theorem nodup_created :
    ∀ {txs : List CTransaction}, LedgerOk K T txs → (txs.map (·.getHash K)).Nodup →
      (created (ledgerOf K txs)).Nodup
  | [], _, _ => List.nodup_nil
  | tx :: txs, hok, hnd => by
    rw [List.map_cons, List.nodup_cons] at hnd
    rw [ledgerOf_cons, created_cons, List.nodup_append]
    refine ⟨hok.1.move.nodup_outs, nodup_created hok.2 hnd.2, ?_⟩
    rintro o ho _ ho' rfl
    rw [created, List.mem_flatMap] at ho'
    obtain ⟨m, hm, ho'⟩ := ho'
    obtain ⟨t, ht, rfl⟩ := List.mem_map.mp hm
    have hlen := (hok.2.of_mem ht).2.vout_length
    refine hnd.1 (List.mem_map.mpr ⟨t, ht, ?_⟩)
    rw [← ((CTransaction.mem_creates hlen).mp ho').1,
      ((CTransaction.mem_creates hok.1.checked.vout_length).mp ho).1]

/-- What is determined by an id: whether the transaction is a coinbase, and what it spends. -/
theorem CollisionFree.spends_eq (hT : CollisionFree K T) {a b : CTransaction} (ha : a ∈ T)
    (hb : b ∈ T) (h : a.getHash K = b.getHash K) :
    a.isCoinBase = b.isCoinBase ∧ a.spends = b.spends := by
  have hpre := hT.prevouts_eq ha hb h
  have hcb := CTransaction.isCoinBase_congr hpre (hT.vout_eq ha hb h)
  refine ⟨hcb, ?_⟩
  rw [CTransaction.spends, CTransaction.spends, hcb, hpre]

/-- **The ids of a block are new**, once its coinbase's is: a transaction that spends cannot come
back, because what it spends is gone for good. -/
theorem nodup_txids_append (hT : CollisionFree K T) {h : List CTransaction}
    (hnd : (h.map (·.getHash K)).Nodup) :
    ∀ {l : List CTransaction}, LedgerOk K T (l ++ h) → (l.map (·.getHash K)).Nodup →
      (∀ tx ∈ l, tx.isCoinBase = true → ∀ t ∈ h, t.getHash K ≠ tx.getHash K) →
      ((l ++ h).map (·.getHash K)).Nodup
  | [], _, _, _ => hnd
  | tx :: l, hok, hl, hcb => by
    obtain ⟨htx, hok⟩ : TxOk K T (unspent (ledgerOf K (l ++ h))) tx ∧ LedgerOk K T (l ++ h) := hok
    rw [List.map_cons, List.nodup_cons] at hl
    have ih := nodup_txids_append hT hnd hok hl.2 fun t ht => hcb t (List.mem_cons_of_mem _ ht)
    rw [List.cons_append, List.map_cons, List.nodup_cons]
    refine ⟨?_, ih⟩
    intro hmem
    obtain ⟨t, ht, hid⟩ := List.mem_map.mp hmem
    rcases List.mem_append.mp ht with htl | hth
    · exact hl.1 (List.mem_map.mpr ⟨t, htl, hid⟩)
    · cases hc : tx.isCoinBase with
      | true => exact hcb tx List.mem_cons_self hc t hth hid
      | false =>
        obtain ⟨-, hspends⟩ := hT.spends_eq (hok.of_mem ht).1 htx.mem hid
        obtain ⟨txin, ins, hvin⟩ := List.exists_cons_of_ne_nil htx.checked.vin_ne
        have ho : txin.prevout ∈ tx.spends := by simp [CTransaction.spends, hc, hvin]
        have hcons : txin.prevout ∈ consumed (ledgerOf K (l ++ h)) := by
          rw [consumed_ledgerOf, List.mem_flatMap]
          exact ⟨t, ht, hspends ▸ ho⟩
        exact not_mem_unspent_of_consumed hok.valid (nodup_created hok ih) hcons
          (htx.move.ins_mem _ ho)

/-! ## 3. Where a transaction is stored, and how deep -/

/-- A block of the chain that lies at a position has a transaction with the id. -/
def StoredAt (K : Crypto) (blocks : Blocks) (hash : UInt256) (pos : CDiskTxPos) : Prop :=
  ∃ b ∈ blocks, b.1.nFile = pos.nFile ∧ b.1.nBlockPos = pos.nBlockPos ∧
    ∃ tx ∈ b.2.vtx, tx.getHash K = hash

/-- Every entry of the index points at the block that has the transaction. -/
def PosOk (K : Crypto) (blocks : Blocks) (view : TxDB) : Prop :=
  ∀ hash idx, view hash = some idx → StoredAt K blocks hash idx.pos

/-- An output that was spent at the block of `ctx`, so that its transaction was found mature. -/
def SpentMature (K : Crypto) (ctx : ConnectCtx) (blocks : Blocks) (o : COutPoint) : Prop :=
  ∃ txPrev pos, ctx.env.Holds txPrev ∧ txPrev.getHash K = o.hash ∧ StoredAt K blocks o.hash pos ∧
    (txPrev.doesMature = true → isConfirmedInNPrevBlocks pos ctx.pindex
      (ctx.pprev :: ctx.ancestors) (getCoinbaseMaturity ctx.env.clock.fTestNet) = false)

variable {ctx : ConnectCtx} {blocks : Blocks} {tx : CTransaction}

/-- Connecting a transaction keeps the positions, and finds what it spends mature. -/
theorem ConnectedTx.posOk {view view' : TxDB} {prevs : List CTxOut}
    (h : ConnectedTx K ctx view view' tx prevs) (hview : PosOk K blocks view)
    (htx : ∀ nTxPos, StoredAt K blocks (tx.getHash K)
      ⟨ctx.pindex.nFile, ctx.pindex.nBlockPos, nTxPos⟩) :
    PosOk K blocks view' ∧ ∀ o ∈ tx.spends, SpentMature K ctx blocks o := by
  obtain ⟨mid, nTxPos, hmid, rfl⟩ := h.entered
  have hmidPos : PosOk K blocks mid := by
    rcases hmid with ⟨-, -, rfl⟩ | ⟨-, hci⟩
    · exact hview
    · intro hash idx hidx
      obtain ⟨idx₀, h₀, hpos⟩ := hci.pos_eq hash idx hidx
      rw [← hpos]
      exact hview hash idx₀ h₀
  refine ⟨?_, ?_⟩
  · intro hash idx hidx
    by_cases hh : hash = tx.getHash K
    · subst hh
      rw [TxDB.update, Function.update_self, Option.some_inj] at hidx
      rw [← hidx]
      exact htx nTxPos
    · rw [TxDB.update, Function.update_of_ne hh] at hidx
      exact hmidPos hash idx hidx
  · intro o ho
    rcases hmid with ⟨hcb, -, -⟩ | ⟨hcb, hci⟩
    · simp [CTransaction.spends, hcb] at ho
    · simp only [CTransaction.spends, hcb, Bool.false_eq_true, if_false, List.mem_map] at ho
      obtain ⟨txin, htxin, rfl⟩ := ho
      obtain ⟨txout, txPrev, idx, hs⟩ := exists_of_forall₂ hci.spent txin htxin
      exact ⟨txPrev, idx.pos, hs.holds, hs.getHash, hview _ _ hs.index, hs.mature⟩

theorem ConnectedTxs.posOk :
    ∀ {l : List (CTransaction × List CTxOut)} {view view' : TxDB},
      ConnectedTxs K ctx view l view' → PosOk K blocks view →
      (∀ p ∈ l, ∀ nTxPos, StoredAt K blocks (p.1.getHash K)
        ⟨ctx.pindex.nFile, ctx.pindex.nBlockPos, nTxPos⟩) →
      PosOk K blocks view' ∧ ∀ p ∈ l, ∀ o ∈ p.1.spends, SpentMature K ctx blocks o
  | _, _, _, .nil _, hview, _ => ⟨hview, by simp⟩
  | _, _, _, @ConnectedTxs.cons _ _ _ _ _ tx prevs _ htx hrest, hview, hst => by
    obtain ⟨hview₁, hm⟩ := htx.posOk hview (hst (tx, prevs) List.mem_cons_self)
    obtain ⟨hview', hms⟩ := ConnectedTxs.posOk hrest hview₁
      fun p hp => hst p (List.mem_cons_of_mem _ hp)
    refine ⟨hview', fun p hp => ?_⟩
    rcases List.mem_cons.mp hp with rfl | hp
    · exact hm
    · exact hms p hp

/-- Heights fall along a branch. -/
def HeightsFall (branch : List CBlockIndex) : Prop :=
  branch.Pairwise fun p q => q.nHeight < p.nHeight

/-- The search for a transaction reaches every block that is not too deep. -/
theorem isConfirmed_of_mem {pos : CDiskTxPos} {pindexFrom : CBlockIndex}
    {ancestors : List CBlockIndex} {d : Int} {p : CBlockIndex}
    (hfall : HeightsFall (pindexFrom :: ancestors)) (hp : p ∈ pindexFrom :: ancestors)
    (hfile : p.nFile = pos.nFile) (hpos : p.nBlockPos = pos.nBlockPos)
    (hdepth : (pindexFrom.nHeight : Int) - p.nHeight < d) :
    isConfirmedInNPrevBlocks pos pindexFrom ancestors d = true := by
  have hreach : ∀ {branch : List CBlockIndex}, HeightsFall branch → p ∈ branch →
      p ∈ branch.takeWhile fun q =>
        decide ((pindexFrom.nHeight : Int) - q.nHeight < d) := by
    intro branch hf hm
    induction branch with
    | nil => cases hm
    | cons q branch ih =>
      obtain ⟨hq, hf⟩ := List.pairwise_cons.mp hf
      rcases List.mem_cons.mp hm with rfl | hm
      · rw [List.takeWhile_cons_of_pos (by simpa using hdepth)]
        exact List.mem_cons_self
      · have hlt := hq p hm
        rw [List.takeWhile_cons_of_pos (by rw [decide_eq_true_eq]; omega)]
        exact List.mem_cons_of_mem _ (ih hf hm)
  rw [isConfirmedInNPrevBlocks, List.any_eq_true]
  exact ⟨p, hreach hfall hp, by simp [hfile, hpos]⟩

theorem branch_eq (g : DiskBlockPos) :
    ∀ blocks : Blocks,
      tipOf g blocks :: ancestorsOf g blocks = blocks.map Prod.fst ++ [genesisIndex g]
  | [] => rfl
  | (pindex, block) :: rest => by
    rw [ancestorsOf, branch_eq g rest]
    rfl

/-! ## 4. The invariant of accepted chains -/

/-- A block and its index, as far as times go. -/
structure BlockTimes (fTestNet : Bool) (b : CBlockIndex × CBlock) : Prop where
  tx_le : ∀ tx ∈ b.2.vtx, tx.nTime.toNat ≤ b.1.nTime.toNat
  coinbase_near : ∀ tx ∈ b.2.vtx, tx.isCoinBase = true →
    b.1.nTime.toNat ≤ futureDrift fTestNet tx.nTime.toNat

/-- What holds of every accepted chain. -/
structure AcceptedInv (K : Crypto) (fTestNet : Bool) (g : DiskBlockPos) (s : ChainState) : Prop where
  heights : HeightsFall (tipOf g s.blocks :: ancestorsOf g s.blocks)
  times : ∀ b ∈ s.blocks,
    b.1.nTime.toNat + (tipOf g s.blocks).nHeight ≤ (tipOf g s.blocks).nTime.toNat + b.1.nHeight
  blockTimes : ∀ b ∈ s.blocks, BlockTimes fTestNet b
  stored : PosOk K s.blocks s.txdb
  txids : ((txsOf s.blocks).map (·.getHash K)).Nodup
  mature : ∀ o ∈ consumed (ledgerOf K (txsOf s.blocks)), ∀ b ∈ s.blocks, ∀ tx ∈ b.2.vtx,
    tx.isCoinBase = true → tx.getHash K = o.hash →
    b.1.nTime.toNat + getCoinbaseMaturity fTestNet ≤ (tipOf g s.blocks).nTime.toNat

/-- A coinbase matures later than its time may lag behind a block's. -/
theorem futureDrift_lt_maturity (fTestNet : Bool) (n : Nat) :
    futureDrift fTestNet n < n + getCoinbaseMaturity fTestNet := by
  cases fTestNet <;> simp [futureDrift, getCoinbaseMaturity]

theorem mem_txsOf :
    tx ∈ txsOf blocks ↔ ∃ b ∈ blocks, tx ∈ b.2.vtx := by
  simp [txsOf]

/-- The block with a given id in it is unique. -/
theorem block_unique (hnd : ((txsOf blocks).map (·.getHash K)).Nodup) {b b' : CBlockIndex × CBlock}
    (hb : b ∈ blocks) (hb' : b' ∈ blocks) {tx' : CTransaction} (htx : tx ∈ b.2.vtx)
    (htx' : tx' ∈ b'.2.vtx) (hid : tx.getHash K = tx'.getHash K) :
    b.1 = b'.1 := by
  by_contra hne
  have hne' : b ≠ b' := fun he => hne (by rw [he])
  rw [txsOf, List.map_flatMap, List.nodup_flatMap] at hnd
  have hsymm : Std.Symm (Function.onFun List.Disjoint fun b : CBlockIndex × CBlock =>
      b.2.vtx.reverse.map (·.getHash K)) := ⟨fun _ _ h => h.symm⟩
  have hdisj := hnd.2.forall hb hb' hne'
  refine hdisj (a := tx.getHash K) ?_ ?_
  · exact List.mem_map_of_mem (List.mem_reverse.mpr htx)
  · rw [hid]
    exact List.mem_map_of_mem (List.mem_reverse.mpr htx')

section Step

variable {s : ChainState} {env : NodeEnv} {pos : DiskBlockPos} {block : CBlock}
  {pindex' : CBlockIndex} {txdb' : TxDB} {l : List (CTransaction × List CTxOut)}

/-- A new block's index extends a branch whose heights fall. -/
theorem heightsFall_cons (hinv : AcceptedInv K fTestNet g s) {p : CBlockIndex}
    (hp : p.nHeight = (tipOf g s.blocks).nHeight + 1) :
    HeightsFall (p :: tipOf g s.blocks :: ancestorsOf g s.blocks) := by
  refine List.pairwise_cons.mpr ⟨?_, hinv.heights⟩
  intro q hq
  have hle : q.nHeight ≤ (tipOf g s.blocks).nHeight := by
    rcases List.mem_cons.mp hq with rfl | hq
    · exact le_rfl
    · exact ((List.pairwise_cons.mp hinv.heights).1 q hq).le
  omega

/-- The times of a block that passed `CheckBlock`. -/
theorem CheckedBlock.blockTimes {clock : Clock} (h : CheckedBlock K clock block)
    (htime : pindex'.nTime = block.nTime) : BlockTimes clock.fTestNet (pindex', block) := by
  refine ⟨?_, ?_⟩
  · intro tx htx
    rw [htime]
    exact (h.checked tx htx).2
  · intro tx htx hcb
    obtain ⟨coinbase, rest, hv, -, hrest, hle⟩ := h.coinbase_first
    have htx' : tx = coinbase := by
      rw [show (pindex', block).2.vtx = coinbase :: rest from hv, List.mem_cons] at htx
      refine htx.resolve_right fun hmem => ?_
      rw [hrest tx hmem] at hcb
      cases hcb
    rw [htx', htime]
    exact hle

variable {tx : CTransaction}

/-- **A coinbase does not come back**: its outputs could not all be spent so soon. -/
theorem AcceptedInv.coinbase_fresh (hT : CollisionFree K T) (hinv : AcceptedInv K fTestNet g s)
    (hok : LedgerOk K T (txsOf s.blocks))
    (hset : unspentSet s.txdb = unspent (ledgerOf K (txsOf s.blocks))) (hmem : tx ∈ T)
    (hcb : tx.isCoinBase = true) (hfresh : ∀ o, Unspent s.txdb o → o.hash ≠ tx.getHash K)
    (htime : (tipOf g s.blocks).nTime.toNat < futureDrift fTestNet tx.nTime.toNat) :
    ∀ t ∈ txsOf s.blocks, t.getHash K ≠ tx.getHash K := by
  intro t ht hid
  obtain ⟨htT, htchk⟩ := hok.of_mem ht
  obtain ⟨b, hb, htb⟩ := mem_txsOf.mp ht
  have htcb : t.isCoinBase = true := by rw [(hT.spends_eq htT hmem hid).1, hcb]
  -- its first output exists and is not unspent, so it was consumed
  have hlen : 0 < t.vout.length := List.length_pos_iff.mpr htchk.vout_ne
  have hcreated : (⟨t.getHash K, 0⟩ : COutPoint) ∈ created (ledgerOf K (txsOf s.blocks)) := by
    rw [created, List.mem_flatMap]
    refine ⟨t.toMove K, List.mem_map_of_mem ht, ?_⟩
    exact (CTransaction.mem_creates htchk.vout_length).mpr ⟨rfl, hlen⟩
  have hspent : (⟨t.getHash K, 0⟩ : COutPoint) ∉ unspent (ledgerOf K (txsOf s.blocks)) := by
    rw [← hset, mem_unspentSet]
    exact fun hu => hfresh _ hu hid
  have hmature := hinv.mature _ (mem_consumed_of_not_unspent hcreated hspent) b hb t htb htcb rfl
  have hle := (hinv.blockTimes b hb).tx_le t htb
  have hdrift := futureDrift_lt_maturity fTestNet tx.nTime.toNat
  rw [← hT.nTime_eq htT hmem hid] at hdrift htime
  omega

/-- No transaction of a connected block overwrites one with an unspent output. -/
theorem ConnectedTxs.fresh {ctx : ConnectCtx} :
    ∀ {l : List (CTransaction × List CTxOut)} {view view' : TxDB},
      ConnectedTxs K ctx view l view' → ∀ p ∈ l, ∀ o, Unspent ctx.txdb o →
        o.hash ≠ p.1.getHash K
  | _, _, _, .nil _, p, hp => by cases hp
  | _, _, _, .cons htx hrest, p, hp => by
    rcases List.mem_cons.mp hp with rfl | hp
    · exact htx.fresh
    · exact ConnectedTxs.fresh hrest p hp

theorem LedgerOk.of_append {h : List CTransaction} :
    ∀ {l : List CTransaction}, LedgerOk K T (l ++ h) → LedgerOk K T h
  | [], hok => hok
  | _ :: _, hok => LedgerOk.of_append hok.2

/-- What the block spends of a coinbase is at least as old as the maturity asks. -/
theorem SpentMature.time_le (hT : CollisionFree K T) (hinv : AcceptedInv K fTestNet g s)
    (hok : LedgerOk K T (txsOf ((pindex', block) :: s.blocks)))
    (htxids : ((txsOf ((pindex', block) :: s.blocks)).map (·.getHash K)).Nodup)
    (htest : env.clock.fTestNet = fTestNet) (hholds : ∀ tx, env.Holds tx → tx ∈ T)
    (htime : (tipOf g s.blocks).nTime < block.nTime)
    (hb : ConnectedBlock K (ctxOf env s.txdb pos block (tipOf g s.blocks)
      (ancestorsOf g s.blocks)) block pindex' txdb' l)
    {o : COutPoint}
    (hspent : SpentMature K (ctxOf env s.txdb pos block (tipOf g s.blocks)
      (ancestorsOf g s.blocks)) ((pindex', block) :: s.blocks) o)
    {b : CBlockIndex × CBlock} (hbm : b ∈ (pindex', block) :: s.blocks) (htx : tx ∈ b.2.vtx)
    (hcb : tx.isCoinBase = true) (hid : tx.getHash K = o.hash) :
    b.1.nTime.toNat + getCoinbaseMaturity fTestNet ≤ pindex'.nTime.toNat := by
  obtain ⟨txPrev, dpos, hh, hprev, ⟨b₂, hb₂, hfile, hbpos, tx₂, htx₂, hid₂⟩, hmature⟩ := hspent
  have hbb : b.1 = b₂.1 := block_unique htxids hbm hb₂ htx htx₂ (hid.trans hid₂.symm)
  have htxT : tx ∈ T := (hok.of_mem (mem_txsOf.mpr ⟨b, hbm, htx⟩)).1
  have hdoes : txPrev.doesMature = true := by
    rw [CTransaction.doesMature, (hT.spends_eq (hholds _ hh) htxT (hprev.trans hid.symm)).1, hcb]
    rfl
  have hnot := hmature hdoes
  rw [show (ctxOf env s.txdb pos block (tipOf g s.blocks) (ancestorsOf g s.blocks)).env.clock.fTestNet
    = fTestNet from htest] at hnot
  have hfall := heightsFall_cons hinv
    (p := newBlockIndex pos block (tipOf g s.blocks)) rfl
  have hmat : (0 : Int) < getCoinbaseMaturity fTestNet := by
    cases fTestNet <;> simp [getCoinbaseMaturity]
  rw [← hbb] at hfile hbpos
  have hnew : pindex'.nTime = block.nTime := hb.nTime
  rcases List.mem_cons.mp hbm with rfl | hbm
  · -- in this very block: the search starts there
    have := isConfirmed_of_mem (p := newBlockIndex pos block (tipOf g s.blocks)) hfall
      List.mem_cons_self (hb.nFile.symm.trans hfile) (hb.nBlockPos.symm.trans hbpos)
      (d := getCoinbaseMaturity fTestNet) (by simpa using hmat)
    exact absurd (hnot.symm.trans this) (by simp)
  · have hin : b.1 ∈ tipOf g s.blocks :: ancestorsOf g s.blocks := by
      rw [branch_eq]
      exact List.mem_append_left _ (List.mem_map_of_mem hbm)
    have hdeep : ¬ ((newBlockIndex pos block (tipOf g s.blocks)).nHeight : Int) - b.1.nHeight <
        getCoinbaseMaturity fTestNet := by
      intro hlt
      have := isConfirmed_of_mem hfall (List.mem_cons_of_mem _ hin) hfile hbpos hlt
      exact absurd (hnot.symm.trans this) (by simp)
    have htimes := hinv.times b hbm
    have hlt : (tipOf g s.blocks).nTime.toNat < block.nTime.toNat := htime
    rw [hnew]
    simp only [newBlockIndex] at hdeep
    omega

/-- **The step**: an accepted block keeps the invariant. -/
theorem AcceptedInv.step (hT : CollisionFree K T) (hinv : AcceptedInv K fTestNet g s)
    (hok : LedgerOk K T (txsOf ((pindex', block) :: s.blocks)))
    (hset : unspentSet s.txdb = unspent (ledgerOf K (txsOf s.blocks)))
    (htest : env.clock.fTestNet = fTestNet) (hholds : ∀ tx, env.Holds tx → tx ∈ T)
    (htime : (tipOf g s.blocks).nTime < block.nTime)
    (hb : ConnectedBlock K (ctxOf env s.txdb pos block (tipOf g s.blocks)
      (ancestorsOf g s.blocks)) block pindex' txdb' l) :
    AcceptedInv K fTestNet g ⟨txdb', (pindex', block) :: s.blocks⟩ := by
  have hlt : (tipOf g s.blocks).nTime.toNat < block.nTime.toNat := htime
  have hnew : pindex'.nTime = block.nTime := hb.nTime
  have hheight : pindex'.nHeight = (tipOf g s.blocks).nHeight + 1 := hb.nHeight
  have hbt : BlockTimes fTestNet (pindex', block) := htest ▸ hb.checked.blockTimes hnew
  have hokOld : LedgerOk K T (txsOf s.blocks) := LedgerOk.of_append (l := block.vtx.reverse) hok
  have hltx : ∀ p ∈ l, p.1 ∈ block.vtx := by
    intro p hp
    rw [← hb.txs]
    exact List.mem_map_of_mem hp
  have htxids : ((txsOf ((pindex', block) :: s.blocks)).map (·.getHash K)).Nodup := by
    refine nodup_txids_append hT hinv.txids hok ?_ ?_
    · rw [List.map_reverse]
      exact List.nodup_reverse.mpr hb.checked.txids_nodup
    · intro tx htx hcb
      have htx' := List.mem_reverse.mp htx
      refine hinv.coinbase_fresh hT hokOld hset
        (hok.of_mem (List.mem_append_left _ htx)).1 hcb ?_ ?_
      · rw [← hb.txs] at htx'
        obtain ⟨p, hp, rfl⟩ := List.mem_map.mp htx'
        exact hb.connected.fresh p hp
      · have hnear := hbt.coinbase_near tx htx' hcb
        have : (pindex', block).1.nTime.toNat = block.nTime.toNat := by rw [← hnew]
        omega
  have hposOk : PosOk K ((pindex', block) :: s.blocks) s.txdb := by
    intro hash idx h
    obtain ⟨b, hb, hrest⟩ := hinv.stored hash idx h
    exact ⟨b, List.mem_cons_of_mem _ hb, hrest⟩
  obtain ⟨hstored, hspent⟩ := hb.connected.posOk hposOk
    (fun p hp nTxPos => ⟨(pindex', block), List.mem_cons_self, hb.nFile, hb.nBlockPos, p.1,
      hltx p hp, rfl⟩)
  refine ⟨heightsFall_cons hinv hheight, ?_, ?_, hstored, htxids, ?_⟩
  · intro b hbm
    show b.1.nTime.toNat + pindex'.nHeight ≤ pindex'.nTime.toNat + b.1.nHeight
    rcases List.mem_cons.mp hbm with rfl | hbm
    · exact le_rfl
    · have := hinv.times b hbm
      rw [hnew, hheight]
      omega
  · intro b hbm
    rcases List.mem_cons.mp hbm with rfl | hbm
    · exact hbt
    · exact hinv.blockTimes b hbm
  · intro o ho b hbm tx htx hcb hid
    show b.1.nTime.toNat + getCoinbaseMaturity fTestNet ≤ pindex'.nTime.toNat
    rw [consumed_ledgerOf, txsOf_cons, List.flatMap_append, List.mem_append,
      ← consumed_ledgerOf (K := K) (txsOf s.blocks)] at ho
    rcases ho with ho | ho
    · -- consumed in this block
      obtain ⟨t, ht, hot⟩ := List.mem_flatMap.mp ho
      have ht' := List.mem_reverse.mp ht
      rw [← hb.txs] at ht'
      obtain ⟨p, hp, rfl⟩ := List.mem_map.mp ht'
      exact (hspent p hp o hot).time_le hT hinv hok htxids htest hholds htime hb hbm htx hcb hid
    · rcases List.mem_cons.mp hbm with rfl | hbm
      · -- created here and consumed before: the id would repeat
        obtain ⟨m, hm, hcr⟩ := List.mem_flatMap.mp
          (mem_created_of_mem_consumed hokOld.valid ho)
        obtain ⟨t, ht, rfl⟩ := List.mem_map.mp hm
        have hidt := ((CTransaction.mem_creates (hokOld.of_mem ht).2.vout_length).mp hcr).1
        rw [txsOf_cons, List.map_append, List.nodup_append] at htxids
        exact absurd (hid.trans hidt)
          (htxids.2.2 _ (List.mem_map_of_mem (List.mem_reverse.mpr htx)) _
            (List.mem_map_of_mem ht))
      · have := hinv.mature o ho b hbm tx htx hcb hid
        rw [hnew]
        omega

end Step

theorem Accepted.inv (hT : CollisionFree K T) {s : ChainState} (h : Accepted K T fTestNet g s) :
    AcceptedInv K fTestNet g s := by
  induction h with
  | genesis =>
    refine ⟨?_, by simp, by simp, ?_, by simp, by simp [consumed]⟩
    · simp [HeightsFall, ancestorsOf]
    · intro hash idx h
      cases h
  | @connect s env pos block pindex' txdb' hacc htest hholds hmem htime hconn ih =>
    obtain ⟨hchain, hset⟩ := hacc.reachable.inv hT
    obtain ⟨l, hb⟩ := connectBlock_spec hconn
    have hok : LedgerOk K T (txsOf ((pindex', block) :: s.blocks)) :=
      (hb.ledgerOk hT hholds hmem (hchain.ledgerOk hT) hset).1
    exact ih.step hT hok hset htest hholds htime hb

/-! ## 5. No double spend -/

/-- What an input consumes was created by an older transaction. -/
theorem LedgerOk.spends_older {tx : CTransaction} {older : List CTransaction} {o : COutPoint}
    (ho : o ∈ tx.spends) :
    ∀ {newer : List CTransaction}, LedgerOk K T (newer ++ tx :: older) →
      ∃ t ∈ older, o ∈ t.creates K
  | [], hok => exists_creator (hok.1.move.ins_mem o ho)
  | _ :: _, hok => LedgerOk.spends_older ho hok.2

/-- **No double spend.**  Along an accepted chain no outpoint is consumed twice, whether by two
inputs of one transaction, by two transactions of one block or by transactions of different
blocks; and what an input consumes was created by an earlier transaction of the chain. -/
theorem no_double_spend (hT : CollisionFree K T) {s : ChainState}
    (h : Accepted K T fTestNet g s) :
    ((txsOf s.blocks).flatMap CTransaction.spends).Nodup ∧
      ∀ newer tx older, txsOf s.blocks = newer ++ tx :: older →
        ∀ o ∈ tx.spends, ∃ t ∈ older, o ∈ t.creates K := by
  have hok := (h.reachable.inv hT).1.ledgerOk hT
  refine ⟨?_, ?_⟩
  · rw [← consumed_ledgerOf (K := K)]
    exact consumed_nodup hok.valid (nodup_created hok (h.inv hT).txids)
  · intro newer tx older heq o ho
    rw [heq] at hok
    exact hok.spends_older ho

end Breakout
