/-
# Writing the block index

`AddToBlockIndex`, `ConnectBlock` and `DisconnectBlock` as they change the index in memory and its
records on disk.  What else the last two do to the databases, and whether they fail, is a parameter
(`IndexWork`); `nodeWork` is theirs.  `ConnectBlock` enters the counters of the block step by step
and leaves what it has entered when it fails (`connectLeft`).

The records of a branch say what is in memory and link the branch forward (`Synced`).  Each block
operation carries that to the branch it makes (`indexOps_carry`), whatever is in the links in memory,
which are changed only after the batch is committed.
-/
import Breakout.IndexRecords

namespace Breakout

open Lib Node

variable (K : Crypto)

/-! ## 1. What `ConnectBlock` leaves in the index -/

/-- The outputs of one transaction, as far as the loop gets. -/
def burnOutputsLeft (nTime : Nat) : List CTxOut → Counters → Counters
  | [], k => k
  | txout :: vout, k =>
    match solver txout.scriptPubKey with
    | (false, _, _) => if getFork nTime < .fork001 then k else burnOutputsLeft nTime vout k
    | (true, .nullData, _) =>
      match tableIndex txout.nColor with
      | .error _ => k
      | .ok c => burnOutputsLeft nTime vout (k.burn c txout.nValue)
    | (true, _, _) => burnOutputsLeft nTime vout k

/-- The outputs of all transactions, as far as the loop gets. -/
def burnTxsLeft : List CTransaction → Counters → Counters
  | [], k => k
  | tx :: vtx, k =>
    match burnOutputs tx.nTime.toNat tx.vout k with
    | .error _ => burnOutputsLeft tx.nTime.toNat tx.vout k
    | .ok k' => burnTxsLeft vtx k'

/-- "check for unspendable outputs", as far as it gets. -/
def connectBurnsLeft (pprev : CBlockIndex) (vtx : List CTransaction) (k : Counters) : Counters :=
  if burnProtocolStartTime ≤ pprev.nTime.toNat then burnTxsLeft vtx k else k

/-- The index `ConnectBlock` leaves, wherever it returns. -/
def connectLeft (ctx : ConnectCtx) (block : CBlock) : CBlockIndex :=
  match checkBlock K ctx.env.clock ⟨ctx.txdb, ctx.env.disk⟩ block (!ctx.fJustCheck)
      (!ctx.fJustCheck) false with
  | .error _ => ctx.pindex
  | .ok _ =>
    -- the totals of the parent are entered before the first transaction is looked at
    let started := { ctx.pindex with vTotalMint := totalMintPrev ctx.pprev ctx.pindex }
    match connectTxs K ctx block.vtx
        (.init ctx.env.clock.nAdjustedTime ctx.pindex ctx.fJustCheck block.vtx) with
    | .error _ => started
    | .ok s =>
      match connectReward ctx block.vtx s with
      | .error _ => started
      | .ok vTotalMint =>
        finishIndex ctx block.vtx s
          (connectBurnsLeft ctx.pprev block.vtx ⟨vTotalMint, moneySupply ctx s⟩)

/-! ## 2. The block operations -/

/-- What `ConnectBlock` and `DisconnectBlock` do besides the index: what they make of the rest of the
batch, unless they fail, and the counters the first leaves in memory. -/
structure IndexWork (D : Type) where
  connect : BlockPtr → D → IndexMemory → Option D × SupplyFields
  disconnect : BlockPtr → D → Option D

/-- A `CBlockIndex` with these fields. -/
def BlockPtr.toIndex (p : BlockPtr) (fields : IndexFields) : CBlockIndex where
  nFile := p.top.pos.nFile
  nBlockPos := p.top.pos.nBlockPos
  nHeight := p.height
  nTime := p.top.block.nTime
  nVersion := p.top.block.nVersion
  vTotalMint := fields.supply.vTotalMint
  vMoneySupply := fields.supply.vMoneySupply
  vCoinbase := fields.supply.vCoinbase
  nStakeColor := fields.supply.nStakeColor
  nCoinbaseColor := fields.supply.nCoinbaseColor

/-- The counters of a `CBlockIndex`. -/
def SupplyFields.ofIndex (pindex : CBlockIndex) : SupplyFields where
  vCoinbase := pindex.vCoinbase
  nCoinbaseColor := pindex.nCoinbaseColor
  nStakeColor := pindex.nStakeColor
  vMoneySupply := pindex.vMoneySupply
  vTotalMint := pindex.vTotalMint

/-- The work of `ConnectBlock` and `DisconnectBlock`, on the index that is in memory. -/
def nodeWork (env : NodeEnv) : IndexWork TxDB where
  connect p txdb mem :=
    match p.parent? with
    | none => (none, (mem p).supply)
    | some q =>
      let ancestors := q.ancestors.tail.map fun r => BlockPtr.toIndex r (mem r)
      let ctx : ConnectCtx :=
        ⟨env, txdb, BlockPtr.toIndex p (mem p), BlockPtr.toIndex q (mem q), ancestors,
          p.top.block.isProofOfStake, false⟩
      match connectBlock K env txdb ctx.pindex ctx.pprev ancestors p.top.block false with
      | .ok (pindex', txdb') => (some txdb', .ofIndex pindex')
      | .error _ => (none, .ofIndex (connectLeft K ctx p.top.block))
  disconnect p txdb := (disconnectBlock K env txdb p.top.block).toOption

/-- The index in memory with other counters of a block. -/
def IndexMemory.enter (mem : IndexMemory) (p : BlockPtr) (supply : SupplyFields) : IndexMemory :=
  Function.update mem p { mem p with supply := supply }

/-- The records `ConnectBlock` writes: the block's own and, "without changing it in memory", its
parent's with the link forward. -/
def connectRecords (clock : IndexClock) (pnext : BlockPtr → Option BlockPtr) (mem : IndexMemory)
    (p : BlockPtr) (records : Records) : Run Records := do
  let records' ← writeBlockIndex K clock (.ofIndex (mem p) (pnext p) p) records
  match p.parent? with
  | none => return records'
  | some q =>
    writeBlockIndex K clock { IndexRecord.ofIndex (mem q) (pnext q) q with hashNext := p.hash }
      records'

/-- The record `DisconnectBlock` writes: the parent's, without a link forward. -/
def disconnectRecords (clock : IndexClock) (pnext : BlockPtr → Option BlockPtr)
    (mem : IndexMemory) (p : BlockPtr) (records : Records) : Run Records :=
  match p.parent? with
  | none => return records
  | some q =>
    writeBlockIndex K clock { IndexRecord.ofIndex (mem q) (pnext q) q with hashNext := 0 } records

variable {D : Type}

/-- The block operations with the index. -/
def indexOps (clock : IndexClock) (work : IndexWork D) : BlockOps (D × Records) IndexMemory where
  connectBlock pnext p db mem :=
    let mem' := mem.enter p (work.connect p db.1 mem).2
    match (work.connect p db.1 mem).1, connectRecords K clock pnext mem' p db.2 with
    | some d, .ok records => (some (d, records), mem')
    | _, _ => (none, mem')
  disconnectBlock pnext p db mem :=
    match work.disconnect p db.1, disconnectRecords K clock pnext mem p db.2 with
    | some d, .ok records => (some (d, records), mem)
    | _, _ => (none, mem)

/-! ## 3. `AddToBlockIndex` -/

/-- A node whose databases have the records of its index. -/
abbrev IndexNode (D : Type) := Node (D × Records) IndexMemory

/-- What `AddToBlockIndex` is given with a block, and what it reads besides the index.
`computeNextStakeModifier` is `none` where the function fails. -/
structure AddEnv where
  clock : IndexClock
  hashGenesisBlock : UInt256
  checkpoints : Nat → Option UInt32
  hashProof : UInt256
  computeNextStakeModifier : Option BlockPtr → Option (UInt256 × Bool)

namespace IndexNode

/-- The first part of `AddToBlockIndex`: a new index in memory, and its record, which is committed at
once.  `none` where it returns false, or throws. -/
def indexNew (env : AddEnv) (n : IndexNode D) (b : IndexedBlock) : Option (IndexNode D) := do
  let p := n.newPtr b
  if (n.mapBlockIndex b.hash).isSome then none
  else
    let (bnStakeModifier, fGenerated) ← env.computeNextStakeModifier p.parent?
    let stake := StakeFields.new b.block b.hash env.hashProof bnStakeModifier fGenerated
    let checksum ← (getStakeModifierChecksum K env.hashGenesisBlock
      (p.parent?.map fun q => (n.exploredb q).nStakeModifierChecksum) b.hash stake).toOption
    if checkStakeModifierCheckpoints env.checkpoints p.height checksum = false then none
    else
      let fields : IndexFields := ⟨stake, checksum, .new b.block⟩
      let records ← (writeBlockIndex K env.clock (.ofIndex fields none p) n.txdb.2).toOption
      return { n.index b with
        txdb := (n.txdb.1, records), exploredb := Function.update n.exploredb p fields }

def addToBlockIndex (env : AddEnv) (work : IndexWork D) (fIsInitialDownload : Bool)
    (n : IndexNode D) (b : IndexedBlock) : Bool × IndexNode D :=
  match indexNew K env n b with
  | none => (false, n)
  | some n' =>
    if (n.newPtr b).nChainTrust > n.nBestChainTrust then
      setBestChain (indexOps K env.clock work) env.hashGenesisBlock fIsInitialDownload n'
        (n.newPtr b)
    else (true, n')

end IndexNode

/-! ## 4. Records that say what is in memory -/

/-- The records are those of the index in memory, with these links forward, and there are no
others. -/
structure Synced (known : BlockPtr → Prop) (links : BlockPtr → Option BlockPtr)
    (mem : IndexMemory) (records : Records) : Prop where
  record : ∀ {p : BlockPtr}, known p → records p.hash = some (storedRecord (mem p) (links p) p)
  only : ∀ {h : UInt256} {r : IndexRecord}, records h = some r → ∃ p, known p ∧ p.hash = h

/-- Two indices in memory agree but for the counters. -/
def SameStakes (mem mem' : IndexMemory) : Prop :=
  ∀ p, (mem' p).stake = (mem p).stake ∧
    (mem' p).nStakeModifierChecksum = (mem p).nStakeModifierChecksum

variable {K} {known : BlockPtr → Prop} {links : BlockPtr → Option BlockPtr} {mem : IndexMemory}
  {records : Records} {p q : BlockPtr} {b : IndexedBlock}

theorem SameStakes.refl (mem : IndexMemory) : SameStakes mem mem := fun _ => ⟨rfl, rfl⟩

theorem SameStakes.trans {a b c : IndexMemory} (h : SameStakes a b) (h' : SameStakes b c) :
    SameStakes a c := fun p => ⟨(h' p).1.trans (h p).1, (h' p).2.trans (h p).2⟩

theorem IndexMemory.enter_sameStakes (mem : IndexMemory) (p : BlockPtr) (supply : SupplyFields) :
    SameStakes mem (mem.enter p supply) := by
  intro q
  unfold IndexMemory.enter
  by_cases hq : q = p
  · subst hq
    rw [Function.update_self]
    exact ⟨rfl, rfl⟩
  · rw [Function.update_of_ne hq]
    exact ⟨rfl, rfl⟩

theorem IndexMemory.enter_of_ne {supply : SupplyFields} (h : q ≠ p) :
    mem.enter p supply q = mem q := Function.update_of_ne h ..

/-- Writing the record of one block over records that are in step but for it. -/
theorem Synced.write {mem' : IndexMemory} {links' : BlockPtr → Option BlockPtr}
    (h : Synced known links mem records)
    (hinj : ∀ {p q : BlockPtr}, known p → known q → p.hash = q.hash → p = q) (hp : known p)
    (hmem : ∀ q, q ≠ p → mem' q = mem q) (hlinks : ∀ q, q ≠ p → links' q = links q) :
    Synced known links' mem'
      (Function.update records p.hash (some (storedRecord (mem' p) (links' p) p))) := by
  constructor
  · intro q hq
    by_cases hqp : q = p
    · subst hqp
      exact Function.update_self ..
    · have hne : q.hash ≠ p.hash := fun heq => hqp (hinj hq hp heq)
      rw [Function.update_of_ne hne, hmem q hqp, hlinks q hqp]
      exact h.record hq
  · intro hash r hr
    by_cases hh : hash = p.hash
    · exact ⟨p, hp, hh.symm⟩
    · rw [Function.update_of_ne hh] at hr
      exact h.only hr

/-- **The block operations keep the records in step.**  The records of a branch, with the counters in
memory, become those of the branch the operation makes. -/
theorem indexOps_carry (clock : IndexClock) (work : IndexWork D) (mem₀ : IndexMemory)
    (hinj : ∀ {p q : BlockPtr}, known p → known q → p.hash = q.hash → p = q)
    (hhonest : ∀ {p : BlockPtr}, known p → HonestIndex K p)
    (hparent : ∀ {p q : BlockPtr}, known p → p.parent? = some q → known q) :
    Carry (indexOps K clock work) (fun pnext p => known p ∧ pnext p = none) known
      fun p db mem => Synced known p.next mem db.2 ∧ SameStakes mem₀ mem := by
  constructor
  · rintro pnext b q ⟨d, records⟩ db' mem mem' ⟨hp, hnone⟩ hop ⟨hsync, hstakes⟩
    have hq : known q := hparent hp rfl
    simp only [indexOps] at hop
    generalize hsupply : (work.connect (.child b q) d mem).2 = supply at hop
    have hsame : SameStakes mem (mem.enter (.child b q) supply) := mem.enter_sameStakes _ _
    -- the block's own record first, and then its parent's
    have hself : Synced known q.next (mem.enter (.child b q) supply) _ :=
      hsync.write hinj hp (fun r hr => IndexMemory.enter_of_ne hr) fun _ _ => rfl
    have hlink : q.next (.child b q) = none := Branch.next_eq_none_of_le (Nat.le_succ _)
    have hnext : Synced known (Branch.child b q).next (mem.enter (.child b q) supply) _ :=
      hself.write hinj hq (fun _ _ => rfl)
        fun r hr => by rw [Branch.next_child, Function.update_of_ne hr]
    have hrecords : connectRecords K clock pnext (mem.enter (.child b q) supply) (.child b q)
        records = .ok (Function.update (Function.update records (BlockPtr.hash (.child b q))
          (some (storedRecord (mem.enter (.child b q) supply (.child b q)) (q.next (.child b q))
            (.child b q)))) (BlockPtr.hash q)
          (some (storedRecord (mem.enter (.child b q) supply q) ((Branch.child b q).next q) q))) := by
      have hforward : (Branch.child b q).next q = some (.child b q) := by
        rw [Branch.next_child, Function.update_self]
      unfold connectRecords
      rw [hnone, ← hlink, (hhonest hp).write, hforward]
      exact (hhonest hq).write clock _ (some (.child b q)) _
    rw [hrecords] at hop
    split at hop
    · next hok =>
      cases hop
      cases hok
      exact ⟨hnext, hstakes.trans hsame⟩
    · cases hop
  · rintro pnext b q ⟨d, records⟩ db' mem mem' hp hop ⟨hsync, hstakes⟩
    have hq : known q := hparent hp rfl
    simp only [indexOps] at hop
    have hnext : Synced known q.next mem _ :=
      hsync.write hinj hq (fun _ _ => rfl)
        fun r hr => by rw [Branch.next_child, Function.update_of_ne hr]
    have hrecords : disconnectRecords K clock pnext mem (.child b q) records =
        .ok (Function.update records (BlockPtr.hash q)
          (some (storedRecord (mem q) (q.next q) q))) := by
      rw [Branch.next_eq_none_of_le (le_refl q.height)]
      exact (hhonest hq).write clock _ none _
    rw [hrecords] at hop
    split at hop
    · next hok =>
      cases hop
      cases hok
      exact ⟨hnext, hstakes⟩
    · cases hop

end Breakout
