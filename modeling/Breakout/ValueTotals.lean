/-
# Balances and totals

An address has three sums: its balance, and the totals of what came in and of what went out.  The
balance counts every input and output; the totals leave out those of a coinstake that pays back to
the address it stakes from.  Whether it does is read off its first input and its second output,
though, and nothing in the rules for blocks keeps a coinstake from spending from more addresses than
that, from paying more, or from paying less than it spends.

So the balance is the difference of the totals exactly where these coinstakes return to every address
what they take from it (`totals_iff`).  The map in memory plays no part in it: a run with aborted
calls and restarts leaves the records of one without (`Explored.settled`).
-/
import Breakout.ExploreRuns

namespace Breakout

open Lib

/-! ## 1. What the totals of a book leave out -/

/-- How far the balance is from the difference of the totals. -/
def Book.gap (b : Book) : Int := b.balance - (b.valueIn - b.valueOut)

/-- What an entry adds to that. -/
def Entry.gap (x : Entry) : Int :=
  if x.tx.fEconomicEvents then 0
  else if x.prevout.isSome then -x.txOut.nValue.toInt
  else x.txOut.nValue.toInt

theorem gap_apply (x : Entry) (b : Book) : (x.apply b).gap = b.gap + x.gap := by
  obtain ⟨key, t, n, prevout, txOut⟩ := x
  cases prevout with
  | none =>
    cases heco : t.fEconomicEvents <;>
      simp only [Entry.apply, Entry.gap, Book.credit, Book.gap, heco, Option.isSome_none,
        if_true, Bool.false_eq_true, if_false] <;> omega
  | some prevout =>
    cases heco : t.fEconomicEvents <;>
      simp only [Entry.apply, Entry.gap, Book.debit, Book.gap, heco, Option.isSome_some,
        if_true, Bool.false_eq_true, if_false] <;> omega

theorem gap_booksOf_cons (x : Entry) (h : List Entry) (key : AddrKey) :
    (booksOf (x :: h) key).gap = (booksOf h key).gap + if x.key = key then x.gap else 0 := by
  by_cases hkey : x.key = key
  · subst hkey
    rw [booksOf_self, gap_apply, if_pos rfl]
  · rw [booksOf_of_ne (Ne.symm hkey), if_neg hkey, Int.add_zero]

section

variable (K : Crypto) (X : Explorer)

/-- What a list of outputs is worth to an address. -/
def paidTo (key : AddrKey) (outs : List CTxOut) : Int :=
  (outs.map fun txOut => if payee K X txOut = .address key then txOut.nValue.toInt else 0).sum

/-- What a transaction pays an address more than it takes from it, where its debits and credits are
not recorded. -/
noncomputable def washed (T : Set CTransaction) (key : AddrKey) (tx : CTransaction) : Int :=
  if fEconomicEvents K X tx (prevOutsIn K T tx) then 0
  else paidTo K X key tx.vout - paidTo K X key (prevOutsIn K T tx)

end

variable {K : Crypto} {X : Explorer} {T : Set CTransaction} {fTestNet : Bool} {g : IndexedBlock}
  {p : BlockPtr} {e : ExploreState}

theorem gap_enter (t : TxAt) (n : UInt32) (prevout : Option COutPoint) (txOut : CTxOut)
    (h : List Entry) (key : AddrKey) :
    (booksOf (enter K X t n prevout txOut h) key).gap = (booksOf h key).gap +
      if payee K X txOut = .address key then (⟨key, t, n, prevout, txOut⟩ : Entry).gap else 0 := by
  unfold enter
  cases hp : payee K X txOut with
  | address key' =>
    rw [gap_booksOf_cons]
    by_cases hkey : key' = key
    · subst hkey
      simp
    · simp [hkey]
  | insoluble => simp
  | bad => simp
  | other => simp

theorem gap_enterInputs (t : TxAt) (key : AddrKey) :
    ∀ (ins : List (CTxIn × CTxOut)) (n : Nat) (h : List Entry),
      (booksOf (enterInputs K X t n ins h) key).gap = (booksOf h key).gap -
        if t.fEconomicEvents then 0 else paidTo K X key (ins.map Prod.snd)
  | [], n, h => by simp [enterInputs, paidTo]
  | (txIn, txOut) :: ins, n, h => by
    rw [enterInputs, gap_enterInputs t key ins, gap_enter]
    cases heco : t.fEconomicEvents <;> by_cases hp : payee K X txOut = .address key <;>
      simp [paidTo, Entry.gap, heco, hp]
    omega

theorem gap_enterOutputs (t : TxAt) (key : AddrKey) :
    ∀ (outs : List CTxOut) (n : Nat) (h : List Entry),
      (booksOf (enterOutputs K X t n outs h) key).gap = (booksOf h key).gap +
        if t.fEconomicEvents then 0 else paidTo K X key outs
  | [], n, h => by simp [enterOutputs, paidTo]
  | txOut :: outs, n, h => by
    rw [enterOutputs, gap_enterOutputs t key outs, gap_enter]
    cases heco : t.fEconomicEvents <;> by_cases hp : payee K X txOut = .address key <;>
      simp [paidTo, Entry.gap, heco, hp]
    omega

/-- A transaction has no more previous outputs than inputs. -/
theorem length_prevOutsIn_le (tx : CTransaction) :
    (prevOutsIn K T tx).length ≤ tx.vin.length := by
  have hspends : tx.spends.length ≤ tx.vin.length := by
    unfold CTransaction.spends
    split <;> simp
  exact (List.length_filterMap_le ..).trans hspends

/-- **The books of a chain are off by what its unrecorded coinstakes do not return.** -/
theorem gap_entriesOf (key : AddrKey) : ∀ l : List PlacedTx,
    (booksOf (entriesOf K X T l) key).gap = (l.map fun q => washed K X T key q.tx).sum
  | [] => rfl
  | q :: l => by
    have hins : (q.tx.vin.zip (prevOutsIn K T q.tx)).map Prod.snd = prevOutsIn K T q.tx :=
      List.map_snd_zip (length_prevOutsIn_le q.tx)
    have heco : (q.txAt K X T).fEconomicEvents =
        fEconomicEvents K X q.tx (prevOutsIn K T q.tx) := rfl
    rw [entriesOf, enterTx, gap_enterOutputs, gap_enterInputs, gap_entriesOf key l, hins, heco,
      List.map_cons, List.sum_cons, washed]
    split <;> omega

/-! ## 2. The map in memory is not read -/

/-- What a step does to the database, and whether it succeeds, is the same with any map. -/
def IgnoresMap (f : ExploreState → Bool × ExploreState) : Prop :=
  ∀ e m, ∃ m', f ⟨e.db, m⟩ = ((f e).1, ⟨(f e).2.db, m'⟩)

/-- One step after another, if the first succeeds. -/
theorem IgnoresMap.seq {f f' : ExploreState → Bool × ExploreState} (hf : IgnoresMap f)
    (hf' : IgnoresMap f') :
    IgnoresMap fun e =>
      match f e with
      | (false, e') => (false, e')
      | (true, e') => f' e' := by
  intro e m
  obtain ⟨m₁, h₁⟩ := hf e m
  dsimp only
  rw [h₁]
  obtain ⟨ok, e₁⟩ := f e
  cases ok with
  | false => exact ⟨m₁, rfl⟩
  | true => exact hf' e₁ m₁

section

variable {env : NodeEnv} {txdb : TxDB} {mi : Option ExploreIndex} {block : CBlock}

variable {hashBlock h : UInt256} {nBlockTime : UInt32} {tx : CTransaction}

theorem ignoresMap_connectTx {nHeight nVtx : Int} :
    IgnoresMap (exploreConnectTx K X env txdb hashBlock nBlockTime nHeight nVtx tx) := by
  intro e m
  unfold exploreConnectTx
  cases explorePrevOuts env txdb tx with
  | error err => exact ⟨m, rfl⟩
  | ok prevs => exact ⟨_, rfl⟩

theorem ignoresMap_disconnectTx :
    IgnoresMap (exploreDisconnectTx K X env txdb tx) := by
  intro e m
  unfold exploreDisconnectTx
  cases explorePrevOuts env txdb tx with
  | error err => exact ⟨m, rfl⟩
  | ok prevs => exact ⟨_, rfl⟩

theorem ignoresMap_connectTxs {nHeight : Int} :
    ∀ (vtx : List CTransaction) (nVtx : Int),
      IgnoresMap (exploreConnectTxs K X env txdb hashBlock nBlockTime nHeight nVtx vtx)
  | [], _ => fun _ m => ⟨m, rfl⟩
  | _ :: vtx, nVtx => ignoresMap_connectTx.seq (ignoresMap_connectTxs vtx (nVtx + 1))

theorem ignoresMap_disconnectTxs :
    ∀ vtx : List CTransaction, IgnoresMap (exploreDisconnectTxs K X env txdb vtx)
  | [] => fun _ m => ⟨m, rfl⟩
  | _ :: vtx => ignoresMap_disconnectTx.seq (ignoresMap_disconnectTxs vtx)

theorem ignoresMap_connectBlock :
    IgnoresMap (exploreConnectBlock K X env txdb h mi block) := by
  intro e m
  cases mi with
  | none => exact ⟨m, rfl⟩
  | some pindex =>
    unfold exploreConnectBlock
    dsimp only
    set begun := if pindex.pprev = none then { e with db := { e.db with sentinel := some 0 } } else e
      with hbegun
    have hmap : (if pindex.pprev = none then
        (⟨{ e.db with sentinel := some 0 }, m⟩ : ExploreState) else ⟨e.db, m⟩) =
          ⟨begun.db, m⟩ := by
      rw [hbegun]
      split <;> rfl
    have hloop : IgnoresMap
        (exploreConnectTxs K X env txdb h pindex.nTime pindex.nHeight 0 block.vtx) :=
      ignoresMap_connectTxs block.vtx 0
    obtain ⟨m₁, h₁⟩ := hloop begun m
    rw [hmap, h₁]
    obtain ⟨ok, e₁⟩ := exploreConnectTxs K X env txdb h pindex.nTime pindex.nHeight 0 block.vtx begun
    cases ok with
    | false => exact ⟨m₁, rfl⟩
    | true => exact ⟨m₁, rfl⟩

theorem ignoresMap_disconnectBlock :
    IgnoresMap (exploreDisconnectBlock K X env txdb mi block) := by
  intro e m
  have hloop : IgnoresMap (exploreDisconnectTxs K X env txdb block.vtx.reverse) :=
    ignoresMap_disconnectTxs block.vtx.reverse
  obtain ⟨m₁, h₁⟩ := hloop e m
  unfold exploreDisconnectBlock
  rw [h₁]
  obtain ⟨ok, e₁⟩ := exploreDisconnectTxs K X env txdb block.vtx.reverse e
  cases ok with
  | false => exact ⟨m₁, rfl⟩
  | true =>
    dsimp only
    split <;> exact ⟨m₁, rfl⟩

/-- A call that fails leaves the database. -/
theorem db_of_connectBlock_false {e e' : ExploreState}
    (hrun : exploreConnectBlock K X env txdb h mi block e = (false, e')) : e'.db = e.db := by
  unfold exploreConnectBlock at hrun
  cases mi with
  | none =>
    cases hrun
    rfl
  | some pindex =>
    dsimp only at hrun
    split at hrun <;> cases hrun
    rfl

theorem db_of_disconnectBlock_false {e e' : ExploreState}
    (hrun : exploreDisconnectBlock K X env txdb mi block e = (false, e')) : e'.db = e.db := by
  unfold exploreDisconnectBlock at hrun
  split at hrun
  · cases hrun
    rfl
  · split at hrun <;> cases hrun

end

/-- **A run with aborted calls and restarts** has the database of one without. -/
theorem Explored.settled {C : BlockPtr → Prop} {A : List PlacedTx → List PlacedTx → Prop}
    (h : Explored K X T fTestNet g C A p e) :
    ∃ m, Explored K X T fTestNet g C (fun _ _ => False) p ⟨e.db, m⟩ := by
  induction h with
  | genesis hempty hf hrun => exact ⟨_, .genesis hempty hf hrun⟩
  | connect _ hchain hc hf hrun ih =>
    obtain ⟨m, hm⟩ := ih
    obtain ⟨m', hrun'⟩ := ignoresMap_connectBlock _ m
    rw [hrun] at hrun'
    exact ⟨m', .connect hm hchain hc hf hrun'⟩
  | disconnect _ hf hrun ih =>
    obtain ⟨m, hm⟩ := ih
    obtain ⟨m', hrun'⟩ := ignoresMap_disconnectBlock _ m
    rw [hrun] at hrun'
    exact ⟨m', .disconnect hm hf hrun'⟩
  | connectAborted _ _ _ _ hrun _ ih =>
    rw [db_of_connectBlock_false hrun]
    exact ih
  | disconnectAborted _ _ hrun _ ih =>
    rw [db_of_disconnectBlock_false hrun]
    exact ih
  | restart _ _ ih => exact ih

/-! ## 3. The records -/

/-- The records of a book that is in order. -/
theorem Represents.gap_eq_zero_iff {r : AddrRecords} {b : Book} (h : Represents r b) (hok : b.Ok)
    (hs : b.Small) :
    r.balance.getD 0 = r.valueIn.getD 0 - r.valueOut.getD 0 ↔ b.gap = 0 := by
  have hbalance := hok.balance_nonneg
  have hin := hok.valueIn_nonneg
  have hout := hok.valueOut_nonneg
  obtain ⟨-, hbalance', hin', hout'⟩ := hs
  rw [h.balance, h.valueIn, h.valueOut, ← Int64.ofInt_sub, ofInt_eq_ofInt_iff, Int.modEq_iff_dvd,
    Book.gap]
  constructor
  · rintro ⟨k, hk⟩
    omega
  · intro hgap
    exact ⟨0, by omega⟩

/-- **When the balance is the difference of the totals**, after any calls, aborted ones and restarts
among them: for the coinstakes whose debits and credits are not recorded, what they pay the address
comes to what they take from it. -/
theorem totals_iff (hT : CollisionFree K T)
    (h : Explored K X T fTestNet g (Bounded K X T) (fun _ _ => True) p e) (key : AddrKey) :
    (e.db.addr key).balance.getD 0 =
        (e.db.addr key).valueIn.getD 0 - (e.db.addr key).valueOut.getD 0 ↔
      ((chainTxs p).map fun q => washed K X T key q.tx).sum = 0 := by
  obtain ⟨m, hrun⟩ := h.settled
  have hinv := hrun.inv hT (fun _ hc => hc) fun _ _ => False.elim
  have hrecords : Represents (e.db.addr key) (booksOf (entriesOf K X T (chainTxs p)) key) :=
    hinv.describes.addr key
  rw [hrecords.gap_eq_zero_iff (hinv.ok.ok hinv.small key) (hinv.small.small key), gap_entriesOf]

/-- The coinstake of the twelfth block pays back what it takes: the address that stakes has the
premine as its balance and as its total in. -/
theorem totals_iff_wash :
    fEconomicEvents forkCrypto nameExplorer washStake
        (prevOutsAt forkCrypto washTxs washStake) = false ∧
      (washIndex.2.db.addr (stakeAddress 1)).balance.getD 0 =
        (washIndex.2.db.addr (stakeAddress 1)).valueIn.getD 0 -
          (washIndex.2.db.addr (stakeAddress 1)).valueOut.getD 0 := by
  refine ⟨by decide +kernel, (totals_iff washTxs_collisionFree
    (washIndex_explored fun q hq => (washPtr_orderly q hq).1).2 (stakeAddress 1)).mpr ?_⟩
  simp only [washed, prevOutsIn_eq washTxs_collisionFree]
  decide +kernel

/-! ## 4. A coinstake that pays another address -/

/-- A coinstake of the premine of BRX, which goes to two addresses. -/
def splitStake : CTransaction :=
  testStake [⟨7000000 * baseCoin, 1, stakeScript⟩, ⟨5500000 * baseCoin, 1, otherScript⟩]

def splitVtx (n : Nat) : List CTransaction :=
  if n = 1 then [firstCoinbase stakeScript]
  else if n = 12 then [stakeCoinbase, splitStake]
  else [testCoinbase n 0 [op1]]

def splitPtr : Nat → BlockPtr := stakePtr splitVtx

def splitTxs : List CTransaction := testGenesisCoinbase :: (List.range 13).flatMap splitVtx

def splitDisk : Disk := fun pos =>
  if pos = ⟨1, 1000, 1081⟩ then some (firstCoinbase stakeScript) else none

def splitChain : ChainState :=
  (acceptBranch forkCrypto (testEnv splitDisk) (splitPtr 12)).toOption.getD ⟨fun _ => none, []⟩

/-- Its index. -/
def splitIndex : Bool × ExploreState :=
  reindexExplore forkCrypto nameExplorer (testEnv splitDisk) splitChain.txdb (splitPtr 12)

/-- Where the rest goes, in BRX. -/
def otherAddress : AddrKey := (addressName (.scriptID (List.replicate 20 2)), 1)

theorem split_computed :
    ((∀ tx ∈ splitTxs, tx.serialize.length < 2 ^ 64) ∧
      (∀ a ∈ splitTxs, ∀ b ∈ splitTxs, a.getHash forkCrypto = b.getHash forkCrypto →
        a.hashed.serialize = b.hashed.serialize) ∧
      firstCoinbase stakeScript ∈ splitTxs ∧ ∀ q ∈ chainTxs (splitPtr 12), q.tx ∈ splitTxs) ∧
    ((acceptBranch forkCrypto (testEnv splitDisk) (splitPtr 12)).accepts = true ∧
      ∀ tx ∈ txsOf splitChain.blocks, ∀ idx ∈ splitChain.txdb (tx.getHash forkCrypto),
        ∀ tx' ∈ readPrev (testEnv splitDisk) (tx.getHash forkCrypto) idx,
          tx' ∈ splitTxs ∧ tx'.getHash forkCrypto = tx.getHash forkCrypto) ∧
    splitIndex.1 = true ∧
    (splitIndex.2.db.addr otherAddress).balance = some (5500000 * baseCoin) ∧
    (splitIndex.2.db.addr otherAddress).valueIn = none ∧
    (splitIndex.2.db.addr otherAddress).valueOut = none := by
  decide +kernel

theorem splitTxs_collisionFree : CollisionFree forkCrypto {tx | tx ∈ splitTxs} :=
  ⟨split_computed.1.1, split_computed.1.2.1⟩

theorem splitIndex_explored :
    Explored forkCrypto nameExplorer {tx | tx ∈ splitTxs} true testGenesis (fun _ => True)
      (fun _ _ => False) (splitPtr 12) splitIndex.2 := by
  obtain ⟨⟨-, -, hread, hmem⟩, ⟨haccepts, hstored⟩, hok, -⟩ := split_computed
  have hdisk : ∀ pos tx, splitDisk pos = some tx → tx ∈ splitTxs := by
    intro pos tx hpos
    unfold splitDisk at hpos
    split_ifs at hpos
    cases hpos
    exact hread
  have hbottom : (splitPtr 12).bottom.top = testGenesis := stakePtr_bottom splitVtx 12
  have hgenesis : testGenesisCoinbase ∈ splitTxs := List.mem_cons_self
  exact (explored_of_accepted (s := splitChain) splitTxs_collisionFree hdisk hmem haccepts rfl
    hstored hbottom hgenesis hok fun _ _ => trivial).2

/-- **An address with a balance and no totals.**  The twelfth block stakes the premine of BRX from
one address.  Its coinstake pays back more than half of it there, so its debits and credits are not
recorded; the rest is the balance of another address, into which nothing has come. -/
theorem split_totals_wrong :
    ∃ e, CollisionFree forkCrypto {tx | tx ∈ splitTxs} ∧
      Explored forkCrypto nameExplorer {tx | tx ∈ splitTxs} true testGenesis (fun _ => True)
        (fun _ _ => False) (splitPtr 12) e ∧
      (e.db.addr otherAddress).balance.getD 0 ≠
        (e.db.addr otherAddress).valueIn.getD 0 - (e.db.addr otherAddress).valueOut.getD 0 := by
  obtain ⟨-, -, -, hbalance, hin, hout⟩ := split_computed
  refine ⟨splitIndex.2, splitTxs_collisionFree, splitIndex_explored, ?_⟩
  rw [hbalance, hin, hout]
  decide

end Breakout
