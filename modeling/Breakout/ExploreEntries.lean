/-
# Entries of the books

Every input and output of a transaction that pays or spends from an address is an `Entry` of that
address's book, a debit or a credit.  The books of all addresses are what a list of entries, the
newest first, leaves (`booksOf`).

The loops of `ExploreConnectTx` enter the inputs and outputs of a transaction one by one, and those
of `ExploreDisconnectTx` take them back from the last to the first.  Both are followed here with
the books beside them: where each entry fits the book it is entered in (`EntriesOk`) and no book
outgrows the machine (`EntriesSmall`), the records mirror the books after every routine, and the
only routines that stop are those for scripts no address can be read from.
-/
import Breakout.RichList

namespace Breakout

open Lib

/-! ## 1. Entries and books -/

/-- An input or an output that concerns an address; `prevout` is what an input spends. -/
structure Entry where
  key : AddrKey
  tx : TxAt
  n : UInt32
  prevout : Option COutPoint
  txOut : CTxOut

/-- The debit or the credit. -/
def Entry.apply (x : Entry) (b : Book) : Book :=
  match x.prevout with
  | some prevout => b.debit x.tx x.n prevout x.txOut
  | none => b.credit x.tx x.n x.txOut

/-- The books after a list of entries, the newest first. -/
def booksOf : List Entry → Books
  | [] => fun _ => .empty
  | x :: h => Function.update (booksOf h) x.key (x.apply (booksOf h x.key))

/-- An entry fits a book: an output is new there, and an input spends an unspent output of its
value that is not of its own transaction. -/
structure Entry.Fits (x : Entry) (b : Book) : Prop where
  txid_ne : x.tx.txid ≠ 0
  value : 0 ≤ x.txOut.nValue.toInt
  current : b.Current x.tx
  fresh : x.prevout = none → ∀ o ∈ b.outputs, o.outpoint ≠ ⟨x.tx.txid, x.n⟩
  spends : ∀ prevout, x.prevout = some prevout →
    (∃ o ∈ b.outputs, o.outpoint = prevout ∧ o.isSpent = false ∧ o.amount = x.txOut.nValue) ∧
      ∀ o ∈ b.outputs, o.txid ≠ x.tx.txid

/-- Every entry fits the book it is entered in. -/
def EntriesOk : List Entry → Prop
  | [] => True
  | x :: h => x.Fits (booksOf h x.key) ∧ EntriesOk h

/-- No book ever outgrows the machine. -/
def EntriesSmall : List Entry → Prop
  | [] => True
  | x :: h => (booksOf (x :: h) x.key).Small ∧ EntriesSmall h

theorem Book.empty_ok : Book.empty.Ok := by
  refine ⟨List.nodup_nil, nofun, nofun, rfl, le_rfl, le_rfl, le_rfl, ?_, ?_, ?_⟩
  · intro k hk
    cases hk
  · intro k o hk
    cases hk
  · exact ⟨nofun, nofun, List.nodup_nil, nofun, List.nodup_nil, rfl⟩

theorem Book.empty_small : Book.empty.Small := by
  constructor <;> decide

theorem represents_empty : Represents .empty .empty :=
  ⟨⟨rfl, rfl⟩, ⟨rfl, rfl⟩, ⟨⟨rfl, rfl⟩, ⟨rfl, rfl⟩⟩, rfl, rfl, rfl, rfl⟩

theorem booksOf_self (x : Entry) (h : List Entry) :
    booksOf (x :: h) x.key = x.apply (booksOf h x.key) :=
  Function.update_self ..

variable {h : List Entry}

theorem booksOf_of_ne {x : Entry} {key : AddrKey} (hkey : key ≠ x.key) :
    booksOf (x :: h) key = booksOf h key :=
  Function.update_of_ne hkey ..

theorem EntriesSmall.small (hs : EntriesSmall h) (key : AddrKey) :
    (booksOf h key).Small := by
  induction h with
  | nil => exact Book.empty_small
  | cons x h ih =>
    by_cases hkey : key = x.key
    · exact hkey ▸ hs.1
    · rw [booksOf_of_ne hkey]
      exact ih hs.2

/-- **The books of entries that fit are in order.** -/
theorem EntriesOk.ok (hok : EntriesOk h) (hs : EntriesSmall h) (key : AddrKey) :
    (booksOf h key).Ok := by
  induction h with
  | nil => exact Book.empty_ok
  | cons x h ih =>
    by_cases hkey : key = x.key
    · subst hkey
      have hbook := ih hok.2 hs.2
      have hbefore := hs.2.small x.key
      have hafter := hs.1
      have hfits := hok.1
      rw [booksOf_self] at hafter ⊢
      obtain ⟨key, t, n, prevout, txOut⟩ := x
      cases prevout with
      | none =>
        exact hbook.credit hafter (hfits.fresh rfl) hfits.value hfits.txid_ne hfits.current
      | some prevout =>
        obtain ⟨⟨o, ho, hpoint, hunspent, hamount⟩, hold⟩ := hfits.spends prevout rfl
        exact hbook.debit hbefore ho hpoint hunspent hamount hfits.txid_ne hfits.current hold
    · rw [booksOf_of_ne hkey]
      exact ih hok.2 hs.2

/-! ## 2. Entering inputs and outputs -/

variable (K : Crypto) (X : Explorer)

/-- An input or output is entered if its script names an address. -/
def enter (t : TxAt) (n : UInt32) (prevout : Option COutPoint) (txOut : CTxOut)
    (h : List Entry) : List Entry :=
  match payee K X txOut with
  | .address key => ⟨key, t, n, prevout, txOut⟩ :: h
  | _ => h

/-- Inputs, with their previous outputs, from number `n` on. -/
def enterInputs (t : TxAt) : Nat → List (CTxIn × CTxOut) → List Entry → List Entry
  | _, [], h => h
  | n, (txIn, txOut) :: rest, h =>
    enterInputs t (n + 1) rest (enter K X t (UInt32.ofNat n) (some txIn.prevout) txOut h)

/-- Outputs, from number `n` on. -/
def enterOutputs (t : TxAt) : Nat → List CTxOut → List Entry → List Entry
  | _, [], h => h
  | n, txOut :: rest, h =>
    enterOutputs t (n + 1) rest (enter K X t (UInt32.ofNat n) none txOut h)

/-- The routines the first loop of `ExploreConnectTx` runs. -/
def connectInputRoutines (t : TxAt) : Nat → List (CTxIn × CTxOut) → List (Txn ExploreWork Unit)
  | _, [] => []
  | n, (txIn, txOut) :: rest =>
    exploreConnectInput K X t.nHeight t.nVtx t.txid (UInt32.ofNat n) txIn txOut
      t.fEconomicEvents :: connectInputRoutines t (n + 1) rest

/-- The routines its second loop runs. -/
def connectOutputRoutines (t : TxAt) (tx : CTransaction) :
    Nat → List CTxOut → List (Txn ExploreWork Unit)
  | _, [] => []
  | n, txOut :: rest =>
    exploreConnectOutput K X t.nHeight t.nVtx tx t.txid n txOut t.fEconomicEvents ::
      connectOutputRoutines t tx (n + 1) rest

/-- The routines the first loop of `ExploreDisconnectTx` runs. -/
def disconnectOutputRoutines (t : TxAt) : Nat → List CTxOut → List (Txn ExploreWork Unit)
  | _, [] => []
  | n, txOut :: rest =>
    disconnectOutputRoutines t (n + 1) rest ++
      [exploreDisconnectOutput K X t.txid n txOut t.fEconomicEvents]

/-- The routines its second loop runs. -/
def disconnectInputRoutines (t : TxAt) : Nat → List (CTxIn × CTxOut) → List (Txn ExploreWork Unit)
  | _, [] => []
  | n, (txIn, txOut) :: rest =>
    disconnectInputRoutines t (n + 1) rest ++
      [exploreDisconnectInput K X t.txid (UInt32.ofNat n) txIn txOut t.fEconomicEvents]

variable {K} {X} {t : TxAt}

variable {ins : List (CTxIn × CTxOut)} {outs : List CTxOut} {prevout : Option COutPoint}

theorem exploreConnectInputs_eq {n : Nat} {w : ExploreWork} :
    exploreConnectInputs K X t.nHeight t.nVtx t.txid t.fEconomicEvents n ins w =
      Txn.leftAll (connectInputRoutines K X t n ins) w := by
  induction ins generalizing n w with
  | nil => rfl
  | cons p ins ih => exact ih

theorem exploreConnectOutputs_eq {tx : CTransaction} {n : Nat} {w : ExploreWork} :
    exploreConnectOutputs K X t.nHeight t.nVtx tx t.txid t.fEconomicEvents n outs w =
      Txn.leftAll (connectOutputRoutines K X t tx n outs) w := by
  induction outs generalizing n w with
  | nil => rfl
  | cons txOut outs ih => exact ih

theorem exploreDisconnectOutputs_eq {n : Nat} {w : ExploreWork} :
    exploreDisconnectOutputs K X t.txid t.fEconomicEvents n outs w =
      Txn.leftAll (disconnectOutputRoutines K X t n outs) w := by
  induction outs generalizing n w with
  | nil => rfl
  | cons txOut outs ih =>
    rw [exploreDisconnectOutputs, ih, disconnectOutputRoutines, Txn.leftAll_append]
    rfl

theorem exploreDisconnectInputs_eq {n : Nat} {w : ExploreWork} :
    exploreDisconnectInputs K X t.txid t.fEconomicEvents n ins w =
      Txn.leftAll (disconnectInputRoutines K X t n ins) w := by
  induction ins generalizing n w with
  | nil => rfl
  | cons p ins ih =>
    rw [exploreDisconnectInputs, ih, disconnectInputRoutines, Txn.leftAll_append]
    rfl

/-! ## 3. The loops -/

/-- A script that names an address, or one that is passed over. -/
def Payee.Readable (p : Payee) : Prop := p ≠ .insoluble ∧ p ≠ .bad

theorem enter_of_address {n : UInt32} {txOut : CTxOut} {es : List Entry} {key : AddrKey}
    (h : payee K X txOut = .address key) :
    enter K X t n prevout txOut es = ⟨key, t, n, prevout, txOut⟩ :: es := by
  rw [enter, h]

theorem enter_of_not_address {n : UInt32} {txOut : CTxOut} {es : List Entry}
    (h : ∀ key, payee K X txOut ≠ .address key) :
    enter K X t n prevout txOut es = es := by
  unfold enter
  split
  · next key hkey => exact absurd hkey (h key)
  · rfl

theorem suffix_enter (n : UInt32) (prevout : Option COutPoint) (txOut : CTxOut)
    (es : List Entry) : es <:+ enter K X t n prevout txOut es := by
  unfold enter
  split
  · exact List.suffix_cons _ _
  · exact List.suffix_rfl

theorem suffix_enterInputs :
    ∀ (ins : List (CTxIn × CTxOut)) (n : Nat) (es : List Entry), es <:+ enterInputs K X t n ins es
  | [], _, _ => List.suffix_rfl
  | _ :: ins, n, _ => (suffix_enter ..).trans (suffix_enterInputs ins (n + 1) _)

theorem suffix_enterOutputs :
    ∀ (outs : List CTxOut) (n : Nat) (es : List Entry), es <:+ enterOutputs K X t n outs es
  | [], _, _ => List.suffix_rfl
  | _ :: outs, n, _ => (suffix_enter ..).trans (suffix_enterOutputs outs (n + 1) _)

theorem EntriesOk.of_append {l es : List Entry} (h : EntriesOk (l ++ es)) : EntriesOk es := by
  induction l with
  | nil => exact h
  | cons x l ih => exact ih h.2

theorem EntriesSmall.of_append {l es : List Entry} (h : EntriesSmall (l ++ es)) :
    EntriesSmall es := by
  induction l with
  | nil => exact h
  | cons x l ih => exact ih h.2

theorem EntriesOk.of_suffix {es es' : List Entry} (h : EntriesOk es') (hs : es <:+ es') :
    EntriesOk es := by
  obtain ⟨l, rfl⟩ := hs
  exact h.of_append

theorem EntriesSmall.of_suffix {es es' : List Entry} (h : EntriesSmall es') (hs : es <:+ es') :
    EntriesSmall es := by
  obtain ⟨l, rfl⟩ := hs
  exact h.of_append

section

variable {d : ExploreDB} {m : MapColorBalances} {es : List Entry} {w : ExploreWork} {n : UInt32}
  {k : Nat} {txIn : CTxIn} {txOut : CTxOut} {tx : CTransaction}

theorem connectInput_mirrors (h : Mirrors d m w (booksOf es))
    (hok : EntriesOk (enter K X t n (some txIn.prevout) txOut es))
    (hs : EntriesSmall (enter K X t n (some txIn.prevout) txOut es)) :
    ∃ r w', (exploreConnectInput K X t.nHeight t.nVtx t.txid n txIn txOut t.fEconomicEvents).run w =
        (r, w') ∧ Mirrors d m w' (booksOf (enter K X t n (some txIn.prevout) txOut es)) ∧
      ((payee K X txOut).Readable → r = .ok ()) := by
  cases hp : payee K X txOut with
  | address key =>
    rw [enter_of_address hp] at hok hs ⊢
    obtain ⟨⟨o, ho, hpoint, hunspent, hamount⟩, -⟩ := hok.1.spends _ rfl
    obtain ⟨w', hrun, hw'⟩ := exploreConnectInput_spec h hp (hok.2.ok hs.2 key)
      (hs.2.small key) ho hpoint hunspent hamount
    exact ⟨_, w', hrun, hw', fun _ => rfl⟩
  | insoluble =>
    rw [enter_of_not_address (by simp [hp])]
    unfold exploreConnectInput
    rw [hp]
    exact ⟨_, w, rfl, h, fun hr => absurd rfl hr.1⟩
  | bad =>
    rw [enter_of_not_address (by simp [hp])]
    unfold exploreConnectInput
    rw [hp]
    exact ⟨_, w, rfl, h, fun hr => absurd rfl hr.2⟩
  | other =>
    rw [enter_of_not_address (by simp [hp])]
    unfold exploreConnectInput
    rw [hp]
    exact ⟨_, w, rfl, h, fun _ => rfl⟩

theorem connectOutput_mirrors (h : Mirrors d m w (booksOf es))
    (hok : EntriesOk (enter K X t (UInt32.ofNat k) none txOut es))
    (hs : EntriesSmall (enter K X t (UInt32.ofNat k) none txOut es))
    (hmarker : tx.isCoinStake = true ∧ k = 0 → payee K X txOut = .insoluble) :
    ∃ r w', (exploreConnectOutput K X t.nHeight t.nVtx tx t.txid k txOut t.fEconomicEvents).run w =
        (r, w') ∧ Mirrors d m w' (booksOf (enter K X t (UInt32.ofNat k) none txOut es)) ∧
      (payee K X txOut ≠ .bad → r = .ok ()) := by
  by_cases hcs : tx.isCoinStake = true ∧ k = 0
  · rw [enter_of_not_address (by simp [hmarker hcs])]
    unfold exploreConnectOutput
    rw [if_pos hcs]
    exact ⟨_, w, rfl, h, fun _ => rfl⟩
  · cases hp : payee K X txOut with
    | address key =>
      rw [enter_of_address hp] at hok hs ⊢
      have hsmall := hs.1
      rw [booksOf_self] at hsmall
      obtain ⟨w', hrun, hw'⟩ := exploreConnectOutput_spec h hp hcs (hok.2.ok hs.2 key) hsmall
        (hok.1.fresh rfl)
      exact ⟨_, w', hrun, hw', fun _ => rfl⟩
    | insoluble =>
      rw [enter_of_not_address (by simp [hp])]
      unfold exploreConnectOutput
      rw [if_neg hcs, hp]
      exact ⟨_, w, rfl, h, fun _ => rfl⟩
    | bad =>
      rw [enter_of_not_address (by simp [hp])]
      unfold exploreConnectOutput
      rw [if_neg hcs, hp]
      exact ⟨_, w, rfl, h, fun hr => absurd rfl hr⟩
    | other =>
      rw [enter_of_not_address (by simp [hp])]
      unfold exploreConnectOutput
      rw [if_neg hcs, hp]
      exact ⟨_, w, rfl, h, fun _ => rfl⟩

theorem disconnectOutput_mirrors
    (h : Mirrors d m w (booksOf (enter K X t (UInt32.ofNat k) none txOut es)))
    (hok : EntriesOk (enter K X t (UInt32.ofNat k) none txOut es))
    (hs : EntriesSmall (enter K X t (UInt32.ofNat k) none txOut es)) :
    ∃ r w', (exploreDisconnectOutput K X t.txid k txOut t.fEconomicEvents).run w = (r, w') ∧
      Mirrors d m w' (booksOf es) ∧ (payee K X txOut ≠ .bad → r = .ok ()) := by
  cases hp : payee K X txOut with
  | address key =>
    rw [enter_of_address hp] at hok hs h
    have hsmall := hs.1
    rw [booksOf_self] at hsmall
    obtain ⟨w', hrun, hw'⟩ := exploreDisconnectOutput_spec h hp (hok.2.ok hs.2 key) hsmall
      (hok.1.fresh rfl) hok.1.value
    exact ⟨_, w', hrun, hw', fun _ => rfl⟩
  | insoluble =>
    rw [enter_of_not_address (by simp [hp])] at h
    unfold exploreDisconnectOutput
    rw [hp]
    exact ⟨_, w, rfl, h, fun _ => rfl⟩
  | bad =>
    rw [enter_of_not_address (by simp [hp])] at h
    unfold exploreDisconnectOutput
    rw [hp]
    exact ⟨_, w, rfl, h, fun hr => absurd rfl hr⟩
  | other =>
    rw [enter_of_not_address (by simp [hp])] at h
    unfold exploreDisconnectOutput
    rw [hp]
    exact ⟨_, w, rfl, h, fun _ => rfl⟩

theorem disconnectInput_mirrors
    (h : Mirrors d m w (booksOf (enter K X t n (some txIn.prevout) txOut es)))
    (hok : EntriesOk (enter K X t n (some txIn.prevout) txOut es))
    (hs : EntriesSmall (enter K X t n (some txIn.prevout) txOut es)) :
    ∃ r w', (exploreDisconnectInput K X t.txid n txIn txOut t.fEconomicEvents).run w = (r, w') ∧
      Mirrors d m w' (booksOf es) ∧ ((payee K X txOut).Readable → r = .ok ()) := by
  cases hp : payee K X txOut with
  | address key =>
    rw [enter_of_address hp] at hok hs h
    have hsmall := hs.1
    rw [booksOf_self] at hsmall
    obtain ⟨⟨o, ho, hpoint, hunspent, hamount⟩, -⟩ := hok.1.spends _ rfl
    obtain ⟨w', hrun, hw'⟩ := exploreDisconnectInput_spec h hp (hok.2.ok hs.2 key) hsmall ho
      hpoint hunspent hamount hok.1.txid_ne
    exact ⟨_, w', hrun, hw', fun _ => rfl⟩
  | insoluble =>
    rw [enter_of_not_address (by simp [hp])] at h
    unfold exploreDisconnectInput
    rw [hp]
    exact ⟨_, w, rfl, h, fun hr => absurd rfl hr.1⟩
  | bad =>
    rw [enter_of_not_address (by simp [hp])] at h
    unfold exploreDisconnectInput
    rw [hp]
    exact ⟨_, w, rfl, h, fun hr => absurd rfl hr.2⟩
  | other =>
    rw [enter_of_not_address (by simp [hp])] at h
    unfold exploreDisconnectInput
    rw [hp]
    exact ⟨_, w, rfl, h, fun _ => rfl⟩

theorem connectInputs_mirrors :
    ∀ {ins : List (CTxIn × CTxOut)} {k : Nat} {es : List Entry} {w : ExploreWork},
      Mirrors d m w (booksOf es) → EntriesOk (enterInputs K X t k ins es) →
      EntriesSmall (enterInputs K X t k ins es) →
      Mirrors d m (Txn.leftAll (connectInputRoutines K X t k ins) w)
          (booksOf (enterInputs K X t k ins es)) ∧
        ((∀ p ∈ ins, (payee K X p.2).Readable) →
          Txn.Quiet (connectInputRoutines K X t k ins) w)
  | [], _, _, _, h, _, _ => ⟨h, fun _ => trivial⟩
  | (txIn, txOut) :: ins, k, es, w, h, hok, hs => by
    have hsuffix := suffix_enterInputs (K := K) (X := X) (t := t) ins (k + 1)
      (enter K X t (UInt32.ofNat k) (some txIn.prevout) txOut es)
    obtain ⟨r, w', hrun, hw', hr⟩ := connectInput_mirrors h (hok.of_suffix hsuffix)
      (hs.of_suffix hsuffix)
    obtain ⟨hall, hquiet⟩ := connectInputs_mirrors hw' hok hs
    rw [connectInputRoutines, Txn.leftAll_cons, Txn.left_of_run hrun]
    refine ⟨hall, fun hread => ?_⟩
    obtain ⟨hfirst, hrest⟩ := List.forall_mem_cons.mp hread
    refine ⟨?_, ?_⟩
    · rw [hrun]
      exact hr hfirst
    · rw [Txn.left_of_run hrun]
      exact hquiet hrest

theorem connectOutputs_mirrors :
    ∀ {outs : List CTxOut} {k : Nat} {es : List Entry} {w : ExploreWork},
      (tx.isCoinStake = true ∧ k = 0 → ∀ txOut ∈ outs.head?, payee K X txOut = .insoluble) →
      Mirrors d m w (booksOf es) → EntriesOk (enterOutputs K X t k outs es) →
      EntriesSmall (enterOutputs K X t k outs es) →
      Mirrors d m (Txn.leftAll (connectOutputRoutines K X t tx k outs) w)
          (booksOf (enterOutputs K X t k outs es)) ∧
        ((∀ o ∈ outs, payee K X o ≠ .bad) → Txn.Quiet (connectOutputRoutines K X t tx k outs) w)
  | [], _, _, _, _, h, _, _ => ⟨h, fun _ => trivial⟩
  | txOut :: outs, k, es, w, hmarker, h, hok, hs => by
    have hsuffix := suffix_enterOutputs (K := K) (X := X) (t := t) outs (k + 1)
      (enter K X t (UInt32.ofNat k) none txOut es)
    obtain ⟨r, w', hrun, hw', hr⟩ := connectOutput_mirrors h (hok.of_suffix hsuffix)
      (hs.of_suffix hsuffix) fun hcs => hmarker hcs txOut rfl
    obtain ⟨hall, hquiet⟩ := connectOutputs_mirrors
      (fun hcs => absurd hcs.2 (Nat.succ_ne_zero k)) hw' hok hs
    rw [connectOutputRoutines, Txn.leftAll_cons, Txn.left_of_run hrun]
    refine ⟨hall, fun hread => ?_⟩
    obtain ⟨hfirst, hrest⟩ := List.forall_mem_cons.mp hread
    refine ⟨?_, ?_⟩
    · rw [hrun]
      exact hr hfirst
    · rw [Txn.left_of_run hrun]
      exact hquiet hrest

theorem disconnectOutputs_mirrors :
    ∀ {outs : List CTxOut} {k : Nat} {es : List Entry} {w : ExploreWork},
      Mirrors d m w (booksOf (enterOutputs K X t k outs es)) →
      EntriesOk (enterOutputs K X t k outs es) → EntriesSmall (enterOutputs K X t k outs es) →
      Mirrors d m (Txn.leftAll (disconnectOutputRoutines K X t k outs) w) (booksOf es) ∧
        ((∀ o ∈ outs, payee K X o ≠ .bad) → Txn.Quiet (disconnectOutputRoutines K X t k outs) w)
  | [], _, _, _, h, _, _ => ⟨h, fun _ => trivial⟩
  | txOut :: outs, k, es, w, h, hok, hs => by
    have hsuffix := suffix_enterOutputs (K := K) (X := X) (t := t) outs (k + 1)
      (enter K X t (UInt32.ofNat k) none txOut es)
    obtain ⟨hall, hquiet⟩ := @disconnectOutputs_mirrors outs (k + 1) _ w h hok hs
    obtain ⟨r, w', hrun, hw', hr⟩ := disconnectOutput_mirrors hall (hok.of_suffix hsuffix)
      (hs.of_suffix hsuffix)
    rw [disconnectOutputRoutines, Txn.leftAll_append, Txn.leftAll_cons, Txn.leftAll_nil,
      Txn.left_of_run hrun]
    refine ⟨hw', fun hread => ?_⟩
    obtain ⟨hfirst, hrest⟩ := List.forall_mem_cons.mp hread
    rw [Txn.quiet_append, Txn.quiet_singleton, hrun]
    exact ⟨hquiet hrest, hr hfirst⟩

theorem disconnectInputs_mirrors :
    ∀ {ins : List (CTxIn × CTxOut)} {k : Nat} {es : List Entry} {w : ExploreWork},
      Mirrors d m w (booksOf (enterInputs K X t k ins es)) →
      EntriesOk (enterInputs K X t k ins es) → EntriesSmall (enterInputs K X t k ins es) →
      Mirrors d m (Txn.leftAll (disconnectInputRoutines K X t k ins) w) (booksOf es) ∧
        ((∀ p ∈ ins, (payee K X p.2).Readable) →
          Txn.Quiet (disconnectInputRoutines K X t k ins) w)
  | [], _, _, _, h, _, _ => ⟨h, fun _ => trivial⟩
  | (txIn, txOut) :: ins, k, es, w, h, hok, hs => by
    have hsuffix := suffix_enterInputs (K := K) (X := X) (t := t) ins (k + 1)
      (enter K X t (UInt32.ofNat k) (some txIn.prevout) txOut es)
    obtain ⟨hall, hquiet⟩ := @disconnectInputs_mirrors ins (k + 1) _ w h hok hs
    obtain ⟨r, w', hrun, hw', hr⟩ := disconnectInput_mirrors hall (hok.of_suffix hsuffix)
      (hs.of_suffix hsuffix)
    rw [disconnectInputRoutines, Txn.leftAll_append, Txn.leftAll_cons, Txn.leftAll_nil,
      Txn.left_of_run hrun]
    refine ⟨hw', fun hread => ?_⟩
    obtain ⟨hfirst, hrest⟩ := List.forall_mem_cons.mp hread
    rw [Txn.quiet_append, Txn.quiet_singleton, hrun]
    exact ⟨hquiet hrest, hr hfirst⟩

end

/-! ## 4. A transaction -/

/-- An empty script names no address. -/
theorem payee_of_empty {txOut : CTxOut} (h : txOut.scriptPubKey = []) :
    payee K X txOut = .insoluble := by
  have hsolver : solver [] = (false, .nonstandard, []) := by decide
  rw [payee, h, hsolver]

/-- The marker of a coinstake names no address. -/
theorem payee_marker {tx : CTransaction} (h : tx.isCoinStake = true) :
    ∀ txOut ∈ tx.vout.head?, payee K X txOut = .insoluble := by
  unfold CTransaction.isCoinStake at h
  split at h
  · next txin _ out0 _ _ _ hout =>
    rw [hout]
    rintro txOut ⟨⟩
    rw [Bool.and_eq_true, CTxOut.isEmpty, Bool.and_eq_true, List.isEmpty_iff] at h
    exact payee_of_empty h.2.2
  · cases h

variable (K X) in
/-- The inputs and outputs of a transaction, with its previous outputs, entered. -/
def enterTx (t : TxAt) (tx : CTransaction) (prevs : List CTxOut) (es : List Entry) : List Entry :=
  enterOutputs K X t 0 tx.vout (enterInputs K X t 0 (tx.vin.zip prevs) es)

variable (K X) in
/-- The routines `ExploreConnectTx` runs. -/
def connectRoutines (t : TxAt) (tx : CTransaction) (prevs : List CTxOut) :
    List (Txn ExploreWork Unit) :=
  connectInputRoutines K X t 0 (tx.vin.zip prevs) ++ connectOutputRoutines K X t tx 0 tx.vout

variable (K X) in
/-- The routines `ExploreDisconnectTx` runs. -/
def disconnectRoutines (t : TxAt) (tx : CTransaction) (prevs : List CTxOut) :
    List (Txn ExploreWork Unit) :=
  disconnectOutputRoutines K X t 0 tx.vout ++ disconnectInputRoutines K X t 0 (tx.vin.zip prevs)

/-- The explorer's state is that of the books after these entries. -/
def ExploreState.Describes (e : ExploreState) (es : List Entry) : Prop :=
  Mirrors e.db e.mapAddressBalances e.work (booksOf es)

/-- What a state that is between two transactions has to be. -/
theorem describes_iff {e : ExploreState} {es : List Entry} :
    e.Describes es ↔ (∀ key, Represents (e.db.addr key) (booksOf es key)) ∧
      Buckets e.db.addrSet (booksOf es).rank ∧ e.mapAddressBalances = e.db.sizes := by
  have hmap : updateMapAddressBalances e.work e.mapAddressBalances = e.mapAddressBalances := rfl
  constructor
  · intro h
    exact ⟨h.addr, h.richList.sets, hmap.symm.trans h.richList.map⟩
  · rintro ⟨haddr, hsets, hsizes⟩
    exact ⟨haddr, ⟨hsets, hmap.trans hsizes⟩, rfl, rfl, rfl⟩

/-- The previous outputs and the outputs of a transaction have scripts the routines can read. -/
structure ReadableTx (K : Crypto) (X : Explorer) (tx : CTransaction) (prevs : List CTxOut) :
    Prop where
  prevs : ∀ o ∈ prevs, (payee K X o).Readable
  outs : ∀ o ∈ tx.vout, payee K X o ≠ .bad

section

variable {env : NodeEnv} {txdb : TxDB} {tx : CTransaction} {prevs : List CTxOut} {e : ExploreState}
  {es : List Entry} {hashBlock : UInt256} {nBlockTime : UInt32} {nHeight nVtx : Int}

/-- Where a transaction stands in the books. -/
def txAt (K : Crypto) (X : Explorer) (nHeight nVtx : Int) (tx : CTransaction)
    (prevs : List CTxOut) : TxAt :=
  ⟨nHeight, nVtx, tx.getHash K, fEconomicEvents K X tx prevs⟩

/-- The work of a transaction, and the record of it, make a state. -/
theorem Mirrors.update {w : ExploreWork} {B : Books} {txid : UInt256} {txInfo : Option ExploreTx}
    (h : Mirrors e.db e.mapAddressBalances w B) :
    Mirrors (e.update (w.putTx txid txInfo)).db (e.update (w.putTx txid txInfo)).mapAddressBalances
        (e.update (w.putTx txid txInfo)).work B ∧
      (e.update (w.putTx txid txInfo)).db.exploreTx =
        Function.update e.db.exploreTx txid txInfo ∧
      (e.update (w.putTx txid txInfo)).db.exploreBest = e.db.exploreBest ∧
      (e.update (w.putTx txid txInfo)).db.sentinel = e.db.sentinel := by
  have hmap : updateMapAddressBalances (w.putTx txid txInfo) e.mapAddressBalances = w.db.sizes :=
    h.richList.map
  refine ⟨⟨h.addr, ⟨h.richList.sets, hmap⟩, rfl, rfl, rfl⟩, ?_, h.exploreBest, h.sentinel⟩
  rw [← h.exploreTx]
  rfl

/-- **`ExploreConnectTx`** enters the transaction. -/
theorem exploreConnectTx_describes (h : e.Describes es)
    (hprevs : explorePrevOuts env txdb tx = .ok prevs)
    (hok : EntriesOk (enterTx K X (txAt K X nHeight nVtx tx prevs) tx prevs es))
    (hs : EntriesSmall (enterTx K X (txAt K X nHeight nVtx tx prevs) tx prevs es)) :
    ∃ e' txInfo, exploreConnectTx K X env txdb hashBlock nBlockTime nHeight nVtx tx e =
        (true, e') ∧
      e'.Describes (enterTx K X (txAt K X nHeight nVtx tx prevs) tx prevs es) ∧
      e'.db.exploreTx = Function.update e.db.exploreTx (tx.getHash K) (some txInfo) ∧
      e'.db.exploreBest = e.db.exploreBest ∧ e'.db.sentinel = e.db.sentinel ∧
      (ReadableTx K X tx prevs →
        Txn.Quiet (connectRoutines K X (txAt K X nHeight nVtx tx prevs) tx prevs) e.work) := by
  set t := txAt K X nHeight nVtx tx prevs with ht
  have hsuffix := suffix_enterOutputs (K := K) (X := X) (t := t) tx.vout 0
    (enterInputs K X t 0 (tx.vin.zip prevs) es)
  obtain ⟨hins, hquietIns⟩ := connectInputs_mirrors h (hok.of_suffix hsuffix)
    (hs.of_suffix hsuffix)
  obtain ⟨houts, hquietOuts⟩ := connectOutputs_mirrors (fun hcs => payee_marker hcs.1) hins hok hs
  rw [← exploreConnectOutputs_eq, ← exploreConnectInputs_eq] at houts
  obtain ⟨hdesc, htx, hbest, hsentinel⟩ := @Mirrors.update e _ _ (tx.getHash K) _ houts
  unfold exploreConnectTx
  rw [hprevs]
  refine ⟨_, _, rfl, hdesc, htx, hbest, hsentinel, fun hread => ?_⟩
  refine Txn.quiet_append.mpr ⟨hquietIns fun p hp => ?_, hquietOuts hread.outs⟩
  exact hread.prevs p.2 (List.of_mem_zip hp).2

/-- **`ExploreDisconnectTx`** takes the transaction back. -/
theorem exploreDisconnectTx_describes
    (h : e.Describes (enterTx K X (txAt K X nHeight nVtx tx prevs) tx prevs es))
    (hprevs : explorePrevOuts env txdb tx = .ok prevs)
    (hok : EntriesOk (enterTx K X (txAt K X nHeight nVtx tx prevs) tx prevs es))
    (hs : EntriesSmall (enterTx K X (txAt K X nHeight nVtx tx prevs) tx prevs es)) :
    ∃ e', exploreDisconnectTx K X env txdb tx e = (true, e') ∧ e'.Describes es ∧
      e'.db.exploreTx = Function.update e.db.exploreTx (tx.getHash K) none ∧
      e'.db.exploreBest = e.db.exploreBest ∧ e'.db.sentinel = e.db.sentinel ∧
      (ReadableTx K X tx prevs →
        Txn.Quiet (disconnectRoutines K X (txAt K X nHeight nVtx tx prevs) tx prevs) e.work) := by
  set t := txAt K X nHeight nVtx tx prevs with ht
  have hsuffix := suffix_enterOutputs (K := K) (X := X) (t := t) tx.vout 0
    (enterInputs K X t 0 (tx.vin.zip prevs) es)
  obtain ⟨houts, hquietOuts⟩ := disconnectOutputs_mirrors h hok hs
  obtain ⟨hins, hquietIns⟩ := disconnectInputs_mirrors houts (hok.of_suffix hsuffix)
    (hs.of_suffix hsuffix)
  rw [← exploreDisconnectInputs_eq, ← exploreDisconnectOutputs_eq] at hins
  obtain ⟨hdesc, htx, hbest, hsentinel⟩ := @Mirrors.update e _ _ (tx.getHash K) _ hins
  unfold exploreDisconnectTx
  rw [hprevs]
  refine ⟨_, rfl, hdesc, htx, hbest, hsentinel, fun hread => ?_⟩
  refine Txn.quiet_append.mpr ⟨hquietOuts hread.outs, hquietIns fun p hp => ?_⟩
  exact hread.prevs p.2 (List.of_mem_zip hp).2

end

end Breakout
