/-
# Committing a transaction

`CommitTransaction` records a transaction of the wallet's own: it enters it, marks what it spends as
spent, and only then asks the memory pool.  When the pool takes it, what it received and sent is
added to the balance maps as for any entry that waits for a block.  When the pool refuses it, the
function returns false and leaves the rest as it is: the maps still agree with a snapshot, which
does not count the entry, but the outputs stay marked, although nothing has spent them.

A snapshot can also count the older entries for something else than before:
`FindStealthTransactions` and the key pool may have added keys, and an older entry may spend an
output of the new one.  What they count for more is their drift; `commitTransaction_iff` has it in
its condition, and a fresh transaction has none (`commitTransaction_fresh_iff`).
-/
import Breakout.MemPool
import Breakout.OrphanTxs
import Breakout.WalletErase

namespace Breakout

open Lib

/-! ## 1. The step -/

/-- What is read and changed; `vfSpent` is a part of the entries. -/
structure CommitState where
  wallet : CWallet
  vfSpent : UInt256 → List Bool
  pool : CTxMemPool

/-- What is read besides.  `isMine` and `isMineAny` are `IsMine` of a script with the keys that
`FindStealthTransactions` and the key pool have added, the second with multisig and of any kind.
`fWritten` says whether the entry could be written to disk, and `txNull` is an empty transaction. -/
structure CommitEnv extends PoolEnv where
  chain : MainChain
  isMine : CScript → UInt8
  isMineAny : CScript → Bool
  fWritten : Bool
  txNull : CTransaction

namespace CommitEnv

/-- The main chain, with the memory pool as it is. -/
def chainWith (env : CommitEnv) (pool : CTxMemPool) : MainChain :=
  { env.chain with pool := fun hash => (pool.mapTx hash).isSome }

end CommitEnv

namespace CommitState

/-- `CWalletTx::IsSpent` of an output that there is. -/
def isSpent (s : CommitState) (hash : UInt256) (n : Nat) : Bool := (s.vfSpent hash).getD n false

/-- `vector::resize` -/
def resizeFlags (size : Nat) (vfSpent : List Bool) : List Bool :=
  vfSpent.take size ++ List.replicate (size - vfSpent.length) false

/-- `CWalletTx::MarkSpent` of an output that there is. -/
def markSpent (s : CommitState) (hash : UInt256) (size n : Nat) : CommitState :=
  { s with
    vfSpent := Function.update s.vfSpent hash ((resizeFlags size (s.vfSpent hash)).set n true) }

/-- `CWalletTx::UpdateSpent` -/
def updateFlags : List Bool → List Bool → List Bool
  | f :: vfSpent, g :: vfNewSpent => (f || g) :: updateFlags vfSpent vfNewSpent
  | vfSpent, _ => vfSpent

/-- One input of `WalletUpdateSpent`. -/
def updateSpent (env : CommitEnv) (s : CommitState) (txin : CTxIn) : CommitState :=
  match s.wallet.mapWallet.find txin.prevout.hash with
  | none => s
  | some wtx =>
    match wtx.tx.vout[txin.prevout.n.toNat]? with
    | none => s
    | some txout =>
      if s.isSpent txin.prevout.hash txin.prevout.n.toNat = false ∧
          env.isMineAny txout.scriptPubKey = true then
        s.markSpent txin.prevout.hash wtx.tx.vout.length txin.prevout.n.toNat
      else s

/-- "Mark old coins as spent" -/
def markCoins (env : CommitEnv) : List CTxIn → CommitState → Run Unit × CommitState
  | [], s => (.ok (), s)
  | txin :: vin, s =>
    match s.wallet.mapWallet.find txin.prevout.hash with
    | none =>
      -- `mapWallet[…]` makes an entry, and that has no outputs
      (.error (.throw "CWalletTx::MarkSpent() : nOut out of range"),
        { s with wallet := { s.wallet with
            mapWallet := s.wallet.mapWallet.set txin.prevout.hash (.ofTx env.txNull) } })
    | some coin =>
      if coin.tx.vout.length ≤ txin.prevout.n.toNat then
        (.error (.throw "CWalletTx::MarkSpent() : nOut out of range"), s)
      else
        markCoins env vin
          (s.markSpent txin.prevout.hash coin.tx.vout.length txin.prevout.n.toNat)

variable (K : Crypto)

/-- `AddToWallet` of an entry that names no block. -/
def addToWallet (env : CommitEnv) (s : CommitState) (tx : CTransaction) (vfSpent : List Bool) :
    CommitState :=
  let s := match s.wallet.mapWallet.find (tx.getHash K) with
    | none =>
      { s with
        wallet := { s.wallet with
          mapWallet := s.wallet.mapWallet.set (tx.getHash K) (.ofTx tx) }
        vfSpent := Function.update s.vfSpent (tx.getHash K) vfSpent }
    | some _ =>
      { s with
        vfSpent := Function.update s.vfSpent (tx.getHash K)
          (updateFlags (s.vfSpent (tx.getHash K)) vfSpent) }
  if env.fWritten then tx.vin.foldl (updateSpent env) s else s

/-- `CWallet::CommitTransaction`: how it ends, and what it leaves. -/
def commitTransaction (env : CommitEnv) (s : CommitState) (tx : CTransaction)
    (vfSpent : List Bool) : Run Bool × CommitState :=
  let s := { s with wallet := { s.wallet with isMine := env.isMine } }
  let s := addToWallet K env s tx vfSpent
  match markCoins env tx.vin s with
  | (.error e, s) => (.error e, s)
  | (.ok (), s) =>
    let (fAccepted, pool) := s.pool.accept K env.toPoolEnv tx true
    let s := { s with pool := pool }
    if fAccepted = false then (.ok false, s)
    else
      let wtxNew := CMerkleTx.ofTx tx
      let c := env.chainWith s.pool
      match s.wallet.getAmounts wtxNew with
      | .error e => (.error e, s)
      | .ok (mapRcvd, mapSnt) =>
        let maps := s.wallet.maps
        if wtxNew.isImmature K env.clock.fTestNet c then
          if tx.isCoinStake then
            (.ok true, { s with wallet := { s.wallet with maps := maps.add .stake mapRcvd } })
          else if tx.isCoinBase then
            (.ok true, { s with wallet := { s.wallet with maps := maps.add .coinbase mapRcvd } })
          else
            (.error (.throw "CommitTransaction(): TSNH matures but not coinstake or coinbase"), s)
        else if wtxNew.getDepthInMainChain K c ≤ 0 then
          (.ok true, { s with wallet := { s.wallet with
            maps := (maps.add .received mapRcvd).add .sent mapSnt } })
        else
          (.ok true, { s with wallet := { s.wallet with
            maps := (maps.add .confirmed mapRcvd).subtract .confirmed mapSnt } })

end CommitState

/-! ## 2. What is marked -/

namespace CommitState

variable {K : Crypto} {env : CommitEnv} {s s' : CommitState} {tx : CTransaction}

theorem length_resizeFlags (size : Nat) (vfSpent : List Bool) :
    (resizeFlags size vfSpent).length = size := by
  rw [resizeFlags, List.length_append, List.length_take, List.length_replicate]
  omega

variable {size k n : Nat} {hash : UInt256} {vin : List CTxIn}

theorem getD_resizeFlags (hk : k < size) (vfSpent : List Bool) :
    (resizeFlags size vfSpent).getD k false = vfSpent.getD k false := by
  simp only [resizeFlags, List.getD_eq_getElem?_getD, List.getElem?_append, List.length_take,
    List.getElem?_take, List.getElem?_replicate]
  by_cases hlen : k < vfSpent.length
  · rw [if_pos (by omega), if_pos hk]
  · rw [if_neg (by omega), List.getElem?_eq_none (Nat.not_lt.mp hlen)]
    split_ifs <;> rfl

/-- **Marking an output** marks that one. -/
theorem isSpent_markSpent_self (hn : n < size) (hk : k < size) :
    (s.markSpent hash size n).isSpent hash k = true ↔ s.isSpent hash k = true ∨ k = n := by
  unfold isSpent markSpent
  dsimp only
  rw [Function.update_self, List.getD_eq_getElem?_getD, List.getElem?_set, length_resizeFlags]
  by_cases hkn : n = k
  · rw [if_pos hkn, if_pos hn]
    simp [hkn]
  · rw [if_neg hkn, ← List.getD_eq_getElem?_getD, getD_resizeFlags hk]
    simp [Ne.symm hkn]

theorem isSpent_markSpent_of_ne {hash' : UInt256} (h : hash' ≠ hash) (size n k : Nat) :
    (s.markSpent hash size n).isSpent hash' k = s.isSpent hash' k := by
  unfold isSpent markSpent
  dsimp only
  rw [Function.update_of_ne h]

/-- The output is one that an input names. -/
def Names (vin : List CTxIn) (hash : UInt256) (n : Nat) : Prop :=
  ∃ txin ∈ vin, txin.prevout.hash = hash ∧ txin.prevout.n.toNat = n

theorem names_cons {txin : CTxIn} :
    Names (txin :: vin) hash n ↔
      (txin.prevout.hash = hash ∧ txin.prevout.n.toNat = n) ∨ Names vin hash n := by
  simp [Names]

/-- Nothing but outputs that the inputs name is marked. -/
structure MayMark (vin : List CTxIn) (s s' : CommitState) : Prop where
  wallet : s'.wallet = s.wallet
  pool : s'.pool = s.pool
  spent : ∀ {hash wtx k}, s.wallet.mapWallet.find hash = some wtx → k < wtx.tx.vout.length →
    (s.isSpent hash k = true → s'.isSpent hash k = true) ∧
      (s'.isSpent hash k = true → s.isSpent hash k = true ∨ Names vin hash k)

theorem mayMark_updateSpent (txin : CTxIn) : MayMark [txin] s (updateSpent env s txin) := by
  have hsame : MayMark [txin] s s := ⟨rfl, rfl, fun _ _ => ⟨id, Or.inl⟩⟩
  unfold updateSpent
  cases hfind : s.wallet.mapWallet.find txin.prevout.hash with
  | none => exact hsame
  | some wtx =>
    dsimp only
    cases hout : wtx.tx.vout[txin.prevout.n.toNat]? with
    | none => exact hsame
    | some txout =>
      dsimp only
      split_ifs
      · refine ⟨rfl, rfl, fun {hash wtx' k} hfind' hk => ?_⟩
        have hn := (List.getElem?_eq_some_iff.mp hout).1
        by_cases hhash : hash = txin.prevout.hash
        · subst hhash
          obtain rfl := Option.some_inj.mp (hfind.symm.trans hfind')
          rw [isSpent_markSpent_self hn hk]
          exact ⟨Or.inl, Or.imp id fun h => ⟨txin, List.mem_cons_self, rfl, h.symm⟩⟩
        · rw [isSpent_markSpent_of_ne hhash]
          exact ⟨id, Or.inl⟩
      · exact hsame

theorem mayMark_foldl (vin : List CTxIn) : MayMark vin s (vin.foldl (updateSpent env) s) := by
  induction vin generalizing s with
  | nil => exact ⟨rfl, rfl, fun _ _ => ⟨id, Or.inl⟩⟩
  | cons txin vin ih =>
    obtain ⟨hwallet, hpool, hspent⟩ := @mayMark_updateSpent env s txin
    obtain ⟨hwallet', hpool', hspent'⟩ := @ih (updateSpent env s txin)
    refine ⟨hwallet'.trans hwallet, hpool'.trans hpool, fun {hash wtx k} hfind hk => ?_⟩
    obtain ⟨hkeep, hmark⟩ := hspent hfind hk
    obtain ⟨hkeep', hmark'⟩ := hspent' (by rwa [hwallet]) hk
    refine ⟨fun h => hkeep' (hkeep h), fun h => ?_⟩
    rw [names_cons]
    rcases hmark' h with h | h
    · rcases hmark h with h | ⟨txin', hmem, hnames⟩
      · exact Or.inl h
      · rw [List.mem_singleton.mp hmem] at hnames
        exact Or.inr (Or.inl hnames)
    · exact Or.inr (Or.inr h)

/-- **What is marked before the pool is asked**: everything the inputs name, and all of it is there.
-/
theorem markCoins_spec (h : markCoins env vin s = (.ok (), s')) :
    s'.wallet = s.wallet ∧ s'.pool = s.pool ∧
      (∀ txin ∈ vin, ∃ coin, s.wallet.mapWallet.find txin.prevout.hash = some coin ∧
        txin.prevout.n.toNat < coin.tx.vout.length) ∧
      ∀ {hash wtx k}, s.wallet.mapWallet.find hash = some wtx → k < wtx.tx.vout.length →
        (s'.isSpent hash k = true ↔ s.isSpent hash k = true ∨ Names vin hash k) := by
  induction vin generalizing s with
  | nil =>
    cases h
    exact ⟨rfl, rfl, nofun, fun _ _ => by simp [Names]⟩
  | cons txin vin ih =>
    rw [markCoins] at h
    cases hfind : s.wallet.mapWallet.find txin.prevout.hash with
    | none => simp [hfind] at h
    | some coin =>
      simp only [hfind] at h
      have hrange : txin.prevout.n.toNat < coin.tx.vout.length := by
        by_contra hnot
        rw [if_pos (Nat.not_lt.mp hnot)] at h
        cases h
      rw [if_neg (Nat.not_le.mpr hrange)] at h
      obtain ⟨hwallet, hpool, hthere, hspent⟩ := ih h
      refine ⟨hwallet, hpool, List.forall_mem_cons.mpr ⟨⟨coin, hfind, hrange⟩, hthere⟩,
        fun {hash wtx k} hfind' hk => ?_⟩
      rw [hspent hfind' hk, names_cons, ← or_assoc]
      refine or_congr_left ?_
      by_cases hhash : hash = txin.prevout.hash
      · subst hhash
        obtain rfl := Option.some_inj.mp (hfind.symm.trans hfind')
        rw [isSpent_markSpent_self hrange hk]
        exact or_congr_right ⟨fun hkn => ⟨rfl, hkn.symm⟩, fun hkn => hkn.2.symm⟩
      · rw [isSpent_markSpent_of_ne hhash]
        simp [Ne.symm hhash]

/-- **The entry is made**: it is there, and nothing is marked but what its inputs name. -/
theorem addToWallet_spec (hnew : s.wallet.mapWallet.find (tx.getHash K) = none)
    (vfSpent : List Bool) :
    (addToWallet K env s tx vfSpent).wallet = { s.wallet with
        mapWallet := s.wallet.mapWallet.set (tx.getHash K) (.ofTx tx) } ∧
      (addToWallet K env s tx vfSpent).pool = s.pool ∧
      ∀ {hash wtx k}, s.wallet.mapWallet.find hash = some wtx → k < wtx.tx.vout.length →
        (s.isSpent hash k = true → (addToWallet K env s tx vfSpent).isSpent hash k = true) ∧
          ((addToWallet K env s tx vfSpent).isSpent hash k = true →
            s.isSpent hash k = true ∨ Names tx.vin hash k) := by
  unfold addToWallet
  rw [hnew]
  dsimp only
  have hother : ∀ {hash wtx}, s.wallet.mapWallet.find hash = some wtx → hash ≠ tx.getHash K := by
    rintro hash wtx hfind rfl
    rw [hnew] at hfind
    cases hfind
  have hsame : ∀ {hash wtx} (k : Nat), s.wallet.mapWallet.find hash = some wtx →
      (Function.update s.vfSpent (tx.getHash K) vfSpent hash).getD k false = s.isSpent hash k := by
    intro hash wtx k hfind
    rw [Function.update_of_ne (hother hfind), isSpent]
  split_ifs
  · obtain ⟨hwallet, hpool, hspent⟩ := @mayMark_foldl env
      { s with
        wallet := { s.wallet with
          mapWallet := s.wallet.mapWallet.set (tx.getHash K) (.ofTx tx) }
        vfSpent := Function.update s.vfSpent (tx.getHash K) vfSpent } tx.vin
    refine ⟨hwallet, hpool, fun {hash wtx k} hfind hk => ?_⟩
    have hthere := (KeyedList.find_set_of_ne (v := CMerkleTx.ofTx tx) (hother hfind)).trans hfind
    have hboth := hspent hthere hk
    rw [← hsame k hfind]
    exact hboth
  · refine ⟨rfl, rfl, fun {hash wtx k} hfind hk => ?_⟩
    rw [← hsame k hfind]
    exact ⟨id, Or.inl⟩

end CommitState

/-! ## 3. What the entries count for -/

namespace CWallet

variable (K : Crypto) (env : CommitEnv)

/-- The wallet with the entry and the keys that were added. -/
def committed (W : CWallet) (tx : CTransaction) : CWallet :=
  { W with
    isMine := env.isMine
    mapWallet := W.mapWallet.set (tx.getHash K) (.ofTx tx) }

/-- What the entries from before count for more, once the new one is there. -/
def drift (c c' : MainChain) (W : CWallet) (tx : CTransaction) (t : BalanceMapType) (n : Int32) :
    Int :=
  (W.committed K env tx).shares K env.clock.fTestNet c' 1 t n W.mapWallet.entries -
    W.shares K env.clock.fTestNet c 1 t n W.mapWallet.entries

end CWallet

namespace CommitState

section

variable (K : Crypto) (env : CommitEnv)

/-- The pool takes the transaction. -/
def accepted (s : CommitState) (tx : CTransaction) : Bool :=
  (s.pool.accept K env.toPoolEnv tx true).1

/-- The main chain, with the pool as it was. -/
def chain (s : CommitState) : MainChain := env.chainWith s.pool

/-- The main chain, with the pool as `accept` leaves it. -/
def chainAfter (s : CommitState) (tx : CTransaction) : MainChain :=
  env.chainWith (s.pool.accept K env.toPoolEnv tx true).2

/-- What a snapshot counts and the maps are not told: the drift, and the new entry where the pool
refuses it because it is there already. -/
def untold (s : CommitState) (tx : CTransaction) (t : BalanceMapType) (n : Int32) : Int :=
  s.wallet.drift K env (s.chain env) (s.chainAfter K env tx) tx t n +
    if s.accepted K env tx then 0
    else (s.wallet.committed K env tx).share K env.clock.fTestNet (s.chainAfter K env tx) 1 t n
      (.ofTx tx)

/-- **The commitment is clean**: the maps agree with a snapshot again, and where it has failed, no
output of an older entry is marked that was not. -/
structure Clean (s s' : CommitState) (fCommitted : Bool) : Prop where
  reconciled : s'.wallet.Reconciled K env.clock.fTestNet (s'.chain env)
  unmarked : fCommitted = false → ∀ {hash wtx k}, s.wallet.mapWallet.find hash = some wtx →
    k < wtx.tx.vout.length → s'.isSpent hash k = true → s.isSpent hash k = true

/-- **When it is**: the amounts are in range, nothing counts that the maps are not told, and what
the inputs name was spent before, if the pool refuses the transaction. -/
structure ComesClean (s : CommitState) (tx : CTransaction) : Prop where
  inRange : (s.wallet.committed K env tx).EntriesInRange K (s.chainAfter K env tx)
  told : ∀ t n, s.untold K env tx t n ≡ 0 [ZMOD 2 ^ 64]
  spent : s.accepted K env tx = false → ∀ {hash wtx k}, s.wallet.mapWallet.find hash = some wtx →
    k < wtx.tx.vout.length → Names tx.vin hash k → s.isSpent hash k = true

end

/-- **What `CommitTransaction` leaves** when it returns. -/
structure Committed (K : Crypto) (env : CommitEnv) (s s' : CommitState) (tx : CTransaction)
    (fCommitted : Bool) : Prop where
  accepted : fCommitted = s.accepted K env tx
  chain : s'.chain env = s.chainAfter K env tx
  wallet : s'.wallet = { s.wallet.committed K env tx with maps := s'.wallet.maps }
  maps : ∀ t n, (s'.wallet.maps t).get n = (s.wallet.maps t).get n + Int64.ofInt
    (if fCommitted then (s.wallet.committed K env tx).share K env.clock.fTestNet
      (s.chainAfter K env tx) 1 t n (.ofTx tx) else 0)
  inRange : fCommitted = true → (s.wallet.committed K env tx).DebitsInRange (.ofTx tx)
  spent : ∀ {hash wtx k}, s.wallet.mapWallet.find hash = some wtx → k < wtx.tx.vout.length →
    (s'.isSpent hash k = true ↔ s.isSpent hash k = true ∨ Names tx.vin hash k)

variable {K : Crypto} {env : CommitEnv} {s s' : CommitState} {tx : CTransaction}
  {vfSpent : List Bool} {fCommitted : Bool}

/-- What the pool takes is neither a coinbase nor a coinstake. -/
theorem doesMature_of_accept {penv : PoolEnv} {pool pool' : CTxMemPool} {fCheckInputs : Bool}
    (h : pool.accept K penv tx fCheckInputs = (true, pool')) : tx.doesMature = false := by
  unfold CTxMemPool.accept at h
  rw [CTransaction.doesMature]
  split_ifs at h with hcheck hcb hcs
  all_goals simp_all

variable {W : CWallet}

/-- What an entry that is in the pool and in no block counts for. -/
theorem share_ofTx {fTestNet : Bool} {c : MainChain} (hmature : tx.doesMature = false)
    (hpool : c.pool (tx.getHash K) = true) (t : BalanceMapType) (n : Int32) :
    W.share K fTestNet c 1 t n (.ofTx tx) =
      (if t = .received then W.rcvdTotal (.ofTx tx) n else 0) +
        if t = .sent then W.sentTotal (.ofTx tx) n else 0 := by
  have hdepth : (CMerkleTx.ofTx tx).getDepthInMainChain K c = 0 := by
    rw [getDepthInMainChain_ofTx, if_pos hpool]
  have himm : (CMerkleTx.ofTx tx).isImmature K fTestNet c = false := by
    rw [CMerkleTx.isImmature, show (CMerkleTx.ofTx tx).tx = tx from rfl, hmature, Bool.false_and]
  cases t <;> simp [CWallet.share, CWallet.rcvdCount, CWallet.sentCount, hdepth, himm]

/-- **The run of `CommitTransaction`**, where it returns. -/
theorem commitTransaction_spec (hnew : s.wallet.mapWallet.find (tx.getHash K) = none)
    (h : commitTransaction K env s tx vfSpent = (.ok fCommitted, s')) :
    Committed K env s s' tx fCommitted := by
  unfold commitTransaction at h
  dsimp only at h
  obtain ⟨hwallet, hpool, hspent⟩ := @addToWallet_spec K env
    { s with wallet := { s.wallet with isMine := env.isMine } } tx hnew vfSpent
  generalize addToWallet K env { s with wallet := { s.wallet with isMine := env.isMine } } tx
    vfSpent = s₁ at h hwallet hpool hspent
  cases hmarked : markCoins env tx.vin s₁ with
  | mk r s₂ =>
    cases r with
    | error e => simp [hmarked] at h
    | ok _ =>
      simp only [hmarked] at h
      obtain ⟨hwallet₂, hpool₂, -, hspent₂⟩ := markCoins_spec hmarked
      have hpools : s₂.pool = s.pool := hpool₂.trans hpool
      have hcommitted : s₂.wallet = s.wallet.committed K env tx := hwallet₂.trans hwallet
      have hother : ∀ {hash wtx}, s.wallet.mapWallet.find hash = some wtx →
          s₁.wallet.mapWallet.find hash = some wtx := by
        intro hash wtx hfind
        have hne : hash ≠ tx.getHash K := by
          rintro rfl
          rw [hnew] at hfind
          cases hfind
        rw [hwallet]
        exact (KeyedList.find_set_of_ne hne).trans hfind
      have hmarks : ∀ {hash wtx k}, s.wallet.mapWallet.find hash = some wtx →
          k < wtx.tx.vout.length →
            (s₂.isSpent hash k = true ↔ s.isSpent hash k = true ∨ Names tx.vin hash k) := by
        intro hash wtx k hfind hk
        obtain ⟨hkeep, hmark⟩ := hspent hfind hk
        rw [hspent₂ (hother hfind) hk]
        refine ⟨?_, Or.imp_left hkeep⟩
        rintro (hs | hs)
        · exact hmark hs
        · exact Or.inr hs
      rw [hpools] at h
      rcases CTxMemPool.accept_cases (K := K) env.toPoolEnv s.pool tx true with hno | ⟨hyes, -⟩
      · rw [hno] at h
        dsimp only at h
        rw [if_pos rfl] at h
        obtain ⟨hok, rfl⟩ := Prod.mk.inj h
        cases hok
        refine ⟨?_, ?_, ?_, fun t n => ?_, nofun, hmarks⟩
        · rw [accepted, hno]
        · rw [chain, chainAfter, hno]
        · rw [hcommitted]
        · rw [hcommitted]
          simp [CWallet.committed]
      · have hpooled : (env.chainWith (s.pool.addUnchecked (tx.getHash K) tx)).pool
            (tx.getHash K) = true := by
          simp [CommitEnv.chainWith]
        have hmature := doesMature_of_accept hyes
        rw [hyes] at h
        dsimp only at h
        rw [if_neg (by decide)] at h
        cases ha : s₂.wallet.getAmounts (.ofTx tx) with
        | error e => simp [ha] at h
        | ok a =>
          obtain ⟨mapRcvd, mapSnt⟩ := a
          obtain ⟨hrange, hrcvd, hsent⟩ := CWallet.getAmounts_spec ha
          have himm : (CMerkleTx.ofTx tx).isImmature K env.clock.fTestNet
              (env.chainWith (s.pool.addUnchecked (tx.getHash K) tx)) = false := by
            rw [CMerkleTx.isImmature, show (CMerkleTx.ofTx tx).tx = tx from rfl, hmature,
              Bool.false_and]
          have hdepth : (CMerkleTx.ofTx tx).getDepthInMainChain K
              (env.chainWith (s.pool.addUnchecked (tx.getHash K) tx)) = 0 := by
            rw [getDepthInMainChain_ofTx, if_pos hpooled]
          simp only [ha, himm, hdepth] at h
          obtain ⟨hok, rfl⟩ := Prod.mk.inj h
          cases hok
          refine ⟨?_, ?_, ?_, fun t n => ?_, fun _ => hcommitted ▸ hrange, hmarks⟩
          · rw [accepted, hyes]
          · rw [chain, chainAfter, hyes]
          · dsimp only
            rw [hcommitted]
          · have hafter : s.chainAfter K env tx =
                env.chainWith (s.pool.addUnchecked (tx.getHash K) tx) := by
              rw [chainAfter, hyes]
            dsimp only
            rw [if_pos rfl, hafter, share_ofTx hmature hpooled, BalanceMaps.get_add,
              BalanceMaps.get_add, hrcvd, hsent, hcommitted]
            cases t <;> simp [CWallet.committed]

/-! ## 4. When the commitment is clean -/

/-- What the entries count for afterwards: the new one, the older ones as before, and their drift.
-/
theorem shares_committed {c c' : MainChain} (hnew : W.mapWallet.find (tx.getHash K) = none)
    (t : BalanceMapType) (n : Int32) :
    (W.committed K env tx).shares K env.clock.fTestNet c' 1 t n
        (W.committed K env tx).mapWallet.entries =
      (W.committed K env tx).share K env.clock.fTestNet c' 1 t n (.ofTx tx) +
        (W.shares K env.clock.fTestNet c 1 t n W.mapWallet.entries +
          W.drift K env c c' tx t n) := by
  have hentries : (W.committed K env tx).mapWallet.entries =
      (tx.getHash K, CMerkleTx.ofTx tx) :: W.mapWallet.entries :=
    congrArg _ (KeyedList.entries_erase hnew)
  rw [hentries, CWallet.drift]
  simp only [CWallet.shares, List.map_cons, List.sum_cons]
  omega

/-- **When `CommitTransaction` does what it should**: for a transaction that the wallet does not
have yet, a wallet whose maps agree with a snapshot, and any way of returning. -/
theorem commitTransaction_iff
    (h : s.wallet.Reconciled K env.clock.fTestNet (s.chain env))
    (hnew : s.wallet.mapWallet.find (tx.getHash K) = none)
    (hrun : commitTransaction K env s tx vfSpent = (.ok fCommitted, s')) :
    Clean K env s s' fCommitted ↔ ComesClean K env s tx := by
  obtain ⟨hacc, hchain, hwallet, hmaps, -, hspent⟩ := commitTransaction_spec hnew hrun
  obtain ⟨-, hcached⟩ := CWallet.reconciled_iff.mp h
  have hrange : s'.wallet.EntriesInRange K (s'.chain env) ↔
      (s.wallet.committed K env tx).EntriesInRange K (s.chainAfter K env tx) := by
    rw [hwallet, hchain]
    rfl
  have hshares : ∀ t n, s'.wallet.shares K env.clock.fTestNet (s'.chain env) 1 t n
      s'.wallet.mapWallet.entries = (s.wallet.committed K env tx).shares K env.clock.fTestNet
        (s.chainAfter K env tx) 1 t n (s.wallet.committed K env tx).mapWallet.entries := by
    intro t n
    rw [hwallet, hchain]
    rfl
  have htold : ∀ t n, (s'.wallet.maps t).get n = Int64.ofInt (s'.wallet.shares K
      env.clock.fTestNet (s'.chain env) 1 t n s'.wallet.mapWallet.entries) ↔
        s.untold K env tx t n ≡ 0 [ZMOD 2 ^ 64] := by
    intro t n
    rw [hmaps, hcached, hshares, shares_committed (c := s.chain env) hnew, ← Int64.ofInt_add,
      ofInt_eq_ofInt_iff, Int.modEq_iff_dvd, Int.modEq_zero_iff_dvd, untold, ← hacc]
    cases fCommitted with
    | true =>
      rw [if_pos rfl, if_pos rfl]
      ring_nf
    | false =>
      rw [if_neg Bool.false_ne_true, if_neg Bool.false_ne_true]
      ring_nf
  have hunmarked : (fCommitted = false → ∀ {hash wtx k},
      s.wallet.mapWallet.find hash = some wtx → k < wtx.tx.vout.length →
        s'.isSpent hash k = true → s.isSpent hash k = true) ↔
      (s.accepted K env tx = false → ∀ {hash wtx k},
        s.wallet.mapWallet.find hash = some wtx → k < wtx.tx.vout.length →
          Names tx.vin hash k → s.isSpent hash k = true) := by
    rw [hacc]
    refine imp_congr_right fun _ => ⟨fun hall hash wtx k hfind hk hnames => ?_,
      fun hall hash wtx k hfind hk hs => ?_⟩
    · exact hall hfind hk ((hspent hfind hk).mpr (Or.inr hnames))
    · rcases (hspent hfind hk).mp hs with hs | hs
      · exact hs
      · exact hall hfind hk hs
  constructor
  · rintro ⟨hreconciled, hun⟩
    obtain ⟨hin, hget⟩ := CWallet.reconciled_iff.mp hreconciled
    exact ⟨hrange.mp hin, fun t n => (htold t n).mp (hget t n), hunmarked.mp hun⟩
  · rintro ⟨hin, hget, hun⟩
    refine ⟨CWallet.reconciled_iff.mpr ⟨hrange.mpr hin, fun t n => (htold t n).mpr (hget t n)⟩, ?_⟩
    exact hunmarked.mpr hun

/-! A transaction that is fresh for the wallet. -/

/-- **Fresh for the wallet**: no entry has its id or spends an output of it, the pool does not have
it, and no key was added for it. -/
structure Fresh (K : Crypto) (env : CommitEnv) (s : CommitState) (tx : CTransaction) : Prop where
  absent : s.wallet.mapWallet.find (tx.getHash K) = none
  notPooled : s.pool.mapTx (tx.getHash K) = none
  isMine : env.isMine = s.wallet.isMine
  unspent : ∀ e ∈ s.wallet.mapWallet.entries,
    e.2.tx.getHash K ≠ tx.getHash K ∧ ∀ txin ∈ e.2.tx.vin, txin.prevout.hash ≠ tx.getHash K

theorem getDebit_committed (hmine : env.isMine = W.isMine) {txin : CTxIn}
    (hne : txin.prevout.hash ≠ tx.getHash K) :
    (W.committed K env tx).getDebit txin = W.getDebit txin := by
  have hsame : (W.committed K env tx).mapWallet.find txin.prevout.hash =
      W.mapWallet.find txin.prevout.hash := KeyedList.find_set_of_ne hne
  unfold CWallet.getDebit
  rw [hsame, show (W.committed K env tx).isMine = W.isMine from hmine]

/-- The depths of the other transactions do not change. -/
theorem getDepthInMainChain_chainAfter {w : CMerkleTx} (hne : w.tx.getHash K ≠ tx.getHash K) :
    w.getDepthInMainChain K (s.chainAfter K env tx) = w.getDepthInMainChain K (s.chain env) := by
  have hpool : (s.chainAfter K env tx).pool (w.tx.getHash K) =
      (s.chain env).pool (w.tx.getHash K) := by
    rw [chainAfter, chain]
    rcases CTxMemPool.accept_cases (K := K) env.toPoolEnv s.pool tx true with hno | ⟨hyes, -⟩
    · rw [hno]
    · rw [hyes]
      simp [CommitEnv.chainWith, Function.update_of_ne hne]
  have hinternal : w.getDepthInMainChainInternal K (s.chainAfter K env tx) =
      w.getDepthInMainChainInternal K (s.chain env) := rfl
  unfold CMerkleTx.getDepthInMainChain
  rw [hinternal, hpool]

theorem share_chainAfter (hfresh : Fresh K env s tx) {e : UInt256 × CMerkleTx}
    (he : e ∈ s.wallet.mapWallet.entries) (t : BalanceMapType) (n : Int32) :
    (s.wallet.committed K env tx).share K env.clock.fTestNet (s.chainAfter K env tx) 1 t n e.2 =
      s.wallet.share K env.clock.fTestNet (s.chain env) 1 t n e.2 := by
  obtain ⟨hid, hins⟩ := hfresh.unspent e he
  have hdepth := @getDepthInMainChain_chainAfter K env s tx e.2 hid
  have himm : e.2.isImmature K env.clock.fTestNet (s.chainAfter K env tx) =
      e.2.isImmature K env.clock.fTestNet (s.chain env) := by
    unfold CMerkleTx.isImmature CMerkleTx.getBlocksToMaturity
    rw [hdepth]
  have hrcvd : (s.wallet.committed K env tx).rcvdTotal e.2 n = s.wallet.rcvdTotal e.2 n := by
    unfold CWallet.rcvdTotal CWallet.credit
    rw [show (s.wallet.committed K env tx).isMine = s.wallet.isMine from hfresh.isMine]
  have hsent : (s.wallet.committed K env tx).sentTotal e.2 n = s.wallet.sentTotal e.2 n := by
    unfold CWallet.sentTotal
    refine congrArg _ (List.map_congr_left fun txin hmem => ?_)
    rw [CWallet.debit, CWallet.debit, getDebit_committed hfresh.isMine (hins txin hmem)]
  have hrcvdCount : CWallet.rcvdCount K env.clock.fTestNet (s.chainAfter K env tx) 1 e.2 t =
      CWallet.rcvdCount K env.clock.fTestNet (s.chain env) 1 e.2 t := by
    unfold CWallet.rcvdCount
    rw [hdepth, himm]
  have hsentCount : CWallet.sentCount K (s.chainAfter K env tx) e.2 t =
      CWallet.sentCount K (s.chain env) e.2 t := by
    unfold CWallet.sentCount
    rw [hdepth]
  rw [CWallet.share, CWallet.share, hrcvd, hsent, hrcvdCount, hsentCount]

/-- Out of the pool, it counts for nothing. -/
theorem share_ofTx_of_refused (hfresh : Fresh K env s tx) (hno : s.accepted K env tx = false)
    (t : BalanceMapType) (n : Int32) :
    W.share K env.clock.fTestNet (s.chainAfter K env tx) 1 t n (.ofTx tx) = 0 := by
  have hpool : (s.chainAfter K env tx).pool (tx.getHash K) = false := by
    rw [chainAfter]
    rcases CTxMemPool.accept_cases (K := K) env.toPoolEnv s.pool tx true with hacc | ⟨hyes, -⟩
    · rw [hacc]
      simp [CommitEnv.chainWith, hfresh.notPooled]
    · rw [accepted, hyes] at hno
      cases hno
  have hdepth : (CMerkleTx.ofTx tx).getDepthInMainChain K (s.chainAfter K env tx) = -1 := by
    rw [getDepthInMainChain_ofTx, hpool]
    rfl
  cases t <;> simp [CWallet.share, CWallet.rcvdCount, CWallet.sentCount, hdepth]

/-- **For a fresh transaction** the one thing that can go wrong is the mark that a refused one
leaves. -/
theorem commitTransaction_fresh_iff
    (h : s.wallet.Reconciled K env.clock.fTestNet (s.chain env)) (hfresh : Fresh K env s tx)
    (hrun : commitTransaction K env s tx vfSpent = (.ok fCommitted, s')) :
    ComesClean K env s tx ↔ (fCommitted = false → ∀ {hash wtx k},
      s.wallet.mapWallet.find hash = some wtx → k < wtx.tx.vout.length →
        Names tx.vin hash k → s.isSpent hash k = true) := by
  have hspec := commitTransaction_spec hfresh.absent hrun
  obtain ⟨hentries, -⟩ := CWallet.reconciled_iff.mp h
  rw [hspec.accepted]
  refine ⟨fun hclean => hclean.spent, fun hspent => ⟨?_, fun t n => ?_, hspent⟩⟩
  · intro e hmem hdepth
    have hcases : e = (tx.getHash K, CMerkleTx.ofTx tx) ∨ e ∈ s.wallet.mapWallet.entries := by
      rcases List.mem_cons.mp hmem with rfl | hmem
      · exact Or.inl rfl
      · exact Or.inr (KeyedList.mem_erase.mp hmem).1
    rcases hcases with rfl | he
    · refine hspec.inRange ?_
      by_contra hno
      rw [Bool.not_eq_true, hspec.accepted] at hno
      rw [getDepthInMainChain_ofTx] at hdepth
      have hpool : (s.chainAfter K env tx).pool (tx.getHash K) = true := by
        by_contra hout
        rw [if_neg hout] at hdepth
        exact absurd hdepth (by decide)
      rw [chainAfter] at hpool
      rcases CTxMemPool.accept_cases (K := K) env.toPoolEnv s.pool tx true with hacc | ⟨hyes, -⟩
      · rw [hacc] at hpool
        simp [CommitEnv.chainWith, hfresh.notPooled] at hpool
      · rw [accepted, hyes] at hno
        cases hno
    · obtain ⟨hid, hins⟩ := hfresh.unspent e he
      rw [getDepthInMainChain_chainAfter hid] at hdepth
      intro txin hin
      rw [CWallet.DebitInRange, getDebit_committed hfresh.isMine (hins txin hin)]
      exact hentries e he hdepth txin hin
  · have hdrift : s.wallet.drift K env (s.chain env) (s.chainAfter K env tx) tx t n = 0 := by
      rw [CWallet.drift, CWallet.shares, CWallet.shares,
        List.map_congr_left fun e he => share_chainAfter hfresh he t n, Int.sub_self]
    rw [untold, hdrift, Int.zero_add]
    split_ifs with hacc
    · rfl
    · rw [share_ofTx_of_refused hfresh (Bool.not_eq_true _ ▸ hacc)]

/-! A wallet that was paid, and spends what it got. -/

/-- The payment spent. -/
def spending : CTransaction :=
  ⟨1, 0, [⟨⟨CWallet.payment.getHash forkCrypto, 0⟩, [], 0⟩], [⟨5, 1, [0x51]⟩], 0, [], 0⟩

/-- The payment is not in the pool any more, so that nothing counts for anything. -/
def paidState : CommitState where
  wallet :=
    { fFileBacked := true
      isMine := fun _ => isMineSpendable
      mapWallet := ⟨[(CWallet.payment.getHash forkCrypto, .ofTx CWallet.payment)], by simp⟩
      maps := .clear }
  vfSpent _ := []
  pool := .empty

/-- The pool takes the transaction, or it does not. -/
def payEnv (fValid : Bool) : CommitEnv where
  clock := ⟨true, 1465546351⟩
  containsTx _ := false
  isStandard _ := true
  checkInputs _ _ := fValid
  chain := CWallet.unconfirmedChain false
  isMine _ := isMineSpendable
  isMineAny _ := true
  fWritten := true
  txNull := CWallet.payment

theorem paidState_reconciled (fValid : Bool) :
    paidState.wallet.Reconciled forkCrypto true (paidState.chain (payEnv fValid)) := by
  refine CWallet.reconciled_iff.mpr ⟨fun e he hdepth => ?_, fun t n => ?_⟩
  · rw [List.mem_singleton.mp he, getDepthInMainChain_ofTx] at hdepth
    exact absurd hdepth (by cases fValid <;> decide)
  · have hdepth : (CMerkleTx.ofTx CWallet.payment).getDepthInMainChain forkCrypto
        (paidState.chain (payEnv fValid)) = -1 := by
      rw [getDepthInMainChain_ofTx]
      rfl
    have hshare : paidState.wallet.share forkCrypto true (paidState.chain (payEnv fValid)) 1 t n
        (.ofTx CWallet.payment) = 0 := by
      cases t <;> simp [CWallet.share, CWallet.rcvdCount, CWallet.sentCount, hdepth]
    have hshares : paidState.wallet.shares forkCrypto true (paidState.chain (payEnv fValid)) 1 t n
        paidState.wallet.mapWallet.entries = 0 := by
      unfold CWallet.shares
      rw [show paidState.wallet.mapWallet.entries =
        [(CWallet.payment.getHash forkCrypto, CMerkleTx.ofTx CWallet.payment)] from rfl,
        List.map_singleton, List.sum_singleton, hshare]
    rw [hshares]
    rfl

theorem spending_fresh (fValid : Bool) : Fresh forkCrypto (payEnv fValid) paidState spending := by
  have hid : CWallet.payment.getHash forkCrypto ≠ spending.getHash forkCrypto := by decide +kernel
  refine ⟨?_, rfl, rfl, fun e he => ?_⟩
  · have hnone : (paidState.wallet.mapWallet.find (spending.getHash forkCrypto)).isNone = true := by
      decide +kernel
    exact Option.isNone_iff_eq_none.mp hnone
  · rw [List.mem_singleton.mp he]
    refine ⟨hid, fun txin hin => ?_⟩
    rw [List.mem_singleton.mp hin]
    decide +kernel

/-- The pool takes it: the maps say what is received and sent, and agree. -/
theorem commitTransaction_iff_accepted :
    Clean forkCrypto (payEnv true) paidState
      (commitTransaction forkCrypto (payEnv true) paidState spending []).2 true := by
  have hrun : (commitTransaction forkCrypto (payEnv true) paidState spending []).1 = .ok true := by
    decide +kernel
  have hreturns := Prod.fst_eq_iff.mp hrun
  refine (commitTransaction_iff (paidState_reconciled true) (spending_fresh true).absent
    hreturns).mpr ?_
  exact (commitTransaction_fresh_iff (paidState_reconciled true) (spending_fresh true)
    hreturns).mpr nofun

/-- **The pool refuses it**: the payment is marked as spent, and nothing has spent it. -/
theorem refused_leaves_mark :
    ¬ ∀ (K : Crypto) (env : CommitEnv) (s s' : CommitState) (tx : CTransaction)
      (vfSpent : List Bool) (fCommitted : Bool),
      s.wallet.Reconciled K env.clock.fTestNet (s.chain env) →
        s.wallet.mapWallet.find (tx.getHash K) = none →
          commitTransaction K env s tx vfSpent = (.ok fCommitted, s') →
            Clean K env s s' fCommitted := by
  intro hall
  have hrun : (commitTransaction forkCrypto (payEnv false) paidState spending []).1 =
      .ok false := by
    decide +kernel
  have hclean := hall forkCrypto (payEnv false) paidState _ spending [] false
    (paidState_reconciled false) (spending_fresh false).absent (Prod.fst_eq_iff.mp hrun)
  have hfind : paidState.wallet.mapWallet.find (CWallet.payment.getHash forkCrypto) =
      some (.ofTx CWallet.payment) := KeyedList.find_eq_some.mpr List.mem_cons_self
  have hmarked : (commitTransaction forkCrypto (payEnv false) paidState spending []).2.isSpent
      (CWallet.payment.getHash forkCrypto) 0 = true := by
    decide +kernel
  exact absurd (hclean.unmarked rfl hfind (by decide) hmarked) (by decide)

end CommitState

end Breakout
