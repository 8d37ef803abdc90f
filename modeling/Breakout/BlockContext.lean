/-
# Is `CheckBlock` independent of context?

"These are checks that are independent of context that can be verified before saving an orphan
block", says the comment at the head of `CheckBlock`.  All of them are, with one exception: from
the seventh fork on, the signature of a proof-of-stake block whose coinstake spends a
pay-to-pubkey output is checked against the key of that output, which is read from the node's
transaction store.  A node that has not connected the block with the staked output cannot read
it and refuses the block.

`checkBlock_independent_iff` says for which blocks the verdict is the same in every consistent
store.
-/
import Breakout.Block

namespace Breakout

open Lib

variable (K : Crypto)

/-- What is stored under an id has that id. -/
def TxStore.Consistent (st : TxStore) : Prop :=
  ∀ hash idx tx, st.txdb hash = some idx → st.disk idx.pos = some tx → tx.getHash K = hash

/-- A node that has connected nothing yet. -/
def TxStore.empty : TxStore := ⟨fun _ => none, fun _ => none⟩

/-- A node that has one transaction in its index. -/
def TxStore.single (tx : CTransaction) : TxStore :=
  ⟨fun hash => if hash = tx.getHash K then some (.new ⟨1, 0, 0⟩ tx.vout.length) else none,
    fun _ => some tx⟩

/-- The key the signature is checked against is that of the output the coinstake spends first,
and there is a transaction with the id the input names whose output has a key under which the
signature verifies. -/
def SignedByStakedKey (block : CBlock) : Prop :=
  ∃ coinbase coinstake rest txin ins,
    block.vtx = coinbase :: coinstake :: rest ∧ coinstake.vin = txin :: ins ∧
    getScriptSigType txin.scriptSig = .p2pk ∧
    ∃ (txPrev : CTransaction) (prevout : CTxOut) (vchPubKey : Valtype) (sols : List Valtype)
      (hash : UInt256),
      txPrev.getHash K = txin.prevout.hash ∧ txPrev.vout[txin.prevout.n.toNat]? = some prevout ∧
      solver prevout.scriptPubKey = (true, .pubkey, vchPubKey :: sols) ∧
      block.getHash K = .ok hash ∧ pubKeyVerify K vchPubKey hash block.vchBlockSig = true

/-- Everything but the signature is in order. -/
structure OtherwiseValid (clock : Clock) (block : CBlock) : Prop where
  size : ¬ (block.vtx = [] ∨ block.vtx.length > maxBlockSize ∨
    block.serialize.length > maxBlockSize)
  work : checkWork K clock block true = .ok ()
  notFuture : block.nTime.toNat ≤ futureDrift clock.fTestNet clock.nAdjustedTime
  coinbaseFirst : ∃ tx ∈ block.vtx.head?, tx.isCoinBase = true
  oneCoinbase : ¬ ∃ tx ∈ block.vtx.tail, tx.isCoinBase = true
  coinbaseTime : ¬ ∃ tx ∈ block.vtx.head?,
    block.nTime.toNat > futureDrift clock.fTestNet tx.nTime.toNat
  stake : checkStake K clock .empty block false = .ok ()
  transactions : checkTransactions clock block.nTime.toNat block.vtx = .ok ()
  txids : (block.vtx.map (·.getHash K)).Nodup
  sigops : (block.vtx.map (·.getLegacySigOpCount)).sum ≤ maxBlockSigops
  merkleRoot : block.hashMerkleRoot = block.buildMerkleTree K

/-- The blocks whose verdict depends on the store. -/
structure ReadsStore (clock : Clock) (block : CBlock) : Prop where
  otherwiseValid : OtherwiseValid K clock block
  proofOfStake : block.isProofOfStake = true
  fork : Fork.fork007 ≤ getFork block.nTime.toNat
  signed : block.vchBlockSig ≠ []
  stakedKey : SignedByStakedKey K block

variable {K}

variable {clock : Clock} {st : TxStore} {block : CBlock} {txin : CTxIn}

/-- The checks a proof-of-stake block gets, with the signature set apart. -/
theorem checkStake_eq_ok_iff {u : Unit} :
    checkStake K clock st block true = .ok u ↔
      checkStake K clock .empty block false = .ok () ∧
        (block.isProofOfStake = true → checkBlockSignature K st block = .ok .sigOk) := by
  unfold checkStake checkStakeSig
  cases hpos : block.isProofOfStake with
  | false => simp
  | true =>
    simp only [if_true, bind_eq_ok, refuse_eq_ok, Bool.false_eq_true, if_false, and_true,
      exists_const, forall_const]
    constructor
    · rintro ⟨h1, h2, h3, code, hcode, hok⟩
      exact ⟨⟨h1, h2, h3⟩, by rw [hcode, not_not.mp hok]⟩
    · rintro ⟨⟨h1, h2, h3⟩, hsig⟩
      exact ⟨h1, h2, h3, .sigOk, hsig, by simp⟩

/-- The signature is the only thing `CheckBlock` needs the store for. -/
theorem checkBlock_eq_ok_iff :
    checkBlock K clock st block true true true = .ok () ↔
      OtherwiseValid K clock block ∧
        (block.isProofOfStake = true → checkBlockSignature K st block = .ok .sigOk) := by
  simp only [checkBlock, bind_eq_ok, refuse_eq_ok, checkStake_eq_ok_iff]
  constructor
  · rintro ⟨_, h1, _, h2, _, h3, _, h4, _, h5, _, h6, _, ⟨h7, hsig⟩, _, h8, _, h9, _, h10, h11⟩
    exact ⟨⟨h1, h2, not_lt.mp h3, not_not.mp h4, h5, h6, h7, h8, not_not.mp h9, not_lt.mp h10,
      by simpa using h11⟩, hsig⟩
  · rintro ⟨⟨h1, h2, h3, h4, h5, h6, h7, h8, h9, h10, h11⟩, hsig⟩
    exact ⟨(), h1, (), h2, (), not_lt.mpr h3, (), not_not.mpr h4, (), h5, (), h6, (), ⟨h7, hsig⟩,
      (), h8, (), not_not.mpr h9, (), not_lt.mpr h10, by simpa using h11⟩

theorem verifyBlockSig_eq_sigOk_iff {vchPubKey : Valtype} :
    verifyBlockSig K block vchPubKey = .ok .sigOk ↔
      ∃ hash, block.getHash K = .ok hash ∧
        pubKeyVerify K vchPubKey hash block.vchBlockSig = true := by
  simp only [verifyBlockSig, bind_eq_ok, pure_eq_ok]
  constructor
  · rintro ⟨hash, hh, hv⟩
    refine ⟨hash, hh, ?_⟩
    by_contra hn
    rw [if_neg hn] at hv
    cases hv
  · rintro ⟨hash, hh, hv⟩
    exact ⟨hash, hh, if_pos hv⟩

/-- When the signature of a coinstake that spends pay-to-pubkey is good. -/
theorem checkSigP2PK_eq_sigOk_iff :
    checkSigP2PK K st block txin = .ok .sigOk ↔
      ∃ txPrev idx prevout vchPubKey sols,
        readFromDisk st.txdb st.disk txin.prevout = some (txPrev, idx) ∧
        txPrev.vout[txin.prevout.n.toNat]? = some prevout ∧
        solver prevout.scriptPubKey = (true, .pubkey, vchPubKey :: sols) ∧
        verifyBlockSig K block vchPubKey = .ok .sigOk := by
  unfold checkSigP2PK
  cases hr : readFromDisk st.txdb st.disk txin.prevout with
  | none => simp
  | some p =>
    obtain ⟨txPrev, idx⟩ := p
    cases ho : txPrev.vout[txin.prevout.n.toNat]? with
    | none => simp [ho]
    | some prevout =>
      simp only [ho]
      split
      · next hs => simp [ho, hs]
      · next vchPubKey sols hs =>
        constructor
        · exact fun h => ⟨txPrev, idx, prevout, vchPubKey, sols, rfl, ho, hs, h⟩
        · rintro ⟨_, _, _, _, _, he, ho', hs', h⟩
          cases he
          rw [ho] at ho'
          cases ho'
          rw [hs] at hs'
          cases hs'
          exact h
      · next hnot hs =>
        constructor
        · intro h
          cases h
        · rintro ⟨_, _, _, vchPubKey, sols, he, ho', hs', -⟩
          cases he
          rw [ho] at ho'
          cases ho'
          rw [hs] at hs'
          cases hs'
          exact absurd rfl (hnot vchPubKey sols rfl)

theorem readFromDisk_spec (hst : st.Consistent K) {prevout : COutPoint} {tx : CTransaction}
    {idx : CTxIndex} (h : readFromDisk st.txdb st.disk prevout = some (tx, idx)) :
    tx.getHash K = prevout.hash := by
  unfold readFromDisk at h
  cases hdb : st.txdb prevout.hash with
  | none => simp [hdb] at h
  | some txindex =>
    simp only [hdb] at h
    cases hd : st.disk txindex.pos with
    | none => simp [hd] at h
    | some tx' =>
      simp only [hd] at h
      split at h
      · cases h
      · cases h
        exact hst _ _ _ hdb hd

/-- A proof-of-stake block has a coinstake with an input and a second output. -/
theorem exists_coinstake (h : block.isProofOfStake = true) :
    ∃ coinbase coinstake rest txin ins out0 out1 outs,
      block.vtx = coinbase :: coinstake :: rest ∧ coinstake.vin = txin :: ins ∧
        coinstake.vout = out0 :: out1 :: outs := by
  unfold CBlock.isProofOfStake at h
  split at h
  · next coinbase coinstake rest hv =>
    unfold CTransaction.isCoinStake at h
    split at h
    · next txin ins out0 out1 outs hin hout =>
      exact ⟨coinbase, coinstake, rest, txin, ins, out0, out1, outs, hv, hin, hout⟩
    · cases h
  · cases h

theorem checkBlockSignature_eq {coinbase coinstake : CTransaction} {rest : List CTransaction}
    {ins : List CTxIn} {out0 out1 : CTxOut} {outs : List CTxOut}
    (hpos : block.isProofOfStake = true) (hsig : block.vchBlockSig ≠ [])
    (hv : block.vtx = coinbase :: coinstake :: rest) (hin : coinstake.vin = txin :: ins)
    (hout : coinstake.vout = out0 :: out1 :: outs) :
    checkBlockSignature K st block = checkSigCoinStake K st block txin out1 := by
  obtain ⟨nVersion, nTime, vin, vout, nLockTime, strTxComment, nServiceTypeID⟩ := coinstake
  cases hin
  cases hout
  unfold checkBlockSignature
  rw [if_neg (by simp [hpos]), if_neg hsig]
  simp only [hv]

/-- A good signature in one consistent store is good in all, or was checked against the staked
output's key. -/
theorem checkBlockSignature_independent {st' : TxStore} (hst : st.Consistent K)
    (hpos : block.isProofOfStake = true)
    (hstore : ¬ (Fork.fork007 ≤ getFork block.nTime.toNat ∧ block.vchBlockSig ≠ [] ∧
      SignedByStakedKey K block))
    (h : checkBlockSignature K st block = .ok .sigOk) :
    checkBlockSignature K st' block = .ok .sigOk := by
  obtain ⟨coinbase, coinstake, rest, txin, ins, out0, out1, outs, hv, hin, hout⟩ :=
    exists_coinstake hpos
  by_cases hsig : block.vchBlockSig = []
  · simp [checkBlockSignature, hpos, hsig] at h
  · rw [checkBlockSignature_eq hpos hsig hv hin hout] at h ⊢
    unfold checkSigCoinStake at h ⊢
    by_cases hfork : Fork.fork007 ≤ getFork block.nTime.toNat
    · rw [if_pos hfork] at h ⊢
      cases htype : getScriptSigType txin.scriptSig with
      | p2pk =>
        -- the only path through the store: reading it back gives what `hstore` excludes
        simp only [htype] at h
        obtain ⟨txPrev, idx, prevout, vchPubKey, sols, hr, ho, hs, hver⟩ :=
          checkSigP2PK_eq_sigOk_iff.mp h
        obtain ⟨hash, hh, hverify⟩ := verifyBlockSig_eq_sigOk_iff.mp hver
        exact absurd ⟨hfork, hsig, coinbase, coinstake, rest, txin, ins, hv, hin, htype, txPrev,
          prevout, vchPubKey, sols, hash, readFromDisk_spec hst hr, ho, hs, hh, hverify⟩ hstore
      | p2pkh => simpa only [htype] using h
      | unknown => simpa only [htype] using h
    · rw [if_neg hfork] at h ⊢
      exact h

theorem TxStore.empty_consistent : TxStore.empty.Consistent K := by
  intro hash idx tx h
  cases h

theorem TxStore.single_consistent (tx : CTransaction) : (TxStore.single K tx).Consistent K := by
  intro hash idx tx' h htx
  simp only [TxStore.single] at h htx
  split at h
  · next hh =>
    cases htx
    exact hh.symm
  · cases h

/-- The store that holds the staked transaction makes the signature good. -/
theorem checkBlockSignature_single (hpos : block.isProofOfStake = true)
    (hfork : Fork.fork007 ≤ getFork block.nTime.toNat) (hsig : block.vchBlockSig ≠ [])
    (h : SignedByStakedKey K block) :
    ∃ st : TxStore, st.Consistent K ∧ checkBlockSignature K st block = .ok .sigOk := by
  obtain ⟨_, _, _, _, _, out0, out1, outs, hv', hin', hout'⟩ := exists_coinstake hpos
  obtain ⟨coinbase, coinstake, rest, txin, ins, hv, hin, htype, txPrev, prevout, vchPubKey, sols,
    hash, hid, ho, hs, hh, hverify⟩ := h
  rw [hv] at hv'
  cases hv'
  refine ⟨.single K txPrev, TxStore.single_consistent txPrev, ?_⟩
  rw [checkBlockSignature_eq hpos hsig hv hin hout', checkSigCoinStake, if_pos hfork]
  simp only [htype]
  have hread : readFromDisk (TxStore.single K txPrev).txdb (TxStore.single K txPrev).disk
      txin.prevout = some (txPrev, .new ⟨1, 0, 0⟩ txPrev.vout.length) := by
    have hlen : ¬ txPrev.vout.length ≤ txin.prevout.n.toNat := by
      intro hle
      rw [List.getElem?_eq_none_iff.mpr hle] at ho
      cases ho
    simp [readFromDisk, TxStore.single, hid, hlen]
  exact checkSigP2PK_eq_sigOk_iff.mpr ⟨txPrev, _, prevout, vchPubKey, sols, hread, ho, hs,
    verifyBlockSig_eq_sigOk_iff.mpr ⟨hash, hh, hverify⟩⟩

/-- Without the staked transaction the signature cannot be checked. -/
theorem checkBlockSignature_empty (hpos : block.isProofOfStake = true)
    (hfork : Fork.fork007 ≤ getFork block.nTime.toNat) (hsig : block.vchBlockSig ≠ [])
    (h : SignedByStakedKey K block) :
    checkBlockSignature K .empty block = .ok .txUnreadable := by
  obtain ⟨_, _, _, _, _, out0, out1, outs, hv', hin', hout'⟩ := exists_coinstake hpos
  obtain ⟨coinbase, coinstake, rest, txin, ins, hv, hin, htype, -⟩ := h
  rw [hv] at hv'
  cases hv'
  rw [checkBlockSignature_eq hpos hsig hv hin hout', checkSigCoinStake, if_pos hfork]
  simp only [htype]
  rfl

/-- **For which blocks `CheckBlock` is independent of context.** -/
theorem checkBlock_independent_iff (clock : Clock) (block : CBlock) :
    (∀ st st' : TxStore, st.Consistent K → st'.Consistent K →
      (checkBlock K clock st block true true true).accepts =
        (checkBlock K clock st' block true true true).accepts) ↔
      ¬ ReadsStore K clock block := by
  constructor
  · intro hsame hreads
    obtain ⟨st, hst, hok⟩ := checkBlockSignature_single hreads.proofOfStake hreads.fork
      hreads.signed hreads.stakedKey
    have hacc : (checkBlock K clock st block true true true).accepts = true := by
      rw [accepts_iff]
      exact ⟨(), checkBlock_eq_ok_iff.mpr ⟨hreads.otherwiseValid, fun _ => hok⟩⟩
    rw [hsame st .empty hst TxStore.empty_consistent, accepts_iff] at hacc
    obtain ⟨⟨⟩, hempty⟩ := hacc
    have hsig := (checkBlock_eq_ok_iff.mp hempty).2 hreads.proofOfStake
    rw [checkBlockSignature_empty hreads.proofOfStake hreads.fork hreads.signed
      hreads.stakedKey] at hsig
    cases hsig
  · intro hnot
    have key : ∀ st st' : TxStore, st.Consistent K →
        (checkBlock K clock st block true true true).accepts = true →
        (checkBlock K clock st' block true true true).accepts = true := by
      intro st st' hst hacc
      obtain ⟨⟨⟩, hok⟩ := accepts_iff.mp hacc
      obtain ⟨hother, hsig⟩ := checkBlock_eq_ok_iff.mp hok
      refine accepts_iff.mpr ⟨(), checkBlock_eq_ok_iff.mpr ⟨hother, fun hpos => ?_⟩⟩
      refine checkBlockSignature_independent hst hpos ?_ (hsig hpos)
      rintro ⟨hfork, hsigned, hkey⟩
      exact hnot ⟨hother, hpos, hfork, hsigned, hkey⟩
    intro st st' hst hst'
    rw [Bool.eq_iff_iff]
    exact ⟨key st st' hst, key st' st hst'⟩

/-- A transaction with one pay-to-pubkey output, which can be staked. -/
def stakedTx : CTransaction :=
  ⟨1, 1777000000, [⟨⟨7, 0⟩, [], 0xffffffff⟩],
    [⟨100000000, Color.brx.toInt32, 0x21 :: samplePubKey ++ [opChecksig]⟩], 0, [], 0⟩

/-- The owner of `stakedTx`'s key has signed the block id zero. -/
def stakerSigned : List (List UInt8 × UInt256 × List UInt8) := [(samplePubKey, 0, [0x30])]

/-- A proof-of-stake block after the seventh fork.  Its coinstake spends `stakedTx`'s output with
a script that pushes nothing but a signature. -/
def stakedBlock : CBlock :=
  let coinbase : CTransaction :=
    ⟨1, 1777836782, [⟨⟨0, 0xffffffff⟩, [1, 1], 0⟩], [⟨0, Color.brk.toInt32, []⟩], 0, [], 0⟩
  let coinstake : CTransaction :=
    ⟨1, 1777836782,
      [⟨⟨stakedTx.getHash (Crypto.sample stakerSigned), 0⟩,
        [9, 0x30, 6, 2, 1, 1, 2, 1, 1, 1], 0⟩],
      [⟨0, Color.brx.toInt32, []⟩, ⟨100000000, Color.brx.toInt32, [op1]⟩], 0, [], 0⟩
  let block : CBlock := ⟨7, 0, 0, 1777836782, 0, 0, 1, 0, 1, [coinbase, coinstake], [0x30]⟩
  { block with hashMerkleRoot := block.buildMerkleTree (Crypto.sample stakerSigned) }

/-- **`CheckBlock` depends on what the node has synced.**  The node that knows the staked
transaction accepts the block; the one that does not rejects it and raises the sender's
score. -/
theorem checkBlock_depends_on_store :
    let K := Crypto.sample stakerSigned
    let clock : Clock := ⟨false, 1777836782⟩
    (TxStore.single K stakedTx).Consistent K ∧ TxStore.empty.Consistent K ∧
      checkBlock K clock (.single K stakedTx) stakedBlock true true true = .ok () ∧
      checkBlock K clock .empty stakedBlock true true true =
        .error (.reject 5 "CheckBlock() : bad proof-of-stake block signature") :=
  ⟨TxStore.single_consistent _, TxStore.empty_consistent, by decide +kernel, by decide +kernel⟩

end Breakout
