/-
# Where a transaction lies in the block file

`ConnectBlock` enters each transaction of the block with its place in the block file.  It does not
measure that place: it starts from the size of an empty block of the same version, and adds up the
sizes of the transactions.  The empty block comes from `CBlock(nVersion)`, and that takes the version
only if it is positive, and else a version that depends on the clock.

So the places are right for every positive version, and for the others until the seventh fork
(`txPos_exact_iff`).
-/
import Breakout.Restore

namespace Breakout

open Lib

variable {K : Crypto}

/-! ## 1. The block in the file -/

/-- Where `WriteToDisk` can put a block: `AppendBlockFile` stays in a file while it is shorter than
this, and the magic and the size come first. -/
def DiskBlockPos.Appended (pos : DiskBlockPos) : Prop :=
  pos.nBlockPos.toNat < 0x7F000000 - maxSize + 8

instance (pos : DiskBlockPos) : Decidable pos.Appended :=
  inferInstanceAs (Decidable (pos.nBlockPos.toNat < 0x7F000000 - maxSize + 8))

namespace CBlock

/-- What is written of a block before a transaction with `before` in front of it. -/
def bytesBefore (block : CBlock) (before : List CTransaction) : List UInt8 :=
  block.serializeHeader ++
    (compactSize block.vtx.length ++ before.flatMap CTransaction.serialize)

/-- There the transaction starts. -/
theorem serialize_split {block : CBlock} {before after : List CTransaction} {tx : CTransaction}
    (h : block.vtx = before ++ tx :: after) :
    block.serialize = block.bytesBefore before ++
      (tx.serialize ++ (after.flatMap CTransaction.serialize ++ serBytes block.vchBlockSig)) := by
  simp only [serialize, bytesBefore, encVec, h, List.flatMap_append, List.flatMap_cons,
    List.append_assoc]

end CBlock

/-! ## 2. What the loop records -/

/-- An id has an entry with a position. -/
def PosAt (view : TxDB) (hash : UInt256) (pos : CDiskTxPos) : Prop :=
  ∃ idx, view hash = some idx ∧ idx.pos = pos

theorem PosAt.update {view : TxDB} {hash hash' : UInt256} {pos : CDiskTxPos} {idx : CTxIndex}
    (h : PosAt view hash pos) (hsame : hash = hash' → idx.pos = pos) :
    PosAt (view.update hash' idx) hash pos := by
  by_cases hh : hash = hash'
  · exact ⟨idx, by rw [hh, TxDB.update, Function.update_self], hsame hh⟩
  · obtain ⟨idx', hidx', hpos⟩ := h
    exact ⟨idx', by rw [TxDB.update, Function.update_of_ne hh, hidx'], hpos⟩

variable {tx : CTransaction} {posThisTx pos : CDiskTxPos} {hash : UInt256} {ctx : ConnectCtx}
  {s s' : ConnectState}

/-- Spending moves no entry. -/
theorem spendInputs_posAt {flags : UInt32} {txdb queued' : TxDB} :
    ∀ {vin : List CTxIn} {i : Nat} {inputs : MapPrevTx} {queued : TxDB},
      InputsAgree inputs (queued.over txdb) → PosAt (queued.over txdb) hash pos →
      spendInputs K tx flags posThisTx i vin inputs queued = .ok queued' →
      PosAt (queued'.over txdb) hash pos
  | [], i, inputs, queued, _, hat, h => by
    cases h
    exact hat
  | txin :: vin, i, inputs, queued, hagree, hat, h => by
    unfold spendInputs at h
    split at h
    · cases h
    · next idx txPrev hin =>
      split at h
      · cases h
      · next spent hspent =>
        simp only [bind_eq_ok, refuse_eq_ok] at h
        obtain ⟨-, -, -, -, h⟩ := h
        have hview := hagree _ _ _ hin
        have hagree' := hagree.update txin.prevout.hash (idx.setSpent txin.prevout.n posThisTx)
          txPrev
        refine spendInputs_posAt hagree' ?_ h
        rw [TxDB.over_update]
        refine hat.update fun hh => ?_
        obtain ⟨idx', hidx', hpos⟩ := hat
        rw [hh, hview, Option.some_inj] at hidx'
        rw [← hpos, ← hidx']
        rfl

/-- The branch for a transaction moves no entry, and leaves the running position alone. -/
theorem connectBranch_posAt (h : connectBranch K ctx s tx posThisTx = .ok s') :
    s'.nTxPos = s.nTxPos ∧ ∀ {hash pos}, PosAt (s.mapQueuedChanges.over ctx.txdb) hash pos →
      PosAt (s'.mapQueuedChanges.over ctx.txdb) hash pos := by
  unfold connectBranch at h
  cases hcb : tx.isCoinBase with
  | true =>
    simp only [hcb, if_true] at h
    obtain ⟨_, _, -, -, rfl⟩ := connectCoinBase_spec h
    exact ⟨rfl, id⟩
  | false =>
    simp only [hcb, Bool.false_eq_true, if_false, connectSpender, bind_eq_ok, pure_eq_ok,
      refuse_eq_ok] at h
    obtain ⟨inputs, hfetch, _, -, -, -, _, -, _, -, _, -, _, -, queued, hconn, rfl⟩ := h
    simp only [connectInputs, hcb, Bool.false_eq_true, if_false, bind_eq_ok, pure_eq_ok] at hconn
    obtain ⟨v, -, -, -, q, hspend, _, -, -, -, rfl⟩ := hconn
    exact ⟨rfl, fun hat => spendInputs_posAt (fetchInputs_spec hfetch).agree hat hspend⟩

/-- **One transaction** is entered at the running position, which moves past it. -/
theorem connectTx_posAt (hjust : ctx.fJustCheck = false) (h : connectTx K ctx s tx = .ok s') :
    s'.nTxPos = s.nTxPos + UInt32.ofNat tx.serialize.length ∧
      PosAt (s'.mapQueuedChanges.over ctx.txdb) (tx.getHash K)
        ⟨ctx.pindex.nFile, ctx.pindex.nBlockPos, s.nTxPos⟩ ∧
      ∀ {hash pos}, hash ≠ tx.getHash K → PosAt (s.mapQueuedChanges.over ctx.txdb) hash pos →
        PosAt (s'.mapQueuedChanges.over ctx.txdb) hash pos := by
  simp only [connectTx, bind_eq_ok, refuse_eq_ok, pure_eq_ok] at h
  obtain ⟨-, -, -, -, -, -, vOut, -, s₁, hbranch, rfl⟩ := h
  obtain ⟨hpos, hkeep⟩ := connectBranch_posAt hbranch
  refine ⟨?_, ?_, fun hne hat => ?_⟩
  · rw [hpos, ConnectState.advance, hjust]
    rfl
  · rw [TxDB.over_update]
    exact ⟨_, Function.update_self .., rfl⟩
  · rw [TxDB.over_update]
    exact (hkeep hat).update fun hh => absurd hh hne

/-- What is entered stays while other transactions are connected. -/
theorem connectTxs_posAt_of_not_mem (hjust : ctx.fJustCheck = false) :
    ∀ {vtx : List CTransaction} {s : ConnectState}, hash ∉ vtx.map (·.getHash K) →
      PosAt (s.mapQueuedChanges.over ctx.txdb) hash pos → connectTxs K ctx vtx s = .ok s' →
      PosAt (s'.mapQueuedChanges.over ctx.txdb) hash pos
  | [], s, _, hat, h => by
    cases h
    exact hat
  | tx :: vtx, s, hnot, hat, h => by
    rw [List.map_cons, List.mem_cons, not_or] at hnot
    simp only [connectTxs, bind_eq_ok] at h
    obtain ⟨s₁, htx, hrest⟩ := h
    obtain ⟨-, -, hkeep⟩ := connectTx_posAt hjust htx
    exact connectTxs_posAt_of_not_mem hjust hnot.2 (hkeep hnot.1 hat) hrest

/-- **The loop** enters each transaction at the first position and the sizes before it. -/
theorem connectTxs_posAt (hjust : ctx.fJustCheck = false) {after : List CTransaction} :
    ∀ {before : List CTransaction} {s : ConnectState},
      ((before ++ tx :: after).map (·.getHash K)).Nodup →
      connectTxs K ctx (before ++ tx :: after) s = .ok s' →
      PosAt (s'.mapQueuedChanges.over ctx.txdb) (tx.getHash K)
        ⟨ctx.pindex.nFile, ctx.pindex.nBlockPos,
          s.nTxPos + UInt32.ofNat (before.flatMap CTransaction.serialize).length⟩
  | [], s, hnd, h => by
    rw [List.nil_append, List.map_cons, List.nodup_cons] at hnd
    rw [List.nil_append] at h
    simp only [connectTxs, bind_eq_ok] at h
    obtain ⟨s₁, htx, hrest⟩ := h
    obtain ⟨-, hat, -⟩ := connectTx_posAt hjust htx
    have hzero : s.nTxPos + UInt32.ofNat 0 = s.nTxPos := UInt32.add_zero _
    rw [List.flatMap_nil, List.length_nil, hzero]
    exact connectTxs_posAt_of_not_mem hjust hnd.1 hat hrest
  | t :: before, s, hnd, h => by
    rw [List.cons_append, List.map_cons, List.nodup_cons] at hnd
    rw [List.cons_append] at h
    simp only [connectTxs, bind_eq_ok] at h
    obtain ⟨s₁, ht, hrest⟩ := h
    obtain ⟨hpos, -, -⟩ := connectTx_posAt hjust ht
    have hat := connectTxs_posAt hjust hnd.2 hrest
    rw [hpos, UInt32.add_assoc, ← UInt32.ofNat_add] at hat
    rw [List.flatMap_cons, List.length_append]
    exact hat

/-! ## 3. When the places are right -/

/-- The empty block has the header of the version, or the version is replaced by one with the other
layout. -/
theorem headerSize_defaultVersion_iff {nAdjustedTime : Nat} {nVersion : Int32} :
    headerSize (CBlock.defaultVersion nAdjustedTime nVersion) = headerSize nVersion ↔
      0 < nVersion ∨ getFork nAdjustedTime < .fork007 := by
  unfold CBlock.defaultVersion
  by_cases hpos : 0 < nVersion
  · simp [hpos]
  · have hlt : nVersion < CBlock.kawpowVersion := by
      have hseven : (0 : Int32) < CBlock.kawpowVersion := by decide
      exact Int32.lt_of_le_of_lt (Int32.not_lt.mp hpos) hseven
    rw [if_neg hpos]
    split
    · next hfork =>
      simp [headerSize, hlt, hfork, show CBlock.genesisVersion < CBlock.kawpowVersion by decide]
    · next hfork =>
      simp [headerSize, hlt, hfork, hpos, CBlock.currentVersion, Int32.lt_irrefl]

theorem headerSize_le (nVersion : Int32) : headerSize nVersion ≤ 120 := by
  unfold headerSize
  split <;> omega

/-- The bytes before a transaction are fewer than those of the block. -/
theorem CBlock.length_bytesBefore_le {block : CBlock} {before after : List CTransaction}
    (h : block.vtx = before ++ tx :: after) :
    (block.bytesBefore before).length ≤ block.serialize.length := by
  rw [block.serialize_split h, List.length_append]
  omega

/-- **When `ConnectBlock` records where the transactions lie.**  Every transaction of the block is
entered at the offset at which its bytes start if and only if the version is positive, or the clock
is before the seventh fork. -/
theorem txPos_exact_iff {env : NodeEnv} {txdb txdb' : TxDB} {pos : DiskBlockPos} {block : CBlock}
    {pprev pindex' : CBlockIndex} {ancestors : List CBlockIndex} (happended : pos.Appended)
    (h : connectBlock K env txdb (newBlockIndex pos block pprev) pprev ancestors block false =
      .ok (pindex', txdb')) :
    (∀ before tx after, block.vtx = before ++ tx :: after →
      ∃ idx, txdb' (tx.getHash K) = some idx ∧ idx.pos.nFile = pos.nFile ∧
        idx.pos.nBlockPos = pos.nBlockPos ∧
        idx.pos.nTxPos.toNat = pos.nBlockPos.toNat + (block.bytesBefore before).length) ↔
      0 < block.nVersion ∨ getFork env.clock.nAdjustedTime < .fork007 := by
  obtain ⟨l, hcon⟩ := connectBlock_spec h
  have hsize := hcon.checked.size_le
  have hnd := hcon.checked.txids_nodup
  obtain ⟨coinbase, rest, hvtx, -⟩ := hcon.checked.coinbase_first
  simp only [connectBlock, connectBody, bind_eq_ok, pure_eq_ok, Prod.mk.injEq, Prod.exists] at h
  obtain ⟨_, _, ⟨_, -, s, hloop, _, -, _, -, -, rfl⟩, _, -, -, rfl⟩ := h
  -- the place of a transaction, as it is recorded
  have hat : ∀ before tx after, block.vtx = before ++ tx :: after →
      ∃ idx, s.mapQueuedChanges.over txdb (tx.getHash K) = some idx ∧ idx.pos.nFile = pos.nFile ∧
        idx.pos.nBlockPos = pos.nBlockPos ∧ idx.pos.nTxPos.toNat = pos.nBlockPos.toNat +
          (headerSize (CBlock.defaultVersion env.clock.nAdjustedTime block.nVersion) +
            (compactSize block.vtx.length).length +
            (before.flatMap CTransaction.serialize).length) := by
    intro before tx after hsplit
    have hle := CBlock.length_bytesBefore_le hsplit
    have hhead := headerSize_le (CBlock.defaultVersion env.clock.nAdjustedTime block.nVersion)
    simp only [CBlock.bytesBefore, List.length_append, CBlock.length_serializeHeader] at hle
    rw [hsplit] at hnd
    have hrun := hloop
    rw [hsplit] at hrun
    obtain ⟨idx, hidx, hpos⟩ := connectTxs_posAt rfl hnd hrun
    refine ⟨idx, hidx, by rw [hpos]; rfl, by rw [hpos]; rfl, ?_⟩
    rw [hpos]
    simp only [ConnectState.init, Bool.false_eq_true, if_false, newBlockIndex]
    simp only [DiskBlockPos.Appended, maxSize] at happended
    simp only [maxBlockSize] at hsize
    rw [← hsplit, UInt32.add_assoc, ← UInt32.ofNat_add, UInt32.toNat_add, UInt32.toNat_ofNat']
    omega
  have hbytes : ∀ before : List CTransaction, (block.bytesBefore before).length =
      headerSize block.nVersion + (compactSize block.vtx.length).length +
        (before.flatMap CTransaction.serialize).length := by
    intro before
    simp only [CBlock.bytesBefore, List.length_append, CBlock.length_serializeHeader]
    omega
  simp only [Bool.false_eq_true, if_false]
  rw [← headerSize_defaultVersion_iff]
  constructor
  · intro hexact
    obtain ⟨idx, hidx, -, -, hpos⟩ := hexact [] coinbase rest hvtx
    obtain ⟨idx', hidx', -, -, hpos'⟩ := hat [] coinbase rest hvtx
    rw [hidx, Option.some_inj] at hidx'
    rw [← hidx', hpos, hbytes] at hpos'
    omega
  · intro hsame before tx after hsplit
    obtain ⟨idx, hidx, hfile, hblock, hpos⟩ := hat before tx after hsplit
    refine ⟨idx, hidx, hfile, hblock, ?_⟩
    rw [hpos, hbytes, hsame]

/-- A block of version 7 is entered where it lies. -/
theorem txPos_exact_spendBlock :
    ∃ pindex' txdb', spendTip.connect spendCrypto (spendDisk goodSig) (spendBlock goodSig) =
        .ok (pindex', txdb') ∧
      ∀ before tx after, (spendBlock goodSig).vtx = before ++ tx :: after →
        ∃ idx, txdb' (tx.getHash spendCrypto) = some idx ∧ idx.pos.nFile = spendTip.pos.nFile ∧
          idx.pos.nBlockPos = spendTip.pos.nBlockPos ∧ idx.pos.nTxPos.toNat =
            spendTip.pos.nBlockPos.toNat + ((spendBlock goodSig).bytesBefore before).length := by
  have hgood : (spendTip.connect spendCrypto (spendDisk goodSig)
      (spendBlock goodSig)).accepts = true := by decide +kernel
  obtain ⟨⟨pindex', txdb'⟩, hconn⟩ := accepts_iff.mp hgood
  have happended : spendTip.pos.Appended := by decide
  exact ⟨pindex', txdb', hconn, (txPos_exact_iff happended hconn).mpr (Or.inl (by decide))⟩

/-- A proof-of-work block of version 0, with a coinbase only. -/
def versionlessBlock : CBlock :=
  let block : CBlock := ⟨0, 0, 0, 1777836782, 0x1d00ffff, 0, 0, 0, 0, [spendCoinbase], []⟩
  { block with hashMerkleRoot := block.buildMerkleTree spendCrypto }

/-- **It is entered forty bytes past its coinbase**, when the clock is past the seventh fork. -/
theorem txPos_of_version_zero :
    (∃ r ∈ (spendTip.connect spendCrypto (fun _ => none) versionlessBlock).toOption,
      (r.2 (spendCoinbase.getHash spendCrypto)).map (fun idx => idx.pos.nTxPos.toNat) =
        some 2121) ∧
      spendTip.pos.nBlockPos.toNat + (versionlessBlock.bytesBefore []).length = 2081 := by
  decide +kernel

end Breakout
