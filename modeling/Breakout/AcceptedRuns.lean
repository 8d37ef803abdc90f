/-
# Accepted blocks, connected and disconnected

`Accepted` chains grow only.  A node also takes blocks off again, and the ids of its chain do not
repeat then either: the positions in the index stay those of blocks of the chain, because what a
block entered goes with it, and the times of what is left are those of a shorter accepted chain.
-/
import Breakout.DoubleSpend

namespace Breakout

open Lib

variable {K : Crypto} {T : Set CTransaction} {fTestNet : Bool} {g : DiskBlockPos}

/-- **Runs over accepted blocks**, connected and disconnected in any order. -/
inductive AcceptedRun (K : Crypto) (T : Set CTransaction) (fTestNet : Bool) (g : DiskBlockPos) :
    ChainState → Prop
  | genesis : AcceptedRun K T fTestNet g ⟨fun _ => none, []⟩
  | connect {s : ChainState} {env : NodeEnv} {pos : DiskBlockPos} {block : CBlock}
      {pindex' : CBlockIndex} {txdb' : TxDB} :
      AcceptedRun K T fTestNet g s → env.clock.fTestNet = fTestNet →
      (∀ tx, env.Holds tx → tx ∈ T) → (∀ tx ∈ block.vtx, tx ∈ T) →
      (tipOf g s.blocks).nTime < block.nTime →
      connectBlock K env s.txdb (newBlockIndex pos block (tipOf g s.blocks)) (tipOf g s.blocks)
        (ancestorsOf g s.blocks) block false = .ok (pindex', txdb') →
      AcceptedRun K T fTestNet g ⟨txdb', (pindex', block) :: s.blocks⟩
  | disconnect {txdb txdb' : TxDB} {pindex : CBlockIndex} {block : CBlock} {rest : Blocks}
      {env : NodeEnv} :
      AcceptedRun K T fTestNet g ⟨txdb, (pindex, block) :: rest⟩ →
      disconnectBlock K env txdb block = .ok txdb' → AcceptedRun K T fTestNet g ⟨txdb', rest⟩

variable {s : ChainState} {txdb' : TxDB}

theorem AcceptedRun.reachable (h : AcceptedRun K T fTestNet g s) :
    Reachable K T fTestNet g s := by
  induction h with
  | genesis => exact .genesis
  | connect _ htest hholds hmem _ hconn ih => exact .connect ih htest hholds hmem hconn
  | disconnect _ hd ih => exact .disconnect ih hd

/-- A run to a chain is a run to every chain below it. -/
theorem AcceptedRun.suffix (h : AcceptedRun K T fTestNet g s) {l : Blocks} (hl : l <:+ s.blocks) :
    ∃ db, AcceptedRun K T fTestNet g ⟨db, l⟩ := by
  induction h with
  | genesis =>
    obtain rfl := List.suffix_nil.mp hl
    exact ⟨_, .genesis⟩
  | connect hrun htest hholds hmem htime hconn ih =>
    rcases List.suffix_cons_iff.mp hl with rfl | hl
    · exact ⟨_, .connect hrun htest hholds hmem htime hconn⟩
    · exact ih hl
  | disconnect _ _ ih => exact ih (hl.trans (List.suffix_cons _ _))

/-- The entries of `db'` are entries of `db`, at their places. -/
def Keeps (db db' : TxDB) : Prop :=
  ∀ hash idx, db' hash = some idx → ∃ idx₀, db hash = some idx₀ ∧ idx₀.pos = idx.pos

theorem Keeps.refl (db : TxDB) : Keeps db db := fun _ idx h => ⟨idx, h, rfl⟩

theorem Keeps.trans {a b c : TxDB} (h : Keeps a b) (h' : Keeps b c) : Keeps a c := by
  intro hash idx hidx
  obtain ⟨idx₁, h₁, hpos₁⟩ := h' hash idx hidx
  obtain ⟨idx₀, h₀, hpos₀⟩ := h hash idx₁ h₁
  exact ⟨idx₀, h₀, hpos₀.trans hpos₁⟩

theorem giveBackInputs_keeps :
    ∀ {vin : List CTxIn} {txdb : TxDB}, giveBackInputs vin txdb = .ok txdb' → Keeps txdb txdb'
  | [], txdb, h => by
    cases h
    exact .refl _
  | txin :: vin, txdb, h => by
    unfold giveBackInputs at h
    split at h
    · cases h
    · next idx hidx =>
      simp only [bind_eq_ok, refuse_eq_ok] at h
      obtain ⟨-, -, h⟩ := h
      refine Keeps.trans ?_ (giveBackInputs_keeps h)
      intro hash idx' hidx'
      by_cases hh : hash = txin.prevout.hash
      · subst hh
        rw [TxDB.update, Function.update_self, Option.some_inj] at hidx'
        exact ⟨idx, hidx, by rw [← hidx']; rfl⟩
      · rw [TxDB.update, Function.update_of_ne hh] at hidx'
        exact ⟨idx', hidx', rfl⟩

theorem keeps_erase (db : TxDB) (id : UInt256) :
    Keeps db (db.erase id) ∧ (db.erase id) id = none := by
  refine ⟨fun hash idx h => ?_, Function.update_self ..⟩
  by_cases hh : hash = id
  · subst hh
    rw [TxDB.erase, Function.update_self] at h
    cases h
  · rw [TxDB.erase, Function.update_of_ne hh] at h
    exact ⟨idx, h, rfl⟩

theorem disconnectInputs_keeps {txdb : TxDB} {tx : CTransaction}
    (h : disconnectInputs K txdb tx = .ok txdb') :
    Keeps txdb txdb' ∧ txdb' (tx.getHash K) = none := by
  unfold disconnectInputs at h
  split at h
  · cases h
    exact keeps_erase _ _
  · simp only [bind_eq_ok, pure_eq_ok] at h
    obtain ⟨db, hgive, rfl⟩ := h
    obtain ⟨hkeeps, hnone⟩ := keeps_erase db (tx.getHash K)
    exact ⟨(giveBackInputs_keeps hgive).trans hkeeps, hnone⟩

/-- **Disconnecting transactions** moves no entry, and leaves none under their ids. -/
theorem disconnectTxs_keeps :
    ∀ {l : List CTransaction} {txdb : TxDB}, disconnectTxs K l txdb = .ok txdb' →
      Keeps txdb txdb' ∧ ∀ tx ∈ l, txdb' (tx.getHash K) = none
  | [], txdb, h => by
    cases h
    exact ⟨.refl _, nofun⟩
  | tx :: l, txdb, h => by
    simp only [disconnectTxs, bind_eq_ok] at h
    obtain ⟨db, hdi, h⟩ := h
    obtain ⟨hkeeps, hnone⟩ := disconnectInputs_keeps hdi
    obtain ⟨hkeeps', hall⟩ := disconnectTxs_keeps h
    refine ⟨hkeeps.trans hkeeps', List.forall_mem_cons.mpr ⟨?_, hall⟩⟩
    -- an entry that is there in the end was there after `tx`
    cases hend : txdb' (tx.getHash K) with
    | none => rfl
    | some idx =>
      obtain ⟨idx₀, h₀, -⟩ := hkeeps' _ idx hend
      rw [hnone] at h₀
      cases h₀

/-- Only the positions in the invariant of accepted chains are those of a database. -/
theorem AcceptedInv.withStored {db : TxDB} (h : AcceptedInv K fTestNet g ⟨db, s.blocks⟩)
    (hstored : PosOk K s.blocks s.txdb) :
    AcceptedInv K fTestNet g s :=
  ⟨h.heights, h.times, h.blockTimes, hstored, h.txids, h.mature⟩

theorem AcceptedInv.nil : AcceptedInv K fTestNet g ⟨fun _ => none, []⟩ := by
  have hpos : PosOk K [] fun _ => none := fun hash idx h => nomatch h
  exact ⟨by simp [HeightsFall, ancestorsOf], by simp, by simp, hpos, by simp, by simp [consumed]⟩

/-- The invariant of accepted chains holds of every chain the run could go back to. -/
theorem AcceptedRun.invs (hT : CollisionFree K T) (h : AcceptedRun K T fTestNet g s) :
    PosOk K s.blocks s.txdb ∧
      ∀ l : Blocks, l <:+ s.blocks → ∃ db, AcceptedInv K fTestNet g ⟨db, l⟩ := by
  induction h with
  | genesis =>
    have hnil : AcceptedInv K fTestNet g ⟨fun _ => none, []⟩ := .nil
    refine ⟨hnil.stored, fun l hl => ?_⟩
    obtain rfl := List.suffix_nil.mp hl
    exact ⟨_, hnil⟩
  | @connect s env pos block pindex' txdb' hrun htest hholds hmem htime hconn ih =>
    obtain ⟨hstored, hsuffixes⟩ := ih
    obtain ⟨db, hdb⟩ := hsuffixes s.blocks List.suffix_rfl
    obtain ⟨hchain, hset⟩ := hrun.reachable.inv hT
    obtain ⟨l, hb⟩ := connectBlock_spec hconn
    have hok : LedgerOk K T (txsOf ((pindex', block) :: s.blocks)) :=
      (hb.ledgerOk hT hholds hmem (hchain.ledgerOk hT) hset).1
    have hinv := (hdb.withStored hstored).step hT hok hset htest hholds htime hb
    refine ⟨hinv.stored, fun l hl => ?_⟩
    rcases List.suffix_cons_iff.mp hl with rfl | hl
    · exact ⟨txdb', hinv⟩
    · exact hsuffixes l hl
  | @disconnect txdb txdb' pindex block rest env _ hd ih =>
    obtain ⟨hstored, hsuffixes⟩ := ih
    refine ⟨?_, fun l hl => hsuffixes l (hl.trans (List.suffix_cons _ _))⟩
    simp only [disconnectBlock, bind_eq_ok, pure_eq_ok] at hd
    obtain ⟨db, hdt, -, -, rfl⟩ := hd
    obtain ⟨hkeeps, hnone⟩ := disconnectTxs_keeps hdt
    intro hash idx hidx
    obtain ⟨idx₀, h₀, hpos⟩ := hkeeps hash idx hidx
    change db hash = some idx at hidx
    obtain ⟨b, hb, hfile, hblock, tx, htx, hid⟩ := hstored hash idx₀ h₀
    rcases List.mem_cons.mp hb with rfl | hb
    · have hgone := hnone tx (List.mem_reverse.mpr htx)
      rw [hid, hidx] at hgone
      cases hgone
    · exact ⟨b, hb, hpos ▸ hfile, hpos ▸ hblock, tx, htx, hid⟩

theorem AcceptedRun.inv (hT : CollisionFree K T) (h : AcceptedRun K T fTestNet g s) :
    AcceptedInv K fTestNet g s := by
  obtain ⟨hstored, hsuffixes⟩ := h.invs hT
  obtain ⟨db, hdb⟩ := hsuffixes s.blocks List.suffix_rfl
  exact hdb.withStored hstored

/-- **What a run needs**: the ledger of its chain is in order, and no id repeats. -/
theorem AcceptedRun.ledger (hT : CollisionFree K T) (h : AcceptedRun K T fTestNet g s) :
    LedgerOk K T (txsOf s.blocks) ∧ ((txsOf s.blocks).map (·.getHash K)).Nodup :=
  ⟨(h.reachable.inv hT).1.ledgerOk hT, (h.inv hT).txids⟩

theorem ConnectedTxs.colors {ctx : ConnectCtx} {l : List (CTransaction × List CTxOut)}
    {view view' : TxDB} (h : ConnectedTxs K ctx view l view') :
    ∀ p ∈ l, ∀ o ∈ p.1.vout, checkColor o.nColor = true := by
  induction h with
  | nil => exact nofun
  | cons htx _ ih => exact List.forall_mem_cons.mpr ⟨htx.colors, ih⟩

/-- Every output of a chain has a colour. -/
theorem AcceptedRun.colors (h : AcceptedRun K T fTestNet g s) :
    ∀ tx ∈ txsOf s.blocks, ∀ o ∈ tx.vout, checkColor o.nColor = true := by
  induction h with
  | genesis => exact nofun
  | @connect s env pos block pindex' txdb' _ _ _ _ _ hconn ih =>
    obtain ⟨l, hb⟩ := connectBlock_spec hconn
    intro tx htx
    rcases List.mem_append.mp htx with hnew | hold
    · rw [List.mem_reverse, ← hb.txs] at hnew
      obtain ⟨p, hp, rfl⟩ := List.mem_map.mp hnew
      exact hb.connected.colors p hp
    · exact ih tx hold
  | disconnect _ _ ih => exact fun tx htx => ih tx (List.mem_append_right _ htx)

end Breakout
