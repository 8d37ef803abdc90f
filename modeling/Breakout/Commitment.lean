/-
# What a block's id commits to

The id is a hash of the header, the header holds the root of the transactions' ids, and a
transaction's id is a hash of the transaction without its input scripts.  Suppose the hash
functions do not collide on what two blocks give them (`HashesInjective`).  Then checked blocks
with the same id agree in everything but their input scripts and their block signatures
(`hashed_eq_of_same_id`), whichever of the three id functions their forks use and whichever kind of
proof they carry.

`ConnectBlock` reads the input scripts.  So the id does not decide its verdict: it does exactly
when the scripts of the two blocks pass alike, or what the id commits to fails already
(`same_verdict_iff`).  A block whose scripts were spoiled on the way has the id of the
good one; `AddToBlockIndex` enters that id before it tries to connect the block, and
`ProcessBlock` then refuses the good one as known.
-/
import Breakout.Committed
import Breakout.Headers

namespace Breakout

open Lib

variable (K : Crypto)

/-! ## 1. What is hashed -/

/-- What `GetHash` hashes, and with which function. -/
inductive IdPreimage where
  | sha256d (header : List UInt8)
  | scrypt (header : List UInt8)
  | progpow (nHeight : Nat) (hashHeader mixHash : UInt256) (nNonce64 : UInt64)
deriving DecidableEq

/-- What the id of a block is a hash of. -/
def CBlock.idPreimage (block : CBlock) : IdPreimage :=
  if getFork block.nTime.toNat < .fork003 then .sha256d block.serializeHeader
  else if block.isKawpowBlock = false then .scrypt block.classicHeader
  else .progpow block.nHeight.toNat (block.getKAWPOWHeaderHash K) block.mixHash block.nNonce64

/-- The hash of two children in the tree. -/
def pairHash (a b : UInt256) : UInt256 := K.hash (serUInt256 a ++ serUInt256 b)

/-- What is double-hashed for a block below its id: the ProgPoW header, the transactions, and the
pairs of the Merkle tree. -/
def CBlock.preimages (block : CBlock) : List (List UInt8) :=
  (block.commonHeader ++ serUInt32 block.nHeight) ::
    (block.vtx.map (·.hashed.serialize) ++
      (merklePairs (pairHash K) (block.vtx.map (·.getHash K))).map
        fun p => serUInt256 p.1 ++ serUInt256 p.2)

/-- **The hash functions do not collide on what two blocks give them.** -/
structure HashesInjective (a b : CBlock) : Prop where
  id : ∀ hash, a.getHash K = .ok hash → b.getHash K = .ok hash → a.idPreimage K = b.idPreimage K
  hash : ∀ m ∈ a.preimages K ++ b.preimages K, ∀ n ∈ a.preimages K ++ b.preimages K,
    K.hash m = K.hash n → m = n

variable {K}

/-! ## 2. From the id to the header -/

variable {a b block : CBlock} {hash : UInt256} {tx : CTransaction} {clock clock' : Clock}

/-- The id preimage holds the header's first bytes, if only as a hash. -/
theorem HashesInjective.commonFields_eq (h : HashesInjective K a b) (ha : a.getHash K = .ok hash)
    (hb : b.getHash K = .ok hash) :
    a.commonFields = b.commonFields := by
  have hpre := h.id hash ha hb
  unfold CBlock.idPreimage at hpre
  split_ifs at hpre
  · obtain ⟨x, hx⟩ := a.exists_serializeHeader
    obtain ⟨y, hy⟩ := b.exists_serializeHeader
    rw [IdPreimage.sha256d.injEq, hx, hy] at hpre
    exact CBlock.commonFields_eq hpre
  · exact CBlock.commonFields_eq (IdPreimage.scrypt.inj hpre)
  · have hheader := (IdPreimage.progpow.inj hpre).2.1
    exact CBlock.commonFields_eq (h.hash _ (by simp [CBlock.preimages]) _
      (by simp [CBlock.preimages]) hheader)

/-! ## 3. From the root to the transactions -/

/-- A transaction with an input and an output is longer than two hashes. -/
theorem CheckedTx.lt_length_hashed (h : CheckedTx tx) :
    64 < tx.hashed.serialize.length := by
  have hvin : tx.hashed.vin ≠ [] := by
    intro he
    have := tx.hashed_prevouts
    rw [he, List.map_nil, eq_comm, List.map_eq_nil_iff] at this
    exact h.vin_ne this
  obtain ⟨txin, hin⟩ := List.exists_mem_of_ne_nil _ hvin
  obtain ⟨txout, hout⟩ := List.exists_mem_of_ne_nil _ h.vout_ne
  rw [← tx.hashed_vout] at hout
  have h1 := length_le_encVec_of_mem (e := CTxIn.serialize) hin
  have h2 := length_le_encVec_of_mem (e := CTxOut.serialize) hout
  simp only [CTxIn.serialize, COutPoint.serialize, CTxOut.serialize, serUInt256, serUInt32,
    serInt64, serInt32, List.length_append, length_leBytes] at h1 h2
  simp only [CTransaction.serialize, serInt32, serUInt32, List.length_append, length_leBytes]
  omega

theorem CBlock.mem_preimages_tx (h : tx ∈ block.vtx) :
    tx.hashed.serialize ∈ block.preimages K := by
  simp only [CBlock.preimages, List.mem_cons, List.mem_append, List.mem_map]
  exact Or.inr (Or.inl ⟨tx, h, rfl⟩)

theorem CBlock.mem_preimages_pair {a b : UInt256}
    (h : (a, b) ∈ merklePairs (pairHash K) (block.vtx.map (·.getHash K))) :
    serUInt256 a ++ serUInt256 b ∈ block.preimages K := by
  simp only [CBlock.preimages, List.mem_cons, List.mem_append, List.mem_map]
  exact Or.inr (Or.inr ⟨(a, b), h, rfl⟩)

theorem CheckedBlock.buildMerkleTree_eq (h : CheckedBlock K clock block) :
    merkleRoot (pairHash K) (block.vtx.map (·.getHash K)) = some (block.buildMerkleTree K) := by
  have hne : block.vtx.map (·.getHash K) ≠ [] := by
    obtain ⟨coinbase, rest, hv, -⟩ := h.coinbase_first
    simp [hv]
  have hroot : block.buildMerkleTree K =
      (merkleRoot (pairHash K) (block.vtx.map (·.getHash K))).getD 0 := rfl
  obtain ⟨t, ht⟩ := exists_rootTree hne
  rw [hroot, merkleRoot_eq_eval ht, Option.getD_some]

/-- **Checked blocks with the same root have the same transaction ids.** -/
theorem HashesInjective.txids_eq (h : HashesInjective K a b) (ha : CheckedBlock K clock a)
    (hb : CheckedBlock K clock' b) (hroot : a.buildMerkleTree K = b.buildMerkleTree K) :
    a.vtx.map (·.getHash K) = b.vtx.map (·.getHash K) := by
  have hne : ∀ {block : CBlock} {clock : Clock}, CheckedBlock K clock block →
      block.vtx.map (·.getHash K) ≠ [] := by
    intro block clock hc
    obtain ⟨coinbase, rest, hv, -⟩ := hc.coinbase_first
    simp [hv]
  refine merkleRoot_inj (h := pairHash K)
    (P := fun x y => serUInt256 x ++ serUInt256 y ∈ a.preimages K ++ b.preimages K)
    (L := fun x => ∃ m ∈ a.preimages K ++ b.preimages K, 64 < m.length ∧ x = K.hash m)
    ?_ ?_ (hne ha) (hne hb) ha.txids_nodup hb.txids_nodup ?_ ?_ ?_ ?_ ?_
  · intro w x y z hwx hyz he
    have hpf := prefixFree_serUInt256.prod prefixFree_serUInt256
    have := hpf.injOn (a := (w, x)) (b := (y, z)) (by simp) (by simp) (h.hash _ hwx _ hyz he)
    simpa using this
  · -- no id is the hash of a pair: the preimages differ in length
    rintro x y z ⟨m, hm, hlen, rfl⟩ hyz he
    rw [h.hash _ hm _ hyz he] at hlen
    simp [serUInt256] at hlen
  · intro x hx
    obtain ⟨tx, htx, rfl⟩ := List.mem_map.mp hx
    exact ⟨_, List.mem_append_left _ (CBlock.mem_preimages_tx htx),
      (ha.checked tx htx).1.lt_length_hashed, rfl⟩
  · intro x hx
    obtain ⟨tx, htx, rfl⟩ := List.mem_map.mp hx
    exact ⟨_, List.mem_append_right _ (CBlock.mem_preimages_tx htx),
      (hb.checked tx htx).1.lt_length_hashed, rfl⟩
  · exact fun p hp => List.mem_append_left _ (CBlock.mem_preimages_pair hp)
  · exact fun p hp => List.mem_append_right _ (CBlock.mem_preimages_pair hp)
  · rw [ha.buildMerkleTree_eq, hb.buildMerkleTree_eq, hroot]

/-- Transactions with the same ids, in order, agree in what the ids commit to. -/
theorem CollisionFree.map_hashed_eq {T : Set CTransaction} (hT : CollisionFree K T) :
    ∀ {l l' : List CTransaction}, (∀ tx ∈ l, tx ∈ T) → (∀ tx ∈ l', tx ∈ T) →
      l.map (·.getHash K) = l'.map (·.getHash K) → l.map (·.hashed) = l'.map (·.hashed)
  | [], [], _, _, _ => rfl
  | [], _ :: _, _, _, he => by simp at he
  | _ :: _, [], _, _, he => by simp at he
  | a :: l, b :: l', hl, hl', he => by
    simp only [List.map_cons, List.cons.injEq] at he ⊢
    exact ⟨hT.hashed_eq (hl a List.mem_cons_self) (hl' b List.mem_cons_self) he.1,
      hT.map_hashed_eq (fun tx h => hl tx (List.mem_cons_of_mem _ h))
        (fun tx h => hl' tx (List.mem_cons_of_mem _ h)) he.2⟩

/-- What two blocks with the same id have in common. -/
structure SameCommitted (a b : CBlock) : Prop where
  header : a.commonFields = b.commonFields
  vtx : a.vtx.map (·.hashed) = b.vtx.map (·.hashed)

/-- **Checked blocks with the same id agree in all but input scripts and block signature.** -/
theorem HashesInjective.sameCommitted {T : Set CTransaction} (hT : CollisionFree K T)
    {st st' : TxStore} (h : HashesInjective K a b)
    (ha : checkBlock K clock st a true true true = .ok ())
    (hb : checkBlock K clock' st' b true true true = .ok ()) (hmem : ∀ tx ∈ a.vtx, tx ∈ T)
    (hmem' : ∀ tx ∈ b.vtx, tx ∈ T) (hid : a.getHash K = .ok hash) (hid' : b.getHash K = .ok hash) :
    SameCommitted a b := by
  have hfields := h.commonFields_eq hid hid'
  refine ⟨hfields, hT.map_hashed_eq hmem hmem' ?_⟩
  refine h.txids_eq (checkBlock_spec ha) (checkBlock_spec hb) ?_
  rw [← (checkBlock_eq_ok_iff.mp ha).1.merkleRoot, ← (checkBlock_eq_ok_iff.mp hb).1.merkleRoot]
  exact congrArg (fun f => f.2.2.1) hfields

theorem SameCommitted.nTime (h : SameCommitted a b) : a.nTime = b.nTime :=
  congrArg (fun f => f.2.2.2.1) h.header

theorem SameCommitted.nVersion (h : SameCommitted a b) : a.nVersion = b.nVersion :=
  congrArg (fun f => f.1) h.header

theorem CBlock.isProofOfStake_hashed (block : CBlock) :
    { block with vtx := block.vtx.map CTransaction.hashed }.isProofOfStake =
      block.isProofOfStake := by
  unfold CBlock.isProofOfStake
  match block.vtx with
  | [] => rfl
  | [_] => rfl
  | _ :: tx :: _ => simp

theorem SameCommitted.isProofOfStake (h : SameCommitted a b) :
    a.isProofOfStake = b.isProofOfStake := by
  rw [← a.isProofOfStake_hashed, ← b.isProofOfStake_hashed]
  unfold CBlock.isProofOfStake
  simp only [h.vtx]

/-! ## 4. Connecting and indexing the next block -/

/-- Where the next block goes: a node, its transaction index, and the tip of its best chain. -/
structure Tip where
  env : NodeEnv
  txdb : TxDB
  pos : DiskBlockPos
  pprev : CBlockIndex
  ancestors : List CBlockIndex

namespace Tip

/-- The node once the next block is in its block files. -/
def envWith (tip : Tip) (disk : Disk) : NodeEnv := { tip.env with disk := disk }

/-- The index of the next block. -/
def indexOf (tip : Tip) (block : CBlock) : CBlockIndex := newBlockIndex tip.pos block tip.pprev

section

variable (K : Crypto) (tip : Tip)

/-- `ConnectBlock` on the next block. -/
def connect (disk : Disk) (block : CBlock) : Run (CBlockIndex × TxDB) :=
  connectBlock K (tip.envWith disk) tip.txdb (tip.indexOf block) tip.pprev tip.ancestors block false

/-- `AddToBlockIndex` on a block that makes a new best chain: the ids in `mapBlockIndex` after it,
and what `SetBestChain` returned.  The id is entered first and stays. -/
def addToBlockIndex (mapBlockIndex : Finset UInt256) (disk : Disk) (block : CBlock) :
    Run (Finset UInt256 × Bool) := do
  let hash ← block.getHash K
  refuse (hash ∈ mapBlockIndex) 0 "AddToBlockIndex() : already exists"
  return (insert hash mapBlockIndex, (tip.connect K disk block).accepts)

end

end Tip

/-- The first check of `ProcessBlock`. -/
def checkDuplicate (K : Crypto) (mapBlockIndex mapOrphanBlocks : Finset UInt256)
    (block : CBlock) : Run Unit := do
  let hash ← block.getHash K
  refuse (hash ∈ mapBlockIndex) 0 "ProcessBlock() : already have block"
  refuse (hash ∈ mapOrphanBlocks) 0 "ProcessBlock() : already have block (orphan)"

section

variable (K : Crypto) (T : Set CTransaction) (tip : Tip)

/-- `bad` was indexed and failed to connect; `ProcessBlock` then refuses `good`, which connects. -/
def Shadows (disk disk' : Disk) (bad good : CBlock) : Prop :=
  ∃ mapBlockIndex mapBlockIndex' mapOrphanBlocks,
    tip.addToBlockIndex K mapBlockIndex disk bad = .ok (mapBlockIndex', false) ∧
      checkDuplicate K mapBlockIndex' mapOrphanBlocks good =
        .error (.reject 0 "ProcessBlock() : already have block") ∧
      (tip.connect K disk' good).accepts = true

/-- The block files hold the transactions of the index and the next block. -/
structure Written (disk : Disk) (block : CBlock) : Prop where
  entries : ∀ hash idx, tip.txdb hash = some idx →
    ∃ tx ∈ T, readPrev (tip.envWith disk) hash idx = some tx ∧ tx.getHash K = hash
  stored : StoredFrom K (tip.envWith disk) (tip.indexOf block)
    (ConnectState.init tip.env.clock.nAdjustedTime (tip.indexOf block) false block.vtx).nTxPos
    block.vtx
  mem : ∀ tx ∈ block.vtx, tx ∈ T

/-- What the id of the next block commits to connects. -/
def CommittedOk (block : CBlock) : Prop :=
  (connectCommitted K (prevIn K T)
    (ctxOf tip.env tip.txdb tip.pos block tip.pprev tip.ancestors).diskless
    (block.vtx.map (·.hashed))).accepts = true

end

/-! ## 5. The verdict -/

variable {T : Set CTransaction} {tip : Tip}

variable {disk : Disk} {block : CBlock}

theorem Written.sameView (h : Written K T tip disk block) :
    SameView K T (tip.envWith disk) tip.txdb tip.txdb := by
  intro hash
  cases hidx : tip.txdb hash with
  | none => exact .none
  | some idx => exact .some ⟨.refl idx, h.entries hash idx hidx⟩

theorem Written.connect_accepts_iff (hT : CollisionFree K T) {st : TxStore}
    (h : Written K T tip disk block)
    (hcheck : checkBlock K tip.env.clock st block true true true = .ok ()) :
    (tip.connect K disk block).accepts = true ↔
      CommittedOk K T tip block ∧ ScriptsPass K T block.vtx :=
  connectBlock_accepts_iff hT hcheck h.sameView h.mem h.stored

theorem SameCommitted.committedOk_iff {a b : CBlock} (h : SameCommitted a b) :
    CommittedOk K T tip a ↔ CommittedOk K T tip b := by
  have hctx : ctxOf tip.env tip.txdb tip.pos a tip.pprev tip.ancestors =
      ctxOf tip.env tip.txdb tip.pos b tip.pprev tip.ancestors := by
    simp only [ctxOf, newBlockIndex, h.nTime, h.nVersion, h.isProofOfStake]
  unfold CommittedOk
  rw [hctx, h.vtx]

/-- A block casts a shadow only on one with another verdict. -/
theorem Shadows.verdicts {disk' : Disk} {bad good : CBlock} (h :
      Shadows K tip disk disk' bad good) :
    (tip.connect K disk bad).accepts = false ∧ (tip.connect K disk' good).accepts = true := by
  obtain ⟨_, _, _, hadd, -, hgood⟩ := h
  simp only [Tip.addToBlockIndex, bind_eq_ok, refuse_eq_ok, pure_eq_ok, Prod.mk.injEq] at hadd
  obtain ⟨_, _, _, _, _, hbad⟩ := hadd
  exact ⟨hbad, hgood⟩

/-- **When two checked blocks with one id get one verdict**, and neither can keep the other out. -/
theorem same_verdict_iff (hT : CollisionFree K T) {disk₁ disk₂ : Disk} {b₁ b₂ : CBlock}
    {st₁ st₂ : TxStore} (hcheck₁ : checkBlock K tip.env.clock st₁ b₁ true true true = .ok ())
    (hcheck₂ : checkBlock K tip.env.clock st₂ b₂ true true true = .ok ())
    (hw₁ : Written K T tip disk₁ b₁) (hw₂ : Written K T tip disk₂ b₂) {hash : UInt256}
    (hid₁ : b₁.getHash K = .ok hash) (hid₂ : b₂.getHash K = .ok hash)
    (hinj : HashesInjective K b₁ b₂) :
    ((tip.connect K disk₁ b₁).accepts = (tip.connect K disk₂ b₂).accepts ∧
        ¬ Shadows K tip disk₁ disk₂ b₁ b₂ ∧ ¬ Shadows K tip disk₂ disk₁ b₂ b₁) ↔
      (CommittedOk K T tip b₁ → (ScriptsPass K T b₁.vtx ↔ ScriptsPass K T b₂.vtx)) := by
  have hsame := hinj.sameCommitted hT hcheck₁ hcheck₂ hw₁.mem hw₂.mem hid₁ hid₂
  have hcom : CommittedOk K T tip b₁ ↔ CommittedOk K T tip b₂ := hsame.committedOk_iff
  have hverdict : (tip.connect K disk₁ b₁).accepts = (tip.connect K disk₂ b₂).accepts ↔
      (CommittedOk K T tip b₁ → (ScriptsPass K T b₁.vtx ↔ ScriptsPass K T b₂.vtx)) := by
    rw [Bool.eq_iff_iff, hw₁.connect_accepts_iff hT hcheck₁, hw₂.connect_accepts_iff hT hcheck₂,
      ← hcom]
    tauto
  rw [← hverdict]
  refine ⟨fun h => h.1, fun h => ⟨h, fun hs => ?_, fun hs => ?_⟩⟩
  · obtain ⟨hbad, hgood⟩ := hs.verdicts
    rw [h, hgood] at hbad
    cases hbad
  · obtain ⟨hbad, hgood⟩ := hs.verdicts
    rw [← h, hgood] at hbad
    cases hbad

/-! ## 6. A spoiled signature -/

/-- Functions to evaluate the example with; the hash depends on every byte. -/
def unsignedCrypto : Crypto :=
  { Crypto.sample [] with hash := fun b => BitVec.ofNat 256 (leNat (b ++ [1]) % (2 ^ 255 - 19)) }

/-- A transaction that spends `stakedTx`'s output with an input script. -/
def spendTx (scriptSig : CScript) : CTransaction :=
  ⟨1, 1777836782, [⟨⟨stakedTx.getHash unsignedCrypto, 0⟩, scriptSig, 0xffffffff⟩],
    [⟨90000000, Color.brx.toInt32, [op1]⟩], 0, [], 0⟩

/-- The owner of `stakedTx`'s key has signed the transaction, once. -/
def spendCrypto : Crypto :=
  { unsignedCrypto with
    verify := fun pubkey hash sig =>
      pubkey == samplePubKey && sig == [0x30, 6, 2, 1, 1, 2, 1, 1] &&
        hash == signatureHash unsignedCrypto (0x21 :: samplePubKey ++ [opChecksig]) (spendTx []) 0 1 }

/-- The input script the owner made. -/
def goodSig : CScript := [9, 0x30, 6, 2, 1, 1, 2, 1, 1, 1]

/-- The same signature, pushed with `OP_PUSHDATA1`. -/
def paddedSig : CScript := 0x4c :: goodSig

/-- The same with its last number changed. -/
def spoiledSig : CScript := [9, 0x30, 6, 2, 1, 1, 2, 1, 2, 1]

/-- The coinbase of the example. -/
def spendCoinbase : CTransaction :=
  ⟨1, 1777836782, [⟨⟨0, 0xffffffff⟩, [1, 1], 0⟩], [⟨0, Color.sis.toInt32, [op1]⟩], 0, [], 0⟩

/-- A proof-of-work block with the transaction. -/
def spendBlock (scriptSig : CScript) : CBlock :=
  let block : CBlock :=
    ⟨7, 0, 0, 1777836782, 0x1d00ffff, 0, 601, 0, 1, [spendCoinbase, spendTx scriptSig], []⟩
  { block with hashMerkleRoot := block.buildMerkleTree spendCrypto }

/-- The block files, with that block at their end. -/
def spendDisk (scriptSig : CScript) : Disk := fun pos =>
  if pos = ⟨1, 500, 600⟩ then some stakedTx
  else if pos = ⟨1, 2000, 2121⟩ then some spendCoinbase
  else if pos = ⟨1, 2000, 2197⟩ then some (spendTx scriptSig)
  else none

/-- A chain of six hundred blocks in which `stakedTx` is unspent. -/
def spendTip : Tip where
  env := ⟨⟨false, 1777836782⟩, fun _ => none, fun _ => none, true⟩
  txdb hash := if hash = stakedTx.getHash spendCrypto then some (.new ⟨1, 500, 600⟩ 1) else none
  pos := ⟨1, 2000, firstFile_notNull⟩
  pprev := ⟨1, 1000, 600, 1777836700, 7, fun _ => 0,
    fun c => if c = .brx then 100000000 else 0, fun _ => 0, 0, 0⟩
  ancestors := []

/-- The transactions of the example. -/
def spendTxs : List CTransaction :=
  [stakedTx, spendCoinbase, spendTx goodSig, spendTx paddedSig, spendTx spoiledSig]

theorem spendTxs_collisionFree : CollisionFree spendCrypto {tx | tx ∈ spendTxs} := by
  have hsized : ∀ tx ∈ spendTxs, tx.serialize.length < 2 ^ 64 := by decide +kernel
  have hinj : ∀ a ∈ spendTxs, ∀ b ∈ spendTxs, a.getHash spendCrypto = b.getHash spendCrypto →
      a.hashed.serialize = b.hashed.serialize := by decide +kernel
  exact ⟨hsized, hinj⟩

theorem spendDisk_written {scriptSig : CScript} (hmem : spendTx scriptSig ∈ spendTxs) :
    Written spendCrypto {tx | tx ∈ spendTxs} spendTip (spendDisk scriptSig)
      (spendBlock scriptSig) := by
  refine ⟨?_, ⟨rfl, rfl, trivial⟩, ?_⟩
  · intro hash idx hidx
    simp only [spendTip] at hidx
    split at hidx
    · next hh =>
      cases hidx
      exact ⟨stakedTx, by simp [spendTxs], rfl, hh.symm⟩
    · cases hidx
  · intro tx htx
    rcases List.mem_cons.mp htx with rfl | htx
    · simp [spendTxs]
    · rw [List.mem_singleton] at htx
      rw [htx]
      exact hmem

theorem spendTx_hashed (scriptSig : CScript) : (spendTx scriptSig).hashed = spendTx [] := by
  have hnull : (⟨stakedTx.getHash unsignedCrypto, 0⟩ : COutPoint).isNull = false := by
    simp [COutPoint.isNull]
  simp [CTransaction.hashed, CTransaction.hashesSigs, CTransaction.isCoinBase, spendTx, hnull,
    CTransaction.blankSigs]

/-- The header does not show the script. -/
theorem spendBlock_eq (scriptSig : CScript) :
    spendBlock scriptSig =
      { spendBlock goodSig with vtx := [spendCoinbase, spendTx scriptSig] } := by
  simp only [spendBlock, CBlock.buildMerkleTree, List.map_cons, List.map_nil, CTransaction.getHash,
    spendTx_hashed]

/-- The blocks of the example hash the same bytes. -/
theorem spendBlock_hashes (scriptSig : CScript) :
    HashesInjective spendCrypto (spendBlock goodSig) (spendBlock scriptSig) := by
  have hpre : ∀ m ∈ (spendBlock goodSig).preimages spendCrypto,
      ∀ n ∈ (spendBlock goodSig).preimages spendCrypto,
        spendCrypto.hash m = spendCrypto.hash n → m = n := by decide +kernel
  have hsame : (spendBlock scriptSig).preimages spendCrypto =
      (spendBlock goodSig).preimages spendCrypto := by
    have hvtx : (spendBlock goodSig).vtx = [spendCoinbase, spendTx goodSig] := rfl
    rw [spendBlock_eq scriptSig]
    simp only [CBlock.preimages, hvtx, List.map_cons, List.map_nil, CTransaction.getHash,
      spendTx_hashed]
    rfl
  refine ⟨fun _ _ _ => ?_, ?_⟩
  · rw [spendBlock_eq scriptSig]
    rfl
  · simpa only [hsame, List.mem_append, or_self] using hpre

/-- Both blocks pass `CheckBlock`. -/
theorem spendBlock_checked :
    checkBlock spendCrypto spendTip.env.clock .empty (spendBlock goodSig) true true true = .ok () ∧
      checkBlock spendCrypto spendTip.env.clock .empty (spendBlock paddedSig) true true true =
        .ok () := by
  decide +kernel

/-- **The padded block gets the verdict of the good one**, and with it the scripts agree. -/
theorem same_verdict_padded :
    (spendTip.connect spendCrypto (spendDisk goodSig) (spendBlock goodSig)).accepts = true ∧
      (spendTip.connect spendCrypto (spendDisk paddedSig) (spendBlock paddedSig)).accepts = true ∧
      (CommittedOk spendCrypto {tx | tx ∈ spendTxs} spendTip (spendBlock goodSig) →
        (ScriptsPass spendCrypto {tx | tx ∈ spendTxs} (spendBlock goodSig).vtx ↔
          ScriptsPass spendCrypto {tx | tx ∈ spendTxs} (spendBlock paddedSig).vtx)) := by
  have hgood : (spendTip.connect spendCrypto (spendDisk goodSig)
      (spendBlock goodSig)).accepts = true := by decide +kernel
  have hpadded : (spendTip.connect spendCrypto (spendDisk paddedSig)
      (spendBlock paddedSig)).accepts = true := by decide +kernel
  have hid : (spendBlock goodSig).getHash spendCrypto = .ok 0 := by decide +kernel
  have hid' : (spendBlock paddedSig).getHash spendCrypto = .ok 0 := by decide +kernel
  obtain ⟨hcheck, hcheck'⟩ := spendBlock_checked
  refine ⟨hgood, hpadded, (same_verdict_iff spendTxs_collisionFree hcheck hcheck'
    (spendDisk_written (by simp [spendTxs])) (spendDisk_written (by simp [spendTxs])) hid hid'
    (spendBlock_hashes paddedSig)).mp ⟨hgood.trans hpadded.symm, ?_, ?_⟩⟩
  · intro hs
    rw [hs.verdicts.1] at hgood
    cases hgood
  · intro hs
    rw [hs.verdicts.1] at hpadded
    cases hpadded

/-- **A spoiled block keeps the good one out.**  Both pass `CheckBlock` and have the same id, and
the hash functions do not collide on them; the spoiled one is indexed and fails to connect, the
good one would connect, and `ProcessBlock` has it already. -/
theorem same_id_other_verdict :
    checkBlock spendCrypto spendTip.env.clock .empty (spendBlock goodSig) true true true = .ok () ∧
      checkBlock spendCrypto spendTip.env.clock .empty (spendBlock spoiledSig) true true true =
        .ok () ∧
      (spendBlock goodSig).getHash spendCrypto = (spendBlock spoiledSig).getHash spendCrypto ∧
      HashesInjective spendCrypto (spendBlock goodSig) (spendBlock spoiledSig) ∧
      (spendTip.connect spendCrypto (spendDisk goodSig) (spendBlock goodSig)).accepts = true ∧
      (spendTip.connect spendCrypto (spendDisk spoiledSig) (spendBlock spoiledSig)).accepts =
        false ∧
      Shadows spendCrypto spendTip (spendDisk spoiledSig) (spendDisk goodSig)
        (spendBlock spoiledSig) (spendBlock goodSig) := by
  have hgood : (spendTip.connect spendCrypto (spendDisk goodSig)
      (spendBlock goodSig)).accepts = true := by decide +kernel
  have hspoiled : (spendTip.connect spendCrypto (spendDisk spoiledSig)
      (spendBlock spoiledSig)).accepts = false := by decide +kernel
  refine ⟨by decide +kernel, by decide +kernel, by decide +kernel, spendBlock_hashes spoiledSig,
    hgood, hspoiled, ∅, {0}, ∅, ?_, by decide +kernel, hgood⟩
  simp only [Tip.addToBlockIndex, bind_eq_ok, refuse_eq_ok, pure_eq_ok, Prod.mk.injEq]
  exact ⟨0, rfl, (), by simp, rfl, hspoiled⟩

end Breakout
