/-
# `CTxDB::LoadBlockIndex`

The records are read one after another, in the order of their keys, which has nothing to do with the
tree.  A record may name blocks that come later, and these get an empty index until their own record
is read.  Then the blocks are gone through in the order of their heights, since the trust of a chain
and the checksum of the stake modifiers are made from the parent's.  Last the best block is looked
up, and the lookup by height is filled by walking down from it.

Records that say what a memory holds (`Synced`) give that memory back
(`CTxDB.loadBlockIndex_spec`): every field of every block, and the tables of the best chain.
-/
import Breakout.IndexWrites

namespace Breakout

open Lib Node

variable (K : Crypto)

/-! ## 1. Reading the records -/

/-- A `CBlockIndex` as it is loaded; a pointer is the id it is found under. -/
structure LoadedIndex where
  pprev : Option UInt256
  pnext : Option UInt256
  nFile : UInt32
  nBlockPos : UInt32
  nHeight : Nat
  header : CBlock
  nChainTrust : UInt256
  fields : IndexFields

/-- `CBlockIndex()` -/
def LoadedIndex.null : LoadedIndex where
  pprev := none
  pnext := none
  nFile := 0
  nBlockPos := 0
  nHeight := 0
  header := ⟨0, 0, 0, 0, 0, 0, 0, 0, 0, [], []⟩
  nChainTrust := 0
  fields :=
    { stake := ⟨0, 0, ⟨0, 0xffffffff⟩, 0, 0⟩
      nStakeModifierChecksum := 0
      supply := ⟨fun _ => 0, Color.none.toInt32, Color.none.toInt32, fun _ => 0, fun _ => 0⟩ }

/-- What `InsertBlockIndex` returns: the null hash has no index. -/
def pointer (hash : UInt256) : Option UInt256 := if hash = 0 then none else some hash

/-- "Construct block index object" -/
def LoadedIndex.ofRecord (r : IndexRecord) : LoadedIndex where
  pprev := pointer r.hashPrev
  pnext := pointer r.hashNext
  nFile := r.nFile
  nBlockPos := r.nBlockPos
  nHeight := r.nHeight
  header := r.header
  nChainTrust := 0
  fields := ⟨r.stake, 0, r.supply⟩

/-- What is built while the records are read; `keys` are those of the map. -/
structure LoadState where
  mapBlockIndex : UInt256 → Option LoadedIndex
  keys : List UInt256
  pindexGenesisBlock : Option UInt256

namespace LoadState

def insertBlockIndex (st : LoadState) (hash : UInt256) : LoadState :=
  if hash = 0 ∨ (st.mapBlockIndex hash).isSome then st
  else
    { st with
      mapBlockIndex := Function.update st.mapBlockIndex hash (some .null)
      keys := hash :: st.keys }

/-- The body of the loop, once the hash of the record is known. -/
def enter (st : LoadState) (hashGenesisBlock hash : UInt256) (r : IndexRecord) : LoadState :=
  let st' := ((st.insertBlockIndex hash).insertBlockIndex r.hashPrev).insertBlockIndex r.hashNext
  { st' with
    mapBlockIndex := Function.update st'.mapBlockIndex hash (some (.ofRecord r))
    pindexGenesisBlock :=
      if st.pindexGenesisBlock = none ∧ hash = hashGenesisBlock then some hash
      else st.pindexGenesisBlock }

end LoadState

/-- "Now read each entry".  The index of the null hash would be a null pointer. -/
def loadRecords (clock : IndexClock) (hashGenesisBlock : UInt256) :
    List IndexRecord → LoadState → Run LoadState
  | [], st => .ok st
  | r :: rs, st => do
    let hash ← r.getBlockHash K clock.fUseFastIndex clock.nAdjustedTime
    if hash = 0 then .error (.throw "LoadBlockIndex() : null index")
    else loadRecords clock hashGenesisBlock rs (st.enter hashGenesisBlock hash r)

/-! ## 2. Trust, best chain and lookup -/

/-- `sort` of the indices by their heights, whatever it does with indices of one height. -/
structure HeightSort where
  sort : (UInt256 → Nat) → List UInt256 → List UInt256
  perm : ∀ nHeight l, (sort nHeight l).Perm l
  sorted : ∀ nHeight l, (sort nHeight l).Pairwise fun a b => nHeight a ≤ nHeight b

/-- What `LoadBlockIndex` reads besides the records.  `checkBlock` says whether the check of a block
of the best chain found it good, and is `none` where the block cannot be read. -/
structure LoadEnv where
  clock : IndexClock
  hashGenesisBlock : UInt256
  checkpoints : Nat → Option UInt32
  bySort : HeightSort
  nCheckBlocks : Int
  checkBlock : UInt256 → Option Bool

/-- "Calculate nChainTrust" -/
def assignTrust (env : LoadEnv) :
    List UInt256 → (UInt256 → Option LoadedIndex) → Run (UInt256 → Option LoadedIndex)
  | [], m => .ok m
  | hash :: hashes, m =>
    match m hash with
    | none => .error (.oob 0)
    | some i => do
      let prev := i.pprev.bind m
      let checksum ← getStakeModifierChecksum K env.hashGenesisBlock
        (prev.map fun j => j.fields.nStakeModifierChecksum) hash i.fields.stake
      refuse (checkStakeModifierCheckpoints env.checkpoints i.nHeight checksum = false) 0
        "CTxDB::LoadBlockIndex() : Failed stake modifier checkpoint"
      assignTrust env hashes (Function.update m hash (some
        { i with
          nChainTrust := (prev.map LoadedIndex.nChainTrust).getD 0 + getBlockTrust i.header.nBits
          fields := { i.fields with nStakeModifierChecksum := checksum } }))

/-- How far down "Verify blocks in the best chain" goes. -/
def checkDepth (nCheckBlocks : Int) (nBestHeight : Nat) : Nat :=
  min (if nCheckBlocks = 0 then 1000000000 else nCheckBlocks.toNat) nBestHeight

/-- The loop of "Verify blocks in the best chain", for the fork it finds: below the last bad block it
comes to. -/
def verifyBlocks (env : LoadEnv) (m : UInt256 → Option LoadedIndex) (nLowest : Nat) :
    Nat → Option UInt256 → Option UInt256 → Run (Option UInt256)
  | fuel + 1, some hash, pindexFork =>
    match m hash with
    | some ⟨some prev, _, _, _, nHeight, _, _, _⟩ =>
      if nHeight < nLowest then .ok pindexFork
      else
        match env.checkBlock hash with
        | none => .error (.reject 0 "LoadBlockIndex() : block.ReadFromDisk failed")
        | some fGood =>
          verifyBlocks env m nLowest fuel (some prev) (if fGood then pindexFork else some prev)
    | _ => .ok pindexFork
  | _, _, pindexFork => .ok pindexFork

/-- "building block index lookup" -/
def buildLookup (m : UInt256 → Option LoadedIndex) :
    Nat → Option UInt256 → (Nat → Option UInt256) → Run (Nat → Option UInt256)
  | _, none, _ => .error (.reject 0 "LoadBlockIndex() : unexpected null index")
  | 0, some hash, lookup => .ok (Function.update lookup 0 (some hash))
  | n + 1, some hash, lookup =>
    buildLookup m n ((m hash).bind LoadedIndex.pprev)
      (Function.update lookup (n + 1) (some hash))

/-- What is loaded.  `pindexFork` is the block that `SetBestChain` is called on at the end, if a bad
block was found. -/
structure LoadedNode where
  mapBlockIndex : UInt256 → Option LoadedIndex
  pindexGenesisBlock : Option UInt256
  pindexBest : Option UInt256
  hashBestChain : UInt256
  nBestHeight : Int
  nBestChainTrust : UInt256
  mapBlockLookup : Nat → Option UInt256
  pindexFork : Option UInt256

/-- `CTxDB::LoadBlockIndex`, for the records in the order in which they are read and what
`ReadHashBestChain` finds. -/
def CTxDB.loadBlockIndex (env : LoadEnv) (records : List IndexRecord) (hashBestChain : Option UInt256) :
    Run LoadedNode := do
  let st ← loadRecords K env.clock env.hashGenesisBlock records ⟨fun _ => none, [], none⟩
  let nHeight := fun hash => ((st.mapBlockIndex hash).map LoadedIndex.nHeight).getD 0
  let m ← assignTrust K env (env.bySort.sort nHeight st.keys) st.mapBlockIndex
  match hashBestChain with
  | none =>
    match st.pindexGenesisBlock with
    | none => return ⟨m, none, none, 0, -1, 0, fun _ => none, none⟩
    | some _ => .error (.reject 0 "CTxDB::LoadBlockIndex() : hashBestChain not loaded")
  | some hash =>
    match m hash with
    | none =>
      .error (.reject 0 "CTxDB::LoadBlockIndex() : hashBestChain not found in the block index")
    | some best => do
      let pindexFork ← verifyBlocks env m
        (best.nHeight - checkDepth env.nCheckBlocks best.nHeight) (best.nHeight + 1) (some hash) none
      let lookup ← buildLookup m best.nHeight (some hash) fun _ => none
      return ⟨m, st.pindexGenesisBlock, some hash, hash, best.nHeight, best.nChainTrust, lookup,
        pindexFork⟩

/-! ## 3. The index that is expected -/

/-- The index of a block with these fields and links, with ids for pointers. -/
def LoadedIndex.ofPtr (mem : IndexMemory) (links : BlockPtr → Option BlockPtr) (p : BlockPtr) :
    LoadedIndex where
  pprev := p.parent?.map BlockPtr.hash
  pnext := (links p).map BlockPtr.hash
  nFile := p.top.pos.nFile
  nBlockPos := p.top.pos.nBlockPos
  nHeight := p.height
  header := p.getBlockHeader
  nChainTrust := p.nChainTrust
  fields := mem p

/-- The same before the second pass. -/
def LoadedIndex.raw (mem : IndexMemory) (links : BlockPtr → Option BlockPtr) (p : BlockPtr) :
    LoadedIndex :=
  { LoadedIndex.ofPtr mem links p with
    nChainTrust := 0, fields := { mem p with nStakeModifierChecksum := 0 } }

/-- What `AddToBlockIndex` made sure of when it entered the block. -/
structure FieldsOk (hashGenesisBlock : UInt256) (checkpoints : Nat → Option UInt32)
    (mem : IndexMemory) (p : BlockPtr) : Prop where
  stored : (mem p).stake.stored = (mem p).stake
  checksum : getStakeModifierChecksum K hashGenesisBlock
    (p.parent?.map fun q => (mem q).nStakeModifierChecksum) p.hash (mem p).stake =
      .ok (mem p).nStakeModifierChecksum
  checkpoint : checkStakeModifierCheckpoints checkpoints p.height (mem p).nStakeModifierChecksum =
    true

/-- A tree of honest blocks with an index in memory, and the best chain in it. -/
structure IndexedTree (hashGenesisBlock : UInt256) (checkpoints : Nat → Option UInt32)
    (known : BlockPtr → Prop) (mem : IndexMemory) (best : BlockPtr) : Prop where
  inj : ∀ {p q : BlockPtr}, known p → known q → p.hash = q.hash → p = q
  parent : ∀ {p q : BlockPtr}, known p → p.parent? = some q → known q
  genesis : ∀ {p : BlockPtr}, known p → (p.parent? = none ↔ p.hash = hashGenesisBlock)
  honest : ∀ {p : BlockPtr}, known p → HonestIndex K p
  fields : ∀ {p : BlockPtr}, known p → FieldsOk K hashGenesisBlock checkpoints mem p
  best : known best

/-- The records in the order in which the iterator comes to them. -/
structure Visits (entries : List (UInt256 × IndexRecord)) (records : Records) : Prop where
  nodup : (entries.map Prod.fst).Nodup
  mem_iff : ∀ {h : UInt256} {r : IndexRecord}, (h, r) ∈ entries ↔ records h = some r

variable {K} {hashGenesisBlock : UInt256} {checkpoints : Nat → Option UInt32}
  {known : BlockPtr → Prop} {mem : IndexMemory} {links : BlockPtr → Option BlockPtr}
  {best p q : BlockPtr} {records : Records} {entries : List (UInt256 × IndexRecord)}

theorem pointer_getD {x : Option BlockPtr} (h : ∀ q ∈ x, BlockPtr.hash q ≠ 0) :
    pointer ((x.map BlockPtr.hash).getD 0) = x.map BlockPtr.hash := by
  cases x with
  | none => rfl
  | some q => exact if_neg (h q rfl)

theorem LoadedIndex.ofRecord_stored (hhonest : HonestIndex K p)
    (hstored : (mem p).stake.stored = (mem p).stake)
    (hprev : ∀ q ∈ p.parent?, BlockPtr.hash q ≠ 0) (hnext : ∀ q ∈ links p, BlockPtr.hash q ≠ 0) :
    LoadedIndex.ofRecord (storedRecord (mem p) (links p) p) = LoadedIndex.raw mem links p := by
  have hp : pointer (storedRecord (mem p) (links p) p).hashPrev = p.parent?.map BlockPtr.hash :=
    pointer_getD hprev
  have hn : pointer (storedRecord (mem p) (links p) p).hashNext = (links p).map BlockPtr.hash :=
    pointer_getD hnext
  have hheader : (storedRecord (mem p) (links p) p).header = p.getBlockHeader :=
    hhonest.storedHeader
  have hstake : (storedRecord (mem p) (links p) p).stake = (mem p).stake := hstored
  rw [LoadedIndex.ofRecord, hp, hn, hheader, hstake]
  rfl

/-! ## 4. The first pass -/

/-- The records `done` are entered, and there are indices for blocks of the tree only. -/
structure ReadOk (hashGenesisBlock : UInt256) (S : UInt256 → Prop)
    (done : List (UInt256 × IndexRecord)) (st : LoadState) : Prop where
  entered : ∀ {h : UInt256} {r : IndexRecord}, (h, r) ∈ done →
    st.mapBlockIndex h = some (.ofRecord r)
  only : ∀ {h : UInt256}, (st.mapBlockIndex h).isSome → S h
  mem_keys : ∀ {h : UInt256}, h ∈ st.keys ↔ (st.mapBlockIndex h).isSome
  nodup : st.keys.Nodup
  genesis : st.pindexGenesisBlock =
    if hashGenesisBlock ∈ done.map Prod.fst then some hashGenesisBlock else none

/-- A record whose hash is its key, and that names blocks of the tree only. -/
structure EntryOk (K : Crypto) (clock : IndexClock) (S : UInt256 → Prop)
    (e : UInt256 × IndexRecord) : Prop where
  hash : e.2.getBlockHash K clock.fUseFastIndex clock.nAdjustedTime = .ok e.1
  ne : e.1 ≠ 0
  mem : S e.1
  prev : e.2.hashPrev = 0 ∨ S e.2.hashPrev
  next : e.2.hashNext = 0 ∨ S e.2.hashNext

section

variable {S : UInt256 → Prop} {done todo : List (UInt256 × IndexRecord)} {st : LoadState}
  {x h : UInt256} {r : IndexRecord} {clock : IndexClock}

theorem LoadState.insert_of_isSome (hh : (st.mapBlockIndex h).isSome) :
    (st.insertBlockIndex x).mapBlockIndex h = st.mapBlockIndex h := by
  unfold LoadState.insertBlockIndex
  split
  · rfl
  · next hnew =>
    refine Function.update_of_ne ?_ ..
    rintro rfl
    exact hnew (Or.inr hh)

theorem LoadState.isSome_insert :
    ((st.insertBlockIndex x).mapBlockIndex h).isSome ↔
      (st.mapBlockIndex h).isSome ∨ (h = x ∧ x ≠ 0) := by
  unfold LoadState.insertBlockIndex
  split
  · next hold =>
    constructor
    · exact Or.inl
    · rintro (hsome | ⟨rfl, hne⟩)
      · exact hsome
      · exact hold.resolve_left hne
  · next hnew =>
    rw [not_or] at hnew
    by_cases hx : h = x
    · subst hx
      exact iff_of_true (by simp) (Or.inr ⟨rfl, hnew.1⟩)
    · simp [hx]

theorem ReadOk.insert (hst : ReadOk hashGenesisBlock S done st) (hx : x = 0 ∨ S x) :
    ReadOk hashGenesisBlock S done (st.insertBlockIndex x) := by
  constructor
  · intro h r hr
    have hentered := hst.entered hr
    rw [LoadState.insert_of_isSome (by rw [hentered]; rfl), hentered]
  · intro h hsome
    rcases LoadState.isSome_insert.mp hsome with hsome | ⟨rfl, hne⟩
    · exact hst.only hsome
    · exact hx.resolve_left hne
  · intro h
    rw [LoadState.isSome_insert, ← hst.mem_keys]
    unfold LoadState.insertBlockIndex
    split
    · next hold =>
      constructor
      · exact Or.inl
      · rintro (hmem | ⟨rfl, hne⟩)
        · exact hmem
        · exact hst.mem_keys.mpr (hold.resolve_left hne)
    · next hnew =>
      rw [not_or] at hnew
      rw [List.mem_cons, or_comm, and_iff_left hnew.1]
  · unfold LoadState.insertBlockIndex
    split
    · exact hst.nodup
    · next hnew =>
      rw [not_or] at hnew
      exact List.nodup_cons.mpr ⟨fun hmem => hnew.2 (hst.mem_keys.mp hmem), hst.nodup⟩
  · rw [← hst.genesis]
    unfold LoadState.insertBlockIndex
    split <;> rfl

theorem ReadOk.enter (hst : ReadOk hashGenesisBlock S done st) (he : EntryOk K clock S (h, r))
    (hnew : h ∉ done.map Prod.fst) :
    ReadOk hashGenesisBlock S (done ++ [(h, r)]) (st.enter hashGenesisBlock h r) := by
  have hins := ((hst.insert (Or.inr he.mem)).insert he.prev).insert he.next
  have hsome : ((((st.insertBlockIndex h).insertBlockIndex r.hashPrev).insertBlockIndex
      r.hashNext).mapBlockIndex h).isSome := by
    rw [LoadState.isSome_insert, LoadState.isSome_insert, LoadState.isSome_insert]
    exact Or.inl (Or.inl (Or.inr ⟨rfl, he.ne⟩))
  have hdomain : ∀ x, ((st.enter hashGenesisBlock h r).mapBlockIndex x).isSome ↔
      ((((st.insertBlockIndex h).insertBlockIndex r.hashPrev).insertBlockIndex
        r.hashNext).mapBlockIndex x).isSome := by
    intro x
    by_cases hx : x = h
    · subst hx
      simp [LoadState.enter, hsome]
    · simp [LoadState.enter, Function.update_of_ne hx]
  constructor
  · intro x r' hr'
    rcases List.mem_append.mp hr' with hold | hlast
    · have hne : x ≠ h := by
        rintro rfl
        exact hnew (List.mem_map_of_mem (f := Prod.fst) hold)
      rw [← hins.entered hold]
      exact Function.update_of_ne hne ..
    · obtain ⟨rfl, rfl⟩ := Prod.mk.inj (List.mem_singleton.mp hlast)
      exact Function.update_self ..
  · intro x hx
    exact hins.only ((hdomain x).mp hx)
  · intro x
    rw [hdomain]
    exact hins.mem_keys
  · exact hins.nodup
  · simp only [LoadState.enter, hst.genesis]
    by_cases hdone : hashGenesisBlock ∈ done.map Prod.fst
    · simp [hdone]
    · by_cases hg : h = hashGenesisBlock
      · simp [hdone, hg]
      · simp [hdone, hg, Ne.symm hg]

/-- **The first pass** enters every record. -/
theorem loadRecords_ok : ∀ {todo done : List (UInt256 × IndexRecord)} {st : LoadState},
    ReadOk hashGenesisBlock S done st → (∀ e ∈ todo, EntryOk K clock S e) →
    ((done ++ todo).map Prod.fst).Nodup →
    ∃ st', loadRecords K clock hashGenesisBlock (todo.map Prod.snd) st = .ok st' ∧
      ReadOk hashGenesisBlock S (done ++ todo) st'
  | [], done, st, hst, _, _ => ⟨st, rfl, by rwa [List.append_nil]⟩
  | (h, r) :: todo, done, st, hst, htodo, hnodup => by
    obtain ⟨he, htodo⟩ := List.forall_mem_cons.mp htodo
    have hnew : h ∉ done.map Prod.fst := by
      intro hmem
      rw [List.map_append] at hnodup
      exact (List.nodup_append.mp hnodup).2.2 h hmem h List.mem_cons_self rfl
    rw [List.append_cons] at hnodup ⊢
    obtain ⟨st', hrun, hst'⟩ := loadRecords_ok (hst.enter he hnew) htodo hnodup
    refine ⟨st', ?_, hst'⟩
    simp only [List.map_cons, loadRecords, he.hash]
    exact (if_neg he.ne).trans hrun

end

/-! ## 5. The second pass -/

theorem getBlockTrust_ofPtr (p : BlockPtr) :
    p.nChainTrust = (p.parent?.map BlockPtr.nChainTrust).getD 0 +
      getBlockTrust p.getBlockHeader.nBits := by
  cases p with
  | root b => exact (BitVec.zero_add _).symm
  | child b q => rfl

/-- The blocks of the tree are in the map, and those in `done` have been through the pass. -/
def Assigned (known : BlockPtr → Prop) (mem : IndexMemory)
    (links : BlockPtr → Option BlockPtr) (done : List UInt256)
    (m : UInt256 → Option LoadedIndex) : Prop :=
  ∀ {p : BlockPtr}, known p → m p.hash =
    some (if p.hash ∈ done then .ofPtr mem links p else .raw mem links p)

/-- **The second pass**, over blocks sorted by their heights: parents come before their children. -/
theorem assignTrust_ok {env : LoadEnv}
    (htree : IndexedTree K env.hashGenesisBlock env.checkpoints known mem best)
    {nHeight : UInt256 → Nat} (hheight : ∀ {p : BlockPtr}, known p → nHeight p.hash = p.height) :
    ∀ {todo done : List UInt256} {m : UInt256 → Option LoadedIndex},
      Assigned known mem links done m → (done ++ todo).Nodup →
      (∀ {p : BlockPtr}, known p → p.hash ∈ done ++ todo) →
      (∀ h ∈ todo, ∃ p, known p ∧ BlockPtr.hash p = h) →
      todo.Pairwise (fun a b => nHeight a ≤ nHeight b) →
      ∃ m', assignTrust K env todo m = .ok m' ∧ Assigned known mem links (done ++ todo) m' ∧
        ∀ h, (m' h).isSome ↔ (m h).isSome
  | [], done, m, hm, _, _, _, _ => by
    refine ⟨m, rfl, ?_, fun _ => Iff.rfl⟩
    rwa [List.append_nil]
  | h :: todo, done, m, hm, hnodup, hcovers, honly, hsorted => by
    obtain ⟨⟨p, hp, rfl⟩, htail⟩ := List.forall_mem_cons.mp honly
    obtain ⟨hfirst, hsorted⟩ := List.pairwise_cons.mp hsorted
    have hfresh : p.hash ∉ done := fun hmem =>
      (List.nodup_append.mp hnodup).2.2 p.hash hmem p.hash List.mem_cons_self rfl
    have hraw : m p.hash = some (.raw mem links p) := by rw [hm hp, if_neg hfresh]
    -- the parent is lower, so it cannot come later
    have hprev : ((LoadedIndex.raw mem links p).pprev.bind m) =
        p.parent?.map (LoadedIndex.ofPtr mem links) := by
      cases hpar : p.parent? with
      | none => simp [LoadedIndex.raw, LoadedIndex.ofPtr, hpar]
      | some q =>
        have hq := htree.parent hp hpar
        have hlower : q.height < p.height := by
          cases p with
          | root b => cases hpar
          | child b q' =>
            cases hpar
            exact Nat.lt_succ_self _
        have hdone : BlockPtr.hash q ∈ done := by
          rcases List.mem_append.mp (hcovers hq) with hdone | hlater
          · exact hdone
          · rcases List.mem_cons.mp hlater with hsame | hlater
            · rw [htree.inj hq hp hsame] at hlower
              exact absurd hlower (Nat.lt_irrefl _)
            · have hle := hfirst _ hlater
              rw [hheight hp, hheight hq] at hle
              exact absurd hlower (Nat.not_lt.mpr hle)
        simp only [LoadedIndex.raw, LoadedIndex.ofPtr, hpar, Option.map_some, Option.bind_some]
        rw [hm hq, if_pos hdone]
        rfl
    obtain ⟨-, hchecksum, hcheckpoint⟩ := htree.fields hp
    have hstep : assignTrust K env (p.hash :: todo) m =
        assignTrust K env todo (Function.update m p.hash (some (.ofPtr mem links p))) := by
      have htrust := getBlockTrust_ofPtr p
      have hsum : getStakeModifierChecksum K env.hashGenesisBlock
          ((p.parent?.map (LoadedIndex.ofPtr mem links)).map
            fun j => j.fields.nStakeModifierChecksum) p.hash
          (LoadedIndex.raw mem links p).fields.stake = .ok (mem p).nStakeModifierChecksum := by
        rw [Option.map_map]
        exact hchecksum
      have hheight' : (LoadedIndex.raw mem links p).nHeight = p.height := rfl
      simp only [assignTrust, hraw, hprev, hsum, bind, Except.bind, hheight', hcheckpoint, refuse,
        Bool.true_eq_false, if_false]
      have hindex : ({ LoadedIndex.raw mem links p with
          nChainTrust := ((p.parent?.map (LoadedIndex.ofPtr mem links)).map
            LoadedIndex.nChainTrust).getD 0 + getBlockTrust (LoadedIndex.raw mem links p).header.nBits
          fields := { (LoadedIndex.raw mem links p).fields with
            nStakeModifierChecksum := (mem p).nStakeModifierChecksum } } : LoadedIndex) =
          .ofPtr mem links p := by
        rw [Option.map_map]
        simp only [LoadedIndex.raw, LoadedIndex.ofPtr, htrust]
        rfl
      exact congrArg (fun i => assignTrust K env todo (Function.update m p.hash (some i))) hindex
    have hm' : Assigned known mem links (done ++ [p.hash])
        (Function.update m p.hash (some (.ofPtr mem links p))) := by
      intro q hq
      by_cases hqp : q = p
      · subst hqp
        simp
      · have hne : q.hash ≠ p.hash := fun heq => hqp (htree.inj hq hp heq)
        rw [Function.update_of_ne hne, hm hq]
        simp [hne]
    rw [List.append_cons] at hnodup hcovers
    obtain ⟨m', hrun, hassigned, hdomain⟩ :=
      assignTrust_ok htree hheight hm' hnodup hcovers htail hsorted
    rw [← List.append_cons] at hassigned
    refine ⟨m', hstep.trans hrun, hassigned, fun h => ?_⟩
    rw [hdomain]
    by_cases hh : h = p.hash
    · subst hh
      simp [hraw]
    · rw [Function.update_of_ne hh]

/-! ## 6. The best chain -/

section

variable {m : UInt256 → Option LoadedIndex}
  (hm : ∀ {p : BlockPtr}, known p → m p.hash = some (.ofPtr mem links p))
  (hparent : ∀ {p q : BlockPtr}, known p → p.parent? = some q → known q)

include hm hparent

/-- The check of the best chain goes through where the blocks can be read, and finds a bad block only
where there is one. -/
theorem verifyBlocks_ok {env : LoadEnv} {nLowest : Nat} :
    ∀ {fuel : Nat} {p : BlockPtr} {pindexFork : Option UInt256}, known p →
      (∀ q ∈ p.ancestors, (env.checkBlock (BlockPtr.hash q)).isSome = true) →
      ∃ fork, verifyBlocks env m nLowest fuel (some p.hash) pindexFork = .ok fork ∧
        ((∀ q ∈ p.ancestors, env.checkBlock (BlockPtr.hash q) = some true) → fork = pindexFork)
  | 0, _, pindexFork, _, _ => ⟨pindexFork, rfl, fun _ => rfl⟩
  | fuel + 1, p, pindexFork, hp, hread => by
    have hindex := hm hp
    unfold verifyBlocks
    cases hpar : p.parent? with
    | none =>
      simp only [LoadedIndex.ofPtr, hpar, Option.map_none] at hindex
      simp only [hindex]
      exact ⟨pindexFork, rfl, fun _ => rfl⟩
    | some q =>
      have hself := Branch.self_mem_ancestors p
      have hanc : ∀ r ∈ q.ancestors, r ∈ p.ancestors := fun r hr =>
        Branch.mem_ancestors_trans hr (Branch.parent_mem hself hpar)
      simp only [LoadedIndex.ofPtr, hpar, Option.map_some] at hindex
      simp only [hindex]
      split
      · exact ⟨pindexFork, rfl, fun _ => rfl⟩
      · obtain ⟨fGood, hcheck⟩ := Option.isSome_iff_exists.mp (hread p hself)
        obtain ⟨fork, hrun, hfork⟩ : ∃ fork, verifyBlocks env m nLowest fuel (some (BlockPtr.hash q))
            (if fGood then pindexFork else some (BlockPtr.hash q)) = .ok fork ∧
            ((∀ r ∈ q.ancestors, env.checkBlock (BlockPtr.hash r) = some true) →
              fork = if fGood then pindexFork else some (BlockPtr.hash q)) :=
          verifyBlocks_ok (hparent hp hpar) fun r hr => hread r (hanc r hr)
        rw [hcheck]
        refine ⟨fork, hrun, fun hgood => ?_⟩
        rw [hfork fun r hr => hgood r (hanc r hr)]
        rw [hgood p hself, Option.some_inj] at hcheck
        rw [← hcheck]
        rfl

/-- Walking down from a block fills the lookup with its branch. -/
theorem buildLookup_ok :
    ∀ {p : BlockPtr} {lookup : Nat → Option UInt256}, known p →
      buildLookup m p.height (some p.hash) lookup =
        .ok fun k => if k ≤ p.height then (p.atHeight k).map BlockPtr.hash else lookup k
  | .root b, lookup, _ => by
    have htable : Function.update lookup 0 (some (BlockPtr.hash (.root b))) = fun k =>
        if k ≤ Branch.height (.root b) then ((Branch.root b).atHeight k).map BlockPtr.hash
        else lookup k := by
      funext k
      by_cases hk : k = 0
      · subst hk
        simp [Branch.atHeight, Branch.height]
      · simp [Branch.height, hk]
    rw [← htable]
    rfl
  | .child b q, lookup, hp => by
    have hq : known q := hparent hp rfl
    have hprev : (m (BlockPtr.hash (.child b q))).bind LoadedIndex.pprev = some (BlockPtr.hash q) := by
      rw [hm hp]
      rfl
    rw [Branch.height, buildLookup, hprev, buildLookup_ok hq]
    congr 1
    funext k
    rw [Branch.atHeight_child]
    by_cases hk : k = q.height + 1
    · subst hk
      simp [Branch.height]
    · have hle : k ≤ q.height + 1 ↔ k ≤ q.height := by omega
      simp only [hle, Branch.height, Function.update_of_ne hk]

end

/-! ## 7. Loading -/

/-- **A loaded node that is the one in memory**: the same blocks with the same fields and pointers, and
the same best chain. -/
structure Reloaded (hashGenesisBlock : UInt256) (known : BlockPtr → Prop) (mem : IndexMemory)
    (best : BlockPtr) (l : LoadedNode) : Prop where
  index : ∀ {p : BlockPtr}, known p → l.mapBlockIndex p.hash = some (.ofPtr mem best.next p)
  only : ∀ {h : UInt256}, (l.mapBlockIndex h).isSome → ∃ p, known p ∧ BlockPtr.hash p = h
  genesis : l.pindexGenesisBlock = some hashGenesisBlock
  pindexBest : l.pindexBest = some best.hash
  hashBestChain : l.hashBestChain = best.hash
  nBestHeight : l.nBestHeight = best.height
  nBestChainTrust : l.nBestChainTrust = best.nChainTrust
  lookup : ∀ k, l.mapBlockLookup k = (best.atHeight k).map BlockPtr.hash

/-- The genesis block of a branch is at its bottom. -/
theorem IndexedTree.bottom (htree : IndexedTree K hashGenesisBlock checkpoints known mem best) :
    ∀ {p : BlockPtr}, known p → ∃ q, known q ∧ BlockPtr.hash q = hashGenesisBlock
  | .root _, hp => ⟨_, hp, (htree.genesis hp).mp rfl⟩
  | .child _ _, hp => htree.bottom (htree.parent hp rfl)

/-- **Records in step with a memory give it back**, and no fork if the best chain is found good. -/
theorem CTxDB.loadBlockIndex_spec {env : LoadEnv}
    (htree : IndexedTree K env.hashGenesisBlock env.checkpoints known mem best)
    (hsync : Synced known best.next mem records) (hvisits : Visits entries records)
    (hreadable : ∀ q ∈ best.ancestors, (env.checkBlock (BlockPtr.hash q)).isSome = true) :
    ∃ l, CTxDB.loadBlockIndex K env (entries.map Prod.snd) (some best.hash) = .ok l ∧
      Reloaded env.hashGenesisBlock known mem best l ∧
      ((∀ q ∈ best.ancestors, env.checkBlock (BlockPtr.hash q) = some true) →
        l.pindexFork = none) := by
  have hnextKnown : ∀ {p q : BlockPtr}, best.next p = some q → known q := by
    intro p q hq
    have hanc : ∀ {r s : BlockPtr}, known r → s ∈ r.ancestors → known s := by
      intro r
      induction r with
      | root b =>
        intro s hr hs
        rwa [List.mem_singleton.mp hs]
      | child b r ih =>
        intro s hr hs
        rcases List.mem_cons.mp hs with rfl | hs
        · exact hr
        · exact ih (htree.parent hr rfl) hs
    exact hanc htree.best (Branch.next_eq_some.mp hq).1
  have hentry : ∀ e ∈ entries, ∃ p, known p ∧ e = (p.hash, storedRecord (mem p) (best.next p) p) := by
    rintro ⟨h, r⟩ he
    have hr := hvisits.mem_iff.mp he
    obtain ⟨p, hp, rfl⟩ := hsync.only hr
    rw [hsync.record hp] at hr
    cases hr
    exact ⟨p, hp, rfl⟩
  have hok : ∀ e ∈ entries, EntryOk K env.clock (fun h => ∃ p, known p ∧ BlockPtr.hash p = h) e := by
    intro e he
    obtain ⟨p, hp, rfl⟩ := hentry e he
    refine ⟨(htree.honest hp).getBlockHash_stored env.clock _ _, (htree.honest hp).hash_ne,
      ⟨p, hp, rfl⟩, ?_, ?_⟩
    · cases hpar : p.parent? with
      | none => exact Or.inl (by simp [storedRecord, IndexRecord.stored, IndexRecord.ofIndex,
          CDiskBlockIndex.ofIndex, hpar])
      | some q => exact Or.inr ⟨q, htree.parent hp hpar, by simp [storedRecord, IndexRecord.stored,
          IndexRecord.ofIndex, CDiskBlockIndex.ofIndex, hpar]⟩
    · cases hnext : best.next p with
      | none => exact Or.inl rfl
      | some q => exact Or.inr ⟨q, hnextKnown hnext, rfl⟩
  have hstart : ReadOk env.hashGenesisBlock (fun h => ∃ p, known p ∧ BlockPtr.hash p = h) []
      ⟨fun _ => none, [], none⟩ :=
    ⟨nofun, nofun, by simp, List.nodup_nil, rfl⟩
  obtain ⟨st, hread, hst⟩ := loadRecords_ok hstart hok (by rw [List.nil_append]; exact hvisits.nodup)
  rw [List.nil_append] at hst
  have hmem : ∀ {p : BlockPtr}, known p →
      (p.hash, storedRecord (mem p) (best.next p) p) ∈ entries :=
    fun hp => hvisits.mem_iff.mpr (hsync.record hp)
  have hraw : ∀ {p : BlockPtr}, known p →
      st.mapBlockIndex p.hash = some (.raw mem best.next p) := by
    intro p hp
    rw [hst.entered (hmem hp), LoadedIndex.ofRecord_stored (htree.honest hp)
      (htree.fields hp).stored (fun q hq => (htree.honest (htree.parent hp hq)).hash_ne)
      fun q hq => (htree.honest (hnextKnown hq)).hash_ne]
  have hkeys : ∀ {h : UInt256}, h ∈ st.keys → ∃ p, known p ∧ BlockPtr.hash p = h :=
    fun hh => hst.only (hst.mem_keys.mp hh)
  set nHeight : UInt256 → Nat := fun hash =>
    ((st.mapBlockIndex hash).map LoadedIndex.nHeight).getD 0 with hnHeight
  have hheight : ∀ {p : BlockPtr}, known p → nHeight p.hash = p.height := by
    intro p hp
    simp only [hnHeight, hraw hp]
    rfl
  have hperm := env.bySort.perm nHeight st.keys
  have hnone : Assigned known mem best.next [] st.mapBlockIndex :=
    fun hp => by simpa using hraw hp
  obtain ⟨m, hassign, hm, hdomain⟩ := assignTrust_ok htree hheight hnone
    (by simpa using hperm.nodup_iff.mpr hst.nodup)
    (fun hp => by simpa [hperm.mem_iff, hst.mem_keys] using by rw [hraw hp]; rfl)
    (fun h hh => hkeys (hperm.mem_iff.mp hh)) (env.bySort.sorted nHeight st.keys)
  have hall : ∀ {p : BlockPtr}, known p → m p.hash = some (.ofPtr mem best.next p) := by
    intro p hp
    have hin : p.hash ∈ [] ++ env.bySort.sort nHeight st.keys := by
      rw [List.nil_append, hperm.mem_iff, hst.mem_keys, hraw hp]
      rfl
    rw [hm hp, if_pos hin]
  have hbest := hall htree.best
  obtain ⟨fork, hverify, hfork⟩ : ∃ fork,
      verifyBlocks env m (best.height - checkDepth env.nCheckBlocks best.height) (best.height + 1)
        (some best.hash) none = .ok fork ∧
      ((∀ q ∈ best.ancestors, env.checkBlock (BlockPtr.hash q) = some true) → fork = none) :=
    verifyBlocks_ok hall htree.parent htree.best hreadable
  have hlookup : buildLookup m best.height (some best.hash) (fun _ => none) = .ok fun k =>
      if k ≤ best.height then (best.atHeight k).map BlockPtr.hash else none :=
    buildLookup_ok hall htree.parent htree.best
  have hgenesis : st.pindexGenesisBlock = some env.hashGenesisBlock := by
    obtain ⟨q, hq, hqg⟩ := htree.bottom htree.best
    rw [hst.genesis, if_pos]
    exact List.mem_map.mpr ⟨_, hmem hq, hqg⟩
  refine ⟨⟨m, st.pindexGenesisBlock, some best.hash, best.hash, best.height, best.nChainTrust,
    fun k => if k ≤ best.height then (best.atHeight k).map BlockPtr.hash else none, fork⟩, ?_, ?_,
    hfork⟩
  · have hheight' : (LoadedIndex.ofPtr mem best.next best).nHeight = best.height := rfl
    have htrust' : (LoadedIndex.ofPtr mem best.next best).nChainTrust = best.nChainTrust := rfl
    unfold CTxDB.loadBlockIndex
    rw [hread]
    simp only [bind, Except.bind, ← hnHeight, hassign, hbest, hheight', hverify, hlookup, htrust']
    rfl
  · refine ⟨hall, ?_, hgenesis, rfl, rfl, rfl, rfl, ?_⟩
    · intro h hh
      exact hst.only ((hdomain h).mp hh)
    · intro k
      by_cases hk : k ≤ best.height
      · exact if_pos hk
      · rw [Branch.atHeight_eq_none_of_lt (not_le.mp hk)]
        exact if_neg hk

end Breakout
