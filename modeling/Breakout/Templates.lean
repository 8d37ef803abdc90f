/-
# The cache of kawpow templates

`CreateNewBlock`, `IncrementExtraNonce` and `getblocktemplatekawpow` put the block they have made into
`mapKawpowBlockTemplates`, under the text of its header hash.  A miner that asks for work gets such a
text, and `pprpcsb` finds the block by it.  The first and the third keep no more than ten templates.

The ten are the last in the order of the texts, not the ten newest.  So a template that is new may be
erased at once, before its text is returned, or soon after.  `templates_iff` says when every text that
was handed out is found until ten newer templates were cached: at every pruning, fewer than ten
texts are larger than one that is to be found.

Calls that are refused before anything is touched (no connections, initial download) are left out.
-/
import Breakout.Lib.History
import Breakout.Lib.OrderedMap
import Breakout.Block
import Breakout.HexText
import Mathlib.Data.Char
import Mathlib.Data.List.Lex

namespace Breakout

open Lib

variable (K : Crypto)

/-! ## 1. The functions -/

/-- A `CBlockIndex`, as far as templates need it. -/
structure TipIndex where
  hashBlock : UInt256
  nHeight : Nat
deriving DecidableEq

namespace CBlock

def updateTime (nAdjustedTime : Nat) (block : CBlock) : CBlock :=
  { block with nTime := UInt32.ofNat (max block.nTime.toNat nAdjustedTime) }

/-- The key of a template. -/
def headerText (block : CBlock) : List Char := getHex (block.getKAWPOWHeaderHash K)

/-- The block with its merkle root. -/
def withRoot (block : CBlock) : CBlock := { block with hashMerkleRoot := block.buildMerkleTree K }

/-- The script of the first input of the first transaction set. -/
def withScriptSig (scriptSig : CScript) (block : CBlock) : CBlock :=
  { block with
    vtx := block.vtx.modifyHead fun tx =>
      { tx with vin := tx.vin.modifyHead fun txin => { txin with scriptSig := scriptSig } } }

end CBlock

/-- `CScript() << n`, for an unsigned number. -/
def pushUint64 (n : Nat) : CScript :=
  if 1 ≤ n ∧ n ≤ 16 then [UInt8.ofNat n + (op1 - 1)] else pushData (getvch n)

/-- The cache, the statics of `IncrementExtraNonce` and of `getblocktemplatekawpow`, and the best block.

The last three fields are not in the program: the keys in the order they were last cached, the newest
first, the texts handed out, and the text the last step returned. -/
structure Templates where
  mapKawpowBlockTemplates : OrderedMap (List Char) CBlock
  hashPrevBlock : UInt256
  pindexPrev : Option TipIndex
  pblock : Option CBlock
  lastheader : List Char
  fLastTemplateKawpow : Bool
  pindexBest : TipIndex
  cached : List (List Char)
  handed : List (List Char)
  answer : Option (List Char)

/-- What a call of `getblocktemplatekawpow` meets: the adjusted time at its three readings, and what
`CreateNewBlock` puts together from the pool and the wallet, if it is called. -/
structure TemplateCall where
  nTimeAsked : Nat
  nTimeCreated : Nat
  nTimeUpdated : Nat
  assembled : Option CBlock

/-- `KawpowIsActive` -/
def TemplateCall.fIsKawpow (call : TemplateCall) : Prop := Fork.fork007 ≤ getFork call.nTimeAsked

instance (call : TemplateCall) : Decidable call.fIsKawpow :=
  inferInstanceAs (Decidable (Fork.fork007 ≤ getFork call.nTimeAsked))

/-- A step. -/
inductive TemplateStep where
  | createNewBlock (pindexPrev : TipIndex) (assembled : Option CBlock) (fProofOfStake : Bool)
      (nAdjustedTime : Nat)
  | incrementExtraNonce (pblock : CBlock) (pindexPrev : TipIndex) (nExtraNonce : UInt32)
  | getblocktemplatekawpow (call : TemplateCall)
  | tipChange (pindexNew : TipIndex)

/-- "KAWPoW": is the block that `CreateNewBlock` has made cached? -/
def IsTemplate (fProofOfStake : Bool) (pblock : CBlock) : Prop :=
  fProofOfStake = false ∧ Fork.fork007 ≤ getFork pblock.nTime.toNat

instance (fProofOfStake : Bool) (pblock : CBlock) : Decidable (IsTemplate fProofOfStake pblock) :=
  inferInstanceAs (Decidable (_ ∧ _))

/-- "Fill in header", from the assembled block on. -/
def fillHeader (pindexPrev : TipIndex) (fProofOfStake : Bool) (nAdjustedTime : Nat) (pblock : CBlock) :
    CBlock :=
  let pblock := { pblock with hashPrevBlock := pindexPrev.hashBlock }
  let pblock := if fProofOfStake then pblock else pblock.updateTime nAdjustedTime
  let pblock := { pblock with nNonce := 0 }
  if IsTemplate fProofOfStake pblock then
    CBlock.withRoot K
      { pblock with
        nHeight := UInt32.ofNat (pindexPrev.nHeight + 1)
        nNonce64 := 0
        mixHash := 0 }
  else pblock

/-- The most recent key moves to the front. -/
def moveToFront (cached : List (List Char)) (key : List Char) : List (List Char) :=
  key :: cached.erase key

namespace Templates

/-- Nothing cached yet. -/
def initial (pindexBest : TipIndex) : Templates :=
  ⟨.empty, 0, none, none, [], true, pindexBest, [], [], none⟩

/-- `mapKawpowBlockTemplates[headerHash.GetHex()] = *pblock` -/
def cacheTemplate (s : Templates) (pblock : CBlock) : Templates :=
  { s with
    mapKawpowBlockTemplates := s.mapKawpowBlockTemplates.insert (pblock.headerText K) pblock
    cached := moveToFront s.cached (pblock.headerText K) }

def getKawpowBlockTemplate (s : Templates) (headerHash : List Char) : Option CBlock :=
  s.mapKawpowBlockTemplates.find headerHash

/-- `CreateNewBlock`, from the assembled block on. -/
def createNewBlock (s : Templates) (pindexPrev : TipIndex) (assembled : Option CBlock)
    (fProofOfStake : Bool) (nAdjustedTime : Nat) : Option CBlock × Templates :=
  match assembled with
  | none => (none, s)
  | some pblock =>
    let pblock := fillHeader K pindexPrev fProofOfStake nAdjustedTime pblock
    if IsTemplate fProofOfStake pblock then
      let s := s.cacheTemplate K pblock
      -- "Prune all but last 10 templates"
      (some pblock, { s with mapKawpowBlockTemplates := s.mapKawpowBlockTemplates.dropTo 10 })
    else (some pblock, s)

/-- `IncrementExtraNonce`: the block, the extra nonce and the state afterwards.  `COINBASE_FLAGS` is
empty. -/
def incrementExtraNonce (s : Templates) (pblock : CBlock) (pindexPrev : TipIndex)
    (nExtraNonce : UInt32) : CBlock × UInt32 × Templates :=
  let nExtraNonce := (if s.hashPrevBlock ≠ pblock.hashPrevBlock then 0 else nExtraNonce) + 1
  let s := { s with hashPrevBlock := pblock.hashPrevBlock }
  let scriptSig := pushUint64 (UInt32.ofNat (pindexPrev.nHeight + 1)).toNat ++
    pushData (getvch nExtraNonce.toNat)
  let pblock := (pblock.withScriptSig scriptSig).withRoot K
  if Fork.fork007 ≤ getFork pblock.nTime.toNat then (pblock, nExtraNonce, s.cacheTemplate K pblock)
  else (pblock, nExtraNonce, s)

/-- A call that does not find its tip to be the best block makes a new block. -/
def renew (s : Templates) (call : TemplateCall) : Templates :=
  let s := { s with pindexPrev := none }
  let s :=
    if call.fIsKawpow ∧ s.fLastTemplateKawpow = false then
      { s with mapKawpowBlockTemplates := .empty, fLastTemplateKawpow := true }
    else s
  let s := { s with lastheader := [] }
  let (pblock, s) := s.createNewBlock K s.pindexBest call.assembled false call.nTimeCreated
  match pblock with
  | none => { s with pblock := none }
  | some pblock => { s with pblock := some pblock, pindexPrev := some s.pindexBest }

/-- "Check if we can reuse a recent template" -/
def Reusable (s : Templates) (pblock : CBlock) : Prop :=
  s.lastheader ≠ [] ∧
    ∃ it ∈ s.mapKawpowBlockTemplates.find s.lastheader, pblock.nTime - 30 < it.nTime

instance (s : Templates) (pblock : CBlock) : Decidable (s.Reusable pblock) :=
  inferInstanceAs (Decidable (_ ∧ _))

/-- "Update nTime" -/
def current (call : TemplateCall) (pblock : CBlock) : CBlock :=
  { pblock.updateTime call.nTimeUpdated with nNonce := 0, nNonce64 := 0 }

/-- `getblocktemplatekawpow`; the text it returns is the `answer`. -/
def getblocktemplatekawpow (s : Templates) (call : TemplateCall) : Templates :=
  let s := if s.pindexPrev = some s.pindexBest then s else s.renew K call
  match s.pblock with
  | none => { s with answer := none }                -- "Out of memory or keypool exhausted"
  | some pblock =>
    let pblock := current call pblock
    let s := { s with pblock := some pblock }
    if call.fIsKawpow then
      if s.Reusable pblock then
        { s with handed := s.lastheader :: s.handed, answer := some s.lastheader }
      else
        let pblock := pblock.withRoot K
        let s := { s with pblock := some pblock }.cacheTemplate K pblock
        -- "Keep only last 10 templates"
        { s with
          mapKawpowBlockTemplates := s.mapKawpowBlockTemplates.popTo 10
          lastheader := pblock.headerText K
          handed := pblock.headerText K :: s.handed
          answer := some (pblock.headerText K) }
    else { s with answer := none }

/-- One step. -/
def step (s : Templates) : TemplateStep → Templates
  | .createNewBlock pindexPrev assembled fProofOfStake nAdjustedTime =>
    { (s.createNewBlock K pindexPrev assembled fProofOfStake nAdjustedTime).2 with answer := none }
  | .incrementExtraNonce pblock pindexPrev nExtraNonce =>
    { (s.incrementExtraNonce K pblock pindexPrev nExtraNonce).2.2 with answer := none }
  | .getblocktemplatekawpow call => s.getblocktemplatekawpow K call
  | .tipChange pindexNew => { s with pindexBest := pindexNew, answer := none }

/-! ## 2. What is cached, and what is found -/

/-- The keys in the cache. -/
def keys (s : Templates) : Finset (List Char) := s.mapKawpowBlockTemplates.keys

/-- The texts under which `CreateNewBlock` caches. -/
def createdTexts (pindexPrev : TipIndex) (assembled : Option CBlock) (fProofOfStake : Bool)
    (nAdjustedTime : Nat) : List (List Char) :=
  match assembled with
  | none => []
  | some pblock =>
    let pblock := fillHeader K pindexPrev fProofOfStake nAdjustedTime pblock
    if IsTemplate fProofOfStake pblock then [pblock.headerText K] else []

/-- The block a call of `getblocktemplatekawpow` goes on with. -/
def standing (s : Templates) (call : TemplateCall) : Option CBlock :=
  if s.pindexPrev = some s.pindexBest then s.pblock
  else call.assembled.map (fillHeader K s.pindexBest false call.nTimeCreated)

/-- The texts under which a step caches templates of `CreateNewBlock`. -/
def created (s : Templates) : TemplateStep → List (List Char)
  | .createNewBlock pindexPrev assembled fProofOfStake nAdjustedTime =>
    createdTexts K pindexPrev assembled fProofOfStake nAdjustedTime
  | .getblocktemplatekawpow call =>
    if s.pindexPrev = some s.pindexBest then []
    else createdTexts K s.pindexBest call.assembled false call.nTimeCreated
  | _ => []

/-- The text under which a step caches a template that it makes itself. -/
def rebuilt (s : Templates) : TemplateStep → List (List Char)
  | .getblocktemplatekawpow call =>
    match s.standing K call with
    | none => []
    | some pblock =>
      if call.fIsKawpow ∧
          ¬ (s.pindexPrev = some s.pindexBest ∧ s.Reusable (current call pblock)) then
        [((current call pblock).withRoot K).headerText K]
      else []
  | _ => []

/-- Fewer than ten newer templates were cached. -/
def Recent (cached : List (List Char)) (headerHash : List Char) : Prop :=
  headerHash ∈ cached.take 10

/-- **Work units are found.**  The key of a template is its header hash, the text just returned is a
key, and so is every one that was returned before and is recent. -/
structure Found (s : Templates) : Prop where
  right : ∀ e ∈ s.mapKawpowBlockTemplates.entries, e.1 = e.2.headerText K
  answered : ∀ headerHash, s.answer = some headerHash → headerHash ∈ s.keys
  recent : ∀ headerHash ∈ s.handed, Recent s.cached headerHash → headerHash ∈ s.keys

/-- **There is room.**  When a step prunes, fewer than ten of the texts, the new ones with them, are
larger than one that was or will be handed out and is recent. -/
def Roomy (s : Templates) (op : TemplateStep) : Prop :=
  let news := s.created K op ++ s.rebuilt K op
  news ≠ [] → ∀ headerHash ∈ s.rebuilt K op ++ s.handed,
    Recent (news.foldl moveToFront s.cached) headerHash →
      (larger (s.keys ∪ news.toFinset) headerHash).card < 10

/-! ## 3. What is recent -/

section

variable {cached news : List (List Char)} {key headerHash : List Char}

theorem mem_take_of_mem_take_erase {n : Nat} (h : key ∈ (cached.erase headerHash).take n) :
    key ∈ cached.take (n + 1) := by
  induction cached generalizing n with
  | nil => simp at h
  | cons first rest ih =>
    rw [List.take_succ_cons]
    rw [List.erase_cons] at h
    split_ifs at h with heq
    · exact List.mem_cons_of_mem _ h
    · cases n with
      | zero => simp at h
      | succ n =>
        rw [List.take_succ_cons] at h
        rcases List.mem_cons.mp h with rfl | h
        · exact List.mem_cons_self
        · exact List.mem_cons_of_mem _ (ih h)

theorem Recent.of_moveToFront (h : Recent (moveToFront cached key) headerHash) :
    headerHash = key ∨ Recent cached headerHash := by
  rw [Recent, moveToFront, List.take_succ_cons] at h
  exact (List.mem_cons.mp h).imp_right mem_take_of_mem_take_erase

/-- Nothing gets recent that is not cached. -/
theorem Recent.of_foldl (h : Recent (news.foldl moveToFront cached) headerHash) :
    headerHash ∈ news ∨ Recent cached headerHash := by
  induction news generalizing cached with
  | nil => exact Or.inr h
  | cons key news ih =>
    rcases ih h with hnews | h
    · exact Or.inl (List.mem_cons_of_mem _ hnews)
    · rcases h.of_moveToFront with rfl | h
      · exact Or.inl List.mem_cons_self
      · exact Or.inr h

end

/-! ## 4. One operation -/

variable {K}

/-- The state after some templates were cached and the cache was pruned. -/
structure Pruned (K : Crypto) (s s' : Templates) (news : List (List Char)) : Prop where
  right : (∀ e ∈ s.mapKawpowBlockTemplates.entries, e.1 = e.2.headerText K) →
    ∀ e ∈ s'.mapKawpowBlockTemplates.entries, e.1 = e.2.headerText K
  keys : s'.keys = if news = [] then s.keys else largest 10 (s.keys ∪ news.toFinset)
  cached : s'.cached = news.foldl moveToFront s.cached

variable {s s₁ s₂ : Templates} {news news' : List (List Char)}

theorem Pruned.refl (s : Templates) : Pruned K s s [] := ⟨fun h => h, (if_pos rfl).symm, rfl⟩

theorem Pruned.trans (h : Pruned K s s₁ news) (h' : Pruned K s₁ s₂ news') :
    Pruned K s s₂ (news ++ news') := by
  refine ⟨fun hright => h'.right (h.right hright), ?_, ?_⟩
  · rw [h'.keys, h.keys]
    by_cases hnil : news = []
    · rw [if_pos hnil, hnil, List.nil_append]
    · by_cases hnil' : news' = []
      · rw [if_pos hnil', if_neg hnil, if_neg (by simp [hnil]), hnil', List.append_nil]
      · rw [if_neg hnil', if_neg hnil, if_neg (by simp [hnil]), largest_largest_union,
          List.toFinset_append, Finset.union_assoc]
  · rw [h'.cached, h.cached, List.foldl_append]

/-- A template is cached under its own text. -/
theorem right_cacheTemplate {pblock : CBlock}
    (h : ∀ e ∈ s.mapKawpowBlockTemplates.entries, e.1 = e.2.headerText K) :
    ∀ e ∈ (s.cacheTemplate K pblock).mapKawpowBlockTemplates.entries, e.1 = e.2.headerText K := by
  intro e he
  rcases OrderedMap.mem_entries_insert he with rfl | he
  · rfl
  · exact h e he

theorem keys_cacheTemplate (s : Templates) (pblock : CBlock) :
    (s.cacheTemplate K pblock).keys = insert (pblock.headerText K) s.keys :=
  OrderedMap.keys_insert

/-- One template is cached, and the cache is pruned. -/
theorem Pruned.cache (s : Templates) (pblock : CBlock) :
    Pruned K s
      { s.cacheTemplate K pblock with
        mapKawpowBlockTemplates := (s.cacheTemplate K pblock).mapKawpowBlockTemplates.dropTo 10 }
      [pblock.headerText K] where
  right h e he := right_cacheTemplate h e (OrderedMap.mem_entries_dropTo he)
  keys := by
    rw [if_neg (List.cons_ne_nil _ _), List.toFinset_cons, List.toFinset_nil, Finset.union_comm,
      Finset.insert_union, Finset.empty_union, ← keys_cacheTemplate]
    exact OrderedMap.keys_dropTo
  cached := rfl

theorem createNewBlock_pruned (s : Templates) (pindexPrev : TipIndex) (assembled : Option CBlock)
    (fProofOfStake : Bool) (nAdjustedTime : Nat) :
    Pruned K s (s.createNewBlock K pindexPrev assembled fProofOfStake nAdjustedTime).2
      (createdTexts K pindexPrev assembled fProofOfStake nAdjustedTime) := by
  unfold createNewBlock createdTexts
  cases assembled with
  | none => exact .refl s
  | some pblock =>
    dsimp only
    split_ifs
    · exact .cache s _
    · exact .refl s

theorem createNewBlock_fst (s : Templates) (pindexPrev : TipIndex) (assembled : Option CBlock)
    (fProofOfStake : Bool) (nAdjustedTime : Nat) :
    (s.createNewBlock K pindexPrev assembled fProofOfStake nAdjustedTime).1 =
      assembled.map (fillHeader K pindexPrev fProofOfStake nAdjustedTime) := by
  unfold createNewBlock
  cases assembled with
  | none => rfl
  | some pblock =>
    dsimp only
    split_ifs
    · rfl
    · rfl

/-- `CreateNewBlock` does not touch the statics. -/
theorem createNewBlock_statics (s : Templates) (pindexPrev : TipIndex) (assembled : Option CBlock)
    (fProofOfStake : Bool) (nAdjustedTime : Nat) :
    let s' := (s.createNewBlock K pindexPrev assembled fProofOfStake nAdjustedTime).2
    s'.lastheader = s.lastheader ∧ s'.fLastTemplateKawpow = s.fLastTemplateKawpow ∧
      s'.handed = s.handed := by
  unfold createNewBlock
  cases assembled with
  | none => exact ⟨rfl, rfl, rfl⟩
  | some pblock =>
    dsimp only
    split_ifs
    · exact ⟨rfl, rfl, rfl⟩
    · exact ⟨rfl, rfl, rfl⟩

/-- What a call of `getblocktemplatekawpow` goes on with. -/
structure Ready (K : Crypto) (s s' : Templates) (call : TemplateCall) : Prop where
  pruned : Pruned K s s' (s.created K (.getblocktemplatekawpow call))
  pblock : s'.pblock = s.standing K call
  reusable : ∀ pblock, s'.Reusable pblock ↔ s.pindexPrev = some s.pindexBest ∧ s.Reusable pblock
  fLast : s'.fLastTemplateKawpow = true
  handed : s'.handed = s.handed

theorem ready_self (hflag : s.fLastTemplateKawpow = true) (call : TemplateCall)
    (htip : s.pindexPrev = some s.pindexBest) : Ready K s s call where
  pruned := by
    rw [created, if_pos htip]
    exact .refl s
  pblock := by rw [standing, if_pos htip]
  reusable pblock := by rw [and_iff_right htip]
  fLast := hflag
  handed := rfl

theorem ready_renew (hflag : s.fLastTemplateKawpow = true) (call : TemplateCall)
    (htip : s.pindexPrev ≠ some s.pindexBest) : Ready K s (s.renew K call) call := by
  have hno : ¬ (call.fIsKawpow ∧ s.fLastTemplateKawpow = false) := by
    rw [hflag]
    simp
  unfold renew
  dsimp only
  rw [if_neg hno]
  dsimp only
  have hpruned := createNewBlock_pruned (K := K) { s with pindexPrev := none, lastheader := [] }
    s.pindexBest call.assembled false call.nTimeCreated
  have hfst := createNewBlock_fst (K := K) { s with pindexPrev := none, lastheader := [] }
    s.pindexBest call.assembled false call.nTimeCreated
  obtain ⟨hlast, hflag', hhanded⟩ := createNewBlock_statics (K := K)
    { s with pindexPrev := none, lastheader := [] } s.pindexBest call.assembled false
    call.nTimeCreated
  generalize createNewBlock K { s with pindexPrev := none, lastheader := [] } s.pindexBest
    call.assembled false call.nTimeCreated = r at hpruned hfst hlast hflag' hhanded ⊢
  obtain ⟨pblock, s'⟩ := r
  dsimp only at hpruned hfst hlast hflag' hhanded ⊢
  have hcreated : s.created K (.getblocktemplatekawpow call) =
      createdTexts K s.pindexBest call.assembled false call.nTimeCreated := if_neg htip
  have hstanding : s.standing K call = pblock := by rw [standing, if_neg htip, hfst]
  have hreusable : ∀ pblock, ¬ (s.pindexPrev = some s.pindexBest ∧ s.Reusable pblock) :=
    fun _ h => htip h.1
  cases pblock with
  | none =>
    refine ⟨?_, hstanding.symm, fun b => iff_of_false (fun h => h.1 hlast) (hreusable b),
      hflag'.trans hflag, hhanded⟩
    rw [hcreated]
    exact ⟨hpruned.right, hpruned.keys, hpruned.cached⟩
  | some pblock =>
    refine ⟨?_, hstanding.symm, fun b => iff_of_false (fun h => h.1 hlast) (hreusable b),
      hflag'.trans hflag, hhanded⟩
    rw [hcreated]
    exact ⟨hpruned.right, hpruned.keys, hpruned.cached⟩

/-- What a step that prunes has done: it has returned a text it has cached, or none, or one that was
a key. -/
structure Stepped (K : Crypto) (s s' : Templates) (created rebuilt : List (List Char)) : Prop where
  pruned : Pruned K s s' (created ++ rebuilt)
  recent : ∀ headerHash ∈ rebuilt, Recent s'.cached headerHash
  returned :
    (s'.handed = rebuilt ++ s.handed ∧ ∀ headerHash, s'.answer = some headerHash → headerHash ∈ rebuilt)
    ∨ created ++ rebuilt = [] ∧
      ∃ headerHash ∈ s.keys, s'.handed = headerHash :: s.handed ∧ s'.answer = some headerHash
  fLast : s'.fLastTemplateKawpow = s.fLastTemplateKawpow

theorem createNewBlock_stepped (s : Templates) (pindexPrev : TipIndex) (assembled : Option CBlock)
    (fProofOfStake : Bool) (nAdjustedTime : Nat) :
    Stepped K s (s.step K (.createNewBlock pindexPrev assembled fProofOfStake nAdjustedTime))
      (createdTexts K pindexPrev assembled fProofOfStake nAdjustedTime) [] := by
  obtain ⟨-, hflag, hhanded⟩ :=
    createNewBlock_statics (K := K) s pindexPrev assembled fProofOfStake nAdjustedTime
  have hpruned := createNewBlock_pruned (K := K) s pindexPrev assembled fProofOfStake nAdjustedTime
  refine ⟨?_, nofun, Or.inl ⟨hhanded, nofun⟩, hflag⟩
  rw [List.append_nil]
  exact ⟨hpruned.right, hpruned.keys, hpruned.cached⟩

theorem getblocktemplatekawpow_stepped (hflag : s.fLastTemplateKawpow = true) (call : TemplateCall) :
    Stepped K s (s.step K (.getblocktemplatekawpow call))
      (s.created K (.getblocktemplatekawpow call)) (s.rebuilt K (.getblocktemplatekawpow call)) := by
  have hready : Ready K s (if s.pindexPrev = some s.pindexBest then s else s.renew K call) call := by
    split_ifs with htip
    · exact ready_self hflag call htip
    · exact ready_renew hflag call htip
  unfold step getblocktemplatekawpow
  dsimp only
  generalize (if s.pindexPrev = some s.pindexBest then s else s.renew K call) = s₁ at hready ⊢
  have hpruned := hready.pruned
  unfold rebuilt
  dsimp only
  rw [← hready.pblock]
  cases hpblock : s₁.pblock with
  | none =>
    refine ⟨?_, nofun, Or.inl ⟨hready.handed, nofun⟩, hready.fLast.trans hflag.symm⟩
    rw [List.append_nil]
    exact ⟨hpruned.right, hpruned.keys, hpruned.cached⟩
  | some pblock =>
    dsimp only
    have hreusable : Reusable { s₁ with pblock := some (current call pblock) } (current call pblock) ↔
        s.pindexPrev = some s.pindexBest ∧ s.Reusable (current call pblock) :=
      hready.reusable (current call pblock)
    by_cases hkawpow : call.fIsKawpow
    · rw [if_pos hkawpow]
      by_cases hreuse : s.pindexPrev = some s.pindexBest ∧ s.Reusable (current call pblock)
      · rw [if_pos (hreusable.mpr hreuse), if_neg (fun h => h.2 hreuse)]
        obtain ⟨hne, it, hit, -⟩ := (hready.reusable (current call pblock)).mpr hreuse
        have hnews : s.created K (.getblocktemplatekawpow call) = [] := if_pos hreuse.1
        have hkeys : s₁.keys = s.keys := by rw [hpruned.keys, if_pos hnews]
        refine ⟨?_, nofun, Or.inr ⟨by rw [hnews, List.append_nil], s₁.lastheader, ?_, ?_, rfl⟩,
          hready.fLast.trans hflag.symm⟩
        · rw [List.append_nil]
          exact ⟨hpruned.right, hpruned.keys, hpruned.cached⟩
        · rw [← hkeys]
          exact OrderedMap.mem_keys_iff_find.mpr ⟨it, hit⟩
        · dsimp only
          rw [hready.handed]
      · rw [if_neg (fun h => hreuse (hreusable.mp h)), if_pos ⟨hkawpow, hreuse⟩]
        have hcache := Pruned.cache (K := K) s₁ ((current call pblock).withRoot K)
        have hall := hpruned.trans hcache
        refine ⟨?_, ?_, Or.inl ⟨?_, ?_⟩, hready.fLast.trans hflag.symm⟩
        · refine ⟨fun h => ?_, ?_, hall.cached⟩
          · have hright := hall.right h
            rw [← OrderedMap.popTo_eq_dropTo] at hright
            exact hright
          · have hkeys := hall.keys
            rw [keys, ← OrderedMap.popTo_eq_dropTo] at hkeys
            exact hkeys
        · intro headerHash hmem
          rw [List.mem_singleton.mp hmem]
          exact List.mem_cons_self
        · dsimp only
          rw [List.singleton_append]
          exact congrArg _ hready.handed
        · intro headerHash h
          cases h
          exact List.mem_cons_self
    · rw [if_neg hkawpow, if_neg (fun h => hkawpow h.1)]
      refine ⟨?_, nofun, Or.inl ⟨hready.handed, nofun⟩, hready.fLast.trans hflag.symm⟩
      rw [List.append_nil]
      exact ⟨hpruned.right, hpruned.keys, hpruned.cached⟩

/-! ## 5. Runs -/

variable {op : TemplateStep} {created rebuilt : List (List Char)}

/-- **When a step leaves what it handed out in the cache.** -/
theorem Stepped.found_iff (hs : s.Found K) (h : Stepped K s s₁ created rebuilt) :
    s₁.Found K ↔ (created ++ rebuilt ≠ [] → ∀ headerHash ∈ rebuilt ++ s.handed,
      Recent ((created ++ rebuilt).foldl moveToFront s.cached) headerHash →
        (larger (s.keys ∪ (created ++ rebuilt).toFinset) headerHash).card < 10) := by
  have hkeys := h.pruned.keys
  have hright := h.pruned.right hs.right
  rcases h.returned with ⟨hhanded, hanswer⟩ | ⟨hnil, headerHash, hkey, hhanded, hanswer⟩
  · by_cases hnil : created ++ rebuilt = []
    · rw [if_pos hnil] at hkeys
      have hrebuilt : rebuilt = [] := (List.append_eq_nil_iff.mp hnil).2
      refine iff_of_true ⟨hright, ?_, ?_⟩ fun hne => absurd hnil hne
      · intro headerHash heq
        have hmem := hanswer headerHash heq
        rw [hrebuilt] at hmem
        exact absurd hmem List.not_mem_nil
      · intro headerHash hmem hrecent
        rw [hhanded, hrebuilt] at hmem
        rw [h.pruned.cached, hnil] at hrecent
        rw [hkeys]
        exact hs.recent headerHash hmem hrecent
    · rw [if_neg hnil] at hkeys
      constructor
      · intro hs₁ _ headerHash hmem hrecent
        rw [← h.pruned.cached] at hrecent
        rw [← hhanded] at hmem
        have hin := hs₁.recent headerHash hmem hrecent
        rw [hkeys] at hin
        exact (mem_largest.mp hin).2
      · intro hroom
        have hin : ∀ headerHash ∈ rebuilt ++ s.handed, Recent s₁.cached headerHash →
            headerHash ∈ s₁.keys := by
          intro headerHash hmem hrecent
          rw [h.pruned.cached] at hrecent
          rw [hkeys]
          refine mem_largest.mpr ⟨?_, hroom hnil headerHash hmem hrecent⟩
          rcases hrecent.of_foldl with hnew | hold
          · exact Finset.mem_union_right _ (List.mem_toFinset.mpr hnew)
          · rcases List.mem_append.mp hmem with hmem | hmem
            · refine Finset.mem_union_right _ (List.mem_toFinset.mpr ?_)
              exact List.mem_append_right _ hmem
            · exact Finset.mem_union_left _ (hs.recent headerHash hmem hold)
        refine ⟨hright, ?_, hhanded ▸ hin⟩
        intro headerHash heq
        have hmem := hanswer headerHash heq
        exact hin headerHash (List.mem_append_left _ hmem) (h.recent headerHash hmem)
  · rw [if_pos hnil] at hkeys
    refine iff_of_true ⟨hright, ?_, ?_⟩ fun hne => absurd hnil hne
    · intro headerHash' heq
      rw [hanswer, Option.some_inj] at heq
      rw [hkeys, ← heq]
      exact hkey
    · intro headerHash' hmem hrecent
      rw [h.pruned.cached, hnil] at hrecent
      rw [hkeys]
      rw [hhanded] at hmem
      rcases List.mem_cons.mp hmem with rfl | hmem
      · exact hkey
      · exact hs.recent headerHash' hmem hrecent

/-- The block it has made is cached, or nothing is. -/
theorem incrementExtraNonce_state (s : Templates) (pblock : CBlock) (pindexPrev : TipIndex)
    (nExtraNonce : UInt32) :
    (s.incrementExtraNonce K pblock pindexPrev nExtraNonce).2.2 =
        { s with hashPrevBlock := pblock.hashPrevBlock }.cacheTemplate K
          (s.incrementExtraNonce K pblock pindexPrev nExtraNonce).1 ∨
      (s.incrementExtraNonce K pblock pindexPrev nExtraNonce).2.2 =
        { s with hashPrevBlock := pblock.hashPrevBlock } := by
  unfold incrementExtraNonce
  dsimp only
  generalize (if s.hashPrevBlock ≠ pblock.hashPrevBlock then 0 else nExtraNonce) + 1 = n
  split_ifs with hfork
  · exact Or.inl rfl
  · exact Or.inr rfl

/-- Without pruning nothing is lost. -/
theorem Found.incrementExtraNonce (h : s.Found K) (pblock : CBlock) (pindexPrev : TipIndex)
    (nExtraNonce : UInt32) :
    (s.step K (.incrementExtraNonce pblock pindexPrev nExtraNonce)).Found K := by
  rw [step]
  rcases incrementExtraNonce_state (K := K) s pblock pindexPrev nExtraNonce with heq | heq
  · rw [heq]
    generalize (s.incrementExtraNonce K pblock pindexPrev nExtraNonce).1 = template
    refine ⟨right_cacheTemplate h.right, nofun, ?_⟩
    intro headerHash hmem hrecent
    have hkeys := keys_cacheTemplate (K := K) { s with hashPrevBlock := pblock.hashPrevBlock } template
    have hin : headerHash ∈ insert (template.headerText K) s.keys := by
      rcases Recent.of_moveToFront hrecent with rfl | hold
      · exact Finset.mem_insert_self ..
      · exact Finset.mem_insert_of_mem (h.recent headerHash hmem hold)
    exact hkeys.symm ▸ hin
  · rw [heq]
    exact ⟨h.right, nofun, h.recent⟩

/-- A step keeps the flag, and keeps what was handed out exactly when there is room. -/
theorem step_found_iff (hflag : s.fLastTemplateKawpow = true) (h : s.Found K) (op : TemplateStep) :
    (s.step K op).fLastTemplateKawpow = true ∧ ((s.step K op).Found K ↔ s.Roomy K op) := by
  cases op with
  | createNewBlock pindexPrev assembled fProofOfStake nAdjustedTime =>
    have hstep := createNewBlock_stepped (K := K) s pindexPrev assembled fProofOfStake nAdjustedTime
    exact ⟨hstep.fLast.trans hflag, hstep.found_iff h⟩
  | incrementExtraNonce pblock pindexPrev nExtraNonce =>
    refine ⟨?_, iff_of_true (h.incrementExtraNonce pblock pindexPrev nExtraNonce) nofun⟩
    rw [step]
    rcases incrementExtraNonce_state (K := K) s pblock pindexPrev nExtraNonce with heq | heq
    · rw [heq]
      exact hflag
    · rw [heq]
      exact hflag
  | getblocktemplatekawpow call =>
    have hstep := getblocktemplatekawpow_stepped (K := K) hflag call
    exact ⟨hstep.fLast.trans hflag, hstep.found_iff h⟩
  | tipChange pindexNew =>
    exact ⟨hflag, iff_of_true ⟨h.right, nofun, h.recent⟩ nofun⟩

theorem found_initial (K : Crypto) (pindexBest : TipIndex) : (initial pindexBest).Found K :=
  ⟨fun _ h => absurd h List.not_mem_nil, nofun, fun _ h => absurd h List.not_mem_nil⟩

variable (K) in
/-- The state after a run. -/
def run (pindexBest : TipIndex) (ops : List TemplateStep) : Templates :=
  ops.foldl (step K) (initial pindexBest)

/-- **When work units are found**: in every state of a run every key is the header hash of its
template, and the texts handed out are keys until ten newer templates were cached, exactly when
there is room at every step. -/
theorem templates_iff (K : Crypto) (pindexBest : TipIndex) (ops : List TemplateStep) :
    (∀ ops', ops' <+: ops → (run K pindexBest ops').Found K) ↔
      ∀ ops' op, ops' ++ [op] <+: ops → (run K pindexBest ops').Roomy K op :=
  everywhere_iff (J := fun s : Templates => s.fLastTemplateKawpow = true)
    (P := fun s : Templates => s.Found K) rfl (found_initial K pindexBest)
    (fun _ op hflag h => (step_found_iff hflag h op).1)
    (fun _ op hflag h => (step_found_iff hflag h op).2) ops

/-! ## 6. A work unit that cannot be submitted -/

/-- What is put together with an empty pool. -/
def emptyTemplate : CBlock :=
  let coinbase : CTransaction :=
    ⟨1, 1777836782, [⟨⟨0, 0xffffffff⟩, [2, 89, 2], 0⟩], [⟨0, Color.sis.toInt32, [op1]⟩], 0, [], 0⟩
  ⟨7, 0, 0, 1777836782, 0x1d00ffff, 0, 0, 0, 0, [coinbase], []⟩

/-- Ten templates on one block, and a call of `getblocktemplatekawpow` when another is the best. -/
def tenAndOne : List TemplateStep :=
  (List.range 10).map (fun i => .createNewBlock ⟨4096, 600⟩ (some emptyTemplate) false (1777836782 + i))
    ++ [.tipChange ⟨7, 600⟩,
      .getblocktemplatekawpow ⟨1777836792, 1777836792, 1777836792, some emptyTemplate⟩]

/-- **Returned, and not found**: the new text is smaller than the ten that are there. -/
theorem unit_lost :
    (run forkCrypto ⟨4096, 600⟩ tenAndOne).answer.isSome = true ∧
      (run forkCrypto ⟨4096, 600⟩ tenAndOne).answer.bind
        (run forkCrypto ⟨4096, 600⟩ tenAndOne).getKawpowBlockTemplate = none := by
  decide +kernel

end Templates

end Breakout
