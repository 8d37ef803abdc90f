/-
# The stake modifier

`ComputeNextStakeModifier` makes the modifier of a block from the blocks below it.  Those of a time
window are the candidates.  They are sorted by time and hash, and in up to 64 rounds one after
another of them is selected and gives a bit.  A candidate is looked up in `mapBlockIndex` by its
hash, and the rounds look at the candidates up to a time that moves on from round to round.

Neither gets in the way: `selectLoop_spec` says that a round passes over no candidate until it has
found one, and `computeNextStakeModifier_agrees` that whatever else is in `mapBlockIndex` is never
looked at.
-/
import Breakout.Lib.Branch
import Breakout.Retarget

namespace Breakout

open Lib

variable (K : Crypto) (fTestNet : Bool)

/-! ## 1. Intervals -/

def getModifierInterval (nTime : UInt32) : Nat :=
  if fTestNet then 60 else if getFork nTime.toNat < .fork005 then 1800 else 360

def modifierIntervalRatio : Nat := 3

/-- `GetStakeModifierSelectionIntervalSection`, at a section below 64. -/
def getStakeModifierSelectionIntervalSection (nSection : Nat) (nTime : UInt32) : Nat :=
  getModifierInterval fTestNet nTime * 63 / (63 + (63 - nSection) * (modifierIntervalRatio - 1))

def getStakeModifierSelectionInterval (nTime : UInt32) : Nat :=
  ((List.range 64).map fun nSection =>
    getStakeModifierSelectionIntervalSection fTestNet nSection nTime).sum

/-! ## 2. Blocks -/

/-- What the stake modifier is made of, of a `CBlockIndex`. -/
structure StakeIndex where
  hash : UInt256
  nTime : UInt32
  nFlags : UInt32
  hashProof : UInt256
  bnStakeModifier : UInt256
deriving DecidableEq

namespace StakeIndex

def getBlockTime (b : StakeIndex) : Int := b.nTime.toNat

/-- `IsProofOfStake`: `BLOCK_PROOF_OF_STAKE`. -/
def isProofOfStake (b : StakeIndex) : Bool := decide (b.nFlags &&& 1 ≠ 0)

/-- `GetStakeEntropyBit`: `BLOCK_STAKE_ENTROPY`. -/
def getStakeEntropyBit (b : StakeIndex) : UInt32 := (b.nFlags &&& 2) >>> 1

/-- `GeneratedStakeModifier`: `BLOCK_STAKE_MODIFIER`. -/
def generatedStakeModifier (b : StakeIndex) : Bool := decide (b.nFlags &&& 4 ≠ 0)

end StakeIndex

/-- A `const CBlockIndex*`: the block with all its ancestors. -/
abbrev StakePtr := Branch StakeIndex

/-- `mapBlockIndex` -/
abbrev StakeMap := UInt256 → Option StakePtr

/-- `GetLastStakeModifier`: the modifier, and the time of the block that generated it. -/
def getLastStakeModifier : StakePtr → Run (UInt256 × Int)
  | .root b =>
    if b.generatedStakeModifier then .ok (b.bnStakeModifier, b.getBlockTime)
    else .error (.reject 0 "GetLastStakeModifier: no generation at genesis block")
  | .child b pprev =>
    if b.generatedStakeModifier then .ok (b.bnStakeModifier, b.getBlockTime)
    else getLastStakeModifier pprev

/-! ## 3. The selection -/

/-- The hash a candidate is selected by. -/
def selectionHash (bnStakeModifierPrev : UInt256) (b : StakeIndex) : UInt256 :=
  let hashSelection := K.hash (serUInt256 b.hashProof ++ serUInt256 bnStakeModifierPrev)
  if b.isProofOfStake then hashSelection >>> 32 else hashSelection

/-- Whether a block is in `mapSelectedBlocks`. -/
def isSelected (mapSelectedBlocks : List StakePtr) (hash : UInt256) : Bool :=
  mapSelectedBlocks.any fun q => decide (q.top.hash = hash)

/-- `hashBest` and `pindexSelected`, once `fSelected`, with a candidate considered. -/
def consider (hashSelection : UInt256) (pindex : StakePtr) :
    Option (UInt256 × StakePtr) → Option (UInt256 × StakePtr)
  | some (hashBest, pindexSelected) =>
    if hashSelection < hashBest then some (hashSelection, pindex)
    else some (hashBest, pindexSelected)
  | none => some (hashSelection, pindex)

/-- The loop of `SelectBlockFromCandidates`. -/
def selectLoop (mapBlockIndex : StakeMap) (mapSelectedBlocks : List StakePtr)
    (nSelectionIntervalStop : Int) (bnStakeModifierPrev : UInt256) :
    List (Int × UInt256) → Option (UInt256 × StakePtr) → Run (Option (UInt256 × StakePtr))
  | [], best => .ok best
  | item :: items, best =>
    match mapBlockIndex item.2 with
    | none => .error (.reject 0
        "SelectBlockFromCandidates: failed to find block index for candidate block")
    | some pindex =>
      if best.isSome ∧ pindex.top.getBlockTime > nSelectionIntervalStop then .ok best
      else if isSelected mapSelectedBlocks pindex.top.hash then
        selectLoop mapBlockIndex mapSelectedBlocks nSelectionIntervalStop bnStakeModifierPrev
          items best
      else
        selectLoop mapBlockIndex mapSelectedBlocks nSelectionIntervalStop bnStakeModifierPrev items
          (consider (selectionHash K bnStakeModifierPrev pindex.top) pindex best)

/-- The order of `pair<int64_t, uint256>`. -/
def candidateLe (a b : Int × UInt256) : Bool :=
  decide (a.1 < b.1) || (decide (a.1 = b.1) && decide (a.2 ≤ b.2))

/-- `nSelectionIntervalStart` -/
def selectionIntervalStart (pindexPrev : StakePtr) : Int :=
  let nModifierInterval := getModifierInterval fTestNet pindexPrev.top.nTime
  pindexPrev.top.getBlockTime / nModifierInterval * nModifierInterval -
    getStakeModifierSelectionInterval fTestNet pindexPrev.top.nTime

/-- The candidate blocks, the newest first. -/
def candidates (pindexPrev : StakePtr) : List StakePtr :=
  pindexPrev.ancestors.takeWhile fun pindex =>
    decide (pindex.top.getBlockTime ≥ selectionIntervalStart fTestNet pindexPrev)

/-- `vSortedByTimestamp` -/
def sortedByTimestamp (pindexPrev : StakePtr) : List (Int × UInt256) :=
  ((candidates fTestNet pindexPrev).map fun pindex =>
    (pindex.top.getBlockTime, pindex.top.hash)).reverse.mergeSort candidateLe

/-- What goes from round to round; the selected blocks are in the order of the rounds. -/
structure Selection where
  nSelectionIntervalStop : Int
  mapSelectedBlocks : List StakePtr
  bnStakeModifierNew : UInt256

/-- A round. -/
def selectionRound (mapBlockIndex : StakeMap) (nTime : UInt32) (bnStakeModifier : UInt256)
    (vSortedByTimestamp : List (Int × UInt256)) (s : Selection) (nRound : Nat) : Run Selection := do
  let nSelectionIntervalStop := s.nSelectionIntervalStop +
    getStakeModifierSelectionIntervalSection fTestNet nRound nTime
  match ← selectLoop K mapBlockIndex s.mapSelectedBlocks nSelectionIntervalStop bnStakeModifier
      vSortedByTimestamp none with
  | none => .error (.reject 0 "ComputeNextStakeModifier: unable to select block at round")
  | some (_, pindex) =>
    let nBit := pindex.top.getStakeEntropyBit.toUInt64 <<< UInt64.ofNat nRound
    return {
      nSelectionIntervalStop := nSelectionIntervalStop
      mapSelectedBlocks := s.mapSelectedBlocks ++ [pindex]
      bnStakeModifierNew := s.bnStakeModifierNew ||| nBit.toBitVec.setWidth 256 }

/-- `bnStakeModifier`, `fGeneratedStakeModifier`, and the blocks that were selected. -/
structure NextModifier where
  bnStakeModifier : UInt256
  fGeneratedStakeModifier : Bool
  mapSelectedBlocks : List StakePtr

def computeNextStakeModifier (mapBlockIndex : StakeMap) : Option StakePtr → Run NextModifier
  | none => .ok ⟨0, true, []⟩
  | some pindexPrev =>
    match getLastStakeModifier pindexPrev with
    | .error _ => .error (.reject 0 "ComputeNextStakeModifier: unable to get last modifier")
    | .ok (bnStakeModifier, nModifierTime) => do
      let nModifierInterval := getModifierInterval fTestNet pindexPrev.top.nTime
      if nModifierTime / nModifierInterval ≥ pindexPrev.top.getBlockTime / nModifierInterval then
        return ⟨bnStakeModifier, false, []⟩
      let vSortedByTimestamp := sortedByTimestamp fTestNet pindexPrev
      let s ← (List.range (min 64 vSortedByTimestamp.length)).foldlM
        (selectionRound K fTestNet mapBlockIndex pindexPrev.top.nTime bnStakeModifier
          vSortedByTimestamp)
        ⟨selectionIntervalStart fTestNet pindexPrev, [], 0⟩
      return ⟨s.bnStakeModifierNew, true, s.mapSelectedBlocks⟩

/-! ## 4. Trees of blocks -/

/-- **A block tree**: a block is found under its hash, with it all its ancestors are found, and the
genesis block has generated a modifier. -/
structure StakeMap.IsTree (m : StakeMap) : Prop where
  own : ∀ {hash : UInt256} {p : StakePtr}, m hash = some p → p.top.hash = hash
  closed : ∀ {hash : UInt256} {p q : StakePtr}, m hash = some p → q ∈ p.ancestors →
    m q.top.hash = some q
  genesis : ∀ {hash : UInt256} {p : StakePtr}, m hash = some p →
    p.bottom.top.generatedStakeModifier = true

/-- What `AddToBlockIndex` is given of a block. -/
structure StakeBlock where
  hash : UInt256
  hashPrevBlock : UInt256
  nTime : UInt32
  fProofOfStake : Bool
  hashProof : UInt256

/-- `nFlags` after `SetProofOfStake` and `SetStakeEntropyBit`: "take last bit of block hash as
entropy bit". -/
def StakeBlock.nFlags (b : StakeBlock) : UInt32 :=
  (if b.fProofOfStake then 1 else 0) ||| (if b.hash.getLsbD 0 then 2 else 0)

/-- The new entry of `AddToBlockIndex`, after `SetStakeModifier`. -/
def StakeBlock.toIndex (b : StakeBlock) (next : NextModifier) : StakeIndex where
  hash := b.hash
  nTime := b.nTime
  nFlags := if next.fGeneratedStakeModifier then b.nFlags ||| 4 else b.nFlags
  hashProof := b.hashProof
  bnStakeModifier := next.bnStakeModifier

/-- With its ancestors. -/
def StakeBlock.toPtr (b : StakeBlock) (next : NextModifier) : Option StakePtr → StakePtr
  | some p => .child (b.toIndex next) p
  | none => .root (b.toIndex next)

/-- `AddToBlockIndex`, as far as `mapBlockIndex`; `fCheckpoint` is what
`CheckStakeModifierCheckpoints` says of the new entry. -/
def StakeMap.addToBlockIndex (m : StakeMap) (b : StakeBlock) (fCheckpoint : Bool) :
    Run StakeMap := do
  refuse ((m b.hash).isSome = true) 0 "AddToBlockIndex() : already exists"
  let pprev := m b.hashPrevBlock
  match computeNextStakeModifier K fTestNet m pprev with
  | .error _ => .error (.reject 0 "AddToBlockIndex() : ComputeNextStakeModifier() failed")
  | .ok next =>
    refuse (fCheckpoint = false) 0 "AddToBlockIndex() : Rejected by stake modifier checkpoint"
    return Function.update m b.hash (some (b.toPtr next pprev))

/-- A tree that grows from nothing, block by block. -/
inductive StakeMap.Grown : StakeMap → Prop where
  | empty : Grown fun _ => none
  | add {m m' : StakeMap} {b : StakeBlock} {fCheckpoint : Bool} (h : Grown m)
      (hadd : m.addToBlockIndex K fTestNet b fCheckpoint = .ok m') : Grown m'

/-! ## 5. A round -/

variable {K} {fTestNet} {m m' : StakeMap} {p : StakePtr}

variable {hash bn : UInt256} {q : StakePtr} {best : Option (UInt256 × StakePtr)}
  {items : List (Int × UInt256)} {b : StakeBlock} {fCheckpoint : Bool}

theorem isSelected_iff {l : List StakePtr} :
    isSelected l hash = true ↔ ∃ q ∈ l, q.top.hash = hash := by
  simp [isSelected]

theorem mem_consider {b : UInt256 × StakePtr} (h : b ∈ consider hash q best) :
    b ∈ best ∨ b = (hash, q) := by
  unfold consider at h
  split at h
  · split at h
    · exact Or.inr (Option.some_inj.mp h).symm
    · exact Or.inl h
  · exact Or.inr (Option.some_inj.mp h).symm

theorem isSome_consider :
    (consider hash q best).isSome = true := by
  unfold consider
  split
  · split <;> rfl
  · rfl

/-- **A selection among known blocks.**  It does not fail.  What it selects is the best it starts
with or a block that was not selected before; and it selects one, if there is such a block. -/
theorem selectLoop_spec (K : Crypto) (selected : List StakePtr) (stop : Int) (bn : UInt256)
    {P : StakePtr → Prop}
    (hknown : ∀ item ∈ items, ∃ q, m item.2 = some q ∧ q.top.hash = item.2 ∧ P q)
    (best : Option (UInt256 × StakePtr)) :
    ∃ best', selectLoop K m selected stop bn items best = .ok best' ∧
      (∀ b ∈ best', b ∈ best ∨ (P b.2 ∧ isSelected selected b.2.top.hash = false)) ∧
      ((best.isSome ∨ ∃ item ∈ items, isSelected selected item.2 = false) → best'.isSome) := by
  induction items generalizing best with
  | nil => exact ⟨best, rfl, fun b hb => Or.inl hb, by simp⟩
  | cons item items ih =>
    obtain ⟨hitem, hrest⟩ := List.forall_mem_cons.mp hknown
    obtain ⟨q, hq, hhash, hP⟩ := hitem
    rw [selectLoop, hq]
    dsimp only
    by_cases hstop : best.isSome ∧ q.top.getBlockTime > stop
    · rw [if_pos hstop]
      exact ⟨best, rfl, fun b hb => Or.inl hb, fun _ => hstop.1⟩
    · rw [if_neg hstop]
      by_cases hselected : isSelected selected q.top.hash = true
      · rw [if_pos hselected]
        obtain ⟨best', hrun, hbest', hsome⟩ := ih hrest best
        refine ⟨best', hrun, hbest', fun h => hsome ?_⟩
        rcases h with h | ⟨other, hmem, hfresh⟩
        · exact Or.inl h
        · rcases List.mem_cons.mp hmem with rfl | hmem
          · rw [hhash, hfresh] at hselected
            cases hselected
          · exact Or.inr ⟨other, hmem, hfresh⟩
      · rw [if_neg hselected]
        rw [Bool.not_eq_true] at hselected
        obtain ⟨best', hrun, hbest', hsome⟩ :=
          ih hrest (consider (selectionHash K bn q.top) q best)
        refine ⟨best', hrun, fun b hb => ?_, fun _ => hsome (Or.inl isSome_consider)⟩
        rcases hbest' b hb with hold | hnew
        · rcases mem_consider hold with hold | hnew
          · exact Or.inl hold
          · rw [hnew]
            exact Or.inr ⟨hP, hselected⟩
        · exact Or.inr hnew

/-- The selection looks nothing up but its candidates. -/
theorem selectLoop_congr {selected : List StakePtr} {stop : Int}
    (h : ∀ item ∈ items, m item.2 = m' item.2) (best : Option (UInt256 × StakePtr)) :
    selectLoop K m selected stop bn items best = selectLoop K m' selected stop bn items best := by
  induction items generalizing best with
  | nil => rfl
  | cons item items ih =>
    obtain ⟨hitem, hrest⟩ := List.forall_mem_cons.mp h
    rw [selectLoop, selectLoop, hitem]
    cases m' item.2 with
    | none => rfl
    | some q => simp only [ih hrest]

/-! ## 6. All rounds -/

theorem mem_sortedByTimestamp {item : Int × UInt256} :
    item ∈ sortedByTimestamp fTestNet p ↔
      ∃ q ∈ candidates fTestNet p, (q.top.getBlockTime, q.top.hash) = item := by
  rw [sortedByTimestamp, (List.mergeSort_perm _ _).mem_iff, List.mem_reverse, List.mem_map]

theorem length_sortedByTimestamp :
    (sortedByTimestamp fTestNet p).length = (candidates fTestNet p).length := by
  rw [sortedByTimestamp, List.length_mergeSort, List.length_reverse, List.length_map]

theorem mem_ancestors_of_mem_candidates (h : q ∈ candidates fTestNet p) :
    q ∈ p.ancestors := (List.takeWhile_sublist _).subset h

/-- No block is its own ancestor, so no candidate is there twice. -/
theorem nodup_candidates : (candidates fTestNet p).Nodup :=
  p.nodup_ancestors.sublist (List.takeWhile_sublist _)

/-- After a number of rounds: as many blocks are selected, each once, and there are as many bits. -/
structure Selection.Ok (C : List StakePtr) (n : Nat) (s : Selection) : Prop where
  length : s.mapSelectedBlocks.length = n
  nodup : s.mapSelectedBlocks.Nodup
  subset : ∀ q ∈ s.mapSelectedBlocks, q ∈ C
  short : s.bnStakeModifierNew.toNat < 2 ^ 64

/-- **A round selects** as long as there is a candidate left. -/
theorem selectionRound_ok (hm : m.IsTree) (hp : m p.top.hash = some p) {nTime : UInt32} {n : Nat}
    (hn : n < (candidates fTestNet p).length) {s : Selection} (h : s.Ok (candidates fTestNet p) n) :
    ∃ s', selectionRound K fTestNet m nTime bn (sortedByTimestamp fTestNet p) s n = .ok s' ∧
      s'.Ok (candidates fTestNet p) (n + 1) := by
  have hlookup : ∀ {q}, q ∈ candidates fTestNet p → m q.top.hash = some q :=
    fun hq => hm.closed hp (mem_ancestors_of_mem_candidates hq)
  have hfresh : ∃ item ∈ sortedByTimestamp fTestNet p,
      isSelected s.mapSelectedBlocks item.2 = false := by
    by_contra hnone
    have hall : candidates fTestNet p ⊆ s.mapSelectedBlocks := by
      intro q hq
      have hmem : (q.top.getBlockTime, q.top.hash) ∈ sortedByTimestamp fTestNet p :=
        mem_sortedByTimestamp.mpr ⟨q, hq, rfl⟩
      have hselected : isSelected s.mapSelectedBlocks q.top.hash = true := by
        by_contra hfalse
        exact hnone ⟨_, hmem, by simpa using hfalse⟩
      obtain ⟨other, hother, hhash⟩ := isSelected_iff.mp hselected
      have hfound := hlookup (h.subset other hother)
      rw [hhash, hlookup hq, Option.some_inj] at hfound
      rwa [hfound]
    have hle := (List.subperm_of_subset nodup_candidates hall).length_le
    rw [h.length] at hle
    omega
  have hknown : ∀ item ∈ sortedByTimestamp fTestNet p, ∃ q, m item.2 = some q ∧
      q.top.hash = item.2 ∧ q ∈ candidates fTestNet p := by
    intro item hitem
    obtain ⟨q, hq, rfl⟩ := mem_sortedByTimestamp.mp hitem
    exact ⟨q, hlookup hq, rfl, hq⟩
  obtain ⟨best, hrun, hbest, hsome⟩ := selectLoop_spec K s.mapSelectedBlocks
    (s.nSelectionIntervalStop + getStakeModifierSelectionIntervalSection fTestNet n nTime) bn
    hknown none
  obtain ⟨⟨hash, q⟩, rfl⟩ := Option.isSome_iff_exists.mp (hsome (Or.inr hfresh))
  obtain ⟨hq, hnew⟩ : q ∈ candidates fTestNet p ∧
      isSelected s.mapSelectedBlocks q.top.hash = false := by
    simpa using hbest (hash, q) rfl
  have hout : q ∉ s.mapSelectedBlocks := by
    intro hin
    rw [isSelected_iff.mpr ⟨q, hin, rfl⟩] at hnew
    cases hnew
  unfold selectionRound
  dsimp only
  rw [hrun]
  refine ⟨_, rfl, ?_, ?_, ?_, ?_⟩
  · rw [List.length_append, h.length, List.length_singleton]
  · rw [List.nodup_append]
    refine ⟨h.nodup, List.nodup_singleton q, fun a ha b hb => ?_⟩
    rw [List.mem_singleton.mp hb]
    rintro rfl
    exact hout ha
  · intro other hother
    rcases List.mem_append.mp hother with hother | hother
    · exact h.subset other hother
    · rwa [List.mem_singleton.mp hother]
  · rw [BitVec.toNat_or]
    refine Nat.or_lt_two_pow h.short ?_
    rw [BitVec.toNat_setWidth]
    exact (Nat.mod_le _ _).trans_lt (BitVec.isLt _)

/-! ## 7. The next modifier -/

/-- The modifier of the last block that generated one, below a genesis block that did. -/
theorem getLastStakeModifier_spec (p : StakePtr)
    (h : p.bottom.top.generatedStakeModifier = true) :
    ∃ q, p.ancestors.find? (·.top.generatedStakeModifier) = some q ∧
      getLastStakeModifier p = .ok (q.top.bnStakeModifier, q.top.getBlockTime) := by
  induction p with
  | root b =>
    refine ⟨.root b, List.find?_cons_of_pos h, ?_⟩
    rw [getLastStakeModifier]
    exact if_pos h
  | child b p ih =>
    rw [getLastStakeModifier]
    split
    · next hgenerated => exact ⟨.child b p, List.find?_cons_of_pos hgenerated, rfl⟩
    · next hnot =>
      obtain ⟨q, hq, hlast⟩ := ih h
      refine ⟨q, ?_, hlast⟩
      rw [Branch.ancestors, List.find?_cons_of_neg, hq]
      exact hnot

/-- A new modifier is due: the interval of the block is a later one than that of the block `q`. -/
def ModifierDue (fTestNet : Bool) (p q : StakePtr) : Prop :=
  q.top.getBlockTime / getModifierInterval fTestNet p.top.nTime <
    p.top.getBlockTime / getModifierInterval fTestNet p.top.nTime

instance (p q : StakePtr) : Decidable (ModifierDue fTestNet p q) :=
  inferInstanceAs (Decidable (_ < _))

/-- What comes out, `q` being the last ancestor that generated a modifier: that modifier while no
new one is due, and then a new one from blocks that were selected. -/
inductive NextModifier.Made (fTestNet : Bool) (p : StakePtr) (next : NextModifier) : Prop where
  | kept (q : StakePtr) (hq : p.ancestors.find? (·.top.generatedStakeModifier) = some q)
      (hnot : ¬ ModifierDue fTestNet p q) (hnext : next = ⟨q.top.bnStakeModifier, false, []⟩)
  | generated (q : StakePtr) (hq : p.ancestors.find? (·.top.generatedStakeModifier) = some q)
      (hdue : ModifierDue fTestNet p q) (hflag : next.fGeneratedStakeModifier = true)
      (hlength : next.mapSelectedBlocks.length = min 64 (candidates fTestNet p).length)
      (hnodup : next.mapSelectedBlocks.Nodup)
      (hsubset : ∀ r ∈ next.mapSelectedBlocks, r ∈ candidates fTestNet p)
      (hshort : next.bnStakeModifier.toNat < 2 ^ 64)

/-- **No error.** -/
theorem computeNextStakeModifier_made (K : Crypto) (fTestNet : Bool) (hm : m.IsTree)
    (hp : m p.top.hash = some p) :
    ∃ next, computeNextStakeModifier K fTestNet m (some p) = .ok next ∧
      next.Made fTestNet p := by
  obtain ⟨q, hq, hlast⟩ := getLastStakeModifier_spec p (hm.genesis hp)
  unfold computeNextStakeModifier
  dsimp only
  rw [hlast]
  dsimp only
  split
  · next hnot => exact ⟨_, rfl, .kept q hq (not_lt.mpr hnot) rfl⟩
  · next hdue =>
    obtain ⟨s, hrun, hs⟩ := foldlM_range_ok
      (f := selectionRound K fTestNet m p.top.nTime q.top.bnStakeModifier
        (sortedByTimestamp fTestNet p))
      (P := fun n s => s.Ok (candidates fTestNet p) n)
      (min 64 (sortedByTimestamp fTestNet p).length)
      (fun n hn s hs => by
        refine selectionRound_ok hm hp ?_ hs
        rw [← length_sortedByTimestamp]
        omega)
      (a := ⟨selectionIntervalStart fTestNet p, [], 0⟩)
      ⟨rfl, List.nodup_nil, by simp, Nat.two_pow_pos 64⟩
    rw [hrun]
    refine ⟨_, rfl, .generated q hq (not_le.mp hdue) rfl ?_ hs.nodup hs.subset hs.short⟩
    rw [← length_sortedByTimestamp]
    exact hs.length

/-- **The ancestors decide**: in two trees with the block, the next modifier is the same. -/
theorem computeNextStakeModifier_agrees (K : Crypto) (hm : m.IsTree) (hm' : m'.IsTree)
    (hp : m p.top.hash = some p) (hp' : m' p.top.hash = some p) :
    computeNextStakeModifier K fTestNet m' (some p) =
      computeNextStakeModifier K fTestNet m (some p) := by
  have hlookup : ∀ item ∈ sortedByTimestamp fTestNet p, m' item.2 = m item.2 := by
    intro item hitem
    obtain ⟨q, hq, rfl⟩ := mem_sortedByTimestamp.mp hitem
    have hancestor := mem_ancestors_of_mem_candidates hq
    exact (hm'.closed hp' hancestor).trans (hm.closed hp hancestor).symm
  have hround : ∀ bn, selectionRound K fTestNet m' p.top.nTime bn (sortedByTimestamp fTestNet p) =
      selectionRound K fTestNet m p.top.nTime bn (sortedByTimestamp fTestNet p) := by
    intro bn
    funext s nRound
    unfold selectionRound
    simp only [selectLoop_congr hlookup]
  unfold computeNextStakeModifier
  simp only [hround]

/-! ## 8. Trees that grow -/

/-- The flag is set for a modifier that was generated, and else not. -/
theorem generatedStakeModifier_toIndex (b : StakeBlock) (next : NextModifier) :
    (b.toIndex next).generatedStakeModifier = next.fGeneratedStakeModifier := by
  have hbit : ∀ fStake fEntropy fGenerated : Bool,
      let nFlags : UInt32 := (if fStake then 1 else 0) ||| (if fEntropy then 2 else 0)
      decide ((if fGenerated then nFlags ||| 4 else nFlags) &&& 4 ≠ 0) = fGenerated := by decide
  exact hbit b.fProofOfStake (b.hash.getLsbD 0) next.fGeneratedStakeModifier

@[simp] theorem StakeBlock.top_toPtr (b : StakeBlock) (next : NextModifier)
    (pprev : Option StakePtr) : (b.toPtr next pprev).top = b.toIndex next := by
  cases pprev <;> rfl

/-- What `AddToBlockIndex` does where it succeeds. -/
theorem addToBlockIndex_ok (h : m.addToBlockIndex K fTestNet b fCheckpoint = .ok m') :
    m b.hash = none ∧ ∃ next,
      computeNextStakeModifier K fTestNet m (m b.hashPrevBlock) = .ok next ∧
      m' = Function.update m b.hash (some (b.toPtr next (m b.hashPrevBlock))) := by
  unfold StakeMap.addToBlockIndex at h
  simp only [bind_eq_ok, refuse_eq_ok] at h
  obtain ⟨-, hnew, h⟩ := h
  refine ⟨by simpa using hnew, ?_⟩
  split at h
  · cases h
  · next next hnext =>
    simp only [bind_eq_ok, refuse_eq_ok, pure_eq_ok] at h
    obtain ⟨-, -, h⟩ := h
    exact ⟨next, hnext, h.symm⟩

/-- **The tree stays a tree.** -/
theorem StakeMap.IsTree.add (hm : m.IsTree)
    (h : m.addToBlockIndex K fTestNet b fCheckpoint = .ok m') : m'.IsTree := by
  obtain ⟨hnew, next, hnext, rfl⟩ := addToBlockIndex_ok h
  have hold : ∀ {hash : UInt256} {p : StakePtr}, m hash = some p → hash ≠ b.hash := by
    rintro hash p hp rfl
    rw [hnew] at hp
    cases hp
  refine ⟨fun {hash p} hp => ?_, fun {hash p q} hp hq => ?_, fun {hash p} hp => ?_⟩
  · by_cases heq : hash = b.hash
    · rw [heq, Function.update_self, Option.some_inj] at hp
      rw [← hp, StakeBlock.top_toPtr, heq]
      rfl
    · rw [Function.update_of_ne heq] at hp
      exact hm.own hp
  · have hkeep : ∀ {hash : UInt256} {p : StakePtr}, m hash = some p → q ∈ p.ancestors →
        Function.update m b.hash (some (b.toPtr next (m b.hashPrevBlock))) q.top.hash = some q := by
      intro hash p hp hq
      have hfound := hm.closed hp hq
      rw [Function.update_of_ne (hold hfound), hfound]
    by_cases heq : hash = b.hash
    · rw [heq, Function.update_self, Option.some_inj] at hp
      subst hp
      have hself : (b.toPtr next (m b.hashPrevBlock)).top.hash = b.hash := by
        rw [StakeBlock.top_toPtr]
        rfl
      cases hprev : m b.hashPrevBlock with
      | none =>
        rw [hprev] at hq hself
        rw [List.mem_singleton.mp hq]
        exact (congrArg _ hself).trans (Function.update_self _ _ _)
      | some p =>
        rw [hprev] at hq hself
        rcases List.mem_cons.mp hq with rfl | hq
        · exact (congrArg _ hself).trans (Function.update_self _ _ _)
        · rw [← hprev]
          exact hkeep hprev hq
    · rw [Function.update_of_ne heq] at hp
      exact hkeep hp hq
  · by_cases heq : hash = b.hash
    · rw [heq, Function.update_self, Option.some_inj] at hp
      subst hp
      cases hprev : m b.hashPrevBlock with
      | none =>
        rw [hprev] at hnext
        cases hnext
        exact generatedStakeModifier_toIndex b _
      | some p => exact hm.genesis (p := p) hprev
    · rw [Function.update_of_ne heq] at hp
      exact hm.genesis hp

/-- Every modifier that was generated has 64 bits. -/
def StakeMap.Short (m : StakeMap) : Prop :=
  ∀ {hash : UInt256} {p : StakePtr}, m hash = some p → p.top.generatedStakeModifier = true →
    p.top.bnStakeModifier.toNat < 2 ^ 64

theorem NextModifier.Made.short {next : NextModifier} (h : next.Made fTestNet p) (hm : m.IsTree)
    (hp : m p.top.hash = some p) (hshort : m.Short) : next.bnStakeModifier.toNat < 2 ^ 64 := by
  cases h with
  | kept q hq _ hnext =>
    rw [hnext]
    have hgenerated := List.find?_some hq
    exact hshort (hm.closed hp (List.mem_of_find?_eq_some hq)) hgenerated
  | generated _ _ _ _ _ _ _ hshort' => exact hshort'

theorem StakeMap.Short.add (hm : m.IsTree) (hshort : m.Short)
    (h : m.addToBlockIndex K fTestNet b fCheckpoint = .ok m') : m'.Short := by
  obtain ⟨-, next, hnext, rfl⟩ := addToBlockIndex_ok h
  intro hash p hp hgenerated
  by_cases heq : hash = b.hash
  · rw [heq, Function.update_self, Option.some_inj] at hp
    subst hp
    rw [StakeBlock.top_toPtr] at hgenerated ⊢
    cases hprev : m b.hashPrevBlock with
    | none =>
      rw [hprev] at hnext
      cases hnext
      exact Nat.two_pow_pos 64
    | some q =>
      rw [hprev] at hnext
      have hq : m q.top.hash = some q := by rw [hm.own hprev, hprev]
      obtain ⟨next', hnext', hmade⟩ := computeNextStakeModifier_made K fTestNet hm hq
      rw [hnext', Except.ok.injEq] at hnext
      subst hnext
      exact hmade.short hm hq hshort
  · rw [Function.update_of_ne heq] at hp
    exact hshort hp hgenerated

/-- **What `AddToBlockIndex` makes of nothing** is a tree, and its modifiers have 64 bits. -/
theorem StakeMap.Grown.isTree (h : StakeMap.Grown K fTestNet m) : m.IsTree ∧ m.Short := by
  induction h with
  | empty => exact ⟨⟨nofun, nofun, nofun⟩, nofun⟩
  | add _ hadd ih => exact ⟨ih.1.add hadd, StakeMap.Short.add ih.1 ih.2 hadd⟩

/-- **`ComputeNextStakeModifier`**, at any block of a tree whose genesis block generated a modifier:
it reports no error, and what it says depends on the ancestors of the block alone.  While no new
modifier is due, it is that of the last ancestor which generated one, and has 64 bits in a tree that
has grown.  If one is due, it is generated: 64 blocks are selected, or all candidates if there are
fewer, no block twice, and the modifier has 64 bits. -/
theorem computeNextStakeModifier_spec (K : Crypto) (fTestNet : Bool) (hm : m.IsTree)
    (hp : m p.top.hash = some p) :
    ∃ next, computeNextStakeModifier K fTestNet m (some p) = .ok next ∧
      next.Made fTestNet p ∧
      (StakeMap.Grown K fTestNet m → next.bnStakeModifier.toNat < 2 ^ 64) ∧
      ∀ m' : StakeMap, m'.IsTree → m' p.top.hash = some p →
        computeNextStakeModifier K fTestNet m' (some p) = .ok next := by
  obtain ⟨next, hnext, hmade⟩ := computeNextStakeModifier_made K fTestNet hm hp
  refine ⟨next, hnext, hmade, fun hgrown => hmade.short hm hp hgrown.isTree.2,
    fun m' hm' hp' => ?_⟩
  rw [computeNextStakeModifier_agrees K hm hm' hp hp', hnext]

/-! ## 9. Two blocks -/

/-- A genesis block, and a block of stake half an hour later. -/
def firstStakeBlock : StakeBlock := ⟨2, 0, 1000, false, 7⟩

/-- See `firstStakeBlock`. -/
def secondStakeBlock : StakeBlock := ⟨5, 2, 2800, true, 11⟩

/-- The entry of the second block. -/
def secondStakePtr : StakePtr := .child ⟨5, 2800, 3, 11, 0⟩ (.root ⟨2, 1000, 4, 7, 0⟩)

/-- The index with both. -/
def stakeBlocks : StakeMap :=
  Function.update (Function.update (fun _ => none) 2 (some (.root ⟨2, 1000, 4, 7, 0⟩))) 5
    (some secondStakePtr)

theorem stakeBlocks_grown : StakeMap.Grown (Crypto.sample []) false stakeBlocks := by
  have hfirst : StakeMap.addToBlockIndex (Crypto.sample []) false (fun _ => none) firstStakeBlock
      true = .ok (Function.update (fun _ => none) 2 (some (.root ⟨2, 1000, 4, 7, 0⟩))) := rfl
  have hsecond : StakeMap.addToBlockIndex (Crypto.sample []) false
      (Function.update (fun _ => none) 2 (some (.root ⟨2, 1000, 4, 7, 0⟩))) secondStakeBlock true =
        .ok stakeBlocks := rfl
  exact .add (.add .empty hfirst) hsecond

/-- A modifier is due after them, and both are selected for it. -/
theorem computeNextStakeModifier_spec_two :
    ∃ next, computeNextStakeModifier (Crypto.sample []) false stakeBlocks (some secondStakePtr) =
        .ok next ∧ next.fGeneratedStakeModifier = true ∧ next.mapSelectedBlocks.length = 2 ∧
        next.bnStakeModifier.toNat < 2 ^ 64 := by
  obtain ⟨next, hnext, hmade, hshort, -⟩ := computeNextStakeModifier_spec (Crypto.sample []) false
    stakeBlocks_grown.isTree.1 (p := secondStakePtr) rfl
  refine ⟨next, hnext, ?_⟩
  cases hmade with
  | kept q hq hnot _ =>
    -- the first block generated the last modifier, in an earlier interval
    cases hq
    exact absurd (by decide +kernel) hnot
  | generated _ _ _ hflag hlength _ _ _ =>
    have htwo : (candidates false secondStakePtr).length = 2 := by decide +kernel
    refine ⟨hflag, ?_, hshort stakeBlocks_grown⟩
    rw [hlength, htwo]
    rfl

end Breakout
