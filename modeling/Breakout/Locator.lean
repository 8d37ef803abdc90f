/-
# Locators

`CBlockLocator::Set` writes down a few hashes on the way from a block to the genesis block: eleven
blocks one by one, and then in steps that double.  The first steps go through `pprev`.  From a step
of 32 on the block is looked up by its height in `mapBlockLookup`, which has the blocks of the main
chain, and only when there is none the loop goes through `pprev` again, and enters what it finds.

So the heights always decrease and the genesis block is always the last (`setLocator_spec`).  But
what is looked up need not lie below the block the locator is made for: a locator is one of the
block's own branch if and only if every looked-up block is an ancestor (`setLocator_iff`), and
`locator_crosses` is a block on a side branch for which none is.

A locator also writes to `mapBlockLookup`.  The runs here (`Located`) have calls of `SetBestChain`
with any outcome and locators of any known block, in any order.
-/
import Breakout.ChainRuns

namespace Breakout

open Lib Node

/-! ## 1. `CBlockLocator::Set` -/

/-- The loop of `CBlockLocator::Set`: the hashes that are pushed, and what becomes of
`mapBlockLookup`; every round goes down by a block at least. -/
def haveLoop : Nat → Option BlockPtr → Nat → Nat → List UInt256 → (Nat → Option BlockPtr) →
    List UInt256 × (Nat → Option BlockPtr)
  | 0, _, _, _, vHave, lookup => (vHave, lookup)
  | _ + 1, none, _, _, vHave, lookup => (vHave, lookup)
  | fuel + 1, some p, nHeight, nStep, vHave, lookup =>
    let vHave := vHave ++ [p.hash]
    if nHeight < nStep + 1 then (vHave, lookup)
    else
      let nHeight' := nHeight - nStep
      let nStep' := if vHave.length > 10 then nStep * 2 else nStep
      if nStep < 21 then
        haveLoop fuel ((fun q => q.bind Branch.parent?)^[nStep] (some p)) nHeight' nStep' vHave
          lookup
      else
        match lookup nHeight' with
        | some q => haveLoop fuel (some q) nHeight' nStep' vHave lookup
        | none =>
          -- "TSNH no block found": step back to the block, and enter it
          match p.ancestors.find? (fun q => q.height = nHeight') with
          | none => (vHave, lookup)
          | some q =>
            haveLoop fuel (some q) nHeight' nStep' vHave (Function.update lookup nHeight' (some q))

/-- `CBlockLocator::Set`: `vHave`, and what becomes of `mapBlockLookup`. -/
def setLocator (hashGenesisBlock : UInt256) (pindex : BlockPtr)
    (lookup : Nat → Option BlockPtr) : List UInt256 × (Nat → Option BlockPtr) :=
  match pindex.parent? with
  | none => ([hashGenesisBlock], lookup)
  | some _ =>
    let r := haveLoop pindex.height (some pindex) pindex.height 1 [] lookup
    (r.1 ++ [hashGenesisBlock], r.2)

/-- What becomes of the lookup is what `SetBestChain` is modelled with. -/
theorem haveLoop_snd :
    ∀ (fuel : Nat) (q : Option BlockPtr) (nHeight nStep : Nat) (vHave : List UInt256)
      (lookup : Nat → Option BlockPtr),
      (haveLoop fuel q nHeight nStep vHave lookup).2 =
        locatorLoop fuel q nHeight nStep vHave.length lookup
  | 0, _, _, _, _, _ => rfl
  | _ + 1, none, _, _, _, _ => rfl
  | fuel + 1, some p, nHeight, nStep, vHave, lookup => by
    have hlen : (vHave ++ [p.hash]).length = vHave.length + 1 := by simp
    simp only [haveLoop, locatorLoop]
    split
    · rfl
    · split
      · rw [haveLoop_snd fuel, hlen]
      · cases lookup (nHeight - nStep) with
        | some q =>
          dsimp only
          rw [haveLoop_snd fuel, hlen]
        | none =>
          cases p.ancestors.find? (fun q => q.height = nHeight - nStep) with
          | none => rfl
          | some q =>
            dsimp only
            rw [haveLoop_snd fuel, hlen]

theorem setLocator_snd (hashGenesisBlock : UInt256) (pindex : BlockPtr)
    (lookup : Nat → Option BlockPtr) :
    (setLocator hashGenesisBlock pindex lookup).2 = locatorSet pindex lookup := by
  unfold setLocator locatorSet
  cases pindex.parent? with
  | none => rfl
  | some _ => exact haveLoop_snd _ _ _ _ _ _

/-! ## 2. The steps -/

/-- The step of a round. -/
def stepAt (j : Nat) : Nat := 2 ^ (j - 10)

/-- How far below the first block a round starts. -/
def backAt (j : Nat) : Nat := if j ≤ 10 then j else 9 + 2 ^ (j - 10)

theorem stepAt_succ (j : Nat) :
    (if j + 1 > 10 then stepAt j * 2 else stepAt j) = stepAt (j + 1) := by
  unfold stepAt
  split
  · next hj =>
    have hexp : j + 1 - 10 = j - 10 + 1 := by omega
    rw [hexp, pow_succ]
  · next hj =>
    have hlow : j - 10 = 0 := by omega
    have hlow' : j + 1 - 10 = 0 := by omega
    rw [hlow, hlow']

theorem backAt_succ (j : Nat) : backAt (j + 1) = backAt j + stepAt j := by
  unfold backAt stepAt
  rcases Nat.lt_trichotomy j 10 with hj | rfl | hj
  · have hlow : j - 10 = 0 := by omega
    rw [if_pos (by omega), if_pos (by omega), hlow]
    rfl
  · rfl
  · have hexp : j + 1 - 10 = j - 10 + 1 := by omega
    rw [if_neg (by omega), if_neg (by omega), hexp, pow_succ]
    omega

theorem stepAt_pos (j : Nat) : 0 < stepAt j := Nat.two_pow_pos _

theorem stepAt_lt_iff (j : Nat) : stepAt j < 21 ↔ j < 15 := by
  unfold stepAt
  constructor
  · intro h
    by_contra hj
    have hpow : 2 ^ 5 ≤ 2 ^ (j - 10) := Nat.pow_le_pow_right (by decide) (by omega)
    omega
  · intro h
    have hpow : 2 ^ (j - 10) ≤ 2 ^ 4 := Nat.pow_le_pow_right (by decide) (by omega)
    omega

theorem backAt_mono : Monotone backAt :=
  monotone_nat_of_le_succ fun j => by
    rw [backAt_succ]
    exact Nat.le_add_right _ _

variable {j : Nat} {p : BlockPtr} {lookup : Nat → Option BlockPtr}

/-- The depths at which blocks are looked up. -/
theorem backAt_lookup (hj : 15 ≤ j) : backAt (j + 1) = 9 + 2 ^ (j - 9) := by
  unfold backAt
  have hexp : j + 1 - 10 = j - 9 := by omega
  rw [if_neg (by omega), hexp]

/-- Steps through `pprev`. -/
theorem iterate_parent :
    ∀ (k : Nat) {p : BlockPtr}, k ≤ p.height →
      ∃ q, (fun q : Option BlockPtr => q.bind Branch.parent?)^[k] (some p) = some q ∧
        q ∈ p.ancestors ∧ q.height + k = p.height
  | 0, p, _ => ⟨p, rfl, p.self_mem_ancestors, rfl⟩
  | k + 1, .root b, hk => absurd hk (by simp [Branch.height])
  | k + 1, .child b p, hk => by
    obtain ⟨q, hq, hmem, hheight⟩ := iterate_parent k (p := p) (Nat.le_of_succ_le_succ hk)
    refine ⟨q, ?_, List.mem_cons_of_mem _ hmem, ?_⟩
    · rw [Function.iterate_succ_apply]
      exact hq
    · rw [Branch.height, ← hheight, Nat.add_assoc]

theorem exists_ancestor {k : Nat} (hk : k ≤ p.height) :
    ∃ q, p.ancestors.find? (fun q => q.height = k) = some q ∧ q ∈ p.ancestors ∧ q.height = k := by
  obtain ⟨r, hr⟩ := Branch.exists_atHeight hk
  obtain ⟨hmem, hheight⟩ := Branch.atHeight_eq_some.mp hr
  cases hfind : p.ancestors.find? (fun q => q.height = k) with
  | none => exact absurd hheight (by simpa using List.find?_eq_none.mp hfind r hmem)
  | some q => exact ⟨q, rfl, List.mem_of_find?_eq_some hfind, by simpa using List.find?_some hfind⟩

/-! ## 3. What is pushed -/

/-- **One round**: the next block is a step lower, and it is an ancestor, or from the fifteenth round
on what the lookup has there.  The lookup is changed at that height at most. -/
theorem haveLoop_round {vHave : List UInt256} (hlen : vHave.length = j)
    (hstep : stepAt j < p.height)
    (hat : 15 ≤ j → ∀ q, lookup (p.height - stepAt j) = some q → q.height = p.height - stepAt j)
    (fuel : Nat) :
    ∃ q lookup', haveLoop (fuel + 1) (some p) p.height (stepAt j) vHave lookup =
        haveLoop fuel (some q) q.height (stepAt (j + 1)) (vHave ++ [p.hash]) lookup' ∧
      q.height + stepAt j = p.height ∧ (∀ k ≠ q.height, lookup' k = lookup k) ∧
      (lookup' q.height = lookup q.height ∨ lookup' q.height = some q) ∧
      (q ∈ p.ancestors ∧ (15 ≤ j → lookup q.height = none) ∨
        15 ≤ j ∧ lookup q.height = some q) := by
  have hgo : ¬ p.height < stepAt j + 1 := by omega
  have hnext : (if (vHave ++ [p.hash]).length > 10 then stepAt j * 2 else stepAt j) =
      stepAt (j + 1) := by
    rw [List.length_append, hlen]
    exact stepAt_succ j
  simp only [haveLoop, if_neg hgo, hnext]
  by_cases hsmall : stepAt j < 21
  · obtain ⟨q, hq, hmem, hheight⟩ := iterate_parent (stepAt j) hstep.le
    have hlow : p.height - stepAt j = q.height := by omega
    rw [if_pos hsmall, hq, hlow]
    refine ⟨q, lookup, rfl, hheight, fun _ _ => rfl, Or.inl rfl, Or.inl ⟨hmem, fun hj => ?_⟩⟩
    exact absurd ((stepAt_lt_iff j).mp hsmall) (Nat.not_lt.mpr hj)
  · have hj : 15 ≤ j := Nat.not_lt.mp fun hlt => hsmall ((stepAt_lt_iff j).mpr hlt)
    rw [if_neg hsmall]
    cases hlook : lookup (p.height - stepAt j) with
    | some q =>
      have hheight := hat hj q hlook
      rw [← hheight] at hlook
      dsimp only
      rw [← hheight]
      exact ⟨q, lookup, rfl, by omega, fun _ _ => rfl, Or.inl rfl, Or.inr ⟨hj, hlook⟩⟩
    | none =>
      obtain ⟨q, hfind, hmem, hheight⟩ := exists_ancestor (Nat.sub_le p.height (stepAt j))
      rw [← hheight] at hlook
      dsimp only
      rw [hfind, ← hheight]
      refine ⟨q, Function.update lookup q.height (some q), rfl, by omega, ?_, ?_, ?_⟩
      · intro k hk
        exact Function.update_of_ne hk ..
      · exact Or.inr (Function.update_self ..)
      · exact Or.inl ⟨hmem, fun _ => hlook⟩

/-- What the lookup has at the depths at which blocks are looked up is at its height, and in `S`. -/
def LooksUpIn (S : Set BlockPtr) (h : Nat) (lookup : Nat → Option BlockPtr) : Prop :=
  ∀ k ≥ 6, 9 + 2 ^ k < h → ∀ q, lookup (h - (9 + 2 ^ k)) = some q →
    q.height = h - (9 + 2 ^ k) ∧ q ∈ S

/-- **What the loop pushes**, from its `j`-th round on: blocks of `S` of decreasing heights above the
genesis block, among them every block that is looked up and found. -/
theorem haveLoop_spec {S : Set BlockPtr} (hS : ∀ q ∈ S, ∀ r ∈ q.ancestors, r ∈ S) {h : Nat} :
    ∀ (fuel j : Nat) (p : BlockPtr) (vHave : List UInt256) (lookup : Nat → Option BlockPtr),
      vHave.length = j → p.height + backAt j = h → 0 < p.height → p.height ≤ fuel → p ∈ S →
      LooksUpIn S h lookup →
      ∃ l, (haveLoop fuel (some p) p.height (stepAt j) vHave lookup).1 =
          vHave ++ (p :: l).map BlockPtr.hash ∧
        (p :: l).Pairwise (fun a b => b.height < a.height) ∧
        (∀ q ∈ p :: l, 0 < q.height ∧ q ∈ S) ∧
        ∀ k ≥ 6, j ≤ k + 9 → 9 + 2 ^ k < h → ∀ q, lookup (h - (9 + 2 ^ k)) = some q → q ∈ l := by
  have hdeep : ∀ {k : Nat}, 6 ≤ k → 9 + 2 ^ k = backAt (k + 10) := by
    intro k hk
    have hj := backAt_lookup (j := k + 9) (by omega)
    rw [Nat.add_sub_cancel] at hj
    exact hj.symm
  intro fuel
  induction fuel with
  | zero =>
    intro j p _ _ _ _ hpos hfuel
    omega
  | succ fuel ih =>
    intro j p vHave lookup hlen hheight hpos hfuel hp hlook
    by_cases hstop : p.height < stepAt j + 1
    · refine ⟨[], ?_, List.pairwise_singleton _ _, ?_, ?_⟩
      · simp only [haveLoop, if_pos hstop]
        rfl
      · intro q hq
        rw [List.mem_singleton.mp hq]
        exact ⟨hpos, hp⟩
      · -- no later round is above the genesis block
        intro k hk hjk hlt
        have hmono := backAt_mono (show j + 1 ≤ k + 10 by omega)
        rw [backAt_succ, ← hdeep hk] at hmono
        omega
    · have hstep : stepAt j < p.height := by omega
      have hback := backAt_succ j
      have hat : 15 ≤ j → ∀ q, lookup (p.height - stepAt j) = some q →
          q.height = p.height - stepAt j := by
        intro hj q hq
        have hdepth := backAt_lookup hj
        have hplace : p.height - stepAt j = h - (9 + 2 ^ (j - 9)) := by omega
        rw [hplace] at hq ⊢
        exact (hlook (j - 9) (by omega) (by omega) q hq).1
      obtain ⟨q, lookup', hround, hlow, hframe, hown, hfrom⟩ :=
        haveLoop_round hlen hstep hat fuel
      have hq : q ∈ S := by
        rcases hfrom with ⟨hmem, -⟩ | ⟨hj, hfound⟩
        · exact hS p hp q hmem
        · have hdepth := backAt_lookup hj
          have hplace : q.height = h - (9 + 2 ^ (j - 9)) := by omega
          rw [hplace] at hfound
          exact (hlook (j - 9) (by omega) (by omega) q hfound).2
      have hlook' : LooksUpIn S h lookup' := by
        intro k hk hlt r hr
        by_cases hplace : h - (9 + 2 ^ k) = q.height
        · rcases hown with hsame | hset
          · rw [hplace, hsame, ← hplace] at hr
            exact hlook k hk hlt r hr
          · rw [hplace, hset] at hr
            cases hr
            exact ⟨hplace.symm, hq⟩
        · rw [hframe _ hplace] at hr
          exact hlook k hk hlt r hr
      obtain ⟨l, hl, hsorted, hin, hevery⟩ := ih (j + 1) q (vHave ++ [p.hash]) lookup'
        (by simp [hlen]) (by omega) (by omega) (by have := stepAt_pos j; omega) hq hlook'
      refine ⟨q :: l, ?_, ?_, ?_, ?_⟩
      · rw [hround, hl, List.append_assoc]
        rfl
      · refine List.pairwise_cons.mpr ⟨?_, hsorted⟩
        have hlower : q.height < p.height := by
          have := stepAt_pos j
          omega
        intro r hr
        rcases List.mem_cons.mp hr with rfl | hr
        · exact hlower
        · exact ((List.pairwise_cons.mp hsorted).1 r hr).trans hlower
      · intro r hr
        rcases List.mem_cons.mp hr with rfl | hr
        · exact ⟨hpos, hp⟩
        · exact hin r hr
      · intro k hk hjk hlt r hr
        have hdepth := hdeep hk
        rcases Nat.lt_or_ge j (k + 9) with hlater | hnow
        · have hbelow := backAt_mono (show j + 2 ≤ k + 10 by omega)
          rw [backAt_succ, backAt_succ, ← hdepth] at hbelow
          have hsteps := stepAt_pos (j + 1)
          rw [← hframe _ (by omega)] at hr
          exact List.mem_cons_of_mem _ (hevery k hk (by omega) hlt r hr)
        · -- the block of this round
          have hkj : k + 10 = j + 1 := by omega
          have hplace : h - (9 + 2 ^ k) = q.height := by
            rw [hdepth, hkj]
            omega
          rw [hplace] at hr
          rcases hfrom with ⟨-, hnone⟩ | ⟨-, hfound⟩
          · rw [hnone (by omega)] at hr
            cases hr
          · rw [hfound] at hr
            cases hr
            exact List.mem_cons_self

/-- A locator of the block's own branch: it names the block and ancestors of it, their heights
decrease, and the last is the genesis block. -/
def LocatorOf (pindex : BlockPtr) (g : IndexedBlock) (vHave : List UInt256) : Prop :=
  ∃ l : List BlockPtr, vHave = l.map BlockPtr.hash ∧ (∀ q ∈ l, q ∈ pindex.ancestors) ∧
    l.Pairwise (fun a b => b.height < a.height) ∧ l.getLast? = some (.root g)

/-- **What a locator names**: blocks of `S` of decreasing heights down to the genesis block, among
them every block that is looked up and found. -/
theorem setLocator_spec {S : Set BlockPtr} (hS : ∀ q ∈ S, ∀ r ∈ q.ancestors, r ∈ S)
    {g : IndexedBlock} (hp : p ∈ S) (hbottom : p.bottom = .root g)
    (hlook : LooksUpIn S p.height lookup) :
    ∃ l : List BlockPtr, (setLocator g.hash p lookup).1 = l.map BlockPtr.hash ∧ (∀ q ∈ l, q ∈ S) ∧
      l.Pairwise (fun a b => b.height < a.height) ∧ l.getLast? = some (.root g) ∧
      ∀ k ≥ 6, 9 + 2 ^ k < p.height → ∀ q, lookup (p.height - (9 + 2 ^ k)) = some q → q ∈ l := by
  cases p with
  | root b =>
    cases hbottom
    refine ⟨[.root g], rfl, ?_, List.pairwise_singleton _ _, rfl, ?_⟩
    · intro q hq
      rwa [List.mem_singleton.mp hq]
    · intro k _ hlt
      exact absurd hlt (Nat.not_lt_zero _)
  | child b q =>
    obtain ⟨l, hl, hsorted, hin, hevery⟩ := haveLoop_spec hS (Branch.child b q).height 0
      (.child b q) [] lookup rfl rfl (Nat.succ_pos _) le_rfl hp hlook
    have hroot : Branch.root g ∈ S := hS _ hp _ (hbottom ▸ Branch.bottom_mem_ancestors _)
    refine ⟨Branch.child b q :: l ++ [.root g], ?_, ?_, ?_, ?_, ?_⟩
    · rw [List.map_append, ← List.nil_append (List.map _ (_ :: l)), ← hl]
      rfl
    · intro r hr
      rcases List.mem_append.mp hr with hr | hr
      · exact (hin r hr).2
      · rwa [List.mem_singleton.mp hr]
    · refine List.pairwise_append.mpr ⟨hsorted, List.pairwise_singleton _ _, ?_⟩
      intro r hr s hs
      rw [List.mem_singleton.mp hs]
      exact (hin r hr).1
    · exact List.getLast?_concat ..
    · intro k hk hlt r hr
      exact List.mem_append_left _ (List.mem_cons_of_mem _ (hevery k hk (by omega) hlt r hr))

/-! ## 4. The lookup

Every entry of `mapBlockLookup` is a known block at its own height, whatever the calls of
`SetBestChain` come to. -/

/-- The entries are blocks of `S` at their own heights. -/
def LookupOk (S : Set BlockPtr) (lookup : Nat → Option BlockPtr) : Prop :=
  ∀ k q, lookup k = some q → q.height = k ∧ q ∈ S

theorem LookupOk.mono {S S' : Set BlockPtr} (h : LookupOk S lookup) (hsub : S ⊆ S') :
    LookupOk S' lookup :=
  fun k q hq => ⟨(h k q hq).1, hsub (h k q hq).2⟩

theorem LookupOk.update {S : Set BlockPtr} {lookup : Nat → Option BlockPtr}
    (h : LookupOk S lookup) {p : BlockPtr} (hp : p ∈ S) :
    LookupOk S (Function.update lookup p.height (some p)) := by
  intro k q hq
  rw [Function.update_apply] at hq
  split at hq
  · next hk =>
    cases hq
    exact ⟨hk.symm, hp⟩
  · exact h k q hq

theorem LookupOk.erase {S : Set BlockPtr} (h : LookupOk S lookup) (k : Nat) :
    LookupOk S (Function.update lookup k none) := by
  intro k' q hq
  rw [Function.update_apply] at hq
  split at hq
  · cases hq
  · exact h k' q hq

theorem locatorLoop_ok {S : Set BlockPtr} (hS : ∀ q ∈ S, ∀ r ∈ q.ancestors, r ∈ S) :
    ∀ (fuel : Nat) (x : Option BlockPtr) (nHeight nStep nHave : Nat)
      (lookup : Nat → Option BlockPtr), (∀ q ∈ x, q ∈ S) → LookupOk S lookup →
      LookupOk S (locatorLoop fuel x nHeight nStep nHave lookup)
  | 0, _, _, _, _, _, _, h => h
  | _ + 1, none, _, _, _, _, _, h => h
  | fuel + 1, some p, nHeight, nStep, nHave, lookup, hx, h => by
    have hp : p ∈ S := hx p rfl
    have hback : ∀ (k : Nat) (q : BlockPtr),
        (fun q : Option BlockPtr => q.bind Branch.parent?)^[k] (some p) = some q → q ∈ S := by
      intro k
      induction k with
      | zero =>
        intro q hq
        cases hq
        exact hp
      | succ k ih =>
        intro q hq
        rw [Function.iterate_succ_apply'] at hq
        obtain ⟨r, hr, hpar⟩ := Option.bind_eq_some_iff.mp hq
        exact hS r (ih r hr) q (Branch.parent_mem r.self_mem_ancestors hpar)
    simp only [locatorLoop]
    generalize (if nHave + 1 > 10 then nStep * 2 else nStep) = nStep'
    split
    · exact h
    · split
      · exact locatorLoop_ok hS fuel _ _ _ _ _ (hback nStep) h
      · cases hlook : lookup (nHeight - nStep) with
        | some q =>
          refine locatorLoop_ok hS fuel _ _ _ _ _ ?_ h
          rintro r ⟨⟩
          exact (h _ q hlook).2
        | none =>
          dsimp only
          cases hfind : p.ancestors.find? (fun q => q.height = nHeight - nStep) with
          | none => exact h
          | some q =>
            have hq : q ∈ S := hS p hp q (List.mem_of_find?_eq_some hfind)
            have hheight : q.height = nHeight - nStep := by simpa using List.find?_some hfind
            refine locatorLoop_ok hS fuel _ _ _ _ _ ?_ ?_
            · rintro r ⟨⟩
              exact hq
            · rw [← hheight]
              exact h.update hq

theorem locatorSet_ok {S : Set BlockPtr} (hS : ∀ q ∈ S, ∀ r ∈ q.ancestors, r ∈ S) (hp : p ∈ S)
    (h : LookupOk S lookup) :
    LookupOk S (locatorSet p lookup) := by
  unfold locatorSet
  split
  · exact h
  · refine locatorLoop_ok hS _ _ _ _ _ _ ?_ h
    rintro r ⟨⟩
    exact hp

/-! ## 5. Calls of `SetBestChain` -/

section

variable {DB E : Type} {S : Set BlockPtr} {n : Node DB E} {ops : BlockOps DB E}

/-- What a call changes besides the databases and the best block: the index stays as it is, and the
lookup keeps entries of `S` at their own heights. -/
structure Within (S : Set BlockPtr) (n n' : Node DB E) : Prop where
  tree : SameTree n n'
  lookup : LookupOk S n.mapBlockLookup → LookupOk S n'.mapBlockLookup

theorem Within.refl (n : Node DB E) : Within S n n := ⟨.refl n, id⟩

theorem Within.trans {a b c : Node DB E} (h : Within S a b) (h' : Within S b c) : Within S a c :=
  ⟨h.tree.trans h'.tree, fun hok => h'.lookup (h.lookup hok)⟩

theorem unlink_within (n : Node DB E) (p : BlockPtr) : Within S n (n.unlink p) :=
  ⟨.refl n, fun hok => hok.erase p.height⟩

theorem link_within (n : Node DB E) {p : BlockPtr} (hp : p ∈ S) : Within S n (n.link p) :=
  ⟨.refl n, fun hok => hok.update hp⟩

theorem foldl_within {f : Node DB E → BlockPtr → Node DB E} :
    ∀ (l : List BlockPtr) (n : Node DB E), (∀ p ∈ l, ∀ n, Within S n (f n p)) →
      Within S n (l.foldl f n)
  | [], n, _ => .refl n
  | p :: l, n, hf =>
    (hf p List.mem_cons_self n).trans
      (foldl_within l (f n p) fun q hq => hf q (List.mem_cons_of_mem p hq))

theorem mem_above {f : BlockPtr} : ∀ {p q : BlockPtr}, q ∈ p.above f → q ∈ p.ancestors
  | .root b, q, hq => by
    rw [Branch.above] at hq
    split at hq
    · cases hq
    · exact hq
  | .child b p, q, hq => by
    rw [Branch.above] at hq
    split at hq
    · cases hq
    · rcases List.mem_cons.mp hq with rfl | hq
      · exact List.mem_cons_self
      · exact List.mem_cons_of_mem _ (mem_above hq)

variable (hS : ∀ q ∈ S, ∀ r ∈ q.ancestors, r ∈ S)
include hS

theorem reorganize_within {p : BlockPtr} (hp : p ∈ S) : Within S n (reorganize ops n p).2 := by
  unfold reorganize
  split
  · exact .refl n
  · next best _ =>
    split
    · exact .refl n
    · next f _ =>
      split
      · exact ⟨.refl n, id⟩
      · next db e _ =>
        have hcut : Within S n ((best.above f).foldl unlink (n.commit p db e)) :=
          (show Within S n (n.commit p db e) from ⟨.refl n, id⟩).trans
            (foldl_within _ _ fun q _ n => unlink_within n q)
        dsimp only
        split
        · exact hcut
        · refine hcut.trans (foldl_within _ _ fun q hq n => link_within n ?_)
          exact hS p hp q (mem_above (List.mem_reverse.mp hq))

omit hS in
theorem setBestChainInner_within {p : BlockPtr} (hp : p ∈ S) :
    Within S n (setBestChainInner ops n p).2 := by
  unfold setBestChainInner
  split
  · exact .refl n
  · split
    · exact ⟨.refl n, id⟩
    · next db e _ =>
      have hcommit : Within S n (n.commit p db e) := ⟨.refl n, id⟩
      split
      · exact hcommit
      · exact hcommit.trans (link_within _ hp)

omit hS in
theorem connectSecondary_within :
    ∀ (l : List BlockPtr) (n : Node DB E), (∀ p ∈ l, p ∈ S) →
      Within S n (connectSecondary ops l n).2
  | [], n, _ => .refl n
  | p :: l, n, hl => by
    have hinner := @setBestChainInner_within DB E S n ops p (hl p List.mem_cons_self)
    unfold connectSecondary
    split
    · next n' hcall =>
      rw [hcall] at hinner
      exact hinner
    · next n' hcall =>
      rw [hcall] at hinner
      exact hinner.trans
        (connectSecondary_within l n' fun q hq => hl q (List.mem_cons_of_mem p hq))

theorem publish_within (fIsInitialDownload : Bool) {p : BlockPtr} (hp : p ∈ S) :
    Within S n (publish fIsInitialDownload p n) := by
  refine ⟨.refl n, fun hok => ?_⟩
  unfold publish
  cases fIsInitialDownload with
  | true => exact hok
  | false => exact locatorSet_ok hS hp hok

/-- **Whatever a call comes to**, the index stays and the lookup has known blocks only. -/
theorem setBestChain_within {hashGenesisBlock : UInt256} (hgen : n.pindexGenesisBlock ≠ none)
    (fIsInitialDownload : Bool) {p : BlockPtr} (hp : p ∈ S) :
    Within S n (setBestChain ops hashGenesisBlock fIsInitialDownload n p).2 := by
  unfold setBestChain
  rw [if_neg fun h => hgen h.1]
  split
  · have hinner := @setBestChainInner_within DB E S n ops p hp
    split
    · next n' hcall =>
      rw [hcall] at hinner
      exact hinner
    · next n' hcall =>
      rw [hcall] at hinner
      exact hinner.trans (publish_within hS fIsInitialDownload hp)
  · split
    · exact .refl n
    · next best _ =>
      obtain ⟨hmem, habove⟩ := postpone_spec best.nChainTrust p
      have hreorg := @reorganize_within DB E S n ops hS (postpone best.nChainTrust p).1
        (hS p hp _ hmem)
      dsimp only
      split
      · next n' hcall =>
        rw [hcall] at hreorg
        exact hreorg
      · next n' hcall =>
        rw [hcall] at hreorg
        refine (hreorg.trans (connectSecondary_within _ _ ?_)).trans
          (publish_within hS fIsInitialDownload hp)
        intro q hq
        rw [habove] at hq
        exact hS p hp q (mem_above (List.mem_reverse.mp hq))

end

/-! ## 6. Locators in every run -/

variable {DB E : Type} {A : Set (BlockOps DB E)} {g : IndexedBlock} {db : DB} {e : E}
  {n : Node DB E}

/-- The node after a locator is made for a block. -/
def Node.locate (n : Node DB E) (hashGenesisBlock : UInt256) (pindex : BlockPtr) : Node DB E :=
  { n with mapBlockLookup := (setLocator hashGenesisBlock pindex n.mapBlockLookup).2 }

/-- **Runs with locators**: blocks are indexed, `SetBestChain` is called on known blocks and may come
to anything, and locators are made for known blocks. -/
inductive Located (A : Set (BlockOps DB E)) (g : IndexedBlock) (db : DB) (e : E) : Node DB E → Prop
  | load (ops : BlockOps DB E) (fIsInitialDownload : Bool) :
      0 < getBlockTrust g.block.nBits →
      Located A g db e (loadBlockIndex ops fIsInitialDownload db e g)
  | index {n : Node DB E} {b : IndexedBlock} :
      Located A g db e n → n.mapBlockIndex b.hash = none →
      (n.mapBlockIndex b.block.hashPrevBlock).isSome = true → Located A g db e (n.index b)
  | call {n : Node DB E} {ops : BlockOps DB E} (fIsInitialDownload : Bool) {p : BlockPtr} :
      Located A g db e n → ops ∈ A → n.mapBlockIndex p.hash = some p →
      Located A g db e (setBestChain ops g.hash fIsInitialDownload n p).2
  | locate {n : Node DB E} {p : BlockPtr} :
      Located A g db e n → n.mapBlockIndex p.hash = some p → Located A g db e (n.locate g.hash p)

/-- The known blocks. -/
def Node.known (n : Node DB E) : Set BlockPtr := {p | n.mapBlockIndex p.hash = some p}

theorem Node.TreeOk.known_closed (htree : TreeOk n g) :
    ∀ q ∈ n.known, ∀ r ∈ q.ancestors, r ∈ n.known :=
  fun _ hq _ hr => htree.ancestors_known hq hr

/-- **The invariant of the runs**: the lookup has known blocks at their own heights. -/
theorem Located.inv (h : Located A g db e n) :
    TreeOk n g ∧ LookupOk n.known n.mapBlockLookup := by
  induction h with
  | load ops f htrust =>
    obtain ⟨htree, hbest⟩ := load_ok ops f db e htrust
    refine ⟨htree, fun k q hq => ?_⟩
    rw [hbest.tables.lookup] at hq
    obtain ⟨hmem, hheight⟩ := Branch.atHeight_eq_some.mp hq
    exact ⟨hheight, htree.known_closed _ hbest.known q hmem⟩
  | index _ hnew hprev ih =>
    obtain ⟨htree, hlook⟩ := ih
    exact ⟨index_tree htree hnew hprev, hlook.mono fun _ hq => index_known hnew hq⟩
  | @call n ops f p _ _ hp ih =>
    obtain ⟨htree, hlook⟩ := ih
    have hgen : n.pindexGenesisBlock ≠ none := by
      rw [htree.genesis]
      exact nofun
    have hcall := @setBestChain_within DB E n.known n ops htree.known_closed g.hash hgen f p hp
    have hsame : ∀ n' : Node DB E, SameTree n n' → n'.known = n.known := by
      rintro n' ⟨hmap, -⟩
      unfold Node.known
      rw [hmap]
    refine ⟨htree.congr hcall.tree, ?_⟩
    rw [hsame _ hcall.tree]
    exact hcall.lookup hlook
  | @locate n p _ hp ih =>
    obtain ⟨htree, hlook⟩ := ih
    refine ⟨htree.congr ⟨rfl, rfl⟩, ?_⟩
    unfold Node.locate
    rw [setLocator_snd]
    exact locatorSet_ok htree.known_closed hp hlook

/-- **Exactly when a locator is one of the block's own branch**, in every run: every block that is
looked up on the way, at `9 + 2 ^ k` blocks below the first, is an ancestor of it. -/
theorem setLocator_iff (h : Located A g db e n) {p : BlockPtr}
    (hp : n.mapBlockIndex p.hash = some p) :
    LocatorOf p g (setLocator g.hash p n.mapBlockLookup).1 ↔
      ∀ k ≥ 6, 9 + 2 ^ k < p.height → ∀ q, n.mapBlockLookup (p.height - (9 + 2 ^ k)) = some q →
        q ∈ p.ancestors := by
  obtain ⟨htree, hlook⟩ := h.inv
  have hbottom := htree.bottom hp
  constructor
  · rintro ⟨l, hl, hin, -, -⟩ k hk hlt q hq
    obtain ⟨l', hl', hknown, -, -, hevery⟩ := setLocator_spec htree.known_closed hp hbottom
      (fun k _ _ q hq => hlook _ q hq)
    have hpushed : q.hash ∈ l.map BlockPtr.hash := by
      rw [← hl, hl']
      exact List.mem_map_of_mem (hevery k hk hlt q hq)
    obtain ⟨r, hr, hhash⟩ := List.mem_map.mp hpushed
    have hrknown : n.mapBlockIndex r.hash = some r := htree.known_closed p hp r (hin r hr)
    rw [← known_inj hrknown (hlook _ q hq).2 hhash]
    exact hin r hr
  · intro hall
    have hclosed : ∀ q ∈ {q | q ∈ p.ancestors}, ∀ r ∈ q.ancestors, r ∈ {q | q ∈ p.ancestors} :=
      fun _ hq _ hr => Branch.mem_ancestors_trans hr hq
    obtain ⟨l, hl, hin, hsorted, hlast, -⟩ := setLocator_spec hclosed p.self_mem_ancestors hbottom
      (fun k hk hlt q hq => ⟨(hlook _ q hq).1, hall k hk hlt q hq⟩)
    exact ⟨l, hl, hin, hsorted, hlast⟩

/-! ## 7. A side branch -/

/-- A block of the example, with its id and the id of the block below. -/
def lineBlock (hash hashPrevBlock : UInt256) (nBits : UInt32) : IndexedBlock :=
  { forkGenesis with
    hash := hash
    block := { forkGenesis.block with hashPrevBlock := hashPrevBlock, nBits := nBits } }

/-- Every block can be connected and disconnected. -/
def easyOps : BlockOps Unit Unit := ⟨fun _ _ db e => (some db, e), fun _ _ db e => (some db, e)⟩

/-- The best chain is the genesis block and one block with much work. -/
def lineMain : BlockPtr :=
  .child (lineBlock 2 1 0x1c00ffff) (.root (lineBlock 1 0 0x1d00ffff))

/-- The blocks of a side branch on the genesis block. -/
def farBlock (k : Nat) : IndexedBlock :=
  lineBlock (BitVec.ofNat 256 (100 + k)) (if k = 0 then 1 else BitVec.ofNat 256 (99 + k)) 0x1d00ffff

/-- The side branch. -/
def farPtr : Nat → BlockPtr
  | 0 => .root (lineBlock 1 0 0x1d00ffff)
  | k + 1 => .child (farBlock k) (farPtr k)

/-- The node after `k` blocks of the side branch are indexed. -/
def farNode : Nat → Node Unit Unit
  | 0 => (setBestChain easyOps 1 true
      ((loadBlockIndex easyOps true () () (lineBlock 1 0 0x1d00ffff)).index
        (lineBlock 2 1 0x1c00ffff)) lineMain).2
  | k + 1 => (farNode k).index (farBlock k)

theorem farNode_located :
    Located Set.univ (lineBlock 1 0 0x1d00ffff) () () (farNode 74) := by
  have hfree : ∀ k < 74, (farNode k).mapBlockIndex (farBlock k).hash = none ∧
      ((farNode k).mapBlockIndex (farBlock k).block.hashPrevBlock).isSome = true := by
    decide +kernel
  have hrun : ∀ k ≤ 74, Located Set.univ (lineBlock 1 0 0x1d00ffff) () () (farNode k) := by
    intro k
    induction k with
    | zero =>
      intro _
      exact .call true (.index (.load easyOps true (by decide +kernel)) (by decide +kernel)
        (by decide +kernel)) trivial (by decide +kernel)
    | succ k ih =>
      intro hk
      exact .index (ih (by omega)) (hfree k hk).1 (hfree k hk).2
  exact hrun 74 le_rfl

/-- **A locator that crosses to the main chain.**  The side branch has 74 blocks and less work than
the best chain, so that none of them makes a call; the locator of its last block names the block of
the best chain at height 1. -/
theorem locator_crosses :
    Located Set.univ (lineBlock 1 0 0x1d00ffff) () () (farNode 74) ∧
      (farNode 74).mapBlockIndex (farPtr 74).hash = some (farPtr 74) ∧
      (farPtr 74).nChainTrust ≤ (farNode 74).nBestChainTrust ∧
      (2 : UInt256) ∈ (setLocator 1 (farPtr 74) (farNode 74).mapBlockLookup).1 ∧
      ¬ LocatorOf (farPtr 74) (lineBlock 1 0 0x1d00ffff)
        (setLocator 1 (farPtr 74) (farNode 74).mapBlockLookup).1 := by
  have hcrossed : (2 : UInt256) ∈ (setLocator 1 (farPtr 74) (farNode 74).mapBlockLookup).1 := by
    decide +kernel
  have hside : (farPtr 74).ancestors.all (fun q => decide (BlockPtr.hash q ≠ 2)) = true := by
    decide +kernel
  refine ⟨farNode_located, by decide +kernel, by decide +kernel, hcrossed, ?_⟩
  rintro ⟨l, hl, hin, -, -⟩
  rw [hl] at hcrossed
  obtain ⟨q, hq, hhash⟩ := List.mem_map.mp hcrossed
  exact of_decide_eq_true (List.all_eq_true.mp hside q (hin q hq)) hhash

/-- The node when the side branch has become the best chain. -/
def farMain : Node Unit Unit := (setBestChain easyOps 1 true (farNode 74) (farPtr 74)).2

/-- Then the lookup at height 1 has the block of the branch. -/
theorem farMain_lookup : farMain.mapBlockLookup 1 = some (farPtr 1) := by decide +kernel

/-- The locator of the last block, which is on the best chain now, is one of its own branch. -/
theorem setLocator_iff_main :
    farMain.pindexBest = some (farPtr 74) ∧
      LocatorOf (farPtr 74) (lineBlock 1 0 0x1d00ffff)
        (setLocator 1 (farPtr 74) farMain.mapBlockLookup).1 := by
  have hlocated : Located Set.univ (lineBlock 1 0 0x1d00ffff) () () farMain :=
    .call true farNode_located trivial (by decide +kernel)
  refine ⟨by decide +kernel, (setLocator_iff hlocated (p := farPtr 74) (by decide +kernel)).mpr ?_⟩
  intro k hk hlt q hq
  have hheight : (farPtr 74).height = 74 := by decide +kernel
  obtain rfl : k = 6 := by
    have hpow := Nat.pow_le_pow_right Nat.two_pos hk
    by_contra hne
    have hmore := Nat.pow_le_pow_right Nat.two_pos (show 7 ≤ k by omega)
    omega
  have hone : (farPtr 74).height - (9 + 2 ^ 6) = 1 := by
    rw [hheight]
    rfl
  rw [hone, farMain_lookup] at hq
  cases hq
  decide +kernel

end Breakout
