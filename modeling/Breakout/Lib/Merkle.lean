/-
# Merkle roots over lists of any length

The root of a list of hashes, built level by level; the last element of a level of odd length
is paired with itself.  That duplication is why the root of a list does NOT determine the
list: `[a, b, c]` and `[a, b, c, c]` have the same root under every hash.  It does determine
a list without repetitions (`merkleRoot_inj`).

The argument goes through the formula of the root, a `HashTree`.  A pair hash without
collisions on the pairs it is really given, whose values are not leaves, makes the root
determine the formula (`HashTree.eval_inj`); and the leaves of the formula, read from left to
right, are the list followed by copies of its own elements (`flat_climb`).
-/
import Mathlib.Tactic

namespace Lib

variable {α β : Type}

/-! ## 1. Levels -/

/-- One level up. -/
def pairUp (h : α → α → α) : List α → List α
  | [] => []
  | [a] => [h a a]
  | a :: b :: l => h a b :: pairUp h l

theorem length_pairUp (h : α → α → α) : ∀ l : List α, (pairUp h l).length = (l.length + 1) / 2
  | [] => by simp [pairUp]
  | [_] => by simp [pairUp]
  | a :: b :: l => by
    simp only [pairUp, List.length_cons, length_pairUp h l]
    omega

/-- The pairs of a level, by the places of their first halves. -/
theorem pairUp_eq_map (h : α → α → α) (d : α) : ∀ l : List α,
    pairUp h l = (List.range' 0 ((l.length + 1) / 2) 2).map fun i =>
      h (l.getD i d) (l.getD (min (i + 1) (l.length - 1)) d)
  | [] => by simp [pairUp]
  | [_] => by simp [pairUp]
  | a :: b :: l => by
    have hlen : ((a :: b :: l).length + 1) / 2 = (l.length + 1) / 2 + 1 := by
      simp only [List.length_cons]
      omega
    rw [pairUp, pairUp_eq_map h d l, hlen, List.range'_succ, List.map_cons,
      show 0 + 2 = 2 + 0 from rfl, ← List.map_add_range', List.map_map]
    congr 1
    refine List.map_congr_left fun i hi => ?_
    obtain ⟨k, hk, rfl⟩ := List.mem_range'.mp hi
    have hfirst : (a :: b :: l).getD (2 + (0 + 2 * k)) d = l.getD (0 + 2 * k) d := by
      rw [Nat.add_comm 2]
      rfl
    have hsecond : (a :: b :: l).getD (min (2 + (0 + 2 * k) + 1) ((a :: b :: l).length - 1)) d =
        l.getD (min (0 + 2 * k + 1) (l.length - 1)) d := by
      have hmin : min (2 + (0 + 2 * k) + 1) ((a :: b :: l).length - 1) =
          min (0 + 2 * k + 1) (l.length - 1) + 2 := by
        simp only [List.length_cons]
        omega
      rw [hmin]
      rfl
    rw [Function.comp_apply, hfirst, hsecond]

/-- Level after level, until at most one hash is left. -/
def climb (h : α → α → α) : Nat → List α → List α
  | 0, l => l
  | fuel + 1, l => if l.length ≤ 1 then l else climb h fuel (pairUp h l)

/-- The root, if there is anything to take it of. -/
def merkleRoot (h : α → α → α) (l : List α) : Option α := (climb h l.length l).head?

/-- Halving reaches one in as many steps as there are hashes. -/
theorem length_climb (h : α → α → α) :
    ∀ {fuel : Nat} {l : List α}, l.length ≤ fuel → l ≠ [] → (climb h fuel l).length = 1
  | 0, l, hl, hne => absurd (List.length_eq_zero_iff.mp (Nat.le_zero.mp hl)) hne
  | fuel + 1, l, hl, hne => by
    have hpos : 0 < l.length := List.length_pos_iff.mpr hne
    rw [climb]
    split
    · omega
    · have hlen := length_pairUp h l
      refine length_climb h (by omega) ?_
      rw [← List.length_pos_iff]
      omega

/-- A map that carries one pairing to another carries roots to roots. -/
theorem climb_map {h : α → α → α} {k : β → β → β} {f : α → β}
    (hf : ∀ a b, f (h a b) = k (f a) (f b)) :
    ∀ (fuel : Nat) (l : List α), (climb h fuel l).map f = climb k fuel (l.map f)
  | 0, _ => rfl
  | fuel + 1, l => by
    have hpair : ∀ l : List α, (pairUp h l).map f = pairUp k (l.map f) := by
      intro l
      induction l using pairUp.induct with
      | case1 => rfl
      | case2 a => simp [pairUp, hf]
      | case3 a b l ih => simp [pairUp, hf, ih]
    simp only [climb, List.length_map]
    split
    · rfl
    · rw [climb_map hf fuel, hpair]

/-! ## 2. Formulas -/

/-- The formula of a root. -/
inductive HashTree (α : Type) where
  | leaf (a : α)
  | node (l r : HashTree α)

namespace HashTree

/-- The value of a formula. -/
def eval (h : α → α → α) : HashTree α → α
  | leaf a => a
  | node l r => h (l.eval h) (r.eval h)

/-- The leaves, from left to right. -/
def leaves : HashTree α → List α
  | leaf a => [a]
  | node l r => l.leaves ++ r.leaves

/-- The pairs the hash is given when the formula is evaluated. -/
def pairs (h : α → α → α) : HashTree α → List (α × α)
  | leaf _ => []
  | node l r => (l.eval h, r.eval h) :: (l.pairs h ++ r.pairs h)

/-- **The value determines the formula**, when the hash does not collide on the pairs given to
it and no leaf is a pair's hash. -/
theorem eval_inj {h : α → α → α} {P : α → α → Prop} {L : α → Prop}
    (hinj : ∀ ⦃a b c d⦄, P a b → P c d → h a b = h c d → a = c ∧ b = d)
    (hleaf : ∀ ⦃x a b⦄, L x → P a b → x ≠ h a b) :
    ∀ {s t : HashTree α}, (∀ x ∈ s.leaves, L x) → (∀ x ∈ t.leaves, L x) →
      (∀ p ∈ s.pairs h, P p.1 p.2) → (∀ p ∈ t.pairs h, P p.1 p.2) →
      s.eval h = t.eval h → s = t
  | leaf a, leaf b, _, _, _, _, he => by rw [show a = b from he]
  | leaf a, node l r, hs, _, _, ht, he =>
    absurd he (hleaf (hs a (by simp [leaves])) (ht _ List.mem_cons_self))
  | node l r, leaf b, _, ht, hs, _, he =>
    absurd he.symm (hleaf (ht b (by simp [leaves])) (hs _ List.mem_cons_self))
  | node l r, node l' r', hs, ht, hps, hpt, he => by
    simp only [leaves, List.mem_append] at hs ht
    simp only [pairs, List.mem_cons, List.mem_append] at hps hpt
    obtain ⟨hl, hr⟩ := hinj (hps _ (Or.inl rfl)) (hpt _ (Or.inl rfl)) he
    have hll := eval_inj hinj hleaf (fun x hx => hs x (Or.inl hx)) (fun x hx => ht x (Or.inl hx))
      (fun p hp => hps p (Or.inr (Or.inl hp))) (fun p hp => hpt p (Or.inr (Or.inl hp))) hl
    have hrr := eval_inj hinj hleaf (fun x hx => hs x (Or.inr hx)) (fun x hx => ht x (Or.inr hx))
      (fun p hp => hps p (Or.inr (Or.inr hp))) (fun p hp => hpt p (Or.inr (Or.inr hp))) hr
    rw [hll, hrr]

end HashTree

/-- The formulas of what is left after the climb: of a non-empty list, one, the root's. -/
def rootTrees (l : List α) : List (HashTree α) :=
  climb HashTree.node l.length (l.map HashTree.leaf)

/-- The pairs that are hashed on the way to the root. -/
def merklePairs (h : α → α → α) (l : List α) : List (α × α) :=
  (rootTrees l).flatMap (HashTree.pairs h)

variable {l l' : List α} {h : α → α → α} {t : HashTree α} {P : α → α → Prop} {L : α → Prop}

theorem exists_rootTree (hl : l ≠ []) : ∃ t, rootTrees l = [t] := by
  have hlen : (rootTrees l).length = 1 :=
    length_climb _ (by simp) (by simpa using hl)
  exact List.length_eq_one_iff.mp hlen

/-- The root is the value of its formula. -/
theorem merkleRoot_eq_eval (ht : rootTrees l = [t]) : merkleRoot h l = some (t.eval h) := by
  have hmap := climb_map (h := HashTree.node) (k := h) (f := HashTree.eval h)
    (fun _ _ => rfl) l.length (l.map HashTree.leaf)
  have hid : (l.map HashTree.leaf).map (HashTree.eval h) = l := by
    simp [Function.comp_def, HashTree.eval]
  rw [hid] at hmap
  rw [merkleRoot, ← hmap]
  have : climb HashTree.node l.length (l.map HashTree.leaf) = [t] := ht
  rw [this]
  rfl

/-! ## 3. The leaves of a root's formula -/

/-- Pairing up adds nothing but a copy of what the last formula holds. -/
theorem flat_pairUp : ∀ ts : List (HashTree α),
    ∃ D, (pairUp HashTree.node ts).flatMap HashTree.leaves = ts.flatMap HashTree.leaves ++ D ∧
      ∀ x ∈ D, x ∈ ts.flatMap HashTree.leaves
  | [] => ⟨[], by simp [pairUp]⟩
  | [t] => ⟨t.leaves, by simp [pairUp, HashTree.leaves]⟩
  | s :: t :: ts => by
    obtain ⟨D, hD, hmem⟩ := flat_pairUp ts
    refine ⟨D, by simp [pairUp, HashTree.leaves, hD], fun x hx => ?_⟩
    simp only [List.flatMap_cons, List.mem_append]
    exact Or.inr (Or.inr (hmem x hx))

theorem flat_climb : ∀ (fuel : Nat) (ts : List (HashTree α)),
    ∃ D, (climb HashTree.node fuel ts).flatMap HashTree.leaves =
      ts.flatMap HashTree.leaves ++ D ∧ ∀ x ∈ D, x ∈ ts.flatMap HashTree.leaves
  | 0, ts => ⟨[], by simp [climb]⟩
  | fuel + 1, ts => by
    rw [climb]
    split
    · exact ⟨[], by simp⟩
    · obtain ⟨D, hD, hmem⟩ := flat_pairUp ts
      obtain ⟨E, hE, hmemE⟩ := flat_climb fuel (pairUp HashTree.node ts)
      refine ⟨D ++ E, by rw [hE, hD, List.append_assoc], fun x hx => ?_⟩
      rcases List.mem_append.mp hx with hx | hx
      · exact hmem x hx
      · have := hmemE x hx
        rw [hD, List.mem_append] at this
        exact this.elim id (hmem x)

/-- Two lists without repetitions, each followed by copies of its own elements, agree as soon
as the longer readings do. -/
theorem eq_of_append_copies {D D' : List α} (hnd : l.Nodup) (hnd' : l'.Nodup) (hD : ∀ x ∈ D, x ∈ l)
    (hD' : ∀ x ∈ D', x ∈ l') (heq : l ++ D = l' ++ D') : l = l' := by
  have key : ∀ {l l' D D' : List α}, l'.Nodup → (∀ x ∈ D, x ∈ l) → l ++ D = l' ++ D' →
      l.length ≤ l'.length → l = l' := by
    intro l l' D D' hnd' hD heq hle
    obtain ⟨m, rfl⟩ : l <+: l' := List.prefix_of_prefix_length_le
      (List.prefix_append l D) (heq ▸ List.prefix_append l' D') hle
    have hm : m ++ D' = D := by simpa using heq.symm
    cases m with
    | nil => simp
    | cons x m =>
      -- the element after `l` is one of the copies, hence in `l` already
      have hx : x ∈ l := hD x (hm ▸ by simp)
      exact absurd rfl ((List.nodup_append.mp hnd').2.2 x hx x (by simp))
  rcases Nat.le_total l.length l'.length with hle | hle
  · exact key hnd' hD heq hle
  · exact (key hnd hD' heq.symm hle).symm

/-- The leaves of a root's formula are the list and copies of its own elements. -/
theorem leaves_rootTree (ht : rootTrees l = [t]) :
    ∃ D, t.leaves = l ++ D ∧ ∀ x ∈ D, x ∈ l := by
  obtain ⟨D, hD, hmem⟩ := flat_climb l.length (l.map HashTree.leaf)
  have hid : (l.map HashTree.leaf).flatMap HashTree.leaves = l := by
    simp [List.flatMap_map, HashTree.leaves]
  have ht : climb HashTree.node l.length (l.map HashTree.leaf) = [t] := ht
  rw [ht, hid] at hD
  rw [hid] at hmem
  exact ⟨D, by simpa using hD, hmem⟩

/-- **The root determines a list without repetitions.** -/
theorem merkleRoot_inj (hinj : ∀ ⦃a b c d⦄, P a b → P c d → h a b = h c d → a = c ∧ b = d)
    (hleaf : ∀ ⦃x a b⦄, L x → P a b → x ≠ h a b) (hne : l ≠ []) (hne' : l' ≠ []) (hnd : l.Nodup)
    (hnd' : l'.Nodup) (hL : ∀ x ∈ l, L x) (hL' : ∀ x ∈ l', L x)
    (hP : ∀ p ∈ merklePairs h l, P p.1 p.2) (hP' : ∀ p ∈ merklePairs h l', P p.1 p.2)
    (heq : merkleRoot h l = merkleRoot h l') : l = l' := by
  obtain ⟨t, ht⟩ := exists_rootTree hne
  obtain ⟨t', ht'⟩ := exists_rootTree hne'
  obtain ⟨D, hD, hmem⟩ := leaves_rootTree ht
  obtain ⟨D', hD', hmem'⟩ := leaves_rootTree ht'
  have hleaves : ∀ x ∈ t.leaves, L x := by
    intro x hx
    rw [hD, List.mem_append] at hx
    exact hL x (hx.elim id (hmem x))
  have hleaves' : ∀ x ∈ t'.leaves, L x := by
    intro x hx
    rw [hD', List.mem_append] at hx
    exact hL' x (hx.elim id (hmem' x))
  rw [merklePairs, ht] at hP
  rw [merklePairs, ht'] at hP'
  rw [merkleRoot_eq_eval ht, merkleRoot_eq_eval ht', Option.some.injEq] at heq
  obtain rfl := HashTree.eval_inj hinj hleaf hleaves hleaves' (by simpa using hP)
    (by simpa using hP') heq
  exact eq_of_append_copies hnd hnd' hmem hmem' (hD.symm.trans hD')

/-! ## 4. One leaf and its way up -/

/-- The way up from a hash: with each other side, and whether that is the left one. -/
def ascend (h : α → α → α) (x : α) (steps : List (Bool × α)) : α :=
  steps.foldl (fun y s => if s.1 then h s.2 y else h y s.2) x

/-- The pairs that are hashed on the way. -/
def ascendPairs (h : α → α → α) : α → List (Bool × α) → List (α × α)
  | _, [] => []
  | x, (true, y) :: steps => (y, x) :: ascendPairs h (h y x) steps
  | x, (false, y) :: steps => (x, y) :: ascendPairs h (h x y) steps

theorem ascend_concat (h : α → α → α) (x : α) (steps : List (Bool × α)) (s : Bool × α) :
    ascend h x (steps ++ [s]) =
      if s.1 then h s.2 (ascend h x steps) else h (ascend h x steps) s.2 := by
  rw [ascend, List.foldl_append]
  rfl

theorem ascendPairs_concat (h : α → α → α) (s : Bool × α) :
    ∀ (steps : List (Bool × α)) (x : α), ascendPairs h x (steps ++ [s]) =
      ascendPairs h x steps ++
        [if s.1 then (s.2, ascend h x steps) else (ascend h x steps, s.2)]
  | [], x => by
    obtain ⟨b, y⟩ := s
    cases b <;> rfl
  | (true, y) :: steps, x => by
    rw [List.cons_append, ascendPairs, ascendPairs_concat h s steps]
    rfl
  | (false, y) :: steps, x => by
    rw [List.cons_append, ascendPairs, ascendPairs_concat h s steps]
    rfl

/-- **A hash that leads up to the value of a formula is a leaf of it**, whatever the other sides
are: the last pair is the formula's own, so that the rest of the way ends at one of its halves. -/
theorem mem_leaves_of_ascend (hinj : ∀ ⦃a b c d⦄, P a b → P c d → h a b = h c d → a = c ∧ b = d)
    (hleaf : ∀ ⦃x a b⦄, L x → P a b → x ≠ h a b) {x : α} (hx : L x) :
    ∀ (steps : List (Bool × α)) {t : HashTree α}, (∀ y ∈ t.leaves, L y) →
      (∀ p ∈ t.pairs h, P p.1 p.2) → (∀ p ∈ ascendPairs h x steps, P p.1 p.2) →
      ascend h x steps = t.eval h → x ∈ t.leaves := by
  intro steps
  induction steps using List.reverseRecOn with
  | nil =>
    intro t _ hpairs _ heq
    cases t with
    | leaf a => exact List.mem_singleton.mpr heq
    | node l r => exact absurd heq (hleaf hx (hpairs _ List.mem_cons_self))
  | append_singleton steps s ih =>
    intro t hleaves hpairs hsteps heq
    rw [ascend_concat] at heq
    rw [ascendPairs_concat] at hsteps
    obtain ⟨hsteps, hlast⟩ := List.forall_mem_append.mp hsteps
    have hlast := hlast _ (List.mem_singleton_self _)
    cases t with
    | leaf a =>
      have ha : L a := hleaves a (List.mem_singleton_self a)
      cases hs : s.1 with
      | true =>
        simp only [hs, if_true] at heq hlast
        exact absurd heq.symm (hleaf ha hlast)
      | false =>
        simp only [hs, Bool.false_eq_true, if_false] at heq hlast
        exact absurd heq.symm (hleaf ha hlast)
    | node l r =>
      simp only [HashTree.leaves, List.forall_mem_append] at hleaves
      simp only [HashTree.pairs, List.forall_mem_cons, List.forall_mem_append] at hpairs
      obtain ⟨hown, hl, hr⟩ := hpairs
      cases hs : s.1 with
      | true =>
        simp only [hs, if_true] at heq hlast
        exact List.mem_append_right _ (ih hleaves.2 hr hsteps (hinj hlast hown heq).2)
      | false =>
        simp only [hs, Bool.false_eq_true, if_false] at heq hlast
        exact List.mem_append_left _ (ih hleaves.1 hl hsteps (hinj hlast hown heq).1)

/-- **What leads up to the root of a list is in the list.** -/
theorem mem_of_ascend (hinj : ∀ ⦃a b c d⦄, P a b → P c d → h a b = h c d → a = c ∧ b = d)
    (hleaf : ∀ ⦃x a b⦄, L x → P a b → x ≠ h a b) {x : α} (hx : L x) (hne : l ≠ [])
    (hL : ∀ y ∈ l, L y) (hP : ∀ p ∈ merklePairs h l, P p.1 p.2) {steps : List (Bool × α)}
    (hsteps : ∀ p ∈ ascendPairs h x steps, P p.1 p.2)
    (heq : merkleRoot h l = some (ascend h x steps)) : x ∈ l := by
  obtain ⟨t, ht⟩ := exists_rootTree hne
  obtain ⟨D, hD, hmem⟩ := leaves_rootTree ht
  have hcopies : ∀ y ∈ t.leaves, y ∈ l := by
    intro y hy
    rw [hD, List.mem_append] at hy
    exact hy.elim id (hmem y)
  rw [merklePairs, ht] at hP
  rw [merkleRoot_eq_eval ht, Option.some_inj] at heq
  exact hcopies x (mem_leaves_of_ascend hinj hleaf hx steps (fun y hy => hL y (hcopies y hy))
    (by simpa using hP) hsteps heq.symm)

/-- A repetition may stay unseen. -/
example (h : α → α → α) (a b c : α) : merkleRoot h [a, b, c] = merkleRoot h [a, b, c, c] := rfl

end Lib
