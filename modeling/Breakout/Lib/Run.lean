/-
# Functions that refuse, throw, or read out of bounds

A validation routine in C++ leaves in one of four ways: it returns success, it returns
`false` (perhaps after raising a misbehaviour score), an exception passes through it, or it
indexes a table outside its bounds, after which nothing it does has a meaning.  `Run α` is a
computation that ends in one of these ways.  Everything a development wants to know about a
successful run is got by peeling it bind by bind (`bind_eq_ok`, `refuse_eq_ok`); a routine
whose body is a chain of `refuse` lines therefore never has to be unfolded twice.
-/
import Mathlib.Tactic

namespace Lib

/-- How a validation routine ends when it does not succeed. -/
inductive Stop where
  /-- `return false`, with the misbehaviour score it reports and the text it logs. -/
  | reject (nDoS : Nat) (msg : String)
  /-- An exception leaves the routine. -/
  | throw (msg : String)
  /-- A table or vector is read or written at an index it does not have. -/
  | oob (index : Int)
deriving DecidableEq, Repr

/-- A routine that succeeds with a value or stops. -/
abbrev Run (α : Type) := Except Stop α

/-- `if (c) return DoS(nDoS, error(msg));` -/
def refuse (c : Prop) [Decidable c] (nDoS : Nat) (msg : String) : Run Unit :=
  if c then .error (.reject nDoS msg) else .ok ()

/-- Whether the routine succeeded: the `bool` the C++ routine returns. -/
def Run.accepts {α : Type} (r : Run α) : Bool :=
  match r with
  | .ok _ => true
  | .error _ => false

variable {α β : Type}

variable {c : Prop} {n : Nat} {msg : String} {x : Run α} {f : α → Run β} {a : α}

@[simp] theorem refuse_eq_ok [Decidable c] {u : Unit} :
    refuse c n msg = .ok u ↔ ¬ c := by
  unfold refuse
  split <;> simp_all

@[simp] theorem bind_eq_ok {b : β} :
    (x >>= f) = .ok b ↔ ∃ a, x = .ok a ∧ f a = .ok b := by
  cases x <;> simp [bind, Except.bind]

theorem ok_bind (a : α) (f : α → Run β) : ((.ok a : Run α) >>= f) = f a := rfl

@[simp] theorem pure_eq_ok {b : α} : (pure a : Run α) = .ok b ↔ a = b := by
  simp [pure, Except.pure]

@[simp] theorem accepts_ok (a : α) : Run.accepts (.ok a : Run α) = true := rfl

@[simp] theorem accepts_error (e : Stop) : Run.accepts (.error e : Run α) = false := rfl

theorem accepts_iff {r : Run α} : r.accepts = true ↔ ∃ a, r = .ok a := by
  cases r <;> simp

/-! ## Rounds -/

/-- **A routine whose rounds all succeed** succeeds, and keeps what each round keeps. -/
theorem foldlM_ok {f : α → β → Run α} {P : α → Prop} (l : List β)
    (hround : ∀ a, ∀ b ∈ l, P a → ∃ a', f a b = .ok a' ∧ P a') (ha : P a) :
    ∃ a', l.foldlM f a = .ok a' ∧ P a' := by
  induction l generalizing a with
  | nil => exact ⟨a, rfl, ha⟩
  | cons b rest ih =>
    obtain ⟨a', hb, ha'⟩ := hround a b List.mem_cons_self ha
    rw [List.foldlM_cons, hb]
    exact ih (fun a b hmem => hround a b (List.mem_cons_of_mem _ hmem)) ha'

/-- With the number of the round. -/
theorem foldlM_range_ok {f : α → Nat → Run α} {P : Nat → α → Prop} (n : Nat)
    (hround : ∀ i < n, ∀ a, P i a → ∃ a', f a i = .ok a' ∧ P (i + 1) a') {a : α} (ha : P 0 a) :
    ∃ a', (List.range n).foldlM f a = .ok a' ∧ P n a' := by
  induction n with
  | zero => exact ⟨a, rfl, ha⟩
  | succ n ih =>
    obtain ⟨b, hfold, hb⟩ := ih fun i hi => hround i (by omega)
    obtain ⟨c, hlast, hc⟩ := hround n (by omega) b hb
    refine ⟨c, ?_, hc⟩
    rw [List.range_succ, List.foldlM_append, hfold]
    change [n].foldlM f b = .ok c
    rw [List.foldlM_cons, hlast]
    rfl

/-! ## In bounds -/

/-- The routine does not stop at an index outside a table. -/
def InBounds (r : Run α) : Prop := ∀ i, r ≠ .error (.oob i)

@[simp] theorem inBounds_ok (a : α) : InBounds (.ok a : Run α) := fun _ => nofun

@[simp] theorem inBounds_refuse [Decidable c] :
    InBounds (refuse c n msg) := by
  intro i
  unfold refuse
  split <;> simp

@[simp] theorem not_inBounds_oob (i : Int) : ¬ InBounds (.error (.oob i) : Run α) :=
  fun h => h i rfl

/-- A sequence is in bounds when its first part is, and its second part after every way the
first can succeed. -/
theorem inBounds_bind :
    InBounds (x >>= f) ↔ InBounds x ∧ ∀ a, x = .ok a → InBounds (f a) := by
  cases x <;> simp [InBounds, bind, Except.bind]

/-! ## Two routines in step

A routine that makes checks another one leaves out: it succeeds when the other does and a
guard `G` holds, and then with a related result.  The guard of a sequence is the conjunction of
the guards of its parts, so the checks that were left out add up. -/

section InStep

variable {α' β' : Type} {G G' : Prop} {R : α → α' → Prop} {S : β → β' → Prop}

/-- `r` succeeds exactly when `r'` does and `G` holds, with results related by `R`. -/
structure InStep (G : Prop) (R : α → α' → Prop) (r : Run α) (r' : Run α') : Prop where
  down : ∀ a, r = .ok a → G ∧ ∃ b, r' = .ok b ∧ R a b
  up : ∀ b, r' = .ok b → G → ∃ a, r = .ok a ∧ R a b

theorem InStep.ok {a : α} {b : α'} (h : R a b) : InStep True R (.ok a) (.ok b) := by
  constructor
  · rintro _ ⟨⟩
    exact ⟨trivial, b, rfl, h⟩
  · rintro _ ⟨⟩ -
    exact ⟨a, rfl, h⟩

theorem InStep.error (e e' : Stop) : InStep G R (.error e) (.error e') := by
  constructor
  · rintro _ ⟨⟩
  · rintro _ ⟨⟩

variable {r x : Run α} {r' x' : Run α'} {f : α → Run β} {f' : α' → Run β'}

theorem InStep.of_eq {r' : Run α} (h : r = r') : InStep True Eq r r' :=
  ⟨fun a ha => ⟨trivial, a, h ▸ ha, rfl⟩, fun a ha _ => ⟨a, h ▸ ha, rfl⟩⟩

theorem InStep.congr (h : InStep G R r r') (hG : G ↔ G') :
    InStep G' R r r' :=
  ⟨fun a ha => ⟨hG.mp (h.down a ha).1, (h.down a ha).2⟩, fun b hb hg => h.up b hb (hG.mpr hg)⟩

/-- The same check in both. -/
theorem InStep.refuse {c c' : Prop} [Decidable c] [Decidable c'] {n n' : Nat} {msg msg' : String}
    (h : c ↔ c') : InStep True (fun _ _ => ¬ c) (refuse c n msg) (refuse c' n' msg') := by
  constructor
  · intro a ha
    have hc := refuse_eq_ok.mp ha
    exact ⟨trivial, a, refuse_eq_ok.mpr (h.not.mp hc), hc⟩
  · intro a ha _
    have hc := h.not.mpr (refuse_eq_ok.mp ha)
    exact ⟨a, refuse_eq_ok.mpr hc, hc⟩

/-- One part after another. -/
theorem InStep.bind (hx : InStep G R x x') (hf : ∀ a b, R a b → InStep G' S (f a) (f' b)) :
    InStep (G ∧ G') S (x >>= f) (x' >>= f') := by
  constructor
  · intro c hc
    obtain ⟨a, ha, hfa⟩ := bind_eq_ok.mp hc
    obtain ⟨hg, b, hb, hab⟩ := hx.down a ha
    obtain ⟨hg', d, hd, hcd⟩ := (hf a b hab).down c hfa
    exact ⟨⟨hg, hg'⟩, d, bind_eq_ok.mpr ⟨b, hb, hd⟩, hcd⟩
  · intro d hd hg
    obtain ⟨b, hb, hfb⟩ := bind_eq_ok.mp hd
    obtain ⟨a, ha, hab⟩ := hx.up b hb hg.1
    obtain ⟨c, hc, hcd⟩ := (hf a b hab).up d hfb hg.2
    exact ⟨c, bind_eq_ok.mpr ⟨a, ha, hc⟩, hcd⟩

/-- A part without a check of its own. -/
theorem InStep.then (hx : InStep True R x x') (hf : ∀ a b, R a b → InStep G S (f a) (f' b)) :
    InStep G S (x >>= f) (x' >>= f') :=
  (hx.bind hf).congr (iff_of_eq (true_and G))

/-- A part after which nothing more is checked. -/
theorem InStep.last {x : Run α} {x' : Run α'} {f : α → Run β} {f' : α' → Run β'}
    (hx : InStep G R x x') (hf : ∀ a b, R a b → InStep True S (f a) (f' b)) :
    InStep G S (x >>= f) (x' >>= f') :=
  (hx.bind hf).congr (iff_of_eq (and_true G))

/-- A check that only the first makes. -/
theorem InStep.guard {c : Prop} [Decidable c] {n : Nat} {msg : String} {f : Unit → Run β}
    {r' : Run β'} (h : InStep G S (f ()) r') :
    InStep (¬ c ∧ G) S (Lib.refuse c n msg >>= f) r' := by
  constructor
  · intro a ha
    obtain ⟨_, hc, hfa⟩ := bind_eq_ok.mp ha
    exact ⟨⟨refuse_eq_ok.mp hc, (h.down a hfa).1⟩, (h.down a hfa).2⟩
  · intro b hb hg
    obtain ⟨a, ha, hab⟩ := h.up b hb hg.2
    exact ⟨a, bind_eq_ok.mpr ⟨(), refuse_eq_ok.mpr hg.1, ha⟩, hab⟩

/-- A part that only the first has, and that always succeeds. -/
theorem InStep.skip {a : α} {r' : Run β'} (hx : x = .ok a) (h : InStep G S (f a) r') :
    InStep G S (x >>= f) r' := by
  rw [hx]
  exact h

theorem InStep.accepts_iff (h : InStep G R r r') :
    r.accepts = true ↔ r'.accepts = true ∧ G := by
  rw [Lib.accepts_iff, Lib.accepts_iff]
  constructor
  · rintro ⟨a, ha⟩
    obtain ⟨hg, b, hb, -⟩ := h.down a ha
    exact ⟨⟨b, hb⟩, hg⟩
  · rintro ⟨⟨b, hb⟩, hg⟩
    obtain ⟨a, ha, -⟩ := h.up b hb hg
    exact ⟨a, ha⟩

end InStep

end Lib
