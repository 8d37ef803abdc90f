/-
# Ledgers of outputs that are created and consumed

A ledger in the unspent-output style knows one thing: the set of outputs that exist and have
not been consumed.  A `Move` consumes some of them and creates others.  A history is a list
of moves, the NEWEST FIRST, and `unspent` is the set it leaves.  A move is `Ok` in a set when
it consumes distinct members and creates distinct non-members, and a history is `Valid` when
each move was `Ok` in what the older ones left.

`Ok` does not forbid creating an output again after it was consumed.  That is deliberate: it
is what a node enforces that lets an identifier be reused once everything under it is spent.
The price is that "an output is consumed at most once" needs one more premise, that no output
is created twice (`consumed_nodup`).

* `sum_apply`: the total of any valuation moves by what is created less what is consumed;
* `undo_apply`: giving back the inputs and removing the outputs restores the set;
* `consumed_nodup`, `mem_created_of_mem_consumed`: no double spend, no spend from nothing.
-/
import Mathlib.Algebra.BigOperators.Group.Finset.Basic
import Mathlib.Tactic

namespace Lib

variable {O : Type} [DecidableEq O]

/-- One entry of a history: the outputs it consumes and the outputs it creates. -/
structure Move (O : Type) where
  ins : List O
  outs : List O

namespace Move

/-- What the move leaves of an unspent set. -/
def apply (m : Move O) (U : Finset O) : Finset O := (U \ m.ins.toFinset) ∪ m.outs.toFinset

/-- The move consumes distinct unspent outputs and creates distinct new ones. -/
structure Ok (m : Move O) (U : Finset O) : Prop where
  nodup_ins : m.ins.Nodup
  ins_mem : ∀ o ∈ m.ins, o ∈ U
  nodup_outs : m.outs.Nodup
  outs_fresh : ∀ o ∈ m.outs, o ∉ U

variable {m : Move O} {U : Finset O}

theorem mem_apply {o : O} :
    o ∈ m.apply U ↔ (o ∈ U ∧ o ∉ m.ins) ∨ o ∈ m.outs := by
  simp [apply]

/-- **Conservation.**  A valuation's total over the unspent set changes by exactly the value
created less the value consumed. -/
theorem Ok.sum_apply {M : Type} [AddCommGroup M] (h : m.Ok U) (v : O → M) :
    ∑ o ∈ m.apply U, v o = ∑ o ∈ U, v o - (m.ins.map v).sum + (m.outs.map v).sum := by
  have hdisj : Disjoint (U \ m.ins.toFinset) m.outs.toFinset := by
    rw [Finset.disjoint_right]
    intro o ho hmem
    exact h.outs_fresh o (List.mem_toFinset.mp ho) (Finset.mem_sdiff.mp hmem).1
  have hsub : m.ins.toFinset ⊆ U := fun o ho => h.ins_mem o (List.mem_toFinset.mp ho)
  have hins : ∑ o ∈ m.ins.toFinset, v o = (m.ins.map v).sum :=
    List.sum_toFinset v h.nodup_ins
  have houts : ∑ o ∈ m.outs.toFinset, v o = (m.outs.map v).sum :=
    List.sum_toFinset v h.nodup_outs
  rw [apply, Finset.sum_union hdisj, houts, ← hins]
  have hsplit := Finset.sum_sdiff (f := v) hsub
  rw [← hsplit]
  abel

/-- **Undoing a move restores the set**, whatever is removed along with its outputs, as long
as that was not unspent before. -/
theorem Ok.undo_apply (h : m.Ok U) {R : O → Prop} [DecidablePred R] (houts : ∀ o ∈ m.outs, R o)
    (hR : ∀ o ∈ U, ¬ R o) :
    ((m.apply U) ∪ m.ins.toFinset).filter (fun o => ¬ R o) = U := by
  ext o
  simp only [Finset.mem_filter, Finset.mem_union, mem_apply, List.mem_toFinset]
  constructor
  · rintro ⟨(⟨hU, -⟩ | ho) | hi, hn⟩
    · exact hU
    · exact absurd (houts o ho) hn
    · exact h.ins_mem o hi
  · intro hU
    refine ⟨?_, hR o hU⟩
    by_cases hi : o ∈ m.ins
    · exact Or.inr hi
    · exact Or.inl (Or.inl ⟨hU, hi⟩)

end Move

/-- The unspent set a history (newest move first) leaves. -/
def unspent : List (Move O) → Finset O
  | [] => ∅
  | m :: h => m.apply (unspent h)

/-- Every move of the history was in order when it was made. -/
def Valid : List (Move O) → Prop
  | [] => True
  | m :: h => m.Ok (unspent h) ∧ Valid h

/-- Every output a history created, with repetitions. -/
def created (h : List (Move O)) : List O := h.flatMap Move.outs

/-- Every output a history consumed, with repetitions. -/
def consumed (h : List (Move O)) : List O := h.flatMap Move.ins

omit [DecidableEq O] in
@[simp] theorem created_cons (m : Move O) (h : List (Move O)) :
    created (m :: h) = m.outs ++ created h := by simp [created]

omit [DecidableEq O] in
@[simp] theorem consumed_cons (m : Move O) (h : List (Move O)) :
    consumed (m :: h) = m.ins ++ consumed h := by simp [consumed]

variable {o : O}

theorem mem_created_of_mem_unspent :
    ∀ {h : List (Move O)}, o ∈ unspent h → o ∈ created h
  | [], ho => by simp [unspent] at ho
  | m :: h, ho => by
    rw [created_cons, List.mem_append]
    rcases Move.mem_apply.mp ho with ⟨hU, -⟩ | ho
    · exact Or.inr (mem_created_of_mem_unspent hU)
    · exact Or.inl ho

/-- **No spend from nothing**: a consumed output was created. -/
theorem mem_created_of_mem_consumed :
    ∀ {h : List (Move O)}, Valid h → o ∈ consumed h → o ∈ created h
  | [], _, ho => by simp [consumed] at ho
  | m :: h, hv, ho => by
    rw [created_cons, List.mem_append]
    rw [consumed_cons, List.mem_append] at ho
    rcases ho with ho | ho
    · exact Or.inr (mem_created_of_mem_unspent (hv.1.ins_mem o ho))
    · exact Or.inr (mem_created_of_mem_consumed hv.2 ho)

/-- What was created and is no longer there has been consumed. -/
theorem mem_consumed_of_not_unspent :
    ∀ {h : List (Move O)}, o ∈ created h → o ∉ unspent h → o ∈ consumed h
  | [], ho, _ => by simp [created] at ho
  | m :: h, ho, hn => by
    have hn' : ¬ (o ∈ unspent h ∧ o ∉ m.ins) ∧ o ∉ m.outs := by
      rw [← not_or]
      exact fun hm => hn (Move.mem_apply.mpr hm)
    rw [created_cons, List.mem_append] at ho
    rw [consumed_cons, List.mem_append]
    rcases ho with ho | ho
    · exact absurd ho hn'.2
    · by_cases hi : o ∈ m.ins
      · exact Or.inl hi
      · exact Or.inr (mem_consumed_of_not_unspent ho fun hu => hn'.1 ⟨hu, hi⟩)

/-- When nothing is created twice, what was consumed is gone for good. -/
theorem not_mem_unspent_of_consumed :
    ∀ {h : List (Move O)}, Valid h → (created h).Nodup → o ∈ consumed h → o ∉ unspent h
  | [], _, _, ho => by simp [consumed] at ho
  | m :: h, hv, hnd, ho => by
    rw [created_cons, List.nodup_append] at hnd
    rw [consumed_cons, List.mem_append] at ho
    intro hu
    rcases Move.mem_apply.mp hu with ⟨hU, hi⟩ | hout
    · rcases ho with ho | ho
      · exact hi ho
      · exact not_mem_unspent_of_consumed hv.2 hnd.2.1 ho hU
    · rcases ho with ho | ho
      · exact hv.1.outs_fresh o hout (hv.1.ins_mem o ho)
      · exact hnd.2.2 o hout o (mem_created_of_mem_consumed hv.2 ho) rfl

/-- **No double spend**: when nothing is created twice, nothing is consumed twice. -/
theorem consumed_nodup :
    ∀ {h : List (Move O)}, Valid h → (created h).Nodup → (consumed h).Nodup
  | [], _, _ => by simp [consumed]
  | m :: h, hv, hnd => by
    have hnd' : (created h).Nodup := by
      rw [created_cons, List.nodup_append] at hnd
      exact hnd.2.1
    rw [consumed_cons, List.nodup_append]
    refine ⟨hv.1.nodup_ins, consumed_nodup hv.2 hnd', ?_⟩
    rintro o ho _ ho' rfl
    exact not_mem_unspent_of_consumed hv.2 hnd' ho' (hv.1.ins_mem o ho)

end Lib
