/-
# Files that records are appended to

A file is its records one after another.  An index over it is made by going through the records with the
offset of each; appending a record adds one entry (`overRecords_snoc`), and reading at the offset of a
record finds it (`drop_records`).  An index that is kept while records are appended is therefore the one
that going through the file makes.
-/
import Mathlib.Tactic

namespace Lib

variable {ρ σ : Type} (enc : ρ → List UInt8)

/-- The bytes of a file. -/
def records (l : List ρ) : List UInt8 := l.flatMap enc

/-- `f` over the records, with the offset of each. -/
def overRecords (f : Nat → ρ → σ → σ) : Nat → List ρ → σ → σ
  | _, [], s => s
  | ofs, m :: l, s => overRecords f (ofs + (enc m).length) l (f ofs m s)

variable {enc} {f : Nat → ρ → σ → σ} {l : List ρ} {m : ρ}

@[simp] theorem records_nil : records enc [] = [] := rfl

@[simp] theorem records_cons : records enc (m :: l) = enc m ++ records enc l := rfl

theorem records_append (l l' : List ρ) : records enc (l ++ l') = records enc l ++ records enc l' :=
  List.flatMap_append

/-- **A record more is an entry more.** -/
theorem overRecords_snoc : ∀ {l : List ρ} {ofs : Nat} {s : σ},
    overRecords enc f ofs (l ++ [m]) s =
      f (ofs + (records enc l).length) m (overRecords enc f ofs l s)
  | [], _, _ => rfl
  | r :: l, ofs, s => by
    rw [List.cons_append, overRecords, overRecords_snoc, records_cons, List.length_append,
      Nat.add_assoc]
    rfl

/-- **Reading at the offset of a record finds it.** -/
theorem drop_records (pre post : List ρ) :
    (records enc (pre ++ m :: post)).drop (records enc pre).length = enc m ++ records enc post := by
  rw [records_append, List.drop_left' rfl, records_cons]

/-- What is in an index that only adds entries was made from a record at its offset. -/
theorem of_mem_overRecords {τ : Type} (make : ρ → Nat → τ) {add : τ → List τ → List τ}
    (hadd : ∀ {t x : τ} {s : List τ}, t ∈ add x s → t = x ∨ t ∈ s) {t : τ} :
    ∀ {l : List ρ} {ofs : Nat} {s : List τ},
      t ∈ overRecords enc (fun ofs m => add (make m ofs)) ofs l s →
        t ∈ s ∨ ∃ pre m post, l = pre ++ m :: post ∧ t = make m (ofs + (records enc pre).length)
  | [], _, _, h => Or.inl h
  | r :: l, ofs, s, h => by
    rcases of_mem_overRecords make hadd (l := l) h with h | ⟨pre, m, post, rfl, ht⟩
    · rcases hadd h with rfl | h
      · exact Or.inr ⟨[], r, l, rfl, rfl⟩
      · exact Or.inl h
    · refine Or.inr ⟨r :: pre, m, post, rfl, ?_⟩
      rw [ht, records_cons, List.length_append, Nat.add_assoc]

end Lib
