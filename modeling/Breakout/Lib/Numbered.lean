/-
# Numbered records

A store keeps a growing list as records numbered from one, with the number of the last in a record
of its own.  The list is written here with the NEWEST FIRST, so that the number of an element is
the length of the list that starts with it, adding a record is `::` and removing the last is
`tail`.

* `numbered l` is the table of the records of `l`, and `Counted` a counter with such a table;
  `Counted.push` and `Counted.pop` are the steps by which a program keeps them;
* `numbered_isSome` says that the numbers are those from one to the length;
* `sum_numbered` is a sum over the records as the sum over the list;
* `numberOf key l` is the table that finds a record's number by its key;
* `rewriteAt` changes the record with a key.
-/
import Mathlib.Algebra.BigOperators.Group.Finset.Basic
import Mathlib.Order.Interval.Finset.Basic
import Mathlib.Tactic

namespace Lib

variable {α κ : Type}

/-- The records of a list, newest first, by their number. -/
def numbered : List α → Int → Option α
  | [], _ => none
  | a :: l, k => if k = l.length + 1 then some a else numbered l k

@[simp] theorem numbered_nil (k : Int) : numbered ([] : List α) k = none := rfl

theorem numbered_self (a : α) (l : List α) : numbered (a :: l) (l.length + 1) = some a :=
  if_pos rfl

variable {k : Int}

theorem numbered_cons_of_ne {a : α} {l : List α} (h : k ≠ l.length + 1) :
    numbered (a :: l) k = numbered l k :=
  if_neg h

theorem numbered_of_gt {l : List α} (h : l.length < k) : numbered l k = none := by
  induction l with
  | nil => rfl
  | cons a l ih =>
    rw [List.length_cons] at h
    push_cast at h
    rw [numbered_cons_of_ne (by omega)]
    exact ih (by omega)

theorem numbered_cons_of_some {a b : α} {l : List α} (h : numbered l k = some b) :
    numbered (a :: l) k = some b := by
  rw [numbered_cons_of_ne, h]
  rintro rfl
  rw [numbered_of_gt (by omega)] at h
  cases h

/-- **The numbers in use are those from one to the length.** -/
theorem numbered_isSome {l : List α} :
    (numbered l k).isSome = true ↔ 1 ≤ k ∧ k ≤ l.length := by
  induction l with
  | nil =>
    simp only [numbered_nil, Option.isSome_none, Bool.false_eq_true, List.length_nil, false_iff]
    omega
  | cons a l ih =>
    rw [List.length_cons]
    push_cast
    by_cases hk : k = l.length + 1
    · subst hk
      rw [numbered_self]
      simp only [Option.isSome_some, true_iff]
      omega
    · rw [numbered_cons_of_ne hk, ih]
      omega

theorem exists_numbered {l : List α} {a : α} (h : a ∈ l) :
    ∃ k : Int, 1 ≤ k ∧ numbered l k = some a := by
  induction l with
  | nil => cases h
  | cons b l ih =>
    rcases List.mem_cons.mp h with rfl | h
    · exact ⟨l.length + 1, by omega, numbered_self _ l⟩
    · obtain ⟨k, hk, hnum⟩ := ih h
      exact ⟨k, hk, numbered_cons_of_some hnum⟩

theorem exists_of_numbered {l : List α} {a : α} (h : numbered l k = some a) :
    a ∈ l := by
  induction l with
  | nil => cases h
  | cons b l ih =>
    by_cases hk : k = l.length + 1
    · subst hk
      rw [numbered_self] at h
      cases h
      exact List.mem_cons_self
    · rw [numbered_cons_of_ne hk] at h
      exact List.mem_cons_of_mem _ (ih h)

/-- A sum over numbered records is the sum over the list. -/
theorem sum_numbered {α : Type} (f : α → Int) (l : List α) :
    ∑ k ∈ Finset.Icc 1 (l.length : Int), ((numbered l k).map f).getD 0 = (l.map f).sum := by
  induction l with
  | nil => rfl
  | cons a l ih =>
    have hicc : Finset.Icc 1 ((a :: l).length : Int) =
        insert ((l.length : Int) + 1) (Finset.Icc 1 (l.length : Int)) := by
      ext k
      simp only [List.length_cons, Finset.mem_Icc, Finset.mem_insert]
      push_cast
      omega
    have hnot : (l.length : Int) + 1 ∉ Finset.Icc 1 (l.length : Int) := by
      simp
    rw [hicc, Finset.sum_insert hnot, numbered_self, List.map_cons, List.sum_cons, ← ih]
    congr 1
    refine Finset.sum_congr rfl fun k hk => ?_
    rw [numbered_cons_of_ne]
    rintro rfl
    exact hnot hk

/-- Adding a record under the next number. -/
theorem update_numbered (a : α) (l : List α) :
    Function.update (numbered l) (l.length + 1) (some a) = numbered (a :: l) := by
  funext k
  by_cases hk : k = l.length + 1
  · subst hk
    rw [Function.update_self, numbered_self]
  · rw [Function.update_of_ne hk, numbered_cons_of_ne hk]

theorem update_numbered_none (a : α) (l : List α) :
    Function.update (numbered (a :: l)) (l.length + 1) none = numbered l := by
  rw [← update_numbered, Function.update_idem]
  exact Function.update_eq_self_iff.mpr (numbered_of_gt (by omega)).symm

theorem update_numbered_last (a b : α) (l : List α) :
    Function.update (numbered (a :: l)) (l.length + 1) (some b) = numbered (b :: l) := by
  rw [← update_numbered, Function.update_idem, update_numbered]

/-! ## A counter and its records -/

/-- A counter record, read as zero where there is none, and a table that hold a list. -/
structure Counted (qty : Option Int) (table : Int → Option α) (l : List α) : Prop where
  qty : qty.getD 0 = l.length
  table : table = numbered l

namespace Counted

variable {qty : Option Int} {table : Int → Option α} {a b : α} {l : List α}

theorem not_neg (h : Counted qty table l) : ¬ qty.getD 0 < 0 := by
  rw [h.qty]
  omega

theorem next_none (h : Counted qty table l) : table (qty.getD 0 + 1) = none := by
  rw [h.qty, h.table]
  exact numbered_of_gt (by omega)

theorem last (h : Counted qty table (a :: l)) : table (qty.getD 0) = some a := by
  rw [h.qty, h.table, List.length_cons]
  exact numbered_self a l

theorem qty_cons (h : Counted qty table (a :: l)) : qty.getD 0 = l.length + 1 := by
  rw [h.qty, List.length_cons]
  rfl

theorem push (h : Counted qty table l) (a : α) :
    Counted (some (qty.getD 0 + 1)) (Function.update table (qty.getD 0 + 1) (some a))
      (a :: l) := by
  refine ⟨by simp [h.qty], ?_⟩
  rw [h.qty, h.table]
  exact update_numbered a l

theorem pop (h : Counted qty table (a :: l)) :
    Counted (some (qty.getD 0 - 1)) (Function.update table (qty.getD 0) none) l := by
  refine ⟨by simp [h.qty], ?_⟩
  rw [h.qty, h.table, List.length_cons]
  exact update_numbered_none a l

theorem rewrite (h : Counted qty table (a :: l)) (b : α) :
    Counted qty (Function.update table (qty.getD 0) (some b)) (b :: l) := by
  refine ⟨by rw [h.qty, List.length_cons, List.length_cons], ?_⟩
  rw [h.qty, h.table, List.length_cons]
  exact update_numbered_last a b l

end Counted

/-! ## Records by a key -/

variable [DecidableEq κ] (key : α → κ)

/-- The number of the newest record with a key. -/
def numberOf : List α → κ → Option Int
  | [], _ => none
  | a :: l, x => if key a = x then some (l.length + 1) else numberOf l x

variable {key}

theorem numberOf_eq_none {l : List α} {x : κ} : numberOf key l x = none ↔ ∀ a ∈ l, key a ≠ x := by
  induction l with
  | nil => simp [numberOf]
  | cons a l ih =>
    rw [numberOf]
    split
    · next h =>
      simp only [reduceCtorEq, List.forall_mem_cons, false_iff, not_and]
      exact fun hne => absurd h hne
    · next h =>
      rw [ih, List.forall_mem_cons]
      exact ⟨fun hall => ⟨h, hall⟩, fun hall => hall.2⟩

/-- **A number found by a key is that of a record with the key.** -/
theorem numbered_of_numberOf {l : List α} {x : κ} {k : Int} (h : numberOf key l x = some k) :
    1 ≤ k ∧ ∃ a ∈ l, numbered l k = some a ∧ key a = x := by
  induction l with
  | nil => cases h
  | cons a l ih =>
    rw [numberOf] at h
    split at h
    · next hkey =>
      cases h
      exact ⟨by omega, a, List.mem_cons_self, numbered_self a l, hkey⟩
    · obtain ⟨hk, b, hb, hnum, hkey⟩ := ih h
      exact ⟨hk, b, List.mem_cons_of_mem _ hb, numbered_cons_of_some hnum, hkey⟩

/-- Where keys are not repeated, a record is found by its key. -/
theorem numberOf_of_numbered {l : List α} (hnd : (l.map key).Nodup) {k : Int} {a : α}
    (h : numbered l k = some a) : numberOf key l (key a) = some k := by
  induction l with
  | nil => cases h
  | cons b l ih =>
    rw [List.map_cons, List.nodup_cons] at hnd
    by_cases hk : k = l.length + 1
    · subst hk
      rw [numbered_self] at h
      cases h
      exact if_pos rfl
    · rw [numbered_cons_of_ne hk] at h
      have hne : key b ≠ key a := fun he => hnd.1 (he ▸ List.mem_map_of_mem (exists_of_numbered h))
      rw [numberOf, if_neg hne]
      exact ih hnd.2 h

theorem update_numberOf (a : α) (l : List α) :
    Function.update (numberOf key l) (key a) (some (l.length + 1)) = numberOf key (a :: l) := by
  funext x
  by_cases hx : x = key a
  · subst hx
    rw [Function.update_self, numberOf, if_pos rfl]
  · rw [Function.update_of_ne hx, numberOf, if_neg (Ne.symm hx)]

/-- Removing the last record, where keys are not repeated. -/
theorem update_numberOf_none {a : α} {l : List α} (h : ∀ b ∈ l, key b ≠ key a) :
    Function.update (numberOf key (a :: l)) (key a) none = numberOf key l := by
  rw [← update_numberOf, Function.update_idem]
  exact Function.update_eq_self_iff.mpr (numberOf_eq_none.mpr h).symm

/-! ## Rewriting the record with a key -/

variable (key) in
/-- Change the record with a key. -/
def rewriteAt (x : κ) (f : α → α) (l : List α) : List α :=
  l.map fun a => if key a = x then f a else a

variable {x : κ} {f g : α → α} {l : List α}

@[simp] theorem length_rewriteAt : (rewriteAt key x f l).length = l.length :=
  List.length_map ..

theorem rewriteAt_cons (a : α) :
    rewriteAt key x f (a :: l) = (if key a = x then f a else a) :: rewriteAt key x f l := rfl

theorem map_rewriteAt {γ : Type} {h : α → γ} (hf : ∀ a, h (f a) = h a) :
    (rewriteAt key x f l).map h = l.map h := by
  rw [rewriteAt, List.map_map]
  refine List.map_congr_left fun a _ => ?_
  rw [Function.comp_apply]
  split
  · exact hf a
  · rfl

theorem numbered_rewriteAt (k : Int) :
    numbered (rewriteAt key x f l) k =
      (numbered l k).map fun a => if key a = x then f a else a := by
  induction l with
  | nil => rfl
  | cons a l ih =>
    rw [rewriteAt_cons, numbered, numbered, length_rewriteAt, ih]
    split <;> rfl

theorem numberOf_rewriteAt (hf : ∀ a, key (f a) = key a) :
    numberOf key (rewriteAt key x f l) = numberOf key l := by
  funext y
  induction l with
  | nil => rfl
  | cons a l ih =>
    have hkey : key (if key a = x then f a else a) = key a := by
      split
      · exact hf a
      · rfl
    rw [rewriteAt_cons, numberOf, numberOf, length_rewriteAt, hkey, ih]

/-- Changing the record with a key is writing it back under its number. -/
theorem update_numbered_rewriteAt (hnd : (l.map key).Nodup) {k : Int} {a : α}
    (h : numbered l k = some a) :
    Function.update (numbered l) k (some (f a)) = numbered (rewriteAt key (key a) f l) := by
  funext j
  rw [numbered_rewriteAt]
  by_cases hj : j = k
  · subst hj
    rw [Function.update_self, h, Option.map_some, if_pos rfl]
  · rw [Function.update_of_ne hj]
    cases hb : numbered l j with
    | none => rfl
    | some b =>
      have hne : key b ≠ key a := by
        intro he
        have hnum := numberOf_of_numbered hnd hb
        rw [he, numberOf_of_numbered hnd h, Option.some_inj] at hnum
        exact hj hnum.symm
      rw [Option.map_some, if_neg hne]

/-- A sum over a list in which one record is changed. -/
theorem sum_rewriteAt (h : α → Int) (hnd : (l.map key).Nodup) {a : α} (ha : a ∈ l) :
    ((rewriteAt key (key a) f l).map h).sum = (l.map h).sum - h a + h (f a) := by
  induction l with
  | nil => cases ha
  | cons b l ih =>
    rw [List.map_cons, List.nodup_cons] at hnd
    rw [rewriteAt_cons, List.map_cons, List.map_cons, List.sum_cons, List.sum_cons]
    rcases List.mem_cons.mp ha with rfl | ha
    · have hrest : rewriteAt key (key a) f l = l := by
        refine List.map_congr_left (fun c hc => if_neg fun he => hnd.1 ?_) |>.trans
          (List.map_id' l)
        exact he ▸ List.mem_map_of_mem hc
      rw [if_pos rfl, hrest]
      omega
    · have hne : key b ≠ key a := fun he => hnd.1 (he ▸ List.mem_map_of_mem ha)
      rw [if_neg hne, ih hnd.2 ha]
      omega

/-- A change that is undone. -/
theorem rewriteAt_rewriteAt (hf : ∀ a, key (f a) = key a)
    (hg : ∀ a ∈ l, key a = x → g (f a) = a) :
    rewriteAt key x g (rewriteAt key x f l) = l := by
  induction l with
  | nil => rfl
  | cons a l ih =>
    obtain ⟨ha, hl⟩ := List.forall_mem_cons.mp hg
    rw [rewriteAt_cons, rewriteAt_cons, ih hl]
    by_cases hx : key a = x
    · rw [if_pos hx, if_pos ((hf a).trans hx), ha hx]
    · rw [if_neg hx, if_neg hx]

end Lib
