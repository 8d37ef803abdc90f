/-
# Readers that take a value from the front

A reader takes a value from the front of a list and leaves the rest, or refuses.
`Reads P enc dec` says that it is the inverse of an encoding: it reads `a` and leaves `rest`
exactly when `a` is among the values it admits and the list is `enc a` followed by `rest`.  Both
directions matter.  What was written is read back whatever follows it, and what is read was written
so: there is no second spelling.

The relation is closed under the ways a format is put together: one field after another
(`Reads.bind_iff`), another type for the same bytes (`Reads.map`), and a vector behind its length
(`Reads.vec`).
-/
import Breakout.Lib.PrefixCode

namespace Lib

variable {α β γ : Type}

/-- `dec` reads, from the front, the values that satisfy `P` as `enc` writes them, and nothing
else. -/
def Reads (P : α → Prop) (enc : α → List β) (dec : List β → Option (α × List β)) : Prop :=
  ∀ bs a rest, dec bs = some (a, rest) ↔ P a ∧ bs = enc a ++ rest

variable {P : α → Prop} {enc : α → List β} {dec : List β → Option (α × List β)}

/-- What was written is read back, whatever follows it. -/
theorem Reads.read (h : Reads P enc dec) {a : α} (ha : P a) (rest : List β) :
    dec (enc a ++ rest) = some (a, rest) :=
  (h _ a rest).mpr ⟨ha, rfl⟩

/-- What can be read back is self-delimiting. -/
theorem Reads.prefixFree (h : Reads P enc dec) : PrefixFree P enc := by
  intro a b ha hb r s heq
  have hread : dec (enc a ++ r) = some (b, s) := (h _ b s).mpr ⟨hb, heq⟩
  rw [h.read ha, Option.some.injEq, Prod.mk.injEq] at hread
  exact hread

/-! ## 1. One field after another -/

/-- **What is done with a value that was read**: it is done with some value at the front. -/
theorem Reads.bind_iff (h : Reads P enc dec) {bs : List β} (next : α → List β → Option γ) (c : γ) :
    ((dec bs).bind fun p => next p.1 p.2) = some c ↔
      ∃ a rest, (P a ∧ bs = enc a ++ rest) ∧ next a rest = some c := by
  rw [Option.bind_eq_some_iff]
  constructor
  · rintro ⟨⟨a, rest⟩, hread, hnext⟩
    exact ⟨a, rest, (h bs a rest).mp hread, hnext⟩
  · rintro ⟨a, rest, hread, hnext⟩
    exact ⟨(a, rest), (h bs a rest).mpr hread, hnext⟩

/-- The same bytes read as another type, whose values are those that satisfy `P`. -/
theorem Reads.map (h : Reads P enc dec) (f : α → γ) (g : γ → α) (hg : ∀ c, P (g c))
    (hgf : ∀ a, P a → g (f a) = a) (hfg : ∀ c, f (g c) = c) :
    Reads (fun _ => True) (fun c => enc (g c)) fun bs => (dec bs).map fun p => (f p.1, p.2) := by
  intro bs c rest
  rw [Option.map_eq_some_iff]
  constructor
  · rintro ⟨⟨a, rest'⟩, hread, heq⟩
    obtain ⟨rfl, rfl⟩ := Prod.mk.inj heq
    obtain ⟨ha, hbs⟩ := (h bs a rest').mp hread
    refine ⟨trivial, ?_⟩
    dsimp only
    rw [hgf a ha, hbs]
  · rintro ⟨-, hbs⟩
    exact ⟨(g c, rest), (h bs (g c) rest).mpr ⟨hg c, hbs⟩, by rw [hfg c]⟩

/-! ## 2. Vectors -/

/-- `n` values, one after another. -/
def readTimes (dec : List β → Option (α × List β)) : Nat → List β → Option (List α × List β)
  | 0, bs => some ([], bs)
  | n + 1, bs => (dec bs).bind fun p => (readTimes dec n p.2).map fun q => (p.1 :: q.1, q.2)

theorem Reads.times (h : Reads P enc dec) : ∀ (n : Nat) (bs : List β) (l : List α) (rest : List β),
    readTimes dec n bs = some (l, rest) ↔
      (l.length = n ∧ ∀ a ∈ l, P a) ∧ bs = l.flatMap enc ++ rest
  | 0, bs, l, rest => by
    rw [readTimes, List.length_eq_zero_iff, Option.some.injEq, Prod.mk.injEq]
    constructor
    · rintro ⟨rfl, rfl⟩
      exact ⟨⟨rfl, by simp⟩, rfl⟩
    · rintro ⟨⟨rfl, -⟩, rfl⟩
      exact ⟨rfl, rfl⟩
  | n + 1, bs, l, rest => by
    rw [readTimes,
      h.bind_iff fun a bs => (readTimes dec n bs).map fun q => (a :: q.1, q.2)]
    constructor
    · rintro ⟨a, bs', ⟨ha, rfl⟩, hmap⟩
      obtain ⟨⟨l', rest'⟩, hread, heq⟩ := Option.map_eq_some_iff.mp hmap
      obtain ⟨rfl, rfl⟩ := Prod.mk.inj heq
      obtain ⟨⟨rfl, hl'⟩, rfl⟩ := (h.times n bs' l' rest').mp hread
      refine ⟨⟨rfl, ?_⟩, by rw [List.flatMap_cons, List.append_assoc]⟩
      intro b hb
      rcases List.mem_cons.mp hb with rfl | hb
      · exact ha
      · exact hl' b hb
    · rintro ⟨⟨hlen, hl⟩, rfl⟩
      obtain ⟨a, l', rfl⟩ := List.exists_cons_of_length_eq_add_one hlen
      have hread : readTimes dec n (l'.flatMap enc ++ rest) = some (l', rest) :=
        (h.times n _ l' rest).mpr
          ⟨⟨Nat.succ.inj hlen, fun b hb => hl b (List.mem_cons_of_mem _ hb)⟩, rfl⟩
      refine ⟨a, l'.flatMap enc ++ rest, ⟨hl a List.mem_cons_self, ?_⟩, by rw [hread]; rfl⟩
      rw [List.flatMap_cons, List.append_assoc]

/-- A length, then that many values. -/
def readVec (size : List β → Option (Nat × List β)) (dec : List β → Option (α × List β))
    (bs : List β) : Option (List α × List β) :=
  (size bs).bind fun p => readTimes dec p.1 p.2

/-- **A vector is read if its length and its elements are.** -/
theorem Reads.vec {enc : α → List UInt8} {dec : List UInt8 → Option (α × List UInt8)}
    {N : Nat → Prop} {size : List UInt8 → Option (Nat × List UInt8)} (hsize : Reads N compactSize size)
    (h : Reads P enc dec) :
    Reads (fun l => N l.length ∧ ∀ a ∈ l, P a) (encVec enc) (readVec size dec) := by
  intro bs l rest
  rw [readVec, hsize.bind_iff fun n bs => readTimes dec n bs]
  constructor
  · rintro ⟨n, bs', ⟨hn, rfl⟩, hread⟩
    obtain ⟨⟨rfl, hl⟩, rfl⟩ := (h.times n bs' l rest).mp hread
    exact ⟨⟨hn, hl⟩, by rw [encVec, List.append_assoc]⟩
  · rintro ⟨⟨hn, hl⟩, rfl⟩
    refine ⟨l.length, l.flatMap enc ++ rest, ⟨hn, by rw [encVec, List.append_assoc]⟩, ?_⟩
    exact (h.times _ _ l rest).mpr ⟨⟨rfl, hl⟩, rfl⟩

end Lib
