/-
# Shuffling the front of a vector in place

To pick some elements of a vector at random, none of them twice, a program goes through its first
places and swaps into each of them an element from that place on.  `shuffled pos l k` is the vector
after `k` such rounds, the `i`-th of which takes the element at position `pos i`.

The vector keeps its elements (`shuffled_perm`), and a place that had its round is not touched again
(`shuffled_settled`).  So what a round brings up is afterwards at the place of the round, and not
where it came from, unless these are the same.
-/
import Breakout.Lib.Slots

namespace Lib

variable {α : Type}

/-- The elements at two positions change places. -/
def swapAt (l : List α) (i j : Nat) : List α :=
  match l[i]?, l[j]? with
  | some a, some b => (l.set j a).set i b
  | _, _ => l

/-- The vector after so many rounds. -/
def shuffled (pos : Nat → Nat) (l : List α) : Nat → List α
  | 0 => l
  | k + 1 => swapAt (shuffled pos l k) k (pos k)

variable {l : List α} {i j k : Nat} {pos : Nat → Nat}

theorem swapAt_eq {a b : α} (ha : l[i]? = some a) (hb : l[j]? = some b) :
    swapAt l i j = (l.set j a).set i b := by
  rw [swapAt, ha, hb]

theorem swapAt_perm : (swapAt l i j).Perm l := by
  unfold swapAt
  split
  · next a b ha hb => exact Slots.swap_perm hb ha
  · exact .refl l

/-- What comes from the other place. -/
theorem getElem?_swapAt_left (hi : i < l.length) (hj : j < l.length) :
    (swapAt l i j)[i]? = l[j]? := by
  have ha : l[i]? = some l[i] := List.getElem?_eq_getElem hi
  have hb : l[j]? = some l[j] := List.getElem?_eq_getElem hj
  rw [swapAt_eq ha hb, hb, List.getElem?_set_self (by simpa using hi)]

theorem getElem?_swapAt_of_ne (hi : i ≠ k) (hj : j ≠ k) : (swapAt l i j)[k]? = l[k]? := by
  unfold swapAt
  split
  · rw [List.getElem?_set_ne hi, List.getElem?_set_ne hj]
  · rfl

/-- **The vector keeps its elements.** -/
theorem shuffled_perm : ∀ k, (shuffled pos l k).Perm l
  | 0 => .refl l
  | k + 1 => swapAt_perm.trans (shuffled_perm k)

theorem length_shuffled (k : Nat) : (shuffled pos l k).length = l.length :=
  (shuffled_perm k).length_eq

/-- **A place that had its round** is not touched again. -/
theorem shuffled_settled (hpos : ∀ i, i ≤ pos i) (hik : i < k) :
    (shuffled pos l k)[i]? = (shuffled pos l (i + 1))[i]? := by
  induction k with
  | zero => exact absurd hik (Nat.not_lt_zero i)
  | succ k ih =>
    rcases Nat.lt_succ_iff_lt_or_eq.mp hik with hlt | rfl
    · have hle := hpos k
      rw [shuffled, getElem?_swapAt_of_ne (by omega) (by omega), ih hlt]
    · rfl

end Lib
