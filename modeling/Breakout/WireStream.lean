/-
# A stream of bytes

`CDataStream` is a vector of bytes with a place in it from which they are read.  What is read stays
in the vector until it is compacted, so that erasing from the front moves the place, and inserting
at the front moves it back and writes over what was read.

What a user of the stream sees is what stands behind the place (`data`).  Each operation is one of
lists on that: this is all the rest of the development needs to know of it.
-/
import Mathlib.Tactic

namespace Breakout

/-- `CDataStream`: the bytes, and the place, which is one of them or their end. -/
structure CDataStream where
  vch : List UInt8
  nReadPos : Nat
  inside : nReadPos ≤ vch.length

namespace CDataStream

/-! ## 1. The operations -/

/-- An empty stream, and `clear`. -/
def empty : CDataStream := ⟨[], 0, Nat.le_refl 0⟩

/-- `begin()` to `end()` -/
def data (s : CDataStream) : List UInt8 := s.vch.drop s.nReadPos

def size (s : CDataStream) : Nat := s.vch.length - s.nReadPos

def write (s : CDataStream) (pch : List UInt8) : CDataStream where
  vch := s.vch ++ pch
  nReadPos := s.nReadPos
  inside := by
    have h := s.inside
    rw [List.length_append]
    omega

/-- `erase(begin(), begin() + n)`, for an `n` that is not beyond the end. -/
def eraseFront (s : CDataStream) (n : Nat) : CDataStream :=
  if h : s.nReadPos + n < s.vch.length then ⟨s.vch, s.nReadPos + n, h.le⟩
  -- whenever the end is reached, the buffer is cleared
  else empty

/-- `insert(begin(), first, last)` -/
def insertFront (s : CDataStream) (pch : List UInt8) : CDataStream :=
  if h : pch.length ≤ s.nReadPos then
    -- there is room at the front
    { vch := s.vch.take (s.nReadPos - pch.length) ++ pch ++ s.vch.drop s.nReadPos
      nReadPos := s.nReadPos - pch.length
      inside := by
        have hin := s.inside
        simp only [List.length_append, List.length_take, List.length_drop]
        omega }
  else
    { vch := s.vch.take s.nReadPos ++ pch ++ s.vch.drop s.nReadPos
      nReadPos := s.nReadPos
      inside := by
        have hin := s.inside
        simp only [List.length_append, List.length_take, List.length_drop]
        omega }

/-- `read`; `none` is the exception at the end of the data. -/
def read (s : CDataStream) (nSize : Nat) : Option (List UInt8 × CDataStream) :=
  if s.vch.length < s.nReadPos + nSize then none
  else some ((s.vch.drop s.nReadPos).take nSize, s.eraseFront nSize)

/-- `ignore`; `none` is the exception at the end of the data. -/
def ignore (s : CDataStream) (nSize : Nat) : Option CDataStream :=
  if s.vch.length < s.nReadPos + nSize then none else some (s.eraseFront nSize)

def compact (s : CDataStream) : CDataStream := ⟨s.vch.drop s.nReadPos, 0, Nat.zero_le _⟩

def resize (s : CDataStream) (n : Nat) : CDataStream where
  vch := s.vch.take (n + s.nReadPos) ++ List.replicate (n + s.nReadPos - s.vch.length) 0
  nReadPos := s.nReadPos
  inside := by
    have h := s.inside
    simp only [List.length_append, List.length_take, List.length_replicate]
    omega

/-- `memcpy` over the bytes from `pos` on, which are all there. -/
def copyAt (s : CDataStream) (pos : Nat) (pch : List UInt8) : CDataStream :=
  if h : s.nReadPos + pos + pch.length ≤ s.vch.length then
    { vch := s.vch.take (s.nReadPos + pos) ++ pch ++ s.vch.drop (s.nReadPos + pos + pch.length)
      nReadPos := s.nReadPos
      inside := by
        simp only [List.length_append, List.length_take, List.length_drop]
        omega }
  else s

/-! ## 2. What they do to the data -/

variable {s : CDataStream} {n : Nat} {pch : List UInt8}

theorem length_data : s.data.length = s.size := by rw [data, size, List.length_drop]

@[simp] theorem data_empty : empty.data = [] := rfl

@[simp] theorem data_write : (s.write pch).data = s.data ++ pch :=
  List.drop_append_of_le_length s.inside

@[simp] theorem data_eraseFront : (s.eraseFront n).data = s.data.drop n := by
  unfold eraseFront data
  split_ifs with h
  · rw [List.drop_drop]
  · rw [List.drop_drop, List.drop_eq_nil_of_le (Nat.not_lt.mp h)]
    rfl

/-- **What is put back in front stands in front**, whether or not there was room. -/
@[simp] theorem data_insertFront : (s.insertFront pch).data = pch ++ s.data := by
  have hin := s.inside
  unfold insertFront data
  split_ifs with h
  · dsimp only
    rw [List.append_assoc, List.drop_left' (by rw [List.length_take]; omega)]
  · dsimp only
    rw [List.append_assoc, List.drop_left' (by rw [List.length_take]; omega)]

theorem read_of_le (h : n ≤ s.data.length) :
    s.read n = some (s.data.take n, s.eraseFront n) := by
  rw [length_data, size] at h
  have hin := s.inside
  rw [read, if_neg (by omega)]
  rfl

theorem ignore_of_le (h : n ≤ s.data.length) : s.ignore n = some (s.eraseFront n) := by
  rw [length_data, size] at h
  have hin := s.inside
  rw [ignore, if_neg (by omega)]

@[simp] theorem data_compact : s.compact.data = s.data := rfl

/-- To a size that is not larger. -/
theorem data_resize_of_le (h : n ≤ s.size) : (s.resize n).data = s.data.take n := by
  have hin := s.inside
  unfold size at h
  unfold resize data
  simp only [show n + s.nReadPos - s.vch.length = 0 by omega, List.replicate_zero, List.append_nil,
    List.drop_take, Nat.add_sub_cancel]

theorem data_copyAt {l old r : List UInt8} (h : s.data = l ++ old ++ r)
    (hlen : old.length = pch.length) : (s.copyAt l.length pch).data = l ++ pch ++ r := by
  have hin := s.inside
  have hsize : (l ++ old ++ r).length = s.vch.length - s.nReadPos := by
    rw [← h, length_data, size]
  simp only [List.length_append] at hsize
  have hroom : s.nReadPos + l.length + pch.length ≤ s.vch.length := by omega
  have hfront : (s.vch.take (s.nReadPos + l.length)).drop s.nReadPos = l := by
    have htake : (s.vch.drop s.nReadPos).take l.length = l := by
      rw [show s.vch.drop s.nReadPos = l ++ old ++ r from h]
      simp
    rw [List.drop_take, Nat.add_sub_cancel_left, htake]
  have hback : s.vch.drop (s.nReadPos + l.length + pch.length) = r := by
    rw [Nat.add_assoc, ← List.drop_drop, show s.vch.drop s.nReadPos = l ++ old ++ r from h, ← hlen,
      ← List.length_append, List.drop_left]
  unfold copyAt data
  rw [dif_pos hroom]
  dsimp only
  rw [hback, List.append_assoc, List.drop_append_of_le_length (by rw [List.length_take]; omega),
    hfront, List.append_assoc]

/-- What is received is copied behind the rest. -/
theorem data_receive : ((s.resize (s.size + pch.length)).copyAt s.size pch).data = s.data ++ pch := by
  have hin := s.inside
  have hdata : (s.resize (s.size + pch.length)).data =
      s.data ++ List.replicate pch.length 0 ++ [] := by
    have hgrow : s.size + pch.length + s.nReadPos - s.vch.length = pch.length := by
      unfold size
      omega
    have hall : s.vch.take (s.size + pch.length + s.nReadPos) = s.vch := by
      refine List.take_of_length_le ?_
      unfold size
      omega
    unfold resize data
    simp only [hgrow, hall, List.append_nil]
    exact List.drop_append_of_le_length hin
  have hover := @data_copyAt _ pch _ _ _ hdata (by simp)
  rw [length_data, List.append_nil] at hover
  exact hover

end CDataStream

end Breakout
