/-
# Reads through a pointer

A C function is handed an address in a vector and reads so many bytes from it; nothing but its own
checks keeps it inside.  `Ptr.read` stops with `oob` when a read leaves the vector, so that a
function is safe when its run is in bounds, and what it read is a part of the vector when it is
(`read_eq_ok`).  `writeAt` does the same for what is written into a vector.
-/
import Breakout.Lib.Run

namespace Lib

@[simp] theorem inBounds_pure {α : Type} (a : α) : InBounds (pure a : Run α) := inBounds_ok a

/-- An address in a vector. -/
structure Ptr where
  data : List UInt8
  pos : Nat

namespace Ptr

variable {p : Ptr} {k n : Nat} {b : List UInt8}

/-- `p + n` -/
def add (p : Ptr) (n : Nat) : Ptr := ⟨p.data, p.pos + n⟩

/-- So many bytes can be read. -/
def Holds (p : Ptr) (n : Nat) : Prop := p.pos + n ≤ p.data.length

instance (p : Ptr) (n : Nat) : Decidable (p.Holds n) := inferInstanceAs (Decidable (_ ≤ _))

/-- The bytes from the address on. -/
def slice (p : Ptr) (n : Nat) : List UInt8 := (p.data.drop p.pos).take n

/-- `memcpy(&x, p, n);` -/
def read (p : Ptr) (n : Nat) : Run (List UInt8) :=
  if p.Holds n then .ok (p.slice n) else .error (.oob p.data.length)

@[simp] theorem add_zero (p : Ptr) : p.add 0 = p := rfl

theorem Holds.mono (h : p.Holds n) (hk : k ≤ n) : p.Holds k := (Nat.add_le_add_left hk _).trans h

theorem holds_add : (p.add k).Holds n ↔ p.Holds (k + n) := by
  simp only [Holds, add, Nat.add_assoc]

@[simp] theorem inBounds_read : InBounds (p.read n) ↔ p.Holds n := by
  unfold read
  split_ifs with h <;> simp [h]

@[simp] theorem read_eq_ok : p.read n = .ok b ↔ p.Holds n ∧ b = p.slice n := by
  unfold read
  split_ifs with h
  · simp [h, eq_comm]
  · simp [h]

theorem read_of_holds (h : p.Holds n) : p.read n = .ok (p.slice n) := if_pos h

theorem length_slice (h : p.Holds n) : (p.slice n).length = n := by
  rw [slice, List.length_take, List.length_drop]
  unfold Holds at h
  omega

theorem start_add (data : List UInt8) (n : Nat) : (⟨data, 0⟩ : Ptr).add n = ⟨data, n⟩ := by
  rw [add, Nat.zero_add]

/-- **What stands between two parts** is read where the first ends. -/
theorem read_part {data before part rest : List UInt8} (h : data = before ++ (part ++ rest))
    {pos : Nat} (hpos : before.length = pos) (hn : part.length = n) :
    (⟨data, pos⟩ : Ptr).read n = .ok part := by
  have hslice : (⟨data, pos⟩ : Ptr).slice n = part := by
    rw [slice, h, List.drop_left' hpos, List.take_left' hn]
  have hholds : (⟨data, pos⟩ : Ptr).Holds n := by
    rw [Holds, h, List.length_append, List.length_append, hpos, hn, ← Nat.add_assoc]
    exact Nat.le_add_right _ _
  rw [read_of_holds hholds, hslice]

end Ptr

/-! ## Writes -/

/-- `memcpy(&v[pos], bytes, bytes.size());` -/
def writeAt (v : List UInt8) (pos : Nat) (bytes : List UInt8) : Run (List UInt8) :=
  if pos + bytes.length ≤ v.length then
    .ok (v.take pos ++ bytes ++ v.drop (pos + bytes.length))
  else .error (.oob v.length)

section

variable {v v' bytes : List UInt8} {pos : Nat}

@[simp] theorem inBounds_writeAt :
    InBounds (writeAt v pos bytes) ↔ pos + bytes.length ≤ v.length := by
  unfold writeAt
  split_ifs with h <;> simp [h]

@[simp] theorem writeAt_eq_ok : writeAt v pos bytes = .ok v' ↔ pos + bytes.length ≤ v.length ∧
    v' = v.take pos ++ bytes ++ v.drop (pos + bytes.length) := by
  unfold writeAt
  split_ifs with h
  · simp [h, eq_comm]
  · simp [h]

/-- Nothing is written past the end. -/
theorem length_writeAt (h : writeAt v pos bytes = .ok v') : v'.length = v.length := by
  obtain ⟨hle, rfl⟩ := writeAt_eq_ok.mp h
  rw [List.length_append, List.length_append, List.length_take, List.length_drop]
  omega

end

/-! ## Reads one after another

`forEach` runs a body for addresses `stride` apart; the body says whether the loop goes on. -/

section

variable {σ : Type} {body : Ptr → σ → Run (Bool × σ)} {stride : Nat}

/-- `for (i = 0; i < n; ++i, p += stride) body` -/
def forEach (stride : Nat) (body : Ptr → σ → Run (Bool × σ)) : Nat → Ptr → σ → Run σ
  | 0, _, s => .ok s
  | n + 1, p, s => body p s >>= fun
    | (true, s') => forEach stride body n (p.add stride) s'
    | (false, s') => .ok s'

/-- A body that stays within its stride stays within all of them. -/
theorem inBounds_forEach (hbody : ∀ (p : Ptr) s, p.Holds stride → InBounds (body p s)) :
    ∀ {n : Nat} {p : Ptr} {s : σ}, p.Holds (n * stride) → InBounds (forEach stride body n p s)
  | 0, _, _, _ => inBounds_ok _
  | n + 1, p, s, h => by
    rw [Nat.succ_mul, Nat.add_comm] at h
    refine inBounds_bind.mpr ⟨hbody p s (h.mono (Nat.le_add_right ..)), ?_⟩
    rintro ⟨_ | _, s'⟩ -
    · exact inBounds_ok _
    · exact inBounds_forEach hbody (Ptr.holds_add.mpr h)

/-- A body that reads its whole stride and always goes on is in bounds only when there are so many.
-/
theorem holds_of_inBounds_forEach (hbody : ∀ (p : Ptr) s, InBounds (body p s) → p.Holds stride)
    (hgo : ∀ (p : Ptr) s, p.Holds stride → ∃ s', body p s = .ok (true, s')) :
    ∀ {n : Nat} {p : Ptr} {s : σ}, p.Holds 0 → InBounds (forEach stride body n p s) →
      p.Holds (n * stride)
  | 0, _, _, h, _ => by
    rw [Nat.zero_mul]
    exact h
  | n + 1, p, s, _, h => by
    rw [Nat.succ_mul, Nat.add_comm]
    obtain ⟨hread, hrest⟩ := inBounds_bind.mp h
    have hfirst := hbody p s hread
    obtain ⟨s', hs'⟩ := hgo p s hfirst
    exact Ptr.holds_add.mp (holds_of_inBounds_forEach hbody hgo (Ptr.holds_add.mpr hfirst)
      (hrest _ hs'))

end

end Lib
