/-
# Bytes by address

A program that takes the wrong address reads and writes bytes that are not its own, or none at all.
`Memory` maps addresses to bytes; an address that is not mapped stops it (`oob`), and zero never is,
so that nothing is stored or loaded through a null pointer (`store_null`).
-/
import Breakout.Lib.Run

namespace Lib

/-- The bytes that can be read and written.  Nothing is at the null pointer. -/
structure Memory where
  byte : Nat → Option UInt8
  null : byte 0 = none

namespace Memory

variable {m : Memory} {p : Nat} {bs : List UInt8}

/-- The byte at `p`, if there is one, becomes `b`. -/
def set (m : Memory) (p : Nat) (b : UInt8) : Memory where
  byte q := if q = p then (m.byte q).map fun _ => b else m.byte q
  null := by
    rw [m.null]
    split_ifs <;> rfl

/-- `memcpy(p, bs, n)` -/
def store : Nat → List UInt8 → Memory → Run Memory
  | _, [], m => .ok m
  | p, b :: bs, m =>
    if (m.byte p).isNone then .error (.oob p) else store (p + 1) bs (m.set p b)

/-- `memcpy(…, p, n)` -/
def load (m : Memory) : Nat → Nat → Run (List UInt8)
  | _, 0 => .ok []
  | p, n + 1 =>
    match m.byte p with
    | none => .error (.oob p)
    | some b => do
      let bs ← load m (p + 1) n
      return b :: bs

/-- **Nothing is stored through a null pointer.** -/
theorem store_null (h : bs ≠ []) : store 0 bs m = .error (.oob 0) := by
  cases bs with
  | nil => exact absurd rfl h
  | cons b bs => exact if_pos (by rw [m.null]; rfl)

end Memory

end Lib
