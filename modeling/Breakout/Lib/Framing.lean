/-
# Messages cut out of a stream

Bytes come in pieces, and a scanner looks at what has come so far: it waits for more, or it takes
something off the front, a message or what is none.  Three laws make a scanner independent of the
pieces: what it takes is not empty (`shrinks`), it takes the same when more has come (`stable`), and
what it throws away while it waits makes no difference (`resumes`).

`Scanner.all` is the scan of a whole stream.  It can be done in parts (`all_append`), and so a
session that looks whenever it likes, and stops whenever it likes, has the messages of the stream
one after another (`Session`): what it has taken, and then what is still in its buffer.
-/
import Mathlib.Tactic

namespace Lib

variable {B M : Type}

/-- What a look at the buffer says: wait, with the part of the buffer that is kept, or go on with
the rest of it, after a message or after something that is none. -/
inductive Look (B M : Type) where
  | wait (kept : List B)
  | take (msg : Option M) (rest : List B)

/-- A scanner: what it says of a buffer, and that this does not depend on how the buffer has come. -/
structure Scanner (B M : Type) where
  look : List B → Look B M
  shrinks : ∀ {b m r}, look b = .take m r → r.length < b.length
  stable : ∀ {b m r} (x : List B), look b = .take m r → look (b ++ x) = .take m (r ++ x)
  resumes : ∀ {b k} (x : List B), look b = .wait k → look (b ++ x) = look (k ++ x)

namespace Scanner

variable (S : Scanner B M)

/-! ## 1. The scan -/

/-- The messages of a buffer, at most `n` looks of it, and what is kept. -/
def scan : Nat → List B → List M × List B
  | 0, b => ([], b)
  | n + 1, b =>
    match S.look b with
    | .wait k => ([], k)
    | .take m r => (m.toList ++ (scan n r).1, (scan n r).2)

/-- The messages of a buffer, and what is kept when there are no more. -/
def all (b : List B) : List M × List B := S.scan (b.length + 1) b

variable {S} {b k r x : List B} {m : Option M}

/-- As many looks as there are bytes will do. -/
theorem scan_eq_scan {n n' : Nat} (h : b.length < n) (h' : b.length < n') :
    S.scan n b = S.scan n' b := by
  induction n generalizing n' b with
  | zero => exact absurd h (Nat.not_lt_zero _)
  | succ n ih =>
    cases n' with
    | zero => exact absurd h' (Nat.not_lt_zero _)
    | succ n' =>
      simp only [scan]
      cases hlook : S.look b with
      | wait k => rfl
      | take m r =>
        have hlt := S.shrinks hlook
        simp only [ih (show r.length < n by omega) (show r.length < n' by omega)]

theorem all_wait (h : S.look b = .wait k) : S.all b = ([], k) := by
  rw [all, scan, h]

/-- **One look, and the rest.** -/
theorem all_take (h : S.look b = .take m r) :
    S.all b = (m.toList ++ (S.all r).1, (S.all r).2) := by
  have hlt := S.shrinks h
  have hsame : S.scan b.length r = S.all r := scan_eq_scan hlt (Nat.lt_succ_self _)
  rw [all, scan, h]
  dsimp only
  rw [hsame]

theorem all_congr {c : List B} (h : S.look b = S.look c) : S.all b = S.all c := by
  cases hlook : S.look b with
  | wait k => rw [all_wait hlook, all_wait (h.symm.trans hlook)]
  | take m r => rw [all_take hlook, all_take (h.symm.trans hlook)]

/-- What is kept has no message. -/
theorem all_kept (h : S.look b = .wait k) : S.all k = ([], k) := by
  have hresumes := S.resumes [] h
  rw [List.append_nil, List.append_nil, h] at hresumes
  exact all_wait hresumes.symm

/-- **A stream can be scanned in parts.** -/
theorem all_append : ∀ (b x : List B),
    S.all (b ++ x) = ((S.all b).1 ++ (S.all ((S.all b).2 ++ x)).1, (S.all ((S.all b).2 ++ x)).2) := by
  intro b x
  induction hn : b.length using Nat.strong_induction_on generalizing b with
  | _ n ih =>
    cases hlook : S.look b with
    | wait k =>
      rw [all_wait hlook, all_congr (S.resumes x hlook)]
      rfl
    | take m r =>
      rw [all_take hlook, all_take (S.stable x hlook),
        ih r.length (hn ▸ S.shrinks hlook) r rfl, List.append_assoc]

/-! ## 2. A session -/

variable (S)

/-- What a session has taken so far, and its buffer. -/
structure Session (B M : Type) where
  taken : List M
  buffer : List B

/-- The session is where the stream has brought it: the messages of the stream are those taken and
those in the buffer. -/
def Follows (stream : List B) (s : Session B M) : Prop :=
  S.all stream = (s.taken ++ (S.all s.buffer).1, (S.all s.buffer).2)

variable {S} {stream : List B} {s : Session B M}

theorem follows_start : S.Follows [] ⟨[], []⟩ := by
  rw [Follows, List.nil_append]

theorem Follows.receive (h : S.Follows stream s) (x : List B) :
    S.Follows (stream ++ x) ⟨s.taken, s.buffer ++ x⟩ := by
  rw [Follows] at h ⊢
  rw [all_append, h, all_append s.buffer x, List.append_assoc]

theorem Follows.take (h : S.Follows stream s) (hlook : S.look s.buffer = .take m r) :
    S.Follows stream ⟨s.taken ++ m.toList, r⟩ := by
  rw [Follows] at h ⊢
  rw [h, all_take hlook, List.append_assoc]

/-- The session throws away what it need not keep. -/
theorem Follows.wait (h : S.Follows stream s) (hlook : S.look s.buffer = .wait k) :
    S.Follows stream ⟨s.taken, k⟩ := by
  rw [Follows] at h ⊢
  rw [h, all_wait hlook, all_kept hlook]

/-- **What was taken are the first messages of the stream.** -/
theorem Follows.taken_le (h : S.Follows stream s) : s.taken <+: (S.all stream).1 := by
  rw [h]
  exact List.prefix_append _ _

end Scanner

end Lib
