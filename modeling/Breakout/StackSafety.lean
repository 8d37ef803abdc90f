/-
# What a script can do to the stack

`EvalScript` reads its stack with `at`, and takes items out and puts them in by iterators.  Here the
instructions that move items are written out access by access, each stopping where there is nothing
to access, and so are the ones that use the other stack and the conditions; `evalOpAt` is the
machine with these in place, and it is the machine (`evalOpAt_eq`).

A script that runs does not stop in any of the accesses (`evalLoop_ends`): it runs to its end, it is
refused, or a number has too many bytes, which is the one exception that is thrown.  And it leaves a
stack as small as it found it.
-/
import Breakout.Multisig
import Breakout.Lib.Ends

namespace Breakout

open Lib

/-! ## 1. Accesses -/

namespace EvalState

/-- `altstacktop(-1)` -/
def altTop (s : EvalState) : Run Valtype :=
  match s.altstack with
  | vch :: _ => .ok vch
  | [] => .error (.oob (-1))

/-- `popstack(altstack)` -/
def popAlt (s : EvalState) : Run EvalState :=
  match s.altstack with
  | [] => .error (.throw "popstack() : stack empty")
  | _ :: rest => .ok { s with altstack := rest }

/-- `vfExec.back()` -/
def back (s : EvalState) : Run Bool :=
  match s.vfExec with
  | b :: _ => .ok b
  | [] => .error (.oob (-1))

/-- `stack.erase(stack.end()-i)` -/
def erase (s : EvalState) (i : Nat) : Run EvalState :=
  if 1 ≤ i ∧ i ≤ s.stack.length then .ok { s with stack := s.stack.eraseIdx (i - 1) }
  else .error (.oob (-i))

/-- `stack.insert(stack.end()-i, vch)` -/
def insert (s : EvalState) (i : Nat) (vch : Valtype) : Run EvalState :=
  if i ≤ s.stack.length then .ok { s with stack := s.stack.take i ++ vch :: s.stack.drop i }
  else .error (.oob (-i))

/-- `swap(stacktop(-i), stacktop(-j))` -/
def swap (s : EvalState) (i j : Nat) : Run EvalState := do
  let vch ← s.top i
  let vch' ← s.top j
  return { s with stack := (s.stack.set (i - 1) vch').set (j - 1) vch }

end EvalState

/-! ## 2. The instructions by their accesses -/

/-- The instructions that move items. -/
def evalShuffle (opcode : UInt8) (s : EvalState) : Run EvalState :=
  match opcode with
  | 0x6d => do                                                -- OP_2DROP
    s.need 2
    let s ← s.pop
    s.pop
  | 0x6e => do                                                -- OP_2DUP
    s.need 2
    let vch1 ← s.top 2
    let vch2 ← s.top 1
    return (s.push vch1).push vch2
  | 0x6f => do                                                -- OP_3DUP
    s.need 3
    let vch1 ← s.top 3
    let vch2 ← s.top 2
    let vch3 ← s.top 1
    return ((s.push vch1).push vch2).push vch3
  | 0x70 => do                                                -- OP_2OVER
    s.need 4
    let vch1 ← s.top 4
    let vch2 ← s.top 3
    return (s.push vch1).push vch2
  | 0x71 => do                                                -- OP_2ROT
    s.need 6
    let vch1 ← s.top 6
    let vch2 ← s.top 5
    let s ← s.erase 6
    let s ← s.erase 5
    return (s.push vch1).push vch2
  | 0x72 => do                                                -- OP_2SWAP
    s.need 4
    let s ← s.swap 4 2
    s.swap 3 1
  | 0x73 => do                                                -- OP_IFDUP
    s.need 1
    let vch ← s.top 1
    return if castToBool vch then s.push vch else s
  | 0x74 => .ok (s.push (getvch s.stack.length))              -- OP_DEPTH
  | 0x75 => do                                                -- OP_DROP
    s.need 1
    s.pop
  | 0x76 => do                                                -- OP_DUP
    s.need 1
    let vch ← s.top 1
    return s.push vch
  | 0x77 => do                                                -- OP_NIP
    s.need 2
    s.erase 2
  | 0x78 => do                                                -- OP_OVER
    s.need 2
    let vch ← s.top 2
    return s.push vch
  | 0x7b => do                                                -- OP_ROT
    s.need 3
    let s ← s.swap 3 2
    s.swap 2 1
  | 0x7c => do                                                -- OP_SWAP
    s.need 2
    s.swap 2 1
  | 0x7d => do                                                -- OP_TUCK
    s.need 2
    let vch ← s.top 1
    s.insert 2 vch
  | 0x82 => do                                                -- OP_SIZE
    s.need 1
    let vch ← s.top 1
    return s.push (getvch vch.length)
  | _ => failOp "EvalScript() : stack too small"

/-- `OP_PICK` and `OP_ROLL`. -/
def evalPickAt (fRoll : Bool) (s : EvalState) : Run EvalState := do
  s.need 2
  let vchN ← s.top 1
  let bn ← castToBigNum vchN nDefaultMaxNumSize
  let n := getint bn
  let s ← s.pop
  refuse (n < 0 ∨ n ≥ s.stack.length) 0 "EvalScript() : pick out of range"
  let vch ← s.top (n.toNat + 1)
  let s ← if fRoll then s.erase (n.toNat + 1) else .ok s
  return s.push vch

/-- Stack and comparison instructions. -/
def evalStackAt (opcode : UInt8) (s : EvalState) : Run EvalState :=
  match opcode with
  | 0x6c => do                                                -- OP_FROMALTSTACK
    refuse (s.altstack.length < 1) 0 "EvalScript() : altstack empty"
    let vch ← s.altTop
    (s.push vch).popAlt
  | 0x79 => evalPickAt false s
  | 0x7a => evalPickAt true s
  | 0x6b | 0x87 | 0x88 => evalStack opcode s
  | _ => evalShuffle opcode s

/-- Control instructions. -/
def evalControlAt (ctx : EvalCtx) (opcode : UInt8) (fExec : Bool) (s : EvalState) :
    Run EvalState :=
  match opcode with
  | 0x67 => do                                                -- OP_ELSE
    refuse (s.vfExec = []) 0 "EvalScript() : else without if"
    let b ← s.back
    return { s with vfExec := (!b) :: s.vfExec.tail }
  | 0x68 => do                                                -- OP_ENDIF
    refuse (s.vfExec = []) 0 "EvalScript() : endif without if"
    let _ ← s.back
    return { s with vfExec := s.vfExec.tail }
  | _ => evalControl ctx opcode fExec s

variable (K : Crypto)

/-- The `switch` of `EvalScript`, with every access. -/
def evalOpAt (ctx : EvalCtx) (opcode : UInt8) (pc : CScript) (fExec : Bool) (s : EvalState) :
    Run EvalState :=
  if 0x61 ≤ opcode ∧ opcode ≤ 0x6a ∨ 0xb0 ≤ opcode ∧ opcode ≤ 0xb9 then
    evalControlAt ctx opcode fExec s
  else if 0x6b ≤ opcode ∧ opcode ≤ 0x88 then evalStackAt opcode s
  else evalOp K ctx opcode pc fExec s

/-! ## 3. It is the machine -/

variable {K} {ctx : EvalCtx} {pc : CScript} {fExec : Bool} {s : EvalState}

theorem evalShuffle_eq (opcode : UInt8) (s : EvalState) :
    evalShuffle opcode s =
      match stackShuffle opcode s.stack with
      | some stack => .ok { s with stack := stack }
      | none => failOp "EvalScript() : stack too small" := by
  obtain ⟨stack, altstack, vfExec, nOpCount, codehash⟩ := s
  unfold evalShuffle
  split
  · rcases stack with _ | ⟨x2, _ | ⟨x1, r⟩⟩ <;> rfl
  · rcases stack with _ | ⟨x2, _ | ⟨x1, r⟩⟩ <;> rfl
  · rcases stack with _ | ⟨x3, _ | ⟨x2, _ | ⟨x1, r⟩⟩⟩ <;> rfl
  · rcases stack with _ | ⟨x4, _ | ⟨x3, _ | ⟨x2, _ | ⟨x1, r⟩⟩⟩⟩ <;> rfl
  · rcases stack with
      _ | ⟨x6, _ | ⟨x5, _ | ⟨x4, _ | ⟨x3, _ | ⟨x2, _ | ⟨x1, r⟩⟩⟩⟩⟩⟩ <;> rfl
  · rcases stack with _ | ⟨x4, _ | ⟨x3, _ | ⟨x2, _ | ⟨x1, r⟩⟩⟩⟩ <;> rfl
  · rcases stack with _ | ⟨x, r⟩
    · rfl
    · have hdup : stackShuffle 0x73 (x :: r) =
          some (if castToBool x then x :: x :: r else x :: r) := rfl
      rw [hdup]
      by_cases hx : castToBool x = true
      · rw [if_pos hx]
        exact congrArg Except.ok (if_pos hx)
      · rw [if_neg hx]
        exact congrArg Except.ok (if_neg hx)
  · rfl
  · rcases stack with _ | ⟨x, r⟩ <;> rfl
  · rcases stack with _ | ⟨x, r⟩ <;> rfl
  · rcases stack with _ | ⟨x2, _ | ⟨x1, r⟩⟩ <;> rfl
  · rcases stack with _ | ⟨x2, _ | ⟨x1, r⟩⟩ <;> rfl
  · rcases stack with _ | ⟨x3, _ | ⟨x2, _ | ⟨x1, r⟩⟩⟩ <;> rfl
  · rcases stack with _ | ⟨x2, _ | ⟨x1, r⟩⟩ <;> rfl
  · rcases stack with _ | ⟨x2, _ | ⟨x1, r⟩⟩ <;> rfl
  · rcases stack with _ | ⟨x, r⟩ <;> rfl
  · have hnone : stackShuffle opcode stack = none := by
      unfold stackShuffle
      dsimp only
      split <;> first | rfl | contradiction
    simp only [hnone]

theorem evalPickAt_eq (fRoll : Bool) (s : EvalState) : evalPickAt fRoll s = evalPick fRoll s := by
  unfold evalPickAt evalPick
  refine bind_congr fun _ => bind_congr fun vchN => bind_congr fun bn => bind_congr fun s => ?_
  by_cases hn : getint bn < 0 ∨ getint bn ≥ s.stack.length
  · rw [refuse, if_pos hn]
    rfl
  · rw [refuse_of_not hn, ok_bind, ok_bind]
    refine bind_congr fun vch => ?_
    have hlt : (getint bn).toNat + 1 ≤ s.stack.length := by omega
    cases fRoll with
    | false => rfl
    | true =>
      rw [if_pos rfl, EvalState.erase, if_pos ⟨Nat.succ_pos _, hlt⟩]
      rfl

theorem evalStackAt_eq (opcode : UInt8) (s : EvalState) :
    evalStackAt opcode s = evalStack opcode s := by
  unfold evalStackAt
  split
  · obtain ⟨stack, altstack, vfExec, nOpCount, codehash⟩ := s
    cases altstack <;> rfl
  · exact evalPickAt_eq false s
  · exact evalPickAt_eq true s
  · rfl
  · rfl
  · rfl
  · have hmoves : evalStack opcode s =
        match stackShuffle opcode s.stack with
        | some stack => .ok { s with stack := stack }
        | none => failOp "EvalScript() : stack too small" := by
      unfold evalStack
      split <;> first | rfl | simp_all
    rw [evalShuffle_eq, hmoves]

theorem evalControlAt_eq (opcode : UInt8) (s : EvalState) :
    evalControlAt ctx opcode fExec s = evalControl ctx opcode fExec s := by
  obtain ⟨stack, altstack, vfExec, nOpCount, codehash⟩ := s
  unfold evalControlAt
  split
  · cases vfExec <;> rfl
  · cases vfExec <;> rfl
  · rfl

/-- **The machine with every access is the machine.** -/
theorem evalOpAt_eq (opcode : UInt8) :
    evalOpAt K ctx opcode pc fExec s = evalOp K ctx opcode pc fExec s := by
  unfold evalOpAt
  rw [evalControlAt_eq, evalStackAt_eq]
  have hpush : 0x61 ≤ opcode → ¬ (opcode = 0x4f ∨ (0x51 ≤ opcode ∧ opcode ≤ 0x60)) := by
    simp only [UInt8.le_iff_toNat_le, ← UInt8.toNat_inj, UInt8.reduceToNat]
    omega
  split_ifs with hcontrol hstack
  · have hle : 0x61 ≤ opcode := by
      simp only [UInt8.le_iff_toNat_le, UInt8.reduceToNat] at hcontrol ⊢
      omega
    rw [evalOp, if_neg (hpush hle), if_pos hcontrol]
  · have hle : 0x61 ≤ opcode := by
      simp only [UInt8.le_iff_toNat_le, UInt8.reduceToNat] at hstack ⊢
      omega
    rw [evalOp, if_neg (hpush hle), if_neg hcontrol, if_pos hstack]
  · rfl

/-! ## 4. Numbers are short -/

theorem length_magBytes_le (fuel n : Nat) : (magBytes fuel n).length ≤ fuel := by
  induction fuel generalizing n with
  | zero => exact Nat.le_refl 0
  | succ fuel ih =>
    rw [magBytes]
    split_ifs
    · exact Nat.zero_le _
    · exact Nat.succ_le_succ (ih _)

theorem length_getvch_le {n : Int} (h : n.natAbs < 2 ^ 64) :
    (getvch n).length ≤ maxScriptElementSize := by
  have hlog : Nat.log2 n.natAbs < 64 := by
    by_cases hzero : n.natAbs = 0
    · rw [hzero]
      decide
    · exact (Nat.log2_lt hzero).mpr h
  have hbytes := length_magBytes_le (Nat.log2 n.natAbs / 8 + 1) n.natAbs
  unfold getvch maxScriptElementSize
  dsimp only
  split
  · exact Nat.zero_le _
  · split_ifs <;> simp <;> omega

theorem natAbs_bnOfVch_lt (vch : Valtype) : (bnOfVch vch).natAbs < 256 ^ vch.length := by
  unfold bnOfVch
  cases hlast : vch.getLast? with
  | none => exact Nat.pow_pos (by decide)
  | some b =>
    have hne : vch ≠ [] := by
      rintro rfl
      cases hlast
    have hlen : (vch.dropLast ++ [b &&& 0x7f]).length = vch.length := by
      rw [List.length_append, List.length_dropLast, List.length_singleton]
      have := List.length_pos_iff.mpr hne
      omega
    have hlt := leNat_lt (vch.dropLast ++ [b &&& 0x7f])
    rw [hlen] at hlt
    dsimp only
    split_ifs
    · simpa using hlt
    · simpa using hlt

variable {opcode : UInt8} {vch : Valtype} {stack stack' : List Valtype} {scriptCode : CScript}

theorem natAbs_unaryOp_lt {bn bn' : Int} (h : unaryOp opcode bn = some bn') :
    bn'.natAbs ≤ bn.natAbs + 1 := by
  have hbool : ∀ b, (bnBool b).natAbs ≤ 1 := by decide
  unfold unaryOp at h
  split at h
  · cases h
    omega
  · cases h
    omega
  · cases h
    omega
  · cases h
    split_ifs <;> omega
  · cases h
    exact (hbool _).trans (Nat.le_add_left 1 _)
  · cases h
    exact (hbool _).trans (Nat.le_add_left 1 _)
  · cases h

theorem natAbs_binaryOp_lt {bn1 bn2 bn : Int} (h : binaryOp opcode bn1 bn2 = some bn) :
    bn.natAbs ≤ bn1.natAbs + bn2.natAbs + 1 := by
  have hbool : ∀ b, (bnBool b).natAbs ≤ bn1.natAbs + bn2.natAbs + 1 := by
    intro b
    cases b <;> simp [bnBool]
  unfold binaryOp at h
  split at h <;> cases h <;> first | exact hbool _ | omega

/-! ## 5. What may happen -/

/-- A script is refused, or a number is too long. -/
def Harmless : Stop → Prop
  | .reject _ _ => True
  | .throw msg => msg = "CastToBigNum() : overflow"
  | .oob _ => False

/-- No item is too big. -/
structure EvalState.Small (s : EvalState) : Prop where
  stack : ∀ vch ∈ s.stack, vch.length ≤ maxScriptElementSize
  altstack : ∀ vch ∈ s.altstack, vch.length ≤ maxScriptElementSize

theorem EvalState.Small.push {s : EvalState} (h : s.Small)
    (hvch : vch.length ≤ maxScriptElementSize) : (s.push vch).Small :=
  ⟨List.forall_mem_cons.mpr ⟨hvch, h.stack⟩, h.altstack⟩

theorem EvalState.Small.of_subset {s s' : EvalState} (h : s.Small) (hstack : s'.stack ⊆ s.stack)
    (halt : s'.altstack ⊆ s.altstack) : s'.Small :=
  ⟨fun vch hmem => h.stack vch (hstack hmem), fun vch hmem => h.altstack vch (halt hmem)⟩

theorem ends_check {c : Prop} [Decidable c] {msg : String} :
    Ends Harmless (fun _ => ¬ c) (refuse c 0 msg) := ends_refuse (Or.inr trivial)

theorem ends_need (s : EvalState) (n : Nat) :
    Ends Harmless (fun _ => n ≤ s.stack.length) (s.need n) :=
  ends_check.mono fun _ => Nat.not_lt.mp

theorem ends_top {s : EvalState} {i : Nat} (hpos : 1 ≤ i) (hi : i ≤ s.stack.length) :
    Ends Harmless (fun vch => vch ∈ s.stack) (s.top i) := by
  have hlt : i - 1 < s.stack.length := by omega
  rw [top_eq.mpr (List.getElem?_eq_getElem hlt)]
  exact List.getElem_mem hlt

theorem ends_pop {s : EvalState} (h : 1 ≤ s.stack.length) :
    Ends Harmless (fun s' => s' = { s with stack := s.stack.tail }) s.pop := by
  obtain ⟨_ | ⟨vch, rest⟩, altstack, vfExec, nOpCount, codehash⟩ := s
  · simp at h
  · rfl

theorem ends_popN {n : Nat} {s : EvalState} (h : n ≤ s.stack.length) :
    Ends Harmless (fun s' => s' = { s with stack := s.stack.drop n }) (popN n s) := by
  have hsplit : s.stack = s.stack.take n ++ s.stack.drop n := (List.take_append_drop n _).symm
  have hpop := popN_append hsplit
  rw [List.length_take_of_le h] at hpop
  rw [hpop]
  rfl

theorem ends_castToBigNum (vch : Valtype) {nMaxNumSize : Nat} (hmax : nMaxNumSize ≤ 5) :
    Ends Harmless (fun bn => bn.natAbs < 2 ^ 40) (castToBigNum vch nMaxNumSize) := by
  unfold castToBigNum
  split_ifs with hlong
  · rfl
  · have hle : vch.length ≤ 5 := (Nat.not_lt.mp hlong).trans hmax
    refine (natAbs_bnOfVch_lt vch).trans_le ?_
    calc 256 ^ vch.length ≤ 256 ^ 5 := Nat.pow_le_pow_right (by decide) hle
      _ = 2 ^ 40 := by decide

theorem length_vchBool_le (b : Bool) : (vchBool b).length ≤ maxScriptElementSize := by
  cases b <;> decide

theorem ends_pushVerdict {s : EvalState} (h : s.Small) (fSuccess fVerify : Bool) :
    Ends Harmless EvalState.Small (pushVerdict s fSuccess fVerify) := by
  unfold pushVerdict
  split_ifs
  · exact h
  · trivial
  · exact h.push (length_vchBool_le _)

/-! ## 6. Instruction by instruction -/

/-- The digests have their sizes. -/
structure Crypto.DigestSizes (K : Crypto) : Prop where
  ripemd160 : ∀ b, (K.ripemd160 b).length = 20
  sha1 : ∀ b, (K.sha1 b).length = 20
  sha256 : ∀ b, (K.sha256 b).length = 32

theorem ends_checkLockTimeVerify (ctx : EvalCtx) (h : s.Small) :
    Ends Harmless EvalState.Small (evalCheckLockTimeVerify ctx s) := by
  unfold evalCheckLockTimeVerify
  split_ifs
  · trivial
  · exact h
  · refine (ends_need s 1).bind fun _ hlen => ?_
    refine (ends_top (Nat.le_refl 1) hlen).bind fun vch _ => ?_
    refine (ends_castToBigNum vch (by decide)).bind fun nLockTime _ => ?_
    generalize checkLockTime ctx nLockTime = fLockTime
    refine ends_check.bind fun _ _ => ?_
    refine ends_check.bind fun _ _ => ?_
    exact h

theorem ends_control (ctx : EvalCtx) (opcode : UInt8) (fExec : Bool) (h : s.Small) :
    Ends Harmless EvalState.Small (evalControl ctx opcode fExec s) := by
  have hif : ∀ o : UInt8, Ends Harmless EvalState.Small (if fExec then do
        s.need 1
        let vch ← s.top 1
        let fValue := if o = 0x64 then !castToBool vch else castToBool vch
        let s ← s.pop
        return { s with vfExec := fValue :: s.vfExec }
      else .ok { s with vfExec := false :: s.vfExec }) := by
    intro o
    by_cases hexec : fExec = true
    · rw [if_pos hexec]
      refine (ends_need s 1).bind fun _ hlen => ?_
      refine (ends_top (Nat.le_refl 1) hlen).bind fun vch _ => ?_
      refine (ends_pop hlen).bind fun s' hs' => ?_
      subst hs'
      exact h.of_subset (List.tail_subset _) (List.Subset.refl _)
    · rw [if_neg hexec]
      exact h.of_subset (List.Subset.refl _) (List.Subset.refl _)
  unfold evalControl
  split
  · exact h
  · exact ends_checkLockTimeVerify ctx h
  · exact hif 0x63
  · exact hif 0x64
  · split
    · trivial
    · exact h.of_subset (List.Subset.refl _) (List.Subset.refl _)
  · split
    · trivial
    · exact h.of_subset (List.Subset.refl _) (List.Subset.refl _)
  · refine (ends_need s 1).bind fun _ hlen => ?_
    refine (ends_top (Nat.le_refl 1) hlen).bind fun vch _ => ?_
    split_ifs
    · refine (ends_pop hlen).mono fun s' hs' => ?_
      subst hs'
      exact h.of_subset (List.tail_subset _) (List.Subset.refl _)
    · trivial
  · trivial
  · split_ifs
    · trivial
    · exact h
    · trivial

theorem ends_pick (fRoll : Bool) (h : s.Small) :
    Ends Harmless EvalState.Small (evalPick fRoll s) := by
  unfold evalPick
  refine (ends_need s 2).bind fun _ hlen => ?_
  refine (ends_top (Nat.le_refl 1) (by omega)).bind fun vchN _ => ?_
  refine (ends_castToBigNum vchN (by decide)).bind fun bn _ => ?_
  refine (ends_pop (by omega)).bind fun s' hs' => ?_
  have hsmall : s'.Small := by
    subst hs'
    exact h.of_subset (List.tail_subset _) (List.Subset.refl _)
  refine ends_check.bind fun _ hn => ?_
  -- the number read off the stack points into what is left of it
  refine (ends_top (Nat.succ_pos _) (by omega)).bind fun vch hmem => ?_
  have hvch := hsmall.stack vch hmem
  split_ifs
  · refine EvalState.Small.push ?_ hvch
    exact hsmall.of_subset (List.eraseIdx_sublist _ _).subset (List.Subset.refl _)
  · exact hsmall.push hvch

/-- What the instructions that move items leave was there, or is a short number. -/
theorem mem_stackShuffle (h : stackShuffle opcode stack = some stack') (hmem : vch ∈ stack') :
    vch ∈ stack ∨ (∃ n : Nat, n ≤ stack.length ∧ vch = getvch n) ∨
      ∃ x ∈ stack, vch = getvch x.length := by
  unfold stackShuffle at h
  dsimp only at h
  split at h <;> cases h <;> grind

theorem ends_stack (opcode : UInt8) (h : s.Small) (hcount : s.stack.length ≤ 1000) :
    Ends Harmless EvalState.Small (evalStack opcode s) := by
  have hequal : ∀ o : UInt8, Ends Harmless EvalState.Small (do
      s.need 2
      let vch1 ← s.top 2
      let vch2 ← s.top 1
      let s ← popN 2 s
      pushVerdict s (vch1 == vch2) (o == 0x88)) := by
    intro o
    refine (ends_need s 2).bind fun _ hlen => ?_
    refine (ends_top (by decide) hlen).bind fun vch1 _ => ?_
    refine (ends_top (Nat.le_refl 1) (by omega)).bind fun vch2 _ => ?_
    refine (ends_popN hlen).bind fun s' hs' => ?_
    subst hs'
    refine ends_pushVerdict ?_ _ _
    exact h.of_subset (List.drop_subset _ _) (List.Subset.refl _)
  unfold evalStack
  split
  · refine (ends_need s 1).bind fun _ hlen => ?_
    refine (ends_top (Nat.le_refl 1) hlen).bind fun vch hmem => ?_
    refine (ends_pop hlen).bind fun s' hs' => ?_
    subst hs'
    exact ⟨fun x hx => h.stack x (List.mem_of_mem_tail hx),
      List.forall_mem_cons.mpr ⟨h.stack vch hmem, h.altstack⟩⟩
  · split
    · trivial
    · next vch rest halt =>
      have hsub : rest ⊆ s.altstack := by
        rw [halt]
        exact List.subset_cons_self _ _
      have hvch : vch ∈ s.altstack := by
        rw [halt]
        exact List.mem_cons_self
      refine EvalState.Small.push ?_ (h.altstack vch hvch)
      exact h.of_subset (List.Subset.refl _) hsub
  · exact ends_pick false h
  · exact ends_pick true h
  · exact hequal 0x87
  · exact hequal 0x88
  · split
    · next stack' hshuffle =>
      refine ⟨fun vch hmem => ?_, h.altstack⟩
      rcases mem_stackShuffle hshuffle hmem with hold | ⟨n, hn, rfl⟩ | ⟨x, hx, rfl⟩
      · exact h.stack vch hold
      · exact length_getvch_le (by omega)
      · have hsize := h.stack x hx
        unfold maxScriptElementSize at hsize
        exact length_getvch_le (by omega)
    · trivial

theorem ends_numeric (opcode : UInt8) (h : s.Small) :
    Ends Harmless EvalState.Small (evalNumeric opcode s) := by
  have hnDefault : nDefaultMaxNumSize ≤ 5 := by decide
  have hdrop : ∀ n : Nat, EvalState.Small { s with stack := s.stack.drop n } := fun n =>
    h.of_subset (List.drop_subset _ _) (List.Subset.refl _)
  unfold evalNumeric
  by_cases hone : opcode < 0x93
  · rw [if_pos hone]
    refine (ends_need s 1).bind fun _ hlen => ?_
    refine (ends_top (Nat.le_refl 1) hlen).bind fun vch _ => ?_
    refine (ends_castToBigNum vch hnDefault).bind fun bn hbn => ?_
    cases hop : unaryOp opcode bn with
    | none => trivial
    | some bn' =>
      have hle := natAbs_unaryOp_lt hop
      refine (ends_pop hlen).bind fun s' hs' => ?_
      have hsmall : s'.Small := by
        subst hs'
        exact h.of_subset (List.tail_subset _) (List.Subset.refl _)
      exact hsmall.push (length_getvch_le (by omega))
  rw [if_neg hone]
  by_cases htwo : opcode < 0xa5
  · rw [if_pos htwo]
    refine (ends_need s 2).bind fun _ hlen => ?_
    refine (ends_top (by decide) hlen).bind fun vch1 _ => ?_
    refine (ends_top (Nat.le_refl 1) (by omega)).bind fun vch2 _ => ?_
    refine (ends_castToBigNum vch1 hnDefault).bind fun bn1 hbn1 => ?_
    refine (ends_castToBigNum vch2 hnDefault).bind fun bn2 hbn2 => ?_
    cases hop : binaryOp opcode bn1 bn2 with
    | none => trivial
    | some bn =>
      have hle := natAbs_binaryOp_lt hop
      refine (ends_popN hlen).bind fun s' hs' => ?_
      have hsmall : s'.Small := by
        subst hs'
        exact hdrop 2
      by_cases hverify : opcode = 0x9d
      · rw [if_pos hverify]
        exact ends_pushVerdict hsmall _ _
      · rw [if_neg hverify]
        exact hsmall.push (length_getvch_le (by omega))
  · rw [if_neg htwo]
    refine (ends_need s 3).bind fun _ hlen => ?_
    refine (ends_top (by decide) hlen).bind fun vch1 _ => ?_
    refine (ends_top (by decide) (by omega)).bind fun vch2 _ => ?_
    refine (ends_top (Nat.le_refl 1) (by omega)).bind fun vch3 _ => ?_
    refine (ends_castToBigNum vch1 hnDefault).bind fun bn1 _ => ?_
    refine (ends_castToBigNum vch2 hnDefault).bind fun bn2 _ => ?_
    refine (ends_castToBigNum vch3 hnDefault).bind fun bn3 _ => ?_
    refine (ends_popN hlen).bind fun s' hs' => ?_
    have hsmall : s'.Small := by
      subst hs'
      exact hdrop 3
    exact hsmall.push (length_vchBool_le _)

theorem ends_sigVerdict (scriptCode : CScript) (vchSig vchPubKey : Valtype) :
    Ends Harmless (fun _ => True) (sigVerdict K ctx scriptCode vchSig vchPubKey) := by
  unfold sigVerdict
  dsimp only
  split_ifs
  · trivial
  · trivial

theorem ends_checkSig (fVerify : Bool) (h : s.Small) :
    Ends Harmless EvalState.Small (evalCheckSig K ctx fVerify s) := by
  unfold evalCheckSig
  refine (ends_need s 2).bind fun _ hlen => ?_
  refine (ends_top (by decide) hlen).bind fun vchSig _ => ?_
  refine (ends_top (Nat.le_refl 1) (by omega)).bind fun vchPubKey _ => ?_
  refine (ends_sigVerdict _ vchSig vchPubKey).bind fun fSuccess _ => ?_
  refine (ends_popN hlen).bind fun s' hs' => ?_
  subst hs'
  refine ends_pushVerdict ?_ _ _
  exact h.of_subset (List.drop_subset _ _) (List.Subset.refl _)

/-- The signatures are all on the stack. -/
theorem ends_dropSigs {isig n k : Nat} (hpos : 1 ≤ isig) (hlen : isig + k + n ≤
      s.stack.length + 1) :
    Ends Harmless (fun _ => True) (dropSigs s isig n k scriptCode) := by
  induction n generalizing k scriptCode with
  | zero => trivial
  | succ n ih =>
    rw [dropSigs]
    refine (ends_top (by omega) (by omega)).bind fun vchSig _ => ?_
    exact ih (by omega)

/-- As long as the keys and the signatures that are left are on the stack, so are the next ones. -/
theorem ends_multisigLoop {nKeys isig ikey nSigs : Nat} (hsig : 1 ≤ isig) (hkey : 1 ≤ ikey)
    (hsigs : isig + nSigs ≤ s.stack.length + 1) (hkeys : ikey + nKeys ≤ s.stack.length + 1) :
    Ends Harmless (fun _ => True) (multisigLoop K ctx scriptCode s nKeys isig ikey nSigs) := by
  induction nKeys generalizing isig ikey nSigs with
  | zero => trivial
  | succ nKeys ih =>
    rw [multisigLoop]
    by_cases hnone : nSigs = 0
    · rw [if_pos hnone]
      trivial
    · rw [if_neg hnone]
      refine (ends_top hsig (by omega)).bind fun vchSig _ => ?_
      refine (ends_top hkey (by omega)).bind fun vchPubKey _ => ?_
      refine (ends_sigVerdict scriptCode vchSig vchPubKey).bind fun fOk _ => ?_
      cases fOk with
      | true =>
        by_cases hmore : nSigs - 1 > nKeys
        · exact (congrArg (Ends Harmless fun _ => True) (if_pos hmore)).mpr trivial
        · refine (congrArg (Ends Harmless fun _ => True) (if_neg hmore)).mpr ?_
          exact @ih (isig + 1) (ikey + 1) (nSigs - 1) (by omega) (by omega) (by omega) (by omega)
      | false =>
        by_cases hmore : nSigs > nKeys
        · exact (congrArg (Ends Harmless fun _ => True) (if_pos hmore)).mpr trivial
        · refine (congrArg (Ends Harmless fun _ => True) (if_neg hmore)).mpr ?_
          exact ih hsig (by omega) hsigs (by omega)

theorem ends_checkMultisig (fVerify : Bool) (h : s.Small) :
    Ends Harmless EvalState.Small (evalCheckMultisig K ctx fVerify s) := by
  have hnDefault : nDefaultMaxNumSize ≤ 5 := by decide
  unfold evalCheckMultisig
  refine (ends_need s 1).bind fun _ hlen => ?_
  refine (ends_top (Nat.le_refl 1) hlen).bind fun vchKeys _ => ?_
  refine (ends_castToBigNum vchKeys hnDefault).bind fun bnKeys _ => ?_
  refine ends_check.bind fun _ hkeys => ?_
  refine ends_check.bind fun _ _ => ?_
  refine (ends_need _ _).bind fun _ hlenKeys => ?_
  refine (ends_top (by omega) hlenKeys).bind fun vchSigs _ => ?_
  refine (ends_castToBigNum vchSigs hnDefault).bind fun bnSigs _ => ?_
  refine ends_check.bind fun _ hsigs => ?_
  refine (ends_need _ _).bind fun _ hlenSigs => ?_
  refine (ends_dropSigs (by omega) (by omega)).bind fun scriptCode _ => ?_
  refine (ends_multisigLoop (by omega) (by omega) (by omega) (by omega)).bind fun fSuccess _ => ?_
  refine (ends_popN (by omega)).bind fun s' hs' => ?_
  have hsmall : s'.Small := by
    subst hs'
    exact h.of_subset (List.drop_subset _ _) (List.Subset.refl _)
  refine (ends_need s' 1).bind fun _ hlast => ?_
  refine (ends_top (Nat.le_refl 1) hlast).bind fun dummy _ => ?_
  refine ends_check.bind fun _ _ => ?_
  refine (ends_pop hlast).bind fun s'' hs'' => ?_
  subst hs''
  refine ends_pushVerdict ?_ _ _
  exact hsmall.of_subset (List.tail_subset _) (List.Subset.refl _)

theorem Crypto.DigestSizes.length_hashOp_le (hK : K.DigestSizes) (opcode : UInt8) (vch : Valtype) :
    (hashOp K opcode vch).length ≤ maxScriptElementSize := by
  unfold hashOp maxScriptElementSize
  split
  · rw [hK.ripemd160]
    decide
  · rw [hK.sha1]
    decide
  · rw [hK.sha256]
    decide
  · rw [hash160, hK.ripemd160]
    decide
  · rw [serUInt256, length_leBytes]
    decide

theorem ends_crypto (hK : K.DigestSizes) (opcode : UInt8) (pc : CScript) (h : s.Small) :
    Ends Harmless EvalState.Small (evalCrypto K ctx opcode pc s) := by
  unfold evalCrypto
  split
  · exact h.of_subset (List.Subset.refl _) (List.Subset.refl _)
  · exact ends_checkSig false h
  · exact ends_checkSig true h
  · exact ends_checkMultisig false h
  · exact ends_checkMultisig true h
  · refine (ends_need s 1).bind fun _ hlen => ?_
    refine (ends_top (Nat.le_refl 1) hlen).bind fun vch _ => ?_
    refine (ends_pop hlen).bind fun s' hs' => ?_
    have hsmall : s'.Small := by
      subst hs'
      exact h.of_subset (List.tail_subset _) (List.Subset.refl _)
    exact hsmall.push (hK.length_hashOp_le opcode vch)

/-- **No instruction stops in an access**, and none leaves an item that is too big. -/
theorem ends_op (hK : K.DigestSizes) (opcode : UInt8) (pc : CScript) (fExec : Bool) (h : s.Small)
    (hcount : s.stack.length ≤ 1000) :
    Ends Harmless EvalState.Small (evalOp K ctx opcode pc fExec s) := by
  unfold evalOp
  split_ifs with hpush
  · refine h.push (length_getvch_le ?_)
    have hlt := opcode.toNat_lt
    omega
  · exact ends_control ctx opcode fExec h
  · exact ends_stack opcode h hcount
  · exact ends_numeric opcode h
  · exact ends_crypto hK opcode pc h
  · trivial

/-! ## 7. Whole scripts -/

/-- Before an instruction: no item is too big, and there are not too many. -/
structure EvalState.Bounded (s : EvalState) : Prop extends s.Small where
  count : s.stack.length + s.altstack.length ≤ 1000

theorem ends_execInstruction (hK : K.DigestSizes) {vchPushValue : Valtype} (pc : CScript)
    (fExec : Bool) (h : s.Small) (hcount : s.stack.length ≤ 1000)
    (hpush : vchPushValue.length ≤ maxScriptElementSize) :
    Ends Harmless EvalState.Small (execInstruction K ctx opcode vchPushValue pc fExec s) := by
  unfold execInstruction
  split_ifs
  · exact h.push hpush
  · exact ends_op hK opcode pc fExec h hcount
  · exact h

/-- One round of the loop. -/
theorem ends_evalStep (hK : K.DigestSizes) (pc : CScript) (h : s.Bounded) :
    Ends Harmless (fun r => r.2.Bounded) (evalStep K ctx pc s) := by
  unfold evalStep
  cases hop : getOp pc with
  | none => trivial
  | some p =>
    obtain ⟨opcode, vchPushValue, pc'⟩ := p
    refine ends_check.bind fun _ hsize => ?_
    refine ends_check.bind fun _ _ => ?_
    refine ends_check.bind fun _ _ => ?_
    have hcount : s.stack.length ≤ 1000 := (Nat.le_add_right _ _).trans h.count
    have hcounted : ∀ s' : EvalState,
        s' = (if opcode > op16 then { s with nOpCount := s.nOpCount + 1 } else s) →
          s'.Small ∧ s'.stack.length ≤ 1000 := by
      intro s' hs'
      split_ifs at hs' <;> subst hs'
      · exact ⟨⟨h.stack, h.altstack⟩, hcount⟩
      · exact ⟨h.toSmall, hcount⟩
    obtain ⟨hsmall, hlen⟩ := hcounted _ rfl
    refine (ends_execInstruction hK pc' _ hsmall hlen (Nat.not_lt.mp hsize)).bind fun s' hs' => ?_
    refine ends_check.bind fun _ hfits => ?_
    exact ⟨hs', Nat.not_lt.mp hfits⟩

/-- **Every run ends harmlessly**, and with a stack as small as the one it began with. -/
theorem ends_evalLoop (hK : K.DigestSizes) (fuel : Nat) (pc : CScript) (h : s.Bounded) :
    Ends Harmless EvalState.Bounded (evalLoop K ctx fuel pc s) := by
  induction fuel generalizing pc s with
  | zero => exact h
  | succ fuel ih =>
    rw [evalLoop]
    split_ifs
    · exact h
    · exact (ends_evalStep hK pc h).bind fun r hr => ih r.1 hr

/-- A round takes an instruction off the script. -/
theorem length_evalStep {r : CScript × EvalState} (h : evalStep K ctx pc s = .ok r) :
    r.1.length < pc.length := by
  unfold evalStep at h
  cases hop : getOp pc with
  | none => simp [hop, failOp] at h
  | some p =>
    simp only [hop, bind_eq_ok, pure_eq_ok] at h
    obtain ⟨-, -, -, -, -, -, -, -, -, -, rfl⟩ := h
    exact getOp_length hop

/-- **More rounds than the script has bytes change nothing.** -/
theorem evalLoop_fuel {fuel fuel' : Nat} (h : pc.length ≤ fuel) (h' : pc.length ≤ fuel') :
    evalLoop K ctx fuel pc s = evalLoop K ctx fuel' pc s := by
  induction fuel generalizing fuel' pc s with
  | zero =>
    have hend := List.length_eq_zero_iff.mp (Nat.le_zero.mp h)
    subst hend
    cases fuel' <;> rfl
  | succ fuel ih =>
    by_cases hend : pc = []
    · subst hend
      cases fuel' <;> rfl
    · have hpos := List.length_pos_iff.mpr hend
      obtain ⟨n, rfl⟩ := Nat.exists_eq_succ_of_ne_zero (show fuel' ≠ 0 by omega)
      rw [evalLoop, if_neg hend, evalLoop, if_neg hend]
      cases hstep : evalStep K ctx pc s with
      | error e => rfl
      | ok r =>
        have hshort := length_evalStep hstep
        exact ih (by omega) (by omega)

/-- What a script leaves is as small as what it began with, and all conditions are closed. -/
theorem evalScript_bounded (hK : K.DigestSizes) {script : CScript} (hcount : stack.length ≤ 1000)
    (hsize : ∀ vch ∈ stack, vch.length ≤ maxScriptElementSize)
    (h : evalScript K ctx stack script = some stack') :
    stack'.length ≤ 1000 ∧ (∀ vch ∈ stack', vch.length ≤ maxScriptElementSize) ∧
      ∃ s, evalLoop K ctx script.length script ⟨stack, [], [], 0, script⟩ = .ok s ∧
        s.stack = stack' ∧ s.vfExec = [] := by
  have hstart : EvalState.Bounded ⟨stack, [], [], 0, script⟩ := ⟨⟨hsize, nofun⟩, hcount⟩
  have hends := ends_iff.mp (@ends_evalLoop K ctx _ hK script.length script hstart)
  unfold evalScript at h
  split_ifs at h with hlong
  cases hloop : evalLoop K ctx script.length script ⟨stack, [], [], 0, script⟩ with
  | error e => simp [hloop] at h
  | ok s =>
    simp only [hloop] at h
    split_ifs at h with hclosed
    obtain rfl := Option.some.inj h
    have hbounded := hends.1 s hloop
    exact ⟨(Nat.le_add_right _ _).trans hbounded.count, hbounded.stack, s, rfl, rfl, hclosed⟩

/-- **`EvalScript` is safe**: it does every access in range and comes to an end, no exception is
thrown but the one for a number that is too long, and when it returns true the stack is as small as
the one it began with and all conditions are closed. -/
theorem evalScript_safe (hK : K.DigestSizes) {stack : List Valtype} (hcount : stack.length ≤ 1000)
    (hsize : ∀ vch ∈ stack, vch.length ≤ maxScriptElementSize) (ctx : EvalCtx) (script : CScript) :
    (∀ opcode pc fExec s, evalOpAt K ctx opcode pc fExec s = evalOp K ctx opcode pc fExec s) ∧
    (∀ fuel, script.length ≤ fuel → evalLoop K ctx fuel script ⟨stack, [], [], 0, script⟩ =
      evalLoop K ctx script.length script ⟨stack, [], [], 0, script⟩) ∧
    (∀ e, evalLoop K ctx script.length script ⟨stack, [], [], 0, script⟩ = .error e → Harmless e) ∧
    ∀ stack', evalScript K ctx stack script = some stack' →
      stack'.length ≤ 1000 ∧ (∀ vch ∈ stack', vch.length ≤ maxScriptElementSize) ∧
        ∃ s, evalLoop K ctx script.length script ⟨stack, [], [], 0, script⟩ = .ok s ∧
          s.stack = stack' ∧ s.vfExec = [] := by
  have hstart : EvalState.Bounded ⟨stack, [], [], 0, script⟩ := ⟨⟨hsize, nofun⟩, hcount⟩
  have hends := ends_iff.mp (@ends_evalLoop K ctx _ hK script.length script hstart)
  exact ⟨fun opcode pc fExec s => evalOpAt_eq opcode, fun fuel hfuel =>
    evalLoop_fuel hfuel (Nat.le_refl _), hends.2, fun stack' h =>
      evalScript_bounded hK hcount hsize h⟩

/-- Digests of zeros. -/
def zeroCrypto : Crypto :=
  { Crypto.sample [] with
    sha256 := fun _ => List.replicate 32 0
    sha1 := fun _ => List.replicate 20 0
    ripemd160 := fun _ => List.replicate 20 0 }

/-- Two numbers are added, and the sum is what is left. -/
theorem evalScript_safe_add :
    ([[5]] : List Valtype).length ≤ 1000 ∧
      ∃ s, evalLoop zeroCrypto (emptyCtx 0) 1 [0x93] ⟨[[2], [3]], [], [], 0, [0x93]⟩ = .ok s ∧
        s.stack = [[5]] ∧ s.vfExec = [] := by
  have hsafe := @evalScript_safe zeroCrypto ⟨fun _ => rfl, fun _ => rfl, fun _ => rfl⟩ [[2], [3]]
    (by decide) (by decide) (emptyCtx 0) [0x93]
  have hsum := hsafe.2.2.2 [[5]] rfl
  exact ⟨hsum.1, hsum.2.2⟩

end Breakout
