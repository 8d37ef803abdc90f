/-
# Spending an output that pays to a key

`Solver` recognises `<key> OP_CHECKSIG` and `OP_DUP OP_HASH160 <hash> OP_EQUALVERIFY OP_CHECKSIG`.  An input
that spends such an output may have any script; what counts is the stack this leaves.  On top of it
is a signature by the key (`verifyScript_pubkey`), or a key with the hash and under it a signature by that
key (`verifyScript_pubkeyhash`).
-/
import Breakout.Interpreter

namespace Breakout

open Lib

/-! ## 1. The scripts that are recognised -/

variable {s rest : CScript} {opcode : UInt8} {vch : Valtype}

/-- Only a push has data. -/
theorem getOp_push (h : getOp s = some (opcode, vch, rest)) (hvch : vch ≠ []) :
    opcode ≤ opPushdata4 := by
  cases s with
  | nil => cases h
  | cons b s =>
    by_contra hnot
    obtain rfl := getOp_head h
    rw [getOp_of_not_push hnot] at h
    cases h
    exact hvch rfl

/-- `<vchPubKey> OP_CHECKSIG` -/
structure PayToPubKey (s : CScript) (vchPubKey : Valtype) : Prop where
  reads : ∃ opcode pc, getOp s = some (opcode, vchPubKey, pc) ∧ getOp pc = some (opChecksig, [], [])
  length : 33 ≤ vchPubKey.length

/-- `OP_DUP OP_HASH160 <hash> OP_EQUALVERIFY OP_CHECKSIG` -/
structure PayToPubKeyHash (s : CScript) (hash : Valtype) : Prop where
  reads : ∃ opcode pc₁ pc₂ pc₃ pc₄, getOp s = some (opDup, [], pc₁) ∧
    getOp pc₁ = some (opHash160, [], pc₂) ∧ getOp pc₂ = some (opcode, hash, pc₃) ∧
    getOp pc₃ = some (opEqualverify, [], pc₄) ∧ getOp pc₄ = some (opChecksig, [], [])
  length : hash.length = 20

variable {sols sols' : List Valtype}

/-- One instruction of a template that is an instruction itself. -/
theorem matchTemplate_op {opcode2 : UInt8} {tpl : List UInt8}
    (hop : opcode2 ∉ [opPubkey, opPubkeyhash, opPubkeys, opSmallinteger, opSmalldata])
    (h : matchTemplate s (opcode2 :: tpl) sols = some sols') :
    ∃ pc, getOp s = some (opcode2, [], pc) ∧ matchTemplate pc tpl sols = some sols' := by
  simp only [List.mem_cons, List.not_mem_nil, or_false, not_or] at hop
  obtain ⟨hkey, hhash, hkeys, hint, hdata⟩ := hop
  rw [matchTemplate] at h
  cases hg : getOp s with
  | none => simp [hg] at h
  | some p =>
    obtain ⟨opcode1, vch1, pc⟩ := p
    simp only [hg] at h
    rw [if_neg hkeys, matchOp, if_neg hkey, if_neg hhash, if_neg hint, if_neg hdata] at h
    by_cases hsame : opcode1 ≠ opcode2 ∨ vch1 ≠ []
    · rw [if_pos hsame] at h
      cases h
    · rw [if_neg hsame] at h
      rw [not_or, not_not, not_not] at hsame
      obtain ⟨rfl, rfl⟩ := hsame
      exact ⟨pc, rfl, h⟩

theorem matchTemplate_nil (h : matchTemplate s [] sols = some sols') :
    s = [] ∧ sols = sols' := by
  rw [matchTemplate] at h
  split at h
  · next hs => exact ⟨hs, Option.some_inj.mp h⟩
  · cases h

theorem payToPubKey_of_match (h : matchTemplate s [opPubkey, opChecksig] [] = some sols) :
    ∃ vchPubKey, sols = [vchPubKey] ∧ PayToPubKey s vchPubKey := by
  rw [matchTemplate] at h
  cases hg : getOp s with
  | none => simp [hg] at h
  | some p =>
    obtain ⟨opcode, vch, pc⟩ := p
    simp only [hg] at h
    rw [if_neg (by decide), matchOp, if_pos rfl] at h
    by_cases hlen : vch.length < 33 ∨ vch.length > 120
    · rw [if_pos hlen] at h
      cases h
    · rw [if_neg hlen] at h
      obtain ⟨pc', hsig, hend⟩ := matchTemplate_op (by decide) h
      obtain ⟨rfl, rfl⟩ := matchTemplate_nil hend
      exact ⟨vch, rfl, ⟨opcode, pc, hg, hsig⟩, by omega⟩

theorem payToPubKeyHash_of_match
    (h : matchTemplate s [opDup, opHash160, opPubkeyhash, opEqualverify, opChecksig] [] = some sols) :
    ∃ hash, sols = [hash] ∧ PayToPubKeyHash s hash := by
  obtain ⟨pc₁, hdup, h⟩ := matchTemplate_op (by decide) h
  obtain ⟨pc₂, hhash160, h⟩ := matchTemplate_op (by decide) h
  rw [matchTemplate] at h
  cases hg : getOp pc₂ with
  | none => simp [hg] at h
  | some p =>
    obtain ⟨opcode, vch, pc₃⟩ := p
    simp only [hg] at h
    rw [if_neg (by decide), matchOp, if_neg (by decide), if_pos rfl] at h
    by_cases hlen : vch.length ≠ 20
    · rw [if_pos hlen] at h
      cases h
    · rw [if_neg hlen] at h
      obtain ⟨pc₄, hverify, h⟩ := matchTemplate_op (by decide) h
      obtain ⟨pc₅, hsig, hend⟩ := matchTemplate_op (by decide) h
      obtain ⟨rfl, rfl⟩ := matchTemplate_nil hend
      exact ⟨vch, rfl, ⟨opcode, pc₁, pc₂, pc₃, pc₄, hdup, hhash160, hg, hverify, hsig⟩,
        not_not.mp hlen⟩

theorem payToPubKey_of_solver (h : solver s = (true, .pubkey, sols)) :
    ∃ vchPubKey, sols = [vchPubKey] ∧ PayToPubKey s vchPubKey := by
  unfold solver at h
  split at h
  · cases h
  · simp only [mTemplates, scanTemplates] at h
    cases hm : matchTemplate s [opPubkey, opChecksig] [] with
    | some sols' =>
      simp only [hm, Prod.mk.injEq] at h
      rw [← h.2.2]
      exact payToPubKey_of_match hm
    | none =>
      simp only [hm] at h
      repeat' split at h
      all_goals simp at h

theorem payToPubKeyHash_of_solver (h : solver s = (true, .pubkeyhash, sols)) :
    ∃ hash, sols = [hash] ∧ PayToPubKeyHash s hash := by
  unfold solver at h
  split at h
  · cases h
  · simp only [mTemplates, scanTemplates] at h
    cases hm : matchTemplate s [opDup, opHash160, opPubkeyhash, opEqualverify, opChecksig] [] with
    | some sols' =>
      cases hm' : matchTemplate s [opPubkey, opChecksig] [] with
      | some sols'' => simp [hm'] at h
      | none =>
        simp only [hm', hm, Prod.mk.injEq] at h
        rw [← h.2.2]
        exact payToPubKeyHash_of_match hm
    | none =>
      simp only [hm] at h
      repeat' split at h
      all_goals simp at h

/-! ## 2. Rounds of the loop -/

variable {K : Crypto} {ctx : EvalCtx} {pc pc' : CScript} {st st' : EvalState} {fuel : Nat}

/-- "++nOpCount" -/
def EvalState.count (opcode : UInt8) (st : EvalState) : EvalState :=
  if opcode > op16 then { st with nOpCount := st.nOpCount + 1 } else st

@[simp] theorem EvalState.count_stack : (st.count opcode).stack = st.stack := by
  unfold count
  split <;> rfl

@[simp] theorem EvalState.count_vfExec : (st.count opcode).vfExec = st.vfExec := by
  unfold count
  split <;> rfl

/-- **One round, and the rest of the run.** -/
theorem evalLoop_cons (hlen : pc.length ≤ fuel) (hop : getOp pc = some (opcode, vch, pc'))
    (hexec : st.vfExec = []) (h : evalLoop K ctx fuel pc st = .ok st') :
    ∃ fuel' st₁, pc'.length ≤ fuel' ∧
      execInstruction K ctx opcode vch pc' true (st.count opcode) = .ok st₁ ∧
      evalLoop K ctx fuel' pc' st₁ = .ok st' := by
  have hshort := getOp_length hop
  cases fuel with
  | zero => omega
  | succ fuel =>
    have hne : pc ≠ [] := by
      rintro rfl
      cases hop
    rw [evalLoop, if_neg hne, bind_eq_ok] at h
    obtain ⟨⟨pc₁, st₁⟩, hstep, hrest⟩ := h
    unfold evalStep at hstep
    rw [hop] at hstep
    have hall : st.vfExec.all id = true := by rw [hexec, List.all_nil]
    simp only [bind_eq_ok, pure_eq_ok, hall] at hstep
    obtain ⟨-, -, -, -, -, -, st₂, hrun, -, -, heq⟩ := hstep
    cases heq
    exact ⟨fuel, st₁, by omega, hrun, hrest⟩

theorem evalLoop_nil (h : evalLoop K ctx fuel [] st = .ok st') : st' = st := by
  cases fuel with
  | zero =>
    cases h
    rfl
  | succ fuel =>
    rw [evalLoop, if_pos rfl] at h
    cases h
    rfl

variable {script scriptSig scriptPubKey : CScript} {vchPubKey : Valtype}

/-- What a script leaves is what its loop leaves. -/
theorem evalLoop_of_evalScript {stack stack' : List Valtype}
    (h : evalScript K ctx stack script = some stack') :
    ∃ st', evalLoop K ctx script.length script ⟨stack, [], [], 0, script⟩ = .ok st' ∧
      st'.stack = stack' := by
  unfold evalScript at h
  split at h
  · cases h
  · cases hl : evalLoop K ctx script.length script ⟨stack, [], [], 0, script⟩ with
    | error e => simp [hl] at h
    | ok st' =>
      simp only [hl] at h
      split at h
      · exact ⟨st', rfl, Option.some_inj.mp h⟩
      · cases h

/-! ## 3. The instructions of the two scripts -/

theorem exec_push (hop : opcode ≤ opPushdata4)
    (h : execInstruction K ctx opcode vch pc true st = .ok st') : st' = st.push vch := by
  rw [execInstruction, if_pos ⟨rfl, hop⟩] at h
  cases h
  rfl

theorem exec_dup (h : execInstruction K ctx opDup vch pc true st = .ok st') :
    ∃ x r, st.stack = x :: r ∧ st' = { st with stack := x :: x :: r } := by
  obtain ⟨stack, altstack, vfExec, nOpCount, codehash⟩ := st
  cases stack with
  | nil => cases h
  | cons x r =>
    cases h
    exact ⟨x, r, rfl, rfl⟩

theorem exec_hash160 (h : execInstruction K ctx opHash160 vch pc true st = .ok st') :
    ∃ x r, st.stack = x :: r ∧ st' = { st with stack := hash160 K x :: r } := by
  obtain ⟨stack, altstack, vfExec, nOpCount, codehash⟩ := st
  cases stack with
  | nil => cases h
  | cons x r =>
    cases h
    exact ⟨x, r, rfl, rfl⟩

theorem exec_equalverify (h : execInstruction K ctx opEqualverify vch pc true st = .ok st') :
    ∃ x r, st.stack = x :: x :: r ∧ st' = { st with stack := r } := by
  obtain ⟨stack, altstack, vfExec, nOpCount, codehash⟩ := st
  match stack with
  | [] => cases h
  | [x] => cases h
  | x :: y :: r =>
    have hrun : execInstruction K ctx opEqualverify vch pc true
        ⟨x :: y :: r, altstack, vfExec, nOpCount, codehash⟩ =
          pushVerdict ⟨r, altstack, vfExec, nOpCount, codehash⟩ (y == x) true := rfl
    rw [hrun, pushVerdict, if_pos rfl] at h
    by_cases hsame : y = x
    · subst hsame
      rw [if_pos (beq_self_eq_true y)] at h
      cases h
      exact ⟨y, r, rfl, rfl⟩
    · rw [if_neg (by simpa using hsame)] at h
      cases h

/-- The verdict of `OP_CHECKSIG`. -/
theorem exec_checksig (h : execInstruction K ctx opChecksig vch pc true st = .ok st') :
    ∃ vchPubKey vchSig r fSuccess, st.stack = vchPubKey :: vchSig :: r ∧
      sigVerdict K ctx (findAndDelete st.codehash (pushData vchSig)) vchSig vchPubKey = .ok fSuccess ∧
      st' = { st with stack := vchBool fSuccess :: r } := by
  obtain ⟨stack, altstack, vfExec, nOpCount, codehash⟩ := st
  match stack with
  | [] => cases h
  | [x] => cases h
  | vchPubKey :: vchSig :: r =>
    have hrun : execInstruction K ctx opChecksig vch pc true
        ⟨vchPubKey :: vchSig :: r, altstack, vfExec, nOpCount, codehash⟩ =
          (sigVerdict K ctx (findAndDelete codehash (pushData vchSig)) vchSig vchPubKey >>=
            fun fSuccess => .ok ⟨vchBool fSuccess :: r, altstack, vfExec, nOpCount, codehash⟩) := rfl
    rw [hrun, bind_eq_ok] at h
    obtain ⟨fSuccess, hverdict, heq⟩ := h
    cases heq
    exact ⟨vchPubKey, vchSig, r, fSuccess, rfl, hverdict, rfl⟩

theorem sigVerdict_true {scriptCode : CScript} {vchSig : Valtype}
    (h : sigVerdict K ctx scriptCode vchSig vchPubKey = .ok true) :
    checkSignatureEncoding vchSig ctx.flags = true ∧
      checkSig K vchSig vchPubKey scriptCode ctx.txTo ctx.nIn ctx.nHashType = true := by
  unfold sigVerdict at h
  dsimp only at h
  split at h
  · cases h
  · have hand := Except.ok.inj h
    rw [Bool.and_eq_true, Bool.and_eq_true] at hand
    exact ⟨hand.1.1, hand.2⟩

/-! ## 4. Spending -/

/-- A script that ends with `OP_CHECKSIG`, from there on. -/
theorem checksig_last (hlen : pc.length ≤ fuel) (hop : getOp pc = some (opChecksig, [], []))
    (hexec : st.vfExec = []) (h : evalLoop K ctx fuel pc st = .ok st') {result : Valtype}
    {left : List Valtype} (hstack : st'.stack = result :: left) (hresult : castToBool result = true) :
    ∃ vchPubKey vchSig r scriptCode, st.stack = vchPubKey :: vchSig :: r ∧
      checkSignatureEncoding vchSig ctx.flags = true ∧
      checkSig K vchSig vchPubKey scriptCode ctx.txTo ctx.nIn ctx.nHashType = true := by
  obtain ⟨fuel', st₁, -, hrun, hrest⟩ := evalLoop_cons hlen hop hexec h
  obtain rfl := evalLoop_nil hrest
  obtain ⟨vchPubKey, vchSig, r, fSuccess, hargs, hverdict, rfl⟩ := exec_checksig hrun
  rw [EvalState.count_stack] at hargs
  cases fSuccess with
  | false =>
    cases hstack
    cases hresult
  | true =>
    obtain ⟨hencoding, hsig⟩ := sigVerdict_true hverdict
    exact ⟨vchPubKey, vchSig, r, _, hargs, hencoding, hsig⟩

theorem verifyScript_runs (h : verifyScript K ctx scriptSig scriptPubKey = true) :
    ∃ stackCopy result left, evalScript K ctx [] scriptSig = some stackCopy ∧
      evalScript K ctx stackCopy scriptPubKey = some (result :: left) ∧ castToBool result = true := by
  unfold verifyScript at h
  cases hsig : evalScript K ctx [] scriptSig with
  | none => simp [hsig] at h
  | some stackCopy =>
    simp only [hsig] at h
    cases hpub : evalScript K ctx stackCopy scriptPubKey with
    | none => simp [hpub] at h
    | some stack =>
      cases stack with
      | nil => simp [hpub] at h
      | cons result left =>
        simp only [hpub] at h
        refine ⟨stackCopy, result, left, rfl, hpub, ?_⟩
        by_contra hfalse
        rw [if_pos (by simpa using hfalse)] at h
        cases h

/-- **Spending a pay-to-pubkey output**: the input leaves a signature by the key. -/
theorem verifyScript_pubkey (hpay : PayToPubKey scriptPubKey vchPubKey)
    (h : verifyScript K ctx scriptSig scriptPubKey = true) :
    ∃ vchSig r scriptCode, evalScript K ctx [] scriptSig = some (vchSig :: r) ∧
      checkSignatureEncoding vchSig ctx.flags = true ∧
      checkSig K vchSig vchPubKey scriptCode ctx.txTo ctx.nIn ctx.nHashType = true := by
  obtain ⟨stackCopy, result, left, hsig, hpub, hresult⟩ := verifyScript_runs h
  obtain ⟨st', hloop, hstack⟩ := evalLoop_of_evalScript hpub
  obtain ⟨⟨opcode, pc, hkey, hchecksig⟩, hlen⟩ := hpay
  have hne : vchPubKey ≠ [] := by
    rintro rfl
    simp at hlen
  obtain ⟨fuel, st₁, hfuel, hpush, hloop⟩ := evalLoop_cons (Nat.le_refl _) hkey rfl hloop
  obtain rfl := exec_push (getOp_push hkey hne) hpush
  obtain ⟨key, vchSig, r, scriptCode, hargs, hencoding, hcheck⟩ :=
    checksig_last hfuel hchecksig (by simp [EvalState.push]) hloop hstack hresult
  simp only [EvalState.push, EvalState.count_stack, List.cons.injEq] at hargs
  obtain ⟨rfl, rfl⟩ := hargs
  exact ⟨vchSig, r, scriptCode, hsig, hencoding, hcheck⟩

/-- **Spending a pay-to-pubkey-hash output**: the input leaves a key with the hash, and a signature by
it. -/
theorem verifyScript_pubkeyhash {hash : Valtype} (hpay : PayToPubKeyHash scriptPubKey hash)
    (h : verifyScript K ctx scriptSig scriptPubKey = true) :
    ∃ vchPubKey vchSig r scriptCode,
      evalScript K ctx [] scriptSig = some (vchPubKey :: vchSig :: r) ∧
      hash160 K vchPubKey = hash ∧
      checkSig K vchSig vchPubKey scriptCode ctx.txTo ctx.nIn ctx.nHashType = true := by
  obtain ⟨stackCopy, result, left, hsig, hpub, hresult⟩ := verifyScript_runs h
  obtain ⟨st', hloop, hstack⟩ := evalLoop_of_evalScript hpub
  obtain ⟨⟨opcode, pc₁, pc₂, pc₃, pc₄, hdup, hhash160, hpush, hverify, hchecksig⟩, hlen⟩ := hpay
  have hne : hash ≠ [] := by
    rintro rfl
    simp at hlen
  obtain ⟨fuel₁, st₁, hfuel₁, hrun₁, hloop⟩ := evalLoop_cons (Nat.le_refl _) hdup rfl hloop
  obtain ⟨vchPubKey, r, hcopy, rfl⟩ := exec_dup hrun₁
  obtain ⟨fuel₂, st₂, hfuel₂, hrun₂, hloop⟩ := evalLoop_cons hfuel₁ hhash160 (by simp) hloop
  obtain ⟨x, r', htop, rfl⟩ := exec_hash160 hrun₂
  obtain ⟨fuel₃, st₃, hfuel₃, hrun₃, hloop⟩ := evalLoop_cons hfuel₂ hpush (by simp) hloop
  obtain rfl := exec_push (getOp_push hpush hne) hrun₃
  obtain ⟨fuel₄, st₄, hfuel₄, hrun₄, hloop⟩ :=
    evalLoop_cons hfuel₃ hverify (by simp [EvalState.push]) hloop
  obtain ⟨y, r'', hsame, rfl⟩ := exec_equalverify hrun₄
  simp only [EvalState.count_stack, List.cons.injEq] at htop hcopy
  simp only [EvalState.push, EvalState.count_stack, List.cons.injEq] at hsame
  obtain ⟨key, vchSig, left', scriptCode, hargs, -, hcheck⟩ :=
    checksig_last hfuel₄ hchecksig (by simp [EvalState.push]) hloop hstack hresult
  obtain ⟨rfl, rfl⟩ := htop
  obtain ⟨rfl, rfl, rfl⟩ := hsame
  dsimp only at hargs
  cases hargs
  exact ⟨vchPubKey, vchSig, left', scriptCode, hcopy ▸ hsig, rfl, hcheck⟩

/-- Two pushes leave their data. -/
theorem evalScript_two_pushes {pc : CScript} {opcode₁ opcode₂ : UInt8} {vch₁ vch₂ : Valtype}
    (h₁ : getOp script = some (opcode₁, vch₁, pc)) (h₂ : getOp pc = some (opcode₂, vch₂, []))
    (hne₁ : vch₁ ≠ []) (hne₂ : vch₂ ≠ []) {stack : List Valtype}
    (h : evalScript K ctx [] script = some stack) : stack = [vch₂, vch₁] := by
  obtain ⟨st', hloop, hstack⟩ := evalLoop_of_evalScript h
  obtain ⟨fuel₁, st₁, hfuel₁, hrun₁, hloop⟩ := evalLoop_cons (Nat.le_refl _) h₁ rfl hloop
  obtain rfl := exec_push (getOp_push h₁ hne₁) hrun₁
  obtain ⟨fuel₂, st₂, hfuel₂, hrun₂, hloop⟩ :=
    evalLoop_cons hfuel₁ h₂ (by simp [EvalState.push]) hloop
  obtain rfl := exec_push (getOp_push h₂ hne₂) hrun₂
  obtain rfl := evalLoop_nil hloop
  rw [← hstack]
  simp [EvalState.push]

end Breakout
