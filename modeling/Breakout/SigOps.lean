/-
# Counting signature checks

`GetSigOpCount` counts the signature operations of a script by reading its instructions, whether
they are carried out or not; blocks are limited by these counts.  What costs time is `CheckSig`.
Here the machine is written once more with the calls of `CheckSig` counted, and
`verifyScriptSigs_le` says that `VerifyScript` makes no more of them than were counted beforehand.

A multisig is counted with the number that was pushed before it.  That is the number it will find on
the stack: whoever carries out the multisig has carried out what is before it (`Pushed`).
-/
import Breakout.StackSafety
import Breakout.StandardScripts
import Breakout.Lib.Metered

namespace Breakout

open Lib

variable (K : Crypto)

/-! ## 1. The machine, counted -/

/-- `sigVerdict`: a signature is checked if the encodings are good. -/
def sigVerdictC (ctx : EvalCtx) (scriptCode : CScript) (vchSig vchPubKey : Valtype) :
    Metered Bool :=
  let fEncoding := checkSignatureEncoding vchSig ctx.flags &&
    isCompressedOrUncompressedPubKey vchPubKey
  ⟨if fEncoding then 1 else 0, sigVerdict K ctx scriptCode vchSig vchPubKey⟩

/-- `evalCheckSig` -/
def evalCheckSigC (ctx : EvalCtx) (fVerify : Bool) (s : EvalState) : Metered EvalState := do
  Metered.lift (s.need 2)
  let vchSig ← Metered.lift (s.top 2)
  let vchPubKey ← Metered.lift (s.top 1)
  let scriptCode := findAndDelete s.codehash (pushData vchSig)
  let fSuccess ← sigVerdictC K ctx scriptCode vchSig vchPubKey
  Metered.lift (popN 2 s >>= fun s => pushVerdict s fSuccess fVerify)

/-- `multisigLoop` -/
def multisigLoopC (ctx : EvalCtx) (scriptCode : CScript) (s : EvalState) :
    Nat → Nat → Nat → Nat → Metered Bool
  | 0, _, _, _ => pure true
  | nKeys + 1, isig, ikey, nSigs =>
    if nSigs = 0 then pure true
    else do
      let vchSig ← Metered.lift (s.top isig)
      let vchPubKey ← Metered.lift (s.top ikey)
      let fOk ← sigVerdictC K ctx scriptCode vchSig vchPubKey
      let isig := if fOk then isig + 1 else isig
      let nSigs := if fOk then nSigs - 1 else nSigs
      if nSigs > nKeys then pure false
      else multisigLoopC ctx scriptCode s nKeys isig (ikey + 1) nSigs

/-- `evalCheckMultisig` -/
def evalCheckMultisigC (ctx : EvalCtx) (fVerify : Bool) (s : EvalState) : Metered EvalState := do
  Metered.lift (s.need 1)
  let vchKeys ← Metered.lift (s.top 1)
  let bnKeys ← Metered.lift (castToBigNum vchKeys nDefaultMaxNumSize)
  let nKeysCount := getint bnKeys
  Metered.lift (refuse (nKeysCount < 0 ∨ nKeysCount > 20) 0 "EvalScript() : key count")
  let nKeys := nKeysCount.toNat
  let s := { s with nOpCount := s.nOpCount + nKeys }
  Metered.lift (refuse (s.nOpCount > 201) 0 "EvalScript() : too many operations")
  Metered.lift (s.need (2 + nKeys))
  let vchSigs ← Metered.lift (s.top (2 + nKeys))
  let bnSigs ← Metered.lift (castToBigNum vchSigs nDefaultMaxNumSize)
  let nSigsCount := getint bnSigs
  Metered.lift
    (refuse (nSigsCount < 0 ∨ nSigsCount > nKeysCount) 0 "EvalScript() : signature count")
  let nSigs := nSigsCount.toNat
  Metered.lift (s.need (3 + nKeys + nSigs))
  let scriptCode ← Metered.lift (dropSigs s (3 + nKeys) nSigs 0 s.codehash)
  let fSuccess ← multisigLoopC K ctx scriptCode s nKeys (3 + nKeys) 2 nSigs
  Metered.lift (do
    let s ← popN (2 + nKeys + nSigs) s
    s.need 1
    let dummy ← s.top 1
    refuse (hasFlag ctx.flags scriptVerifyNulldummy ∧ dummy ≠ []) 0
      "CHECKMULTISIG dummy argument not null"
    let s ← s.pop
    pushVerdict s fSuccess fVerify)

/-- `evalOp`: only four instructions check signatures. -/
def evalOpC (ctx : EvalCtx) (opcode : UInt8) (pc : CScript) (fExec : Bool) (s : EvalState) :
    Metered EvalState :=
  if opcode = opChecksig then evalCheckSigC K ctx false s
  else if opcode = opChecksigverify then evalCheckSigC K ctx true s
  else if opcode = opCheckmultisig then evalCheckMultisigC K ctx false s
  else if opcode = opCheckmultisigverify then evalCheckMultisigC K ctx true s
  else Metered.lift (evalOp K ctx opcode pc fExec s)

/-- `execInstruction` -/
def execInstructionC (ctx : EvalCtx) (opcode : UInt8) (vchPushValue : Valtype) (pc : CScript)
    (fExec : Bool) (s : EvalState) : Metered EvalState :=
  if fExec ∧ opcode ≤ opPushdata4 then Metered.lift (.ok (s.push vchPushValue))
  else if fExec ∨ (0x63 ≤ opcode ∧ opcode ≤ 0x68) then evalOpC K ctx opcode pc fExec s
  else Metered.lift (.ok s)

/-- `evalStep` -/
def evalStepC (ctx : EvalCtx) (pc : CScript) (s : EvalState) : Metered (CScript × EvalState) :=
  match getOp pc with
  | none => Metered.lift (failOp "EvalScript() : bad instruction")
  | some (opcode, vchPushValue, pc) => do
    let fExec := s.vfExec.all id
    Metered.lift
      (refuse (vchPushValue.length > maxScriptElementSize) 0 "EvalScript() : push too big")
    let s := if opcode > op16 then { s with nOpCount := s.nOpCount + 1 } else s
    Metered.lift
      (refuse (opcode > op16 ∧ s.nOpCount > 201) 0 "EvalScript() : too many operations")
    Metered.lift (refuse (isDisabled opcode) 0 "EvalScript() : disabled opcode")
    let s ← execInstructionC K ctx opcode vchPushValue pc fExec s
    Metered.lift
      (refuse (s.stack.length + s.altstack.length > 1000) 0 "EvalScript() : stack too big")
    return (pc, s)

/-- `evalLoop` -/
def evalLoopC (ctx : EvalCtx) : Nat → CScript → EvalState → Metered EvalState
  | 0, _, s => pure s
  | fuel + 1, pc, s =>
    if pc = [] then pure s
    else do
      let (pc, s) ← evalStepC K ctx pc s
      evalLoopC ctx fuel pc s

/-- How often `EvalScript` calls `CheckSig`. -/
def evalScriptSigs (ctx : EvalCtx) (stack : List Valtype) (script : CScript) : Nat :=
  if script.length > 10000 then 0
  else (evalLoopC K ctx script.length script ⟨stack, [], [], 0, script⟩).count

/-- The same of the script behind a hash, if `VerifyScript` gets to it. -/
def subscriptSigs (ctx : EvalCtx) (scriptSig scriptPubKey : CScript) (stackCopy : List Valtype) :
    Nat :=
  match evalScript K ctx stackCopy scriptPubKey with
  | none | some [] => 0
  | some (result :: _) =>
    if castToBool result = false then 0
    else if isPayToScriptHash scriptPubKey && isPushOnly scriptSig then
      match stackCopy with
      | [] => 0
      | pubKey2 :: rest => evalScriptSigs K ctx rest pubKey2
    else 0

/-- How often `VerifyScript` calls `CheckSig`. -/
def verifyScriptSigs (ctx : EvalCtx) (scriptSig scriptPubKey : CScript) : Nat :=
  evalScriptSigs K ctx [] scriptSig +
    match evalScript K ctx [] scriptSig with
    | none => 0
    | some stackCopy =>
      evalScriptSigs K ctx stackCopy scriptPubKey +
        subscriptSigs K ctx scriptSig scriptPubKey stackCopy

/-! ## 2. It is the machine -/

variable {K} {ctx : EvalCtx} {s : EvalState}

@[simp] theorem result_sigVerdictC (scriptCode : CScript) (vchSig vchPubKey : Valtype) :
    (sigVerdictC K ctx scriptCode vchSig vchPubKey).result =
      sigVerdict K ctx scriptCode vchSig vchPubKey := rfl

theorem result_multisigLoopC (scriptCode : CScript) (nKeys isig ikey nSigs : Nat) :
    (multisigLoopC K ctx scriptCode s nKeys isig ikey nSigs).result =
      multisigLoop K ctx scriptCode s nKeys isig ikey nSigs := by
  induction nKeys generalizing isig ikey nSigs with
  | zero => rfl
  | succ nKeys ih =>
    rw [multisigLoopC, multisigLoop]
    by_cases hnone : nSigs = 0
    · rw [if_pos hnone, if_pos hnone]
      rfl
    · rw [if_neg hnone, if_neg hnone]
      simp only [Metered.result_bind, Metered.result_lift, result_sigVerdictC]
      refine bind_congr fun vchSig => bind_congr fun vchPubKey => bind_congr fun fOk => ?_
      rw [← ih, apply_ite Metered.result]
      rfl

theorem result_evalCheckSigC (fVerify : Bool) :
    (evalCheckSigC K ctx fVerify s).result = evalCheckSig K ctx fVerify s := by
  unfold evalCheckSigC evalCheckSig
  simp only [Metered.result_bind, Metered.result_lift, result_sigVerdictC]

theorem result_evalCheckMultisigC (fVerify : Bool) :
    (evalCheckMultisigC K ctx fVerify s).result = evalCheckMultisig K ctx fVerify s := by
  unfold evalCheckMultisigC evalCheckMultisig
  simp only [Metered.result_bind, Metered.result_lift, result_multisigLoopC]

theorem result_evalOpC (opcode : UInt8) (pc : CScript) (fExec : Bool) :
    (evalOpC K ctx opcode pc fExec s).result = evalOp K ctx opcode pc fExec s := by
  unfold evalOpC
  split_ifs with h₁ h₂ h₃ h₄
  · subst h₁
    exact result_evalCheckSigC false
  · subst h₂
    exact result_evalCheckSigC true
  · subst h₃
    exact result_evalCheckMultisigC false
  · subst h₄
    exact result_evalCheckMultisigC true
  · rfl

theorem result_execInstructionC (opcode : UInt8) (vchPushValue : Valtype) (pc : CScript)
    (fExec : Bool) :
    (execInstructionC K ctx opcode vchPushValue pc fExec s).result =
      execInstruction K ctx opcode vchPushValue pc fExec s := by
  unfold execInstructionC execInstruction
  split_ifs
  · rfl
  · exact result_evalOpC opcode pc fExec
  · rfl

theorem result_evalStepC (pc : CScript) (s : EvalState) :
    (evalStepC K ctx pc s).result = evalStep K ctx pc s := by
  unfold evalStepC evalStep
  cases getOp pc with
  | none => rfl
  | some p =>
    simp only [Metered.result_bind, Metered.result_lift, result_execInstructionC,
      Metered.result_pure]
    rfl

/-- **The machine that is counted is the machine.** -/
theorem result_evalLoopC (fuel : Nat) (pc : CScript) (s : EvalState) :
    (evalLoopC K ctx fuel pc s).result = evalLoop K ctx fuel pc s := by
  induction fuel generalizing pc s with
  | zero => rfl
  | succ fuel ih =>
    rw [evalLoopC, evalLoop]
    split_ifs
    · rfl
    · rw [Metered.result_bind, result_evalStepC]
      exact bind_congr fun r => ih r.1 r.2

/-! ## 3. What one instruction costs -/

theorem count_sigVerdictC (scriptCode : CScript) (vchSig vchPubKey : Valtype) :
    (sigVerdictC K ctx scriptCode vchSig vchPubKey).count ≤ 1 := by
  unfold sigVerdictC
  dsimp only
  split_ifs <;> decide

theorem count_evalCheckSigC (fVerify : Bool) : (evalCheckSigC K ctx fVerify s).count ≤ 1 := by
  unfold evalCheckSigC
  refine Metered.count_lift_bind_le fun _ _ => ?_
  refine Metered.count_lift_bind_le fun vchSig _ => ?_
  refine Metered.count_lift_bind_le fun vchPubKey _ => ?_
  exact Metered.count_bind_lift_le (count_sigVerdictC _ _ _) fun _ _ => rfl

/-- Every round uses up a key. -/
theorem count_multisigLoopC (scriptCode : CScript) (nKeys isig ikey nSigs : Nat) :
    (multisigLoopC K ctx scriptCode s nKeys isig ikey nSigs).count ≤ nKeys := by
  induction nKeys generalizing isig ikey nSigs with
  | zero => exact Nat.le_refl 0
  | succ nKeys ih =>
    rw [multisigLoopC]
    split_ifs
    · exact Nat.zero_le _
    · refine Metered.count_lift_bind_le fun vchSig _ => ?_
      refine Metered.count_lift_bind_le fun vchPubKey _ => ?_
      rw [Nat.add_comm nKeys 1]
      refine Metered.count_bind_le (count_sigVerdictC _ _ _) fun fOk _ => ?_
      dsimp only
      split_ifs
      all_goals first | exact Nat.zero_le _ | exact ih _ _ _

variable {n fuel : Nat} {fAccurate : Bool} {pc pc' scriptSig scriptPubKey : CScript}
  {lastOpcode opcode : UInt8} {vch : Valtype} {r : CScript × EvalState}

/-- A multisig makes no more checks than it has keys. -/
theorem count_evalCheckMultisigC (fVerify : Bool)
    (hkeys : ∀ vchKeys, s.stack.head? = some vchKeys → ∀ bnKeys,
      castToBigNum vchKeys nDefaultMaxNumSize = .ok bnKeys → getint bnKeys ≤ 20 →
        (getint bnKeys).toNat ≤ n) :
    (evalCheckMultisigC K ctx fVerify s).count ≤ n := by
  unfold evalCheckMultisigC
  refine Metered.count_lift_bind_le fun _ _ => ?_
  refine Metered.count_lift_bind_le fun vchKeys htop => ?_
  refine Metered.count_lift_bind_le fun bnKeys hbn => ?_
  refine Metered.count_lift_bind_le fun _ hcount => ?_
  refine Metered.count_lift_bind_le fun _ _ => ?_
  refine Metered.count_lift_bind_le fun _ _ => ?_
  refine Metered.count_lift_bind_le fun vchSigs _ => ?_
  refine Metered.count_lift_bind_le fun bnSigs _ => ?_
  refine Metered.count_lift_bind_le fun _ _ => ?_
  refine Metered.count_lift_bind_le fun _ _ => ?_
  refine Metered.count_lift_bind_le fun scriptCode _ => ?_
  refine Metered.count_bind_lift_le ?_ fun _ _ => rfl
  have hhead : s.stack.head? = some vchKeys := by
    rw [List.head?_eq_getElem?]
    exact top_eq.mp htop
  have hle := (not_or.mp (refuse_eq_ok.mp hcount)).2
  exact (count_multisigLoopC _ _ _ _ _).trans
    (hkeys vchKeys hhead bnKeys hbn (not_lt.mp hle))

/-! ## 4. What was counted beforehand -/

/-- What `GetSigOpCount` counts for an instruction. -/
def sigOpsOf (fAccurate : Bool) (lastOpcode opcode : UInt8) : Nat :=
  if opcode = opChecksig ∨ opcode = opChecksigverify then 1
  else if opcode = opCheckmultisig ∨ opcode = opCheckmultisigverify then
    if fAccurate ∧ op1 ≤ lastOpcode ∧ lastOpcode ≤ op16 then decodeOpN lastOpcode else 20
  else 0

theorem sigOpLoop_cons (h : getOp pc = some (opcode, vch, pc')) :
    sigOpLoop fAccurate (fuel + 1) pc lastOpcode n =
      sigOpLoop fAccurate fuel pc' opcode (n + sigOpsOf fAccurate lastOpcode opcode) := by
  rw [sigOpLoop, h]
  unfold sigOpsOf
  dsimp only
  split_ifs <;> rfl

/-- What was counted so far is added to. -/
theorem sigOpLoop_add (fAccurate : Bool) (fuel n : Nat) (pc : CScript) (lastOpcode : UInt8) :
    sigOpLoop fAccurate fuel pc lastOpcode n = n + sigOpLoop fAccurate fuel pc lastOpcode 0 := by
  induction fuel generalizing pc lastOpcode n with
  | zero => rfl
  | succ fuel ih =>
    cases hop : getOp pc with
    | none => simp [sigOpLoop, hop]
    | some p =>
      rw [sigOpLoop_cons hop, sigOpLoop_cons hop, ih, ih (0 + _), Nat.zero_add, Nat.add_assoc]

theorem decodeOpN_le (h : opcode ≤ op16) : decodeOpN opcode ≤ 16 := by
  have hle := UInt8.le_iff_toNat_le.mp h
  unfold decodeOpN
  split_ifs
  · exact Nat.zero_le _
  · have h16 : op16.toNat = 0x60 := rfl
    omega

theorem sigOpsOf_accurate_le (lastOpcode opcode : UInt8) :
    sigOpsOf true lastOpcode opcode ≤ sigOpsOf false lastOpcode opcode := by
  unfold sigOpsOf
  by_cases hsig : opcode = opChecksig ∨ opcode = opChecksigverify
  · rw [if_pos hsig, if_pos hsig]
  · rw [if_neg hsig, if_neg hsig]
    by_cases hmulti : opcode = opCheckmultisig ∨ opcode = opCheckmultisigverify
    · have hplain : ¬ (false = true ∧ op1 ≤ lastOpcode ∧ lastOpcode ≤ op16) :=
        fun h => absurd h.1 (by decide)
      rw [if_pos hmulti, if_pos hmulti, if_neg hplain]
      split_ifs with hlast
      · exact (decodeOpN_le hlast.2.2).trans (by decide : 16 ≤ 20)
      · exact Nat.le_refl 20
    · rw [if_neg hmulti, if_neg hmulti]

/-- **The accurate count is not above the other.** -/
theorem sigOpLoop_accurate_le (fuel : Nat) (pc : CScript) (lastOpcode : UInt8) :
    sigOpLoop true fuel pc lastOpcode 0 ≤ sigOpLoop false fuel pc lastOpcode 0 := by
  induction fuel generalizing pc lastOpcode with
  | zero => exact Nat.le_refl 0
  | succ fuel ih =>
    cases hop : getOp pc with
    | none => simp [sigOpLoop, hop]
    | some p =>
      obtain ⟨opcode, vch, pc'⟩ := p
      rw [sigOpLoop_cons hop, sigOpLoop_cons hop, sigOpLoop_add, sigOpLoop_add false, Nat.zero_add,
        Nat.zero_add]
      exact Nat.add_le_add (sigOpsOf_accurate_le lastOpcode opcode) (ih pc' opcode)

/-! ## 5. The run keeps to the count -/

/-- The number that was pushed last, if one was, is on the stack, if anything is carried out. -/
def Pushed (lastOpcode : UInt8) (s : EvalState) : Prop :=
  op1 ≤ lastOpcode → lastOpcode ≤ op16 → s.vfExec.all id = true →
    s.stack.head? = some (getvch ((lastOpcode.toNat : Int) - 0x50))

/-- A small number is read as it was pushed. -/
theorem bnOfVch_getvch_small (h : n ≤ 16) : bnOfVch (getvch n) = n := by
  interval_cases n <;> decide

theorem count_evalOpC (pc : CScript) (h : fAccurate = true → Pushed lastOpcode s)
    (hexec : s.vfExec.all id = true) :
    (evalOpC K ctx opcode pc true s).count ≤ sigOpsOf fAccurate lastOpcode opcode := by
  have hmultisig : ∀ fVerify, opcode = opCheckmultisig ∨ opcode = opCheckmultisigverify →
      (evalCheckMultisigC K ctx fVerify s).count ≤ sigOpsOf fAccurate lastOpcode opcode := by
    intro fVerify hop
    refine count_evalCheckMultisigC fVerify fun vchKeys hhead bnKeys hbn hle => ?_
    have hsig : ¬ (opcode = opChecksig ∨ opcode = opChecksigverify) := by
      rcases hop with rfl | rfl <;> decide
    unfold sigOpsOf
    rw [if_neg hsig, if_pos hop]
    split_ifs with hlast
    · -- what is on the stack is the number that was counted
      obtain ⟨hacc, h1, h16⟩ := hlast
      have hpushed := h hacc h1 h16 hexec
      rw [hhead, Option.some_inj] at hpushed
      have hlo := UInt8.le_iff_toNat_le.mp h1
      have hhi := UInt8.le_iff_toNat_le.mp h16
      have hone : op1.toNat = 0x51 := rfl
      have hsixteen : op16.toNat = 0x60 := rfl
      have hnum : ((lastOpcode.toNat : Int) - 0x50) = ((lastOpcode.toNat - 0x50 : Nat) : Int) := by
        omega
      have hbn' : bnKeys = ((lastOpcode.toNat - 0x50 : Nat) : Int) := by
        unfold castToBigNum at hbn
        split_ifs at hbn
        have heq := Except.ok.inj hbn
        rw [← heq, hpushed, hnum]
        exact bnOfVch_getvch_small (by omega)
      have hne : lastOpcode ≠ op0 := by
        rintro rfl
        exact absurd h1 (by decide)
      rw [hbn', getint_length (by omega), Int.toNat_natCast, decodeOpN, if_neg hne]
    · omega
  unfold evalOpC
  split_ifs with h₁ h₂ h₃ h₄
  · have hone : sigOpsOf fAccurate lastOpcode opcode = 1 := if_pos (Or.inl h₁)
    rw [hone]
    exact count_evalCheckSigC false
  · have hone : sigOpsOf fAccurate lastOpcode opcode = 1 := if_pos (Or.inr h₂)
    rw [hone]
    exact count_evalCheckSigC true
  · exact hmultisig false (Or.inl h₃)
  · exact hmultisig true (Or.inr h₄)
  · exact Nat.zero_le _

/-- In a branch that is not taken nothing is checked. -/
theorem count_execInstructionC (vch : Valtype) (pc : CScript)
    (h : fAccurate = true → Pushed lastOpcode s) :
    (execInstructionC K ctx opcode vch pc (s.vfExec.all id) s).count ≤
      sigOpsOf fAccurate lastOpcode opcode := by
  unfold execInstructionC
  by_cases hexec : s.vfExec.all id = true
  · rw [hexec]
    split_ifs
    · exact Nat.zero_le _
    · exact count_evalOpC pc h hexec
    · exact Nat.zero_le _
  · rw [Bool.not_eq_true] at hexec
    have hpush : ¬ (false = true ∧ opcode ≤ opPushdata4) := fun hp => absurd hp.1 (by decide)
    rw [hexec, if_neg hpush]
    by_cases hcontrol : 0x63 ≤ opcode ∧ opcode ≤ 0x68
    · have hne : ∀ o : UInt8, 0x68 < o → opcode ≠ o := fun o ho heq =>
        absurd (heq ▸ hcontrol.2) (UInt8.not_le.mpr ho)
      rw [if_pos (Or.inr hcontrol)]
      unfold evalOpC
      rw [if_neg (hne _ (by decide)), if_neg (hne _ (by decide)), if_neg (hne _ (by decide)),
        if_neg (hne _ (by decide))]
      exact Nat.zero_le _
    · rw [if_neg (not_or.mpr ⟨Bool.false_ne_true, hcontrol⟩)]
      exact Nat.zero_le _

theorem count_evalStepC (hop : getOp pc = some (opcode, vch, pc'))
    (h : fAccurate = true → Pushed lastOpcode s) :
    (evalStepC K ctx pc s).count ≤ sigOpsOf fAccurate lastOpcode opcode := by
  have hcounted : ∀ s' : EvalState, s'.stack = s.stack → s'.vfExec = s.vfExec →
      (execInstructionC K ctx opcode vch pc' (s.vfExec.all id) s').count ≤
        sigOpsOf fAccurate lastOpcode opcode := by
    intro s' hstack hvf
    rw [← hvf]
    refine count_execInstructionC vch pc' fun hacc => ?_
    unfold Pushed
    rw [hstack, hvf]
    exact h hacc
  unfold evalStepC
  rw [hop]
  dsimp only
  refine Metered.count_lift_bind_le fun _ _ => ?_
  refine Metered.count_lift_bind_le fun _ _ => ?_
  refine Metered.count_lift_bind_le fun _ _ => ?_
  refine Metered.count_bind_le (n := 0) (hcounted _ ?_ ?_) fun s' _ => ?_
  · split_ifs <;> rfl
  · split_ifs <;> rfl
  · exact Metered.count_lift_bind_le fun _ _ => Nat.le_refl 0

/-- **A small number that is pushed is on the stack.** -/
theorem pushed_of_evalStep (hop : getOp pc = some (opcode, vch, pc'))
    (h : evalStep K ctx pc s = .ok r) : r.1 = pc' ∧ Pushed opcode r.2 := by
  unfold evalStep at h
  simp only [hop, bind_eq_ok, pure_eq_ok] at h
  obtain ⟨-, -, -, -, -, -, s', hrun, -, -, rfl⟩ := h
  refine ⟨rfl, fun h1 h16 hall => ?_⟩
  have hlo := UInt8.le_iff_toNat_le.mp h1
  have hhi := UInt8.le_iff_toNat_le.mp h16
  have hnot : ¬ opcode ≤ opPushdata4 := by
    rw [UInt8.le_iff_toNat_le]
    have hone : op1.toNat = 0x51 := rfl
    have hfour : opPushdata4.toNat = 0x4e := rfl
    omega
  have hnot' : ¬ (0x63 ≤ opcode ∧ opcode ≤ 0x68) := by
    rw [UInt8.le_iff_toNat_le]
    have hsixteen : op16.toNat = 0x60 := rfl
    have hif : (0x63 : UInt8).toNat = 0x63 := rfl
    omega
  unfold execInstruction at hrun
  rw [if_neg fun hp => hnot hp.2] at hrun
  by_cases hexec : s.vfExec.all id = true
  · rw [if_pos (Or.inl hexec), evalOp, if_pos (Or.inr ⟨h1, h16⟩)] at hrun
    rw [← Except.ok.inj hrun]
    rfl
  · rw [if_neg (not_or.mpr ⟨hexec, hnot'⟩)] at hrun
    have hvf : s'.vfExec = s.vfExec := by
      rw [← Except.ok.inj hrun]
      split_ifs <;> rfl
    rw [hvf] at hall
    exact absurd hall hexec

/-- **The loop checks no more than was counted.** -/
theorem count_evalLoopC (fuel : Nat) (pc : CScript) (h : fAccurate = true → Pushed lastOpcode s) :
    (evalLoopC K ctx fuel pc s).count ≤ sigOpLoop fAccurate fuel pc lastOpcode 0 := by
  induction fuel generalizing pc s lastOpcode with
  | zero => exact Nat.le_refl 0
  | succ fuel ih =>
    rw [evalLoopC]
    split_ifs
    · exact Nat.zero_le _
    · cases hop : getOp pc with
      | none =>
        have hstep : evalStepC K ctx pc s =
            Metered.lift (failOp "EvalScript() : bad instruction") := by
          unfold evalStepC
          rw [hop]
        rw [hstep]
        exact (Metered.count_lift_bind_le fun _ hr => by cases hr).trans (Nat.zero_le _)
      | some p =>
        obtain ⟨opcode, vch, pc'⟩ := p
        rw [sigOpLoop_cons hop, sigOpLoop_add, Nat.zero_add]
        refine Metered.count_bind_le (count_evalStepC hop h) fun r hr => ?_
        rw [result_evalStepC] at hr
        obtain ⟨hpc, hpushed⟩ := pushed_of_evalStep hop hr
        obtain ⟨pc₁, s₁⟩ := r
        subst hpc
        exact ih pc₁ fun _ => hpushed

theorem evalScriptSigs_le (fAccurate : Bool) (stack : List Valtype) (script : CScript) :
    evalScriptSigs K ctx stack script ≤ getSigOpCount script fAccurate := by
  unfold evalScriptSigs getSigOpCount
  split_ifs
  · exact Nat.zero_le _
  · exact count_evalLoopC _ _ fun _ _ h16 => absurd h16 (by decide)

/-! ## 6. The script behind a hash -/

/-- On top is what was pushed last, or a script without signature operations. -/
def EvalState.TopIs (s : EvalState) (data : Valtype) : Prop :=
  ∀ x ∈ s.stack.head?, x = data ∨ getSigOpCount x false = 0

theorem getSigOpCount_getvch (h1 : 1 ≤ n) (h16 : n ≤ 16) :
    getSigOpCount (getvch n) false = 0 := by
  interval_cases n <;> decide

/-- A push puts on top what it pushes. -/
theorem topIs_of_evalStep (hop : getOp pc = some (opcode, vch, pc')) (hle : ¬ opcode > op16)
    (hvf : s.vfExec = []) (h : evalStep K ctx pc s = .ok r) :
    r.1 = pc' ∧ r.2.vfExec = [] ∧ r.2.TopIs vch := by
  have hall : s.vfExec.all id = true := by rw [hvf, List.all_nil]
  unfold evalStep at h
  simp only [hop, bind_eq_ok, pure_eq_ok, hall, if_neg hle] at h
  obtain ⟨-, -, -, -, -, -, s', hrun, -, -, rfl⟩ := h
  unfold execInstruction at hrun
  by_cases hpush : opcode ≤ opPushdata4
  · rw [if_pos ⟨rfl, hpush⟩] at hrun
    rw [← Except.ok.inj hrun]
    refine ⟨rfl, hvf, fun x hx => Or.inl ?_⟩
    exact (Option.some.inj hx).symm
  · have hnot : ¬ (true = true ∧ opcode ≤ opPushdata4) := fun hp => hpush hp.2
    rw [if_neg hnot, if_pos (Or.inl rfl), evalOp] at hrun
    have hhi := UInt8.le_iff_toNat_le.mp (UInt8.not_lt.mp hle)
    have hsixteen : op16.toNat = 0x60 := rfl
    by_cases hnum : opcode = 0x4f ∨ (0x51 ≤ opcode ∧ opcode ≤ 0x60)
    · rw [if_pos hnum] at hrun
      rw [← Except.ok.inj hrun]
      refine ⟨rfl, hvf, fun x hx => Or.inr ?_⟩
      rw [← Option.some.inj hx]
      rcases hnum with rfl | ⟨hlo, -⟩
      · decide
      · have hlo' := UInt8.le_iff_toNat_le.mp hlo
        have hone : (0x51 : UInt8).toNat = 0x51 := rfl
        have hcast : ((opcode.toNat : Int) - 0x50) = ((opcode.toNat - 0x50 : Nat) : Int) := by omega
        rw [hcast]
        exact getSigOpCount_getvch (by omega) (by omega)
    · -- `OP_RESERVED` does not push anything
      have hbelow : ∀ o : UInt8, op16 < o → ¬ o ≤ opcode := fun o ho hle' =>
        hle (UInt8.lt_of_lt_of_le ho hle')
      rw [if_neg hnum, if_neg (not_or.mpr ⟨fun hc => hbelow _ (by decide) hc.1,
        fun hc => hbelow _ (by decide) hc.1⟩), if_neg fun hc => hbelow _ (by decide) hc.1,
        if_neg fun hc => hbelow _ (by decide) hc.1, if_neg fun hc => hbelow _ (by decide) hc.1]
        at hrun
      cases hrun

theorem topIs_of_evalLoop {s' : EvalState} {data data' : Valtype} (hvf : s.vfExec = [])
    (hrun : evalLoop K ctx fuel pc s = .ok s') (hlast : lastPush fuel pc data = some data')
    (h : s.TopIs data) : s'.TopIs data' := by
  induction fuel generalizing pc s data with
  | zero =>
    rw [← Except.ok.inj hrun, ← Option.some.inj hlast]
    exact h
  | succ fuel ih =>
    rw [evalLoop] at hrun
    rw [lastPush] at hlast
    by_cases hend : pc = []
    · rw [if_pos hend] at hrun hlast
      rw [← Except.ok.inj hrun, ← Option.some.inj hlast]
      exact h
    · rw [if_neg hend] at hrun hlast
      obtain ⟨r, hstep, hrest⟩ := bind_eq_ok.mp hrun
      cases hop : getOp pc with
      | none => simp [hop] at hlast
      | some p =>
        obtain ⟨opcode, vch, pc'⟩ := p
        simp only [hop] at hlast
        by_cases hbig : opcode > op16
        · simp [hbig] at hlast
        · rw [if_neg hbig] at hlast
          obtain ⟨hpc, hvf', htop⟩ := topIs_of_evalStep hop hbig hvf hstep
          exact ih hvf' (hpc ▸ hrest) hlast htop

/-- What the script behind the hash costs. -/
theorem evalScriptSigs_subscript_le {pubKey2 : Valtype} {rest : List Valtype}
    (hp2sh : isPayToScriptHash scriptPubKey = true) (hpush : isPushOnly scriptSig = true)
    (heval : evalScript K ctx [] scriptSig = some (pubKey2 :: rest)) :
    evalScriptSigs K ctx rest pubKey2 ≤ getSigOpCountSpending scriptPubKey scriptSig := by
  obtain ⟨data, hdata⟩ := Option.isSome_iff_exists.mp hpush
  obtain ⟨s', hloop, hstack⟩ := evalLoop_of_evalScript heval
  have htop := topIs_of_evalLoop rfl hloop hdata (fun x hx => by cases hx) pubKey2
    (by rw [hstack]; rfl)
  have hspending : getSigOpCountSpending scriptPubKey scriptSig = getSigOpCount data true := by
    unfold getSigOpCountSpending
    rw [hp2sh, if_neg (by decide), hdata]
  rw [hspending]
  rcases htop with rfl | hnone
  · exact evalScriptSigs_le true rest pubKey2
  · refine (evalScriptSigs_le false rest pubKey2).trans ?_
    rw [hnone]
    exact Nat.zero_le _

/-- The script behind the hash costs what was counted for it. -/
theorem subscriptSigs_le {stackCopy : List Valtype}
    (heval : evalScript K ctx [] scriptSig = some stackCopy) :
    subscriptSigs K ctx scriptSig scriptPubKey stackCopy ≤
      if isPayToScriptHash scriptPubKey then getSigOpCountSpending scriptPubKey scriptSig
      else 0 := by
  unfold subscriptSigs
  match evalScript K ctx stackCopy scriptPubKey with
  | none => exact Nat.zero_le _
  | some [] => exact Nat.zero_le _
  | some (result :: _) =>
    dsimp only
    by_cases hresult : castToBool result = false
    · rw [if_pos hresult]
      exact Nat.zero_le _
    · rw [if_neg hresult]
      by_cases hboth : (isPayToScriptHash scriptPubKey && isPushOnly scriptSig) = true
      · rw [if_pos hboth]
        rw [Bool.and_eq_true] at hboth
        rw [if_pos hboth.1]
        cases stackCopy with
        | nil => exact Nat.zero_le _
        | cons pubKey2 rest => exact evalScriptSigs_subscript_le hboth.1 hboth.2 heval
      · rw [if_neg hboth]
        exact Nat.zero_le _

/-- **Signature operations are counted soundly**: `VerifyScript` checks no more signatures than
`GetSigOpCount` has counted, and the accurate count is not above the other. -/
theorem verifyScriptSigs_le (K : Crypto) (ctx : EvalCtx) (scriptSig scriptPubKey : CScript) :
    verifyScriptSigs K ctx scriptSig scriptPubKey ≤
        getSigOpCount scriptSig false + getSigOpCount scriptPubKey false +
          (if isPayToScriptHash scriptPubKey then getSigOpCountSpending scriptPubKey scriptSig
          else 0) ∧
      ∀ script, getSigOpCount script true ≤ getSigOpCount script false := by
  refine ⟨?_, fun script => sigOpLoop_accurate_le _ _ _⟩
  have hsig := @evalScriptSigs_le K ctx false [] scriptSig
  unfold verifyScriptSigs
  cases heval : evalScript K ctx [] scriptSig with
  | none =>
    rw [Nat.add_assoc]
    exact Nat.add_le_add hsig (Nat.zero_le _)
  | some stackCopy =>
    have hpub := @evalScriptSigs_le K ctx false stackCopy scriptPubKey
    rw [Nat.add_assoc]
    exact Nat.add_le_add hsig (Nat.add_le_add hpub (subscriptSigs_le heval))

/-- One signature of two keys. -/
def twoKeyScript : CScript :=
  [0x51] ++ (0x21 :: 2 :: List.replicate 32 1) ++ (0x21 :: 2 :: List.replicate 32 5) ++
    [0x52, 0xae]

/-- An empty signature fits neither key; it is checked twice, as it is counted. -/
example : verifyScriptSigs (.sample [])
      ⟨⟨1, 0, [], [], 0, [], 0⟩, 0, scriptVerifyAllowEmptySig, 0⟩ [0, 0] twoKeyScript = 2 ∧
    getSigOpCount twoKeyScript true = 2 ∧ getSigOpCount twoKeyScript false = 20 := by
  decide +kernel

end Breakout
