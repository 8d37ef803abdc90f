/-
# The order of signing

`SignSignature` signs one input at a time, and puts what it makes into the transaction that it signs
for.  So the inputs that are signed later are signed in another transaction.  But what a signature
signs has no input scripts in it: `SignatureHash` blanks those of the copy it hashes, and the id
that comes first is of the transaction without them, unless it is a coinbase.

So no script is evaluated otherwise when input scripts change (`verifyScript_blank`), what is signed
for an input is the same at any time (`signedScript_blank`), and all orders of signing lead to the
same transaction (`signing_order`).
-/
import Breakout.CombineSignatures

namespace Breakout

open Lib

variable (K : Crypto)

/-! ## 1. Signing -/

/-- `CKeyStore`: the keys by their ids, a key being what its `Sign` returns; and the redeem scripts.
The key that `GetPubKey` does not find is empty. -/
structure CKeyStore where
  getKey : Valtype → Option (UInt256 → Option Valtype)
  getPubKey : Valtype → Valtype
  getCScript : Valtype → Option CScript

/-- `CPubKey(vch).GetID()`; a key that is not valid has no bytes. -/
def getKeyID (vch : Valtype) : Valtype := hash160 K (if isValidPubKey vch then vch else [])

/-- `Sign1`: whether it signed, and the script so far. -/
def sign1 (address : Valtype) (keystore : CKeyStore) (hash : UInt256) (nHashType : Int32)
    (scriptSigRet : CScript) : Bool × CScript :=
  match keystore.getKey address with
  | none => (false, scriptSigRet)
  | some key =>
    match key hash with
    | none => (false, scriptSigRet)
    | some vchSig => (true, scriptSigRet ++ pushData (vchSig ++ [UInt8.ofInt nHashType.toInt]))

/-- The loop of `SignN`: over the keys, while more signatures are required. -/
def signKeys (keystore : CKeyStore) (hash : UInt256) (nHashType : Int32) :
    List Valtype → Nat → CScript → Bool × CScript
  | [], nRequired, scriptSigRet => (nRequired == 0, scriptSigRet)
  | _ :: _, 0, scriptSigRet => (true, scriptSigRet)
  | pubkey :: vKeys, nRequired + 1, scriptSigRet =>
    match sign1 (getKeyID K pubkey) keystore hash nHashType scriptSigRet with
    | (true, scriptSigRet) => signKeys keystore hash nHashType vKeys nRequired scriptSigRet
    | (false, scriptSigRet) => signKeys keystore hash nHashType vKeys (nRequired + 1) scriptSigRet

def signN (multisigdata : List Valtype) (keystore : CKeyStore) (hash : UInt256) (nHashType : Int32)
    (scriptSigRet : CScript) : Bool × CScript :=
  signKeys K keystore hash nHashType (solvedKeys multisigdata) (nSigsRequired multisigdata)
    scriptSigRet

/-- `Solver(keystore, scriptPubKey, hash, nHashType, scriptSigRet, whichTypeRet)`. -/
def signSolver (keystore : CKeyStore) (scriptPubKey : CScript) (hash : UInt256)
    (nHashType : Int32) : Bool × CScript × TxnOutType :=
  match solver scriptPubKey with
  | (false, whichType, _) => (false, [], whichType)
  | (true, .pubkey, vSolutions) =>
    let (fSigned, scriptSig) :=
      sign1 (getKeyID K (vSolutions.headD [])) keystore hash nHashType []
    (fSigned, scriptSig, .pubkey)
  | (true, .pubkeyhash, vSolutions) =>
    match sign1 (vSolutions.headD []) keystore hash nHashType [] with
    | (false, scriptSig) => (false, scriptSig, .pubkeyhash)
    | (true, scriptSig) =>
      let vch := keystore.getPubKey (vSolutions.headD [])
      (true, scriptSig ++ UInt8.ofNat vch.length :: vch, .pubkeyhash)
  | (true, .scripthash, vSolutions) =>
    match keystore.getCScript (vSolutions.headD []) with
    | none => (false, [], .scripthash)
    | some subscript => (true, subscript, .scripthash)
  | (true, .multisig, vSolutions) =>
    -- "workaround CHECKMULTISIG bug"
    let (fSigned, scriptSig) := signN K vSolutions keystore hash nHashType [op0]
    (fSigned, scriptSig, .multisig)
  | (true, whichType, _) => (false, [], whichType)

/-- The input's script is changed. -/
def CTransaction.setScriptSig (tx : CTransaction) (nIn : Nat) (scriptSig : CScript) :
    CTransaction :=
  { tx with vin := tx.vin.modify nIn fun txin => { txin with scriptSig := scriptSig } }

/-- What `SignSignature` writes into the input, and whether it was solved: the codes are those of
`SignSignature`, zero where it goes on to test the solution. -/
def solvedScript (keystore : CKeyStore) (fromPubKey : CScript) (txTo : CTransaction) (nIn : Nat)
    (nHashType : Int32) : Nat × CScript :=
  let hash := signatureHash K fromPubKey txTo nIn nHashType
  match signSolver K keystore fromPubKey hash nHashType with
  | (false, scriptSig, _) => (1, scriptSig)
  | (true, subscript, .scripthash) =>
    -- "Recompute txn hash using subscript in place of scriptPubKey"
    let hash2 := signatureHash K subscript (txTo.setScriptSig nIn subscript) nIn nHashType
    let (fSolved, scriptSig, subType) := signSolver K keystore subscript hash2 nHashType
    let scriptSig := scriptSig ++ pushData subscript
    if fSolved = true ∧ subType ≠ .scripthash then (0, scriptSig) else (2, scriptSig)
  | (true, scriptSig, _) => (0, scriptSig)

/-- `SignSignature`: the code, zero for success, and the transaction. -/
def signSignature (keystore : CKeyStore) (fromPubKey : CScript) (txTo : CTransaction) (nIn : Nat)
    (nHashType : Int32) : Run (Nat × CTransaction) :=
  if txTo.vin.length ≤ nIn then .error (.throw "assert(nIn < txTo.vin.size())")
  else
    let (code, scriptSig) := solvedScript K keystore fromPubKey txTo nIn nHashType
    let txTo := txTo.setScriptSig nIn scriptSig
    if code ≠ 0 then .ok (code, txTo)
    else if verifyScript K ⟨txTo, nIn, standardScriptVerifyFlags, 0⟩ scriptSig fromPubKey then
      .ok (0, txTo)
    else .ok (3, txTo)

/-- One call: with what keys, for what script, for which input and how. -/
structure SignCall where
  keystore : CKeyStore
  fromPubKey : CScript
  nIn : Nat
  nHashType : Int32

/-- `SignSignature` again and again, as long as it succeeds. -/
def signAll : List SignCall → CTransaction → Option CTransaction
  | [], tx => some tx
  | call :: calls, tx =>
    match signSignature K call.keystore call.fromPubKey tx call.nIn call.nHashType with
    | .ok (0, tx) => signAll calls tx
    | _ => none

/-- A transaction in which other inputs are signed, with any success, or given any scripts. -/
inductive OthersChanged (nIn : Nat) : CTransaction → CTransaction → Prop
  | nil (tx : CTransaction) : OthersChanged nIn tx tx
  | replaced {tx tx' : CTransaction} (n : Nat) (scriptSig : CScript) :
      OthersChanged nIn tx tx' → n ≠ nIn → OthersChanged nIn tx (tx'.setScriptSig n scriptSig)
  | signed {tx tx' tx'' : CTransaction} (call : SignCall) (code : Nat) :
      OthersChanged nIn tx tx' → call.nIn ≠ nIn →
      signSignature K call.keystore call.fromPubKey tx' call.nIn call.nHashType = .ok (code, tx'') →
      OthersChanged nIn tx tx''

/-! ## 2. What is signed has no input scripts in it -/

variable {K} {tx tx' : CTransaction} {nIn : Nat}

@[simp] theorem isCoinBase_blankSigs (tx : CTransaction) :
    tx.blankSigs.isCoinBase = tx.isCoinBase := by
  obtain ⟨_, _, vin, _, _, _, _⟩ := tx
  match vin with
  | [] => rfl
  | [_] => rfl
  | _ :: _ :: _ => rfl

@[simp] theorem length_vin_blankSigs (tx : CTransaction) :
    tx.blankSigs.vin.length = tx.vin.length :=
  List.length_map ..

theorem blankSigs_blankSigs (tx : CTransaction) : tx.blankSigs.blankSigs = tx.blankSigs := by
  simp only [CTransaction.blankSigs, List.map_map]
  rfl

/-- **The id**, unless of a coinbase. -/
theorem getHash_blankSigs (hcb : tx.isCoinBase = false) :
    tx.blankSigs.getHash K = tx.getHash K := by
  simp only [CTransaction.getHash, CTransaction.hashed, CTransaction.hashesSigs,
    isCoinBase_blankSigs, hcb, Bool.false_and, Bool.false_eq_true, if_false, blankSigs_blankSigs]

theorem signingInputs_blankSigs (scriptCode : CScript) (nIn : Nat) :
    signingInputs scriptCode tx.blankSigs.vin nIn = signingInputs scriptCode tx.vin nIn := by
  refine List.ext_getElem? fun i => ?_
  simp only [signingInputs, CTransaction.blankSigs, List.getElem?_mapIdx, List.getElem?_map,
    Option.map_map]
  rfl

/-- **The signature hash**, for every script and every hash type. -/
theorem signatureHash_blankSigs (hcb : tx.isCoinBase = false) (scriptCode : CScript) (nIn : Nat)
    (nHashType : Int32) :
    signatureHash K scriptCode tx.blankSigs nIn nHashType =
      signatureHash K scriptCode tx nIn nHashType := by
  have hcopy : sighashTx scriptCode tx.blankSigs nIn nHashType =
      sighashTx scriptCode tx nIn nHashType := by
    unfold sighashTx
    rw [length_vin_blankSigs, signingInputs_blankSigs]
    rfl
  have hbytes : sighashPreimage K scriptCode tx.blankSigs nIn nHashType =
      sighashPreimage K scriptCode tx nIn nHashType := by
    unfold sighashPreimage
    rw [hcopy, getHash_blankSigs hcb, isCoinBase_blankSigs]
    rfl
  unfold signatureHash
  rw [hbytes]

/-! ## 3. No script is evaluated otherwise -/

/-- The same evaluation for the transaction without its input scripts. -/
def EvalCtx.blank (ctx : EvalCtx) : EvalCtx := { ctx with txTo := ctx.txTo.blankSigs }

section

variable {ctx : EvalCtx}

theorem checkLockTime_blank (nLockTime : Int) :
    checkLockTime ctx.blank nLockTime = checkLockTime ctx nLockTime := by
  have hseq : ctx.blank.txTo.vin[ctx.blank.nIn]?.map CTxIn.nSequence =
      ctx.txTo.vin[ctx.nIn]?.map CTxIn.nSequence := by
    change (ctx.txTo.vin.map _)[ctx.nIn]?.map _ = _
    rw [List.getElem?_map, Option.map_map]
    rfl
  have hlock : ctx.blank.txTo.nLockTime = ctx.txTo.nLockTime := rfl
  unfold checkLockTime
  rw [hseq, hlock]

theorem evalControl_blank (opcode : UInt8) (fExec : Bool) (s : EvalState) :
    evalControl ctx.blank opcode fExec s = evalControl ctx opcode fExec s := by
  have hlock : evalCheckLockTimeVerify ctx.blank s = evalCheckLockTimeVerify ctx s := by
    simp only [evalCheckLockTimeVerify, checkLockTime_blank]
    rfl
  have hflags : ctx.blank.flags = ctx.flags := rfl
  unfold evalControl
  rw [hlock, hflags]

variable (hcb : ctx.txTo.isCoinBase = false)
include hcb

theorem sigVerdict_blank (scriptCode : CScript) (vchSig vchPubKey : Valtype) :
    sigVerdict K ctx.blank scriptCode vchSig vchPubKey =
      sigVerdict K ctx scriptCode vchSig vchPubKey := by
  have hcheck : checkSig K vchSig vchPubKey scriptCode ctx.blank.txTo ctx.blank.nIn
        ctx.blank.nHashType =
      checkSig K vchSig vchPubKey scriptCode ctx.txTo ctx.nIn ctx.nHashType := by
    have hhash : ∀ ht, signatureHash K scriptCode ctx.blank.txTo ctx.blank.nIn ht =
        signatureHash K scriptCode ctx.txTo ctx.nIn ht := signatureHash_blankSigs hcb scriptCode _
    simp only [checkSig, hhash]
    rfl
  unfold sigVerdict
  rw [hcheck]
  rfl

theorem multisigLoop_blank (scriptCode : CScript) (s : EvalState) (nKeys isig ikey nSigs : Nat) :
    multisigLoop K ctx.blank scriptCode s nKeys isig ikey nSigs =
      multisigLoop K ctx scriptCode s nKeys isig ikey nSigs := by
  induction nKeys generalizing isig ikey nSigs with
  | zero => rfl
  | succ nKeys ih => simp only [multisigLoop, sigVerdict_blank hcb, ih]

theorem evalCrypto_blank (opcode : UInt8) (pc : CScript) (s : EvalState) :
    evalCrypto K ctx.blank opcode pc s = evalCrypto K ctx opcode pc s := by
  have hsig : ∀ fVerify, evalCheckSig K ctx.blank fVerify s = evalCheckSig K ctx fVerify s := by
    intro fVerify
    simp only [evalCheckSig, sigVerdict_blank hcb]
  have hmultisig : ∀ fVerify,
      evalCheckMultisig K ctx.blank fVerify s = evalCheckMultisig K ctx fVerify s := by
    intro fVerify
    simp only [evalCheckMultisig, multisigLoop_blank hcb]
    rfl
  unfold evalCrypto
  simp only [hsig, hmultisig]

theorem evalStep_blank (pc : CScript) (s : EvalState) :
    evalStep K ctx.blank pc s = evalStep K ctx pc s := by
  have hinstruction : ∀ opcode vch pc fExec s,
      execInstruction K ctx.blank opcode vch pc fExec s =
        execInstruction K ctx opcode vch pc fExec s := by
    intro opcode vch pc fExec s
    simp only [execInstruction, evalOp, evalControl_blank, evalCrypto_blank hcb]
  unfold evalStep
  simp only [hinstruction]

theorem evalLoop_blank (fuel : Nat) (pc : CScript) (s : EvalState) :
    evalLoop K ctx.blank fuel pc s = evalLoop K ctx fuel pc s := by
  induction fuel generalizing pc s with
  | zero => rfl
  | succ fuel ih => simp only [evalLoop, evalStep_blank hcb, ih]

theorem evalScript_blank (stack : List Valtype) (script : CScript) :
    evalScript K ctx.blank stack script = evalScript K ctx stack script := by
  unfold evalScript
  rw [evalLoop_blank hcb]

/-- **`VerifyScript`** does not depend on input scripts, but for the one it is given. -/
theorem verifyScript_blank (scriptSig scriptPubKey : CScript) :
    verifyScript K ctx.blank scriptSig scriptPubKey =
      verifyScript K ctx scriptSig scriptPubKey := by
  simp only [verifyScript, evalScript_blank hcb]

end

/-! ## 4. What is signed for an input -/

theorem blankSigs_setScriptSig (nIn : Nat) (scriptSig : CScript) :
    (tx.setScriptSig nIn scriptSig).blankSigs = tx.blankSigs := by
  have hvin : (tx.vin.modify nIn fun txin => { txin with scriptSig := scriptSig }).map
        (fun txin => { txin with scriptSig := [] }) =
      tx.vin.map fun txin => { txin with scriptSig := [] } := by
    refine List.ext_getElem? fun i => ?_
    rw [List.getElem?_map, List.getElem?_map, List.getElem?_modify]
    cases tx.vin[i]? with
    | none => rfl
    | some txin =>
      dsimp only [Option.map_some]
      split <;> rfl
  unfold CTransaction.setScriptSig CTransaction.blankSigs
  dsimp only
  rw [hvin]

theorem isCoinBase_of_blankSigs (h : tx'.blankSigs = tx.blankSigs) (hcb : tx.isCoinBase = false) :
    tx'.isCoinBase = false := by
  rw [← isCoinBase_blankSigs, h, isCoinBase_blankSigs, hcb]

theorem length_of_blankSigs (h : tx'.blankSigs = tx.blankSigs) :
    tx'.vin.length = tx.vin.length := by
  rw [← length_vin_blankSigs, h, length_vin_blankSigs]

theorem signatureHash_congr (h : tx'.blankSigs = tx.blankSigs) (hcb : tx.isCoinBase = false)
    (scriptCode : CScript) (nIn : Nat) (nHashType : Int32) :
    signatureHash K scriptCode tx' nIn nHashType = signatureHash K scriptCode tx nIn nHashType := by
  rw [← signatureHash_blankSigs (isCoinBase_of_blankSigs h hcb), h, signatureHash_blankSigs hcb]

theorem verifyScript_congr (h : tx'.blankSigs = tx.blankSigs) (hcb : tx.isCoinBase = false)
    (nIn : Nat) (flags : UInt32) (nHashType : Int32) (scriptSig scriptPubKey : CScript) :
    verifyScript K ⟨tx', nIn, flags, nHashType⟩ scriptSig scriptPubKey =
      verifyScript K ⟨tx, nIn, flags, nHashType⟩ scriptSig scriptPubKey := by
  rw [← @verifyScript_blank K ⟨tx', nIn, flags, nHashType⟩ (isCoinBase_of_blankSigs h hcb),
    ← @verifyScript_blank K ⟨tx, nIn, flags, nHashType⟩ hcb, EvalCtx.blank, EvalCtx.blank, h]

variable (K) in
/-- What a successful call writes into its input. -/
def signedScript (call : SignCall) (tx : CTransaction) : Option CScript :=
  let solved := solvedScript K call.keystore call.fromPubKey tx call.nIn call.nHashType
  if call.nIn < tx.vin.length ∧ solved.1 = 0 ∧
      verifyScript K ⟨tx, call.nIn, standardScriptVerifyFlags, 0⟩ solved.2 call.fromPubKey =
        true then
    some solved.2
  else none

/-- **It is the same at any time.** -/
theorem signedScript_congr (h : tx'.blankSigs = tx.blankSigs) (hcb : tx.isCoinBase = false)
    (call : SignCall) : signedScript K call tx' = signedScript K call tx := by
  have hsolved : solvedScript K call.keystore call.fromPubKey tx' call.nIn call.nHashType =
      solvedScript K call.keystore call.fromPubKey tx call.nIn call.nHashType := by
    have hsecond : ∀ subscript,
        signatureHash K subscript (tx'.setScriptSig call.nIn subscript) call.nIn call.nHashType =
          signatureHash K subscript (tx.setScriptSig call.nIn subscript) call.nIn
            call.nHashType := by
      intro subscript
      refine signatureHash_congr ?_ ?_ _ _ _
      · rw [blankSigs_setScriptSig, blankSigs_setScriptSig, h]
      · exact isCoinBase_of_blankSigs (blankSigs_setScriptSig _ _) hcb
    simp only [solvedScript, signatureHash_congr h hcb, hsecond]
  unfold signedScript
  rw [hsolved, length_of_blankSigs h]
  simp only [verifyScript_congr h hcb]

/-- **What a call does**: it changes the script of its input, and nothing else. -/
theorem signSignature_spec {call : SignCall} {code : Nat}
    (h : signSignature K call.keystore call.fromPubKey tx call.nIn call.nHashType =
      .ok (code, tx')) :
    ∃ scriptSig, tx' = tx.setScriptSig call.nIn scriptSig := by
  unfold signSignature at h
  split_ifs at h
  dsimp only at h
  split_ifs at h <;> cases h <;> exact ⟨_, rfl⟩

theorem signSignature_eq_zero (hcb : tx.isCoinBase = false) {call : SignCall} :
    signSignature K call.keystore call.fromPubKey tx call.nIn call.nHashType = .ok (0, tx') ↔
      ∃ scriptSig, signedScript K call tx = some scriptSig ∧
        tx' = tx.setScriptSig call.nIn scriptSig := by
  have hverify : ∀ scriptSig,
      verifyScript K ⟨tx.setScriptSig call.nIn scriptSig, call.nIn, standardScriptVerifyFlags, 0⟩
          scriptSig call.fromPubKey =
        verifyScript K ⟨tx, call.nIn, standardScriptVerifyFlags, 0⟩ scriptSig call.fromPubKey :=
    fun scriptSig => verifyScript_congr (blankSigs_setScriptSig _ _) hcb _ _ _ _ _
  unfold signSignature signedScript
  dsimp only
  rw [hverify]
  by_cases hlen : tx.vin.length ≤ call.nIn
  · rw [if_pos hlen, if_neg fun h => absurd h.1 (not_lt.mpr hlen)]
    exact iff_of_false nofun nofun
  · rw [if_neg hlen]
    by_cases hcode : (solvedScript K call.keystore call.fromPubKey tx call.nIn call.nHashType).1 = 0
    · rw [if_neg (not_not.mpr hcode)]
      split_ifs with hsig hgood hgood
      · simp [eq_comm]
      · exact absurd ⟨not_le.mp hlen, hcode, hsig⟩ hgood
      · exact absurd hgood.2.2 hsig
      · simp
    · rw [if_pos hcode, if_neg fun h => hcode h.2.1]
      simp [hcode]

theorem setScriptSig_comm {n m : Nat} (hne : n ≠ m) (a b : CScript) :
    (tx.setScriptSig n a).setScriptSig m b = (tx.setScriptSig m b).setScriptSig n a := by
  have hvin : (tx.vin.modify n fun txin => { txin with scriptSig := a }).modify m
        (fun txin => { txin with scriptSig := b }) =
      (tx.vin.modify m fun txin => { txin with scriptSig := b }).modify n
        fun txin => { txin with scriptSig := a } := by
    refine List.ext_getElem? fun i => ?_
    simp only [List.getElem?_modify]
    cases tx.vin[i]? with
    | none => rfl
    | some txin =>
      by_cases hn : n = i
      · subst hn
        simp [hne.symm]
      · simp [hn]
  unfold CTransaction.setScriptSig
  dsimp only
  rw [hvin]

/-! ## 5. The order of signing -/

variable (K) in
/-- `VerifyScript` of an input of the transaction, for the script of the output that it spends. -/
def inputVerifies (tx : CTransaction) (nIn : Nat) (flags : UInt32) (nHashType : Int32)
    (scriptPubKey : CScript) : Bool :=
  match tx.vin[nIn]? with
  | none => false
  | some txin => verifyScript K ⟨tx, nIn, flags, nHashType⟩ txin.scriptSig scriptPubKey

theorem vin_setScriptSig_self (n : Nat) (scriptSig : CScript) :
    (tx.setScriptSig n scriptSig).vin[n]? =
      tx.vin[n]?.map fun txin => { txin with scriptSig := scriptSig } := by
  change (tx.vin.modify n _)[n]? = _
  rw [List.getElem?_modify]
  simp

theorem vin_setScriptSig_of_ne {n i : Nat} (hne : n ≠ i) (scriptSig : CScript) :
    (tx.setScriptSig n scriptSig).vin[i]? = tx.vin[i]? := by
  change (tx.vin.modify n _)[i]? = _
  rw [List.getElem?_modify]
  simp [hne]

/-- **Another input's script is changed.** -/
theorem inputVerifies_setScriptSig (hcb : tx.isCoinBase = false) {n nIn : Nat} (hne : n ≠ nIn)
    (scriptSig : CScript) (flags : UInt32) (nHashType : Int32) (scriptPubKey : CScript) :
    inputVerifies K (tx.setScriptSig n scriptSig) nIn flags nHashType scriptPubKey =
      inputVerifies K tx nIn flags nHashType scriptPubKey := by
  unfold inputVerifies
  rw [vin_setScriptSig_of_ne hne]
  cases tx.vin[nIn]? with
  | none => rfl
  | some txin => exact verifyScript_congr (blankSigs_setScriptSig _ _) hcb _ _ _ _ _

theorem OthersChanged.blankSigs (h : OthersChanged K nIn tx tx') :
    tx'.blankSigs = tx.blankSigs := by
  induction h with
  | nil => rfl
  | replaced n scriptSig _ _ ih => rw [blankSigs_setScriptSig, ih]
  | signed call code _ _ hsign ih =>
    obtain ⟨scriptSig, rfl⟩ := signSignature_spec hsign
    rw [blankSigs_setScriptSig, ih]

/-- **Other inputs' scripts are changed**, again and again. -/
theorem OthersChanged.inputVerifies (h : OthersChanged K nIn tx tx') (hcb : tx.isCoinBase = false)
    (flags : UInt32) (nHashType : Int32) (scriptPubKey : CScript) :
    inputVerifies K tx' nIn flags nHashType scriptPubKey =
      inputVerifies K tx nIn flags nHashType scriptPubKey := by
  induction h with
  | nil => rfl
  | replaced n scriptSig hrest hne ih =>
    rw [inputVerifies_setScriptSig (isCoinBase_of_blankSigs hrest.blankSigs hcb) hne, ih]
  | signed call code hrest hne hsign ih =>
    obtain ⟨scriptSig, rfl⟩ := signSignature_spec hsign
    rw [inputVerifies_setScriptSig (isCoinBase_of_blankSigs hrest.blankSigs hcb) hne, ih]

/-- An input that was just signed verifies. -/
theorem inputVerifies_of_signed (hcb : tx.isCoinBase = false) {call : SignCall}
    (h : signSignature K call.keystore call.fromPubKey tx call.nIn call.nHashType = .ok (0, tx')) :
    inputVerifies K tx' call.nIn standardScriptVerifyFlags 0 call.fromPubKey = true := by
  obtain ⟨scriptSig, hsigned, rfl⟩ := (signSignature_eq_zero hcb).mp h
  unfold signedScript at hsigned
  dsimp only at hsigned
  split_ifs at hsigned with hgood
  obtain ⟨hlen, -, hverify⟩ := hgood
  cases hsigned
  unfold inputVerifies
  rw [vin_setScriptSig_self, List.getElem?_eq_getElem hlen]
  exact (verifyScript_congr (blankSigs_setScriptSig _ _) hcb _ _ _ _ _).trans hverify

/-- **Every input that was signed verifies in the end.** -/
theorem signAll_verifies {spent : Nat → CScript} {calls : List SignCall}
    (hspent : ∀ call ∈ calls, call.fromPubKey = spent call.nIn) (hcb : tx.isCoinBase = false)
    (h : signAll K calls tx = some tx') {n : Nat}
    (hn : n ∈ calls.map SignCall.nIn ∨
      inputVerifies K tx n standardScriptVerifyFlags 0 (spent n) = true) :
    inputVerifies K tx' n standardScriptVerifyFlags 0 (spent n) = true := by
  induction calls generalizing tx with
  | nil =>
    cases h
    exact hn.resolve_left List.not_mem_nil
  | cons call calls ih =>
    obtain ⟨hfirst, hothers⟩ := List.forall_mem_cons.mp hspent
    rw [signAll] at h
    split at h
    · next tx₁ hsign =>
      have hverifies := inputVerifies_of_signed hcb hsign
      obtain ⟨scriptSig, -, rfl⟩ := (signSignature_eq_zero hcb).mp hsign
      refine ih hothers (isCoinBase_of_blankSigs (blankSigs_setScriptSig _ _) hcb) h ?_
      by_cases heq : call.nIn = n
      · subst heq
        exact .inr (hfirst ▸ hverifies)
      · rcases hn with hn | hn
        · exact .inl ((List.mem_cons.mp hn).resolve_left fun h => heq h.symm)
        · exact .inr ((inputVerifies_setScriptSig hcb heq _ _ _ _).trans hn)
    · cases h

theorem signAll_cons (hcb : tx.isCoinBase = false) (call : SignCall) (calls : List SignCall) :
    signAll K (call :: calls) tx =
      (signedScript K call tx).bind fun scriptSig =>
        signAll K calls (tx.setScriptSig call.nIn scriptSig) := by
  rw [signAll]
  cases hsigned : signedScript K call tx with
  | some scriptSig =>
    rw [(signSignature_eq_zero hcb).mpr ⟨scriptSig, hsigned, rfl⟩]
    rfl
  | none =>
    split
    · next tx' hsign =>
      obtain ⟨scriptSig, hsome, -⟩ := (signSignature_eq_zero hcb).mp hsign
      rw [hsigned] at hsome
      cases hsome
    · rfl

/-- **All orders of the same calls** succeed or fail, and lead to the same transaction. -/
theorem signAll_perm {calls calls' : List SignCall} (hperm : calls.Perm calls')
    (hnodup : (calls.map SignCall.nIn).Nodup) (hcb : tx.isCoinBase = false) :
    signAll K calls tx = signAll K calls' tx := by
  induction hperm generalizing tx with
  | nil => rfl
  | cons call _ ih =>
    rw [signAll_cons hcb, signAll_cons hcb]
    refine congrArg _ (funext fun scriptSig => ?_)
    exact ih (List.nodup_cons.mp hnodup).2
      (isCoinBase_of_blankSigs (blankSigs_setScriptSig _ _) hcb)
  | swap a b calls =>
    have hne : b.nIn ≠ a.nIn := fun h => (List.nodup_cons.mp hnodup).1 (by simp [h])
    have hstep : ∀ c d : SignCall, signAll K (c :: d :: calls) tx =
        (signedScript K c tx).bind fun s => (signedScript K d tx).bind fun t =>
          signAll K calls ((tx.setScriptSig c.nIn s).setScriptSig d.nIn t) := by
      intro c d
      rw [signAll_cons hcb]
      refine congrArg _ (funext fun s => ?_)
      have hblank := @blankSigs_setScriptSig tx c.nIn s
      rw [signAll_cons (isCoinBase_of_blankSigs hblank hcb), signedScript_congr hblank hcb]
    rw [hstep, hstep]
    cases signedScript K a tx with
    | none => cases signedScript K b tx <;> rfl
    | some s =>
      cases signedScript K b tx with
      | none => rfl
      | some t =>
        dsimp only [Option.bind_some]
        rw [setScriptSig_comm hne]
  | trans hfirst _ ih ih' =>
    rw [ih hnodup hcb, ih' ((hfirst.map _).nodup_iff.mp hnodup) hcb]

/-- **Signing order does not matter.**  An input of a transaction that is not a coinbase verifies as
before after other inputs are signed or given any scripts; so one that `SignSignature` has signed
goes on to verify.  Calls that all succeed and sign every input make a transaction whose inputs all
verify.  And calls for different inputs have the same outcome in every order. -/
theorem signing_order (tx : CTransaction) (hcb : tx.isCoinBase = false) :
    (∀ (nIn : Nat) (tx' : CTransaction), OthersChanged K nIn tx tx' →
      ∀ flags nHashType scriptPubKey, inputVerifies K tx' nIn flags nHashType scriptPubKey =
        inputVerifies K tx nIn flags nHashType scriptPubKey) ∧
    (∀ (call : SignCall) (tx₁ tx₂ : CTransaction),
      signSignature K call.keystore call.fromPubKey tx call.nIn call.nHashType = .ok (0, tx₁) →
      OthersChanged K call.nIn tx₁ tx₂ →
      inputVerifies K tx₂ call.nIn standardScriptVerifyFlags 0 call.fromPubKey = true) ∧
    (∀ (spent : Nat → CScript) (calls : List SignCall) (tx' : CTransaction),
      (∀ call ∈ calls, call.fromPubKey = spent call.nIn) →
      (∀ n < tx.vin.length, n ∈ calls.map SignCall.nIn) → signAll K calls tx = some tx' →
      ∀ n < tx.vin.length,
        inputVerifies K tx' n standardScriptVerifyFlags 0 (spent n) = true) ∧
    ∀ calls calls' : List SignCall, calls.Perm calls' → (calls.map SignCall.nIn).Nodup →
      signAll K calls tx = signAll K calls' tx := by
  refine ⟨fun nIn tx' hothers => hothers.inputVerifies hcb, fun call tx₁ tx₂ hsign hothers => ?_,
    fun spent calls tx' hspent hall h n hn => signAll_verifies hspent hcb h (.inl (hall n hn)),
    fun calls calls' hperm hnodup => signAll_perm hperm hnodup hcb⟩
  have hverifies := inputVerifies_of_signed hcb hsign
  obtain ⟨scriptSig, -, rfl⟩ := (signSignature_eq_zero hcb).mp hsign
  rw [hothers.inputVerifies (isCoinBase_of_blankSigs (blankSigs_setScriptSig _ _) hcb)]
  exact hverifies

/-- A signer with the key that ends with the byte. -/
def sampleSigner (b : UInt8) (nIn : Nat) : SignCall where
  keystore := ⟨fun _ => some fun _ => some (sampleSig 1 b).dropLast, fun _ => [], fun _ => none⟩
  fromPubKey := pushData (sampleKey b) ++ [opChecksig]
  nIn := nIn
  nHashType := 1

theorem signing_order_two :
    signAll lastByteCrypto [sampleSigner 5 0, sampleSigner 7 1] (twoInOneOut 1) =
        signAll lastByteCrypto [sampleSigner 7 1, sampleSigner 5 0] (twoInOneOut 1) ∧
      (signAll lastByteCrypto [sampleSigner 5 0, sampleSigner 7 1] (twoInOneOut 1)).isSome = true :=
  ⟨(@signing_order lastByteCrypto (twoInOneOut 1) rfl).2.2.2 _ _ (.swap _ _ _) (by decide),
    by decide +kernel⟩

end Breakout
