/-
# `OP_CHECKMULTISIG`

The instruction takes from the top of the stack a number of keys, the keys, a number of signatures,
the signatures, and one item more.  It goes over the keys and gives each the first signature that is
left, if it fits, until no signature is left or there are more of them than keys.

What it decides is whether the signatures can be given to keys in order (`evalOp_checkmultisig`).
That is as far as it gets to deciding: before that the keys are counted as operations, and after it
the item more may have to be empty.
-/
import Breakout.Interpreter
import Breakout.Lib.Matching

namespace Breakout

open Lib

variable {K : Crypto} {ctx : EvalCtx} {s : EvalState}

/-! ## 1. Reading the stack -/

variable {i n : Nat} {c : Prop} {msg : String}

theorem top_eq {vch : Valtype} : s.top i = .ok vch ↔ s.stack[i - 1]? = some vch := by
  unfold EvalState.top
  cases s.stack[i - 1]? <;> simp

/-- The items of a part of the stack. -/
theorem top_append {front items rest : List Valtype} (h : s.stack = front ++ items ++ rest)
    (hi : i < items.length) : s.top (front.length + 1 + i) = .ok items[i] := by
  rw [top_eq, h, List.append_assoc, List.getElem?_append_right (by omega),
    List.getElem?_append_left (by omega), ← List.getElem?_eq_getElem hi]
  congr 1
  omega

theorem refuse_of_not [Decidable c] (h : ¬ c) :
    refuse c n msg = .ok () := if_neg h

theorem refuse_of [Decidable c] (h : c) {α : Type} (f : Unit → Run α) :
    (refuse c 0 msg >>= f) = failOp msg := by
  rw [refuse, if_pos h]
  rfl

theorem need_eq_ok (h : n ≤ s.stack.length) : s.need n = .ok () :=
  refuse_of_not (Nat.not_lt.mpr h)

theorem popN_append {front rest : List Valtype} (h : s.stack = front ++ rest) :
    popN front.length s = .ok { s with stack := rest } := by
  induction front generalizing s with
  | nil =>
    obtain ⟨stack, altstack, vfExec, nOpCount, codehash⟩ := s
    exact congrArg _ (by simpa using h)
  | cons vch front ih =>
    obtain ⟨stack, altstack, vfExec, nOpCount, codehash⟩ := s
    cases h
    exact ih rfl

/-! ## 2. The loops -/

/-- The script that is signed: without the signatures. -/
def withoutSigs (codehash : CScript) (sigs : List Valtype) : CScript :=
  sigs.foldl (fun scriptCode vchSig => findAndDelete scriptCode (pushData vchSig)) codehash

theorem dropSigs_eq {sigs : List Valtype} {isig k : Nat} {scriptCode : CScript}
    (h : ∀ i, ∀ hi : i < sigs.length, s.top (isig + k + i) = .ok sigs[i]) :
    dropSigs s isig sigs.length k scriptCode = .ok (withoutSigs scriptCode sigs) := by
  induction sigs generalizing k scriptCode with
  | nil => rfl
  | cons vchSig sigs ih =>
    have hfirst := h 0 (Nat.succ_pos _)
    have hrest : ∀ i, ∀ hi : i < sigs.length, s.top (isig + (k + 1) + i) = .ok sigs[i] := by
      intro i hi
      have hnext := h (i + 1) (Nat.succ_lt_succ hi)
      rwa [show isig + k + (i + 1) = isig + (k + 1) + i by omega] at hnext
    rw [List.length_cons, dropSigs]
    exact bind_eq_ok.mpr ⟨vchSig, hfirst, ih hrest⟩

/-- **The matching loop takes the first key that fits.** -/
theorem multisigLoop_eq {scriptCode : CScript} {r : Valtype → Valtype → Bool}
    {sigs keys : List Valtype} {isig ikey : Nat}
    (hsig : ∀ i, ∀ hi : i < sigs.length, s.top (isig + i) = .ok sigs[i])
    (hkey : ∀ i, ∀ hi : i < keys.length, s.top (ikey + i) = .ok keys[i])
    (hverdict : ∀ vchSig ∈ sigs, ∀ vchPubKey ∈ keys,
      sigVerdict K ctx scriptCode vchSig vchPubKey = .ok (r vchSig vchPubKey))
    (hle : sigs.length ≤ keys.length) :
    multisigLoop K ctx scriptCode s keys.length isig ikey sigs.length =
      .ok (greedyMatch r sigs keys) := by
  induction keys generalizing sigs isig ikey with
  | nil =>
    cases sigs with
    | nil => rfl
    | cons vchSig sigs => simp at hle
  | cons vchPubKey keys ih =>
    cases sigs with
    | nil => rfl
    | cons vchSig sigs =>
      have hfirst := hverdict vchSig List.mem_cons_self vchPubKey List.mem_cons_self
      have hkeys : ∀ i, ∀ hi : i < keys.length, s.top (ikey + 1 + i) = .ok keys[i] := by
        intro i hi
        have hnext := hkey (i + 1) (Nat.succ_lt_succ hi)
        rwa [show ikey + (i + 1) = ikey + 1 + i by omega] at hnext
      rw [List.length_cons, List.length_cons, multisigLoop, if_neg (Nat.succ_ne_zero _)]
      refine bind_eq_ok.mpr ⟨vchSig, hsig 0 (Nat.succ_pos _), ?_⟩
      refine bind_eq_ok.mpr ⟨vchPubKey, hkey 0 (Nat.succ_pos _), ?_⟩
      refine bind_eq_ok.mpr ⟨_, hfirst, ?_⟩
      rw [greedyMatch]
      by_cases hfits : r vchSig vchPubKey = true
      · have hsigs : ∀ i, ∀ hi : i < sigs.length, s.top (isig + 1 + i) = .ok sigs[i] := by
          intro i hi
          have hnext := hsig (i + 1) (Nat.succ_lt_succ hi)
          rwa [show isig + (i + 1) = isig + 1 + i by omega] at hnext
        have hfew : ¬ sigs.length + 1 - 1 > keys.length := by simpa using hle
        simp only [hfits, if_true]
        rw [if_neg hfew]
        exact ih hsigs hkeys (fun a ha b hb =>
          hverdict a (List.mem_cons_of_mem _ ha) b (List.mem_cons_of_mem _ hb)) (by simpa using hle)
      · simp only [hfits, if_false, Bool.false_eq_true]
        by_cases hfew : sigs.length + 1 > keys.length
        · rw [if_pos hfew, greedyMatch_of_length_lt hfew]
          rfl
        · rw [if_neg hfew]
          exact ih hsig hkeys (fun a ha b hb => hverdict a ha b (List.mem_cons_of_mem _ hb))
            (Nat.not_lt.mp hfew)

/-! ## 3. The instruction -/

/-- What is on the stack for the instruction, its top first; the numbers are written in any way. -/
structure MultisigArgs where
  vchKeys : Valtype
  keys : List Valtype
  vchSigs : Valtype
  sigs : List Valtype
  dummy : Valtype
  keysCount : castToBigNum vchKeys nDefaultMaxNumSize = .ok keys.length
  sigsCount : castToBigNum vchSigs nDefaultMaxNumSize = .ok sigs.length
  sigs_le : sigs.length ≤ keys.length
  keys_le : keys.length ≤ 20

namespace MultisigArgs

/-- The items: the two numbers, the keys, the signatures and one more. -/
def items (a : MultisigArgs) : List Valtype :=
  [a.vchKeys] ++ a.keys ++ ([a.vchSigs] ++ a.sigs ++ [a.dummy])

/-- The keys and the signatures are well encoded. -/
structure WellEncoded (a : MultisigArgs) (flags : UInt32) : Prop where
  keys : ∀ vchPubKey ∈ a.keys, isCompressedOrUncompressedPubKey vchPubKey = true
  sigs : ∀ vchSig ∈ a.sigs, checkSignatureEncoding vchSig flags = true

/-- Does the signature fit the key?  `CheckSig` of the script without the signatures. -/
def fits (K : Crypto) (ctx : EvalCtx) (codehash : CScript) (a : MultisigArgs)
    (vchSig vchPubKey : Valtype) : Bool :=
  checkSig K vchSig vchPubKey (withoutSigs codehash a.sigs) ctx.txTo ctx.nIn ctx.nHashType

/-- The instruction gets to its verdict: the operations are not too many, and the item more is empty
if it has to be. -/
structure Reached (a : MultisigArgs) (ctx : EvalCtx) (nOpCount : Nat) : Prop where
  ops : nOpCount + a.keys.length ≤ 201
  dummy : hasFlag ctx.flags scriptVerifyNulldummy = true → a.dummy = []

end MultisigArgs

/-- What is well encoded is looked at. -/
theorem sigVerdict_of_encoded {scriptCode : CScript} {vchSig vchPubKey : Valtype}
    (hsig : checkSignatureEncoding vchSig ctx.flags = true)
    (hkey : isCompressedOrUncompressedPubKey vchPubKey = true) :
    sigVerdict K ctx scriptCode vchSig vchPubKey =
      .ok (checkSig K vchSig vchPubKey scriptCode ctx.txTo ctx.nIn ctx.nHashType) := by
  unfold sigVerdict
  rw [hsig, hkey]
  simp

theorem getint_length {n : Nat} (h : n ≤ 20) : getint (n : Int) = n := by
  unfold getint
  omega

variable {a : MultisigArgs} {rest : List Valtype}

theorem evalCheckMultisig_eq (fVerify : Bool) (hstack : s.stack = a.items ++ rest)
    (henc : a.WellEncoded ctx.flags) :
    evalCheckMultisig K ctx fVerify s =
      if s.nOpCount + a.keys.length > 201 then failOp "EvalScript() : too many operations"
      else if hasFlag ctx.flags scriptVerifyNulldummy ∧ a.dummy ≠ [] then
        failOp "CHECKMULTISIG dummy argument not null"
      else pushVerdict { s with stack := rest, nOpCount := s.nOpCount + a.keys.length }
        (greedyMatch (a.fits K ctx s.codehash) a.sigs a.keys) fVerify := by
  obtain ⟨vchKeys, keys, vchSigs, sigs, dummy, hkeysCount, hsigsCount, hle, hle'⟩ := a
  obtain ⟨hkeyEnc, hsigEnc⟩ := henc
  obtain ⟨stack, altstack, vfExec, nOpCount, codehash⟩ := s
  simp only [MultisigArgs.items] at hstack hkeyEnc hsigEnc ⊢
  have hkeysCount' : ¬ ((keys.length : Int) < 0 ∨ (keys.length : Int) > 20) := by omega
  have hsigsCount' : ¬ ((sigs.length : Int) < 0 ∨ (sigs.length : Int) > keys.length) := by omega
  have hlen : stack.length = 3 + keys.length + sigs.length + rest.length := by
    rw [hstack]
    simp
    omega
  -- the stack by its parts: what lies above the keys, the second number, the signatures, the rest
  have hkeys : stack = [vchKeys] ++ keys ++ ([vchSigs] ++ sigs ++ [dummy] ++ rest) := by
    rw [hstack]
    simp
  have hnumber : stack = ([vchKeys] ++ keys) ++ [vchSigs] ++ (sigs ++ [dummy] ++ rest) := by
    rw [hstack]
    simp
  have hsigs : stack = ([vchKeys] ++ keys ++ [vchSigs]) ++ sigs ++ ([dummy] ++ rest) := by
    rw [hstack]
    simp
  have hargs : stack = ([vchKeys] ++ keys ++ [vchSigs] ++ sigs) ++ (dummy :: rest) := by
    rw [hstack]
    simp
  have htop : ∀ {n : Nat}, (⟨stack, altstack, vfExec, n, codehash⟩ : EvalState).top 1 =
      .ok vchKeys := by
    intro n
    rw [top_eq, hstack]
    rfl
  unfold evalCheckMultisig
  rw [need_eq_ok (by simp only [hlen]; omega), ok_bind, htop, ok_bind, hkeysCount, ok_bind]
  simp only [getint_length hle', Int.toNat_natCast]
  rw [refuse_of_not hkeysCount', ok_bind]
  by_cases hops : nOpCount + keys.length > 201
  · rw [if_pos hops, refuse_of hops]
  rw [if_neg hops, refuse_of_not hops, ok_bind, need_eq_ok (by simp only [hlen]; omega), ok_bind]
  have hcount : (⟨stack, altstack, vfExec, nOpCount + keys.length, codehash⟩ : EvalState).top
      (2 + keys.length) = .ok vchSigs := by
    have hitem := top_append
      (s := ⟨stack, altstack, vfExec, nOpCount + keys.length, codehash⟩) hnumber (i := 0) (by simp)
    rwa [show ([vchKeys] ++ keys).length + 1 + 0 = 2 + keys.length by simp; omega] at hitem
  have hsig : ∀ i, ∀ hi : i < sigs.length,
      (⟨stack, altstack, vfExec, nOpCount + keys.length, codehash⟩ : EvalState).top
        (3 + keys.length + i) = .ok sigs[i] := by
    intro i hi
    have hitem := top_append
      (s := ⟨stack, altstack, vfExec, nOpCount + keys.length, codehash⟩) hsigs hi
    rwa [show ([vchKeys] ++ keys ++ [vchSigs]).length + 1 + i = 3 + keys.length + i by
      simp; omega] at hitem
  have hkey : ∀ i, ∀ hi : i < keys.length,
      (⟨stack, altstack, vfExec, nOpCount + keys.length, codehash⟩ : EvalState).top (2 + i) =
        .ok keys[i] := fun i hi =>
    top_append (s := ⟨stack, altstack, vfExec, nOpCount + keys.length, codehash⟩) hkeys hi
  have hpop : popN (2 + keys.length + sigs.length)
      ⟨stack, altstack, vfExec, nOpCount + keys.length, codehash⟩ =
        .ok ⟨dummy :: rest, altstack, vfExec, nOpCount + keys.length, codehash⟩ := by
    have hdrop := popN_append
      (s := ⟨stack, altstack, vfExec, nOpCount + keys.length, codehash⟩) hargs
    rwa [show ([vchKeys] ++ keys ++ [vchSigs] ++ sigs).length = 2 + keys.length + sigs.length by
      simp; omega] at hdrop
  have hverdict := fun vchSig hs vchPubKey hk => @sigVerdict_of_encoded K ctx
    (withoutSigs codehash sigs) vchSig vchPubKey (hsigEnc vchSig hs) (hkeyEnc vchPubKey hk)
  rw [hcount, ok_bind, hsigsCount, ok_bind]
  simp only [getint_length (hle.trans hle'), Int.toNat_natCast]
  rw [refuse_of_not hsigsCount', ok_bind, need_eq_ok (by simp only [hlen]; omega), ok_bind,
    @dropSigs_eq _ sigs (3 + keys.length) 0 codehash hsig, ok_bind,
    multisigLoop_eq hsig hkey hverdict hle, ok_bind, hpop, ok_bind, need_eq_ok (by simp), ok_bind,
    top_eq.mpr rfl, ok_bind]
  by_cases hdummy : hasFlag ctx.flags scriptVerifyNulldummy = true ∧ dummy ≠ []
  · rw [if_pos hdummy, refuse_of hdummy]
  · rw [if_neg hdummy, refuse_of_not hdummy]
    rfl

/-- **The instruction decides whether the signatures can be given to keys in order**, wherever it
gets to its verdict, and takes its arguments off the stack; elsewhere it ends the script. -/
theorem evalOp_checkmultisig {K : Crypto} {ctx : EvalCtx} {pc : CScript} {s : EvalState}
    {a : MultisigArgs} {rest : List Valtype} (hstack : s.stack = a.items ++ rest)
    (henc : a.WellEncoded ctx.flags) :
    (a.Reached ctx s.nOpCount → ∃ fSuccess,
      evalOp K ctx opCheckmultisig pc true s =
        .ok { s with stack := vchBool fSuccess :: rest, nOpCount := s.nOpCount + a.keys.length } ∧
      (fSuccess = true ↔ Assignable (a.fits K ctx s.codehash) a.sigs a.keys)) ∧
    (¬ a.Reached ctx s.nOpCount → ∃ e, evalOp K ctx opCheckmultisig pc true s = .error e) := by
  have hop : evalOp K ctx opCheckmultisig pc true s = evalCheckMultisig K ctx false s := rfl
  rw [hop, evalCheckMultisig_eq false hstack henc]
  constructor
  · rintro ⟨hops, hdummy⟩
    have hempty : ¬ (hasFlag ctx.flags scriptVerifyNulldummy = true ∧ a.dummy ≠ []) :=
      fun h => h.2 (hdummy h.1)
    rw [if_neg (Nat.not_lt.mpr hops), if_neg hempty]
    exact ⟨_, rfl, greedyMatch_iff⟩
  · intro hnot
    by_cases hops : s.nOpCount + a.keys.length > 201
    · exact ⟨_, if_pos hops⟩
    · rw [if_neg hops]
      by_cases hdummy : hasFlag ctx.flags scriptVerifyNulldummy = true ∧ a.dummy ≠ []
      · exact ⟨_, if_pos hdummy⟩
      · refine absurd ⟨Nat.not_lt.mp hops, fun hflag => ?_⟩ hnot
        exact not_not.mp fun hne => hdummy ⟨hflag, hne⟩

/-! Two keys, with one signature and with none. -/

/-- One signature by one of two keys. -/
def oneOfTwo : MultisigArgs where
  vchKeys := [2]
  keys := [3 :: List.replicate 32 7, 2 :: List.replicate 32 5]
  vchSigs := [1]
  sigs := [[0x30, 6, 2, 1, 1, 2, 1, 1, 1]]
  dummy := []
  keysCount := rfl
  sigsCount := rfl
  sigs_le := by decide
  keys_le := by decide

/-- No signature, and something in place of nothing. -/
def noneOfTwo : MultisigArgs :=
  { oneOfTwo with vchSigs := [], sigs := [], dummy := [1], sigsCount := rfl, sigs_le := by decide }

theorem oneOfTwo_wellEncoded (flags : UInt32) : oneOfTwo.WellEncoded flags := by
  have hsig : isLowDERSignature [0x30, 6, 2, 1, 1, 2, 1, 1, 1] = true ∧
      isDefinedHashtypeSignature [0x30, 6, 2, 1, 1, 2, 1, 1, 1] = true := by decide
  refine ⟨fun vchPubKey hmem => ?_, fun vchSig hmem => ?_⟩
  · revert vchPubKey
    decide
  · rw [List.mem_singleton.mp hmem, checkSignatureEncoding, hsig.1, hsig.2]
    simp

/-- For an empty transaction. -/
def emptyCtx (flags : UInt32) : EvalCtx := ⟨⟨1, 0, [], [], 0, [], 0⟩, 0, flags, 0⟩

/-- A verdict on one signature and two keys. -/
theorem evalOp_checkmultisig_oneOfTwo :
    ∃ fSuccess, evalOp forkCrypto (emptyCtx scriptVerifyNulldummy) opCheckmultisig [] true
          ⟨oneOfTwo.items, [], [], 1, []⟩ = .ok ⟨[vchBool fSuccess], [], [], 3, []⟩ ∧
      (fSuccess = true ↔ Assignable (oneOfTwo.fits forkCrypto (emptyCtx scriptVerifyNulldummy) [])
        oneOfTwo.sigs oneOfTwo.keys) :=
  (evalOp_checkmultisig (List.append_nil _).symm (oneOfTwo_wellEncoded _)).1
    ⟨by decide, fun _ => rfl⟩

/-- No signature is always given to keys in order, and the script may still end. -/
theorem evalOp_checkmultisig_ends :
    Assignable (noneOfTwo.fits forkCrypto (emptyCtx scriptVerifyNulldummy) []) noneOfTwo.sigs
        noneOfTwo.keys ∧
      evalOp forkCrypto (emptyCtx scriptVerifyNulldummy) opCheckmultisig [] true
          ⟨noneOfTwo.items, [], [], 1, []⟩ =
        .error (.reject 0 "CHECKMULTISIG dummy argument not null") ∧
      evalOp forkCrypto (emptyCtx 0) opCheckmultisig [] true
          ⟨noneOfTwo.items, [], [], 200, []⟩ =
        .error (.reject 0 "EvalScript() : too many operations") :=
  ⟨greedyMatch_iff.mp rfl, rfl, rfl⟩

end Breakout
