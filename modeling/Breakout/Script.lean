/-
# Scripts: reading instructions, counting signature operations, recognising templates

A script is a byte string.  `getOp` is `CScript::GetOp2`: it reads one instruction from the
front and returns the opcode, the pushed data and the rest, or fails.  Everything else in this
module is one of the loops the source builds on it: the counters of signature operations,
`IsPushOnly`, `FindAndDelete`, and the template matcher `Solver`.

An opcode stays a byte.  The source casts whatever byte it reads to its enumeration, so all
256 values occur; the named constants below are those of the enumeration.

The loops run on a budget equal to the length of what is left to read.  Since an instruction
takes at least one byte (`getOp_length`), the budget is never what ends them.
-/
import Breakout.Lib.PrefixCode

namespace Breakout

open Lib

abbrev CScript := List UInt8

/-- `valtype`: a byte vector, as the script machine's stack holds it. -/
abbrev Valtype := List UInt8

/-! ## 1. Opcodes -/

abbrev op0 : UInt8 := 0x00
abbrev opPushdata1 : UInt8 := 0x4c
abbrev opPushdata2 : UInt8 := 0x4d
abbrev opPushdata4 : UInt8 := 0x4e
abbrev op1 : UInt8 := 0x51
abbrev op16 : UInt8 := 0x60
abbrev opReturn : UInt8 := 0x6a
abbrev opDup : UInt8 := 0x76
abbrev opEqual : UInt8 := 0x87
abbrev opEqualverify : UInt8 := 0x88
abbrev opHash160 : UInt8 := 0xa9
abbrev opCodeseparator : UInt8 := 0xab
abbrev opChecksig : UInt8 := 0xac
abbrev opChecksigverify : UInt8 := 0xad
abbrev opCheckmultisig : UInt8 := 0xae
abbrev opCheckmultisigverify : UInt8 := 0xaf
/-- The four template parameters of `Solver`; not opcodes of the machine. -/
abbrev opSmalldata : UInt8 := 0xf9
abbrev opSmallinteger : UInt8 := 0xfa
abbrev opPubkeys : UInt8 := 0xfb
abbrev opPubkeyhash : UInt8 := 0xfd
abbrev opPubkey : UInt8 := 0xfe
abbrev opInvalidopcode : UInt8 := 0xff

/-! ## 2. Reading one instruction -/

/-- The number a byte string spells, lowest byte first. -/
def leNat : List UInt8 → Nat
  | [] => 0
  | b :: l => b.toNat + 256 * leNat l

theorem leNat_leBytes : ∀ {k n : Nat}, n < 256 ^ k → leNat (leBytes k n) = n
  | 0, n, hn => by
    rw [pow_zero, Nat.lt_one_iff] at hn
    exact hn.symm
  | k + 1, n, hn => by
    have hdiv : n / 256 < 256 ^ k := by
      rw [pow_succ] at hn
      exact Nat.div_lt_of_lt_mul (by omega)
    rw [leBytes, leNat, leNat_leBytes hdiv, UInt8.toNat_ofNat']
    omega

theorem leNat_append : ∀ l l' : List UInt8, leNat (l ++ l') = leNat l + 256 ^ l.length * leNat l'
  | [], l' => by simp [leNat]
  | b :: l, l' => by
    simp only [List.cons_append, leNat, List.length_cons, leNat_append l l', pow_succ]
    ring

theorem leNat_lt : ∀ l : List UInt8, leNat l < 256 ^ l.length
  | [] => by simp [leNat]
  | b :: l => by
    have h := leNat_lt l
    have hb := b.toNat_lt
    simp only [leNat, List.length_cons, pow_succ]
    omega

theorem leBytes_leNat (bs : List UInt8) : leBytes bs.length (leNat bs) = bs := by
  induction bs with
  | nil => rfl
  | cons b bs ih =>
    have hb := b.toNat_lt
    have hdiv : (b.toNat + 256 * leNat bs) / 256 = leNat bs := by omega
    have hmod : UInt8.ofNat (b.toNat + 256 * leNat bs) = b := by
      apply UInt8.toNat_inj.mp
      rw [UInt8.toNat_ofNat']
      omega
    rw [List.length_cons, leNat, leBytes, hdiv, hmod, ih]

/-- The push size at the front of `rest`, in `k` bytes, and what follows it. -/
def readSize (k : Nat) (rest : CScript) : Option (Nat × CScript) :=
  if rest.length < k then none else some (leNat (rest.take k), rest.drop k)

theorem readSize_leBytes {k n : Nat} (hn : n < 256 ^ k) (rest : CScript) :
    readSize k (leBytes k n ++ rest) = some (n, rest) := by
  have hlen : (leBytes k n).length = k := length_leBytes k n
  have hlong : ¬ (leBytes k n ++ rest).length < k := by
    rw [List.length_append, hlen]
    omega
  rw [readSize, if_neg hlong, List.take_left' hlen, List.drop_left' hlen, leNat_leBytes hn]

/-- The size of the immediate operand of `opcode`, when it has one. -/
def immediateSize (opcode : UInt8) (rest : CScript) : Option (Nat × CScript) :=
  if opcode < opPushdata1 then some (opcode.toNat, rest)
  else if opcode = opPushdata1 then readSize 1 rest
  else if opcode = opPushdata2 then readSize 2 rest
  else readSize 4 rest

/-- `CScript::GetOp2`: the opcode, the data it pushes, and the rest of the script. -/
def getOp : CScript → Option (UInt8 × Valtype × CScript)
  | [] => none
  | opcode :: rest =>
    if opcode ≤ opPushdata4 then
      match immediateSize opcode rest with
      | none => none
      | some (nSize, rest) =>
        if rest.length < nSize then none
        else some (opcode, rest.take nSize, rest.drop nSize)
    else some (opcode, [], rest)

variable {s rest : CScript} {n : Nat} {opcode b : UInt8} {vch : Valtype}

theorem readSize_suffix {k : Nat} (h : readSize k s = some (n, rest)) : rest <:+ s := by
  unfold readSize at h
  split at h
  · cases h
  · cases h
    exact List.drop_suffix k s

theorem immediateSize_suffix (h : immediateSize opcode s = some (n, rest)) : rest <:+ s := by
  unfold immediateSize at h
  split_ifs at h
  · cases h
    exact List.suffix_refl s
  · exact readSize_suffix h
  · exact readSize_suffix h
  · exact readSize_suffix h

/-- An instruction takes at least one byte. -/
theorem getOp_length (h : getOp s = some (opcode, vch, rest)) : rest.length < s.length := by
  cases s with
  | nil => cases h
  | cons b s =>
    simp only [getOp] at h
    split at h
    · cases hi : immediateSize b s with
      | none => simp [hi] at h
      | some p =>
        obtain ⟨n, s'⟩ := p
        have hlen := (immediateSize_suffix hi).length_le
        simp only [hi] at h
        split at h
        · cases h
        · cases h
          simp only [List.length_drop, List.length_cons]
          omega
    · cases h
      simp

/-- A script whose first byte is not a push starts with that opcode. -/
theorem getOp_of_not_push (h : ¬ b ≤ opPushdata4) :
    getOp (b :: s) = some (b, [], s) := by
  simp [getOp, h]

/-- The opcode read is the first byte. -/
theorem getOp_head (h : getOp (b :: s) = some (opcode, vch, rest)) : opcode = b := by
  simp only [getOp] at h
  split at h
  · cases hi : immediateSize b s with
    | none => simp [hi] at h
    | some p =>
      simp only [hi] at h
      split at h
      · cases h
      · cases h
        rfl
  · cases h
    rfl

/-! ## 3. Loops over the instructions -/

/-- `CScript::DecodeOP_N` -/
def decodeOpN (opcode : UInt8) : Nat := if opcode = op0 then 0 else opcode.toNat - 0x50

/-- The loop of `CScript::GetSigOpCount(bool)`. -/
def sigOpLoop (fAccurate : Bool) : Nat → CScript → UInt8 → Nat → Nat
  | 0, _, _, n => n
  | fuel + 1, s, lastOpcode, n =>
    match getOp s with
    | none => n
    | some (opcode, _, rest) =>
      let n' :=
        if opcode = opChecksig ∨ opcode = opChecksigverify then n + 1
        else if opcode = opCheckmultisig ∨ opcode = opCheckmultisigverify then
          if fAccurate ∧ op1 ≤ lastOpcode ∧ lastOpcode ≤ op16 then n + decodeOpN lastOpcode
          else n + 20
        else n
      sigOpLoop fAccurate fuel rest opcode n'

/-- `CScript::GetSigOpCount(bool fAccurate)` -/
def getSigOpCount (s : CScript) (fAccurate : Bool) : Nat :=
  sigOpLoop fAccurate s.length s opInvalidopcode 0

def isPayToScriptHash (s : CScript) : Bool :=
  s.length == 23 && s[0]? == some opHash160 && s[1]? == some 0x14 && s[22]? == some opEqual

/-- The last item a push-only script pushes; `none` when it is not push-only. -/
def lastPush : Nat → CScript → Valtype → Option Valtype
  | 0, _, data => some data
  | fuel + 1, s, data =>
    if s = [] then some data
    else
      match getOp s with
      | none => none
      | some (opcode, vch, rest) => if opcode > op16 then none else lastPush fuel rest vch

/-- `CScript::GetSigOpCount(const CScript& scriptSig)` -/
def getSigOpCountSpending (scriptPubKey scriptSig : CScript) : Nat :=
  if isPayToScriptHash scriptPubKey = false then getSigOpCount scriptPubKey true
  else
    match lastPush scriptSig.length scriptSig [] with
    | none => 0
    | some subscript => getSigOpCount subscript true

def isPushOnly (s : CScript) : Bool := (lastPush s.length s []).isSome

/-- Remove every copy of `b` from the front. -/
def stripCopies (b : CScript) : Nat → CScript → CScript
  | 0, s => s
  | fuel + 1, s => if b.isPrefixOf s then stripCopies b fuel (s.drop b.length) else s

/-- The loop of `CScript::FindAndDelete`, from position `pc` on. -/
def findAndDeleteLoop (b : CScript) : Nat → CScript → CScript
  | 0, s => s
  | fuel + 1, s =>
    let s := stripCopies b s.length s
    match getOp s with
    | none => s
    | some (_, _, rest) =>
      s.take (s.length - rest.length) ++ findAndDeleteLoop b fuel rest

def findAndDelete (s b : CScript) : CScript :=
  if b = [] then s else findAndDeleteLoop b (s.length + 1) s

/-- `CScript() << vch`: the bytes that push `vch`. -/
def pushData (vch : Valtype) : CScript :=
  if vch.length < opPushdata1.toNat then UInt8.ofNat vch.length :: vch
  else if vch.length ≤ 0xff then opPushdata1 :: UInt8.ofNat vch.length :: vch
  else if vch.length ≤ 0xffff then opPushdata2 :: leBytes 2 vch.length ++ vch
  else opPushdata4 :: leBytes 4 vch.length ++ vch

/-- The length of a short push, as its opcode. -/
theorem shortPush {n : Nat} (h : n < opPushdata1.toNat) :
    (UInt8.ofNat n).toNat = n ∧ UInt8.ofNat n < opPushdata1 := by
  have hnat : (UInt8.ofNat n).toNat = n := by
    rw [UInt8.toNat_ofNat']
    have h4c : opPushdata1.toNat = 0x4c := rfl
    omega
  exact ⟨hnat, UInt8.lt_iff_toNat_lt.mpr (hnat.symm ▸ h)⟩

/-- Is the first instruction `OP_RETURN`?  `CTxOut::IsOpReturn` of the script. -/
def isOpReturn (s : CScript) : Bool :=
  match getOp s with
  | some (opcode, _, _) => opcode == opReturn
  | none => false

theorem isOpReturn_iff : isOpReturn s = true ↔ ∃ rest, s = opReturn :: rest := by
  constructor
  · intro h
    cases s with
    | nil => cases h
    | cons b s =>
      cases hg : getOp (b :: s) with
      | none => simp [isOpReturn, hg] at h
      | some p =>
        obtain ⟨op, vch, rest⟩ := p
        simp only [isOpReturn, hg, beq_iff_eq] at h
        exact ⟨s, by rw [← h, getOp_head hg]⟩
  · rintro ⟨rest, rfl⟩
    rw [isOpReturn, getOp_of_not_push (by decide)]
    rfl

/-! ## 4. Templates -/

inductive TxnOutType where
  | nonstandard | pubkey | pubkeyhash | scripthash | multisig | nullData
deriving DecidableEq, Repr

def maxOpReturnRelay : Nat := 48

/-- The loop `Solver` runs at `OP_PUBKEYS`: collect keys while the pushes have a key's size.
A failing read leaves the invalid opcode with no data, which no later template byte accepts. -/
def takePubKeys : Nat → UInt8 → Valtype → CScript → List Valtype →
    UInt8 × Valtype × CScript × List Valtype
  | 0, opcode, vch, s, sols => (opcode, vch, s, sols)
  | fuel + 1, opcode, vch, s, sols =>
    if 33 ≤ vch.length ∧ vch.length ≤ 120 then
      match getOp s with
      | none => (opInvalidopcode, [], s, sols ++ [vch])
      | some (opcode', vch', rest) => takePubKeys fuel opcode' vch' rest (sols ++ [vch])
    else (opcode, vch, s, sols)

/-- One instruction of the script against one byte of the template. -/
def matchOp (opcode1 : UInt8) (vch1 : Valtype) (opcode2 : UInt8) (sols : List Valtype) :
    Option (List Valtype) :=
  if opcode2 = opPubkey then
    if vch1.length < 33 ∨ vch1.length > 120 then none else some (sols ++ [vch1])
  else if opcode2 = opPubkeyhash then
    if vch1.length ≠ 20 then none else some (sols ++ [vch1])
  else if opcode2 = opSmallinteger then
    if opcode1 = op0 ∨ (op1 ≤ opcode1 ∧ opcode1 ≤ op16) then
      some (sols ++ [[UInt8.ofNat (decodeOpN opcode1)]])
    else none
  else if opcode2 = opSmalldata then
    if vch1.length > maxOpReturnRelay then none else some sols
  else if opcode1 ≠ opcode2 ∨ vch1 ≠ [] then none
  else some sols

/-- The comparison loop of `Solver` for one template; the result holds the solutions. -/
def matchTemplate : CScript → List UInt8 → List Valtype → Option (List Valtype)
  | s, [], sols => if s = [] then some sols else none
  | s, opcode2 :: tpl, sols =>
    match getOp s with
    | none => none
    | some (opcode1, vch1, rest) =>
      if opcode2 = opPubkeys then
        let (opcode1, vch1, rest, sols) := takePubKeys s.length opcode1 vch1 rest sols
        match tpl with
        | [] => none
        | opcode2 :: tpl =>
          match matchOp opcode1 vch1 opcode2 sols with
          | none => none
          | some sols => matchTemplate rest tpl sols
      else
        match matchOp opcode1 vch1 opcode2 sols with
        | none => none
        | some sols => matchTemplate rest tpl sols

/-- `mTemplates`, in the order the multimap iterates. -/
def mTemplates : List (TxnOutType × List UInt8) :=
  [(.pubkey, [opPubkey, opChecksig]),
   (.pubkeyhash, [opDup, opHash160, opPubkeyhash, opEqualverify, opChecksig]),
   (.multisig, [opSmallinteger, opPubkeys, opSmallinteger, opCheckmultisig]),
   (.nullData, [opReturn]),
   (.nullData, [opReturn, opSmalldata]),
   (.nullData, [opReturn, opSmalldata, opReturn, opSmalldata])]

/-- The additional checks `Solver` makes on a multisig match. -/
def multisigOk (sols : List Valtype) : Bool :=
  let m := (sols.head?.bind List.head?).getD 0
  let n := (sols.getLast?.bind List.head?).getD 0
  !(decide (m < 1) || decide (n < 1) || decide (m > n) || decide (sols.length - 2 ≠ n.toNat))

/-- The scan of the templates. -/
def scanTemplates (s : CScript) : List (TxnOutType × List UInt8) → Bool × TxnOutType × List Valtype
  | [] => (false, .nonstandard, [])
  | (type, tpl) :: rest =>
    match matchTemplate s tpl [] with
    | some sols => (decide (type ≠ .multisig) || multisigOk sols, type, sols)
    | none => scanTemplates s rest

/-- `Solver(scriptPubKey, typeRet, vSolutionsRet)`: whether it recognised the script, the
type, and the solutions. -/
def solver (scriptPubKey : CScript) : Bool × TxnOutType × List Valtype :=
  if isPayToScriptHash scriptPubKey then
    (true, .scripthash, [(scriptPubKey.drop 2).take 20])
  else scanTemplates scriptPubKey mTemplates

/-- Only a script that starts with `OP_RETURN` is recognised as null data. -/
theorem isOpReturn_of_solver_nullData (h : (solver s).2.1 = .nullData) :
    isOpReturn s = true := by
  have hmatch : ∀ {tpl : List UInt8} {sols : List Valtype},
      matchTemplate s (opReturn :: tpl) [] = some sols → isOpReturn s = true := by
    intro tpl sols hm
    rw [matchTemplate] at hm
    cases hg : getOp s with
    | none => simp [hg] at hm
    | some p =>
      obtain ⟨op, vch, rest⟩ := p
      by_cases hop : op = opReturn
      · simp [isOpReturn, hg, hop]
      · have hnone : matchOp op vch opReturn [] = none := by
          rw [matchOp, if_neg (by decide), if_neg (by decide), if_neg (by decide),
            if_neg (by decide), if_pos (Or.inl hop)]
        simp only [hg] at hm
        rw [if_neg (by decide), hnone] at hm
        cases hm
  unfold solver at h
  split at h
  · cases h
  · simp only [mTemplates, scanTemplates] at h
    repeat' split at h
    all_goals first
      | exact hmatch (by assumption)
      | cases h

end Breakout
