/-
# The script machine

`EvalScript` runs a script over a stack of byte vectors, and `VerifyScript` decides with it
whether an input may spend an output.  The machine is translated instruction by instruction.
The stack is a list with its top first; `stacktop(-i)` is `top i` and stops with `oob` where
`vector::at` would throw, and `popstack` throws on an empty stack.  `EvalScript` catches
everything, so at its boundary all of these are "false" (`evalScript`).

Fifteen opcodes are refused before they are looked at; the branches the source still has for
them are unreachable and are not translated.

The one fact the rest of the development needs of all this is at the end: an output whose
script starts with `OP_RETURN` cannot be spent (`not_verifyScript_of_isOpReturn`).
-/
import Breakout.Sighash

namespace Breakout

open Lib

/-! ## 1. Numbers and truth values on the stack -/

/-- `CastToBool`: any non-zero byte, but not negative zero. -/
def castToBool : Valtype → Bool
  | [] => false
  | [b] => b != 0 && b != 0x80
  | b :: c :: l => b != 0 || castToBool (c :: l)

/-- `CBigNum::setvch`: little-endian magnitude, the sign in the top bit of the last byte. -/
def bnOfVch (vch : Valtype) : Int :=
  match vch.getLast? with
  | none => 0
  | some b =>
    let mag : Int := leNat (vch.dropLast ++ [b &&& 0x7f])
    if b &&& 0x80 = 0 then mag else -mag

/-- The bytes of a magnitude, lowest first, without leading zeros. -/
def magBytes : Nat → Nat → List UInt8
  | 0, _ => []
  | fuel + 1, n => if n = 0 then [] else UInt8.ofNat n :: magBytes fuel (n / 256)

def getvch (n : Int) : Valtype :=
  let bytes := magBytes (Nat.log2 n.natAbs / 8 + 1) n.natAbs
  match bytes.getLast? with
  | none => []
  | some b =>
    let sign : UInt8 := if n < 0 then 0x80 else 0
    if b &&& 0x80 = 0 then bytes.dropLast ++ [b ||| sign] else bytes ++ [sign]

def castToBigNum (vch : Valtype) (nMaxNumSize : Nat) : Run Int :=
  if vch.length > nMaxNumSize then .error (.throw "CastToBigNum() : overflow")
  else .ok (bnOfVch vch)

def nDefaultMaxNumSize : Nat := 4

/-- `CBigNum::getint`: clamped to an `int`. -/
def getint (n : Int) : Int := max (-2147483648) (min 2147483647 n)

/-- `vchTrue` and `vchFalse`. -/
def vchBool (b : Bool) : Valtype := if b then [1] else []

/-- `CBigNum(bool)` -/
def bnBool (b : Bool) : Int := if b then 1 else 0

/-! ## 2. Encodings of keys and signatures -/

def scriptVerifyNulldummy : UInt32 := 2
def scriptVerifyDiscourageUpgradableNops : UInt32 := 4
def scriptVerifyStrictenc : UInt32 := 8
def scriptVerifyAllowEmptySig : UInt32 := 16
def scriptVerifyFixHashtype : UInt32 := 32
def scriptVerifyChecklocktimeverify : UInt32 := 64

def mandatoryScriptVerifyFlags : UInt32 :=
  scriptVerifyNulldummy ||| scriptVerifyStrictenc ||| scriptVerifyAllowEmptySig |||
    scriptVerifyFixHashtype ||| scriptVerifyChecklocktimeverify

def standardScriptVerifyFlags : UInt32 :=
  mandatoryScriptVerifyFlags ||| scriptVerifyDiscourageUpgradableNops

/-- Is the flag set? -/
def hasFlag (flags flag : UInt32) : Bool := flags &&& flag != 0

def isCompressedOrUncompressedPubKey (vchPubKey : Valtype) : Bool :=
  let header := vchPubKey.getD 0 0
  !decide (vchPubKey.length < 33) &&
    (if header = 0x04 then decide (vchPubKey.length = 65)
     else if header = 0x02 ∨ header = 0x03 then decide (vchPubKey.length = 33)
     else false)

/-- An integer of a DER signature: not empty, not negative, not padded without need. -/
def derIntegerOk (tag : UInt8) (len : Nat) (first second : UInt8) : Bool :=
  tag == 0x02 && len != 0 && first &&& 0x80 == 0 &&
    !(decide (len > 1) && first == 0x00 && second &&& 0x80 == 0)

/-- `IsDERSignature` with its hash type. -/
def isDERSignature (vchSig : Valtype) : Bool :=
  let byte := fun i => vchSig.getD i 0
  let nLenR := (byte 3).toNat
  let nLenS := (byte (5 + nLenR)).toNat
  !decide (vchSig.length < 9) && !decide (vchSig.length > 73) && byte 0 == 0x30 &&
    decide ((byte 1).toNat = vchSig.length - 3) && !decide (5 + nLenR ≥ vchSig.length) &&
    decide (nLenR + nLenS + 7 = vchSig.length) &&
    derIntegerOk (byte 2) nLenR (byte 4) (byte 5) &&
    derIntegerOk (byte (4 + nLenR)) nLenS (byte (6 + nLenR)) (byte (7 + nLenR))

/-- `vchMaxModHalfOrder`: half the order of the curve's generator, less one. -/
def maxModHalfOrder : Nat := 0x7FFFFFFFFFFFFFFFFFFFFFFFFFFFFFFF5D576E7357A4501DDFE92F46681B20A0

def isLowDERSignature (vchSig : Valtype) : Bool :=
  let nLenR := (vchSig.getD 3 0).toNat
  let nLenS := (vchSig.getD (5 + nLenR) 0).toNat
  let s := leNat ((vchSig.drop (6 + nLenR)).take nLenS).reverse
  isDERSignature vchSig && decide (0 < s ∧ s ≤ maxModHalfOrder)

def isDefinedHashtypeSignature (vchSig : Valtype) : Bool :=
  match vchSig.getLast? with
  | none => false
  | some b => decide (1 ≤ b &&& 0x7f ∧ b &&& 0x7f ≤ 3)

def checkSignatureEncoding (vchSig : Valtype) (flags : UInt32) : Bool :=
  (hasFlag flags scriptVerifyAllowEmptySig && vchSig.isEmpty) ||
    (isLowDERSignature vchSig &&
      (hasFlag flags scriptVerifyFixHashtype || isDefinedHashtypeSignature vchSig))

/-! ## 3. The machine's state -/

/-- What a script is evaluated for: `txTo`, `nIn`, `flags` and `nHashType` of `EvalScript`. -/
structure EvalCtx where
  txTo : CTransaction
  nIn : Nat
  flags : UInt32
  nHashType : Int32

/-- The local variables of `EvalScript`.  `codehash` is what lies between `pbegincodehash` and
the end of the script. -/
structure EvalState where
  stack : List Valtype
  altstack : List Valtype
  vfExec : List Bool
  nOpCount : Nat
  codehash : CScript

namespace EvalState

/-- `stacktop(-i)` -/
def top (s : EvalState) (i : Nat) : Run Valtype :=
  match s.stack[i - 1]? with
  | some vch => .ok vch
  | none => .error (.oob (-i))

/-- `popstack(stack)` -/
def pop (s : EvalState) : Run EvalState :=
  match s.stack with
  | [] => .error (.throw "popstack() : stack empty")
  | _ :: rest => .ok { s with stack := rest }

/-- `stack.push_back` -/
def push (s : EvalState) (vch : Valtype) : EvalState := { s with stack := vch :: s.stack }

/-- `if (stack.size() < n) return false;` -/
def need (s : EvalState) (n : Nat) : Run Unit :=
  refuse (s.stack.length < n) 0 "EvalScript() : stack too small"

end EvalState

/-- `popstack` as many times as the operation has arguments. -/
def popN : Nat → EvalState → Run EvalState
  | 0, s => .ok s
  | n + 1, s => do
    let s ← s.pop
    popN n s

/-- `return false` from the middle of an instruction. -/
def failOp {α : Type} (msg : String) : Run α := .error (.reject 0 msg)

/-- Push a truth value; a `…VERIFY` instruction takes it off again, or fails. -/
def pushVerdict (s : EvalState) (fSuccess fVerify : Bool) : Run EvalState :=
  if fVerify then
    if fSuccess then .ok s else failOp "EvalScript() : verify failed"
  else .ok (s.push (vchBool fSuccess))

/-! ## 4. Instructions -/

def checkLockTime (ctx : EvalCtx) (nLockTime : Int) : Bool :=
  let txLock : Int := ctx.txTo.nLockTime.toNat
  decide ((txLock < 500000000 ∧ nLockTime < 500000000) ∨
      (500000000 ≤ txLock ∧ 500000000 ≤ nLockTime)) &&
    !decide (nLockTime > txLock) &&
    !decide ((ctx.txTo.vin[ctx.nIn]?.map CTxIn.nSequence) = some 0xffffffff)

/-- `OP_CHECKLOCKTIMEVERIFY` -/
def evalCheckLockTimeVerify (ctx : EvalCtx) (s : EvalState) : Run EvalState :=
  if hasFlag ctx.flags scriptVerifyChecklocktimeverify = false then
    if hasFlag ctx.flags scriptVerifyDiscourageUpgradableNops then
      failOp "EvalScript() : discouraged NOP"
    else .ok s
  else do
    s.need 1
    let vch ← s.top 1
    let nLockTime ← castToBigNum vch 5
    refuse (nLockTime < 0) 0 "EvalScript() : negative lock time"
    refuse (checkLockTime ctx nLockTime = false) 0 "EvalScript() : lock time"
    return s

/-- Control instructions. -/
def evalControl (ctx : EvalCtx) (opcode : UInt8) (fExec : Bool) (s : EvalState) :
    Run EvalState :=
  match opcode with
  | 0x61 => .ok s                                             -- OP_NOP
  | 0xb1 => evalCheckLockTimeVerify ctx s
  | 0x63 | 0x64 =>                                            -- OP_IF, OP_NOTIF
    if fExec then do
      s.need 1
      let vch ← s.top 1
      let fValue := if opcode = 0x64 then !castToBool vch else castToBool vch
      let s ← s.pop
      return { s with vfExec := fValue :: s.vfExec }
    else .ok { s with vfExec := false :: s.vfExec }
  | 0x67 =>                                                   -- OP_ELSE
    match s.vfExec with
    | [] => failOp "EvalScript() : else without if"
    | b :: rest => .ok { s with vfExec := (!b) :: rest }
  | 0x68 =>                                                   -- OP_ENDIF
    match s.vfExec with
    | [] => failOp "EvalScript() : endif without if"
    | _ :: rest => .ok { s with vfExec := rest }
  | 0x69 => do                                                -- OP_VERIFY
    s.need 1
    let vch ← s.top 1
    if castToBool vch then s.pop else failOp "EvalScript() : verify failed"
  | 0x6a => failOp "EvalScript() : OP_RETURN"
  | _ =>
    -- OP_NOP1 and OP_NOP3 to OP_NOP10; what is left of the range is the default branch
    if 0xb0 ≤ opcode ∧ opcode ≤ 0xb9 then
      if hasFlag ctx.flags scriptVerifyDiscourageUpgradableNops then
        failOp "EvalScript() : discouraged NOP"
      else .ok s
    else failOp "EvalScript() : bad opcode"

/-- `OP_PICK` and `OP_ROLL`. -/
def evalPick (fRoll : Bool) (s : EvalState) : Run EvalState := do
  s.need 2
  let vchN ← s.top 1
  let bn ← castToBigNum vchN nDefaultMaxNumSize
  let n := getint bn
  let s ← s.pop
  refuse (n < 0 ∨ n ≥ s.stack.length) 0 "EvalScript() : pick out of range"
  let vch ← s.top (n.toNat + 1)
  if fRoll then return ({ s with stack := s.stack.eraseIdx n.toNat } : EvalState).push vch
  else return s.push vch

/-- Stack instructions that only move items: how many items they need and what they leave. -/
def stackShuffle (opcode : UInt8) : List Valtype → Option (List Valtype)
  | stack =>
    match opcode, stack with
    | 0x6d, _ :: _ :: r => some r                                          -- OP_2DROP
    | 0x6e, x2 :: x1 :: r => some (x2 :: x1 :: x2 :: x1 :: r)              -- OP_2DUP
    | 0x6f, x3 :: x2 :: x1 :: r => some (x3 :: x2 :: x1 :: x3 :: x2 :: x1 :: r)  -- OP_3DUP
    | 0x70, x4 :: x3 :: x2 :: x1 :: r => some (x2 :: x1 :: x4 :: x3 :: x2 :: x1 :: r)  -- OP_2OVER
    | 0x71, x6 :: x5 :: x4 :: x3 :: x2 :: x1 :: r =>                       -- OP_2ROT
      some (x2 :: x1 :: x6 :: x5 :: x4 :: x3 :: r)
    | 0x72, x4 :: x3 :: x2 :: x1 :: r => some (x2 :: x1 :: x4 :: x3 :: r)  -- OP_2SWAP
    | 0x73, x :: r => some (if castToBool x then x :: x :: r else x :: r)  -- OP_IFDUP
    | 0x74, r => some (getvch r.length :: r)                               -- OP_DEPTH
    | 0x75, _ :: r => some r                                               -- OP_DROP
    | 0x76, x :: r => some (x :: x :: r)                                   -- OP_DUP
    | 0x77, x2 :: _ :: r => some (x2 :: r)                                 -- OP_NIP
    | 0x78, x2 :: x1 :: r => some (x1 :: x2 :: x1 :: r)                    -- OP_OVER
    | 0x7b, x3 :: x2 :: x1 :: r => some (x1 :: x3 :: x2 :: r)              -- OP_ROT
    | 0x7c, x2 :: x1 :: r => some (x1 :: x2 :: r)                          -- OP_SWAP
    | 0x7d, x2 :: x1 :: r => some (x2 :: x1 :: x2 :: r)                    -- OP_TUCK
    | 0x82, x :: r => some (getvch x.length :: x :: r)                     -- OP_SIZE
    | _, _ => none

/-- Stack and comparison instructions. -/
def evalStack (opcode : UInt8) (s : EvalState) : Run EvalState :=
  match opcode with
  | 0x6b => do                                                -- OP_TOALTSTACK
    s.need 1
    let vch ← s.top 1
    let s ← s.pop
    return { s with altstack := vch :: s.altstack }
  | 0x6c =>                                                   -- OP_FROMALTSTACK
    match s.altstack with
    | [] => failOp "EvalScript() : altstack empty"
    | vch :: rest => .ok (({ s with altstack := rest } : EvalState).push vch)
  | 0x79 => evalPick false s
  | 0x7a => evalPick true s
  | 0x87 | 0x88 => do                                         -- OP_EQUAL, OP_EQUALVERIFY
    s.need 2
    let vch1 ← s.top 2
    let vch2 ← s.top 1
    let s ← popN 2 s
    pushVerdict s (vch1 == vch2) (opcode == 0x88)
  | _ =>
    match stackShuffle opcode s.stack with
    | some stack => .ok { s with stack := stack }
    | none => failOp "EvalScript() : stack too small"

/-- Numeric instructions of one argument. -/
def unaryOp (opcode : UInt8) (bn : Int) : Option Int :=
  match opcode with
  | 0x8b => some (bn + 1)                                     -- OP_1ADD
  | 0x8c => some (bn - 1)                                     -- OP_1SUB
  | 0x8f => some (-bn)                                        -- OP_NEGATE
  | 0x90 => some (if bn < 0 then -bn else bn)                 -- OP_ABS
  | 0x91 => some (bnBool (bn == 0))                           -- OP_NOT
  | 0x92 => some (bnBool (bn != 0))                           -- OP_0NOTEQUAL
  | _ => none

/-- Numeric instructions of two arguments. -/
def binaryOp (opcode : UInt8) (bn1 bn2 : Int) : Option Int :=
  match opcode with
  | 0x93 => some (bn1 + bn2)                                  -- OP_ADD
  | 0x94 => some (bn1 - bn2)                                  -- OP_SUB
  | 0x9a => some (bnBool (bn1 != 0 && bn2 != 0))              -- OP_BOOLAND
  | 0x9b => some (bnBool (bn1 != 0 || bn2 != 0))              -- OP_BOOLOR
  | 0x9c => some (bnBool (bn1 == bn2))                        -- OP_NUMEQUAL
  | 0x9d => some (bnBool (bn1 == bn2))                        -- OP_NUMEQUALVERIFY
  | 0x9e => some (bnBool (bn1 != bn2))                        -- OP_NUMNOTEQUAL
  | 0x9f => some (bnBool (decide (bn1 < bn2)))                -- OP_LESSTHAN
  | 0xa0 => some (bnBool (decide (bn1 > bn2)))                -- OP_GREATERTHAN
  | 0xa1 => some (bnBool (decide (bn1 ≤ bn2)))                -- OP_LESSTHANOREQUAL
  | 0xa2 => some (bnBool (decide (bn1 ≥ bn2)))                -- OP_GREATERTHANOREQUAL
  | 0xa3 => some (if bn1 < bn2 then bn1 else bn2)             -- OP_MIN
  | 0xa4 => some (if bn1 > bn2 then bn1 else bn2)             -- OP_MAX
  | _ => none

/-- Numeric instructions. -/
def evalNumeric (opcode : UInt8) (s : EvalState) : Run EvalState :=
  if opcode < 0x93 then do
    s.need 1
    let vch ← s.top 1
    let bn ← castToBigNum vch nDefaultMaxNumSize
    match unaryOp opcode bn with
    | none => failOp "EvalScript() : bad opcode"
    | some bn =>
      let s ← s.pop
      return s.push (getvch bn)
  else if opcode < 0xa5 then do
    s.need 2
    let vch1 ← s.top 2
    let vch2 ← s.top 1
    let bn1 ← castToBigNum vch1 nDefaultMaxNumSize
    let bn2 ← castToBigNum vch2 nDefaultMaxNumSize
    match binaryOp opcode bn1 bn2 with
    | none => failOp "EvalScript() : bad opcode"
    | some bn =>
      let s ← popN 2 s
      if opcode = 0x9d then pushVerdict s (castToBool (getvch bn)) true
      else return s.push (getvch bn)
  else do                                                     -- OP_WITHIN
    s.need 3
    let vch1 ← s.top 3
    let vch2 ← s.top 2
    let vch3 ← s.top 1
    let bn1 ← castToBigNum vch1 nDefaultMaxNumSize
    let bn2 ← castToBigNum vch2 nDefaultMaxNumSize
    let bn3 ← castToBigNum vch3 nDefaultMaxNumSize
    let s ← popN 3 s
    return s.push (vchBool (decide (bn2 ≤ bn1 ∧ bn1 < bn3)))

variable (K : Crypto)

def hash160 (vch : Valtype) : Valtype := K.ripemd160 (K.sha256 vch)

/-- The hashing instructions. -/
def hashOp (opcode : UInt8) (vch : Valtype) : Valtype :=
  match opcode with
  | 0xa6 => K.ripemd160 vch
  | 0xa7 => K.sha1 vch
  | 0xa8 => K.sha256 vch
  | 0xa9 => hash160 K vch
  | _ => serUInt256 (K.hash vch)                              -- OP_HASH256

/-- May a signature with this key be looked at?  Under `STRICTENC` a bad encoding ends the
script; without it the signature just does not count. -/
def sigVerdict (ctx : EvalCtx) (scriptCode : CScript) (vchSig vchPubKey : Valtype) : Run Bool :=
  let fEncoding := checkSignatureEncoding vchSig ctx.flags &&
    isCompressedOrUncompressedPubKey vchPubKey
  if hasFlag ctx.flags scriptVerifyStrictenc && !fEncoding then
    failOp "EvalScript() : bad encoding"
  else
    .ok (fEncoding && checkSig K vchSig vchPubKey scriptCode ctx.txTo ctx.nIn ctx.nHashType)

/-- `OP_CHECKSIG` and `OP_CHECKSIGVERIFY`. -/
def evalCheckSig (ctx : EvalCtx) (fVerify : Bool) (s : EvalState) : Run EvalState := do
  s.need 2
  let vchSig ← s.top 2
  let vchPubKey ← s.top 1
  let scriptCode := findAndDelete s.codehash (pushData vchSig)
  let fSuccess ← sigVerdict K ctx scriptCode vchSig vchPubKey
  let s ← popN 2 s
  pushVerdict s fSuccess fVerify

/-- Drop the signatures of a multisig from the script being signed for. -/
def dropSigs (s : EvalState) (isig : Nat) : Nat → Nat → CScript → Run CScript
  | 0, _, scriptCode => .ok scriptCode
  | fuel + 1, k, scriptCode => do
    let vchSig ← s.top (isig + k)
    dropSigs s isig fuel (k + 1) (findAndDelete scriptCode (pushData vchSig))

/-- The matching loop of `OP_CHECKMULTISIG`: every round uses up one key, so the number of
keys bounds the rounds. -/
def multisigLoop (ctx : EvalCtx) (scriptCode : CScript) (s : EvalState) :
    Nat → Nat → Nat → Nat → Run Bool
  | 0, _, _, _ => .ok true
  | nKeys + 1, isig, ikey, nSigs =>
    if nSigs = 0 then .ok true
    else do
      let vchSig ← s.top isig
      let vchPubKey ← s.top ikey
      let fOk ← sigVerdict K ctx scriptCode vchSig vchPubKey
      let isig := if fOk then isig + 1 else isig
      let nSigs := if fOk then nSigs - 1 else nSigs
      if nSigs > nKeys then return false
      else multisigLoop ctx scriptCode s nKeys isig (ikey + 1) nSigs

/-- `OP_CHECKMULTISIG` and `OP_CHECKMULTISIGVERIFY`. -/
def evalCheckMultisig (ctx : EvalCtx) (fVerify : Bool) (s : EvalState) : Run EvalState := do
  s.need 1
  let vchKeys ← s.top 1
  let bnKeys ← castToBigNum vchKeys nDefaultMaxNumSize
  let nKeysCount := getint bnKeys
  refuse (nKeysCount < 0 ∨ nKeysCount > 20) 0 "EvalScript() : key count"
  let nKeys := nKeysCount.toNat
  let s := { s with nOpCount := s.nOpCount + nKeys }
  refuse (s.nOpCount > 201) 0 "EvalScript() : too many operations"
  s.need (2 + nKeys)
  let vchSigs ← s.top (2 + nKeys)
  let bnSigs ← castToBigNum vchSigs nDefaultMaxNumSize
  let nSigsCount := getint bnSigs
  refuse (nSigsCount < 0 ∨ nSigsCount > nKeysCount) 0 "EvalScript() : signature count"
  let nSigs := nSigsCount.toNat
  s.need (3 + nKeys + nSigs)
  let scriptCode ← dropSigs s (3 + nKeys) nSigs 0 s.codehash
  let fSuccess ← multisigLoop K ctx scriptCode s nKeys (3 + nKeys) 2 nSigs
  let s ← popN (2 + nKeys + nSigs) s
  s.need 1
  let dummy ← s.top 1
  refuse (hasFlag ctx.flags scriptVerifyNulldummy ∧ dummy ≠ []) 0
    "CHECKMULTISIG dummy argument not null"
  let s ← s.pop
  pushVerdict s fSuccess fVerify

/-- Hashing and signature instructions; `pc` is the script after the instruction. -/
def evalCrypto (ctx : EvalCtx) (opcode : UInt8) (pc : CScript) (s : EvalState) :
    Run EvalState :=
  match opcode with
  | 0xab => .ok { s with codehash := pc }                     -- OP_CODESEPARATOR
  | 0xac => evalCheckSig K ctx false s
  | 0xad => evalCheckSig K ctx true s
  | 0xae => evalCheckMultisig K ctx false s
  | 0xaf => evalCheckMultisig K ctx true s
  | _ => do
    s.need 1
    let vch ← s.top 1
    let s ← s.pop
    return s.push (hashOp K opcode vch)

/-- The opcodes refused before anything else is done with them. -/
def isDisabled (opcode : UInt8) : Bool :=
  decide (opcode ∈ [0x7e, 0x7f, 0x80, 0x81, 0x83, 0x84, 0x85, 0x86, 0x8d, 0x8e, 0x95, 0x96, 0x97,
    0x98, 0x99])

/-- The `switch` of `EvalScript`. -/
def evalOp (ctx : EvalCtx) (opcode : UInt8) (pc : CScript) (fExec : Bool) (s : EvalState) :
    Run EvalState :=
  if opcode = 0x4f ∨ (0x51 ≤ opcode ∧ opcode ≤ 0x60) then
    .ok (s.push (getvch ((opcode.toNat : Int) - 0x50)))
  else if 0x61 ≤ opcode ∧ opcode ≤ 0x6a ∨ 0xb0 ≤ opcode ∧ opcode ≤ 0xb9 then
    evalControl ctx opcode fExec s
  else if 0x6b ≤ opcode ∧ opcode ≤ 0x88 then evalStack opcode s
  else if 0x8b ≤ opcode ∧ opcode ≤ 0xa5 then evalNumeric opcode s
  else if 0xa6 ≤ opcode ∧ opcode ≤ 0xaf then evalCrypto K ctx opcode pc s
  else failOp "EvalScript() : bad opcode"

/-! ## 5. `EvalScript` and `VerifyScript` -/

def maxScriptElementSize : Nat := 520

/-- What a round does with its instruction: push, run it, or skip it in a branch not taken. -/
def execInstruction (ctx : EvalCtx) (opcode : UInt8) (vchPushValue : Valtype) (pc : CScript)
    (fExec : Bool) (s : EvalState) : Run EvalState :=
  if fExec ∧ opcode ≤ opPushdata4 then .ok (s.push vchPushValue)
  else if fExec ∨ (0x63 ≤ opcode ∧ opcode ≤ 0x68) then evalOp K ctx opcode pc fExec s
  else .ok s

/-- One round of the loop of `EvalScript`: the state it leaves and the rest of the script. -/
def evalStep (ctx : EvalCtx) (pc : CScript) (s : EvalState) : Run (CScript × EvalState) :=
  match getOp pc with
  | none => failOp "EvalScript() : bad instruction"
  | some (opcode, vchPushValue, pc) => do
    let fExec := s.vfExec.all id
    refuse (vchPushValue.length > maxScriptElementSize) 0 "EvalScript() : push too big"
    let s := if opcode > op16 then { s with nOpCount := s.nOpCount + 1 } else s
    refuse (opcode > op16 ∧ s.nOpCount > 201) 0 "EvalScript() : too many operations"
    refuse (isDisabled opcode) 0 "EvalScript() : disabled opcode"
    let s ← execInstruction K ctx opcode vchPushValue pc fExec s
    refuse (s.stack.length + s.altstack.length > 1000) 0 "EvalScript() : stack too big"
    return (pc, s)

/-- The loop of `EvalScript`; an instruction takes a byte, so the length bounds the rounds. -/
def evalLoop (ctx : EvalCtx) : Nat → CScript → EvalState → Run EvalState
  | 0, _, s => .ok s
  | fuel + 1, pc, s =>
    if pc = [] then .ok s
    else do
      let (pc, s) ← evalStep K ctx pc s
      evalLoop ctx fuel pc s

/-- `EvalScript`: the stack it leaves when it returns true. -/
def evalScript (ctx : EvalCtx) (stack : List Valtype) (script : CScript) :
    Option (List Valtype) :=
  if script.length > 10000 then none
  else
    match evalLoop K ctx script.length script ⟨stack, [], [], 0, script⟩ with
    | .error _ => none
    | .ok s => if s.vfExec = [] then some s.stack else none

/-- `VerifyScript`.  When the output is pay-to-script-hash its own script has taken an item off
the stack, so the copy taken before is not empty; the source reads its last item unasked. -/
def verifyScript (ctx : EvalCtx) (scriptSig scriptPubKey : CScript) : Bool :=
  match evalScript K ctx [] scriptSig with
  | none => false
  | some stackCopy =>
    match evalScript K ctx stackCopy scriptPubKey with
    | none | some [] => false
    | some (result :: _) =>
      if castToBool result = false then false
      else if isPayToScriptHash scriptPubKey then
        isPushOnly scriptSig &&
          match stackCopy with
          | [] => false
          | pubKey2 :: rest =>
            match evalScript K ctx rest pubKey2 with
            | none | some [] => false
            | some (result :: _) => castToBool result
      else true

def verifySignature (txFrom txTo : CTransaction) (nIn : Nat) (flags : UInt32)
    (nHashType : Int32) : Bool :=
  match txTo.vin[nIn]? with
  | none => false
  | some txin =>
    match txFrom.vout[txin.prevout.n.toNat]? with
    | none => false
    | some txout =>
      if txin.prevout.hash ≠ txFrom.getHash K then false
      else verifyScript K ⟨txTo, nIn, flags, nHashType⟩ txin.scriptSig txout.scriptPubKey

/-! ## 6. What spending an output shows about it -/

variable {K}

/-- A script that starts with `OP_RETURN` fails at its first instruction. -/
theorem evalScript_of_isOpReturn {ctx : EvalCtx} {stack : List Valtype} {script : CScript}
    (h : isOpReturn script = true) : evalScript K ctx stack script = none := by
  obtain ⟨rest, rfl⟩ := isOpReturn_iff.mp h
  have hstep : ∀ s : EvalState, s.vfExec = [] →
      ∃ e, evalStep K ctx (opReturn :: rest) s = .error e := by
    intro s hs
    have hop : ∀ s', ∃ e, execInstruction K ctx opReturn [] rest true s' = .error e := by
      intro s'
      rw [execInstruction, if_neg (by decide), if_pos (by simp), evalOp, if_neg (by decide),
        if_pos (by decide)]
      exact ⟨_, rfl⟩
    cases hres : evalStep K ctx (opReturn :: rest) s with
    | error e => exact ⟨e, rfl⟩
    | ok r =>
      rw [evalStep, getOp_of_not_push (by decide)] at hres
      simp only [bind_eq_ok, hs, List.all_nil] at hres
      obtain ⟨-, -, -, -, -, -, s', hs', -⟩ := hres
      obtain ⟨e, he⟩ := hop _
      rw [he] at hs'
      cases hs'
  unfold evalScript
  split
  · rfl
  · obtain ⟨e, he⟩ := hstep ⟨stack, [], [], 0, opReturn :: rest⟩ rfl
    simp only [List.length_cons, evalLoop, he]
    rfl

/-- **Null data is unspendable.** -/
theorem not_verifyScript_of_isOpReturn {ctx : EvalCtx} {scriptSig scriptPubKey : CScript}
    (h : isOpReturn scriptPubKey = true) : verifyScript K ctx scriptSig scriptPubKey = false := by
  unfold verifyScript
  cases evalScript K ctx [] scriptSig with
  | none => rfl
  | some stack => simp only [evalScript_of_isOpReturn h]

/-- **What a verified input shows**: the previous transaction has the id the input names, the
output exists, and it is not null data. -/
theorem verifySignature_spec {txFrom txTo : CTransaction} {nIn : Nat} {flags : UInt32}
    {nHashType : Int32} (h : verifySignature K txFrom txTo nIn flags nHashType = true) :
    ∃ txin txout, txTo.vin[nIn]? = some txin ∧
      txFrom.vout[txin.prevout.n.toNat]? = some txout ∧
      txin.prevout.hash = txFrom.getHash K ∧ isOpReturn txout.scriptPubKey = false := by
  unfold verifySignature at h
  cases hin : txTo.vin[nIn]? with
  | none => simp [hin] at h
  | some txin =>
    simp only [hin] at h
    cases hout : txFrom.vout[txin.prevout.n.toNat]? with
    | none => simp [hout] at h
    | some txout =>
      simp only [hout] at h
      split at h
      · cases h
      · next hhash =>
        refine ⟨txin, txout, rfl, hout, not_not.mp hhash, ?_⟩
        by_contra hop
        rw [not_verifyScript_of_isOpReturn (Bool.not_eq_false _ ▸ hop)] at h
        cases h

end Breakout
