/-
# Secure messages in memory and on disk

A secure message is a header of 104 bytes and an encrypted payload.  The store sorts messages by their
time into buckets of ten minutes: in memory a token for each, in the order of their times, and on disk
a file for each bucket that messages are appended to.  A token knows where in the file its message
begins.

What is read comes from a peer's bunch of messages, or from a buffer of this node, through pointers.
Files are as the source has them, one for each bucket and one more for what came in while the wallet was
locked; they are opened, written and removed without fail.
-/
import Mathlib.Logic.Function.Basic
import Breakout.Lib.Pointer
import Breakout.Script

namespace Breakout

open Lib

namespace SecMsg

/-! ## 1. Messages and tokens -/

abbrev smsgHdrLen : Nat := 104
abbrev smsgBucketLen : Int64 := 600
abbrev smsgRetention : Int64 := 172800
abbrev smsgTimeLeeway : Int64 := 60
/-- `SMSG_MAX_MSG_WORST`: 4096 bytes and the inner header, at the worst compression. -/
abbrev smsgMaxMsgWorst : Nat := 4218

/-- `psmsg->version[0]` -/
def version0 (pHeader : Ptr) : Run (List UInt8) := (pHeader.add 4).read 1

/-- `psmsg->timestamp` -/
def timestamp (pHeader : Ptr) : Run Int64 := do
  let bytes ← (pHeader.add 7).read 8
  return Int64.ofNat (leNat bytes)

/-- `psmsg->nPayload` -/
def payloadSize (pHeader : Ptr) : Run UInt32 := do
  let bytes ← (pHeader.add 100).read 4
  return UInt32.ofNat (leNat bytes)

structure SecMsgToken where
  timestamp : Int64
  sample : Valtype
  offset : Nat
deriving DecidableEq

namespace SecMsgToken

/-- `SecMsgToken(ts, p, np, o)` -/
def new (ts : Int64) (p : Ptr) (np : UInt32) (o : Nat) : Run SecMsgToken := do
  if np.toInt32 < 8 then return ⟨ts, List.replicate 8 0, o⟩
  else
    let sample ← p.read 8
    return ⟨ts, sample, o⟩

/-- `operator <` -/
def lt (x y : SecMsgToken) : Bool :=
  if x.timestamp = y.timestamp then decide (x.sample < y.sample) else decide (x.timestamp < y.timestamp)

/-- Neither is before the other. -/
def same (x y : SecMsgToken) : Bool := !x.lt y && !y.lt x

end SecMsgToken

/-- `setTokens.insert(token)` -/
def insertToken (token : SecMsgToken) : List SecMsgToken → List SecMsgToken
  | [] => [token]
  | t :: rest =>
    if token.lt t then token :: t :: rest
    else if t.lt token then t :: insertToken token rest
    else t :: rest

/-- `setTokens.find(token)` -/
def findToken (token : SecMsgToken) (setTokens : List SecMsgToken) : Option SecMsgToken :=
  setTokens.find? (token.same ·)

structure SecMsgBucket where
  timeChanged : Int64
  hash : UInt32
  nLockCount : UInt32
  nLockPeerId : UInt32
  setTokens : List SecMsgToken
deriving DecidableEq

/-- `SecMsgBucket()` -/
def SecMsgBucket.new : SecMsgBucket := ⟨0, 0, 0, 0, []⟩

/-- What the wallet's keys and the libraries compute: `HMAC` with SHA-256, if it does not fail, `XXH32`
with the seed 1, an address as `CBitcoinAddress` writes it, and for `SecureMsgDecrypt` of a header and a
payload with an address, the sender when it returns 0. -/
structure SmsgCrypto where
  hmacSha256 : Valtype → Valtype → Option Valtype
  xxh32 : Valtype → UInt32
  addressText : List Char → List Char
  decrypt : Bool → List Char → Valtype → Valtype → Option (List Char)

def SecMsgBucket.hashBucket (C : SmsgCrypto) (now : Int64) (b : SecMsgBucket) : SecMsgBucket :=
  { b with timeChanged := now, hash := C.xxh32 (b.setTokens.flatMap SecMsgToken.sample) }

/-- The bucket that a time lies in. -/
def bucketOf (timestamp : Int64) : Int64 := timestamp - timestamp % smsgBucketLen

/-! ## 2. The node -/

structure SecMsgAddress where
  sAddress : List Char
  fReceiveEnabled : Bool
  fReceiveAnon : Bool

/-- `SecMsgStored`, as the inbox has it. -/
structure SecMsgStored where
  timeReceived : Int64
  status : UInt8
  sAddrTo : List Char
  vchMessage : Valtype

/-- `smsgBuckets`, the files `<bucket>_01.dat` and `<bucket>_01_wl.dat`, the inbox by its keys, the
addresses that messages are received for, whether the wallet is locked, and `fSecMsgEnabled`. -/
structure SmsgNode where
  smsgBuckets : Int64 → Option SecMsgBucket
  files : Int64 → Option Valtype
  wlFiles : Int64 → Option Valtype
  inbox : Valtype → Option SecMsgStored
  smsgAddresses : List SecMsgAddress
  fLocked : Bool
  fSecMsgEnabled : Bool

namespace SmsgNode

/-- `smsgBuckets[bucket]`, what is read. -/
def bucket (node : SmsgNode) (bucket : Int64) : SecMsgBucket :=
  (node.smsgBuckets bucket).getD .new

/-- `smsgBuckets[bucket] = b` -/
def setBucket (node : SmsgNode) (bucket : Int64) (b : SecMsgBucket) : SmsgNode :=
  { node with smsgBuckets := Function.update node.smsgBuckets bucket (some b) }

/-- `fopen(file, "ab")` and `fwrite`, of a bucket's file. -/
def append (node : SmsgNode) (bucket : Int64) (bytes : Valtype) : SmsgNode :=
  { node with files :=
      Function.update node.files bucket (some ((node.files bucket).getD [] ++ bytes)) }

/-- The same, of the file that is kept while the wallet is locked. -/
def appendLocked (node : SmsgNode) (bucket : Int64) (bytes : Valtype) : SmsgNode :=
  { node with wlFiles :=
      Function.update node.wlFiles bucket (some ((node.wlFiles bucket).getD [] ++ bytes)) }

/-- `WriteSmesg`, in the inbox. -/
def save (node : SmsgNode) (chKey : Valtype) (smsgInbox : SecMsgStored) : SmsgNode :=
  { node with inbox := Function.update node.inbox chKey (some smsgInbox) }

end SmsgNode

/-- The check of a message's time: "Message > now." and "Message < SMSG_RETENTION." -/
def timely (now timestamp : Int64) : Bool :=
  !decide (timestamp > now + smsgTimeLeeway) && !decide (timestamp < now - smsgRetention)

/-! ## 3. `SecureMsgValidate` -/

def secureMsgValidate (C : SmsgCrypto) (pHeader pPayload : Ptr) (nPayload : UInt32) : Run Nat := do
  let version ← version0 pHeader
  if version ≠ [1] then return 4
  if nPayload.toNat > smsgMaxMsgWorst then return 5
  let nonse ← (pHeader.add 96).read 4
  let civ := (List.replicate 8 nonse).flatten
  let header ← (pHeader.add 4).read (smsgHdrLen - 4)
  let payload ← pPayload.read nPayload.toNat
  match C.hmacSha256 civ (header ++ payload ++ payload) with
  | none => return 1
  | some sha256Hash =>
    let rv := if sha256Hash.getD 31 0 = 0 ∧ sha256Hash.getD 30 0 = 0 ∧
      ~~~ sha256Hash.getD 29 0 &&& 1 ≠ 0 then 0 else 2
    let hash ← pHeader.read 4
    return if hash ≠ sha256Hash.take 4 then 3 else rv

/-! ## 4. Storing and retrieving -/

/-- `SecureMsgStore`: what it returns, and the node. -/
def secureMsgStore (C : SmsgCrypto) (now : Int64) (pHeader pPayload : Ptr) (nPayload : UInt32)
    (fUpdateBucket : Bool) (node : SmsgNode) : Run (Nat × SmsgNode) := do
  let timestamp ← timestamp pHeader
  if !timely now timestamp then return (1, node)
  let bucket := bucketOf timestamp
  let token ← SecMsgToken.new timestamp pPayload nPayload 0
  let b := node.bucket bucket
  if (findToken token b.setTokens).isSome then return (1, node.setBucket bucket b)
  let ofs := ((node.files bucket).getD []).length
  let header ← pHeader.read smsgHdrLen
  let payload ← pPayload.read nPayload.toNat
  let b := { b with setTokens := insertToken { token with offset := ofs } b.setTokens }
  return (0, (node.append bucket (header ++ payload)).setBucket bucket
    (if fUpdateBucket then b.hashBucket C now else b))

/-- `SecureMsgRetrieve`: the bytes of the message, or `none` where it returns 1. -/
def secureMsgRetrieve (node : SmsgNode) (token : SecMsgToken) : Option Valtype :=
  match node.files (bucketOf token.timestamp) with
  | none => none
  | some file =>
    let rest := file.drop token.offset
    let header := rest.take smsgHdrLen
    if header.length ≠ smsgHdrLen then none
    else
      let nPayload := (UInt32.ofNat (leNat (header.drop 100))).toNat
      let payload := (rest.drop smsgHdrLen).take nPayload
      if payload.length ≠ nPayload then none else some (header ++ payload)

def secureMsgStoreUnscanned (now : Int64) (pHeader pPayload : Ptr) (nPayload : UInt32)
    (node : SmsgNode) : Run (Nat × SmsgNode) := do
  let timestamp ← timestamp pHeader
  if !timely now timestamp then return (1, node)
  let header ← pHeader.read smsgHdrLen
  let payload ← pPayload.read nPayload.toNat
  return (0, node.appendLocked (bucketOf timestamp) (header ++ payload))

/-! ## 5. `SecureMsgScanMessage` -/

/-- The address of this node that a message is for, as the loop over `smsgAddresses` finds it. -/
def ownAddress (C : SmsgCrypto) (header payload : Valtype) : List SecMsgAddress → Option (List Char)
  | [] => none
  | it :: rest =>
    let addressTo := C.addressText it.sAddress
    if !it.fReceiveEnabled then ownAddress C header payload rest
    else if !it.fReceiveAnon then
      -- "have to do full decrypt to see address from"
      match C.decrypt false addressTo header payload with
      | some sFromAddress => if sFromAddress ≠ "anon".toList then some addressTo else none
      | none => ownAddress C header payload rest
    else
      match C.decrypt true addressTo header payload with
      | some _ => some addressTo
      | none => ownAddress C header payload rest

def secureMsgScanMessage (C : SmsgCrypto) (now : Int64) (pHeader pPayload : Ptr) (nPayload : UInt32)
    (node : SmsgNode) : Run (Nat × SmsgNode) := do
  if node.fLocked then
    -- "Wallet is locked, storing message to scan later."
    let (rv, node) ← secureMsgStoreUnscanned now pHeader pPayload nPayload node
    return (if rv ≠ 0 then 1 else 3, node)
  else
    let header ← pHeader.read smsgHdrLen
    let payload ← pPayload.read nPayload.toNat
    match ownAddress C header payload node.smsgAddresses with
    | none => return (0, node)
    | some addressTo =>
      let sample ← pPayload.read 8
      let chKey := "im".toUTF8.toList ++ (header.drop 7).take 8 ++ sample
      if (node.inbox chKey).isSome then return (0, node)
      else
        return (0, node.save chKey ⟨now, 1, addressTo, header ++ payload⟩)

end SecMsg

end Breakout
