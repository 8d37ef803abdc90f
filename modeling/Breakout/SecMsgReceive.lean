/-
# Secure messages from peers

`SecureMsgReceiveData` takes the payload of a command apart: headers of buckets, tokens, or a bunch of
messages.  Lengths and counts come from the peer.  Most handlers ask for enough bytes before they read
them; two do not: `smsgShow` multiplies the count in 32 bits, and a bunch of messages is trusted about
how long each payload is, and that there are eight bytes of it.

`inBounds_secureMsgReceiveData_iff` says for which payloads every read is inside.
-/
import Breakout.SecMsg

namespace Breakout

open Lib

namespace SecMsg

/-! ## 1. Peers -/

/-- A vector as `vRecv >> vchData` reads it: `ReadCompactSize` throws above `MAX_SIZE`. -/
abbrev Received := { v : Valtype // v.length ≤ 0x02000000 }

/-- `pfrom->smsgData` -/
structure SmsgPeer where
  nPeerId : UInt32
  fEnabled : Bool
  ignoreUntil : Int64
  lastMatched : Int64

/-- The commands between peers. -/
inductive SmsgCommand where
  | smsgInv | smsgShow | smsgHave | smsgWant | smsgMsg | smsgMatch | smsgPing | smsgPong
  | smsgDisabled | smsgIgnore
deriving DecidableEq

/-- The node and a peer, its misbehaviour, and what is pushed to it. -/
structure Exchange where
  node : SmsgNode
  pfrom : SmsgPeer
  nMisbehavior : Nat
  sent : List (SmsgCommand × Valtype)

namespace Exchange

/-- `pfrom->Misbehaving(howmuch)` -/
def misbehaving (x : Exchange) (howmuch : Nat) : Exchange :=
  { x with nMisbehavior := x.nMisbehavior + howmuch }

/-- `pfrom->PushMessage(command, vchData)` -/
def push (x : Exchange) (command : SmsgCommand) (vchData : Valtype) : Exchange :=
  { x with sent := x.sent ++ [(command, vchData)] }

/-- `smsgBuckets[bucket]`, which is there from then on. -/
def touch (x : Exchange) (bucket : Int64) : Exchange :=
  { x with node := x.node.setBucket bucket (x.node.bucket bucket) }

end Exchange

/-- `memcpy(&time, p, 8);` -/
def readTime (p : Ptr) : Run Int64 := do
  let bytes ← p.read 8
  return Int64.ofNat (leNat bytes)

/-- `memcpy(&n, p, 4);` -/
def readUInt32 (p : Ptr) : Run UInt32 := do
  let bytes ← p.read 4
  return UInt32.ofNat (leNat bytes)

/-- The eight bytes of a time. -/
def timeBytes (time : Int64) : Valtype := leBytes 8 time.toUInt64.toNat

/-! ## 2. Buckets: `smsgInv`, `smsgShow` -/

/-- The header of a bucket in `smsgInv`: the locked buckets are counted, and the times of those that are
wanted are kept. -/
def invHeader (now : Int64) (p : Ptr) : Exchange × Nat × List Int64 →
    Run (Bool × Exchange × Nat × List Int64)
  | (x, nLocked, wanted) => do
    let time ← readTime p
    let ncontent ← readUInt32 (p.add 8)
    let hash ← readUInt32 (p.add 12)
    if time < now - smsgRetention then
      if time < now - smsgRetention - smsgTimeLeeway then
        return (true, x.misbehaving 1, nLocked, wanted)
      else return (true, x, nLocked, wanted)
    else if time > now + smsgTimeLeeway then return (true, x.misbehaving 1, nLocked, wanted)
    else if ncontent < 1 then return (true, x, nLocked, wanted)
    else
      let b := x.node.bucket time
      let x := x.touch time
      if b.nLockCount > 0 then return (true, x, nLocked + 1, wanted)
      else if b.setTokens.length < ncontent.toNat ∨
          (b.setTokens.length = ncontent.toNat ∧ b.hash ≠ hash) then
        return (true, x, nLocked, wanted ++ [time])
      else return (true, x, nLocked, wanted)

/-- `smsgInv` -/
def receiveInv (now : Int64) (vchData : Valtype) (x : Exchange) : Run (Bool × Exchange) := do
  if vchData.length < 4 then return (false, x.misbehaving 1)
  else if now < x.pfrom.ignoreUntil then return (false, x)
  else
    let nInvBuckets ← readUInt32 ⟨vchData, 0⟩
    if nInvBuckets > 172800 / 600 + 1 then return (false, x.misbehaving 1)
    else if vchData.length < (4 + nInvBuckets * 16).toNat then return (false, x.misbehaving 1)
    else
      let (x, nLocked, wanted) ←
        forEach 16 (invHeader now) nInvBuckets.toNat ⟨vchData, 4⟩ (x, 0, [])
      if wanted ≠ [] then
        return (true, x.push .smsgShow (leBytes 4 wanted.length ++ wanted.flatMap timeBytes))
      else if nLocked < 1 then return (true, x.push .smsgMatch (timeBytes now))
      else return (true, x)

/-- A bucket that `smsgShow` asks for. -/
def showBucket (p : Ptr) (x : Exchange) : Run (Bool × Exchange) := do
  let time ← readTime p
  match x.node.smsgBuckets time with
  | none => return (true, x)
  | some b =>
    return (true, x.push .smsgHave (timeBytes time ++
      b.setTokens.flatMap fun token => timeBytes token.timestamp ++ token.sample))

/-- `smsgShow`.  The sum is one of `uint32_t`. -/
def receiveShow (vchData : Valtype) (x : Exchange) : Run (Bool × Exchange) := do
  if vchData.length < 4 then return (false, x)
  else
    let nBuckets ← readUInt32 ⟨vchData, 0⟩
    if vchData.length < (4 + nBuckets * 8).toNat then return (false, x)
    else
      let x ← forEach 8 showBucket nBuckets.toNat ⟨vchData, 4⟩ x
      return (true, x)

/-! ## 3. Tokens: `smsgHave`, `smsgWant` -/

/-- A token that the peer has: the sixteen bytes are kept when this node has not. -/
def haveToken (tokenSet : List SecMsgToken) (p : Ptr) (vchDataOut : Valtype) :
    Run (Bool × Valtype) := do
  let timestamp ← readTime p
  let sample ← (p.add 8).read 8
  if (findToken ⟨timestamp, sample, 0⟩ tokenSet).isSome then return (true, vchDataOut)
  else
    let bytes ← p.read 16
    return (true, vchDataOut ++ bytes)

/-- `smsgHave` -/
def receiveHave (now : Int64) (vchData : Valtype) (x : Exchange) : Run (Bool × Exchange) := do
  if vchData.length < 8 then return (false, x)
  else
    let n := (vchData.length - 8) / 16
    let time ← readTime ⟨vchData, 0⟩
    if time < now - smsgRetention then return (false, x)
    else if time > now + smsgTimeLeeway then return (false, x.misbehaving 1)
    else
      let b := x.node.bucket time
      let x := x.touch time
      if b.nLockCount > 0 then return (false, x)
      else
        let first ← (⟨vchData, 0⟩ : Ptr).read 8
        let vchDataOut ← forEach 16 (haveToken b.setTokens) n ⟨vchData, 8⟩ first
        if vchDataOut.length > 8 then
          let b := { b with nLockCount := 3, nLockPeerId := x.pfrom.nPeerId }
          return (true, { x with node := x.node.setBucket time b }.push .smsgWant vchDataOut)
        else return (true, x)

/-- A token that the peer wants: its message is added to the bunch.  The last part of the state is
`vchBunch` after its first twelve bytes. -/
def wantToken (node : SmsgNode) (tokenSet : List SecMsgToken) (p : Ptr) :
    Nat × Valtype → Run (Bool × Nat × Valtype)
  | (nBunch, vchBunch) => do
    let timestamp ← readTime p
    let sample ← (p.add 8).read 8
    match findToken ⟨timestamp, sample, 0⟩ tokenSet with
    | none => return (true, nBunch, vchBunch)
    | some token =>
      let (nBunch, vchBunch) :=
        match secureMsgRetrieve node ⟨timestamp, sample, token.offset⟩ with
        | some vchOne => (nBunch + 1, vchBunch ++ vchOne)
        | none => (nBunch, vchBunch)
      -- "end here, peer will send more want messages if needed."
      return (!(decide (nBunch ≥ 500) || decide (12 + vchBunch.length ≥ 96000)), nBunch, vchBunch)

/-- `smsgWant` -/
def receiveWant (vchData : Valtype) (x : Exchange) : Run (Bool × Exchange) := do
  if vchData.length < 8 then return (false, x)
  else
    let n := (vchData.length - 8) / 16
    let time ← readTime ⟨vchData, 0⟩
    match x.node.smsgBuckets time with
    | none => return (false, x)
    | some b =>
      let (nBunch, vchBunch) ← forEach 16 (wantToken x.node b.setTokens) n ⟨vchData, 8⟩ (0, [])
      if nBunch > 0 then
        return (true, x.push .smsgMsg (leBytes 4 nBunch ++ timeBytes time ++ vchBunch))
      else return (true, x)

/-! ## 4. Messages: `SecureMsgReceive` -/

/-- A message of a bunch: where the next is, if the loop goes on. -/
def bunchMessage (C : SmsgCrypto) (now : Int64) (vchData : Valtype) (n : UInt32) (x : Exchange) :
    Run (Option UInt32 × Exchange) := do
  if UInt64.ofNat vchData.length - n.toUInt64 < UInt64.ofNat smsgHdrLen then return (none, x)
  else
    let pHeader : Ptr := ⟨vchData, n.toNat⟩
    let pPayload := pHeader.add smsgHdrLen
    let nPayload ← payloadSize pHeader
    let rv ← secureMsgValidate C pHeader pPayload nPayload
    if rv ≠ 0 then
      -- "message dropped"
      return (some n, x.misbehaving (if rv = 2 then 10 else 1))
    else
      -- "store message, but don't hash bucket"
      let (rv, node) ← secureMsgStore C now pHeader pPayload nPayload false x.node
      if rv ≠ 0 then return (none, { x with node := node })
      else
        let (_, node) ← secureMsgScanMessage C now pHeader pPayload nPayload node
        return (some (n + (UInt32.ofNat smsgHdrLen + nPayload)), { x with node := node })

/-- The loop over a bunch, from the rounds that are left and the number of those before. -/
def bunchLoop (C : SmsgCrypto) (clock : Nat → Int64) (vchData : Valtype) :
    Nat → Nat → UInt32 → Exchange → Run Exchange
  | 0, _, _, x => .ok x
  | k + 1, i, n, x => bunchMessage C (clock (i + 1)) vchData n x >>= fun
    | (some n, x) => bunchLoop C clock vchData k (i + 1) n x
    | (none, x) => .ok x

/-- `SecureMsgReceive`.  The clock is read once, and once more for each message. -/
def secureMsgReceive (C : SmsgCrypto) (clock : Nat → Int64) (vchData : Valtype) (x : Exchange) :
    Run (Nat × Exchange) := do
  if vchData.length < 12 then return (1, x)
  else
    let nBunch ← readUInt32 ⟨vchData, 0⟩
    let bktTime ← readTime ⟨vchData, 4⟩
    let now := clock 0
    if bktTime > now + smsgTimeLeeway then return (1, x)
    else if bktTime < now - smsgRetention then return (1, x)
    else if nBunch = 0 ∨ nBunch > 500 then
      let x := x.misbehaving 1
      -- "release lock on bucket if it exists"
      match x.node.smsgBuckets bktTime with
      | none => return (1, x)
      | some b => return (1, { x with node := x.node.setBucket bktTime { b with nLockCount := 0 } })
    else
      let x ← bunchLoop C clock vchData nBunch.toNat 0 12 x
      match x.node.smsgBuckets bktTime with
      | none => return (1, x)
      | some b =>
        let b := { b with nLockCount := 0, nLockPeerId := 0 }.hashBucket C now
        return (0, { x with node := x.node.setBucket bktTime b })

/-! ## 5. `SecureMsgReceiveData` -/

/-- `smsgMatch` -/
def receiveMatch (now : Int64) (vchData : Valtype) (x : Exchange) : Run (Bool × Exchange) := do
  if vchData.length < 8 then return (false, x.misbehaving 1)
  else
    let time ← readTime ⟨vchData, 0⟩
    let time := if time > now + smsgTimeLeeway then now else time
    return (true, { x with pfrom := { x.pfrom with lastMatched := time } })

/-- `smsgIgnore` -/
def receiveIgnore (vchData : Valtype) (x : Exchange) : Run (Bool × Exchange) := do
  if vchData.length < 8 then return (false, x.misbehaving 1)
  else
    let time ← readTime ⟨vchData, 0⟩
    return (true, { x with pfrom := { x.pfrom with ignoreUntil := time } })

def secureMsgReceiveData (C : SmsgCrypto) (clock : Nat → Int64) (strCommand : SmsgCommand)
    (vchData : Received) (x : Exchange) : Run (Bool × Exchange) :=
  match strCommand with
  | .smsgInv => receiveInv (clock 0) vchData.val x
  | .smsgShow => receiveShow vchData.val x
  | .smsgHave => receiveHave (clock 0) vchData.val x
  | .smsgWant => receiveWant vchData.val x
  | .smsgMsg => do
    let (_, x) ← secureMsgReceive C clock vchData.val x
    return (true, x)
  | .smsgMatch => receiveMatch (clock 0) vchData.val x
  | .smsgPing => .ok (true, x.push .smsgPong [])
  | .smsgPong => .ok (true, { x with pfrom := { x.pfrom with fEnabled := true } })
  | .smsgDisabled => .ok (true, { x with pfrom := { x.pfrom with fEnabled := false } })
  | .smsgIgnore => receiveIgnore vchData.val x

/-! ## 6. Reads that are guarded -/

variable {p : Ptr} {tokenSet : List SecMsgToken}

@[simp] theorem inBounds_readTime : InBounds (readTime p) ↔ p.Holds 8 := by
  simp only [readTime, inBounds_bind, Ptr.inBounds_read, inBounds_pure, implies_true, and_true]

@[simp] theorem inBounds_readUInt32 : InBounds (readUInt32 p) ↔ p.Holds 4 := by
  simp only [readUInt32, inBounds_bind, Ptr.inBounds_read, inBounds_pure, implies_true, and_true]

theorem holds_start {vchData : Valtype} {pos n : Nat} : (⟨vchData, pos⟩ : Ptr).Holds n ↔
    pos + n ≤ vchData.length := Iff.rfl

theorem inBounds_invHeader {now : Int64} (p : Ptr) (s : Exchange × Nat × List Int64)
    (h : p.Holds 16) : InBounds (invHeader now p s) := by
  obtain ⟨x, nLocked, wanted⟩ := s
  simp only [invHeader, inBounds_bind, inBounds_readTime, inBounds_readUInt32, Ptr.holds_add]
  refine ⟨h.mono (by decide), fun _ _ => ⟨h.mono (by decide), fun _ _ => ⟨h.mono (by decide),
    fun _ _ => ?_⟩⟩⟩
  split_ifs <;> exact inBounds_pure _

/-- The count of headers is checked before it is multiplied. -/
theorem inBounds_receiveInv (now : Int64) (vchData : Valtype) (x : Exchange) :
    InBounds (receiveInv now vchData x) := by
  unfold receiveInv
  split_ifs with hshort hignored
  · exact inBounds_pure _
  · exact inBounds_pure _
  · refine inBounds_bind.mpr ⟨inBounds_readUInt32.mpr (holds_start.mpr (by omega)),
      fun nInvBuckets _ => ?_⟩
    split_ifs with hmany hdata
    · exact inBounds_pure _
    · exact inBounds_pure _
    · have hfew : nInvBuckets.toNat ≤ 289 := by
        have := UInt32.le_iff_toNat_le.mp (UInt32.not_lt.mp hmany)
        exact this
      have hsize : (4 + nInvBuckets * 16).toNat = 4 + nInvBuckets.toNat * 16 := by
        rw [UInt32.toNat_add, UInt32.toNat_mul]
        change (4 + nInvBuckets.toNat * 16 % 2 ^ 32) % 2 ^ 32 = _
        omega
      refine inBounds_bind.mpr ⟨inBounds_forEach inBounds_invHeader (holds_start.mpr (by omega)), ?_⟩
      rintro ⟨x, nLocked, wanted⟩ -
      dsimp only
      split_ifs <;> exact inBounds_pure _

theorem inBounds_haveToken (p : Ptr) (vchDataOut : Valtype) (h : p.Holds 16) :
    InBounds (haveToken tokenSet p vchDataOut) := by
  simp only [haveToken, inBounds_bind, inBounds_readTime, Ptr.inBounds_read, Ptr.holds_add]
  refine ⟨h.mono (by decide), fun _ _ => ⟨h.mono (by decide), fun _ _ => ?_⟩⟩
  split_ifs
  · exact inBounds_pure _
  · exact inBounds_bind.mpr ⟨Ptr.inBounds_read.mpr h, fun _ _ => inBounds_pure _⟩

theorem inBounds_receiveHave (now : Int64) (vchData : Valtype) (x : Exchange) :
    InBounds (receiveHave now vchData x) := by
  unfold receiveHave
  split_ifs with hshort
  · exact inBounds_pure _
  · have hfirst : (⟨vchData, 0⟩ : Ptr).Holds 8 := holds_start.mpr (by omega)
    have hrest : (⟨vchData, 8⟩ : Ptr).Holds ((vchData.length - 8) / 16 * 16) :=
      holds_start.mpr (by omega)
    refine inBounds_bind.mpr ⟨inBounds_readTime.mpr hfirst, fun time _ => ?_⟩
    dsimp only
    split_ifs
    · exact inBounds_pure _
    · exact inBounds_pure _
    · exact inBounds_pure _
    · refine inBounds_bind.mpr ⟨Ptr.inBounds_read.mpr hfirst, fun first _ => ?_⟩
      refine inBounds_bind.mpr ⟨inBounds_forEach inBounds_haveToken hrest, fun vchDataOut _ => ?_⟩
      split_ifs <;> exact inBounds_pure _

theorem inBounds_wantToken {node : SmsgNode} (p : Ptr) (s : Nat × Valtype) (h : p.Holds 16) :
    InBounds (wantToken node tokenSet p s) := by
  obtain ⟨nBunch, vchBunch⟩ := s
  simp only [wantToken, inBounds_bind, inBounds_readTime, Ptr.inBounds_read, Ptr.holds_add]
  refine ⟨h.mono (by decide), fun _ _ => ⟨h.mono (by decide), fun _ _ => ?_⟩⟩
  split <;> exact inBounds_pure _

theorem inBounds_receiveWant (vchData : Valtype) (x : Exchange) :
    InBounds (receiveWant vchData x) := by
  unfold receiveWant
  split_ifs with hshort
  · exact inBounds_pure _
  · have hrest : (⟨vchData, 8⟩ : Ptr).Holds ((vchData.length - 8) / 16 * 16) :=
      holds_start.mpr (by omega)
    refine inBounds_bind.mpr ⟨inBounds_readTime.mpr (holds_start.mpr (by omega)), fun time _ => ?_⟩
    split
    · exact inBounds_pure _
    · refine inBounds_bind.mpr ⟨inBounds_forEach inBounds_wantToken hrest, ?_⟩
      rintro ⟨nBunch, vchBunch⟩ -
      dsimp only
      split_ifs <;> exact inBounds_pure _

theorem inBounds_receiveMatch (now : Int64) (vchData : Valtype) (x : Exchange) :
    InBounds (receiveMatch now vchData x) := by
  unfold receiveMatch
  split_ifs with hshort
  · exact inBounds_pure _
  · exact inBounds_bind.mpr ⟨inBounds_readTime.mpr (holds_start.mpr (by omega)),
      fun _ _ => inBounds_pure _⟩

theorem inBounds_receiveIgnore (vchData : Valtype) (x : Exchange) :
    InBounds (receiveIgnore vchData x) := by
  unfold receiveIgnore
  split_ifs with hshort
  · exact inBounds_pure _
  · exact inBounds_bind.mpr ⟨inBounds_readTime.mpr (holds_start.mpr (by omega)),
      fun _ _ => inBounds_pure _⟩

/-! ## 7. `smsgShow` -/

/-- The count at the beginning of a vector. -/
def firstCount (vchData : Valtype) : UInt32 := UInt32.ofNat (leNat (vchData.take 4))

/-- The times are all there whenever the sum of 32 bits says so. -/
def ShowFits (vchData : Valtype) : Prop :=
  (4 + firstCount vchData * 8).toNat ≤ vchData.length →
    4 + (firstCount vchData).toNat * 8 ≤ vchData.length

theorem showBucket_of_holds (p : Ptr) (x : Exchange) (h : p.Holds 8) :
    ∃ x', showBucket p x = .ok (true, x') := by
  unfold showBucket readTime
  rw [Ptr.read_of_holds h]
  dsimp only [bind, Except.bind, pure, Except.pure]
  split <;> exact ⟨_, rfl⟩

theorem holds_of_showBucket (p : Ptr) (x : Exchange) (h : InBounds (showBucket p x)) : p.Holds 8 :=
  inBounds_readTime.mp (inBounds_bind.mp h).1

theorem inBounds_showBucket (p : Ptr) (x : Exchange) (h : p.Holds 8) :
    InBounds (showBucket p x) := by
  obtain ⟨x', hx'⟩ := showBucket_of_holds p x h
  rw [hx']
  exact inBounds_ok _

theorem inBounds_receiveShow_iff (vchData : Valtype) (x : Exchange) :
    InBounds (receiveShow vchData x) ↔ (4 ≤ vchData.length → ShowFits vchData) := by
  unfold receiveShow
  split_ifs with hshort
  · exact iff_of_true (inBounds_pure _) fun h => absurd h (by omega)
  · have hfirst : (⟨vchData, 0⟩ : Ptr).Holds 4 := holds_start.mpr (by omega)
    have hcount : readUInt32 ⟨vchData, 0⟩ = .ok (firstCount vchData) := by
      unfold readUInt32
      rw [Ptr.read_of_holds hfirst]
      rfl
    rw [hcount]
    change InBounds (if _ then _ else _) ↔ _
    unfold ShowFits
    split_ifs with hdata
    · exact iff_of_true (inBounds_pure _) fun _ h => absurd hdata (by omega)
    · have hlength : 4 ≤ vchData.length := by omega
      have hsum : (4 + firstCount vchData * 8).toNat ≤ vchData.length := by omega
      simp only [hlength, hsum, forall_const]
      rw [inBounds_bind]
      constructor
      · intro h
        exact holds_start.mp (holds_of_inBounds_forEach holds_of_showBucket showBucket_of_holds
          (holds_start.mpr hlength) h.1)
      · intro h
        exact ⟨inBounds_forEach inBounds_showBucket (holds_start.mpr h), fun _ _ => inBounds_pure _⟩

/-! ## 8. A bunch of messages -/

/-- The size of the payload that a header states. -/
def statedSize (pHeader : Ptr) : UInt32 := UInt32.ofNat (leNat ((pHeader.add 100).slice 4))

/-- The header of a message that is looked at further: its version and its size. -/
def LookedAt (pHeader : Ptr) : Prop :=
  (pHeader.add 4).slice 1 = [1] ∧ (statedSize pHeader).toNat ≤ smsgMaxMsgWorst

/-- The wallet is not locked, and one of the addresses decrypts the message. -/
def IsOwn (C : SmsgCrypto) (pHeader : Ptr) (node : SmsgNode) : Prop :=
  node.fLocked = false ∧ ownAddress C (pHeader.slice smsgHdrLen)
    ((pHeader.add smsgHdrLen).slice (statedSize pHeader).toNat) node.smsgAddresses ≠ none

section

variable {C : SmsgCrypto} {now : Int64} {pHeader pPayload : Ptr} {nPayload : UInt32}
  {node : SmsgNode}

theorem payloadSize_of_holds (h : pHeader.Holds smsgHdrLen) :
    payloadSize pHeader = .ok (statedSize pHeader) := by
  unfold payloadSize
  rw [Ptr.read_of_holds (Ptr.holds_add.mpr h)]
  rfl

theorem timestamp_of_holds (h : pHeader.Holds smsgHdrLen) :
    timestamp pHeader = .ok (Int64.ofNat (leNat ((pHeader.add 7).slice 8))) := by
  unfold timestamp
  rw [Ptr.read_of_holds (Ptr.holds_add.mpr (h.mono (by decide)))]
  rfl

theorem inBounds_secureMsgValidate_iff (h : pHeader.Holds smsgHdrLen) :
    InBounds (secureMsgValidate C pHeader pPayload nPayload) ↔
      ((pHeader.add 4).slice 1 = [1] → nPayload.toNat ≤ smsgMaxMsgWorst →
        pPayload.Holds nPayload.toNat) := by
  have hversion : version0 pHeader = .ok ((pHeader.add 4).slice 1) :=
    Ptr.read_of_holds (Ptr.holds_add.mpr (h.mono (by decide)))
  unfold secureMsgValidate
  rw [hversion]
  change InBounds (if _ then _ else _) ↔ _
  split_ifs with hother hlong
  · exact iff_of_true (inBounds_pure _) fun hone => absurd hone hother
  · exact iff_of_true (inBounds_pure _) fun _ hle => absurd hle (not_le.mpr hlong)
  · have hone := not_ne_iff.mp hother
    have hle := not_lt.mp hlong
    simp only [hone, hle, forall_const, inBounds_bind, Ptr.inBounds_read, Ptr.holds_add]
    constructor
    · intro hall
      exact ((hall.2 _ (Ptr.read_of_holds (Ptr.holds_add.mpr (h.mono (by decide))))).2 _
        (Ptr.read_of_holds (Ptr.holds_add.mpr (h.mono (by decide))))).1
    · intro hpayload
      refine ⟨h.mono (by decide), fun _ _ => ⟨h.mono (by decide), fun _ _ => ⟨hpayload, fun _ _ => ?_⟩⟩⟩
      split
      · exact inBounds_pure _
      · exact inBounds_bind.mpr ⟨Ptr.inBounds_read.mpr (h.mono (by decide)),
          fun _ _ => inBounds_pure _⟩

theorem inBounds_secMsgToken {ts : Int64} {o : Nat} (h : pPayload.Holds nPayload.toNat) :
    InBounds (SecMsgToken.new ts pPayload nPayload o) := by
  unfold SecMsgToken.new
  split_ifs with hshort
  · exact inBounds_pure _
  · have hlong : 8 ≤ nPayload.toNat := by
      rw [Int32.lt_iff_toInt_lt] at hshort
      have hnat : nPayload.toInt32.toInt ≤ nPayload.toNat := by
        change (nPayload.toBitVec).toInt ≤ (nPayload.toBitVec.toNat : Int)
        rw [BitVec.toInt_eq_toNat_cond]
        split_ifs <;> omega
      have height : (8 : Int32).toInt = 8 := by decide
      omega
    exact inBounds_bind.mpr ⟨Ptr.inBounds_read.mpr (h.mono hlong), fun _ _ => inBounds_pure _⟩

theorem inBounds_secureMsgStore {fUpdateBucket : Bool} (h : pHeader.Holds smsgHdrLen)
    (hpayload : pPayload.Holds nPayload.toNat) :
    InBounds (secureMsgStore C now pHeader pPayload nPayload fUpdateBucket node) := by
  unfold secureMsgStore
  rw [timestamp_of_holds h]
  change InBounds (if _ then _ else _)
  split
  · exact inBounds_pure _
  · refine inBounds_bind.mpr ⟨inBounds_secMsgToken hpayload, fun token _ => ?_⟩
    dsimp only
    split
    · exact inBounds_pure _
    · exact inBounds_bind.mpr ⟨Ptr.inBounds_read.mpr h, fun _ _ =>
        inBounds_bind.mpr ⟨Ptr.inBounds_read.mpr hpayload, fun _ _ => inBounds_pure _⟩⟩

theorem inBounds_secureMsgStoreUnscanned (h : pHeader.Holds smsgHdrLen)
    (hpayload : pPayload.Holds nPayload.toNat) :
    InBounds (secureMsgStoreUnscanned now pHeader pPayload nPayload node) := by
  unfold secureMsgStoreUnscanned
  rw [timestamp_of_holds h]
  change InBounds (if _ then _ else _)
  split_ifs
  · exact inBounds_pure _
  · exact inBounds_bind.mpr ⟨Ptr.inBounds_read.mpr h, fun _ _ =>
      inBounds_bind.mpr ⟨Ptr.inBounds_read.mpr hpayload, fun _ _ => inBounds_pure _⟩⟩

theorem inBounds_secureMsgScanMessage_iff (h : pHeader.Holds smsgHdrLen)
    (hpayload : (pHeader.add smsgHdrLen).Holds (statedSize pHeader).toNat) :
    InBounds (secureMsgScanMessage C now pHeader (pHeader.add smsgHdrLen) (statedSize pHeader) node) ↔
      (IsOwn C pHeader node → (pHeader.add smsgHdrLen).Holds 8) := by
  unfold secureMsgScanMessage IsOwn
  split_ifs with hlocked
  · refine iff_of_true (inBounds_bind.mpr ⟨inBounds_secureMsgStoreUnscanned h hpayload, ?_⟩)
      fun hown => absurd hown.1 (by simp [hlocked])
    rintro ⟨rv, node⟩ -
    exact inBounds_pure _
  · rw [Ptr.read_of_holds h, Ptr.read_of_holds hpayload]
    simp only [Bool.not_eq_true] at hlocked
    simp only [hlocked, true_and]
    simp only [ok_bind]
    cases ownAddress C (pHeader.slice smsgHdrLen)
      ((pHeader.add smsgHdrLen).slice (statedSize pHeader).toNat) node.smsgAddresses with
    | none => exact iff_of_true (inBounds_pure _) fun hne => absurd rfl hne
    | some addressTo =>
      simp only [ne_eq, reduceCtorEq, not_false_eq_true, forall_const, inBounds_bind,
        Ptr.inBounds_read, and_iff_left_iff_imp]
      intro _ _ _
      split_ifs <;> exact inBounds_pure _

end

/-- **A message fits**: if it is looked at further, its payload is inside, and eight bytes of it are if it
is stored and is for this node. -/
def MessageFits (C : SmsgCrypto) (now : Int64) (vchData : Valtype) (n : UInt32) (x : Exchange) :
    Prop :=
  let pHeader : Ptr := ⟨vchData, n.toNat⟩
  let pPayload := pHeader.add smsgHdrLen
  pHeader.Holds smsgHdrLen → LookedAt pHeader → pPayload.Holds (statedSize pHeader).toNat ∧
    ∀ node, secureMsgValidate C pHeader pPayload (statedSize pHeader) = .ok 0 →
      secureMsgStore C now pHeader pPayload (statedSize pHeader) false x.node = .ok (0, node) →
        IsOwn C pHeader node → pPayload.Holds 8

/-- Something holds of every message that the loop comes to. -/
def BunchAll (C : SmsgCrypto) (clock : Nat → Int64) (vchData : Valtype)
    (P : Int64 → UInt32 → Exchange → Prop) : Nat → Nat → UInt32 → Exchange → Prop
  | 0, _, _, _ => True
  | k + 1, i, n, x => P (clock (i + 1)) n x ∧
    ∀ n' x', bunchMessage C (clock (i + 1)) vchData n x = .ok (some n', x') →
      BunchAll C clock vchData P k (i + 1) n' x'

section

variable {C : SmsgCrypto} {now : Int64} {clock : Nat → Int64} {vchData : Valtype} {n n' : UInt32}
  {x x' : Exchange}

/-- The room that is left is computed without wrapping. -/
theorem room_iff (hsize : vchData.length ≤ 0x02000000) (hn : n.toNat ≤ vchData.length) :
    ¬ UInt64.ofNat vchData.length - n.toUInt64 < UInt64.ofNat smsgHdrLen ↔
      (⟨vchData, n.toNat⟩ : Ptr).Holds smsgHdrLen := by
  have hlength : (UInt64.ofNat vchData.length).toNat = vchData.length :=
    UInt64.toNat_ofNat_of_lt' (by simp only [UInt64.size]; omega)
  have hle : n.toUInt64 ≤ UInt64.ofNat vchData.length := by
    rw [UInt64.le_iff_toNat_le, hlength]
    simpa using hn
  rw [UInt64.lt_iff_toNat_lt, UInt64.toNat_sub_of_le _ _ hle, hlength, holds_start]
  have hn64 : n.toUInt64.toNat = n.toNat := by simp
  have hheader : (UInt64.ofNat smsgHdrLen).toNat = 104 := by decide
  rw [hn64, hheader]
  change ¬ vchData.length - n.toNat < 104 ↔ n.toNat + 104 ≤ vchData.length
  omega

/-- A message that is valid was looked at to its end. -/
theorem holds_of_validate {pHeader pPayload : Ptr} {nPayload : UInt32} (h : pHeader.Holds smsgHdrLen)
    (hvalid : secureMsgValidate C pHeader pPayload nPayload = .ok 0) :
    ((pHeader.add 4).slice 1 = [1] ∧ nPayload.toNat ≤ smsgMaxMsgWorst) ∧
      pPayload.Holds nPayload.toNat := by
  have hversion : version0 pHeader = .ok ((pHeader.add 4).slice 1) :=
    Ptr.read_of_holds (Ptr.holds_add.mpr (h.mono (by decide)))
  have hin : InBounds (secureMsgValidate C pHeader pPayload nPayload) := by
    rw [hvalid]
    exact inBounds_ok _
  have hlook := (inBounds_secureMsgValidate_iff h).mp hin
  unfold secureMsgValidate at hvalid
  rw [hversion] at hvalid
  change (if _ then _ else _) = _ at hvalid
  split_ifs at hvalid with hother hlong
  · cases hvalid
  · cases hvalid
  · have hone := not_ne_iff.mp hother
    exact ⟨⟨hone, not_lt.mp hlong⟩, hlook hone (not_lt.mp hlong)⟩

/-- **A message is read inside exactly when it fits.** -/
theorem inBounds_bunchMessage_iff (hsize : vchData.length ≤ 0x02000000)
    (hn : n.toNat ≤ vchData.length) :
    InBounds (bunchMessage C now vchData n x) ↔ MessageFits C now vchData n x := by
  unfold bunchMessage MessageFits
  have hroom := room_iff hsize hn
  split
  · next hno => exact iff_of_true (inBounds_pure _) fun h => absurd hno (hroom.mpr h)
  · next hyes =>
    have hheader := hroom.mp hyes
    dsimp only
    rw [payloadSize_of_holds hheader]
    simp only [hheader, forall_const]
    change InBounds (secureMsgValidate _ _ _ _ >>= _) ↔ _
    rw [inBounds_bind, inBounds_secureMsgValidate_iff hheader]
    constructor
    · rintro ⟨hvalid, hafter⟩ hlooked
      refine ⟨hvalid hlooked.1 hlooked.2, fun node hv hstored hown => ?_⟩
      have hpayload := hvalid hlooked.1 hlooked.2
      have hstore := hafter 0 hv
      rw [if_neg (by decide)] at hstore
      have hscan := (inBounds_bind.mp hstore).2 _ hstored
      exact (inBounds_secureMsgScanMessage_iff hheader hpayload).mp (inBounds_bind.mp hscan).1 hown
    · intro h
      refine ⟨fun hone hle => (h ⟨hone, hle⟩).1, fun rv hv => ?_⟩
      split
      · exact inBounds_pure _
      · next hzero =>
        obtain rfl : rv = 0 := not_ne_iff.mp hzero
        obtain ⟨hlooked, hpayload⟩ := holds_of_validate hheader hv
        refine inBounds_bind.mpr ⟨inBounds_secureMsgStore hheader hpayload, ?_⟩
        rintro ⟨rv, node⟩ hstored
        dsimp only
        split
        · exact inBounds_pure _
        · next hzero =>
          obtain rfl : rv = 0 := not_ne_iff.mp hzero
          refine inBounds_bind.mpr ⟨(inBounds_secureMsgScanMessage_iff hheader hpayload).mpr
            ((h hlooked).2 node hv hstored), ?_⟩
          rintro ⟨_, node⟩ -
          exact inBounds_pure _

/-- The next message begins inside. -/
theorem le_of_bunchMessage (hsize : vchData.length ≤ 0x02000000) (hn : n.toNat ≤ vchData.length)
    (h : bunchMessage C now vchData n x = .ok (some n', x')) : n'.toNat ≤ vchData.length := by
  unfold bunchMessage at h
  have hroom := room_iff hsize hn
  split at h
  · cases h
  · next hyes =>
    have hheader := hroom.mp hyes
    dsimp only at h
    rw [payloadSize_of_holds hheader] at h
    obtain ⟨rv, hv, h⟩ := bind_eq_ok.mp (show secureMsgValidate _ _ _ _ >>= _ = _ from h)
    split at h
    · cases h
      exact hn
    · next hzero =>
      obtain rfl : rv = 0 := not_ne_iff.mp hzero
      obtain ⟨-, hpayload⟩ := holds_of_validate hheader hv
      obtain ⟨⟨rv, node⟩, -, h⟩ := bind_eq_ok.mp h
      dsimp only at h
      split at h
      · cases h
      · obtain ⟨⟨_, node⟩, -, h⟩ := bind_eq_ok.mp h
        cases h
        have hend := holds_start.mp (Ptr.holds_add.mp hpayload)
        rw [UInt32.toNat_add, UInt32.toNat_add]
        change (n.toNat + (104 + _) % 2 ^ 32) % 2 ^ 32 ≤ _
        change n.toNat + (104 + _) ≤ _ at hend
        omega

theorem inBounds_bunchLoop_iff (hsize : vchData.length ≤ 0x02000000) :
    ∀ {k i : Nat} {n : UInt32} {x : Exchange}, n.toNat ≤ vchData.length →
      (InBounds (bunchLoop C clock vchData k i n x) ↔
        BunchAll C clock vchData (MessageFits C · vchData) k i n x)
  | 0, _, _, _, _ => iff_of_true (inBounds_ok _) trivial
  | k + 1, i, n, x, hn => by
    rw [bunchLoop, BunchAll, inBounds_bind, inBounds_bunchMessage_iff hsize hn]
    refine and_congr_right fun _ => ?_
    constructor
    · intro h n' x' hnext
      exact (inBounds_bunchLoop_iff hsize (le_of_bunchMessage hsize hn hnext)).mp (h _ hnext)
    · rintro h ⟨_ | n', x'⟩ hnext
      · exact inBounds_ok _
      · exact (inBounds_bunchLoop_iff hsize (le_of_bunchMessage hsize hn hnext)).mpr (h n' x' hnext)

end

/-- The time of the bucket that a bunch is for. -/
def bunchTime (vchData : Valtype) : Int64 := Int64.ofNat (leNat ((vchData.drop 4).take 8))

theorem readUInt32_firstCount {vchData : Valtype} (h : 4 ≤ vchData.length) :
    readUInt32 ⟨vchData, 0⟩ = .ok (firstCount vchData) := by
  unfold readUInt32
  rw [Ptr.read_of_holds (holds_start.mpr (by omega))]
  rfl

theorem readTime_bunchTime {vchData : Valtype} (h : 12 ≤ vchData.length) :
    readTime ⟨vchData, 4⟩ = .ok (bunchTime vchData) := by
  unfold readTime
  rw [Ptr.read_of_holds (holds_start.mpr (by omega))]
  rfl

/-- If the bunch is looked at, every message that the loop comes to fits. -/
def MsgFits (C : SmsgCrypto) (clock : Nat → Int64) (vchData : Valtype) (x : Exchange) : Prop :=
  12 ≤ vchData.length → timely (clock 0) (bunchTime vchData) = true →
    0 < firstCount vchData → firstCount vchData ≤ 500 →
      BunchAll C clock vchData (MessageFits C · vchData) (firstCount vchData).toNat 0 12 x

theorem inBounds_secureMsgReceive_iff {C : SmsgCrypto} {clock : Nat → Int64} {vchData : Valtype}
    (hsize : vchData.length ≤ 0x02000000) (x : Exchange) :
    InBounds (secureMsgReceive C clock vchData x) ↔ MsgFits C clock vchData x := by
  unfold secureMsgReceive MsgFits timely
  split
  · next hshort => exact iff_of_true (inBounds_pure _) fun h => absurd h (by omega)
  · next hlong =>
    have hlength : 12 ≤ vchData.length := by omega
    rw [readUInt32_firstCount (by omega), readTime_bunchTime hlength]
    change InBounds (if _ then _ else _) ↔ _
    simp only [hlength, forall_const]
    split
    · next hlate => exact iff_of_true (inBounds_pure _) (by simp [hlate])
    split
    · next hearly => exact iff_of_true (inBounds_pure _) (by simp [hearly])
    split
    · next hlate hearly hwrong =>
      refine iff_of_true ?_ fun _ hpos hfew => ?_
      · split <;> exact inBounds_pure _
      · rcases hwrong with hzero | hmany
        · exact absurd hpos (by simp [hzero])
        · exact absurd hmany (UInt32.not_lt.mpr hfew)
    · next hlate hearly hright =>
      rw [not_or] at hright
      have hpos : 0 < firstCount vchData := UInt32.pos_iff_ne_zero.mpr hright.1
      have hfew : firstCount vchData ≤ 500 := UInt32.not_lt.mp hright.2
      have hstart : (12 : UInt32).toNat ≤ vchData.length := hlength
      simp only [hlate, hearly, hpos, hfew, decide_false, Bool.not_false, Bool.and_self, forall_const]
      rw [inBounds_bind, inBounds_bunchLoop_iff hsize hstart, and_iff_left_iff_imp]
      intro _ x _
      split <;> exact inBounds_pure _

/-! ## 9. `SecureMsgReceiveData` -/

/-- What a payload must be for a command. -/
def Fits (C : SmsgCrypto) (clock : Nat → Int64) (strCommand : SmsgCommand) (vchData : Valtype)
    (x : Exchange) : Prop :=
  match strCommand with
  | .smsgShow => 4 ≤ vchData.length → ShowFits vchData
  | .smsgMsg => MsgFits C clock vchData x
  | _ => True

/-- **When every read is inside**: for each command, payload and state of the node, always but for
`smsgShow`, where the count must not wrap, and `smsgMsg`, where every message that the loop comes to
must fit. -/
theorem inBounds_secureMsgReceiveData_iff (C : SmsgCrypto) (clock : Nat → Int64)
    (strCommand : SmsgCommand) (vchData : Received) (x : Exchange) :
    InBounds (secureMsgReceiveData C clock strCommand vchData x) ↔
      Fits C clock strCommand vchData.val x := by
  unfold secureMsgReceiveData Fits
  cases strCommand
  case smsgInv => exact iff_of_true (inBounds_receiveInv (clock 0) vchData.val x) trivial
  case smsgShow => exact inBounds_receiveShow_iff vchData.val x
  case smsgHave => exact iff_of_true (inBounds_receiveHave (clock 0) vchData.val x) trivial
  case smsgWant => exact iff_of_true (inBounds_receiveWant vchData.val x) trivial
  case smsgMsg =>
    refine inBounds_bind.trans ?_
    rw [inBounds_secureMsgReceive_iff vchData.property, and_iff_left_iff_imp]
    intro _ a _
    exact inBounds_pure _
  case smsgMatch => exact iff_of_true (inBounds_receiveMatch (clock 0) vchData.val x) trivial
  case smsgPing => exact iff_of_true (inBounds_ok _) trivial
  case smsgPong => exact iff_of_true (inBounds_ok _) trivial
  case smsgDisabled => exact iff_of_true (inBounds_ok _) trivial
  case smsgIgnore => exact iff_of_true (inBounds_receiveIgnore vchData.val x) trivial

/-- A node that has nothing yet. -/
def freshNode : SmsgNode where
  smsgBuckets _ := none
  files _ := none
  wlFiles _ := none
  inbox _ := none
  smsgAddresses := []
  fLocked := false
  fSecMsgEnabled := true

/-- Functions to evaluate examples with: every message has the work it needs, and none can be read. -/
def sampleCrypto : SmsgCrypto where
  hmacSha256 _ _ := some (List.replicate 32 0)
  xxh32 bytes := UInt32.ofNat (leNat (bytes ++ [1]))
  addressText s := s
  decrypt _ _ _ _ := none

/-- Nothing was exchanged yet. -/
def freshExchange : Exchange := ⟨freshNode, ⟨0, true, 0, 0⟩, 0, []⟩

/-- A count of buckets that wraps, and no times. -/
def wrappedShow : Received := ⟨[0, 0, 0, 32], by decide⟩

/-- A bunch of one message that states a payload of nine bytes, and ends. -/
def endedBunch : Received :=
  ⟨[1, 0, 0, 0] ++ leBytes 8 6000 ++ [0, 0, 0, 0, 1, 0, 0] ++ leBytes 8 6000 ++
    List.replicate 85 0 ++ leBytes 4 9, by decide⟩

/-- **Four bytes, and a message without its payload, are read past their ends.** -/
theorem read_past_the_end :
    secureMsgReceiveData sampleCrypto (fun _ => 6000) .smsgShow wrappedShow freshExchange =
        .error (.oob 4) ∧
      secureMsgReceiveData sampleCrypto (fun _ => 6000) .smsgMsg endedBunch freshExchange =
        .error (.oob 116) :=
  ⟨rfl, rfl⟩

end SecMsg

end Breakout
