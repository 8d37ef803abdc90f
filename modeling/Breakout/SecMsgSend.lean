/-
# Sending secure messages

`SecureMsgSend` encrypts a message for its recipient and puts it into a queue; then it encrypts it
again, for an address of this node, and puts the copy into the outbox.  Another thread takes the
messages from the queue, one after another, and does the proof of work.

The key of a record is the time in seconds and eight bytes that are to be a sample of the payload.
They are copied from the pointer, and not from what it points to, so that they tell where the
payload was in memory.  Two messages of one second have one key when the allocator returns one
address twice, and the second replaces the first.  `kept_of_clear` says in which runs no message is
lost.
-/
import Breakout.Lib.History
import Breakout.Lib.Worklist
import Breakout.SecMsgRoundTrip

namespace Breakout

open Lib

namespace SecMsg

open Wallet (CBitcoinAddress)

/-! ## 1. `SecureMsgSend` -/

/-- `SecMsgStored`, as `SecureMsgSend` fills it in. -/
structure SecMsgSent where
  timeReceived : Int64
  sAddrTo : List Char
  sAddrOutbox : List Char
  vchMessage : Valtype

/-- The records of `SecMsgDB` that have the keys of messages. -/
inductive Box where
  | queue
  | outbox

/-- `sPrefix`: "qm" and "sm". -/
def Box.sPrefix : Box → Valtype
  | queue => [113, 109]
  | outbox => [115, 109]

/-- `chKey`.  The last eight bytes are those of the pointer `smsg.pPayload`, where the source says
that they are a sample of the payload. -/
def Box.chKey (box : Box) (timestamp : Int64) (pPayload : UInt64) : Valtype :=
  box.sPrefix ++ (timeBytes timestamp ++ leBytes 8 pPayload.toNat)

/-- The records. -/
abbrev SmesgRecords := Worklist Valtype SecMsgSent

/-- What `SecureMsgSend` says when `SecureMsgEncrypt` fails. -/
def encryptError (rv : Nat) : String :=
  match rv with
  | 2 => "Message is too long."
  | 3 => "Invalid addressFrom."
  | 4 => "Invalid addressTo."
  | 5 => "Could not get public key for addressTo."
  | 6 => "ECDH_compute_key failed."
  | 7 => "Could not get private key for addressFrom."
  | 8 => "Could not allocate memory."
  | 9 => "Could not compress message data."
  | 10 => "Could not generate MAC."
  | 11 => "Encrypt failed."
  | _ => "Unspecified Error."

/-- What is asked for: `addressFrom`, `addressTo` and `message`. -/
structure SendCall where
  addressFrom : List Char
  addressTo : List Char
  message : Valtype

/-- What one encryption and the storing of it find around them: the wallet's keys and the directory,
the time, what is drawn, what is in the memory of `smsg`, the address that the payload is put at,
the time once more, and whether the records can be opened and written. -/
structure SendEnv where
  getKey : UInt160 → Option Valtype
  addrpkdb : KeyDirectory
  now : Int64
  drawn : Ephemeral
  smsg : SmsgRecord
  pPayload : UInt64
  timeReceived : Int64
  opened : Bool
  written : Bool

variable (K : Crypto) (C : SmsgCrypto) (E : KeyLib) (L : CipherLib)

/-- The message, encrypted for an address. -/
def SendCall.encrypt (call : SendCall) (env : SendEnv) (address : List Char) :
    Except Nat SmsgRecord :=
  secureMsgEncrypt K C E L env.getKey env.addrpkdb env.now env.drawn env.smsg call.addressFrom
    address call.message

/-- The record of a message and its key, if there is room for it. -/
def SendCall.record (call : SendCall) (env : SendEnv) (box : Box) (sAddrOutbox : List Char)
    (smsg : SmsgRecord) : Option (Valtype × SecMsgSent) :=
  if E.resizes (UInt32.ofNat smsgHdrLen + smsg.nPayload) = false then none
  else some (box.chKey smsg.timestamp env.pPayload,
    ⟨env.timeReceived, call.addressTo, sAddrOutbox, smsg.header ++ smsg.pPayload⟩)

/-- `WriteSmesg`, if the records can be opened: what it returns is not looked at. -/
def writeSmesg (env : SendEnv) (e : Valtype × SecMsgSent) (w : SmesgRecords) : SmesgRecords :=
  if env.opened && env.written then w.put e.1 e.2 else w

/-- `SecureMsgSend` up to the end of its first lock: the record, and the records; or what is
returned, and `sError`. -/
def SendCall.queue (call : SendCall) (fLocked : Bool) (env : SendEnv) (w : SmesgRecords) :
    Except (Nat × String) ((Valtype × SecMsgSent) × SmesgRecords) :=
  if fLocked then
    .error (1, "Wallet is locked, wallet must be unlocked to send and recieve messages.")
  else if call.message.length > smsgMaxMsgBytes then
    .error (1, "Message is too long, " ++ toString call.message.length ++ " > " ++
      toString smsgMaxMsgBytes)
  else
    match call.encrypt K C E L env call.addressTo with
    | .error rv => .error (rv, encryptError rv)
    | .ok smsg =>
      match call.record E env .queue [] smsg with
      | none => .error (8, "Could not allocate memory.")
      | some smsgSQ => .ok (smsgSQ, writeSmesg env smsgSQ w)

/-- The loop over `mapAddressBook`, each address with whether it can be spent from: the first owned
address whose text is read, or the last one whose text is not. -/
def addressOutboxFrom (addressOutbox : List Char) : List (Wallet.CTxDestination × Bool) → List Char
  | [] => addressOutbox
  | (address, fSpendable) :: mapAddressBook =>
    if fSpendable = false then addressOutboxFrom addressOutbox mapAddressBook
    else
      let addressOutbox := (CBitcoinAddress.ofDestination E.fTestNet address E.nColor).toText K
      if (CBitcoinAddress.setString K ⟨0, [], E.nColor⟩ addressOutbox).1 = false then
        addressOutboxFrom addressOutbox mapAddressBook
      else addressOutbox

def addressOutbox (mapAddressBook : List (Wallet.CTxDestination × Bool)) : List Char :=
  addressOutboxFrom K E "None".toList mapAddressBook

/-- The rest of `SecureMsgSend`: the copy, if one is made, and the records; or what is returned, and
`sError`. -/
def SendCall.copy (call : SendCall) (mapAddressBook : List (Wallet.CTxDestination × Bool))
    (env : SendEnv) (w : SmesgRecords) :
    Except (Nat × String) (Option (Valtype × SecMsgSent) × SmesgRecords) :=
  let address := addressOutbox K E mapAddressBook
  -- "Warning: SecureMsgSend() could not find an address to encrypt outbox message with."
  if address = "None".toList then .ok (none, w)
  else
    match call.encrypt K C E L env address with
    | .error _ => .ok (none, w)
    | .ok smsgForOutbox =>
      match call.record E env .outbox address smsgForOutbox with
      | none => .error (8, "Could not allocate memory.")
      | some smsgOutbox => .ok (some smsgOutbox, writeSmesg env smsgOutbox w)

/-! ## 2. Senders and the thread -/

/-- A message that `SecureMsgSend` returned 0 for: its record in the queue, and its copy. -/
structure SentMessage where
  queued : Valtype × SecMsgSent
  copy : Option (Valtype × SecMsgSent)

/-- The records, with `ThreadSecureMsgPow` as their worker; the calls that have put their message
into the queue and go on, and the messages of those that returned 0, the last one first. -/
structure SendState where
  records : SmesgRecords
  ongoing : List (SendCall × (Valtype × SecMsgSent))
  returned : List SentMessage

/-- Nobody has sent anything yet. -/
def SendState.start (store : KeyedList Valtype SecMsgSent) : SendState :=
  ⟨⟨store, .idle, []⟩, [], []⟩

/-- What is done between two locks: the first half of a call, the second half of the `i`-th call
that goes on, or a step of the thread, with whether the records can be opened and erased, and what
`fSecMsgEnabled` is while the hash is looked for. -/
inductive SendOp where
  | queue (call : SendCall) (fLocked : Bool) (env : SendEnv)
  | copy (i : Nat) (mapAddressBook : List (Wallet.CTxDestination × Bool)) (env : SendEnv)
  | pow (opened erased : Bool) (fSecMsgEnabled : UInt32 → Bool) (fEnabledAfter : Bool)

/-- A key of the queue, as `NextSmesg` asks for it. -/
def isQueued (chKey : Valtype) : Bool := chKey.length == 18 && chKey.take 2 == Box.queue.sPrefix

/-- What `SecureMsgSetHash` returns for a record. -/
def setHashOf (fSecMsgEnabled : UInt32 → Bool) (fEnabledAfter : Bool) (stored : SecMsgSent) : Nat :=
  (secureMsgSetHash C fSecMsgEnabled fEnabledAfter (.ofHeader (stored.vchMessage.take smsgHdrLen)
    (stored.vchMessage.drop smsgHdrLen))).1

/-- A step of `ThreadSecureMsgPow`: "fifo (smallest key first)"; "leave message in db, if terminated
due to shutdown"; "message is removed here, no matter what".  What becomes of the message touches
neither the queue nor the outbox. -/
def powStep (opened erased : Bool) (fSecMsgEnabled : UInt32 → Bool) (fEnabledAfter : Bool)
    (w : SmesgRecords) : SmesgRecords :=
  match w.worker with
  | .idle => if opened then w.look Box.queue.sPrefix else w
  | .looking rest => w.next isQueued rest
  | .working e rest =>
    if setHashOf C fSecMsgEnabled fEnabledAfter e.2 = 2 then w.leave else w.take e rest erased

/-- A step. -/
def SendState.step (s : SendState) : SendOp → SendState
  | .queue call fLocked env =>
    match call.queue K C E L fLocked env s.records with
    | .error _ => s
    | .ok (e, records) => { s with records := records, ongoing := s.ongoing ++ [(call, e)] }
  | .copy i mapAddressBook env =>
    match s.ongoing[i]? with
    | none => s
    | some (call, queued) =>
      match call.copy K C E L mapAddressBook env s.records with
      | .error _ => { s with ongoing := s.ongoing.eraseIdx i }
      | .ok (copy, records) => ⟨records, s.ongoing.eraseIdx i, ⟨queued, copy⟩ :: s.returned⟩
  | .pow opened erased fSecMsgEnabled fEnabledAfter =>
    { s with records := powStep C opened erased fSecMsgEnabled fEnabledAfter s.records }

/-! ## 3. What is to hold, and when -/

/-- **Nothing is lost**: every message that was accepted is in the queue or was taken from it, and
has a record of its own in the outbox. -/
structure Kept (s : SendState) : Prop where
  queued : ∀ m ∈ s.returned, s.records.Safe m.queued
  copied : ∀ m ∈ s.returned, ∃ copy, m.copy = some copy ∧
    s.records.store.find copy.1 = some copy.2
  own : s.returned.Pairwise fun m m' => ∀ copy copy', m.copy = some copy → m'.copy = some copy' →
    copy.1 ≠ copy'.1

/-- The records can be written, and there is none yet with the time and the address of the payload.
-/
def SendEnv.Free (env : SendEnv) (box : Box) (w : SmesgRecords) : Prop :=
  env.opened = true ∧ env.written = true ∧ w.store.find (box.chKey env.now env.pPayload) = none

/-- **When a step loses nothing**: its record is free, unless the call fails, and a copy can be
made. -/
def Clear (s : SendState) : SendOp → Prop
  | .queue call fLocked env =>
    (∃ r, call.queue K C E L fLocked env s.records = .ok r) → env.Free .queue s.records
  | .copy i mapAddressBook env =>
    ∀ call queued, s.ongoing[i]? = some (call, queued) →
      (∃ r, call.copy K C E L mapAddressBook env s.records = .ok r) →
        env.Free .outbox s.records ∧ addressOutbox K E mapAddressBook ≠ "None".toList ∧
          ∃ smsg, call.encrypt K C E L env (addressOutbox K E mapAddressBook) = .ok smsg
  | .pow .. => True

/-- What is kept beside that: the thread is sound, the messages of the calls that go on are kept,
and no copy is in the queue. -/
structure SendState.Sound (s : SendState) : Prop where
  worker : s.records.Sound isQueued
  ongoing : ∀ o ∈ s.ongoing, s.records.Safe o.2
  copies : ∀ m ∈ s.returned, ∀ copy, m.copy = some copy → isQueued copy.1 = false

variable {K C E L} {s : SendState} {call : SendCall} {fLocked : Bool} {env : SendEnv}
  {mapAddressBook : List (Wallet.CTxDestination × Bool)} {w w' : SmesgRecords}
  {e : Valtype × SecMsgSent} {copy : Option (Valtype × SecMsgSent)}

variable {box : Box} {opened erased fEnabledAfter : Bool} {fSecMsgEnabled : UInt32 → Bool}

/-- The key of a record has the time at which it was asked for. -/
theorem record_key {address : List Char} {smsg : SmsgRecord} {sAddrOutbox : List Char}
    (hencrypt : call.encrypt K C E L env address = .ok smsg)
    (hrecord : call.record E env box sAddrOutbox smsg = some e) :
    e.1 = box.chKey env.now env.pPayload := by
  unfold SendCall.record at hrecord
  split_ifs at hrecord
  cases hrecord
  rw [(secureMsgEncrypt_spec hencrypt).1]

/-- What the first half of a call leaves. -/
theorem queue_spec (h : call.queue K C E L fLocked env w = .ok (e, w')) :
    e.1 = Box.queue.chKey env.now env.pPayload ∧ w' = writeSmesg env e w := by
  unfold SendCall.queue at h
  split_ifs at h
  split at h
  · cases h
  · next smsg hencrypt =>
    split at h
    · cases h
    · next smsgSQ hrecord =>
      cases h
      exact ⟨record_key hencrypt hrecord, rfl⟩

/-- What the second half of a call leaves, if a copy can be made. -/
theorem copy_spec (h : call.copy K C E L mapAddressBook env w = .ok (copy, w'))
    (haddress : addressOutbox K E mapAddressBook ≠ "None".toList)
    (hencrypts : ∃ smsg, call.encrypt K C E L env (addressOutbox K E mapAddressBook) = .ok smsg) :
    ∃ e, copy = some e ∧ e.1 = Box.outbox.chKey env.now env.pPayload ∧ w' = writeSmesg env e w := by
  obtain ⟨smsg, hencrypt⟩ := hencrypts
  unfold SendCall.copy at h
  dsimp only at h
  rw [if_neg haddress, hencrypt] at h
  dsimp only at h
  split at h
  · cases h
  · next smsgOutbox hrecord =>
    cases h
    exact ⟨smsgOutbox, rfl, record_key hencrypt hrecord, rfl⟩

theorem writeSmesg_of_free (h : env.Free box w) :
    writeSmesg env e w = w.put e.1 e.2 := by
  obtain ⟨hopened, hwritten, -⟩ := h
  exact if_pos (by rw [hopened, hwritten]; rfl)

/-- A key of the outbox is none of the queue. -/
theorem isQueued_outbox (timestamp : Int64) (pPayload : UInt64) :
    isQueued (Box.outbox.chKey timestamp pPayload) = false := by
  have hprefix : (Box.outbox.chKey timestamp pPayload).take 2 = Box.outbox.sPrefix :=
    List.take_left' rfl
  rw [isQueued, hprefix, Bool.and_eq_false_iff]
  exact Or.inr (by decide)

/-! ## 4. The steps -/

/-- A step of the thread keeps what is kept in the records. -/
theorem powStep_spec (h : w.Sound isQueued) :
    (powStep C opened erased fSecMsgEnabled fEnabledAfter w).Sound isQueued ∧
      (∀ e : Valtype × SecMsgSent, w.Safe e →
        (powStep C opened erased fSecMsgEnabled fEnabledAfter w).Safe e) ∧
      ∀ e : Valtype × SecMsgSent, isQueued e.1 = false → w.store.find e.1 = some e.2 →
        (powStep C opened erased fSecMsgEnabled fEnabledAfter w).store.find e.1 = some e.2 := by
  unfold powStep
  split
  · split_ifs
    · exact ⟨Worklist.sound_look, fun _ h => h, fun _ _ h => h⟩
    · exact ⟨h, fun _ h => h, fun _ _ h => h⟩
  · next rest hworker =>
    refine ⟨h.next hworker, fun _ h => ?_, fun _ _ h => ?_⟩
    · cases rest <;> exact h
    · cases rest <;> exact h
  · next e rest hworker =>
    split_ifs
    · exact ⟨Worklist.sound_idle rfl, fun _ h => h, fun _ _ h => h⟩
    · exact ⟨h.take hworker, fun _ he => he.take h hworker,
        fun _ hunwanted he => Worklist.find_take_of_unwanted h hworker hunwanted he⟩

theorem step_queue (hsound : s.Sound) (h : Kept s)
    (hclear : Clear K C E L s (.queue call fLocked env)) :
    (s.step K C E L (.queue call fLocked env)).Sound ∧
      Kept (s.step K C E L (.queue call fLocked env)) := by
  unfold SendState.step
  dsimp only
  split
  · exact ⟨hsound, h⟩
  · next e records hqueue =>
    have hfree := hclear ⟨_, hqueue⟩
    obtain ⟨hkey, rfl⟩ := queue_spec hqueue
    rw [writeSmesg_of_free hfree]
    have hnone : s.records.store.find e.1 = none := hkey ▸ hfree.2.2
    refine ⟨⟨hsound.worker.put hnone, fun o ho => ?_, hsound.copies⟩,
      ⟨fun m hm => (h.queued m hm).put hnone, fun m hm => ?_, h.own⟩⟩
    · rcases List.mem_append.mp ho with ho | ho
      · exact (hsound.ongoing o ho).put hnone
      · rw [List.mem_singleton.mp ho]
        exact Worklist.safe_put
    · obtain ⟨copy, hcopy, hfind⟩ := h.copied m hm
      exact ⟨copy, hcopy, Worklist.find_put_of_free hnone hfind⟩

theorem step_copy {i : Nat} (hsound : s.Sound) (h : Kept s)
    (hclear : Clear K C E L s (.copy i mapAddressBook env)) :
    (s.step K C E L (.copy i mapAddressBook env)).Sound ∧
      Kept (s.step K C E L (.copy i mapAddressBook env)) := by
  unfold SendState.step
  dsimp only
  split
  · exact ⟨hsound, h⟩
  · next call queued hongoing =>
    have hrest : ∀ o ∈ s.ongoing.eraseIdx i, o ∈ s.ongoing := fun o => List.mem_of_mem_eraseIdx
    split
    · exact ⟨⟨hsound.worker, fun o ho => hsound.ongoing o (hrest o ho), hsound.copies⟩,
        ⟨h.queued, h.copied, h.own⟩⟩
    · next copy records hcopy =>
      obtain ⟨hfree, haddress, hencrypts⟩ := hclear call queued hongoing ⟨_, hcopy⟩
      obtain ⟨e, rfl, hkey, rfl⟩ := copy_spec hcopy haddress hencrypts
      rw [writeSmesg_of_free hfree]
      have hnone : s.records.store.find e.1 = none := hkey ▸ hfree.2.2
      have hqueued : s.records.Safe queued := hsound.ongoing _ (List.mem_of_getElem? hongoing)
      refine ⟨⟨hsound.worker.put hnone, fun o ho => (hsound.ongoing o (hrest o ho)).put hnone, ?_⟩,
        ⟨?_, ?_, ?_⟩⟩
      · intro m hm copy' hcopy'
        rcases List.mem_cons.mp hm with rfl | hm
        · cases hcopy'
          rw [hkey]
          exact isQueued_outbox ..
        · exact hsound.copies m hm copy' hcopy'
      · intro m hm
        rcases List.mem_cons.mp hm with rfl | hm
        · exact hqueued.put hnone
        · exact (h.queued m hm).put hnone
      · intro m hm
        rcases List.mem_cons.mp hm with rfl | hm
        · exact ⟨e, rfl, KeyedList.find_set_self⟩
        · obtain ⟨copy', hcopy', hfind⟩ := h.copied m hm
          exact ⟨copy', hcopy', Worklist.find_put_of_free hnone hfind⟩
      · refine List.pairwise_cons.mpr ⟨fun m hm => ?_, h.own⟩
        rintro _ copy' ⟨⟩ hcopy' heq
        obtain ⟨copy'', hcopy'', hfind⟩ := h.copied m hm
        rw [hcopy'] at hcopy''
        cases hcopy''
        rw [← heq, hnone] at hfind
        cases hfind

theorem step_pow (hsound : s.Sound) (h : Kept s) :
    (s.step K C E L (.pow opened erased fSecMsgEnabled fEnabledAfter)).Sound ∧
      Kept (s.step K C E L (.pow opened erased fSecMsgEnabled fEnabledAfter)) := by
  obtain ⟨hworker, hsafe, hstays⟩ := powStep_spec (C := C) (w := s.records) hsound.worker
  refine ⟨⟨hworker, fun o ho => hsafe _ (hsound.ongoing o ho), hsound.copies⟩,
    ⟨fun m hm => hsafe _ (h.queued m hm), fun m hm => ?_, h.own⟩⟩
  obtain ⟨copy, hcopy, hfind⟩ := h.copied m hm
  exact ⟨copy, hcopy, hstays copy (hsound.copies m hm copy hcopy) hfind⟩

/-! ## 5. Runs -/

/-- **When no message is lost**, whatever comes between: in a run in which each record is written,
none is there with its time and the address of its payload, and each message can be copied for the
outbox. -/
theorem kept_of_clear (K : Crypto) (C : SmsgCrypto) (E : KeyLib) (L : CipherLib)
    (store : KeyedList Valtype SecMsgSent) (ops : List SendOp)
    (h : EveryStep (SendState.step K C E L) (.start store) (Clear K C E L) ops) :
    Everywhere (SendState.step K C E L) (.start store) Kept ops := by
  have hstart : (SendState.start store).Sound ∧ Kept (.start store) := by
    refine ⟨⟨Worklist.sound_idle rfl, nofun, nofun⟩, ⟨nofun, nofun, List.Pairwise.nil⟩⟩
  have hkeep : ∀ s o, s.Sound ∧ Kept s → Clear K C E L s o →
      (s.step K C E L o).Sound ∧ Kept (s.step K C E L o) := by
    rintro s o ⟨hsound, hkept⟩ hclear
    cases o with
    | queue => exact step_queue hsound hkept hclear
    | copy => exact step_copy hsound hkept hclear
    | pow => exact step_pow hsound hkept
  intro ops' hpre
  exact (everywhere_of_everyStep (P := fun s => s.Sound ∧ Kept s) hstart hkeep h ops' hpre).2

/-! ## 6. Two messages of one second -/

/-- An anonymous message is asked for. -/
def sampleCall (message : Valtype) : SendCall := ⟨"anon".toList, sampleAddressTo, message⟩

/-- The second 6000, and an address that the allocator returns. -/
def sampleEnv (pPayload : UInt64) : SendEnv :=
  ⟨senderWallet, sampleDirectory, 6000, sampleDrawn, shortMessage, pPayload, 6000, true, true⟩

/-- One address, which is owned. -/
def sampleBook : List (Wallet.CTxDestination × Bool) := [(.keyID 0 1, true)]

/-- The record of a message in the example. -/
def sampleRecord (box : Box) (sAddrOutbox : List Char) (pPayload : UInt64) (smsg : SmsgRecord) :
    Valtype × SecMsgSent :=
  (box.chKey 6000 pPayload,
    ⟨6000, sampleAddressTo, sAddrOutbox, smsg.header ++ smsg.pPayload⟩)

/-- A message is sent, and its payload and that of its copy are put at these addresses. -/
def sampleSend (message : Valtype) (pPayload pPayload' : UInt64) : List SendOp :=
  [.queue (sampleCall message) false (sampleEnv pPayload), .copy 0 sampleBook (sampleEnv pPayload')]

/-- The step of the example. -/
abbrev sampleStep : SendState → SendOp → SendState :=
  SendState.step (Crypto.sample []) sampleCrypto literalKeys literalCipher

/-- What is encrypted starts with the payload. -/
theorem encrypt_sampleCall {message : Valtype} (hshort : message.length ≤ 128) :
    ∃ smsg, (∀ pPayload, (sampleCall message).encrypt (Crypto.sample []) sampleCrypto literalKeys
        literalCipher (sampleEnv pPayload) sampleAddressTo = .ok smsg) ∧
      ∃ final, smsg.pPayload = anonymousPayload (UInt32.ofNat message.length) message ++ final := by
  have hdest : destinationKey (Crypto.sample []) literalKeys literalCipher senderWallet
      sampleDirectory sampleAddressTo = .ok (2 :: List.replicate 32 0) :=
    destinationKey_addressText (by decide) rfl
  have hsender : senderOf (Crypto.sample []) literalKeys "anon".toList = .ok none := if_pos rfl
  have hdata : messageData literalKeys literalCipher message = .ok message := if_neg (by omega)
  have hpayload : messagePayload (Crypto.sample []) literalKeys literalCipher senderWallet none
      message message = .ok (anonymousPayload (UInt32.ofNat message.length) message) := rfl
  obtain ⟨smsg, hrun⟩ : ∃ smsg, (sampleCall message).encrypt (Crypto.sample []) sampleCrypto
      literalKeys literalCipher (sampleEnv 0) sampleAddressTo = .ok smsg := by
    unfold sampleCall SendCall.encrypt secureMsgEncrypt
    dsimp only [sampleEnv]
    rw [if_neg (by change ¬ message.length > 4096; omega), hsender, hdest]
    change ∃ smsg, (messageData literalKeys literalCipher message >>= _) = _
    rw [hdata]
    exact ⟨_, rfl⟩
  obtain ⟨-, sender, _, _, pMsgData, vchPayload, henc⟩ := secureMsgEncrypt_spec hrun
  have hsentBy := henc.sentBy
  rw [show (sampleCall message).addressFrom = "anon".toList from rfl, hsender] at hsentBy
  cases hsentBy
  have hmessage := henc.data
  rw [show (sampleCall message).message = message from rfl, hdata] at hmessage
  cases hmessage
  have hsent := henc.payload
  rw [show (sampleEnv 0).getKey = senderWallet from rfl,
    show (sampleCall message).message = message from rfl, hpayload] at hsent
  cases hsent
  exact ⟨smsg, fun _ => hrun, _, (Option.some.inj henc.encrypted).symm⟩

theorem addressOutbox_sampleBook :
    addressOutbox (Crypto.sample []) literalKeys sampleBook = sampleAddressTo := by
  decide +kernel

theorem sampleAddressTo_ne_none : sampleAddressTo ≠ "None".toList := by decide +kernel

section

variable {message : Valtype} {smsg : SmsgRecord} {records : SmesgRecords}
  {returned : List SentMessage} {queued : Valtype × SecMsgSent} {pPayload pPayload' : UInt64}

/-- The message is encrypted for the recipient, wherever its payload is put. -/
def Encrypts (message : Valtype) (smsg : SmsgRecord) : Prop :=
  ∀ pPayload, (sampleCall message).encrypt (Crypto.sample []) sampleCrypto literalKeys literalCipher
    (sampleEnv pPayload) sampleAddressTo = .ok smsg

theorem record_sampleCall (h : Encrypts message smsg) (box : Box) (sAddrOutbox : List Char) :
    (sampleCall message).record literalKeys (sampleEnv pPayload) box sAddrOutbox smsg =
      some (sampleRecord box sAddrOutbox pPayload smsg) := by
  have htimestamp : smsg.timestamp = 6000 := (secureMsgEncrypt_spec (h 0)).1
  unfold SendCall.record sampleRecord
  rw [htimestamp]
  rfl

theorem sampleStep_queue (h : Encrypts message smsg) (hshort : message.length ≤ 128) :
    sampleStep ⟨records, [], returned⟩ (.queue (sampleCall message) false (sampleEnv pPayload)) =
      let queued := sampleRecord .queue [] pPayload smsg
      ⟨records.put queued.1 queued.2, [(sampleCall message, queued)], returned⟩ := by
  have hqueue : (sampleCall message).queue (Crypto.sample []) sampleCrypto literalKeys literalCipher
      false (sampleEnv pPayload) records =
        .ok (sampleRecord .queue [] pPayload smsg, records.put
          (sampleRecord .queue [] pPayload smsg).1 (sampleRecord .queue [] pPayload smsg).2) := by
    unfold SendCall.queue
    rw [if_neg Bool.false_ne_true, if_neg (by change ¬ message.length > 4096; omega)]
    change (match (sampleCall message).encrypt (Crypto.sample []) sampleCrypto literalKeys
      literalCipher (sampleEnv pPayload) sampleAddressTo with | .error _ => _ | .ok _ => _) = _
    rw [h]
    dsimp only
    rw [record_sampleCall h]
    rfl
  unfold sampleStep SendState.step
  dsimp only
  rw [hqueue]
  rfl

theorem sampleStep_copy (h : Encrypts message smsg) :
    sampleStep ⟨records, [(sampleCall message, queued)], returned⟩
        (.copy 0 sampleBook (sampleEnv pPayload)) =
      let copy := sampleRecord .outbox sampleAddressTo pPayload smsg
      ⟨records.put copy.1 copy.2, [], ⟨queued, some copy⟩ :: returned⟩ := by
  have hcopy : (sampleCall message).copy (Crypto.sample []) sampleCrypto literalKeys
      literalCipher sampleBook (sampleEnv pPayload) records =
        .ok (some (sampleRecord .outbox sampleAddressTo pPayload smsg), records.put
          (sampleRecord .outbox sampleAddressTo pPayload smsg).1
          (sampleRecord .outbox sampleAddressTo pPayload smsg).2) := by
    unfold SendCall.copy
    rw [addressOutbox_sampleBook]
    dsimp only
    rw [if_neg sampleAddressTo_ne_none, h]
    dsimp only
    rw [record_sampleCall h]
    rfl
  unfold sampleStep SendState.step
  dsimp only [List.getElem?_cons_zero]
  rw [hcopy]
  rfl

/-- What a message of the example leaves. -/
theorem foldl_sampleSend (h : Encrypts message smsg) (hshort : message.length ≤ 128) :
    (sampleSend message pPayload pPayload').foldl sampleStep ⟨records, [], returned⟩ =
      let queued := sampleRecord .queue [] pPayload smsg
      let copy := sampleRecord .outbox sampleAddressTo pPayload' smsg
      ⟨(records.put queued.1 queued.2).put copy.1 copy.2, [], ⟨queued, some copy⟩ :: returned⟩ := by
  rw [sampleSend, List.foldl_cons, List.foldl_cons, List.foldl_nil, sampleStep_queue h hshort]
  exact sampleStep_copy h

/-- A key of the queue is none of the outbox. -/
theorem chKey_ne (timestamp timestamp' : Int64) :
    Box.queue.chKey timestamp pPayload ≠ Box.outbox.chKey timestamp' pPayload' := by
  intro heq
  have hhead := congrArg List.head? heq
  exact absurd hhead (by simp [Box.chKey, Box.sPrefix])

/-- The steps of a message of the example, if its keys are free. -/
theorem everyStep_sampleSend {init : SendState} {ops : List SendOp} (h : Encrypts message smsg)
    (hshort : message.length ≤ 128)
    (hops : EveryStep sampleStep init
      (Clear (Crypto.sample []) sampleCrypto literalKeys literalCipher) ops)
    (hstate : ops.foldl sampleStep init = ⟨records, [], returned⟩)
    (hqueue : records.store.find (Box.queue.chKey 6000 pPayload) = none)
    (houtbox : records.store.find (Box.outbox.chKey 6000 pPayload') = none) :
    EveryStep sampleStep init (Clear (Crypto.sample []) sampleCrypto literalKeys literalCipher)
      (ops ++ sampleSend message pPayload pPayload') := by
  have hsplit : ops ++ sampleSend message pPayload pPayload' =
      ops ++ [.queue (sampleCall message) false (sampleEnv pPayload)] ++
        [.copy 0 sampleBook (sampleEnv pPayload')] := by
    rw [List.append_assoc]
    rfl
  rw [hsplit]
  refine everyStep_append.mpr ⟨everyStep_append.mpr ⟨hops, ?_⟩, ?_⟩
  · rw [hstate]
    exact fun _ => ⟨rfl, rfl, hqueue⟩
  · rw [List.foldl_append, hstate, List.foldl_cons, List.foldl_nil, sampleStep_queue h hshort]
    rintro call queued hongoing -
    cases hongoing
    refine ⟨⟨rfl, rfl, ?_⟩, ?_, smsg, ?_⟩
    · exact (KeyedList.find_set_of_ne (chKey_ne 6000 6000).symm).trans houtbox
    · rw [addressOutbox_sampleBook]
      exact sampleAddressTo_ne_none
    · rw [addressOutbox_sampleBook]
      exact h _

end

/-- Two messages of one second whose payloads are put at different addresses are both kept. -/
theorem different_addresses_kept :
    Everywhere sampleStep (.start ⟨[], List.nodup_nil⟩) Kept
      (sampleSend [104] 4096 8192 ++ sampleSend [104, 105] 12288 16384) := by
  obtain ⟨smsg, hsmsg, -⟩ := encrypt_sampleCall (show [104].length ≤ 128 by decide)
  obtain ⟨smsg', hsmsg', -⟩ := encrypt_sampleCall (show [104, 105].length ≤ 128 by decide)
  refine kept_of_clear (Crypto.sample []) sampleCrypto literalKeys literalCipher
    ⟨[], List.nodup_nil⟩ (sampleSend [104] 4096 8192 ++ sampleSend [104, 105] 12288 16384) ?_
  have hnil : EveryStep sampleStep (.start ⟨[], List.nodup_nil⟩)
      (Clear (Crypto.sample []) sampleCrypto literalKeys literalCipher) [] :=
    fun ops' o hpre => by simp at hpre
  have hfirst : EveryStep sampleStep (.start ⟨[], List.nodup_nil⟩)
      (Clear (Crypto.sample []) sampleCrypto literalKeys literalCipher)
      (sampleSend [104] 4096 8192) :=
    everyStep_sampleSend hsmsg (by decide) hnil
      (show [].foldl sampleStep (.start ⟨[], List.nodup_nil⟩) =
        ⟨⟨⟨[], List.nodup_nil⟩, .idle, []⟩, [], []⟩ from rfl) rfl rfl
  exact everyStep_sampleSend hsmsg' (by decide) hfirst (foldl_sampleSend hsmsg (by decide)) rfl rfl

/-- **Two messages of one second whose payloads are put at the same address**: the payloads start
differently, and the first message is lost. -/
theorem same_address_lost : ∃ m m',
    ((sampleSend [104] 4096 8192 ++ sampleSend [104, 105] 4096 8192).foldl sampleStep
      (.start ⟨[], List.nodup_nil⟩)).returned = [m', m] ∧
    (m.queued.2.vchMessage.drop smsgHdrLen).take 8 ≠
      (m'.queued.2.vchMessage.drop smsgHdrLen).take 8 ∧
    ¬ Kept ((sampleSend [104] 4096 8192 ++ sampleSend [104, 105] 4096 8192).foldl sampleStep
      (.start ⟨[], List.nodup_nil⟩)) := by
  obtain ⟨smsg, hsmsg, final, hpayload⟩ := encrypt_sampleCall (show [104].length ≤ 128 by decide)
  obtain ⟨smsg', hsmsg', final', hpayload'⟩ :=
    encrypt_sampleCall (show [104, 105].length ≤ 128 by decide)
  have hstart : ∀ box sAddrOutbox p (smsg : SmsgRecord),
      (sampleRecord box sAddrOutbox p smsg).2.vchMessage.drop smsgHdrLen = smsg.pPayload :=
    fun _ _ _ smsg => List.drop_left' (length_header smsg)
  have hdiffer : smsg.pPayload.take 8 ≠ smsg'.pPayload.take 8 := by
    rw [hpayload, hpayload', List.take_append_of_le_length (by decide),
      List.take_append_of_le_length (by decide)]
    decide
  rw [List.foldl_append, SendState.start, foldl_sampleSend hsmsg (by decide),
    foldl_sampleSend hsmsg' (by decide)]
  refine ⟨_, _, rfl, ?_, fun hkept => ?_⟩
  · rw [hstart, hstart]
    exact hdiffer
  · rcases hkept.queued _ (List.mem_cons_of_mem _ List.mem_cons_self) with hfind | htaken
    · have hlast : ∀ w : SmesgRecords,
          ((w.put (sampleRecord .queue [] 4096 smsg').1 (sampleRecord .queue [] 4096 smsg').2).put
            (sampleRecord .outbox sampleAddressTo 8192 smsg').1
            (sampleRecord .outbox sampleAddressTo 8192 smsg').2).store.find
              (sampleRecord .queue [] 4096 smsg).1 =
            some (sampleRecord .queue [] 4096 smsg').2 := fun w =>
        (KeyedList.find_set_of_ne (chKey_ne 6000 6000)).trans KeyedList.find_set_self
      have heq := Option.some.inj ((hlast _).symm.trans hfind)
      refine hdiffer ?_
      rw [← hstart .queue [] 4096 smsg, ← hstart .queue [] 4096 smsg']
      exact congrArg (fun r : SecMsgSent => (r.vchMessage.drop smsgHdrLen).take 8) heq.symm
    · cases htaken

end SecMsg

end Breakout
