/-
# The messages of a bunch

`smsgWant` answers with a bunch: a count, the time of a bucket, and so many messages one after
another.  `SecureMsgReceive` should store those that are valid, in time and new, whatever the others
are.

Its loop goes on to the next message only when it has stored one.  After an invalid message
`continue` leaves `n` where it is, and the same message is looked at for the rest of the rounds;
after one that is not stored the loop ends.  `secureMsgReceive_stores_iff` says for which bunches
nothing is lost.
-/
import Breakout.SecMsgStore

namespace Breakout

open Lib

namespace SecMsg

/-! ## 1. Bunches -/

/-- The layout of a bunch, as `smsgWant` sends it. -/
def bunchBytes (time : Int64) (messages : List SecureMessage) : Valtype :=
  leBytes 4 messages.length ++ timeBytes time ++ records SecureMessage.bytes messages

/-- A bunch of complete messages, no longer than what is received. -/
structure Bunch where
  time : Int64
  messages : List SecureMessage
  small : (bunchBytes time messages).length ≤ 0x02000000

def Bunch.vchBunch (bunch : Bunch) : Valtype := bunchBytes bunch.time bunch.messages

namespace SecureMessage

/-- `SecureMsgValidate`, of a message that is on its own. -/
def validate (C : SmsgCrypto) (m : SecureMessage) : Run Nat :=
  secureMsgValidate C ⟨m.header, 0⟩ ⟨m.payload, 0⟩ (UInt32.ofNat m.payload.length)

/-- It passes `SecureMsgValidate`. -/
def isValid (C : SmsgCrypto) (m : SecureMessage) : Bool :=
  match m.validate C with
  | .ok 0 => true
  | _ => false

/-- **A message that is to be stored**: it is valid, in time, and not held. -/
def Storable (C : SmsgCrypto) (now : Int64) (m : SecureMessage) (node : SmsgNode) : Prop :=
  m.isValid C = true ∧ m.Stores now node

instance (C : SmsgCrypto) (now : Int64) (m : SecureMessage) (node : SmsgNode) :
    Decidable (m.Storable C now node) := inferInstanceAs (Decidable (_ ∧ _))

/-- The wallet is not locked, and one of the addresses decrypts the message. -/
def OwnedBy (C : SmsgCrypto) (m : SecureMessage) (node : SmsgNode) : Prop :=
  node.fLocked = false ∧ ownAddress C m.header m.payload node.smsgAddresses ≠ none

end SecureMessage

/-- Every message for itself: the node when those that are to be stored have been stored.  The clock
is read once for each. -/
def storeAll (C : SmsgCrypto) (clock : Nat → Int64) : Nat → List SecureMessage → SmsgNode → SmsgNode
  | _, [], node => node
  | i, m :: messages, node =>
    storeAll C clock (i + 1) messages
      (if m.Storable C (clock i) node then storedNode C (clock i) m false node else node)

/-- None of them is to be stored. -/
def NoneStorable (C : SmsgCrypto) (clock : Nat → Int64) : Nat → List SecureMessage → SmsgNode → Prop
  | _, [], _ => True
  | i, m :: messages, node =>
    ¬ m.Storable C (clock i) node ∧ NoneStorable C clock (i + 1) messages node

/-- All of them are. -/
def AllStorable (C : SmsgCrypto) (clock : Nat → Int64) : Nat → List SecureMessage → SmsgNode → Prop
  | _, [], _ => True
  | i, m :: messages, node =>
    m.Storable C (clock i) node ∧
      AllStorable C clock (i + 1) messages (storedNode C (clock i) m false node)

/-- **Those that are to be stored come first.** -/
def StorableFirst (C : SmsgCrypto) (clock : Nat → Int64) :
    Nat → List SecureMessage → SmsgNode → Prop
  | _, [], _ => True
  | i, m :: messages, node =>
    if m.Storable C (clock i) node then
      StorableFirst C clock (i + 1) messages (storedNode C (clock i) m false node)
    else NoneStorable C clock (i + 1) messages node

/-- The last message is stored, is for this node, and has less than eight bytes. -/
def EndsShort (C : SmsgCrypto) (clock : Nat → Int64) (i : Nat) (messages : List SecureMessage)
    (node : SmsgNode) : Prop :=
  AllStorable C clock i messages node ∧
    ∃ m, messages.getLast? = some m ∧ m.payload.length < 8 ∧ m.OwnedBy C node

/-- Files and tokens are the same.  Locks and hashes are left out. -/
def SameStore (node node' : SmsgNode) : Prop :=
  ∀ b, node'.files b = node.files b ∧ (node'.bucket b).setTokens = (node.bucket b).setTokens

/-- `SecureMsgReceive` stores exactly the messages that are to be stored. -/
def StoresExactly (C : SmsgCrypto) (clock : Nat → Int64) (bunch : Bunch) (x : Exchange) : Prop :=
  ∃ rv x', secureMsgReceive C clock bunch.vchBunch x = .ok (rv, x') ∧
    SameStore (storeAll C clock 1 bunch.messages x.node) x'.node

/-- The bucket of the bunch is in time, and there are not too many messages. -/
def Bunch.IsLookedAt (bunch : Bunch) (now : Int64) : Prop :=
  timely now bunch.time = true ∧ bunch.messages.length ≤ 500

/-! ## 2. What is stored for itself -/

section

variable {C : SmsgCrypto} {clock : Nat → Int64} {node node' node'' : SmsgNode} {now : Int64}
  {m : SecureMessage}

theorem Untouched.stores_iff (h : Untouched node node') :
    m.Stores now node' ↔ m.Stores now node := by
  unfold SecureMessage.Stores SmsgNode.bucket
  rw [h.smsgBuckets]

theorem Untouched.storable_iff (h : Untouched node node') :
    m.Storable C now node' ↔ m.Storable C now node := and_congr_right fun _ => h.stores_iff

variable {fUpdateBucket : Bool} {messages : List SecureMessage}

theorem Untouched.storedNode (h : Untouched node node') :
    Untouched (storedNode C now m fUpdateBucket node) (storedNode C now m fUpdateBucket node') := by
  unfold SecMsg.storedNode SmsgNode.append SmsgNode.setBucket SmsgNode.bucket
  constructor
  · dsimp only
    rw [h.smsgBuckets, h.files]
  · dsimp only
    rw [h.files]

theorem Untouched.sameStore (h : Untouched node node') : SameStore node node' :=
  fun b => ⟨by rw [h.files], by rw [SmsgNode.bucket, SmsgNode.bucket, h.smsgBuckets]⟩

theorem SameStore.trans (h : SameStore node node') (h' : SameStore node' node'') :
    SameStore node node'' := fun b => ⟨(h' b).1.trans (h b).1, (h' b).2.trans (h b).2⟩

theorem SameStore.symm (h : SameStore node node') : SameStore node' node :=
  fun b => ⟨(h b).1.symm, (h b).2.symm⟩

/-- Another bucket of the same tokens in the place of one. -/
theorem SameStore.setBucket {time : Int64} {bkt bkt' : SecMsgBucket}
    (hbkt : node.smsgBuckets time = some bkt) (htokens : bkt'.setTokens = bkt.setTokens) :
    SameStore node (node.setBucket time bkt') := by
  refine fun b => ⟨rfl, ?_⟩
  unfold SmsgNode.bucket SmsgNode.setBucket
  dsimp only
  rw [Function.update_apply]
  split_ifs with hb
  · rw [hb, hbkt, Option.getD_some, Option.getD_some, htokens]
  · rfl

/-- The length of a file. -/
def fileLength (node : SmsgNode) (b : Int64) : Nat := ((node.files b).getD []).length

theorem SameStore.fileLength (h : SameStore node node') (b : Int64) :
    fileLength node' b = fileLength node b := by
  rw [SecMsg.fileLength, SecMsg.fileLength, (h b).1]

/-- A message more makes one file longer, and no file shorter. -/
theorem fileLength_storedNode (b : Int64) :
    fileLength (storedNode C now m fUpdateBucket node) b =
      fileLength node b + if b = bucketOf m.timestamp then m.bytes.length else 0 := by
  rw [fileLength, fileLength, storedNode_files]
  split_ifs
  · rw [Option.getD_some, List.length_append]
  · rfl

theorem fileLength_storeAll : ∀ {messages : List SecureMessage} {i : Nat} {node : SmsgNode}
    (b : Int64), fileLength node b ≤ fileLength (storeAll C clock i messages node) b
  | [], _, _, _ => Nat.le_refl _
  | m :: messages, i, node, b => by
    rw [storeAll]
    refine Nat.le_trans ?_ (fileLength_storeAll b)
    split_ifs
    · rw [fileLength_storedNode]
      exact Nat.le_add_right ..
    · exact Nat.le_refl _

/-- **Nothing is stored exactly when there is nothing to be stored.** -/
theorem sameStore_storeAll_iff : ∀ {messages : List SecureMessage} {i : Nat} {node : SmsgNode},
    SameStore node (storeAll C clock i messages node) ↔ NoneStorable C clock i messages node
  | [], _, _ => iff_of_true (fun _ => ⟨rfl, rfl⟩) trivial
  | m :: messages, i, node => by
    rw [storeAll, NoneStorable]
    split_ifs with hstorable
    · refine iff_of_false (fun hsame => ?_) fun hnone => hnone.1 hstorable
      -- the file of the message has grown
      have hgrown := @fileLength_storeAll C clock messages (i + 1)
        (storedNode C (clock i) m false node) (bucketOf m.timestamp)
      rw [hsame.fileLength, fileLength_storedNode, if_pos rfl, m.length_bytes] at hgrown
      change _ + (104 + _) ≤ _ at hgrown
      omega
    · rw [sameStore_storeAll_iff, and_iff_right hstorable]

/-- The messages up to the first that is not to be stored. -/
def storeLeading (C : SmsgCrypto) (clock : Nat → Int64) :
    Nat → List SecureMessage → SmsgNode → SmsgNode
  | _, [], node => node
  | i, m :: messages, node =>
    if m.Storable C (clock i) node then
      storeLeading C clock (i + 1) messages (storedNode C (clock i) m false node)
    else node

/-- **Stopping there loses nothing exactly when those that are to be stored come first.** -/
theorem sameStore_storeLeading_iff : ∀ {messages : List SecureMessage} {i : Nat} {node : SmsgNode},
    SameStore (storeAll C clock i messages node) (storeLeading C clock i messages node) ↔
      StorableFirst C clock i messages node
  | [], _, _ => iff_of_true (fun _ => ⟨rfl, rfl⟩) trivial
  | m :: messages, i, node => by
    rw [storeAll, storeLeading, StorableFirst]
    split_ifs with hstorable
    · exact sameStore_storeLeading_iff
    · rw [← sameStore_storeAll_iff]
      exact ⟨.symm, .symm⟩

theorem NoneStorable.storableFirst {i : Nat} (h : NoneStorable C clock i messages node) :
    StorableFirst C clock i messages node := by
  cases messages with
  | nil => trivial
  | cons m messages =>
    rw [StorableFirst, if_neg h.1]
    exact h.2

theorem NoneStorable.not_endsShort {i : Nat} (h : NoneStorable C clock i messages node) :
    ¬ EndsShort C clock i messages node := by
  rintro ⟨hall, m, hlast, -⟩
  cases messages with
  | nil => cases hlast
  | cons m' messages => exact h.1 hall.1

theorem storeLeading_untouched : ∀ {messages : List SecureMessage} {i : Nat}
    {node node' : SmsgNode}, Untouched node node' →
      Untouched (storeLeading C clock i messages node) (storeLeading C clock i messages node')
  | [], _, _, _, h => h
  | m :: messages, i, node, node', h => by
    rw [storeLeading, storeLeading]
    by_cases hstorable : m.Storable C (clock i) node
    · rw [if_pos hstorable, if_pos (h.storable_iff.mpr hstorable)]
      exact storeLeading_untouched h.storedNode
    · rw [if_neg hstorable, if_neg (mt h.storable_iff.mp hstorable)]
      exact h

theorem allStorable_congr : ∀ {messages : List SecureMessage} {i : Nat} {node node' : SmsgNode},
    Untouched node node' →
      (AllStorable C clock i messages node' ↔ AllStorable C clock i messages node)
  | [], _, _, _, _ => Iff.rfl
  | _ :: _, _, _, _, h => and_congr h.storable_iff (allStorable_congr h.storedNode)

end

/-! ## 3. Messages at their offsets -/

section

variable {C : SmsgCrypto} {clock : Nat → Int64} {node node' : SmsgNode} {now : Int64}
  {m : SecureMessage} {pHeader pPayload : Ptr} {nPayload : UInt32} {bunch : Bunch}
  {pre post : List SecureMessage} {n : UInt32} {x : Exchange} {vchData : Valtype}

theorem SecureMessage.At.slice_header (h : m.At pHeader pPayload nPayload) {a k : Nat}
    (hk : a + k ≤ smsgHdrLen) : (pHeader.add a).slice k = (m.header.drop a).take k := by
  rw [← h.header, Ptr.slice, Ptr.slice, Ptr.add, List.drop_take, List.take_take, List.drop_drop,
    min_eq_left (by omega)]

theorem SecureMessage.At.read_header (h : m.At pHeader pPayload nPayload) {a k : Nat}
    (hk : a + k ≤ smsgHdrLen) : (pHeader.add a).read k = .ok ((m.header.drop a).take k) := by
  rw [Ptr.read_of_holds (Ptr.holds_add.mpr (h.holds.mono hk)), h.slice_header hk]

/-- **A message is valid wherever it is.** -/
theorem secureMsgValidate_of_at (h : m.At pHeader pPayload nPayload) :
    secureMsgValidate C pHeader pPayload nPayload = m.validate C := by
  have hself := m.at_self
  have hfirst : ∀ {p p' : Ptr} {k : UInt32} (hat : m.At p p' k),
      p.read 4 = .ok (m.header.take 4) := by
    intro p p' k hat
    have hread := @SecureMessage.At.read_header m p p' k hat 0 4 (by decide)
    rwa [Ptr.add_zero, List.drop_zero] at hread
  rw [SecureMessage.validate]
  unfold secureMsgValidate version0
  rw [h.read_header (by decide), h.read_header (by decide), h.read_header (by decide),
    Ptr.read_of_holds h.holdsPayload, h.payload, h.toNat, hfirst h, hself.read_header (by decide),
    hself.read_header (by decide), hself.read_header (by decide),
    Ptr.read_of_holds hself.holdsPayload, hself.payload, hself.toNat, hfirst hself]

theorem SecureMessage.isValid_iff : m.isValid C = true ↔ m.validate C = .ok 0 := by
  unfold SecureMessage.isValid
  split
  · next h => exact iff_of_true rfl h
  · next h => exact iff_of_false Bool.false_ne_true h

/-- `SecureMsgValidate` comes to an end. -/
theorem SecureMessage.validate_ok (C : SmsgCrypto) (m : SecureMessage) :
    ∃ rv, m.validate C = .ok rv := by
  have hat := m.at_self
  have hfirst := @SecureMessage.At.read_header m _ _ _ hat 0 4 (by decide)
  rw [Ptr.add_zero] at hfirst
  unfold SecureMessage.validate secureMsgValidate version0
  rw [hat.read_header (by decide), hat.read_header (by decide), hat.read_header (by decide),
    Ptr.read_of_holds hat.holdsPayload]
  simp only [hfirst, ok_bind]
  split_ifs
  · exact ⟨_, rfl⟩
  · exact ⟨_, rfl⟩
  · split <;> exact ⟨_, rfl⟩

/-- Where a message begins. -/
def offsetOf (pre : List SecureMessage) : Nat := 12 + (records SecureMessage.bytes pre).length

theorem Bunch.drop_vchBunch (h : bunch.messages = pre ++ post) :
    bunch.vchBunch.drop (offsetOf pre) = records SecureMessage.bytes post := by
  have hhead : (leBytes 4 bunch.messages.length ++ timeBytes bunch.time).length = 12 := by
    rw [List.length_append, timeBytes, length_leBytes, length_leBytes]
  rw [Bunch.vchBunch, bunchBytes, offsetOf, ← List.drop_drop, List.drop_left' hhead, h,
    records_append, List.drop_left' rfl]

theorem Bunch.length_vchBunch (h : bunch.messages = pre ++ post) :
    bunch.vchBunch.length = offsetOf pre + (records SecureMessage.bytes post).length := by
  have hhead : (leBytes 4 bunch.messages.length ++ timeBytes bunch.time).length = 12 := by
    rw [List.length_append, timeBytes, length_leBytes, length_leBytes]
  rw [Bunch.vchBunch, bunchBytes, List.length_append, hhead, h, records_append,
    List.length_append, offsetOf, Nat.add_assoc]

/-- **Each message is at its offset.** -/
theorem Bunch.at_message (h : bunch.messages = pre ++ m :: post) (hn : n.toNat = offsetOf pre) :
    m.At ⟨bunch.vchBunch, n.toNat⟩ ((⟨bunch.vchBunch, n.toNat⟩ : Ptr).add smsgHdrLen)
        (statedSize ⟨bunch.vchBunch, n.toNat⟩) := by
  have hrest : bunch.vchBunch.drop n.toNat = m.bytes ++ records SecureMessage.bytes post := by
    rw [hn, Bunch.drop_vchBunch h, records_cons]
  have hlength : bunch.vchBunch.length =
      n.toNat + (smsgHdrLen + m.payload.length + (records SecureMessage.bytes post).length) := by
    rw [hn, Bunch.length_vchBunch h, records_cons, List.length_append, m.length_bytes]
  have hheader : (⟨bunch.vchBunch, n.toNat⟩ : Ptr).slice smsgHdrLen = m.header := by
    rw [Ptr.slice, hrest, m.take_header]
  have hstated : statedSize ⟨bunch.vchBunch, n.toNat⟩ =
      UInt32.ofNat (leNat (m.header.drop 100)) := by
    rw [statedSize, Ptr.slice, Ptr.add, ← List.drop_drop, hrest, SecureMessage.bytes,
      List.append_assoc, List.drop_append_of_le_length (by rw [m.size]; decide),
      List.take_left' (by rw [List.length_drop, m.size]; rfl)]
  have hsize : (statedSize ⟨bunch.vchBunch, n.toNat⟩).toNat = m.payload.length := by
    rw [hstated, m.toNat_stated]
  refine ⟨?_, hheader, ?_, ?_⟩
  · change n.toNat + 104 ≤ bunch.vchBunch.length
    change bunch.vchBunch.length = n.toNat + (104 + _ + _) at hlength
    omega
  · rw [hsize]
    change n.toNat + 104 + m.payload.length ≤ bunch.vchBunch.length
    change bunch.vchBunch.length = n.toNat + (104 + _ + _) at hlength
    omega
  · rw [hsize, Ptr.slice, Ptr.add, ← List.drop_drop, hrest, m.drop_header, List.take_left' rfl]

end

/-! ## 4. A round of the loop -/

/-- What a message is decrypted with is the same. -/
def SameWallet (node node' : SmsgNode) : Prop :=
  node'.fLocked = node.fLocked ∧ node'.smsgAddresses = node.smsgAddresses

section

variable {C : SmsgCrypto} {node node' : SmsgNode} {now : Int64} {m : SecureMessage}
  {pHeader : Ptr} {n : UInt32} {x : Exchange} {vchData : Valtype}

theorem SameWallet.ownedBy_iff (h : SameWallet node node') :
    m.OwnedBy C node' ↔ m.OwnedBy C node := by
  unfold SecureMessage.OwnedBy
  rw [h.1, h.2]

theorem secureMsgStoreUnscanned_of_at {pPayload : Ptr} {nPayload : UInt32}
    (h : m.At pHeader pPayload nPayload) :
    ∃ rv node', secureMsgStoreUnscanned now pHeader pPayload nPayload node = .ok (rv, node') ∧
      SameWallet node node' := by
  unfold secureMsgStoreUnscanned
  rw [h.timestamp, Ptr.read_of_holds h.holds, Ptr.read_of_holds h.holdsPayload]
  simp only [ok_bind]
  split_ifs
  · exact ⟨1, node, rfl, rfl, rfl⟩
  · exact ⟨0, _, rfl, rfl, rfl⟩

/-- **`SecureMsgScanMessage` comes to an end**, unless it reads a sample that is not there. -/
theorem secureMsgScanMessage_of_at {pPayload : Ptr} {nPayload : UInt32}
    (h : m.At pHeader pPayload nPayload) (hsample : m.OwnedBy C node → pPayload.Holds 8) :
    ∃ rv node', secureMsgScanMessage C now pHeader pPayload nPayload node = .ok (rv, node') ∧
      SameWallet node node' := by
  unfold secureMsgScanMessage
  split_ifs with hlocked
  · obtain ⟨rv, node', hstored, hwallet⟩ :=
      @secureMsgStoreUnscanned_of_at node now m pHeader pPayload nPayload h
    rw [hstored]
    exact ⟨_, node', rfl, hwallet⟩
  · rw [Ptr.read_of_holds h.holds, Ptr.read_of_holds h.holdsPayload, h.header, h.payload]
    simp only [ok_bind]
    cases hown : ownAddress C m.header m.payload node.smsgAddresses with
    | none => exact ⟨0, node, rfl, rfl, rfl⟩
    | some addressTo =>
      have howned : m.OwnedBy C node :=
        ⟨Bool.eq_false_iff.mpr hlocked, by rw [hown]; exact Option.some_ne_none _⟩
      dsimp only
      rw [Ptr.read_of_holds (hsample howned), ok_bind]
      split_ifs
      · exact ⟨0, node, rfl, rfl, rfl⟩
      · exact ⟨0, _, rfl, rfl, rfl⟩

theorem secureMsgScanMessage_reads_past {pPayload : Ptr} {nPayload : UInt32}
    (h : m.At pHeader pPayload nPayload) (howned : m.OwnedBy C node) (hshort : ¬ pPayload.Holds 8) :
    ∃ stop, secureMsgScanMessage C now pHeader pPayload nPayload node = .error stop := by
  unfold secureMsgScanMessage
  rw [if_neg (by rw [howned.1]; decide), Ptr.read_of_holds h.holds,
    Ptr.read_of_holds h.holdsPayload, h.header, h.payload]
  simp only [ok_bind]
  cases hown : ownAddress C m.header m.payload node.smsgAddresses with
  | none => exact absurd hown howned.2
  | some addressTo =>
    dsimp only
    rw [Ptr.read, if_neg hshort]
    exact ⟨_, rfl⟩

/-- What a round does with a message, by what the message is. -/
theorem bunchMessage_of_at (hsize : vchData.length ≤ 0x02000000)
    (h : m.At ⟨vchData, n.toNat⟩ ((⟨vchData, n.toNat⟩ : Ptr).add smsgHdrLen)
      (statedSize ⟨vchData, n.toNat⟩)) :
    bunchMessage C now vchData n x =
      m.validate C >>= fun rv =>
        if rv ≠ 0 then .ok (some n, x.misbehaving (if rv = 2 then 10 else 1))
        else if m.Stores now x.node then
          secureMsgScanMessage C now ⟨vchData, n.toNat⟩
              ((⟨vchData, n.toNat⟩ : Ptr).add smsgHdrLen) (statedSize ⟨vchData, n.toNat⟩)
              (storedNode C now m false x.node) >>= fun (_, node) =>
            .ok (some (n + (UInt32.ofNat smsgHdrLen + statedSize ⟨vchData, n.toNat⟩)),
              { x with node := node })
        else .ok (none, x) := by
  have hle : n.toNat ≤ vchData.length := Nat.le_trans (Nat.le_add_right ..) h.holds
  unfold bunchMessage
  rw [if_neg ((room_iff hsize hle).mpr h.holds)]
  dsimp only
  rw [payloadSize_of_holds h.holds, ok_bind, secureMsgValidate_of_at h]
  congr 1
  funext rv
  by_cases hrv : rv ≠ 0
  · rw [if_pos hrv, if_pos hrv]
    rfl
  · rw [if_neg hrv, if_neg hrv, secureMsgStore_of_at h, ok_bind]
    by_cases hstores : m.Stores now x.node
    · rw [if_pos hstores, if_pos hstores, if_neg fun hne => hne rfl]
      rfl
    · rw [if_neg hstores, if_neg hstores, if_pos Nat.one_ne_zero]
      rfl

/-- **An invalid message is looked at again** in every round that is left. -/
theorem bunchLoop_of_invalid {clock : Nat → Int64} {rv : Nat} (hsize : vchData.length ≤ 0x02000000)
    (h : m.At ⟨vchData, n.toNat⟩ ((⟨vchData, n.toNat⟩ : Ptr).add smsgHdrLen)
      (statedSize ⟨vchData, n.toNat⟩)) (hrv : m.validate C = .ok rv) (hne : rv ≠ 0) :
    ∀ (k i : Nat) (x : Exchange),
      ∃ x', bunchLoop C clock vchData k i n x = .ok x' ∧ x'.node = x.node
  | 0, _, x => ⟨x, rfl, rfl⟩
  | k + 1, i, x => by
    rw [bunchLoop, bunchMessage_of_at hsize h, hrv, ok_bind, if_pos hne, ok_bind]
    obtain ⟨x', hloop, hnode⟩ := bunchLoop_of_invalid hsize h hrv hne k (i + 1)
      (x.misbehaving (if rv = 2 then 10 else 1))
    exact ⟨x', hloop, hnode⟩

end

/-! ## 5. The loop -/

section

variable {C : SmsgCrypto} {clock : Nat → Int64} {bunch : Bunch} {m : SecureMessage}
  {pre post : List SecureMessage} {n : UInt32} {x : Exchange} {node : SmsgNode} {i : Nat}

theorem offsetOf_snoc : offsetOf (pre ++ [m]) = offsetOf pre + (smsgHdrLen + m.payload.length) := by
  rw [offsetOf, offsetOf, records_append, records_cons, records_nil, List.append_nil,
    List.length_append, m.length_bytes, Nat.add_assoc]

/-- The offset of the next message, in 32 bits. -/
theorem Bunch.toNat_next (h : bunch.messages = pre ++ m :: post) (hn : n.toNat = offsetOf pre) :
    (n + (UInt32.ofNat smsgHdrLen + statedSize ⟨bunch.vchBunch, n.toNat⟩)).toNat =
      offsetOf (pre ++ [m]) := by
  have hsize := (Bunch.at_message h hn).toNat
  have hsmall := bunch.small
  have hlength : bunch.vchBunch.length =
      offsetOf pre + (records SecureMessage.bytes (m :: post)).length := Bunch.length_vchBunch h
  rw [records_cons, List.length_append, m.length_bytes] at hlength
  rw [Bunch.vchBunch] at hlength
  rw [UInt32.toNat_add, UInt32.toNat_add, hsize, hn, offsetOf_snoc]
  change (offsetOf pre + (104 + m.payload.length) % 2 ^ 32) % 2 ^ 32 =
    offsetOf pre + (104 + m.payload.length)
  change _ = offsetOf pre + (104 + m.payload.length + _) at hlength
  omega

/-- After a message there are eight bytes unless it is the last and too short. -/
theorem Bunch.holds_sample_iff (h : bunch.messages = pre ++ m :: post)
    (hn : n.toNat = offsetOf pre) :
    ((⟨bunch.vchBunch, n.toNat⟩ : Ptr).add smsgHdrLen).Holds 8 ↔
      ¬ (post = [] ∧ m.payload.length < 8) := by
  have hlength := Bunch.length_vchBunch h
  rw [records_cons, List.length_append, m.length_bytes] at hlength
  change n.toNat + 104 + 8 ≤ bunch.vchBunch.length ↔ _
  change _ = offsetOf pre + (104 + m.payload.length + _) at hlength
  rw [hlength, hn]
  cases post with
  | nil =>
    rw [records_nil, List.length_nil]
    simp only [true_and, not_lt]
    omega
  | cons m' post =>
    rw [records_cons, List.length_append, m'.length_bytes]
    refine iff_of_true ?_ fun hnil => nomatch hnil.1
    change _ ≤ offsetOf pre + (104 + m.payload.length + (104 + m'.payload.length + _))
    omega

theorem endsShort_cons (hstorable : m.Storable C (clock i) node) :
    EndsShort C clock i (m :: post) node ↔
      (post = [] ∧ m.payload.length < 8 ∧ m.OwnedBy C node) ∨
        EndsShort C clock (i + 1) post (storedNode C (clock i) m false node) := by
  have hwallet : SameWallet node (storedNode C (clock i) m false node) := ⟨rfl, rfl⟩
  unfold EndsShort
  rw [AllStorable, and_iff_right hstorable]
  cases post with
  | nil =>
    constructor
    · rintro ⟨-, m', hlast, hshort, howned⟩
      cases hlast
      exact Or.inl ⟨rfl, hshort, howned⟩
    · rintro (⟨-, hshort, howned⟩ | ⟨-, m', hlast, -⟩)
      · exact ⟨trivial, m, rfl, hshort, howned⟩
      · cases hlast
  | cons m' post =>
    rw [List.getLast?_cons_cons]
    constructor
    · rintro ⟨hall, m'', hlast, hshort, howned⟩
      exact Or.inr ⟨hall, m'', hlast, hshort, hwallet.ownedBy_iff.mpr howned⟩
    · rintro (⟨hnil, -⟩ | ⟨hall, m'', hlast, hshort, howned⟩)
      · cases hnil
      · exact ⟨hall, m'', hlast, hshort, hwallet.ownedBy_iff.mp howned⟩

theorem endsShort_congr {node' : SmsgNode} {messages : List SecureMessage}
    (hstore : Untouched node node') (hwallet : SameWallet node node') :
    EndsShort C clock i messages node' ↔ EndsShort C clock i messages node := by
  unfold EndsShort
  rw [allStorable_congr hstore]
  simp only [hwallet.ownedBy_iff]

/-- **The loop stores the messages up to the first that is not to be stored**, or it reads past the
end. -/
theorem bunchLoop_stores : ∀ {post pre : List SecureMessage} {n : UInt32} {x : Exchange},
    bunch.messages = pre ++ post → n.toNat = offsetOf pre →
      (∃ x', bunchLoop C clock bunch.vchBunch post.length pre.length n x = .ok x' ∧
          Untouched (storeLeading C clock (pre.length + 1) post x.node) x'.node ∧
            ¬ EndsShort C clock (pre.length + 1) post x.node) ∨
        (∃ stop, bunchLoop C clock bunch.vchBunch post.length pre.length n x = .error stop) ∧
          EndsShort C clock (pre.length + 1) post x.node
  | [], pre, n, x, _, _ => Or.inl ⟨x, rfl, .refl _, fun ⟨_, _, hlast, _⟩ => nomatch hlast⟩
  | m :: post, pre, n, x, h, hn => by
    have hat := Bunch.at_message h hn
    obtain ⟨rv, hrv⟩ := m.validate_ok C
    by_cases hvalid : rv = 0
    · rw [hvalid] at hrv
      have hround := @bunchMessage_of_at C (clock (pre.length + 1)) m n x bunch.vchBunch
        bunch.small hat
      rw [hrv, ok_bind, if_neg (not_not.mpr rfl)] at hround
      by_cases hstores : m.Stores (clock (pre.length + 1)) x.node
      · have hstorable : m.Storable C (clock (pre.length + 1)) x.node :=
          ⟨SecureMessage.isValid_iff.mpr hrv, hstores⟩
        have hstored : SameWallet x.node (storedNode C (clock (pre.length + 1)) m false x.node) :=
          ⟨rfl, rfl⟩
        rw [if_pos hstores] at hround
        rw [endsShort_cons hstorable, storeLeading, if_pos hstorable, List.length_cons, bunchLoop,
          hround]
        by_cases hpast : post = [] ∧ m.payload.length < 8 ∧ m.OwnedBy C x.node
        · obtain ⟨stop, hscan⟩ := @secureMsgScanMessage_reads_past C _
            (clock (pre.length + 1)) m _ _ _ hat (hstored.ownedBy_iff.mpr hpast.2.2)
            (fun hholds => (Bunch.holds_sample_iff h hn).mp hholds ⟨hpast.1, hpast.2.1⟩)
          rw [hscan]
          exact Or.inr ⟨⟨stop, rfl⟩, Or.inl hpast⟩
        · obtain ⟨_, node, hscan, hwallet⟩ := @secureMsgScanMessage_of_at C _
            (clock (pre.length + 1)) m _ _ _ hat fun howned =>
              (Bunch.holds_sample_iff h hn).mpr fun hlast =>
                hpast ⟨hlast.1, hlast.2, hstored.ownedBy_iff.mp howned⟩
          have hstore := secureMsgScanMessage_untouched hscan
          have hrest := @bunchLoop_stores post (pre ++ [m]) _ { x with node := node }
            (by rw [h, List.append_assoc]; rfl) (Bunch.toNat_next h hn)
          rw [List.length_append, List.length_singleton] at hrest
          rw [hscan, ok_bind, ok_bind, or_iff_right hpast]
          rw [endsShort_congr hstore hwallet] at hrest
          refine hrest.imp_left ?_
          rintro ⟨x', hloop, hleading, hends⟩
          exact ⟨x', hloop, (storeLeading_untouched hstore).trans hleading, hends⟩
      · have hnot : ¬ m.Storable C (clock (pre.length + 1)) x.node := fun hs => hstores hs.2
        rw [if_neg hstores] at hround
        rw [storeLeading, if_neg hnot, List.length_cons, bunchLoop, hround]
        exact Or.inl ⟨x, rfl, .refl _, fun hends => hnot hends.1.1⟩
    · have hnot : ¬ m.Storable C (clock (pre.length + 1)) x.node := by
        rintro ⟨hv, -⟩
        cases (SecureMessage.isValid_iff.mp hv).symm.trans hrv
        exact hvalid rfl
      obtain ⟨x', hloop, hnode⟩ := @bunchLoop_of_invalid C m n bunch.vchBunch clock rv bunch.small
        hat hrv hvalid (post.length + 1) pre.length x
      rw [storeLeading, if_neg hnot]
      exact Or.inl ⟨x', hloop, by rw [hnode]; exact .refl _, fun hends => hnot hends.1.1⟩

end

/-! ## 6. `SecureMsgReceive` -/

section

variable {C : SmsgCrypto} {clock : Nat → Int64} {bunch : Bunch} {x : Exchange} {now : Int64}

theorem Bunch.firstCount_vchBunch (bunch : Bunch) :
    (firstCount bunch.vchBunch).toNat = bunch.messages.length := by
  have hlong : bunch.messages.length ≤ (records SecureMessage.bytes bunch.messages).length := by
    induction bunch.messages with
    | nil => exact Nat.le_refl 0
    | cons m messages ih =>
      rw [records_cons, List.length_append, m.length_bytes, List.length_cons]
      change _ ≤ 104 + _ + _
      omega
  have hsmall := bunch.small
  rw [bunchBytes, List.length_append] at hsmall
  have hlt : bunch.messages.length < 256 ^ 4 := by omega
  rw [firstCount, Bunch.vchBunch, bunchBytes, List.append_assoc,
    List.take_left' (length_leBytes 4 _), leNat_leBytes hlt]
  exact UInt32.toNat_ofNat_of_lt' (by simp only [UInt32.size]; omega)

theorem Bunch.bunchTime_vchBunch (bunch : Bunch) : bunchTime bunch.vchBunch = bunch.time := by
  rw [bunchTime, Bunch.vchBunch, bunchBytes, List.append_assoc,
    List.drop_left' (length_leBytes 4 _), timeBytes, List.take_left' (length_leBytes 8 _),
    leNat_leBytes bunch.time.toUInt64.toNat_lt]
  apply Int64.toBitVec_inj.mp
  simp

theorem Bunch.looksAt_iff : LooksAt now bunch.vchBunch ↔
    bunch.IsLookedAt now ∧ bunch.messages ≠ [] := by
  have hcount := bunch.firstCount_vchBunch
  have hlength : 12 ≤ bunch.vchBunch.length := by
    rw [Bunch.length_vchBunch (List.nil_append _).symm]
    exact Nat.le_trans (Nat.le_add_right ..) (Nat.le_add_right ..)
  unfold LooksAt Bunch.IsLookedAt
  rw [bunch.bunchTime_vchBunch, UInt32.lt_iff_toNat_lt, UInt32.le_iff_toNat_le, hcount,
    ← List.length_pos_iff_ne_nil]
  change _ ∧ _ ∧ 0 < _ ∧ _ ≤ 500 ↔ _
  tauto

theorem sameStore_closeBunch {time : Int64} :
    SameStore x.node (closeBunch C now time x).2.node := by
  unfold closeBunch
  split
  · exact fun _ => ⟨rfl, rfl⟩
  · next bkt hbkt => exact .setBucket hbkt rfl

/-- A bunch that is not looked at stores nothing. -/
theorem storesExactly_of_not_looksAt (h : ¬ LooksAt (clock 0) bunch.vchBunch) :
    StoresExactly C clock bunch x ↔ NoneStorable C clock 1 bunch.messages x.node := by
  obtain ⟨x', hreceive, hnode⟩ := @secureMsgReceive_of_not_looksAt C _ _ x h
  have hsame : SameStore x.node x'.node := by
    rcases hnode with hnode | ⟨bkt, hbkt, hnode⟩
    · rw [hnode]
      exact fun _ => ⟨rfl, rfl⟩
    · rw [hnode]
      exact .setBucket hbkt rfl
  rw [← sameStore_storeAll_iff]
  constructor
  · rintro ⟨rv, x'', hok, hstore⟩
    cases hreceive.symm.trans hok
    exact hsame.trans hstore.symm
  · exact fun hnone => ⟨1, x', hreceive, hnone.symm.trans hsame⟩

theorem storesExactly_of_looksAt (h : LooksAt (clock 0) bunch.vchBunch) :
    StoresExactly C clock bunch x ↔
      StorableFirst C clock 1 bunch.messages x.node ∧
        ¬ EndsShort C clock 1 bunch.messages x.node := by
  have hloop := @bunchLoop_stores C clock bunch bunch.messages [] 12 x rfl rfl
  rw [List.length_nil, Nat.zero_add] at hloop
  rw [← sameStore_storeLeading_iff]
  unfold StoresExactly
  rw [secureMsgReceive_of_looksAt h, bunch.firstCount_vchBunch]
  rcases hloop with ⟨x₁, hrun, hleading, hends⟩ | ⟨⟨stop, hrun⟩, hends⟩
  · have hsame : SameStore (storeLeading C clock 1 bunch.messages x.node)
        (closeBunch C (clock 0) (bunchTime bunch.vchBunch) x₁).2.node :=
      hleading.sameStore.trans sameStore_closeBunch
    rw [hrun, ok_bind, and_iff_left hends]
    constructor
    · rintro ⟨rv, x', hok, hstore⟩
      rw [Except.ok.inj hok] at hsame
      exact hstore.trans hsame.symm
    · exact fun hstore => ⟨_, _, rfl, hstore.trans hsame⟩
  · rw [hrun]
    exact iff_of_false (fun ⟨_, _, hok, _⟩ => nomatch hok) fun hnot => hnot.2 hends

/-- **When a bunch is stored as it should be**: nothing in it is to be stored; or it is looked at,
the messages that are to be stored come before all others, and the last of them does not make
`SecureMsgScanMessage` read past the end. -/
theorem secureMsgReceive_stores_iff (C : SmsgCrypto) (clock : Nat → Int64) (bunch : Bunch)
    (x : Exchange) :
    StoresExactly C clock bunch x ↔
      NoneStorable C clock 1 bunch.messages x.node ∨
        (bunch.IsLookedAt (clock 0) ∧ StorableFirst C clock 1 bunch.messages x.node ∧
          ¬ EndsShort C clock 1 bunch.messages x.node) := by
  by_cases hlooks : LooksAt (clock 0) bunch.vchBunch
  · rw [storesExactly_of_looksAt hlooks, and_iff_right (Bunch.looksAt_iff.mp hlooks).1]
    exact ⟨Or.inr, fun h => h.elim (fun hnone => ⟨hnone.storableFirst, hnone.not_endsShort⟩) id⟩
  · rw [storesExactly_of_not_looksAt hlooks]
    refine ⟨Or.inl, fun h => h.elim id fun hlooked => ?_⟩
    cases hmessages : bunch.messages with
    | nil => trivial
    | cons m messages =>
      exact absurd (Bunch.looksAt_iff.mpr ⟨hlooked.1, by rw [hmessages]; nofun⟩)
        hlooks

/-- The message with another version, which is the one that is taken. -/
def validMessage : SecureMessage where
  header := [0, 0, 0, 0, 1, 0, 0] ++ leBytes 8 6000 ++ List.replicate 85 0 ++ leBytes 4 8
  payload := [1, 2, 3, 4, 5, 6, 7, 8]
  size := by decide
  stated := by decide
  small := length_small

/-- An invalid message, and a valid one. -/
def mixedBunch : Bunch := ⟨6000, [sampleMessage, validMessage], by decide +kernel⟩

set_option maxRecDepth 4000 in
/-- **A valid message after an invalid one is lost**, and the peer is blamed twice. -/
theorem valid_after_invalid_lost :
    (validMessage.Storable sampleCrypto 6000 freshNode ∧
      secureMsgReceive sampleCrypto (fun _ => 6000) mixedBunch.vchBunch freshExchange =
        .ok (1, freshExchange.misbehaving 2)) ∧
      ¬ StoresExactly sampleCrypto (fun _ => 6000) mixedBunch freshExchange := by
  have hrun : secureMsgReceive sampleCrypto (fun _ => 6000) mixedBunch.vchBunch freshExchange =
      .ok (1, freshExchange.misbehaving 2) := rfl
  refine ⟨⟨by decide, hrun⟩, ?_⟩
  rintro ⟨rv, x', hok, hstore⟩
  cases hrun.symm.trans hok
  have hfile := (hstore 6000).1
  revert hfile
  decide

end

end SecMsg

end Breakout
