/-
# Messages on the wire

A message is a header of 24 bytes and a payload.  `ProcessMessages` looks for the first bytes of a
header in what has been received, and takes the message behind them when all of it is there and its
checksum is right.  A header that is not valid, or whose payload does not have the checksum, is
skipped, and the search goes on with the byte behind the header: the payload is searched too.

The code works on the buffer in place, and puts a header back when the payload is not there yet.
`look` is the same on a list of bytes (`nextMessage_eq`), and it is a scanner (`messageScanner`):
what has been received in pieces is read as if it had come at once.
-/
import Breakout.HexTx
import Breakout.Lib.Framing
import Breakout.WireStream

namespace Breakout

open Lib

/-! ## 1. The header -/

def pchMessageStart (fTestNet : Bool) : Valtype :=
  if fTestNet then [0xcb, 0xad, 0xef, 0xfd] else [0xf9, 0xcf, 0xcb, 0xdf]

/-- A message, as it is passed to `ProcessMessage`. -/
structure Message where
  strCommand : Valtype
  vMsg : Valtype
deriving DecidableEq, Repr

structure CMessageHeader where
  pchMessageStart : Valtype
  pchCommand : Valtype
  nMessageSize : UInt32
  nChecksum : UInt32
deriving DecidableEq, Repr

/-- The characters of a string before its end. -/
def nulTerminated (psz : Valtype) : Valtype := psz.takeWhile (· ≠ 0)

namespace CMessageHeader

def commandSize : Nat := 12

/-- The size of a header. -/
def size : Nat := 24

/-- `CMessageHeader(pszCommand, nMessageSizeIn)` -/
def new (fTestNet : Bool) (pszCommand : Valtype) (nMessageSizeIn : UInt32) : CMessageHeader where
  pchMessageStart := Breakout.pchMessageStart fTestNet
  pchCommand := (nulTerminated pszCommand).take commandSize ++
    List.replicate (commandSize - ((nulTerminated pszCommand).take commandSize).length) 0
  nMessageSize := nMessageSizeIn
  nChecksum := 0

def getCommand (hdr : CMessageHeader) : Valtype :=
  if hdr.pchCommand.getD (commandSize - 1) 0 = 0 then nulTerminated hdr.pchCommand else hdr.pchCommand

/-- The loop of `IsValid` over the command. -/
def validCommand : Valtype → Bool
  | [] => true
  | c :: rest =>
    -- must be all zeros after the first zero
    if c = 0 then rest.all (· = 0)
    else if c < 0x20 ∨ 0x7e < c then false
    else validCommand rest

def isValid (fTestNet : Bool) (hdr : CMessageHeader) : Bool :=
  decide (hdr.pchMessageStart = Breakout.pchMessageStart fTestNet) && validCommand hdr.pchCommand &&
    decide (hdr.nMessageSize.toNat ≤ maxSize)

/-- `IMPLEMENT_SERIALIZE`, writing. -/
def serialize (hdr : CMessageHeader) : Valtype :=
  hdr.pchMessageStart ++ hdr.pchCommand ++ serUInt32 hdr.nMessageSize ++ serUInt32 hdr.nChecksum

/-- `IMPLEMENT_SERIALIZE`, reading. -/
def unserialize (s : CDataStream) : Option (CMessageHeader × CDataStream) := do
  let (pchMessageStart, s) ← s.read 4
  let (pchCommand, s) ← s.read commandSize
  let (nMessageSize, s) ← s.read 4
  let (nChecksum, s) ← s.read 4
  return (⟨pchMessageStart, pchCommand, UInt32.ofNat (leNat nMessageSize),
    UInt32.ofNat (leNat nChecksum)⟩, s)

/-- The header that some bytes are. -/
def ofBytes (b : Valtype) : CMessageHeader :=
  ⟨b.take 4, (b.drop 4).take commandSize, UInt32.ofNat (leNat ((b.drop 16).take 4)),
    UInt32.ofNat (leNat ((b.drop 20).take 4))⟩

end CMessageHeader

/-! ## 2. Sending -/

variable (K : Crypto) (fTestNet : Bool)

/-- The checksum of a payload. -/
def checksumOf (payload : Valtype) : UInt32 := UInt32.ofNat (K.hash payload).toNat

/-- `PushMessage`: the header is written, the payload behind it, and then the size and the checksum
over those of the header. -/
def CDataStream.pushMessage (vSend : CDataStream) (m : Message) : CDataStream :=
  let nHeaderStart := vSend.size
  let vSend := vSend.write (CMessageHeader.new fTestNet m.strCommand 0).serialize
  let nMessageStart := vSend.size
  let vSend := vSend.write m.vMsg
  let nSize := UInt32.ofNat (vSend.size - nMessageStart)
  let vSend := vSend.copyAt (nHeaderStart + 16) (serUInt32 nSize)
  let nChecksum := checksumOf K (vSend.data.drop nMessageStart)
  vSend.copyAt (nHeaderStart + 20) (serUInt32 nChecksum)

/-- The bytes of a message. -/
def frame (m : Message) : Valtype :=
  { CMessageHeader.new fTestNet m.strCommand (UInt32.ofNat m.vMsg.length) with
    nChecksum := checksumOf K m.vMsg }.serialize ++ m.vMsg

/-! ## 3. Receiving -/

/-- `search`: where a pattern begins, or the end. -/
def findStart (pattern : Valtype) : Valtype → Nat
  | [] => 0
  | b :: rest => if pattern.isPrefixOf (b :: rest) then 0 else findStart pattern rest + 1

/-- What a round of the loop of `ProcessMessages` finds. -/
inductive MessageRound where
  | stop (vRecv : CDataStream)
  | skip (vRecv : CDataStream)
  | message (m : Message) (vRecv : CDataStream)

/-- A round of the loop, up to the call of `ProcessMessage`. -/
def nextMessage (vRecv : CDataStream) : MessageRound :=
  let pstart := findStart (pchMessageStart fTestNet) vRecv.data
  if vRecv.size - pstart < CMessageHeader.size then
    if CMessageHeader.size < vRecv.size then
      .stop (vRecv.eraseFront (vRecv.size - CMessageHeader.size))
    else .stop vRecv
  else
    let vRecv := vRecv.eraseFront pstart
    let vHeaderSave := vRecv.data.take CMessageHeader.size
    match CMessageHeader.unserialize vRecv with
    | none => .stop vRecv
    | some (hdr, vRecv) =>
      if !hdr.isValid fTestNet then .skip vRecv
      else
        let strCommand := hdr.getCommand
        let nMessageSize := hdr.nMessageSize.toNat
        if maxSize < nMessageSize then .skip vRecv
        -- rewind and wait for rest of message
        else if vRecv.size < nMessageSize then .stop (vRecv.insertFront vHeaderSave)
        else if checksumOf K (vRecv.data.take nMessageSize) ≠ hdr.nChecksum then .skip vRecv
        else
          let vMsg := vRecv.data.take nMessageSize
          match vRecv.ignore nMessageSize with
          | none => .stop vRecv
          | some vRecv => .message ⟨strCommand, vMsg⟩ vRecv

/-- A round over bytes that begin with a header. -/
def lookAt (b : Valtype) : Look UInt8 Message :=
  let hdr := CMessageHeader.ofBytes (b.take CMessageHeader.size)
  let body := b.drop CMessageHeader.size
  if hdr.isValid fTestNet = false then .take none body
  else if body.length < hdr.nMessageSize.toNat then .wait b
  else if checksumOf K (body.take hdr.nMessageSize.toNat) ≠ hdr.nChecksum then .take none body
  else .take (some ⟨hdr.getCommand, body.take hdr.nMessageSize.toNat⟩)
    (body.drop hdr.nMessageSize.toNat)

/-- A round over the bytes that have been received. -/
def look (b : Valtype) : Look UInt8 Message :=
  let pstart := findStart (pchMessageStart fTestNet) b
  if b.length - pstart < CMessageHeader.size then .wait (b.drop (b.length - CMessageHeader.size))
  else lookAt K fTestNet (b.drop pstart)

/-! ## 4. The search -/

section

variable {pattern b x : Valtype} {i m : Nat}

theorem findStart_le : findStart pattern b ≤ b.length := by
  induction b with
  | nil => exact Nat.le_refl 0
  | cons c rest ih =>
    rw [findStart]
    split_ifs
    · exact Nat.zero_le _
    · rw [List.length_cons]
      omega

theorem begins_findStart (h : findStart pattern b < b.length) :
    pattern <+: b.drop (findStart pattern b) := by
  induction b with
  | nil => exact absurd h (Nat.lt_irrefl 0)
  | cons c rest ih =>
    rw [findStart] at h ⊢
    split_ifs at h ⊢ with hbegins
    · exact List.isPrefixOf_iff_prefix.mp hbegins
    · rw [List.length_cons] at h
      exact ih (by omega)

theorem not_begins_of_lt (h : i < findStart pattern b) : ¬ pattern <+: b.drop i := by
  induction b generalizing i with
  | nil => exact absurd h (Nat.not_lt_zero i)
  | cons c rest ih =>
    rw [findStart] at h
    split_ifs at h with hbegins
    · exact absurd h (Nat.not_lt_zero i)
    · cases i with
      | zero => exact mt List.isPrefixOf_iff_prefix.mpr hbegins
      | succ i => exact ih (by omega)

theorem findStart_eq (hne : pattern ≠ []) (h : pattern <+: b.drop i)
    (hfirst : ∀ j < i, ¬ pattern <+: b.drop j) : findStart pattern b = i := by
  have hpos := List.length_pos_iff.mpr hne
  have hlen := h.length_le
  rw [List.length_drop] at hlen
  rcases Nat.lt_trichotomy (findStart pattern b) i with hlt | heq | hgt
  · exact absurd (begins_findStart (by omega)) (hfirst _ hlt)
  · exact heq
  · exact absurd h (not_begins_of_lt hgt)

/-- What begins in the first part of two, and has room there, begins in it alone. -/
theorem begins_of_append (h : pattern <+: (b ++ x).drop i) (hroom : i + pattern.length ≤ b.length) :
    pattern <+: b.drop i := by
  rw [List.drop_append_of_le_length (by omega)] at h
  exact List.prefix_of_prefix_length_le h (List.prefix_append _ _) (by rw [List.length_drop]; omega)

theorem findStart_append (hne : pattern ≠ [])
    (h : findStart pattern b + pattern.length ≤ b.length) :
    findStart pattern (b ++ x) = findStart pattern b := by
  have hpos := List.length_pos_iff.mpr hne
  refine findStart_eq hne ?_ fun j hj hbegins => ?_
  · rw [List.drop_append_of_le_length (by omega)]
    exact (begins_findStart (by omega)).trans (List.prefix_append _ _)
  · exact not_begins_of_lt hj (begins_of_append hbegins (by omega))

theorem findStart_drop (h : m ≤ findStart pattern b) :
    findStart pattern (b.drop m) + m = findStart pattern b := by
  induction b generalizing m with
  | nil =>
    obtain rfl : m = 0 := Nat.le_zero.mp h
    rfl
  | cons c rest ih =>
    cases m with
    | zero => rfl
    | succ m =>
      rw [findStart] at h ⊢
      split_ifs at h ⊢ with hbegins
      · omega
      · rw [List.drop_succ_cons]
        have hrest := @ih m (by omega)
        omega

end

/-! ## 5. The scanner -/

theorem length_pchMessageStart : (pchMessageStart fTestNet).length = 4 := by
  cases fTestNet <;> rfl

theorem pchMessageStart_ne_nil : pchMessageStart fTestNet ≠ [] := by
  cases fTestNet <;> decide

variable {K fTestNet} {b k r x : Valtype} {m : Option Message}

theorem look_of_short
    (h : b.length - findStart (pchMessageStart fTestNet) b < CMessageHeader.size) :
    look K fTestNet b = .wait (b.drop (b.length - CMessageHeader.size)) := by
  simp only [look, if_pos h]

theorem look_of_headed
    (h : CMessageHeader.size ≤ b.length - findStart (pchMessageStart fTestNet) b) :
    look K fTestNet b = lookAt K fTestNet (b.drop (findStart (pchMessageStart fTestNet) b)) := by
  simp only [look, if_neg (Nat.not_lt.mpr h)]

/-- A message is taken off where a header was found. -/
theorem look_taken (h : look K fTestNet b = .take m r) :
    CMessageHeader.size ≤ b.length - findStart (pchMessageStart fTestNet) b ∧
      lookAt K fTestNet (b.drop (findStart (pchMessageStart fTestNet) b)) = .take m r := by
  rcases Nat.lt_or_ge (b.length - findStart (pchMessageStart fTestNet) b) CMessageHeader.size with
    hshort | hlong
  · rw [look_of_short hshort] at h
    cases h
  · exact ⟨hlong, look_of_headed hlong ▸ h⟩

/-- What is before the first header makes no difference. -/
theorem look_drop {n : Nat} (h : n ≤ findStart (pchMessageStart fTestNet) b)
    (hlen : n + CMessageHeader.size ≤ b.length) : look K fTestNet (b.drop n) = look K fTestNet b := by
  have hstart := findStart_drop h
  have hdrop : (b.drop n).drop (findStart (pchMessageStart fTestNet) (b.drop n)) =
      b.drop (findStart (pchMessageStart fTestNet) b) := by
    rw [List.drop_drop, ← hstart]
    congr 1
    omega
  have hwait : (b.drop n).drop ((b.drop n).length - CMessageHeader.size) =
      b.drop (b.length - CMessageHeader.size) := by
    rw [List.drop_drop, List.length_drop]
    congr 1
    omega
  have hleft : (b.drop n).length - findStart (pchMessageStart fTestNet) (b.drop n) =
      b.length - findStart (pchMessageStart fTestNet) b := by
    rw [List.length_drop]
    omega
  simp only [look, hleft, hwait, hdrop]

theorem lookAt_shrinks (hlen : CMessageHeader.size ≤ b.length)
    (h : lookAt K fTestNet b = .take m r) : r.length < b.length := by
  unfold CMessageHeader.size at hlen
  unfold lookAt at h
  dsimp only at h
  split_ifs at h
  all_goals
    cases h
    simp only [List.length_drop, CMessageHeader.size]
    omega

/-- More behind them makes no difference to what is taken. -/
theorem lookAt_stable (x : Valtype) (hlen : CMessageHeader.size ≤ b.length)
    (h : lookAt K fTestNet b = .take m r) : lookAt K fTestNet (b ++ x) = .take m (r ++ x) := by
  unfold lookAt at h ⊢
  rw [List.take_append_of_le_length hlen, List.drop_append_of_le_length hlen]
  generalize CMessageHeader.ofBytes (b.take CMessageHeader.size) = hdr at h ⊢
  generalize b.drop CMessageHeader.size = body at h ⊢
  dsimp only at h ⊢
  split_ifs at h with hvalid hmore hsum
  · cases h
    rw [if_pos hvalid]
  · have hmore' : ¬ (body ++ x).length < hdr.nMessageSize.toNat := by
      rw [List.length_append]
      omega
    cases h
    rw [if_neg hvalid, if_neg hmore', List.take_append_of_le_length (Nat.not_lt.mp hmore),
      if_pos hsum]
  · have hmore' : ¬ (body ++ x).length < hdr.nMessageSize.toNat := by
      rw [List.length_append]
      omega
    cases h
    rw [if_neg hvalid, if_neg hmore', List.take_append_of_le_length (Nat.not_lt.mp hmore),
      if_neg hsum, List.drop_append_of_le_length (Nat.not_lt.mp hmore)]

theorem lookAt_wait (h : lookAt K fTestNet b = .wait k) : k = b := by
  unfold lookAt at h
  dsimp only at h
  split_ifs at h
  cases h
  rfl

theorem look_shrinks (h : look K fTestNet b = .take m r) : r.length < b.length := by
  obtain ⟨hlong, h⟩ := look_taken h
  have hlt := lookAt_shrinks (by rwa [List.length_drop]) h
  rw [List.length_drop] at hlt
  omega

/-- What is kept is not more than there was. -/
theorem look_wait_le (h : look K fTestNet b = .wait k) : k.length ≤ b.length := by
  rcases Nat.lt_or_ge (b.length - findStart (pchMessageStart fTestNet) b) CMessageHeader.size with
    hshort | hlong
  · rw [look_of_short hshort] at h
    cases h
    rw [List.length_drop]
    exact Nat.sub_le ..
  · rw [look_of_headed hlong] at h
    rw [lookAt_wait h, List.length_drop]
    exact Nat.sub_le ..

/-- A header is where it was when more has come. -/
theorem findStart_headed
    (h : CMessageHeader.size ≤ b.length - findStart (pchMessageStart fTestNet) b) :
    findStart (pchMessageStart fTestNet) (b ++ x) = findStart (pchMessageStart fTestNet) b := by
  refine findStart_append (pchMessageStart_ne_nil fTestNet) ?_
  rw [length_pchMessageStart]
  unfold CMessageHeader.size at h
  omega

theorem look_stable (x : Valtype) (h : look K fTestNet b = .take m r) :
    look K fTestNet (b ++ x) = .take m (r ++ x) := by
  obtain ⟨hlong, h⟩ := look_taken h
  have hstart := @findStart_headed fTestNet b x hlong
  rw [look_of_headed (by rw [hstart, List.length_append]; omega), hstart,
    List.drop_append_of_le_length findStart_le]
  exact lookAt_stable x (by rwa [List.length_drop]) h

theorem look_resumes (x : Valtype) (h : look K fTestNet b = .wait k) :
    look K fTestNet (b ++ x) = look K fTestNet (k ++ x) := by
  rcases Nat.lt_or_ge (b.length - findStart (pchMessageStart fTestNet) b) CMessageHeader.size with
    hshort | hlong
  · rw [look_of_short hshort] at h
    cases h
    rw [← List.drop_append_of_le_length (Nat.sub_le ..)]
    rcases Nat.le_total b.length CMessageHeader.size with hfew | hmany
    · rw [Nat.sub_eq_zero_of_le hfew, List.drop_zero]
    · refine (look_drop ?_ (by rw [List.length_append]; omega)).symm
      by_contra hearly
      -- a header that begins before would have been seen
      have hbegins : pchMessageStart fTestNet <+:
          b.drop (findStart (pchMessageStart fTestNet) (b ++ x)) := by
        refine begins_of_append (begins_findStart (by rw [List.length_append]; omega)) ?_
        rw [length_pchMessageStart]
        unfold CMessageHeader.size at hearly hmany
        omega
      have hseen := mt not_begins_of_lt (not_not.mpr hbegins)
      omega
  · have hstart := @findStart_headed fTestNet b x hlong
    rw [look_of_headed hlong] at h
    rw [lookAt_wait h, ← List.drop_append_of_le_length findStart_le]
    refine (look_drop hstart.ge ?_).symm
    rw [List.length_append]
    have hle := @findStart_le (pchMessageStart fTestNet) b
    omega

/-- **The messages are read as if everything had come at once.** -/
def messageScanner (K : Crypto) (fTestNet : Bool) : Scanner UInt8 Message where
  look := look K fTestNet
  shrinks := look_shrinks
  stable := look_stable
  resumes := look_resumes

theorem look_nil : look K fTestNet [] = .wait [] := look_of_short (by simp [CMessageHeader.size])

theorem all_nil : (messageScanner K fTestNet).all [] = ([], []) :=
  Scanner.all_wait (@look_nil K fTestNet)

/-! ## 6. The code's round -/

/-- What a round does to the bytes. -/
def MessageRound.view : MessageRound → Look UInt8 Message
  | .stop vRecv => .wait vRecv.data
  | .skip vRecv => .take none vRecv.data
  | .message m vRecv => .take (some m) vRecv.data

/-- Reading a header takes its bytes off. -/
theorem CMessageHeader.unserialize_of_le {s : CDataStream}
    (h : CMessageHeader.size ≤ s.data.length) :
    ∃ s', CMessageHeader.unserialize s =
        some (CMessageHeader.ofBytes (s.data.take CMessageHeader.size), s') ∧
      s'.data = s.data.drop CMessageHeader.size := by
  unfold CMessageHeader.size at h ⊢
  have hstart := @CDataStream.read_of_le s 4 (by omega)
  have hcommand := @CDataStream.read_of_le (s.eraseFront 4) 12 (by simp; omega)
  have hsize := @CDataStream.read_of_le ((s.eraseFront 4).eraseFront 12) 4 (by simp; omega)
  have hsum := @CDataStream.read_of_le (((s.eraseFront 4).eraseFront 12).eraseFront 4) 4 (by
    simp; omega)
  refine ⟨(((s.eraseFront 4).eraseFront 12).eraseFront 4).eraseFront 4, ?_, by simp⟩
  simp only [CMessageHeader.unserialize, CMessageHeader.commandSize, hstart, hcommand, hsize, hsum,
    Option.bind_eq_bind, Option.bind_some, Option.pure_def, CDataStream.data_eraseFront,
    List.drop_drop, CMessageHeader.ofBytes, List.take_take, List.drop_take]
  rfl

/-- **The code's round is the one on the bytes**: it never reads beyond them, and a header that was
taken off and put back has gone nowhere. -/
theorem nextMessage_view (K : Crypto) (fTestNet : Bool) (vRecv : CDataStream) :
    (nextMessage K fTestNet vRecv).view = look K fTestNet vRecv.data := by
  have hsize : vRecv.size = vRecv.data.length := CDataStream.length_data.symm
  unfold nextMessage
  simp only [hsize]
  rcases Nat.lt_or_ge (vRecv.data.length - findStart (pchMessageStart fTestNet) vRecv.data)
    CMessageHeader.size with hshort | hlong
  · rw [if_pos hshort, look_of_short hshort]
    split_ifs with hmany
    · simp [MessageRound.view]
    · rw [Nat.sub_eq_zero_of_le (Nat.not_lt.mp hmany)]
      rfl
  · rw [if_neg (Nat.not_lt.mpr hlong), look_of_headed hlong]
    generalize hat : vRecv.eraseFront (findStart (pchMessageStart fTestNet) vRecv.data) = vAt
    have hdata : vRecv.data.drop (findStart (pchMessageStart fTestNet) vRecv.data) = vAt.data := by
      rw [← hat, CDataStream.data_eraseFront]
    have hlen : CMessageHeader.size ≤ vAt.data.length := by
      rw [← hdata, List.length_drop]
      exact hlong
    obtain ⟨vBody, hread, hbody⟩ := CMessageHeader.unserialize_of_le hlen
    have hvalid : ∀ hdr : CMessageHeader, hdr.isValid fTestNet = true →
        ¬ maxSize < hdr.nMessageSize.toNat := by
      intro hdr hv
      simp only [CMessageHeader.isValid, Bool.and_eq_true, decide_eq_true_eq] at hv
      exact Nat.not_lt.mpr hv.2
    rw [hdata, hread]
    dsimp only
    unfold lookAt
    dsimp only
    rw [← hbody, ← CDataStream.length_data]
    generalize CMessageHeader.ofBytes (vAt.data.take CMessageHeader.size) = hdr
    cases hv : hdr.isValid fTestNet with
    | false => rfl
    | true =>
      simp only [Bool.not_true, Bool.false_eq_true, if_false, if_neg (hvalid hdr hv), reduceCtorEq]
      split_ifs with hmore hsum
      · simp only [MessageRound.view, CDataStream.data_insertFront, hbody, List.take_append_drop]
      · rfl
      · rw [CDataStream.ignore_of_le (Nat.not_lt.mp hmore)]
        simp [MessageRound.view]

/-! ## 7. What is sent -/

/-- A message as it arrives: of a command, twelve characters. -/
def Message.arriving (m : Message) : Message :=
  ⟨(nulTerminated m.strCommand).take CMessageHeader.commandSize, m.vMsg⟩

/-- A message that can be received: its command is text, and its payload is not too long. -/
structure Message.Sendable (m : Message) : Prop where
  command : ∀ c ∈ m.arriving.strCommand, 0x20 ≤ c ∧ c ≤ 0x7e
  payload : m.vMsg.length ≤ maxSize

theorem Message.sendable_iff (m : Message) :
    (∀ c ∈ m.arriving.strCommand, 0x20 ≤ c ∧ c ≤ 0x7e) ∧ m.vMsg.length ≤ maxSize ↔ m.Sendable :=
  ⟨fun h => ⟨h.1, h.2⟩, fun h => ⟨h.command, h.payload⟩⟩

instance instDecidableSendable (m : Message) : Decidable m.Sendable :=
  @decidable_of_iff _ _ m.sendable_iff
    (@instDecidableAnd _ _ (List.decidableBAll _ _) (Nat.decLe _ _))

namespace CMessageHeader

theorem length_command (fTestNet : Bool) (pszCommand : Valtype) (n : UInt32) :
    (CMessageHeader.new fTestNet pszCommand n).pchCommand.length = commandSize := by
  simp [CMessageHeader.new]

theorem serialize_eq (hdr : CMessageHeader) : hdr.serialize = hdr.pchMessageStart ++
    (hdr.pchCommand ++ (serUInt32 hdr.nMessageSize ++ serUInt32 hdr.nChecksum)) := by
  simp [serialize]

theorem leNat_serUInt32 (n : UInt32) : UInt32.ofNat (leNat (serUInt32 n)) = n := by
  rw [serUInt32, leNat_leBytes (by have := n.toNat_lt; omega), UInt32.ofNat_toNat]

variable {hdr : CMessageHeader}

/-- A header that was written is read. -/
theorem ofBytes_serialize (hstart : hdr.pchMessageStart.length = 4)
    (hcommand : hdr.pchCommand.length = commandSize) : ofBytes hdr.serialize = hdr := by
  obtain ⟨start, command, nMessageSize, nChecksum⟩ := hdr
  dsimp only at hstart hcommand
  unfold commandSize at hcommand
  have hfour : ∀ n : UInt32, (serUInt32 n).length = 4 := fun n => length_leBytes 4 _
  rw [serialize_eq]
  dsimp only
  have hcom : (start ++ (command ++ (serUInt32 nMessageSize ++ serUInt32 nChecksum))).drop 4 =
      command ++ (serUInt32 nMessageSize ++ serUInt32 nChecksum) := List.drop_left' hstart
  have hsize : (start ++ (command ++ (serUInt32 nMessageSize ++ serUInt32 nChecksum))).drop 16 =
      serUInt32 nMessageSize ++ serUInt32 nChecksum := by
    rw [show 16 = 4 + 12 from rfl, ← List.drop_drop, hcom, List.drop_left' hcommand]
  have hsum : (start ++ (command ++ (serUInt32 nMessageSize ++ serUInt32 nChecksum))).drop 20 =
      serUInt32 nChecksum := by
    rw [show 20 = 16 + 4 from rfl, ← List.drop_drop, hsize, List.drop_left' (hfour _)]
  simp only [ofBytes, hcom, hsize, hsum, List.take_left' hstart, commandSize,
    List.take_left' hcommand, List.take_left' (hfour _), leNat_serUInt32]
  rw [List.take_of_length_le (hfour _).le, leNat_serUInt32]

end CMessageHeader

/-- A message that is begun with a part of its payload, and taken back by `AbortMessage`. -/
def CDataStream.abortedMessage (fTestNet : Bool) (vSend : CDataStream) (m : Message) : CDataStream :=
  let nHeaderStart := vSend.size
  let vSend := vSend.write (CMessageHeader.new fTestNet m.strCommand 0).serialize
  let vSend := vSend.write m.vMsg
  vSend.resize nHeaderStart

/-- **What is pushed is a frame** behind what is there. -/
theorem CDataStream.data_pushMessage (vSend : CDataStream) (m : Message) :
    (vSend.pushMessage K fTestNet m).data = vSend.data ++ frame K fTestNet m := by
  have hfour : ∀ n : UInt32, (serUInt32 n).length = 4 := fun n => length_leBytes 4 _
  have hzero := CMessageHeader.serialize_eq (CMessageHeader.new fTestNet m.strCommand 0)
  have hcommand := CMessageHeader.length_command fTestNet m.strCommand 0
  have hstart : (CMessageHeader.new fTestNet m.strCommand 0).pchMessageStart.length = 4 :=
    length_pchMessageStart fTestNet
  generalize hnew : CMessageHeader.new fTestNet m.strCommand 0 = hdr at hzero hcommand hstart
  unfold CMessageHeader.commandSize at hcommand
  have hsize : ∀ s : CDataStream, s.size = s.data.length := fun s => CDataStream.length_data.symm
  have hlen : hdr.serialize.length = 24 := by
    rw [hzero]
    simp [hstart, hcommand, hfour]
  unfold CDataStream.pushMessage
  simp only [hnew, hsize, data_write, List.length_append, hlen, Nat.add_sub_cancel_left]
  -- the size is written over, and then the checksum
  generalize hwhole : (vSend.write hdr.serialize).write m.vMsg = whole
  have hbytes : whole.data = (vSend.data ++ hdr.pchMessageStart ++ hdr.pchCommand) ++
      serUInt32 hdr.nMessageSize ++ (serUInt32 hdr.nChecksum ++ m.vMsg) := by
    rw [← hwhole, data_write, data_write, hzero]
    simp only [List.append_assoc]
  have hsized := @data_copyAt _ (serUInt32 (UInt32.ofNat m.vMsg.length)) _ _ _ hbytes
    ((hfour _).trans (hfour _).symm)
  have hat : (vSend.data ++ hdr.pchMessageStart ++ hdr.pchCommand).length =
      vSend.data.length + 16 := by
    simp [hstart, hcommand]
  rw [hat] at hsized
  have hpayload : (whole.copyAt (vSend.data.length + 16)
      (serUInt32 (UInt32.ofNat m.vMsg.length))).data.drop (vSend.data.length + 24) = m.vMsg := by
    rw [hsized, ← List.append_assoc, List.drop_left']
    simp [hstart, hcommand, hfour]
  rw [hpayload]
  rw [← List.append_assoc] at hsized
  have hsummed := @data_copyAt _ (serUInt32 (checksumOf K m.vMsg)) _ _ _ hsized
    ((hfour _).trans (hfour _).symm)
  have hat' : (vSend.data ++ hdr.pchMessageStart ++ hdr.pchCommand ++
      serUInt32 (UInt32.ofNat m.vMsg.length)).length = vSend.data.length + 20 := by
    simp [hstart, hcommand, hfour]
  rw [hat'] at hsummed
  rw [hsummed]
  subst hnew
  simp only [frame, CMessageHeader.serialize, CMessageHeader.new, List.append_assoc]

/-- **A message that is taken back leaves nothing behind.** -/
theorem CDataStream.data_abortedMessage (vSend : CDataStream) (m : Message) :
    (vSend.abortedMessage fTestNet m).data = vSend.data := by
  have hsize : vSend.size = vSend.data.length := CDataStream.length_data.symm
  unfold CDataStream.abortedMessage
  simp only
  rw [data_resize_of_le]
  · simp [hsize]
  · rw [hsize, ← length_data, data_write, data_write, List.append_assoc, List.length_append]
    exact Nat.le_add_right _ _

/-! ## 8. What is sent arrives -/

theorem validCommand_append_zeros {c : Valtype} {n : Nat} (h : ∀ b ∈ c, 0x20 ≤ b ∧ b ≤ 0x7e) :
    CMessageHeader.validCommand (c ++ List.replicate n 0) = true := by
  induction c with
  | nil =>
    cases n with
    | zero => rfl
    | succ n => simp [CMessageHeader.validCommand, List.replicate_succ]
  | cons b c ih =>
    obtain ⟨hlow, hhigh⟩ := h b List.mem_cons_self
    have hne : b ≠ 0 := by
      rintro rfl
      exact absurd hlow (by decide)
    have hrange : ¬ (b < 0x20 ∨ 0x7e < b) := by
      rw [not_or, UInt8.not_lt, UInt8.not_lt]
      exact ⟨hlow, hhigh⟩
    rw [List.cons_append, CMessageHeader.validCommand, if_neg hne, if_neg hrange]
    exact ih fun b' hb => h b' (List.mem_cons_of_mem _ hb)

theorem nulTerminated_append_zero {c rest : Valtype} (h : ∀ b ∈ c, b ≠ 0) :
    nulTerminated (c ++ 0 :: rest) = c := by
  unfold nulTerminated
  rw [List.takeWhile_append_of_pos (by simpa using h)]
  simp

theorem nulTerminated_ne_zero {psz : Valtype} {b : UInt8} (h : b ∈ nulTerminated psz) : b ≠ 0 := by
  have hall := List.all_takeWhile (p := fun b : UInt8 => decide (b ≠ 0)) (l := psz)
  simpa using List.all_eq_true.mp hall b h

namespace Message

variable {m : Message}

theorem arriving_ne_zero {b : UInt8} (h : b ∈ m.arriving.strCommand) : b ≠ 0 :=
  nulTerminated_ne_zero (List.mem_of_mem_take h)

/-- The header of a frame. -/
def header (K : Crypto) (fTestNet : Bool) (m : Message) : CMessageHeader :=
  { CMessageHeader.new fTestNet m.strCommand (UInt32.ofNat m.vMsg.length) with
    nChecksum := checksumOf K m.vMsg }

theorem getCommand_header : (m.header K fTestNet).getCommand = m.arriving.strCommand := by
  have hlen : m.arriving.strCommand.length ≤ 12 := List.length_take_le _ _
  unfold CMessageHeader.getCommand CMessageHeader.commandSize
  rw [show (m.header K fTestNet).pchCommand = m.arriving.strCommand ++
    List.replicate (12 - m.arriving.strCommand.length) 0 from rfl]
  rcases Nat.lt_or_ge m.arriving.strCommand.length 12 with hshort | hfull
  · obtain ⟨k, hk⟩ : ∃ k, 12 - m.arriving.strCommand.length = k + 1 := ⟨_, (by omega :
      12 - m.arriving.strCommand.length = 12 - m.arriving.strCommand.length - 1 + 1)⟩
    have hlast : (m.arriving.strCommand ++
        List.replicate (12 - m.arriving.strCommand.length) 0).getD 11 0 = 0 := by
      rw [List.getD_append_right _ _ _ _ (by omega)]
      simp [List.getD]
    rw [if_pos hlast, hk, List.replicate_succ,
      nulTerminated_append_zero fun b hb => arriving_ne_zero hb]
  · have hfull : m.arriving.strCommand.length = 12 := by omega
    have hlast : m.arriving.strCommand.getD 11 0 ≠ 0 := by
      rw [List.getD_eq_getElem _ _ (by omega)]
      exact arriving_ne_zero (List.getElem_mem _)
    rw [hfull, Nat.sub_self, List.replicate_zero, List.append_nil]
    exact if_neg hlast

theorem isValid_header (h : m.Sendable) : (m.header K fTestNet).isValid fTestNet = true := by
  have hsize : (UInt32.ofNat m.vMsg.length).toNat = m.vMsg.length := by
    have hle := h.payload
    unfold maxSize at hle
    exact UInt32.toNat_ofNat_of_lt' (by rw [UInt32.size]; omega)
  simp only [CMessageHeader.isValid, Bool.and_eq_true, decide_eq_true_eq]
  refine ⟨⟨rfl, validCommand_append_zeros h.command⟩, ?_⟩
  rw [show (m.header K fTestNet).nMessageSize = UInt32.ofNat m.vMsg.length from rfl, hsize]
  exact h.payload

theorem length_header : (m.header K fTestNet).serialize.length = CMessageHeader.size := by
  have hcommand := CMessageHeader.length_command fTestNet m.strCommand
    (UInt32.ofNat m.vMsg.length)
  have hstart := length_pchMessageStart fTestNet
  rw [CMessageHeader.serialize_eq]
  simp only [List.length_append, serUInt32, length_leBytes]
  rw [show (m.header K fTestNet).pchMessageStart = pchMessageStart fTestNet from rfl, hstart,
    show (m.header K fTestNet).pchCommand.length = 12 from hcommand]
  rfl

/-- **A frame is taken off as the message it was made of.** -/
theorem look_frame (h : m.Sendable) (rest : Valtype) :
    look K fTestNet (frame K fTestNet m ++ rest) = .take (some m.arriving) rest := by
  have hframe : frame K fTestNet m ++ rest =
      (m.header K fTestNet).serialize ++ (m.vMsg ++ rest) := by
    rw [frame, List.append_assoc]
    rfl
  have hsize : (m.header K fTestNet).nMessageSize.toNat = m.vMsg.length := by
    have hle := h.payload
    unfold maxSize at hle
    exact UInt32.toNat_ofNat_of_lt' (by rw [UInt32.size]; omega)
  have hhere : findStart (pchMessageStart fTestNet) (frame K fTestNet m ++ rest) = 0 := by
    refine findStart_eq (pchMessageStart_ne_nil fTestNet) ?_ ?_
    · rw [List.drop_zero, hframe, CMessageHeader.serialize_eq, List.append_assoc]
      exact List.prefix_append _ _
    · intro j hj
      exact absurd hj (Nat.not_lt_zero j)
  rw [look_of_headed (by rw [hhere, hframe, List.length_append, length_header]; omega), hhere,
    List.drop_zero, hframe]
  unfold lookAt
  rw [List.take_left' length_header, List.drop_left' length_header,
    @CMessageHeader.ofBytes_serialize (m.header K fTestNet) (length_pchMessageStart fTestNet)
       (CMessageHeader.length_command fTestNet m.strCommand 0)]
  simp only [isValid_header h, hsize, List.take_left, List.drop_left, getCommand_header,
    reduceCtorEq, if_false]
  have hsum : checksumOf K m.vMsg = (m.header K fTestNet).nChecksum := rfl
  rw [if_neg (by rw [List.length_append]; omega), if_neg (not_not.mpr hsum)]
  rfl

/-- **The messages of a stream of frames are those they were made of**, and nothing is left over. -/
theorem all_frames {ms : List Message} (h : ∀ m ∈ ms, m.Sendable) :
    (messageScanner K fTestNet).all (ms.flatMap (frame K fTestNet)) =
      (ms.map arriving, []) := by
  induction ms with
  | nil => exact all_nil
  | cons m ms ih =>
    rw [List.flatMap_cons, Scanner.all_take (look_frame (h m List.mem_cons_self) _),
      ih fun m' hm => h m' (List.mem_cons_of_mem _ hm)]
    rfl

end Message

end Breakout
