/-
# Two nodes on a connection

A node has a buffer to send from and one to receive into.  The threads of a node push messages, hand
bytes to the socket and take some from it, in pieces of any size, and process what has come; each
does so under the lock of the buffer, so that a run is a sequence of these operations in any order.

Whatever bytes come, in whatever pieces, the messages that are handled are the first ones of the
stream (`handled_of_run`).  Between two nodes of this program the stream is what the other one has
pushed: the messages are handled in the order they were pushed in, each once, and none that was not
pushed; and all of them, when no bytes are left (`link_fifo`).

A message that is larger than the buffer is never handled (`handled_small`), although its header is
valid: the buffer that is to hold all of it is flooded before.
-/
import Breakout.WireMessage

namespace Breakout

open Lib

variable {σ : Type}

/-! ## 1. A node -/

/-- What a call of `ProcessMessage` does: to the node, the messages it pushes to this peer, whether
it closes the connection, and whether the node shuts down. -/
structure Reply (σ : Type) where
  rest : σ
  pushed : List Message
  closes : Bool
  fShutdown : Bool

/-- `SendBufferSize`, `ReceiveBufferSize` and `ProcessMessage`. -/
structure NetEnv (σ : Type) where
  sendBufferSize : Nat
  receiveBufferSize : Nat
  handle : σ → Message → Reply σ

/-- `CNode`, and the state of the node.  `pushed`, `heard` and `handled` are the history of the
connection: the messages that were pushed, the bytes that were received and the messages that
`ProcessMessage` was called with. -/
structure CNode (σ : Type) where
  vSend : CDataStream
  vRecv : CDataStream
  hSocket : Bool
  fShutdown : Bool
  rest : σ
  pushed : List Message
  heard : Valtype
  handled : List Message

/-- What fits into `pchBuf`. -/
abbrev PchBuf := { pch : Valtype // pch.length ≤ 0x10000 }

theorem length_piece (b : Valtype) (nBytes : Nat) :
    (b.take (min nBytes 0x10000)).length ≤ 0x10000 :=
  (List.length_take_le _ _).trans (Nat.min_le_right _ _)

/-- What `recv` takes. -/
def piece (b : Valtype) (nBytes : Nat) : PchBuf :=
  ⟨b.take (min nBytes 0x10000), length_piece b nBytes⟩

namespace CNode

/-- A new connection. -/
def new (rest : σ) : CNode σ := ⟨.empty, .empty, true, false, rest, [], [], []⟩

def closeSocketDisconnect (node : CNode σ) : CNode σ :=
  if node.hSocket then { node with hSocket := false, vRecv := .empty } else node

variable (K : Crypto) (fTestNet : Bool) (env : NetEnv σ)

def pushMessage (node : CNode σ) (m : Message) : CNode σ :=
  { node with
    vSend := node.vSend.pushMessage K fTestNet m
    pushed := node.pushed ++ [m] }

/-- A message is begun, and `AbortMessage` takes it back. -/
def abortMessage (node : CNode σ) (m : Message) : CNode σ :=
  { node with vSend := node.vSend.abortedMessage fTestNet m }

/-- The call of `ProcessMessage`. -/
def processMessage (node : CNode σ) (m : Message) : CNode σ :=
  let reply := env.handle node.rest m
  let node := reply.pushed.foldl (pushMessage K fTestNet)
    { node with
      rest := reply.rest
      fShutdown := node.fShutdown || reply.fShutdown
      handled := node.handled ++ [m] }
  if reply.closes then node.closeSocketDisconnect else node

/-- The loop of `ProcessMessages`.  The buffer is compacted when the loop is left with `break`. -/
def processLoop : Nat → CNode σ → CNode σ
  | 0, node => node
  | fuel + 1, node =>
    -- don't bother if send buffer is too full to respond anyway
    if env.sendBufferSize ≤ node.vSend.size then { node with vRecv := node.vRecv.compact }
    else
      match nextMessage K fTestNet node.vRecv with
      | .stop vRecv => { node with vRecv := vRecv.compact }
      | .skip vRecv => processLoop fuel { node with vRecv := vRecv }
      | .message m vRecv =>
        let node := processMessage K fTestNet env { node with vRecv := vRecv } m
        if node.fShutdown then node else processLoop fuel node

/-- `ProcessMessages`: each round takes something off the buffer. -/
def processMessages (node : CNode σ) : CNode σ :=
  if node.vRecv.size = 0 then node else processLoop K fTestNet env (node.vRecv.size + 1) node

/-- The socket handler, with the bytes that `recv` has put into `pchBuf`. -/
def receive (node : CNode σ) (pchBuf : PchBuf) : CNode σ :=
  if node.hSocket = false then node
  else
    let nPos := node.vRecv.size
    -- socket recv flood control disconnect
    if env.receiveBufferSize < nPos then node.closeSocketDisconnect
    else
      { node with
        vRecv := (node.vRecv.resize (nPos + pchBuf.val.length)).copyAt nPos pchBuf.val
        heard := node.heard ++ pchBuf.val }

/-- The socket handler, when `send` has taken so many bytes. -/
def sent (node : CNode σ) (nBytes : Nat) : CNode σ :=
  { node with vSend := node.vSend.eraseFront nBytes }

end CNode

/-- What the threads of a node do to a connection. -/
inductive NodeOp where
  | push (m : Message)
  | abort (m : Message)
  | sent (nBytes : Nat)
  | receive (pchBuf : PchBuf)
  | process
  | close

section

variable (K : Crypto) (fTestNet : Bool) (env : NetEnv σ)

/-- One of these. -/
def CNode.step (node : CNode σ) : NodeOp → CNode σ
  | .push m => node.pushMessage K fTestNet m
  | .abort m => node.abortMessage fTestNet m
  | .sent nBytes => node.sent nBytes
  | .receive pchBuf => node.receive env pchBuf
  | .process => node.processMessages K fTestNet env
  | .close => node.closeSocketDisconnect

/-- The node after some of them. -/
def CNode.run (rest : σ) (ops : List NodeOp) : CNode σ :=
  ops.foldl (CNode.step K fTestNet env) (.new rest)

/-- The messages of a stream of bytes. -/
def messagesOf (stream : Valtype) : List Message := ((messageScanner K fTestNet).all stream).1

end

/-! ## 2. What a node hears -/

namespace CNode

variable {K : Crypto} {fTestNet : Bool} {env : NetEnv σ} {node node' : CNode σ} {m : Message}

/-- The node follows the bytes it has received: what it has handled are their first messages, and as
long as the connection is open the others are still in its buffer. -/
structure Hears (K : Crypto) (fTestNet : Bool) (node : CNode σ) : Prop where
  handled : node.handled <+: messagesOf K fTestNet node.heard
  isOpen : node.hSocket = true →
    (messageScanner K fTestNet).Follows node.heard ⟨node.handled, node.vRecv.data⟩
  closed : node.hSocket = false → node.vRecv.data = []

/-- The one node comes from the other by pushing messages, as far as sending goes. -/
def Pushes (K : Crypto) (fTestNet : Bool) (node node' : CNode σ) : Prop :=
  ∃ ms, node'.pushed = node.pushed ++ ms ∧
    node'.vSend.data = node.vSend.data ++ ms.flatMap (frame K fTestNet)

theorem Pushes.refl_of (hpushed : node'.pushed = node.pushed) (hsend : node'.vSend = node.vSend) :
    Pushes K fTestNet node node' := ⟨[], by simp [hpushed], by simp [hsend]⟩

theorem Pushes.trans {node'' : CNode σ} (h : Pushes K fTestNet node node')
    (h' : Pushes K fTestNet node' node'') : Pushes K fTestNet node node'' := by
  obtain ⟨ms, hpushed, hsend⟩ := h
  obtain ⟨ms', hpushed', hsend'⟩ := h'
  exact ⟨ms ++ ms', by simp [hpushed', hpushed], by simp [hsend', hsend]⟩

theorem pushes_pushMessage : Pushes K fTestNet node (node.pushMessage K fTestNet m) :=
  ⟨[m], rfl, by simp [pushMessage, CDataStream.data_pushMessage]⟩

/-- Pushing some messages changes nothing else. -/
theorem foldl_pushMessage (ms : List Message) (node : CNode σ) :
    Pushes K fTestNet node (ms.foldl (pushMessage K fTestNet) node) ∧
      ms.foldl (pushMessage K fTestNet) node =
        { node with
          vSend := (ms.foldl (pushMessage K fTestNet) node).vSend
          pushed := (ms.foldl (pushMessage K fTestNet) node).pushed } := by
  induction ms generalizing node with
  | nil => exact ⟨.refl_of rfl rfl, rfl⟩
  | cons m ms ih =>
    obtain ⟨hpushes, heq⟩ := ih (node.pushMessage K fTestNet m)
    exact ⟨pushes_pushMessage.trans hpushes, heq⟩

/-- What a call of `ProcessMessage` does to the connection. -/
theorem processMessage_spec (node : CNode σ) (m : Message) :
    Pushes K fTestNet node (node.processMessage K fTestNet env m) ∧
      (node.processMessage K fTestNet env m).heard = node.heard ∧
      (node.processMessage K fTestNet env m).handled = node.handled ++ [m] ∧
      ((node.processMessage K fTestNet env m).vRecv = node.vRecv ∧
          (node.processMessage K fTestNet env m).hSocket = node.hSocket ∨
        (node.processMessage K fTestNet env m).hSocket = false ∧
          (node.hSocket = true → (node.processMessage K fTestNet env m).vRecv = .empty) ∧
          (node.hSocket = false → (node.processMessage K fTestNet env m).vRecv = node.vRecv)) := by
  unfold processMessage
  obtain ⟨hpushes, heq⟩ := @foldl_pushMessage σ K fTestNet (env.handle node.rest m).pushed
    { node with
      rest := (env.handle node.rest m).rest
      fShutdown := node.fShutdown || (env.handle node.rest m).fShutdown
      handled := node.handled ++ [m] }
  dsimp only at heq ⊢
  generalize (env.handle node.rest m).pushed.foldl (pushMessage K fTestNet) _ = told
    at hpushes heq ⊢
  have hheard : told.heard = node.heard := by rw [heq]
  have hhandled : told.handled = node.handled ++ [m] := by rw [heq]
  have hrecv : told.vRecv = node.vRecv := by rw [heq]
  have hsocket : told.hSocket = node.hSocket := by rw [heq]
  split_ifs with hcloses
  · unfold closeSocketDisconnect
    split_ifs with hopen
    · rw [hsocket] at hopen
      exact ⟨hpushes, hheard, hhandled, .inr ⟨rfl, fun _ => rfl, fun h => by simp [hopen] at h⟩⟩
    · exact ⟨hpushes, hheard, hhandled, .inl ⟨hrecv, hsocket⟩⟩
  · exact ⟨hpushes, hheard, hhandled, .inl ⟨hrecv, hsocket⟩⟩

/-- What is handled, as long as the connection is open. -/
theorem hears_of_open (hopen : node.hSocket = true)
    (h : (messageScanner K fTestNet).Follows node.heard ⟨node.handled, node.vRecv.data⟩) :
    Hears K fTestNet node :=
  ⟨h.taken_le, fun _ => h, fun hclosed => by simp [hopen] at hclosed⟩

/-- A closed connection has nothing to process. -/
theorem Hears.stops (h : Hears K fTestNet node) (hclosed : node.hSocket = false) :
    look K fTestNet node.vRecv.data = .wait [] := by
  rw [h.closed hclosed, look_nil]

variable {vRecv : CDataStream}

/-- A message that is taken off the buffer is handled. -/
theorem Hears.message (h : Hears K fTestNet node)
    (hlook : look K fTestNet node.vRecv.data = .take (some m) vRecv.data) :
    Hears K fTestNet (processMessage K fTestNet env { node with vRecv := vRecv } m) := by
  obtain ⟨-, hheard, hhandled, hafter⟩ :=
    @processMessage_spec σ K fTestNet env { node with vRecv := vRecv } m
  rcases Bool.eq_false_or_eq_true node.hSocket with hopen | hclosed
  · have hfollows := (h.isOpen hopen).take hlook
    rcases hafter with ⟨hrecv, hsocket⟩ | ⟨hsocket, hrecv, -⟩
    · refine hears_of_open (hsocket.trans hopen) ?_
      rw [hheard, hhandled, hrecv]
      exact hfollows
    · refine ⟨?_, fun hno => by simp [hsocket] at hno, fun _ => by rw [hrecv hopen]; rfl⟩
      rw [hheard, hhandled]
      exact hfollows.taken_le
  · rw [h.stops hclosed] at hlook
    cases hlook

theorem Hears.skip (h : Hears K fTestNet node)
    (hlook : look K fTestNet node.vRecv.data = .take none vRecv.data) :
    Hears K fTestNet { node with vRecv := vRecv } := by
  rcases Bool.eq_false_or_eq_true node.hSocket with hopen | hclosed
  · have hfollows := (h.isOpen hopen).take hlook
    rw [Option.toList_none, List.append_nil] at hfollows
    exact hears_of_open hopen hfollows
  · rw [h.stops hclosed] at hlook
    cases hlook

theorem Hears.stop (h : Hears K fTestNet node)
    (hlook : look K fTestNet node.vRecv.data = .wait vRecv.data) :
    Hears K fTestNet { node with vRecv := vRecv } := by
  rcases Bool.eq_false_or_eq_true node.hSocket with hopen | hclosed
  · exact hears_of_open hopen ((h.isOpen hopen).wait hlook)
  · rw [h.stops hclosed] at hlook
    refine ⟨h.handled, fun hno => by simp [hclosed] at hno, fun _ => ?_⟩
    exact (Look.wait.inj hlook).symm

/-- The buffer is compacted. -/
theorem Hears.congr (h : Hears K fTestNet node) (hdata : vRecv.data = node.vRecv.data) :
    Hears K fTestNet { node with vRecv := vRecv } where
  handled := h.handled
  isOpen hopen := by
    have hfollows := h.isOpen hopen
    rwa [← hdata] at hfollows
  closed hclosed := hdata.trans (h.closed hclosed)

/-- **Processing keeps it**, and does no more than push messages. -/
theorem processLoop_spec (fuel : Nat) (node : CNode σ) :
    Pushes K fTestNet node (processLoop K fTestNet env fuel node) ∧
      (processLoop K fTestNet env fuel node).heard = node.heard ∧
      (Hears K fTestNet node → Hears K fTestNet (processLoop K fTestNet env fuel node)) := by
  induction fuel generalizing node with
  | zero => exact ⟨.refl_of rfl rfl, rfl, id⟩
  | succ fuel ih =>
    have hview := nextMessage_view K fTestNet node.vRecv
    rw [processLoop]
    split_ifs with hfull
    · exact ⟨.refl_of rfl rfl, rfl, fun h => h.congr rfl⟩
    · cases hround : nextMessage K fTestNet node.vRecv with
      | stop vRecv =>
        rw [hround] at hview
        exact ⟨.refl_of rfl rfl, rfl, fun h => (h.stop hview.symm).congr rfl⟩
      | skip vRecv =>
        rw [hround] at hview
        obtain ⟨hpushes, hheard, hkeeps⟩ := ih { node with vRecv := vRecv }
        exact ⟨hpushes, hheard, fun h => hkeeps (h.skip hview.symm)⟩
      | message m vRecv =>
        rw [hround] at hview
        obtain ⟨hpushes, hheard, -, -⟩ :=
          @processMessage_spec σ K fTestNet env { node with vRecv := vRecv } m
        have hmessage : Hears K fTestNet node →
            Hears K fTestNet (processMessage K fTestNet env { node with vRecv := vRecv } m) :=
          fun h => h.message hview.symm
        dsimp only at hpushes hheard ⊢
        generalize processMessage K fTestNet env _ m = told at hpushes hheard hmessage ⊢
        split_ifs with hshutdown
        · exact ⟨hpushes, hheard, hmessage⟩
        · obtain ⟨hpushes', hheard', hkeeps⟩ := ih told
          exact ⟨hpushes.trans hpushes', hheard'.trans hheard, fun h => hkeeps (hmessage h)⟩

theorem processMessages_spec (node : CNode σ) :
    Pushes K fTestNet node (node.processMessages K fTestNet env) ∧
      (node.processMessages K fTestNet env).heard = node.heard ∧
      (Hears K fTestNet node → Hears K fTestNet (node.processMessages K fTestNet env)) := by
  unfold processMessages
  split_ifs with hempty
  · exact ⟨.refl_of rfl rfl, rfl, id⟩
  · exact processLoop_spec _ node

theorem Hears.close (h : Hears K fTestNet node) : Hears K fTestNet node.closeSocketDisconnect := by
  unfold closeSocketDisconnect
  split_ifs with hopen
  · exact ⟨h.handled, fun hno => by simp at hno, fun _ => rfl⟩
  · exact h

theorem Hears.receive (h : Hears K fTestNet node) (pchBuf : PchBuf) :
    Hears K fTestNet (node.receive env pchBuf) := by
  unfold CNode.receive
  split_ifs with hclosed
  · exact h
  · rw [Bool.not_eq_false] at hclosed
    dsimp only
    split_ifs with hflood
    · exact h.close
    · refine hears_of_open hclosed ?_
      dsimp only
      rw [CDataStream.data_receive]
      exact (h.isOpen hclosed).receive pchBuf.val

/-- **Every operation keeps it.** -/
theorem Hears.step (h : Hears K fTestNet node) (op : NodeOp) :
    Hears K fTestNet (node.step K fTestNet env op) := by
  cases op with
  | push m => exact ⟨h.handled, h.isOpen, h.closed⟩
  | abort m => exact ⟨h.handled, h.isOpen, h.closed⟩
  | sent nBytes => exact ⟨h.handled, h.isOpen, h.closed⟩
  | receive pchBuf => exact h.receive pchBuf
  | process => exact (processMessages_spec node).2.2 h
  | close => exact h.close

theorem hears_new (rest : σ) : Hears K fTestNet (.new rest : CNode σ) :=
  hears_of_open rfl Scanner.follows_start

theorem hears_run (rest : σ) (ops : List NodeOp) :
    Hears K fTestNet (CNode.run K fTestNet env rest ops) := by
  induction ops using List.reverseRecOn with
  | nil => exact hears_new rest
  | append_singleton ops op ih =>
    unfold CNode.run at ih ⊢
    rw [List.foldl_append]
    exact ih.step op

/-! ## 3. When all is handled -/

/-- Processing ends with a full send buffer, with a shutdown, or when no message is left. -/
theorem processLoop_ends (fuel : Nat) (node : CNode σ) (hfuel : node.vRecv.data.length < fuel) :
    env.sendBufferSize ≤ (processLoop K fTestNet env fuel node).vSend.size ∨
      (processLoop K fTestNet env fuel node).fShutdown = true ∨
      ((messageScanner K fTestNet).all
        (processLoop K fTestNet env fuel node).vRecv.data).1 = [] := by
  induction fuel generalizing node with
  | zero => exact absurd hfuel (Nat.not_lt_zero _)
  | succ fuel ih =>
    have hview := nextMessage_view K fTestNet node.vRecv
    rw [processLoop]
    split_ifs with hfull
    · exact .inl hfull
    · cases hround : nextMessage K fTestNet node.vRecv with
      | stop vRecv =>
        rw [hround] at hview
        have hkept : (messageScanner K fTestNet).all vRecv.data = ([], vRecv.data) :=
          Scanner.all_kept hview.symm
        refine .inr (.inr ?_)
        dsimp only
        rw [CDataStream.data_compact, hkept]
      | skip vRecv =>
        rw [hround] at hview
        have hlt := look_shrinks hview.symm
        exact ih { node with vRecv := vRecv } (by dsimp only; omega)
      | message m vRecv =>
        rw [hround] at hview
        have hlt := look_shrinks hview.symm
        obtain ⟨-, -, -, hafter⟩ :=
          @processMessage_spec σ K fTestNet env { node with vRecv := vRecv } m
        dsimp only at hafter ⊢
        generalize processMessage K fTestNet env _ m = told at hafter ⊢
        have hless : told.vRecv.data.length < fuel := by
          rcases hafter with ⟨hrecv, -⟩ | ⟨-, hopen, hclosed⟩
          · rw [hrecv]
            omega
          · rcases Bool.eq_false_or_eq_true node.hSocket with h | h
            · rw [hopen h, CDataStream.data_empty, List.length_nil]
              omega
            · rw [hclosed h]
              omega
        split_ifs with hshutdown
        · exact .inr (.inl hshutdown)
        · exact ih told hless

theorem processMessages_ends (node : CNode σ) :
    env.sendBufferSize ≤ (node.processMessages K fTestNet env).vSend.size ∨
      (node.processMessages K fTestNet env).fShutdown = true ∨
      ((messageScanner K fTestNet).all
        (node.processMessages K fTestNet env).vRecv.data).1 = [] := by
  unfold processMessages
  split_ifs with hempty
  · have hnil : node.vRecv.data = [] := by
      rw [← List.length_eq_zero_iff, CDataStream.length_data, hempty]
    refine .inr (.inr ?_)
    rw [hnil, all_nil]
  · exact processLoop_ends _ node (by rw [CDataStream.length_data]; omega)

/-- **Whatever comes, in whatever pieces**: in every state of a run the messages that were handled
are the first ones of the bytes that were received, read as one stream; and when the messages are
processed they are all of them, unless the connection is closed, the send buffer is full or the node
shuts down. -/
theorem handled_of_run (rest : σ) (ops : List NodeOp) :
    let node := CNode.run K fTestNet env rest ops
    node.handled <+: messagesOf K fTestNet node.heard ∧
      ∀ node', node' = node.processMessages K fTestNet env → node'.hSocket = true →
        node'.vSend.size < env.sendBufferSize → node'.fShutdown = false →
          node'.handled = messagesOf K fTestNet node.heard := by
  intro node
  have hears : Hears K fTestNet node := hears_run rest ops
  refine ⟨hears.handled, ?_⟩
  rintro node' rfl hopen hroom hruns
  obtain ⟨-, hheard, hkeeps⟩ := @processMessages_spec σ K fTestNet env node
  have hfollows := (hkeeps hears).isOpen hopen
  rw [hheard] at hfollows
  rcases @processMessages_ends σ K fTestNet env node with
    hfull | hshutdown | hnone
  · omega
  · rw [hshutdown] at hruns
    cases hruns
  · rw [messagesOf, hfollows]
    dsimp only
    rw [hnone, List.append_nil]

/-- "ping", with a nonce. -/
def samplePing : Message := ⟨"ping".toUTF8.toList, [1, 2, 3, 4, 5, 6, 7, 8]⟩

/-- A node that answers every "ping" with a "pong". -/
def sampleNet : NetEnv Unit where
  sendBufferSize := 1000
  receiveBufferSize := 5000
  handle _ m :=
    { rest := ()
      pushed := if m.strCommand = "ping".toUTF8.toList then [⟨"pong".toUTF8.toList, m.vMsg⟩] else []
      closes := false
      fShutdown := false }

/-- Three bytes that are none of a message, and a message, in two pieces. -/
def samplePieces : List NodeOp :=
  [.receive (piece ([1, 2, 3] ++ frame (Crypto.sample []) false samplePing) 20), .process,
    .receive (piece ((frame (Crypto.sample []) false samplePing).drop 17) 100)]

theorem handled_of_run_pieces :
    ((CNode.run (Crypto.sample []) false sampleNet () samplePieces).processMessages
      (Crypto.sample []) false sampleNet).handled = [samplePing] :=
  ((handled_of_run () samplePieces).2 _ rfl (by decide +kernel) (by decide +kernel)
    (by decide +kernel)).trans (by decide +kernel)

/-! ## 4. What is too large -/

/-- The buffer is not larger than the limit and one more piece, and no more than that was ever
handled at once. -/
structure Fits (env : NetEnv σ) (node : CNode σ) : Prop where
  vRecv : node.vRecv.data.length ≤ env.receiveBufferSize + 0x10000
  handled : ∀ m ∈ node.handled,
    CMessageHeader.size + m.vMsg.length ≤ env.receiveBufferSize + 0x10000

/-- A message that is taken off was in the buffer with its header. -/
theorem look_message {b r : Valtype} (h : look K fTestNet b = .take (some m) r) :
    CMessageHeader.size + m.vMsg.length + r.length ≤ b.length := by
  obtain ⟨hlong, h⟩ := look_taken h
  unfold lookAt at h
  dsimp only at h
  split_ifs at h with hvalid hmore hsum
  · cases h
  · cases h
  · cases h
    simp only [List.length_take, List.length_drop, CMessageHeader.size] at hmore hlong ⊢
    omega

theorem Fits.smaller (h : Fits env node) (hle : vRecv.data.length ≤ node.vRecv.data.length) :
    Fits env { node with vRecv := vRecv } :=
  ⟨hle.trans h.vRecv, h.handled⟩

theorem Fits.close (h : Fits env node) : Fits env node.closeSocketDisconnect := by
  unfold closeSocketDisconnect
  split_ifs with hopen
  · exact ⟨Nat.zero_le _, h.handled⟩
  · exact h

theorem Fits.message (h : Fits env node)
    (hlook : look K fTestNet node.vRecv.data = .take (some m) vRecv.data) :
    Fits env (processMessage K fTestNet env { node with vRecv := vRecv } m) := by
  have hall := look_message hlook
  have hbuffer := h.vRecv
  obtain ⟨-, -, hhandled, hafter⟩ :=
    @processMessage_spec σ K fTestNet env { node with vRecv := vRecv } m
  constructor
  · rcases hafter with ⟨hrecv, -⟩ | ⟨-, hopen, hclosed⟩
    · rw [hrecv]
      dsimp only
      omega
    · rcases Bool.eq_false_or_eq_true node.hSocket with h | h
      · rw [hopen h]
        exact Nat.zero_le _
      · rw [hclosed h]
        dsimp only
        omega
  · intro m' hm'
    rw [hhandled, List.mem_append, List.mem_singleton] at hm'
    rcases hm' with hold | rfl
    · exact h.handled m' hold
    · omega

theorem Fits.processLoop (fuel : Nat) (h : Fits env node) :
    Fits env (CNode.processLoop K fTestNet env fuel node) := by
  induction fuel generalizing node with
  | zero => exact h
  | succ fuel ih =>
    have hview := nextMessage_view K fTestNet node.vRecv
    rw [CNode.processLoop]
    split_ifs with hfull
    · exact h.smaller (Nat.le_refl _)
    · cases hround : nextMessage K fTestNet node.vRecv with
      | stop vRecv =>
        rw [hround] at hview
        refine h.smaller ?_
        rw [CDataStream.data_compact]
        exact look_wait_le hview.symm
      | skip vRecv =>
        rw [hround] at hview
        exact ih (h.smaller (look_shrinks hview.symm).le)
      | message m vRecv =>
        rw [hround] at hview
        have hmessage := Fits.message (K := K) h hview.symm
        dsimp only
        split_ifs with hshutdown
        · exact hmessage
        · exact ih hmessage

theorem Fits.step (h : Fits env node) (op : NodeOp) : Fits env (node.step K fTestNet env op) := by
  cases op with
  | push m => exact ⟨h.vRecv, h.handled⟩
  | abort m => exact ⟨h.vRecv, h.handled⟩
  | sent nBytes => exact ⟨h.vRecv, h.handled⟩
  | close => exact h.close
  | process =>
    show Fits env (node.processMessages K fTestNet env)
    unfold processMessages
    split_ifs with hempty
    · exact h
    · exact h.processLoop _
  | receive pchBuf =>
    show Fits env (node.receive env pchBuf)
    unfold CNode.receive
    split_ifs with hclosed
    · exact h
    · dsimp only
      split_ifs with hflood
      · exact h.close
      · refine ⟨?_, h.handled⟩
        have hpiece := pchBuf.property
        rw [← CDataStream.length_data] at hflood
        dsimp only
        rw [CDataStream.data_receive, List.length_append]
        omega

/-- **A message that does not fit into the buffer is never handled**, whatever its header says and
however it comes: in every state of a run the messages that were handled are, with their headers, no
longer than `ReceiveBufferSize` and one piece. -/
theorem handled_small (rest : σ) (ops : List NodeOp) :
    ∀ m ∈ (CNode.run K fTestNet env rest ops).handled,
      CMessageHeader.size + m.vMsg.length ≤ env.receiveBufferSize + 0x10000 := by
  have hfits : Fits env (CNode.run K fTestNet env rest ops) := by
    induction ops using List.reverseRecOn with
    | nil => exact ⟨Nat.zero_le _, fun m hm => absurd hm List.not_mem_nil⟩
    | append_singleton ops op ih =>
      unfold CNode.run at ih ⊢
      rw [List.foldl_append]
      exact ih.step op
  exact hfits.handled

theorem handled_small_ping :
    CMessageHeader.size + samplePing.vMsg.length ≤ sampleNet.receiveBufferSize + 0x10000 :=
  @handled_small Unit (Crypto.sample []) false sampleNet () (samplePieces ++ [.process]) samplePing
    (by decide +kernel)

end CNode

/-! ## 5. A connection -/

/-- Two nodes, and what each of them has sent and the other has not received. -/
structure Link (σ : Type) where
  node : Bool → CNode σ
  wire : Bool → Valtype

/-- What happens on a connection. -/
inductive LinkOp where
  | push (side : Bool) (m : Message)
  | abort (side : Bool) (m : Message)
  | send (side : Bool) (nBytes : Nat)
  | recv (side : Bool) (nBytes : Nat)
  | process (side : Bool)
  | close (side : Bool)

namespace Link

section

variable (K : Crypto) (fTestNet : Bool) (env : Bool → NetEnv σ)

/-- One of the nodes does something. -/
def act (link : Link σ) (side : Bool) (op : NodeOp) : Link σ :=
  { link with
    node := Function.update link.node side ((link.node side).step K fTestNet (env side) op) }

/-- One of these. -/
def step (link : Link σ) : LinkOp → Link σ
  | .push side m => link.act K fTestNet env side (.push m)
  | .abort side m => link.act K fTestNet env side (.abort m)
  | .process side => link.act K fTestNet env side .process
  | .close side => link.act K fTestNet env side .close
  | .send side nBytes =>
    let vSend := (link.node side).vSend
    if (link.node side).hSocket = true ∧ nBytes ≤ vSend.size then
      { link.act K fTestNet env side (.sent nBytes) with
        wire := Function.update link.wire side (link.wire side ++ vSend.data.take nBytes) }
    else link
  | .recv side nBytes =>
    let pchBuf := piece (link.wire !side) nBytes
    if (link.node side).hSocket = true ∧
        (link.node side).vRecv.size ≤ (env side).receiveBufferSize then
      { link.act K fTestNet env side (.receive pchBuf) with
        wire := Function.update link.wire (!side) ((link.wire !side).drop pchBuf.val.length) }
    else link.act K fTestNet env side (.receive pchBuf)

/-- A connection after some of them. -/
def run (rest : Bool → σ) (ops : List LinkOp) : Link σ :=
  ops.foldl (step K fTestNet env) ⟨fun side => .new (rest side), fun _ => []⟩

end

variable {K : Crypto} {fTestNet : Bool} {env : Bool → NetEnv σ} {link : Link σ} {side : Bool}

/-- No byte is lost, changed or out of order: what the one has received, what is on its way and what
the other has not sent yet are the frames of what the other has pushed. -/
structure Ok (K : Crypto) (fTestNet : Bool) (link : Link σ) : Prop where
  carried : ∀ side, (link.node !side).heard ++ (link.wire side ++ (link.node side).vSend.data) =
    (link.node side).pushed.flatMap (frame K fTestNet)
  hears : ∀ side, CNode.Hears K fTestNet (link.node side)

/-- Which of the two directions it is. -/
theorem side_cases (side t : Bool) : t = side ∨ t = !side := by
  cases side <;> cases t <;> simp

theorem not_ne (side : Bool) : (!side) ≠ side := by simp

@[simp] theorem act_wire (op : NodeOp) : (link.act K fTestNet env side op).wire = link.wire := rfl

@[simp] theorem act_node_self (op : NodeOp) : (link.act K fTestNet env side op).node side =
    (link.node side).step K fTestNet (env side) op := Function.update_self ..

@[simp] theorem act_node_not (op : NodeOp) :
    (link.act K fTestNet env side op).node (!side) = link.node !side :=
  Function.update_of_ne (not_ne side) ..

theorem hears_act (h : Ok K fTestNet link) (side : Bool) (op : NodeOp) (t : Bool) :
    CNode.Hears K fTestNet ((link.act K fTestNet env side op).node t) := by
  rcases side_cases side t with rfl | rfl
  · rw [act_node_self]
    exact (h.hears t).step op
  · rw [act_node_not]
    exact h.hears _

/-- A node that does not use the socket. -/
theorem Ok.act (h : Ok K fTestNet link) {op : NodeOp}
    (hpushes : CNode.Pushes K fTestNet (link.node side)
      ((link.node side).step K fTestNet (env side) op))
    (hheard : ((link.node side).step K fTestNet (env side) op).heard = (link.node side).heard) :
    Ok K fTestNet (link.act K fTestNet env side op) := by
  refine ⟨fun t => ?_, hears_act h side op⟩
  obtain ⟨ms, hpushed, hsend⟩ := hpushes
  have hcarried := h.carried t
  rcases side_cases side t with rfl | rfl
  · rw [act_node_self, act_node_not, act_wire, hpushed, hsend, List.flatMap_append, ← hcarried]
    simp
  · rw [Bool.not_not] at hcarried ⊢
    rw [act_node_self, act_node_not, act_wire, hheard, hcarried]

theorem Ok.send (h : Ok K fTestNet link) (side : Bool) (nBytes : Nat) :
    Ok K fTestNet (link.step K fTestNet env (.send side nBytes)) := by
  unfold Link.step
  dsimp only
  split_ifs with hsends
  · refine ⟨fun t => ?_, hears_act h side _⟩
    have hcarried := h.carried t
    dsimp only
    rcases side_cases side t with rfl | rfl
    · rw [act_node_self, act_node_not, Function.update_self]
      simp only [CNode.step, CNode.sent, CDataStream.data_eraseFront]
      rw [← hcarried, List.append_assoc (link.wire t), List.take_append_drop]
    · rw [Bool.not_not] at hcarried ⊢
      rw [act_node_self, act_node_not, Function.update_of_ne (not_ne side)]
      exact hcarried
  · exact h

variable {e : NetEnv σ}

/-- A connection that is closed, or flooded, hears nothing more. -/
theorem receive_of_not {node : CNode σ} (pchBuf : PchBuf)
    (h : ¬ (node.hSocket = true ∧ node.vRecv.size ≤ e.receiveBufferSize)) :
    (node.receive e pchBuf).pushed = node.pushed ∧ (node.receive e pchBuf).vSend = node.vSend ∧
      (node.receive e pchBuf).heard = node.heard := by
  unfold CNode.receive
  by_cases hclosed : node.hSocket = false
  · rw [if_pos hclosed]
    exact ⟨rfl, rfl, rfl⟩
  · rw [Bool.not_eq_false] at hclosed
    have hflood : e.receiveBufferSize < node.vRecv.size := by
      by_contra hroom
      exact h ⟨hclosed, Nat.not_lt.mp hroom⟩
    rw [if_neg (by simp [hclosed])]
    dsimp only
    rw [if_pos hflood, CNode.closeSocketDisconnect, if_pos hclosed]
    exact ⟨rfl, rfl, rfl⟩

/-- One that is open, with room in its buffer, hears the bytes. -/
theorem receive_of_room {node : CNode σ} (pchBuf : PchBuf)
    (h : node.hSocket = true ∧ node.vRecv.size ≤ e.receiveBufferSize) :
    (node.receive e pchBuf).pushed = node.pushed ∧ (node.receive e pchBuf).vSend = node.vSend ∧
      (node.receive e pchBuf).heard = node.heard ++ pchBuf.val := by
  unfold CNode.receive
  rw [if_neg (by simp [h.1])]
  dsimp only
  rw [if_neg (Nat.not_lt.mpr h.2)]
  exact ⟨rfl, rfl, rfl⟩

theorem Ok.recv (h : Ok K fTestNet link) (side : Bool) (nBytes : Nat) :
    Ok K fTestNet (link.step K fTestNet env (.recv side nBytes)) := by
  unfold Link.step
  dsimp only
  have htaken : (piece (link.wire !side) nBytes).val ++
      (link.wire !side).drop (piece (link.wire !side) nBytes).val.length = link.wire !side :=
    List.prefix_iff_eq_append.mp (List.take_prefix _ _)
  generalize piece (link.wire !side) nBytes = pchBuf at htaken ⊢
  split_ifs with hreceives
  · obtain ⟨hpushed, hsend, hheard⟩ := receive_of_room pchBuf hreceives
    refine ⟨fun t => ?_, hears_act h side _⟩
    have hcarried := h.carried t
    dsimp only
    rcases side_cases side t with rfl | rfl
    · rw [act_node_self, act_node_not, Function.update_of_ne (not_ne t).symm]
      simp only [CNode.step, hpushed, hsend]
      exact hcarried
    · rw [Bool.not_not] at hcarried ⊢
      rw [act_node_self, act_node_not, Function.update_self]
      simp only [CNode.step, hheard]
      rw [← hcarried, List.append_assoc, ← List.append_assoc pchBuf.val, htaken]
  · obtain ⟨hpushed, hsend, hheard⟩ := receive_of_not pchBuf hreceives
    exact h.act (.refl_of hpushed hsend) hheard

/-- **Every operation keeps it.** -/
theorem Ok.step (h : Ok K fTestNet link) (op : LinkOp) :
    Ok K fTestNet (link.step K fTestNet env op) := by
  cases op with
  | push side m => exact h.act CNode.pushes_pushMessage rfl
  | abort side m =>
    exact h.act ⟨[], by simp [CNode.step, CNode.abortMessage],
      by simp [CNode.step, CNode.abortMessage, CDataStream.data_abortedMessage]⟩ rfl
  | send side nBytes => exact h.send side nBytes
  | recv side nBytes => exact h.recv side nBytes
  | process side =>
    obtain ⟨hpushes, hheard, -⟩ :=
      @CNode.processMessages_spec σ K fTestNet (env side) (link.node side)
    exact h.act hpushes hheard
  | close side =>
    refine h.act (.refl_of ?_ ?_) ?_
    all_goals
      simp only [CNode.step, CNode.closeSocketDisconnect]
      split_ifs <;> rfl

theorem ok_run (rest : Bool → σ) (ops : List LinkOp) :
    Ok K fTestNet (run K fTestNet env rest ops) := by
  induction ops using List.reverseRecOn with
  | nil => exact ⟨fun side => rfl, fun side => CNode.hears_new (rest side)⟩
  | append_singleton ops op ih =>
    unfold run at ih ⊢
    rw [List.foldl_append]
    exact ih.step op

/-- **First come, first handled.**  In every state of a run, whatever the threads of the two nodes
do in whatever order and however the bytes are cut, the messages that a node has handled are the
first of those that the other one has pushed, in order, none twice and none that was not pushed.
They are all of them once no byte is left, as long as the connection is open. -/
theorem link_fifo (rest : Bool → σ) (ops : List LinkOp) (side : Bool)
    (hsendable : ∀ m ∈ ((run K fTestNet env rest ops).node side).pushed, m.Sendable) :
    let link := run K fTestNet env rest ops
    (link.node !side).handled <+: (link.node side).pushed.map Message.arriving ∧
      (link.wire side = [] → (link.node side).vSend.data = [] → (link.node !side).vRecv.data = [] →
        (link.node !side).hSocket = true →
          (link.node !side).handled = (link.node side).pushed.map Message.arriving) := by
  intro link
  have hok : Ok K fTestNet link := ok_run rest ops
  have hears := hok.hears !side
  have hcarried := hok.carried side
  have hframes := @Message.all_frames K fTestNet _ hsendable
  constructor
  · have hbegun : messagesOf K fTestNet (link.node !side).heard <+:
        (link.node side).pushed.map Message.arriving := by
      have hparts := Scanner.all_append (S := messageScanner K fTestNet) (link.node !side).heard
        (link.wire side ++ (link.node side).vSend.data)
      rw [hcarried, hframes] at hparts
      have hfirst : (link.node side).pushed.map Message.arriving = _ := congrArg Prod.fst hparts
      rw [hfirst]
      exact List.prefix_append _ _
    exact hears.handled.trans hbegun
  · intro hwire hsend hrecv hopen
    rw [hwire, hsend, List.append_nil, List.append_nil] at hcarried
    have hfollows := hears.isOpen hopen
    rw [Scanner.Follows, hcarried, hframes, hrecv, all_nil] at hfollows
    simpa using (congrArg Prod.fst hfollows).symm

/-- A "ping" that comes in pieces, and its answer. -/
def samplePingPong : List LinkOp :=
  [.push false CNode.samplePing, .send false 10, .recv true 7, .process true, .send false 22,
    .recv true 50, .process true, .send true 32, .recv false 32, .process false]

theorem link_fifo_pong :
    ((run (Crypto.sample []) false (fun _ => CNode.sampleNet) (fun _ => ()) samplePingPong).node
      false).handled = [⟨"pong".toUTF8.toList, [1, 2, 3, 4, 5, 6, 7, 8]⟩] :=
  ((link_fifo (fun _ => ()) samplePingPong true (by decide +kernel)).2 (by decide +kernel)
    (by decide +kernel) (by decide +kernel) (by decide +kernel)).trans (by decide +kernel)

end Link

end Breakout
