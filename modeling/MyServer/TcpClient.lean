import MyServer.ReadLaws
import MyServer.Robot

/-!
# The test client (`tcpClient.h`, `tcpClient.cpp`)

A `TcpClient` reads what the server sends to its robot. Its `handle_read` shares the codec
with the server's and nothing else: it decodes one message from the front of the buffer,
logs when that fails, and gives the message object to the robot in any case.

Two things follow. A frame that does not decode still has its protocol id in the object,
with an empty body, which the robot takes for success (`handleRead_keeps_iff`). And what
follows the first frame of a read is dropped, where the server's loop goes on
(`handleRead_handles_iff`).
-/

namespace MyServer

universe u

/-- The class `TcpClient`, as far as reading goes. -/
structure TcpClient : Type where
  /-- `m_Robot` -/
  robot : Robot
  /-- `m_Socket.is_open()` -/
  isOpen : Bool
  /-- `m_ReadBuff` -/
  readBuff : Buffer 1024

/-- What a call leaves behind. -/
structure ClientOutcome : Type where
  /-- the client afterwards -/
  client : TcpClient
  /-- the messages passed to `Robot::handleMsg`, in order -/
  handled : List NetMessage
  /-- a connection is asked for (`post_connect`) -/
  reconnects : Bool
  /-- the fault that left the call -/
  fault : Option JsonFault

namespace TcpClient

/-- `post_read`, after the messages `handled` -/
def postRead (c : TcpClient) (handled : List NetMessage) : ClientOutcome :=
  if c.isOpen then ⟨{ c with readBuff := .zero 1024 }, handled, false, none⟩
  else ⟨c, handled, true, none⟩

/-- `handle_read`. `read` is what `async_read_some` has put into the buffer, at most 1024
bytes, or `none` when there was an error. A fault of the robot is caught in `run` only. -/
def handleRead (J : JsonLib) (o : ByteOrder) (c : TcpClient) (read : Option (List UInt8)) :
    ClientOutcome :=
  match read with
  | none => ⟨{ c with isOpen := false }, [], true, none⟩
  | some chunk =>
    let chunk := chunk.take 1024
    let c := { c with readBuff := c.readBuff.fill chunk }
    -- the result of `deserialize` is logged and nothing else
    let msg := (NetMessage.blank.deserialize o c.readBuff.bytes chunk.length).1
    match c.robot.handleMsg J msg with
    | .error fault => ⟨c, [msg], false, some fault⟩
    | .ok robot => postRead { c with robot := robot, readBuff := .zero 1024 } [msg]

variable {J : JsonLib} {o : ByteOrder}

@[simp] theorem handled_postRead (c : TcpClient) (handled : List NetMessage) :
    (c.postRead handled).handled = handled := by
  rw [postRead]
  split <;> rfl

@[simp] theorem robot_postRead (c : TcpClient) (handled : List NetMessage) :
    (c.postRead handled).client.robot = c.robot := by
  rw [postRead]
  split <;> rfl

/-- One read: the robot is given what `deserialize` makes of the bytes. -/
theorem handleRead_spec (c : TcpClient) {chunk : List UInt8} (hlen : chunk.length ≤ 1024) :
    let msg := (NetMessage.blank.deserialize o chunk chunk.length).1
    (c.handleRead J o (some chunk)).handled = [msg] ∧
      (c.handleRead J o (some chunk)).client.robot =
        (c.robot.handleMsg J msg).toOption.getD c.robot := by
  have htake : chunk.take 1024 = chunk := List.take_of_length_le hlen
  have hmem := Buffer.bytes_fill c.readBuff hlen
  simp only [handleRead, htake, hmem, NetMessage.deserialize_append]
  cases c.robot.handleMsg J (NetMessage.blank.deserialize o chunk chunk.length).1 with
  | error fault => exact ⟨rfl, rfl⟩
  | ok robot => exact ⟨handled_postRead _ _, robot_postRead _ _⟩

/-! ## Frames that do not decode -/

/-- **What a malformed frame does to the client.** On bytes that do not decode, the step
and the player information of the robot stay as they are if and only if the bytes are
fewer than a header, or the robot is already where the response named by the header would
take it. -/
theorem handleRead_keeps_iff (J : JsonLib) (o : ByteOrder) (c : TcpClient) {chunk : List UInt8}
    (hlen : chunk.length ≤ 1024)
    (hbad : (NetMessage.blank.deserialize o chunk chunk.length).2 = 0) :
    (c.handleRead J o (some chunk)).client.robot.progress = c.robot.progress ↔
      chunk.length < msgHead ∨ c.robot.Settled (o.decode (chunk.take intSize)) := by
  rw [(c.handleRead_spec hlen).2]
  by_cases hhead : chunk.length < msgHead
  · -- the object is a blank one, and 0 is the id of no response
    rw [NetMessage.deserialize_refused o .blank (.inr (by exact_mod_cast hhead))]
    exact iff_of_true rfl (.inl hhead)
  · have hlo : (msgHead : ℤ) ≤ chunk.length := by omega
    have hhi : (chunk.length : ℤ) < msgMaximum := by
      rw [msgMaximum]
      omega
    obtain ⟨r', hr, hkeeps⟩ := c.robot.dispatch_null_keeps_iff (o.decode (chunk.take intSize))
    rw [NetMessage.deserialize_failed hbad hlo hhi, Robot.handleMsg]
    simp only [NetMessage.blank, ne_eq, not_true, if_false, hr]
    exact hkeeps.trans (or_iff_right hhead).symm

/-- A client with a new robot that waits for the answer to its login -/
def loggingIn : TcpClient where
  robot := (Robot.create .empty 1).setStep playerLoginRsp
  isOpen := true
  readBuff := .zero 1024

/-- A client whose robot is already logged in as player 0 -/
def loggedIn : TcpClient where
  robot :=
    { loggingIn.robot with
      step := playerEnterGameReq
      playerInfo := loggingIn.robot.playerInfo.set PlayerMgr.playerId (.int 0) }
  isOpen := true
  readBuff := .zero 1024

/-- Three bytes do nothing, and neither does the header of a login response when the robot is
already where it would take it. -/
theorem handleRead_keeps_settled :
    let chunk := ((Packet.mk playerLoginRsp 7 1 [123, 125]).bytes .little).take msgHead
    (NetMessage.blank.deserialize .little [1, 2, 3] 3).2 = 0 ∧
      (loggingIn.handleRead plainJson .little (some [1, 2, 3])).client.robot.progress =
        loggingIn.robot.progress ∧
      (NetMessage.blank.deserialize .little chunk chunk.length).2 = 0 ∧
      (loggedIn.handleRead plainJson .little (some chunk)).client.robot.progress =
        loggedIn.robot.progress := by
  intro chunk
  have hsettled : loggedIn.robot.Settled (ByteOrder.little.decode (chunk.take intSize)) :=
    ⟨rfl, by decide +kernel⟩
  refine ⟨by decide, ?_, by decide, ?_⟩
  · exact (handleRead_keeps_iff _ _ _ (by decide) (by decide)).mpr (.inl (by decide))
  · exact (handleRead_keeps_iff _ _ _ (by decide) (by decide)).mpr (.inr hsettled)

/-- The header of a login response whose body has not arrived: the robot is logged in, as
player 0. -/
theorem handleRead_logs_in_on_truncated :
    let frame := (Packet.mk playerLoginRsp 7 1 [123, 125]).bytes .little
    let chunk := frame.take msgHead
    (NetMessage.blank.deserialize .little chunk chunk.length).2 = 0 ∧
      loggingIn.robot.step = playerLoginRsp ∧
      (loggingIn.handleRead plainJson .little (some chunk)).client.robot.step =
        playerEnterGameReq ∧
      (loggingIn.handleRead plainJson .little (some chunk)).client.robot.playerInfo.lookup
        PlayerMgr.playerId = some (.int 0) := by
  refine ⟨by decide, rfl, by decide +kernel, by decide +kernel⟩

end TcpClient

/-! ## Frames in one read -/

namespace NetMessage

variable {o : ByteOrder} {m : NetMessage}

/-- The length word of an object that serializes, against its body. -/
theorem consistent_iff (h : (m.serialize o).2 = true) :
    m.Consistent ↔ m.contentLength.toInt = m.message.length := by
  have hlt : m.message.length < 2 ^ 31 := by
    have hfit := serialize_eq_true_iff.mp h
    rw [msgMaximum] at hfit
    omega
  rw [Consistent, ← Int32.toInt_inj, Int32.toInt_ofNat_of_lt hlt]

/-- What a message object writes is read back as what it means when the length word is the
length of the body, and when there is no body. -/
theorem packet_deserialize_wireBytes (h : (m.serialize o).2 = true) :
    (blank.deserialize o (m.wireBytes o) (m.wireBytes o).length).1.packet = m.packet ↔
      m.Consistent ∨ m.message = [] := by
  have hfit := serialize_eq_true_iff.mp h
  have hlen : ((m.wireBytes o).length : ℤ) = msgHead + m.message.length := by
    rw [wireBytes, length_frame_serialize h]
    exact Nat.cast_add _ _
  obtain ⟨hproto, hplayer, hnet, hword, hbody⟩ :=
    Packet.words_bytesWith (o := o) m.contentLength m.packet []
  have hwire : m.packet.bytesWith o m.contentLength ++ [] = m.wireBytes o := by
    rw [List.append_nil, wireBytes, (serialize_spec h).2.2.2]
  rw [hwire] at hproto hplayer hnet hword hbody
  have hlength : lengthWord o (m.wireBytes o) = m.contentLength.toInt := by
    rw [lengthWord, hword, ByteOrder.decode_encode]
  rw [consistent_iff h, deserialize_spec o blank (by omega) (by omega), hlength, hproto, hplayer,
    hnet, hword, hbody, hlen, ByteOrder.decode_encode, ByteOrder.decode_encode,
    ByteOrder.decode_encode, List.append_nil]
  have hpacket : ∀ body, (Packet.mk m.proto m.playerId m.netId body = m.packet) ↔
      body = m.message := by
    intro body
    simp [packet]
  have hmessage : m.packet.message = m.message := rfl
  by_cases hok : m.contentLength.toInt ≤ msgHead + m.message.length - msgHead ∧
      0 ≤ m.contentLength.toInt
  · rw [if_pos hok]
    refine (hpacket _).trans ?_
    rw [hmessage, List.take_eq_self_iff, ← List.length_eq_zero_iff]
    omega
  · rw [if_neg hok]
    refine (hpacket _).trans ⟨fun hnil => .inr hnil.symm, ?_⟩
    rintro (hcons | hnil)
    · omega
    · exact hnil.symm

end NetMessage

namespace TcpClient

variable {σ : Type u} {R : Receiver σ}

/-- The server's loop finds every message of a read, if their length words are right. -/
theorem dispatched_flatMap {o : ByteOrder} (hret : ∀ s m, (R.onRecv s m).2 = false)
    {msgs : List NetMessage} (hser : ∀ m ∈ msgs, (m.serialize o).2 = true)
    (hcons : ∀ m ∈ msgs, m.Consistent)
    (hlen : (msgs.flatMap (NetMessage.wireBytes o)).length ≤ 1024) (s : σ) :
    (R.handleRead o .success (some (msgs.flatMap (NetMessage.wireBytes o))) s).dispatched.map
      NetMessage.packet = msgs.map NetMessage.packet := by
  have hmax : 1024 < msgMaximum := by decide
  have hframes : msgs.flatMap (NetMessage.wireBytes o) =
      (msgs.map NetMessage.packet).flatMap (wire o).encode := by
    rw [List.flatMap_map]
    exact List.flatMap_congr fun m hm => NetMessage.frame_serialize (hcons m hm) (hser m hm)
  rw [Receiver.dispatched_handleRead hret (by omega), hframes, (wire o).decodeAll_flatMap]
  rw [← hframes]
  exact Nat.lt_of_le_of_lt hlen hmax

/-- **What the client makes of the frames of one read.** Messages that serialize arrive
together in one read of at most 1024 bytes. The robot is given exactly these messages if
and only if there is one, and it has its true length or no body. When the lengths are all
true, the client agrees with the server's loop on the same bytes if and only if there is
one message. -/
theorem handleRead_handles_iff (J : JsonLib) (o : ByteOrder)
    (hret : ∀ s m, (R.onRecv s m).2 = false) (c : TcpClient) (s : σ) {msgs : List NetMessage}
    (hser : ∀ m ∈ msgs, (m.serialize o).2 = true)
    (hlen : (msgs.flatMap (NetMessage.wireBytes o)).length ≤ 1024) :
    let chunk := msgs.flatMap (NetMessage.wireBytes o)
    ((c.handleRead J o (some chunk)).handled.map NetMessage.packet = msgs.map NetMessage.packet ↔
        ∃ m, msgs = [m] ∧ (m.Consistent ∨ m.message = [])) ∧
      ((∀ m ∈ msgs, m.Consistent) →
        ((c.handleRead J o (some chunk)).handled.map NetMessage.packet =
            (R.handleRead o .success (some chunk) s).dispatched.map NetMessage.packet ↔
          msgs.length = 1)) := by
  intro chunk
  have hone : (c.handleRead J o (some chunk)).handled =
      [(NetMessage.blank.deserialize o chunk chunk.length).1] := (c.handleRead_spec hlen).1
  have hexact : (c.handleRead J o (some chunk)).handled.map NetMessage.packet =
      msgs.map NetMessage.packet ↔ ∃ m, msgs = [m] ∧ (m.Consistent ∨ m.message = []) := by
    rw [hone, List.map_cons, List.map_nil, eq_comm, List.map_eq_singleton_iff]
    refine exists_congr fun m => and_congr_right fun hm => ?_
    have hchunk : chunk = m.wireBytes o := by
      simp only [chunk, hm, List.flatMap_cons, List.flatMap_nil, List.append_nil]
    rw [hchunk, eq_comm]
    exact NetMessage.packet_deserialize_wireBytes (hser m (by simp [hm]))
  refine ⟨hexact, fun hcons => ?_⟩
  rw [dispatched_flatMap hret hser hcons hlen s, hexact, List.length_eq_one_iff]
  refine exists_congr fun m => and_iff_left_of_imp fun hm => ?_
  exact .inl (hcons m (by simp [hm]))

/-- A heartbeat response, alone in its read. -/
theorem handleRead_handles_one :
    let m := NetMessage.ofJson [] playerHeartBeatRsp 7 1
    (m.serialize .little).2 = true ∧ (m.wireBytes .little).length ≤ 1024 ∧
      (loggingIn.handleRead plainJson .little (some (m.wireBytes .little))).handled.map
        NetMessage.packet = [m.packet] := by
  intro m
  have hser : ∀ m' ∈ [m], (m'.serialize .little).2 = true := by decide
  have hread := (handleRead_handles_iff (R := Receiver.sink) plainJson .little (fun _ _ => rfl)
    loggingIn (.opened 0 0) hser (by decide)).1
  rw [List.flatMap_singleton] at hread
  exact ⟨by decide, by decide, hread.mpr ⟨m, rfl, .inl rfl⟩⟩

/-- Two responses in one read: the second one is lost, and the server's loop would have
found it. -/
theorem handleRead_loses_second :
    let login := NetMessage.ofJson [] playerLoginRsp 7 1
    let beat := NetMessage.ofJson [] playerHeartBeatRsp 7 1
    let chunk := login.wireBytes .little ++ beat.wireBytes .little
    (login.serialize .little).2 = true ∧ (beat.serialize .little).2 = true ∧
      chunk.length ≤ 1024 ∧
      (loggingIn.handleRead plainJson .little (some chunk)).handled.map NetMessage.packet =
        [login.packet] ∧
      (Receiver.sink.handleRead .little .success (some chunk) (.opened 0 0)).dispatched.map
        NetMessage.packet = [login.packet, beat.packet] := by
  intro login beat chunk
  have hchunk : chunk = [login, beat].flatMap (NetMessage.wireBytes .little) := by
    simp only [chunk, List.flatMap_cons, List.flatMap_nil, List.append_nil]
  have hshort : chunk.length ≤ 1024 := by decide
  refine ⟨by decide, by decide, hshort, by decide +kernel, ?_⟩
  rw [hchunk]
  exact dispatched_flatMap (fun _ _ => rfl) (by decide) (by decide) (by decide) _

end TcpClient

end MyServer
