import MyServer.Bytes
import MyServer.Framing

/-!
# The wire message (`message.h`, `message.cpp`)

`NetMessage` is the object both ends hold: the header fields, the body, the
stream buffer `serialize` writes into, and the two lengths. `serialize` and
`deserialize` are the two hand-written offset walks of the source; both advance
`len` field by field.

Over them stands `Packet`, what a message *means* (header and body, nothing else)
and its frame `Packet.bytes`. `serialize` writes the frame, `deserialize` reads it
back, and together they are a `FrameFormat` whose limit is `MSG_MAXIMUM`
(`wire`). `codec_roundtrip` is the two-way round trip of the codec.
-/

namespace MyServer

/-- `MSG_HEAD` -/
def msgHead : ℕ := 16

/-- `MSG_MAXIMUM` -/
def msgMaximum : ℕ := 8192

/-- The class `NetMessage`. `stream` is the part of `m_szStream` that has been
written; the rest of that array is never looked at. -/
structure NetMessage : Type where
  /-- `m_nPlayerId` -/
  playerId : Int32
  /-- `m_nLen` -/
  len : ℕ
  /-- `m_nProto` -/
  proto : Int32
  /-- `m_nNetId` -/
  netId : Int32
  /-- `m_szMessage` -/
  message : List UInt8
  /-- `m_szStream` -/
  stream : List UInt8
  /-- `m_nContentLength` -/
  contentLength : Int32
  deriving DecidableEq

/-- What a message means: its header fields and its body. -/
structure Packet : Type where
  /-- the protocol id -/
  proto : Int32
  /-- the player id -/
  playerId : Int32
  /-- the id of the client connection -/
  netId : Int32
  /-- the body -/
  message : List UInt8
  deriving DecidableEq

namespace NetMessage

/-- `NetMessage(json_str, proto, playerId, netId)` -/
def ofJson (jsonStr : List UInt8) (proto playerId netId : Int32) : NetMessage where
  playerId := playerId
  len := 0
  proto := proto
  netId := netId
  message := jsonStr
  stream := []
  contentLength := .ofNat jsonStr.length

/-- `NetMessage()` -/
def blank : NetMessage where
  playerId := 0
  len := 0
  proto := 0
  netId := 0
  message := []
  stream := []
  contentLength := 0

/-- `setMessage` also records the length of the body. -/
def setMessage (m : NetMessage) (msg : List UInt8) : NetMessage :=
  { m with message := msg, contentLength := .ofNat msg.length }

/-- `setProto` -/
def setProto (m : NetMessage) (proto : Int32) : NetMessage := { m with proto := proto }

/-- `setPlayerId` -/
def setPlayerId (m : NetMessage) (playerId : Int32) : NetMessage := { m with playerId := playerId }

/-- `setNetId` -/
def setNetId (m : NetMessage) (netId : Int32) : NetMessage := { m with netId := netId }

/-- One step of the encoder's walk: `memcpy(m_szStream + m_nLen, src)` and
`m_nLen += |src|`. -/
def emit (m : NetMessage) (src : List UInt8) : NetMessage :=
  { m with stream := overwrite m.stream m.len src, len := m.len + src.length }

/-- `serialize`: refuse a body that does not fit, else write the four header
words and the body one after the other. -/
def serialize (o : ByteOrder) (m : NetMessage) : NetMessage × Bool :=
  if msgMaximum ≤ msgHead + m.message.length then (m, false)
  else
    let m := { m with len := 0 }
    let m := m.emit (o.encode m.proto)
    let m := m.emit (o.encode m.playerId)
    let m := m.emit (o.encode m.netId)
    let m := m.emit (o.encode m.contentLength)
    let m := m.emit m.message
    (m, true)

/-- One word of the decoder's walk: the `int` at `buff + m_nLen`. -/
def fetch (o : ByteOrder) (m : NetMessage) (buff : List UInt8) : Int32 :=
  o.decode ((buff.drop m.len).take intSize)

/-- `deserialize`: the number of bytes the message took from `buff`, or 0. The
header fields are overwritten before the length is checked, so a failed decode
can leave them changed. `buff` is the memory from the pointer on, `size` the
number of bytes the caller vouches for. -/
def deserialize (o : ByteOrder) (m : NetMessage) (buff : List UInt8) (size : ℤ) :
    NetMessage × ℤ :=
  if (msgMaximum : ℤ) ≤ size ∨ size < msgHead then (m, 0)
  else
    let m := { m with len := 0 }
    let m := { m with proto := m.fetch o buff, len := m.len + intSize }
    let size := size - intSize
    let m := { m with playerId := m.fetch o buff, len := m.len + intSize }
    let size := size - intSize
    let m := { m with netId := m.fetch o buff, len := m.len + intSize }
    let size := size - intSize
    let m := { m with contentLength := m.fetch o buff, len := m.len + intSize }
    let size := size - intSize
    if m.contentLength.toInt ≤ size ∧ 0 ≤ m.contentLength.toInt then
      let n := m.contentLength.toInt.toNat
      let m := { m with message := (buff.drop m.len).take n, len := m.len + n }
      (m, m.len)
    else (m, 0)

/-- The bytes a caller reads through `getStream()` and `getLen()`. -/
def frame (m : NetMessage) : List UInt8 := m.stream.take m.len

/-- What the object means. -/
def packet (m : NetMessage) : Packet := ⟨m.proto, m.playerId, m.netId, m.message⟩

/-- The recorded length of the body is its length. The constructors and
`setMessage` establish it; a failed `deserialize` can break it. -/
def Consistent (m : NetMessage) : Prop := m.contentLength = .ofNat m.message.length

instance (m : NetMessage) : Decidable m.Consistent := inferInstanceAs (Decidable (_ = _))

theorem consistent_ofJson (msg : List UInt8) (proto playerId netId : Int32) :
    (ofJson msg proto playerId netId).Consistent := rfl

end NetMessage

namespace Packet

/-- The frame of a packet with a given length word. -/
def bytesWith (o : ByteOrder) (contentLength : Int32) (p : Packet) : List UInt8 :=
  o.encode p.proto ++ o.encode p.playerId ++ o.encode p.netId ++ o.encode contentLength ++ p.message

/-- The frame of a packet. -/
def bytes (o : ByteOrder) (p : Packet) : List UInt8 := p.bytesWith o (.ofNat p.message.length)

@[simp] theorem length_bytesWith (o : ByteOrder) (n : Int32) (p : Packet) :
    (p.bytesWith o n).length = msgHead + p.message.length := by
  simp only [bytesWith, List.length_append, ByteOrder.length_encode, intSize, msgHead]

@[simp] theorem length_bytes (o : ByteOrder) (p : Packet) :
    (p.bytes o).length = msgHead + p.message.length := length_bytesWith o _ p

/-- A message object that means `p`, freshly built. -/
def toMessage (p : Packet) : NetMessage := .ofJson p.message p.proto p.playerId p.netId

@[simp] theorem packet_toMessage (p : Packet) : p.toMessage.packet = p := rfl

end Packet

/-! ## The encoder -/

namespace NetMessage

variable {o : ByteOrder} {m : NetMessage}

theorem frame_emit (src : List UInt8) (h : m.len ≤ m.stream.length) :
    (m.emit src).frame = m.frame ++ src := take_overwrite src h

theorem len_emit_le (src : List UInt8) (h : m.len ≤ m.stream.length) :
    (m.emit src).len ≤ (m.emit src).stream.length := length_overwrite h

/-- `serialize` succeeds exactly on bodies that fit. -/
theorem serialize_eq_true_iff :
    (m.serialize o).2 = true ↔ msgHead + m.message.length < msgMaximum := by
  by_cases h : msgMaximum ≤ msgHead + m.message.length
  · simp [serialize, h]
  · simp [serialize, h, Nat.lt_of_not_le h]

/-- A successful `serialize` changes the stream and its length only, and writes
the four header words followed by the body. -/
theorem serialize_spec (h : (m.serialize o).2 = true) :
    (m.serialize o).1.packet = m.packet ∧
      (m.serialize o).1.contentLength = m.contentLength ∧
      (m.serialize o).1.len = msgHead + m.message.length ∧
      (m.serialize o).1.frame = m.packet.bytesWith o m.contentLength := by
  have hfit := serialize_eq_true_iff.mp h
  rw [serialize, if_neg (Nat.not_le_of_lt hfit)]
  refine ⟨rfl, rfl, ?_, ?_⟩
  · simp only [emit, ByteOrder.length_encode, intSize, msgHead]
  · -- peel the walk from the last field to the first; each offset is in range
    have h₀ : ({ m with len := 0 } : NetMessage).len ≤ m.stream.length := Nat.zero_le _
    have h₁ := len_emit_le (o.encode m.proto) h₀
    have h₂ := len_emit_le (o.encode m.playerId) h₁
    have h₃ := len_emit_le (o.encode m.netId) h₂
    have h₄ := len_emit_le (o.encode m.contentLength) h₃
    have hstart : ({ m with len := 0 } : NetMessage).frame = [] := List.take_zero
    simp only [packet, Packet.bytesWith]
    refine (frame_emit _ h₄).trans ?_
    congr 1
    refine (frame_emit _ h₃).trans ?_
    congr 1
    refine (frame_emit _ h₂).trans ?_
    congr 1
    refine (frame_emit _ h₁).trans ?_
    congr 1
    refine (frame_emit _ h₀).trans ?_
    rw [hstart, List.nil_append]

theorem frame_serialize (hc : m.Consistent) (h : (m.serialize o).2 = true) :
    (m.serialize o).1.frame = m.packet.bytes o := by
  rw [(serialize_spec h).2.2.2, hc]
  rfl

theorem length_frame_serialize (h : (m.serialize o).2 = true) :
    (m.serialize o).1.frame.length = msgHead + m.message.length := by
  rw [(serialize_spec h).2.2.2, Packet.length_bytesWith]
  rfl

/-! ## The decoder -/

/-- The length word of a frame. -/
def lengthWord (o : ByteOrder) (buff : List UInt8) : ℤ :=
  (o.decode ((buff.drop 12).take intSize)).toInt

/-- What `deserialize` does on a size it does not refuse: it reads the four
header words in any case, and the body when the length word says that the body
lies within the `size` bytes. -/
theorem deserialize_spec (o : ByteOrder) (m : NetMessage) {buff : List UInt8} {size : ℤ}
    (hlo : msgHead ≤ size) (hhi : size < msgMaximum) :
    m.deserialize o buff size =
      if lengthWord o buff ≤ size - msgHead ∧ 0 ≤ lengthWord o buff then
        ({ m with
            proto := o.decode (buff.take intSize)
            playerId := o.decode ((buff.drop 4).take intSize)
            netId := o.decode ((buff.drop 8).take intSize)
            contentLength := o.decode ((buff.drop 12).take intSize)
            message := (buff.drop msgHead).take (lengthWord o buff).toNat
            len := msgHead + (lengthWord o buff).toNat },
          ((msgHead + (lengthWord o buff).toNat : ℕ) : ℤ))
      else
        ({ m with
            proto := o.decode (buff.take intSize)
            playerId := o.decode ((buff.drop 4).take intSize)
            netId := o.decode ((buff.drop 8).take intSize)
            contentLength := o.decode ((buff.drop 12).take intSize)
            len := msgHead }, 0) := by
  have hsize : size - msgHead = size - intSize - intSize - intSize - intSize := by
    simp only [intSize, msgHead]
    omega
  have hok : ¬ ((msgMaximum : ℤ) ≤ size ∨ size < msgHead) := by omega
  rw [hsize, deserialize, if_neg hok]
  rfl

theorem deserialize_refused (o : ByteOrder) (m : NetMessage) {buff : List UInt8} {size : ℤ}
    (h : (msgMaximum : ℤ) ≤ size ∨ size < msgHead) : m.deserialize o buff size = (m, 0) :=
  if_pos h

/-- Inversion: a decode that returns something other than 0 saw a size it does not
refuse and a length word that fits. -/
theorem deserialize_ne_zero {o : ByteOrder} {m : NetMessage} {buff : List UInt8} {size : ℤ}
    (h : (m.deserialize o buff size).2 ≠ 0) :
    msgHead ≤ size ∧ size < msgMaximum ∧ lengthWord o buff ≤ size - msgHead ∧
      0 ≤ lengthWord o buff := by
  by_cases hbad : (msgMaximum : ℤ) ≤ size ∨ size < msgHead
  · rw [deserialize_refused o m hbad] at h
    exact absurd rfl h
  · have hlo : (msgHead : ℤ) ≤ size := by omega
    have hhi : size < msgMaximum := by omega
    rw [deserialize_spec o m hlo hhi] at h
    by_cases hlen : lengthWord o buff ≤ size - msgHead ∧ 0 ≤ lengthWord o buff
    · exact ⟨hlo, hhi, hlen⟩
    · rw [if_neg hlen] at h
      exact absurd rfl h

end NetMessage

/-! ## Frames in memory -/

namespace Packet

variable {o : ByteOrder}

/-- Where the words of a frame lie in memory. -/
theorem words_bytesWith (n : Int32) (p : Packet) (r : List UInt8) :
    (p.bytesWith o n ++ r).take intSize = o.encode p.proto ∧
      ((p.bytesWith o n ++ r).drop 4).take intSize = o.encode p.playerId ∧
      ((p.bytesWith o n ++ r).drop 8).take intSize = o.encode p.netId ∧
      ((p.bytesWith o n ++ r).drop 12).take intSize = o.encode n ∧
      (p.bytesWith o n ++ r).drop msgHead = p.message ++ r := by
  have hpast : ∀ (x : Int32) (i : ℕ), (o.encode x).drop (4 + i) = [] := by
    intro x i
    exact List.drop_eq_nil_of_le (by rw [ByteOrder.length_encode, intSize]; omega)
  simp [bytesWith, intSize, msgHead, List.drop_append, hpast _ 4, hpast _ 8, hpast _ 12]

/-- Conversely, memory is the frame of the packet its words spell. -/
theorem bytesWith_decode {buff : List UInt8} {k : ℕ} (h : msgHead + k ≤ buff.length) :
    bytesWith o (o.decode ((buff.drop 12).take intSize))
        ⟨o.decode (buff.take intSize), o.decode ((buff.drop 4).take intSize),
          o.decode ((buff.drop 8).take intSize), (buff.drop msgHead).take k⟩ =
      buff.take (msgHead + k) := by
  have hword : ∀ i, i + 4 ≤ msgHead → ((buff.drop i).take intSize).length = intSize := by
    intro i hi
    rw [List.length_take, List.length_drop, intSize]
    omega
  have h₀ := hword 0 (by decide)
  rw [List.drop_zero] at h₀
  simp only [bytesWith, o.encode_decode h₀, o.encode_decode (hword 4 (by decide)),
    o.encode_decode (hword 8 (by decide)), o.encode_decode (hword 12 (by decide))]
  have hsplit : buff.take (4 + 4 + 4 + 4 + k) =
      buff.take 4 ++ (buff.drop 4).take 4 ++ (buff.drop 8).take 4 ++ (buff.drop 12).take 4 ++
        (buff.drop 16).take k := by
    rw [List.take_add, List.take_add, List.take_add, List.take_add]
  exact hsplit.symm

end Packet

/-! ## The round trip -/

namespace NetMessage

variable {o : ByteOrder}

/-- A frame in front of any memory is decoded to its packet, whatever the object
held before. -/
theorem deserialize_bytes (m : NetMessage) (p : Packet) (r : List UInt8) {size : ℤ}
    (hlo : ((p.bytes o).length : ℤ) ≤ size) (hhi : size < msgMaximum) :
    (m.deserialize o (p.bytes o ++ r) size).2 = (p.bytes o).length ∧
      (m.deserialize o (p.bytes o ++ r) size).1.packet = p := by
  rw [Packet.length_bytes] at hlo ⊢
  have hlt : p.message.length < 2 ^ 31 := by
    rw [msgMaximum] at hhi
    omega
  obtain ⟨hproto, hplayer, hnet, hlen, hbody⟩ :=
    Packet.words_bytesWith (o := o) (.ofNat p.message.length) p r
  have hword : lengthWord o (p.bytes o ++ r) = p.message.length := by
    rw [lengthWord, Packet.bytes, hlen, ByteOrder.decode_encode, Int32.toInt_ofNat_of_lt hlt]
  have hfit : (p.message.length : ℤ) ≤ size - msgHead ∧ (0 : ℤ) ≤ p.message.length := by omega
  rw [deserialize_spec o m (by omega) hhi, hword, if_pos hfit, Int.toNat_natCast]
  refine ⟨rfl, ?_⟩
  rw [packet, Packet.bytes, hproto, hplayer, hnet, hbody, List.take_left]
  simp only [ByteOrder.decode_encode]

/-- What a successful decode took from memory is the frame of the object it left
behind, and `serialize` writes that frame again. -/
theorem serialize_deserialize {m : NetMessage} {buff : List UInt8} {size : ℤ}
    (hsize : size ≤ buff.length) (h : (m.deserialize o buff size).2 ≠ 0) :
    msgHead ≤ (m.deserialize o buff size).2 ∧ (m.deserialize o buff size).2 ≤ size ∧
      (m.deserialize o buff size).1.Consistent ∧
      (m.deserialize o buff size).1.packet.bytes o =
        buff.take (m.deserialize o buff size).2.toNat ∧
      ((m.deserialize o buff size).1.serialize o).2 = true := by
  obtain ⟨hlo, hhi, hfit, hnonneg⟩ := deserialize_ne_zero h
  obtain ⟨k, hk⟩ := Int.eq_ofNat_of_zero_le hnonneg
  have hlen : msgHead + k ≤ buff.length := by omega
  rw [hk] at hfit
  rw [deserialize_spec o m hlo hhi, hk, if_pos ⟨hfit, Int.natCast_nonneg k⟩]
  simp only [Int.toNat_natCast]
  have hbody : ((buff.drop msgHead).take k).length = k := by
    rw [List.length_take, List.length_drop]
    omega
  -- the length word read from memory is the length of the body read with it
  have hcons : (o.decode ((buff.drop 12).take intSize)) =
      .ofNat ((buff.drop msgHead).take k).length := by
    rw [hbody, ← Int32.toInt_inj, Int32.toInt_ofNat_of_lt]
    · exact hk
    · rw [msgMaximum] at hhi
      omega
  refine ⟨by omega, by omega, hcons, ?_, ?_⟩
  · rw [packet, Packet.bytes, ← hcons]
    exact Packet.bytesWith_decode hlen
  · rw [serialize_eq_true_iff, hbody]
    omega

/-- **Codec round trip, both ways.** A message built from its parts serializes
exactly when it fits, and then the bytes it wrote decode, in any receiving object,
to the same parts. Conversely whatever memory and size decode to something
positive decode to an object whose own `serialize` writes back exactly the bytes
that were taken. `size ≤ buff.length` says that the caller's buffer holds the
`size` bytes it vouches for. -/
theorem codec_roundtrip (o : ByteOrder) :
    (∀ (msg : List UInt8) (proto playerId netId : Int32),
      (((ofJson msg proto playerId netId).serialize o).2 = true ↔
        msgHead + msg.length < msgMaximum) ∧
      (((ofJson msg proto playerId netId).serialize o).2 = true →
        ∀ m' : NetMessage,
          let s := ((ofJson msg proto playerId netId).serialize o).1
          let r := m'.deserialize o s.stream s.len
          r.2 = s.len ∧ r.1.proto = proto ∧ r.1.playerId = playerId ∧ r.1.netId = netId ∧
            r.1.message = msg)) ∧
    (∀ (m : NetMessage) (buff : List UInt8) (size : ℤ), size ≤ buff.length →
      let r := m.deserialize o buff size
      0 < r.2 →
        msgHead ≤ r.2 ∧ r.2 ≤ size ∧ (r.1.serialize o).2 = true ∧
          (r.1.serialize o).1.frame = buff.take r.2.toNat) := by
  refine ⟨fun msg proto playerId netId => ⟨serialize_eq_true_iff, fun hser m' => ?_⟩, ?_⟩
  · have hframe := frame_serialize (consistent_ofJson msg proto playerId netId) hser
    obtain ⟨-, -, hlen, -⟩ := serialize_spec hser
    have hfit := serialize_eq_true_iff.mp hser
    set s := ((ofJson msg proto playerId netId).serialize o).1
    set p := (ofJson msg proto playerId netId).packet with hp
    -- the memory behind `getStream()` starts with the frame
    have hmem : s.stream = p.bytes o ++ s.stream.drop s.len := by
      rw [← hframe]
      exact (List.take_append_drop s.len s.stream).symm
    have hlenp : (p.bytes o).length = s.len := by
      rw [Packet.length_bytes, hlen]
      rfl
    have hhi : (s.len : ℤ) < msgMaximum := by
      rw [hlen]
      exact_mod_cast hfit
    obtain ⟨hret, hpacket⟩ :=
      deserialize_bytes (o := o) m' p (s.stream.drop s.len) (by rw [hlenp]) hhi
    rw [← hmem] at hret hpacket
    refine ⟨by rw [hret, hlenp], ?_⟩
    rw [hp] at hpacket
    exact ⟨congrArg Packet.proto hpacket, congrArg Packet.playerId hpacket,
      congrArg Packet.netId hpacket, congrArg Packet.message hpacket⟩
  · intro m buff size hsize r hpos
    obtain ⟨hlo, hhi, hcons, hbytes, hser⟩ :=
      serialize_deserialize (o := o) hsize (Int.ne_of_gt hpos)
    exact ⟨hlo, hhi, hser, (frame_serialize hcons hser).trans hbytes⟩

/-- The round trip at a heartbeat answer, decoded over an object that already
holds something else. -/
theorem codec_roundtrip_heartbeat :
    (((ofJson [123, 125] 1003 (-7) 5).serialize .little).2 = true ∧
      ((ofJson [1] 9 9 9).deserialize .little
        ((ofJson [123, 125] 1003 (-7) 5).serialize .little).1.stream
        ((ofJson [123, 125] 1003 (-7) 5).serialize .little).1.len).1.playerId = -7) ∧
    (((blank.deserialize .big ((List.replicate 16 0) ++ [1, 2]) 18).1.serialize .big).1.frame =
      List.replicate 16 0) :=
  ⟨⟨by decide, (((codec_roundtrip .little).1 [123, 125] 1003 (-7) 5).2 (by decide)
      (ofJson [1] 9 9 9)).2.2.1⟩,
    ((codec_roundtrip .big).2 blank ((List.replicate 16 0) ++ [1, 2]) 18 (by decide)
      (by decide)).2.2.2⟩

end NetMessage

/-! ## The wire format -/

/-- The messages of the program as a frame format: a frame is what `serialize`
writes, the reader is `deserialize` in a fresh object, and runs of `MSG_MAXIMUM`
bytes are refused. -/
def wire (o : ByteOrder) : FrameFormat UInt8 Packet where
  encode := Packet.bytes o
  decode s :=
    let r := NetMessage.blank.deserialize o s s.length
    if r.2 = 0 then none else some (r.1.packet, s.drop r.2.toNat)
  limit := msgMaximum
  encode_ne_nil p := by
    rw [← List.length_pos_iff, Packet.length_bytes, msgHead]
    omega
  decode_sound := by
    intro s p r h
    by_cases hzero : (NetMessage.blank.deserialize o s s.length).2 = 0
    · rw [if_pos hzero] at h
      cases h
    · rw [if_neg hzero] at h
      obtain ⟨rfl, rfl⟩ := Prod.mk.inj (Option.some.inj h)
      obtain ⟨-, -, -, hbytes, -⟩ := NetMessage.serialize_deserialize (o := o) le_rfl hzero
      rw [hbytes, List.take_append_drop]
  decode_append := by
    intro p r hlt
    have hlo : ((p.bytes o).length : ℤ) ≤ (p.bytes o ++ r).length := by
      rw [List.length_append]
      omega
    obtain ⟨hret, hpacket⟩ :=
      NetMessage.deserialize_bytes (o := o) .blank p r hlo (by exact_mod_cast hlt)
    have hne : (NetMessage.blank.deserialize o (p.bytes o ++ r) (p.bytes o ++ r).length).2 ≠ 0 := by
      rw [hret, Packet.length_bytes, msgHead]
      omega
    rw [if_neg hne, hret, hpacket, Int.toNat_natCast, List.drop_left]
  decode_limit := by
    intro s h
    have hbad : (msgMaximum : ℤ) ≤ s.length ∨ (s.length : ℤ) < msgHead := .inl (by exact_mod_cast h)
    rw [NetMessage.deserialize_refused o .blank hbad]
    rfl

end MyServer
