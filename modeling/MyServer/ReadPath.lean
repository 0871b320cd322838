import MyServer.Connection
import MyServer.Runs

/-!
# From the wire to the handler

`handle_read` reads once into the start of `m_ReadBuffer` and dispatches the
messages it finds there; whatever does not decode is dropped, and nothing is kept
for the next read. A `Receiver` is the owner of a connection with its handler
(`m_pHandler->onRecv`), which may do anything to the owner's state but leaves the
read buffer of the connection it was called for alone; the handler says whether it
threw. `handleRead` is instrumented: it also returns the messages it passed to the
handler.

The loop refines the greedy reader of the wire format (`readLoop_eq_feed`), so the
law of receivers without memory (`FrameFormat.deliver_eq_iff`) says exactly which
segmentations of a stream come through (`handleRead_delivers_iff`).
-/

namespace MyServer

universe u

/-! ## The decoder looks at nothing past `size` -/

namespace NetMessage

variable {o : ByteOrder}

theorem deserialize_nonneg (m : NetMessage) (buff : List UInt8) (size : ℤ) :
    0 ≤ (m.deserialize o buff size).2 := by
  by_cases hbad : (msgMaximum : ℤ) ≤ size ∨ size < msgHead
  · rw [deserialize_refused o m hbad]
  · rw [deserialize_spec o m (by omega) (by omega)]
    split
    · exact Int.natCast_nonneg _
    · exact le_rfl

/-- A decode depends only on the `size` bytes it was given. -/
theorem deserialize_append (m : NetMessage) (s t : List UInt8) :
    m.deserialize o (s ++ t) s.length = m.deserialize o s s.length := by
  by_cases hbad : (msgMaximum : ℤ) ≤ s.length ∨ (s.length : ℤ) < msgHead
  · rw [deserialize_refused o m hbad, deserialize_refused o m hbad]
  · have hlo : msgHead ≤ s.length := by omega
    have hword : ∀ i, i + 4 ≤ msgHead →
        ((s ++ t).drop i).take intSize = (s.drop i).take intSize := by
      intro i hi
      rw [List.drop_append_of_le_length (by omega), List.take_append_of_le_length]
      rw [List.length_drop, intSize]
      omega
    have hzero := hword 0 (by decide)
    rw [List.drop_zero, List.drop_zero] at hzero
    have hlen : lengthWord o (s ++ t) = lengthWord o s := by
      rw [lengthWord, lengthWord, hword 12 (by decide)]
    rw [deserialize_spec o m (by omega) (by omega), deserialize_spec o m (by omega) (by omega),
      hlen, hzero, hword 4 (by decide), hword 8 (by decide), hword 12 (by decide)]
    by_cases hfit : lengthWord o s ≤ s.length - msgHead ∧ 0 ≤ lengthWord o s
    · have hbody : ((s ++ t).drop msgHead).take (lengthWord o s).toNat =
          (s.drop msgHead).take (lengthWord o s).toNat := by
        rw [List.drop_append_of_le_length hlo, List.take_append_of_le_length]
        rw [List.length_drop]
        omega
      rw [if_pos hfit, if_pos hfit, hbody]
    · rw [if_neg hfit, if_neg hfit]

end NetMessage

/-- The object `handle_read` hands to the handler for a packet: a fresh message,
decoded. -/
def Packet.received (p : Packet) : NetMessage where
  playerId := p.playerId
  len := msgHead + p.message.length
  proto := p.proto
  netId := p.netId
  message := p.message
  stream := []
  contentLength := .ofNat p.message.length

@[simp] theorem Packet.packet_received (p : Packet) : p.received.packet = p := rfl

/-- Inversion for the wire format: a frame was split off, the decoded object is the
one for its packet. -/
theorem wire_decode_some {o : ByteOrder} {s r : List UInt8} {p : Packet}
    (h : (wire o).decode s = some (p, r)) :
    (NetMessage.blank.deserialize o s s.length).2 ≠ 0 ∧
      (NetMessage.blank.deserialize o s s.length).1 = p.received ∧
      r = s.drop (NetMessage.blank.deserialize o s s.length).2.toNat := by
  have hne : (NetMessage.blank.deserialize o s s.length).2 ≠ 0 := by
    intro hzero
    simp [wire, hzero] at h
  simp only [wire, if_neg hne, Option.some.injEq, Prod.mk.injEq] at h
  obtain ⟨rfl, rfl⟩ := h
  refine ⟨hne, ?_, rfl⟩
  obtain ⟨hlo, hhi, hfit, hnonneg⟩ := NetMessage.deserialize_ne_zero hne
  obtain ⟨-, -, hcons, -⟩ := NetMessage.serialize_deserialize (o := o) le_rfl hne
  rw [NetMessage.Consistent] at hcons
  rw [NetMessage.deserialize_spec o .blank hlo hhi, if_pos ⟨hfit, hnonneg⟩] at hcons ⊢
  have hlen : ((s.drop msgHead).take (NetMessage.lengthWord o s).toNat).length =
      (NetMessage.lengthWord o s).toNat := by
    rw [List.length_take, List.length_drop]
    omega
  simp only [hlen] at hcons
  simp only [Packet.received, NetMessage.packet, hlen, hcons]
  rfl

/-! ## Reading -/

/-- The owner of a connection, with the handler that is called for each message.
The flag a handler returns says that it threw. -/
structure Receiver (σ : Type u) : Type u where
  /-- the connection -/
  conn : σ → TcpConnection
  /-- replace the connection -/
  setConn : TcpConnection → σ → σ
  /-- `m_pHandler->onRecv` -/
  onRecv : σ → NetMessage → σ × Bool
  /-- what was replaced is read back -/
  conn_setConn : ∀ c s, conn (setConn c s) = c
  /-- handlers do not reach into the read buffer -/
  readBuffer_onRecv : ∀ s m, (conn (onRecv s m).1).readBuffer = (conn s).readBuffer

/-- What one `handle_read` leaves behind: the owner's state, the messages passed to
the handler, and whether the handler threw. -/
structure ReadOutcome (σ : Type u) : Type u where
  /-- the state afterwards -/
  state : σ
  /-- the messages passed to `onRecv`, in order -/
  dispatched : List NetMessage
  /-- the last of them threw -/
  threw : Bool

namespace Receiver

variable {σ : Type u} (R : Receiver σ) (o : ByteOrder)

/-- The loop of `handle_read`, on the bytes `m_ReadBuffer + offset` of which
`totalLen` were read. A handler that throws leaves the loop. -/
def readLoop (offset : ℕ) (totalLen : ℤ) (s : σ) : ReadOutcome σ :=
  if 0 < totalLen then
    let r := NetMessage.blank.deserialize o ((R.conn s).readBuffer.bytes.drop offset) totalLen
    if _h : r.2 = 0 then ⟨s, [], false⟩
    else
      let t := R.onRecv s r.1
      if t.2 then ⟨t.1, [r.1], true⟩
      else
        let rest := readLoop (offset + r.2.toNat) (totalLen - r.2) t.1
        ⟨rest.state, r.1 :: rest.dispatched, rest.threw⟩
  else ⟨s, [], false⟩
termination_by totalLen.toNat
decreasing_by
  have hpos : 0 < (NetMessage.blank.deserialize o ((R.conn s).readBuffer.bytes.drop offset)
      totalLen).2 := lt_of_le_of_ne (NetMessage.deserialize_nonneg _ _ _) (Ne.symm _h)
  omega

/-- `handle_read`. `read` is what `read_some` brings, at most `MSG_MAXIMUM` bytes, or
`none` when it fails; an exception of the handler is caught and logged, and the
next read is armed. -/
def handleRead (err : ErrorCode) (read : Option (List UInt8)) (s : σ) : ReadOutcome σ :=
  let c := { R.conn s with readInProgress := false }
  match err with
  | .success =>
    match read with
    | some chunk =>
      let chunk := chunk.take msgMaximum
      let s := R.setConn { c with readBuffer := c.readBuffer.fill chunk } s
      let out := R.readLoop o 0 chunk.length s
      { out with state := R.setConn (R.conn out.state).postRead out.state }
    | none => ⟨R.setConn c.postRead s, [], false⟩
  | _ => ⟨R.setConn c.close s, [], false⟩

/-- The messages passed to the handler while the chunks of a stream are read one
after the other. -/
def readAll : List (List UInt8) → σ → List NetMessage
  | [], _ => []
  | chunk :: chunks, s =>
    let out := R.handleRead o .success (some chunk) s
    out.dispatched ++ readAll chunks out.state

/-- Hand messages to the handler one after the other, until one throws. -/
def feed : List NetMessage → σ → ReadOutcome σ
  | [], s => ⟨s, [], false⟩
  | m :: ms, s =>
    let t := R.onRecv s m
    if t.2 then ⟨t.1, [m], true⟩
    else
      let rest := feed ms t.1
      ⟨rest.state, m :: rest.dispatched, rest.threw⟩

variable {R o}

theorem feed_cons_threw {s : σ} {m : NetMessage} (ms : List NetMessage)
    (h : (R.onRecv s m).2 = true) : R.feed (m :: ms) s = ⟨(R.onRecv s m).1, [m], true⟩ := by
  rw [feed]
  simp only [h, if_true]

theorem feed_cons_returned {s : σ} {m : NetMessage} (ms : List NetMessage)
    (h : (R.onRecv s m).2 = false) :
    R.feed (m :: ms) s =
      ⟨(R.feed ms (R.onRecv s m).1).state, m :: (R.feed ms (R.onRecv s m).1).dispatched,
        (R.feed ms (R.onRecv s m).1).threw⟩ := by
  rw [feed]
  simp only [h, Bool.false_eq_true, if_false]

theorem dispatched_feed (hret : ∀ s m, (R.onRecv s m).2 = false) :
    ∀ (ms : List NetMessage) (s : σ), (R.feed ms s).dispatched = ms := by
  intro ms
  induction ms with
  | nil => intro s; rfl
  | cons m ms ih =>
    intro s
    rw [feed_cons_returned ms (hret s m), ih]

/-- The loop finds in the part of the buffer that was read what the greedy reader of
the wire format finds there, and hands it to the handler message by message. -/
theorem readLoop_eq_feed :
    ∀ (bs rest : List UInt8) (offset : ℕ) (s : σ),
      (R.conn s).readBuffer.bytes.drop offset = bs ++ rest →
      R.readLoop o offset bs.length s =
        R.feed (((wire o).decodeAll bs).1.map Packet.received) s := by
  intro bs
  -- induction along the reader: each round removes one frame from `bs`
  induction bs using FrameFormat.decodeAll.induct (wire o) with
  | case1 bs hnone =>
    intro rest offset s hbuf
    have hzero : (NetMessage.blank.deserialize o (bs ++ rest) bs.length).2 = 0 := by
      rw [NetMessage.deserialize_append]
      by_contra hne
      simp [wire, hne] at hnone
    rw [(wire o).decodeAll_of_none hnone, readLoop]
    split
    · rw [hbuf]
      simp only [hzero, dif_pos]
      rfl
    · rfl
  | case2 bs p bs' hsome ih =>
    intro rest offset s hbuf
    have hdes := NetMessage.deserialize_append (o := o) .blank bs rest
    obtain ⟨hne, hmsg, hbs'⟩ := wire_decode_some hsome
    set r := NetMessage.blank.deserialize o bs bs.length with hr
    obtain ⟨hlo, hhi, -⟩ := NetMessage.serialize_deserialize (o := o) le_rfl hne
    rw [← hr] at hlo hhi
    have hpos : (0 : ℤ) < bs.length := by
      have : (0 : ℤ) < msgHead := by decide
      omega
    have hlen : (bs.length : ℤ) - r.2 = bs'.length := by
      rw [hbs', List.length_drop]
      omega
    -- the rest of the buffer after this frame is the rest of the bytes
    have hnext : (R.conn (R.onRecv s r.1).1).readBuffer.bytes.drop (offset + r.2.toNat) =
        bs' ++ rest := by
      rw [R.readBuffer_onRecv, ← List.drop_drop, hbuf, hbs',
        List.drop_append_of_le_length (by omega)]
    have htail := ih rest (offset + r.2.toNat) (R.onRecv s r.1).1 hnext
    rw [(wire o).decodeAll_of_some hsome, List.map_cons, ← hmsg, readLoop, if_pos hpos, hbuf, hdes]
    simp only [dif_neg hne, hlen, htail]
    rfl

/-- One `handle_read`: what is in the chunk is handed to the handler, then the next
read is armed. -/
theorem handleRead_eq_feed {chunk : List UInt8} (hlen : chunk.length ≤ msgMaximum) (s : σ) :
    R.handleRead o .success (some chunk) s =
      let out := R.feed (((wire o).decodeAll chunk).1.map Packet.received)
        (R.setConn { R.conn s with
          readInProgress := false, readBuffer := (R.conn s).readBuffer.fill chunk } s)
      { out with state := R.setConn (R.conn out.state).postRead out.state } := by
  have htake : chunk.take msgMaximum = chunk := List.take_of_length_le hlen
  simp only [handleRead, htake]
  rw [readLoop_eq_feed chunk ((R.conn s).readBuffer.bytes.drop chunk.length)]
  rw [R.conn_setConn, List.drop_zero]
  exact Buffer.bytes_fill _ hlen

/-- What one `handle_read` dispatches. -/
theorem dispatched_handleRead (hret : ∀ s m, (R.onRecv s m).2 = false) {chunk : List UInt8}
    (hlen : chunk.length ≤ msgMaximum) (s : σ) :
    (R.handleRead o .success (some chunk) s).dispatched.map NetMessage.packet =
      ((wire o).decodeAll chunk).1 := by
  rw [handleRead_eq_feed hlen]
  simp only [dispatched_feed hret, List.map_map]
  exact List.map_id _

/-- Over a whole stream the handler is given what a receiver without memory reads. -/
theorem readAll_eq_deliver (hret : ∀ s m, (R.onRecv s m).2 = false) :
    ∀ (chunks : List (List UInt8)) (s : σ), (∀ c ∈ chunks, c.length ≤ msgMaximum) →
      (R.readAll o chunks s).map NetMessage.packet = (wire o).deliver chunks := by
  intro chunks
  induction chunks with
  | nil => intro s _; rfl
  | cons chunk chunks ih =>
    intro s hlen
    have hhead := dispatched_handleRead (o := o) hret (hlen chunk (List.mem_cons_self ..)) s
    have htail := ih (R.handleRead o .success (some chunk) s).state
      fun c hc => hlen c (List.mem_cons_of_mem _ hc)
    rw [readAll, List.map_append, hhead, htail, FrameFormat.deliver_cons]

end Receiver

/-! ## Which segmentations come through -/

/-- The bytes the sender puts on the stream for a message. -/
def NetMessage.wireBytes (o : ByteOrder) (m : NetMessage) : List UInt8 := (m.serialize o).1.frame

/-- Equal concatenations of pieces of equal lengths have equal pieces. -/
theorem eq_of_flatMap_eq {α β : Type*} {f g : α → List β} :
    ∀ {l : List α}, (∀ a ∈ l, (f a).length = (g a).length) → l.flatMap f = l.flatMap g →
      ∀ a ∈ l, f a = g a := by
  intro l
  induction l with
  | nil => exact fun _ _ a ha => absurd ha List.not_mem_nil
  | cons b l ih =>
    intro hlen heq a ha
    rw [List.flatMap_cons, List.flatMap_cons] at heq
    obtain ⟨hb, hl⟩ := List.append_inj heq (hlen b (List.mem_cons_self ..))
    rcases List.mem_cons.mp ha with rfl | ha
    · exact hb
    · exact ih (fun a ha => hlen a (List.mem_cons_of_mem _ ha)) hl a ha

/-- A grouping of the images is the image of a grouping. -/
theorem exists_groups {α β : Type*} (f : α → β) :
    ∀ {groups : List (List β)} {l : List α}, groups.flatten = l.map f →
      ∃ groups' : List (List α), groups'.flatten = l ∧ groups'.map (List.map f) = groups := by
  intro groups
  induction groups with
  | nil =>
    intro l h
    obtain rfl : l = [] := List.map_eq_nil_iff.mp h.symm
    exact ⟨[], rfl, rfl⟩
  | cons g gs ih =>
    intro l h
    rw [List.flatten_cons] at h
    obtain ⟨a, b, rfl, ha, hb⟩ := List.map_eq_append_iff.mp h.symm
    obtain ⟨groups', hflat, hmap⟩ := ih hb.symm
    exact ⟨a :: groups', by rw [List.flatten_cons, hflat], by rw [List.map_cons, ha, hmap]⟩

namespace Receiver

variable {σ : Type u} {R : Receiver σ} {o : ByteOrder}

theorem length_wireBytes {m : NetMessage} (h : (m.serialize o).2 = true) :
    (m.wireBytes o).length = (m.packet.bytes o).length := by
  rw [NetMessage.wireBytes, NetMessage.length_frame_serialize h, Packet.length_bytes]
  rfl

theorem wireBytes_eq_iff {m : NetMessage} (h : (m.serialize o).2 = true) :
    m.wireBytes o = m.packet.bytes o ↔ m.Consistent := by
  refine ⟨fun heq => ?_, fun hc => NetMessage.frame_serialize hc h⟩
  rw [NetMessage.wireBytes, (NetMessage.serialize_spec h).2.2.2, Packet.bytes, Packet.bytesWith,
    Packet.bytesWith, List.append_cancel_right_eq, List.append_cancel_left_eq] at heq
  exact o.encode_injective heq

/-- **Which segmentations come through.** Messages that serialize are sent as one
stream; the stream arrives cut into non-empty chunks of at most `MSG_MAXIMUM` bytes,
one for each `handle_read`, and no handler throws. Then the handler is given exactly
the sent messages, once each and in order, if and only if every sent object records
the true length of its body, every cut falls between two frames, and every chunk is
shorter than `MSG_MAXIMUM`. -/
theorem handleRead_delivers_iff (hret : ∀ s m, (R.onRecv s m).2 = false)
    (msgs : List NetMessage) (hser : ∀ m ∈ msgs, (m.serialize o).2 = true)
    (chunks : List (List UInt8)) (hcut : chunks.flatten = msgs.flatMap (NetMessage.wireBytes o))
    (hchunk : ∀ c ∈ chunks, c ≠ [] ∧ c.length ≤ msgMaximum) (s : σ) :
    (R.readAll o chunks s).map NetMessage.packet = msgs.map NetMessage.packet ↔
      (∀ m ∈ msgs, m.Consistent) ∧
        ∃ groups : List (List NetMessage), groups.flatten = msgs ∧
          chunks = groups.map (fun g => g.flatMap (NetMessage.wireBytes o)) ∧
          ∀ c ∈ chunks, c.length < msgMaximum := by
  have hbytes : (msgs.map NetMessage.packet).flatMap (wire o).encode =
      msgs.flatMap fun m => m.packet.bytes o := by
    rw [List.flatMap_map]
    rfl
  have hlen : chunks.flatten.length =
      ((msgs.map NetMessage.packet).flatMap (wire o).encode).length := by
    rw [hcut, hbytes, List.length_flatMap, List.length_flatMap]
    congr 1
    exact List.map_congr_left fun m hm => length_wireBytes (hser m hm)
  rw [readAll_eq_deliver hret chunks s fun c hc => (hchunk c hc).2,
    (wire o).deliver_eq_iff (fun c hc => (hchunk c hc).1) hlen]
  refine ⟨fun h => ?_, fun h => ?_⟩
  · obtain ⟨groups, hflat, hmap, hlt⟩ := h
    -- the two readings of the stream agree, so every object wrote its own frame
    have hsame : msgs.flatMap (NetMessage.wireBytes o) =
        msgs.flatMap fun m => m.packet.bytes o := by
      rw [← hcut, ← hbytes, ← hflat, hmap, List.flatMap_def, List.map_flatten,
        List.flatten_flatten, List.map_map]
      rfl
    have hframe := eq_of_flatMap_eq (fun m hm => length_wireBytes (hser m hm)) hsame
    refine ⟨fun m hm => (wireBytes_eq_iff (hser m hm)).mp (hframe m hm), ?_⟩
    obtain ⟨groups', rfl, rfl⟩ := exists_groups NetMessage.packet hflat
    refine ⟨groups', rfl, ?_, hlt⟩
    rw [hmap, List.map_map]
    refine List.map_congr_left fun g hg => ?_
    rw [Function.comp, List.flatMap_map]
    exact (List.flatMap_congr fun m hm => hframe m (List.mem_flatten_of_mem hg hm)).symm
  · obtain ⟨hcons, groups, rfl, hmap, hlt⟩ := h
    refine ⟨groups.map (List.map NetMessage.packet), ?_, ?_, hlt⟩
    · rw [List.map_flatten]
    · rw [hmap, List.map_map]
      refine List.map_congr_left fun g hg => ?_
      rw [Function.comp, List.flatMap_map]
      refine List.flatMap_congr fun m hm => ?_
      have hmem := List.mem_flatten_of_mem hg hm
      exact (wireBytes_eq_iff (hser m hmem)).mpr (hcons m hmem)

/-- The receiver that looks at no message. -/
def sink : Receiver TcpConnection where
  conn := id
  setConn c _ := c
  onRecv s _ := (s, false)
  conn_setConn _ _ := rfl
  readBuffer_onRecv _ _ := rfl

/-- A heartbeat request and two messages with a body -/
def threeMessages : List NetMessage :=
  [.ofJson [] 1002 7 0, .ofJson [123, 125] 2004 0 1, .ofJson [91, 93] 10004 7 0]

/-- They arrive in two chunks, of two messages and of one. -/
theorem handleRead_delivers_three :
    (sink.readAll .little
        [(threeMessages.take 2).flatMap (NetMessage.wireBytes .little),
          (threeMessages.drop 2).flatMap (NetMessage.wireBytes .little)]
        (.opened 0 0)).map NetMessage.packet =
      threeMessages.map NetMessage.packet :=
  (handleRead_delivers_iff (R := sink) (o := .little) (fun _ _ => rfl) threeMessages (by decide)
    [(threeMessages.take 2).flatMap (NetMessage.wireBytes .little),
      (threeMessages.drop 2).flatMap (NetMessage.wireBytes .little)]
    (by decide) (by decide) (.opened 0 0)).mpr
    ⟨by decide, [threeMessages.take 2, threeMessages.drop 2], rfl, by decide, by decide⟩

/-- The same request cut in the middle of its header, as a stream may be: both
halves are dropped. -/
theorem handleRead_loses_split_header :
    ((NetMessage.ofJson [] 1002 7 0).serialize .little).2 = true ∧
      [((NetMessage.ofJson [] 1002 7 0).wireBytes .little).take 8,
        ((NetMessage.ofJson [] 1002 7 0).wireBytes .little).drop 8].flatten =
        (NetMessage.ofJson [] 1002 7 0).wireBytes .little ∧
      (sink.readAll .little
          [((NetMessage.ofJson [] 1002 7 0).wireBytes .little).take 8,
            ((NetMessage.ofJson [] 1002 7 0).wireBytes .little).drop 8]
          (.opened 0 0)).map NetMessage.packet ≠
        [(NetMessage.ofJson [] 1002 7 0).packet] := by
  refine ⟨by decide, by decide, ?_⟩
  rw [readAll_eq_deliver (fun _ _ => rfl) _ _ (by decide), FrameFormat.deliver_cons,
    FrameFormat.deliver_cons, FrameFormat.deliver_nil,
    FrameFormat.decodeAll_of_none _ (by decide), FrameFormat.decodeAll_of_none _ (by decide)]
  exact fun h => nomatch h

end Receiver

end MyServer
