import MyServer.ReadPath
import Mathlib.Algebra.Order.BigOperators.Group.List

/-!
# Laws of one read (`message.cpp`, `tcpConnection.cpp`)

What can be relied on when bytes come in, one decode at a time and one `handle_read` at a
time.

A decode looks at the whole of the bytes that are left, so a frame is found only if they
are fewer than `MSG_MAXIMUM` (`deserialize_append_iff`), and it writes the header fields
before it has seen whether the message is there (`intact_iff`). The loop of `handle_read`
finds all the frames of what was read and looks at nothing else (`handleRead_parses`); the
handlers are called in one `try`, so the first that throws takes the frames behind it along
(`handleRead_isolates_iff`).
-/

namespace MyServer

universe u

/-! ## One decode -/

namespace NetMessage

variable {o : ByteOrder} {m : NetMessage}

theorem wireBytes_eq (h : (m.serialize o).2 = true) :
    m.wireBytes o = m.packet.bytesWith o m.contentLength := (serialize_spec h).2.2.2

/-- The length word of a frame, whatever follows. -/
theorem lengthWord_bytesWith (p : Packet) (n : Int32) (suffix : List UInt8) :
    lengthWord o (p.bytesWith o n ++ suffix) = n.toInt := by
  rw [lengthWord, (p.words_bytesWith n suffix).2.2.2.1, o.decode_encode]

/-- **A frame and what follows it.** The frame of a message that serializes, with any bytes
behind it, is decoded to its length and to the fields of the message, if and only if the
object records the true length of its body and the bytes are fewer than `MSG_MAXIMUM`. One
read can bring `MSG_MAXIMUM` bytes. -/
theorem deserialize_append_iff (m' : NetMessage) (h : (m.serialize o).2 = true)
    (suffix : List UInt8) :
    let r := m'.deserialize o (m.wireBytes o ++ suffix) (m.wireBytes o ++ suffix).length
    (r.2 = (m.wireBytes o).length ∧ r.1.packet = m.packet) ↔
      m.Consistent ∧ (m.wireBytes o ++ suffix).length < msgMaximum := by
  intro r
  have hlen : (m.wireBytes o).length = msgHead + m.message.length := length_frame_serialize h
  constructor
  · rintro ⟨hres, -⟩
    have hne : r.2 ≠ 0 := by
      rw [hres, hlen]
      have : 0 < msgHead := by decide
      omega
    obtain ⟨hlo, hhi, hword, hnonneg⟩ := deserialize_ne_zero hne
    refine ⟨?_, by omega⟩
    -- the number of bytes that were taken tells the length word
    have hspec : r.2 = ((msgHead + (lengthWord o (m.wireBytes o ++ suffix)).toNat : ℕ) : ℤ) := by
      rw [show r = _ from deserialize_spec o m' hlo hhi, if_pos ⟨hword, hnonneg⟩]
    have hcount : lengthWord o (m.wireBytes o ++ suffix) = m.contentLength.toInt := by
      rw [wireBytes_eq h, lengthWord_bytesWith]
    rw [hcount] at hspec hnonneg
    have hbody : m.contentLength.toInt = m.message.length := by omega
    rw [Consistent, ← Int32.ofInt_toInt (x := m.contentLength), hbody, Int32.ofInt_eq_ofNat]
  · rintro ⟨hcons, hlt⟩
    have hbytes : m.wireBytes o = m.packet.bytes o := frame_serialize hcons h
    have hlo : ((m.packet.bytes o).length : ℤ) ≤ (m.wireBytes o ++ suffix).length := by
      rw [hbytes, List.length_append]
      omega
    have hdec := deserialize_bytes (o := o) m' m.packet suffix hlo (by omega)
    rw [← hbytes] at hdec
    exact hdec

/-- A heartbeat request with one byte behind it. -/
theorem deserialize_append_heartbeat :
    let m := ofJson [] 1002 7 0
    let r := blank.deserialize .little (m.wireBytes .little ++ [0])
      (m.wireBytes .little ++ [0]).length
    r.2 = (m.wireBytes .little).length ∧ r.1.packet = m.packet :=
  (deserialize_append_iff (o := .little) blank (m := ofJson [] 1002 7 0) (by decide) [0]).mpr
    (by decide)

/-- The same with so many bytes behind it that the read is full: nothing is decoded. -/
theorem deserialize_append_fails_when_full :
    let m := ofJson [] 1002 7 0
    let suffix := List.replicate (msgMaximum - msgHead) 0
    let r := blank.deserialize .little (m.wireBytes .little ++ suffix)
      (m.wireBytes .little ++ suffix).length
    (m.serialize .little).2 = true ∧ (m.wireBytes .little ++ suffix).length = msgMaximum ∧
      r.2 = 0 ∧ r.1.packet ≠ m.packet := by
  intro m suffix r
  have hser : (m.serialize .little).2 = true := by decide
  have hlen : (m.wireBytes .little ++ suffix).length = msgMaximum := by
    rw [List.length_append, wireBytes, length_frame_serialize hser, List.length_replicate]
    decide
  have hr : r = (blank, 0) := deserialize_refused _ _ (.inl (by rw [hlen]))
  refine ⟨hser, hlen, congrArg Prod.snd hr, ?_⟩
  rw [hr]
  decide

/-! ## A decode that fails -/

/-- If the object serializes, its frame is decoded to its own fields. -/
def EmitsOwn (o : ByteOrder) (m : NetMessage) : Prop :=
  (m.serialize o).2 = true → ∀ m₀ : NetMessage,
    (m₀.deserialize o (m.wireBytes o) (m.wireBytes o).length).2 ≠ 0 ∧
      (m₀.deserialize o (m.wireBytes o) (m.wireBytes o).length).1.packet = m.packet

/-- The object is as it was: what the getters return, the length that `serialize` writes,
and what can be said of its frame. -/
structure Intact (o : ByteOrder) (m m' : NetMessage) : Prop where
  /-- `getProto` -/
  proto : m'.proto = m.proto
  /-- `getPlayerId` -/
  playerId : m'.playerId = m.playerId
  /-- `getNetId` -/
  netId : m'.netId = m.netId
  /-- `getMessage` -/
  message : m'.message = m.message
  /-- `getLen` -/
  len : m'.len = m.len
  /-- `m_nContentLength` -/
  contentLength : m'.contentLength = m.contentLength
  /-- the frame -/
  emitsOwn : m.EmitsOwn o → m'.EmitsOwn o

/-- The header in front of `buff` is the one the object has, and the object was last left
behind a header. -/
structure SameHeader (o : ByteOrder) (m : NetMessage) (buff : List UInt8) : Prop where
  /-- the first word -/
  proto : o.decode (buff.take intSize) = m.proto
  /-- the second word -/
  playerId : o.decode ((buff.drop 4).take intSize) = m.playerId
  /-- the third word -/
  netId : o.decode ((buff.drop 8).take intSize) = m.netId
  /-- the length word -/
  contentLength : o.decode ((buff.drop 12).take intSize) = m.contentLength
  /-- `m_nLen` -/
  len : m.len = msgHead

theorem Intact.refl (o : ByteOrder) (m : NetMessage) : m.Intact o m :=
  ⟨rfl, rfl, rfl, rfl, rfl, rfl, fun h => h⟩

/-- A failed decode on a size that is not refused: the header has been read. -/
theorem deserialize_failed {buff : List UInt8} {size : ℤ} (h : (m.deserialize o buff size).2 = 0)
    (hlo : msgHead ≤ size) (hhi : size < msgMaximum) :
    (m.deserialize o buff size).1 =
      { m with
        proto := o.decode (buff.take intSize)
        playerId := o.decode ((buff.drop 4).take intSize)
        netId := o.decode ((buff.drop 8).take intSize)
        contentLength := o.decode ((buff.drop 12).take intSize)
        len := msgHead } := by
  rw [deserialize_spec o m hlo hhi] at h ⊢
  split at h
  · have hpos : 0 < msgHead := by decide
    omega
  · rename_i hword
    rw [if_neg hword]

/-- **A failed decode.** When `deserialize` returns 0 the object is as it was, if and only
if the size was refused at once or the header is the one the object had. -/
theorem intact_iff {buff : List UInt8} {size : ℤ} (h : (m.deserialize o buff size).2 = 0) :
    m.Intact o (m.deserialize o buff size).1 ↔
      ((msgMaximum : ℤ) ≤ size ∨ size < msgHead) ∨ m.SameHeader o buff := by
  by_cases hbad : (msgMaximum : ℤ) ≤ size ∨ size < msgHead
  · rw [deserialize_refused o m hbad]
    exact iff_of_true (.refl o m) (.inl hbad)
  · rw [deserialize_failed h (by omega) (by omega)]
    constructor
    · intro hi
      exact .inr ⟨hi.proto, hi.playerId, hi.netId, hi.contentLength, hi.len.symm⟩
    · rintro (hbad' | hs)
      · exact absurd hbad' hbad
      · rw [hs.proto, hs.playerId, hs.netId, hs.contentLength, ← hs.len]
        exact .refl o m

/-- Three bytes are refused at once; and a header that promises a body of one byte leaves the
object as it was, if the object has just failed on the same header. -/
theorem intact_second_time :
    let header := [1, 0, 0, 0, 7, 0, 0, 0, 3, 0, 0, 0, 1, 0, 0, 0]
    let m := ((ofJson [97, 98] 2002 7 3).deserialize .little header 16).1
    ((blank.deserialize .little [1, 2, 3] 3).2 = 0 ∧
        blank.Intact .little (blank.deserialize .little [1, 2, 3] 3).1) ∧
      (m.deserialize .little header 16).2 = 0 ∧
      m.Intact .little (m.deserialize .little header 16).1 := by
  intro header m
  have hsame : m.SameHeader .little header :=
    ⟨by decide, by decide, by decide, by decide, by decide⟩
  exact ⟨⟨by decide, (intact_iff (by decide)).mpr (.inl (by decide))⟩, by decide,
    (intact_iff (by decide)).mpr (.inr hsame)⟩

/-- A header that promises a body of one byte, and no body: the protocol id of the object
has changed, and so has the length it writes. The frame it then serializes to is not
decoded to its fields. -/
theorem intact_fails_on_missing_body :
    let m := ofJson [97, 98] 2002 7 3
    let m' := (m.deserialize .little [1, 0, 0, 0, 7, 0, 0, 0, 3, 0, 0, 0, 1, 0, 0, 0] 16).1
    (m.deserialize .little [1, 0, 0, 0, 7, 0, 0, 0, 3, 0, 0, 0, 1, 0, 0, 0] 16).2 = 0 ∧
      m'.proto = 1 ∧ m'.len = 16 ∧ m'.contentLength = 1 ∧ m'.message = [97, 98] ∧
      (m'.serialize .little).2 = true ∧
      (blank.deserialize .little (m'.wireBytes .little) (m'.wireBytes .little).length).1.packet ≠
        m'.packet ∧
      ¬ m.Intact .little m' := by
  intro m m'
  have hproto : m'.proto = 1 := by decide
  refine ⟨by decide, hproto, by decide, by decide, by decide, by decide, by decide, ?_⟩
  intro hi
  have hsame := hi.proto
  rw [hproto] at hsame
  exact absurd hsame (by decide)

/-! ## What a decode looks at -/

/-- Where `deserialize` copies from `buff`: the offset and the number of bytes of each
`memcpy`, and of the `assign` behind the length test. -/
def reads (o : ByteOrder) (buff : List UInt8) (size : ℤ) : List (ℕ × ℕ) :=
  if (msgMaximum : ℤ) ≤ size ∨ size < msgHead then []
  else
    let header := [(0, intSize), (4, intSize), (8, intSize), (12, intSize)]
    let contentLength := lengthWord o buff
    if contentLength ≤ size - msgHead ∧ 0 ≤ contentLength then
      header ++ [(msgHead, contentLength.toNat)]
    else header

theorem reads_le {buff : List UInt8} {size : ℤ} {a : ℕ × ℕ} (h : a ∈ reads o buff size) :
    ((a.1 + a.2 : ℕ) : ℤ) ≤ size := by
  rw [reads] at h
  split at h
  · cases h
  · rename_i hok
    have hlo : (msgHead : ℤ) ≤ size := by omega
    have hheader : ∀ b ∈ [(0, intSize), (4, intSize), (8, intSize), (12, intSize)],
        b.1 + b.2 ≤ msgHead := by decide
    dsimp only at h
    split at h
    · rename_i hword
      rcases List.mem_append.mp h with h | h
      · have hle := hheader a h
        omega
      · rw [List.mem_singleton.mp h]
        dsimp only
        omega
    · have hle := hheader a h
      omega

end NetMessage

/-! ## One read -/

namespace Receiver

variable {σ : Type u} (R : Receiver σ) (o : ByteOrder)

/-- The state in which the loop of `handle_read` starts. -/
def atLoop (chunk : List UInt8) (s : σ) : σ :=
  R.setConn { R.conn s with
    readInProgress := false, readBuffer := (R.conn s).readBuffer.fill chunk } s

/-- A round of the loop of `handle_read`: where it is in `m_ReadBuffer`, how many bytes are
left, and the state it starts in. -/
structure Round (σ : Type u) : Type u where
  /-- the offset -/
  offset : ℕ
  /-- `total_len` -/
  totalLen : ℤ
  /-- the state -/
  state : σ

/-- What a round calls `deserialize` on. -/
def Round.buff (r : Round σ) : List UInt8 := (R.conn r.state).readBuffer.bytes.drop r.offset

/-- The message that a round passes on, if there is one. -/
def Round.message (r : Round σ) : Option NetMessage :=
  let d := NetMessage.blank.deserialize o (r.buff R) r.totalLen
  if d.2 = 0 then none else some d.1

/-- Where a round looks into `m_ReadBuffer`. -/
def Round.reads (r : Round σ) : List (ℕ × ℕ) :=
  (NetMessage.reads o (r.buff R) r.totalLen).map fun a => (r.offset + a.1, a.2)

/-- The rounds of the loop. -/
def rounds (offset : ℕ) (totalLen : ℤ) (s : σ) : List (Round σ) :=
  if 0 < totalLen then
    let r := NetMessage.blank.deserialize o ((R.conn s).readBuffer.bytes.drop offset) totalLen
    if _h : r.2 = 0 then [⟨offset, totalLen, s⟩]
    else
      let t := R.onRecv s r.1
      if t.2 then [⟨offset, totalLen, s⟩]
      else ⟨offset, totalLen, s⟩ :: rounds (offset + r.2.toNat) (totalLen - r.2) t.1
  else []
termination_by totalLen.toNat
decreasing_by
  have hpos : 0 < (NetMessage.blank.deserialize o ((R.conn s).readBuffer.bytes.drop offset)
      totalLen).2 := lt_of_le_of_ne (NetMessage.deserialize_nonneg _ _ _) (Ne.symm _h)
  omega

/-- Where the loop of `handle_read` looks into `m_ReadBuffer`. -/
def loopReads (offset : ℕ) (totalLen : ℤ) (s : σ) : List (ℕ × ℕ) :=
  (R.rounds o offset totalLen s).flatMap (Round.reads R o)

variable {R o}

/-- **The rounds are those of the loop**: what it passes on is what they find, one after the
other. -/
theorem dispatched_readLoop (offset : ℕ) (totalLen : ℤ) (s : σ) :
    (R.readLoop o offset totalLen s).dispatched =
      (R.rounds o offset totalLen s).filterMap (Round.message R o) := by
  fun_induction R.rounds o offset totalLen s with
  | case1 offset totalLen s hpos r hzero =>
    have hmessage : Round.message R o ⟨offset, totalLen, s⟩ = none := if_pos hzero
    rw [readLoop, if_pos hpos, dif_pos hzero, List.filterMap_cons_none hmessage]
    rfl
  | case2 offset totalLen s hpos r hzero t hthrew =>
    have hmessage : Round.message R o ⟨offset, totalLen, s⟩ = some r.1 := if_neg hzero
    rw [readLoop, if_pos hpos, dif_neg hzero, List.filterMap_cons_some hmessage]
    dsimp only
    rw [if_pos hthrew]
    rfl
  | case3 offset totalLen s hpos r hzero t hthrew ih =>
    have hmessage : Round.message R o ⟨offset, totalLen, s⟩ = some r.1 := if_neg hzero
    rw [readLoop, if_pos hpos, dif_neg hzero, List.filterMap_cons_some hmessage, ← ih]
    dsimp only
    rw [if_neg hthrew]
  | case4 offset totalLen s hpos =>
    rw [readLoop, if_neg hpos]
    rfl

/-- A round has the bytes from its offset to the end of the read. -/
theorem offset_add_totalLen {r : Round σ} {offset : ℕ} {totalLen : ℤ} {s : σ}
    (h : r ∈ R.rounds o offset totalLen s) : r.offset + r.totalLen = offset + totalLen := by
  fun_induction R.rounds o offset totalLen s with
  | case1 | case2 => rw [List.mem_singleton.mp h]
  | case3 offset totalLen s hpos d hzero t hthrew ih =>
    rcases List.mem_cons.mp h with rfl | h
    · rfl
    · have hnonneg : 0 ≤ d.2 := NetMessage.deserialize_nonneg _ _ _
      have hsum := ih h
      omega
  | case4 => cases h

/-- Every look is at the bytes that were read. -/
theorem loopReads_le (offset : ℕ) (totalLen : ℤ) (s : σ) :
    ∀ a ∈ R.loopReads o offset totalLen s, ((a.1 + a.2 : ℕ) : ℤ) ≤ offset + totalLen := by
  intro a ha
  obtain ⟨r, hr, ha⟩ := List.mem_flatMap.mp ha
  obtain ⟨b, hb, rfl⟩ := List.mem_map.mp ha
  have hle := NetMessage.reads_le hb
  have hsum := offset_add_totalLen hr
  dsimp only
  omega

/-- The bytes behind the last frame: none, less than a header, or a header whose length
word does not fit them. -/
def Incomplete (o : ByteOrder) (rest : List UInt8) : Prop :=
  rest = [] ∨ rest.length < msgHead ∨ NetMessage.lengthWord o rest < 0 ∨
    (rest.length : ℤ) - msgHead < NetMessage.lengthWord o rest

theorem incomplete_of_decode {rest : List UInt8} (hlen : rest.length < msgMaximum)
    (h : (wire o).decode rest = none) : Incomplete o rest := by
  have hzero : (NetMessage.blank.deserialize o rest rest.length).2 = 0 := by
    by_contra hne
    simp [wire, hne] at h
  by_cases hlo : rest.length < msgHead
  · exact .inr (.inl hlo)
  rw [NetMessage.deserialize_spec o .blank (by omega) (by omega)] at hzero
  split at hzero
  · have hpos : 0 < msgHead := by decide
    omega
  · rename_i hword
    rw [not_and_or, not_le, not_le] at hword
    exact .inr (.inr hword.symm)

/-- The frame of a message that was received is the one it came in. -/
theorem wireBytes_received {p : Packet} (h : (p.bytes o).length < msgMaximum) :
    p.received.wireBytes o = p.bytes o := by
  rw [Packet.length_bytes] at h
  have hser : (p.received.serialize o).2 = true := NetMessage.serialize_eq_true_iff.mpr h
  exact NetMessage.frame_serialize rfl hser

/-- **One read is parsed.** Of fewer than `MSG_MAXIMUM` bytes, when no handler throws, the
frames of the messages that were passed on, in order, and the bytes behind them make up
what was read, and no other message begins behind them. The loop looks at nothing behind the
bytes that were read, and each round takes at least a header of them, so it ends. -/
theorem handleRead_parses (hret : ∀ s m, (R.onRecv s m).2 = false) {chunk : List UInt8}
    (hlen : chunk.length < msgMaximum) (s : σ) :
    let out := R.handleRead o .success (some chunk) s
    (∃ rest, chunk = out.dispatched.flatMap (NetMessage.wireBytes o) ++ rest ∧
        Incomplete o rest) ∧
      (∀ a ∈ R.loopReads o 0 chunk.length (R.atLoop chunk s), a.1 + a.2 ≤ chunk.length) ∧
      out.dispatched.length * msgHead ≤ chunk.length := by
  intro out
  have hsound := (wire o).decodeAll_sound chunk
  have hresidue := (wire o).decode_residue chunk
  set ps := ((wire o).decodeAll chunk).1
  set rest := ((wire o).decodeAll chunk).2
  have hdisp : out.dispatched = ps.map Packet.received := by
    rw [show out = _ from handleRead_eq_feed hlen.le s]
    exact dispatched_feed hret _ _
  have hbytes : chunk.length = (ps.map fun p => (p.bytes o).length).sum + rest.length := by
    have hcount := congrArg List.length hsound
    rwa [List.length_append, List.length_flatMap] at hcount
  have hframes : (ps.map Packet.received).flatMap (NetMessage.wireBytes o) =
      ps.flatMap (wire o).encode := by
    rw [List.flatMap_map]
    refine List.flatMap_congr fun p hp => wireBytes_received ?_
    have hone : (p.bytes o).length ≤ (ps.map fun p => (p.bytes o).length).sum :=
      List.single_le_sum (fun _ _ => Nat.zero_le _) _ (List.mem_map_of_mem hp)
    omega
  refine ⟨⟨rest, ?_, incomplete_of_decode (by omega) hresidue⟩, ?_, ?_⟩
  · rw [hdisp, hframes]
    exact hsound
  · intro a ha
    have hle := loopReads_le 0 chunk.length (R.atLoop chunk s) a ha
    omega
  · have hheads := List.card_nsmul_le_sum (ps.map fun p => (p.bytes o).length) msgHead (by
      intro n hn
      obtain ⟨p, -, rfl⟩ := List.mem_map.mp hn
      rw [Packet.length_bytes]
      exact Nat.le_add_right ..)
    rw [List.length_map, nsmul_eq_mul, Nat.cast_id] at hheads
    rw [hdisp, List.length_map]
    omega

/-- A heartbeat request and the first bytes of another message. -/
theorem handleRead_parses_heartbeat :
    let chunk := (NetMessage.ofJson [] 1002 7 0).wireBytes .little ++ [1, 0, 0]
    let out := sink.handleRead .little .success (some chunk) (.opened 0 0)
    (∃ rest, chunk = out.dispatched.flatMap (NetMessage.wireBytes .little) ++ rest ∧
        Incomplete .little rest) ∧
      (∀ a ∈ sink.loopReads .little 0 chunk.length (sink.atLoop chunk (.opened 0 0)),
        a.1 + a.2 ≤ chunk.length) ∧
      out.dispatched.length * msgHead ≤ chunk.length :=
  handleRead_parses (R := sink) (o := .little) (fun _ _ => rfl) (by decide) (.opened 0 0)

/-! ## Handlers that throw -/

/-- The state after a handler was called for these messages. -/
def after (R : Receiver σ) (ms : List NetMessage) (s : σ) : σ :=
  ms.foldl (fun s m => (R.onRecv s m).1) s

/-- The call for the message at `i` throws, when it comes after the calls for those before
it. -/
def throwsAt (R : Receiver σ) (ms : List NetMessage) (s : σ) (i : ℕ) : Bool :=
  ms[i]?.any fun m => (R.onRecv (R.after (ms.take i) s) m).2

theorem throwsAt_zero (R : Receiver σ) (m : NetMessage) (ms : List NetMessage) (s : σ) :
    R.throwsAt (m :: ms) s 0 = (R.onRecv s m).2 := rfl

/-- Everything is passed on exactly when none but the last call throws. -/
theorem dispatched_feed_iff (ms : List NetMessage) (s : σ) :
    (R.feed ms s).dispatched = ms ↔ ∀ i, i + 1 < ms.length → R.throwsAt ms s i = false := by
  induction ms generalizing s with
  | nil => exact iff_of_true rfl fun i hi => absurd hi (Nat.not_lt_zero _)
  | cons m ms ih =>
    rcases hthrew : (R.onRecv s m).2 with _ | _
    · rw [feed_cons_returned ms hthrew, List.cons.injEq, and_iff_right rfl, ih]
      constructor
      · intro h i hi
        cases i with
        | zero => exact hthrew
        | succ i => exact h i (Nat.lt_of_succ_lt_succ hi)
      · intro h i hi
        exact h (i + 1) (Nat.succ_lt_succ hi)
    · rw [feed_cons_threw ms hthrew, List.cons.injEq, and_iff_right rfl]
      constructor
      · rintro rfl i hi
        exact absurd hi (by simp)
      · intro h
        -- had a message been left, the first call would not have thrown
        cases ms with
        | nil => rfl
        | cons m' ms =>
          have hfalse := h 0 (by simp)
          rw [throwsAt_zero, hthrew] at hfalse
          cases hfalse

/-- **Fault isolation.** Of frames that come in one read of fewer than `MSG_MAXIMUM` bytes
each is passed to the handler once and in order, if and only if the handler throws for none
of them but the last. -/
theorem handleRead_isolates_iff (frames : List Packet)
    (hlen : (frames.flatMap (Packet.bytes o)).length < msgMaximum) (s : σ) :
    let chunk := frames.flatMap (Packet.bytes o)
    (R.handleRead o .success (some chunk) s).dispatched = frames.map Packet.received ↔
      ∀ i, i + 1 < frames.length →
        R.throwsAt (frames.map Packet.received) (R.atLoop chunk s) i = false := by
  intro chunk
  have hall : ((wire o).decodeAll chunk).1 = frames :=
    congrArg Prod.fst ((wire o).decodeAll_flatMap hlen)
  have hread := handleRead_eq_feed (R := R) (o := o) (Nat.le_of_lt hlen) s
  rw [hall] at hread
  rw [show (R.handleRead o .success (some chunk) s).dispatched = _ from
    congrArg ReadOutcome.dispatched hread]
  refine (dispatched_feed_iff _ _).trans ?_
  rw [List.length_map]
  rfl

/-- The receiver whose handler throws for requests with these protocol ids. -/
def refusing (protos : List Int32) : Receiver TcpConnection :=
  { sink with
    onRecv := fun s m => (s, protos.contains m.proto)
    readBuffer_onRecv := fun s _ => sink.readBuffer_onRecv s .blank }

/-- Two requests of which the second throws. -/
theorem handleRead_isolates_last :
    let frames : List Packet := [⟨1002, 7, 0, []⟩, ⟨2004, 7, 0, []⟩]
    ((refusing [2004]).handleRead .little .success (some (frames.flatMap (Packet.bytes .little)))
      (.opened 0 0)).dispatched = frames.map Packet.received :=
  (handleRead_isolates_iff (R := refusing [2004]) (o := .little)
    [⟨1002, 7, 0, []⟩, ⟨2004, 7, 0, []⟩] (by decide) (.opened 0 0)).mpr (by
      intro i hi
      obtain rfl : i = 0 := by
        change i + 1 < 2 at hi
        omega
      rfl)

/-- Two requests of which the first throws: the second is never passed on. -/
theorem handleRead_loses_behind_throw :
    let frames : List Packet := [⟨2004, 7, 0, []⟩, ⟨1002, 8, 1, []⟩]
    (frames.flatMap (Packet.bytes .little)).length < msgMaximum ∧
      ((refusing [2004]).handleRead .little .success
        (some (frames.flatMap (Packet.bytes .little))) (.opened 0 0)).dispatched =
        [Packet.received ⟨2004, 7, 0, []⟩] := by
  intro frames
  have hlen : (frames.flatMap (Packet.bytes .little)).length < msgMaximum := by decide
  have hall : ((wire .little).decodeAll (frames.flatMap (Packet.bytes .little))).1 = frames :=
    congrArg Prod.fst ((wire .little).decodeAll_flatMap hlen)
  have hread := handleRead_eq_feed (R := refusing [2004]) (o := .little) hlen.le (.opened 0 0)
  rw [hall] at hread
  refine ⟨hlen, (congrArg ReadOutcome.dispatched hread).trans ?_⟩
  exact congrArg ReadOutcome.dispatched (feed_cons_threw _ rfl)

end Receiver

end MyServer
