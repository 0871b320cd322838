import MyServer.Connection
import MyServer.Runs
import Mathlib.Algebra.BigOperators.Group.Finset.Basic

/-!
# Nothing accepted is lost on the way to the wire

The write side of a connection whose socket stays open: calls of `sendMessage`
and completions of the armed write, in any order. `NothingLost` is the invariant
one wants: the bytes on the wire followed by the bytes still pending are the
frames of the accepted messages.

`handle_write` clears `m_nWriteLen` after its loop, also when the loop was left
because `write_some` took nothing. So the invariant holds throughout a run exactly
when no call of `write_some` answers 0 while bytes are pending (`Drains`); this
is `nothingLost_always_iff`.
-/

namespace MyServer

open Finset

/-! ## The answers of `write_some` -/

/-- Starting from the `k`-th answer, no answer is 0 before `n` bytes are taken. -/
def Drains (writeSome : ℕ → ℕ) (k n : ℕ) : Prop :=
  ∀ j, ∑ i ∈ range j, writeSome (k + i) < n → 0 < writeSome (k + j)

theorem drains_zero (writeSome : ℕ → ℕ) (k : ℕ) : Drains writeSome k 0 :=
  fun _ h => absurd h (Nat.not_lt_zero _)

/-- The first answer, and then the others for what is left. -/
theorem drains_iff {writeSome : ℕ → ℕ} {k n : ℕ} (hn : 0 < n) :
    Drains writeSome k n ↔
      0 < writeSome k ∧ Drains writeSome (k + 1) (n - writeSome k) := by
  have hshift : ∀ i, writeSome (k + 1 + i) = writeSome (k + (i + 1)) := by
    intro i
    congr 1
    omega
  refine ⟨fun h => ⟨h 0 (by simpa using hn), fun j hj => ?_⟩, fun h j hj => ?_⟩
  · simp only [hshift] at hj ⊢
    refine h (j + 1) ?_
    rw [sum_range_succ']
    simp only [Nat.add_zero]
    omega
  · obtain ⟨hpos, htail⟩ := h
    cases j with
    | zero => exact hpos
    | succ j =>
      rw [sum_range_succ'] at hj
      simp only [Nat.add_zero] at hj
      have := htail j
      simp only [hshift] at this
      exact this (by omega)

namespace TcpConnection

/-! ## One completion of the write -/

/-- What the loop of `handle_write` does: it puts a front part of the unwritten
bytes on the wire, all of them exactly when the answers drain them, and touches
nothing but the wire, the write buffer and its length. -/
theorem writeLoop_spec (writeSome : ℕ → ℕ) (k len : ℕ) (c : TcpConnection) :
    ∃ n, n ≤ c.writeLen ∧ (n = c.writeLen ↔ Drains writeSome k c.writeLen) ∧
      (writeLoop writeSome k len c).socket =
        ⟨c.socket.isOpen,
          c.socket.written ++ ((c.writeBuffer.bytes.drop len).take c.writeLen).take n⟩ ∧
      (writeLoop writeSome k len c).sendLog = c.sendLog ∧
      (writeLoop writeSome k len c).writeInProgress = c.writeInProgress := by
  induction h : c.writeLen using Nat.strong_induction_on generalizing k len c with
  | _ w ih =>
    subst h
    by_cases hw : c.writeLen = 0
    · -- nothing was pending: the single call of the do-while loop takes nothing
      refine ⟨0, Nat.zero_le _, ?_, ?_⟩
      · rw [hw]
        exact ⟨fun _ => drains_zero _ _, fun _ => rfl⟩
      · rw [writeLoop]
        simp [hw]
    have hpos : 0 < c.writeLen := Nat.pos_of_ne_zero hw
    by_cases hz : min (writeSome k) c.writeLen = 0
    · -- the answer is 0 with bytes pending: the loop is left here
      have hk : writeSome k = 0 := by omega
      refine ⟨0, Nat.zero_le _, ?_, ?_⟩
      · rw [drains_iff hpos, hk]
        simp [Ne.symm hw]
      · rw [writeLoop]
        simp [hz]
    · -- some bytes go out; the rest of the loop runs on the rest of the bytes
      set wlen := min (writeSome k) c.writeLen with hwlen
      have hk : 0 < writeSome k := by omega
      have hrest : Drains writeSome (k + 1) (c.writeLen - wlen) ↔
          Drains writeSome k c.writeLen := by
        rw [drains_iff hpos]
        by_cases hle : writeSome k ≤ c.writeLen
        · rw [hwlen, Nat.min_eq_left hle]
          exact ⟨fun h => ⟨hk, h⟩, fun h => h.2⟩
        · have h₁ : c.writeLen - wlen = 0 := by omega
          have h₂ : c.writeLen - writeSome k = 0 := by omega
          rw [h₁, h₂]
          exact ⟨fun h => ⟨hk, h⟩, fun h => h.2⟩
      set c' : TcpConnection :=
        { c with
          socket := { c.socket with
            written := c.socket.written ++
              ((c.writeBuffer.bytes.drop len).take c.writeLen).take wlen }
          writeLen := c.writeLen - wlen } with hc'
      have hstep : writeLoop writeSome k len c =
          if 0 < c.writeLen - wlen then writeLoop writeSome (k + 1) (len + wlen) c' else c' := by
        rw [writeLoop]
        simp only [← hwlen, if_neg hz]
        rfl
      by_cases hmore : 0 < c.writeLen - wlen
      · obtain ⟨n, hn, hiff, hsock, hlog, hprog⟩ :=
          ih (c.writeLen - wlen) (by omega) (k + 1) (len + wlen) c' rfl
        simp only [hc'] at hn hiff hsock hlog hprog
        refine ⟨wlen + n, by omega, ?_, ?_⟩
        · rw [← hrest, ← hiff]
          omega
        · rw [hstep, if_pos hmore, hsock, hlog, hprog]
          refine ⟨?_, rfl, rfl⟩
          congr 1
          rw [List.append_assoc, List.take_add, List.drop_take, List.drop_drop]
      · refine ⟨wlen, by omega, ?_, ?_⟩
        · have hall : c.writeLen - wlen = 0 := by omega
          rw [← hrest, hall]
          exact ⟨fun _ => drains_zero _ _, fun _ => by omega⟩
        · rw [hstep, if_neg hmore]
          exact ⟨rfl, rfl, rfl⟩

/-! ## One call of `sendMessage` -/

@[simp] theorem accepted_logged_zero (c : TcpConnection) (msg : NetMessage) :
    (c.logged msg 0).accepted = c.accepted ++ [msg] := by
  simp [accepted, logged]

theorem accepted_logged_ne {c : TcpConnection} {msg : NetMessage} {code : ℤ} (h : code ≠ 0) :
    (c.logged msg code).accepted = c.accepted := by
  simp [accepted, logged, h]

/-- `sendMessage` refuses with a code other than 0 and changes nothing but the
log, or it takes the message: the socket is open, no write was in progress, the
frame is pending and the message is accepted. -/
theorem sendMessage_cases (c : TcpConnection) (msg : NetMessage) :
    (∃ code : ℤ, code ≠ 0 ∧ c.sendMessage msg = (c.logged msg code, code) ∧
      (bufferSize < msg.len ∨ c.socket.isOpen = false ∨ c.writeInProgress = true)) ∨
    (msg.len ≤ bufferSize ∧ c.socket.isOpen = true ∧ c.writeInProgress = false ∧
      (c.sendMessage msg).2 = 0 ∧
      (c.sendMessage msg).1 =
        ({ c with
            writeBuffer := c.writeBuffer.fill msg.frame
            writeLen := msg.len } : TcpConnection).postWrite.logged msg 0) := by
  by_cases hlen : bufferSize < msg.len
  · exact .inl ⟨1, by decide, by rw [sendMessage, if_pos hlen], .inl hlen⟩
  by_cases hopen : c.socket.isOpen = true
  · by_cases hprog : c.writeInProgress = true
    · exact .inl ⟨2, by decide, by simp [sendMessage, hlen, hopen, hprog], .inr (.inr hprog)⟩
    · refine .inr ⟨Nat.le_of_not_lt hlen, hopen, Bool.eq_false_iff.mpr hprog, ?_, ?_⟩ <;>
        simp [sendMessage, hlen, hopen, hprog]
  · exact .inl ⟨-1, by decide, by simp [sendMessage, hlen, hopen],
      .inr (.inl (Bool.eq_false_iff.mpr hopen))⟩

/-- A connection after a send is the one before, but for the write side and the
log. -/
theorem sendMessage_frame (c : TcpConnection) (msg : NetMessage) :
    (c.sendMessage msg).1 =
      { c with
        writeBuffer := (c.sendMessage msg).1.writeBuffer
        writeLen := (c.sendMessage msg).1.writeLen
        writeInProgress := (c.sendMessage msg).1.writeInProgress
        sendLog := c.sendLog ++ [(msg, (c.sendMessage msg).2)] } := by
  obtain ⟨code, -, heq, -⟩ | ⟨-, -, -, hcode, heq⟩ := c.sendMessage_cases msg
  · rw [heq]
    rfl
  · rw [heq, hcode, postWrite]
    split <;> rfl

/-- On an open connection a serialized message is taken exactly when no write is in
progress; either way one is in progress afterwards. -/
theorem sendMessage_open (o : ByteOrder) {c : TcpConnection} {msg : NetMessage}
    (hopen : c.socket.isOpen = true) (hser : (msg.serialize o).2 = true) :
    ((c.sendMessage (msg.serialize o).1).2 = 0 ↔ c.writeInProgress = false) ∧
      (c.sendMessage (msg.serialize o).1).1.writeInProgress = true := by
  have hfit := NetMessage.serialize_eq_true_iff.mp hser
  obtain ⟨-, -, hlen, -⟩ := NetMessage.serialize_spec hser
  obtain ⟨code, hcode, heq, hwhy⟩ | ⟨-, -, hidle, hzero, heq⟩ :=
    c.sendMessage_cases (msg.serialize o).1
  · -- of the three refusals only the write in progress is possible
    have hprog : c.writeInProgress = true := by
      rcases hwhy with hlong | hclosed | hprog
      · rw [hlen] at hlong
        have : bufferSize = msgMaximum := rfl
        omega
      · rw [hopen] at hclosed
        cases hclosed
      · exact hprog
    rw [heq]
    refine ⟨⟨fun h => absurd h hcode, fun h => ?_⟩, hprog⟩
    rw [hprog] at h
    cases h
  · refine ⟨⟨fun _ => hidle, fun _ => hzero⟩, ?_⟩
    have hpos : (msg.serialize o).1.len ≠ 0 := by
      rw [hlen, msgHead]
      omega
    rw [heq, postWrite, if_neg]
    · rfl
    · simp [hopen, hidle, hpos]

/-- The log has the messages for which 0 was returned. -/
theorem accepted_sendMessage (c : TcpConnection) (msg : NetMessage) :
    (c.sendMessage msg).1.accepted =
      c.accepted ++ if (c.sendMessage msg).2 = 0 then [msg] else [] := by
  rw [c.sendMessage_frame msg, accepted, accepted, List.filter_append, List.map_append]
  by_cases h : (c.sendMessage msg).2 = 0 <;> simp [h]

end TcpConnection

/-! ## Runs of the write side -/

/-- What can happen on the write side of an open connection. -/
inductive WriteEvent : Type where
  /-- the owner serializes a message and sends it if that worked -/
  | send : NetMessage → WriteEvent
  /-- the armed write completes without error; `write_some` will answer these counts -/
  | writable : (ℕ → ℕ) → WriteEvent

namespace TcpConnection

/-- One event on the write side. -/
def writeStep (o : ByteOrder) (c : TcpConnection) : WriteEvent → TcpConnection
  | .send msg => c.sendSerialized o msg
  | .writable writeSome => c.handleWrite .success writeSome

/-- The bytes on the wire and the bytes still pending are the frames of the
accepted messages, in order. -/
def NothingLost (c : TcpConnection) : Prop :=
  c.socket.written ++ c.pending = c.accepted.flatMap NetMessage.frame

/-- An open connection has nothing pending unless a write is in progress, and
what is pending fits the buffer. -/
structure Armed (c : TcpConnection) : Prop where
  /-- the socket is open -/
  isOpen : c.socket.isOpen = true
  /-- bytes are pending only while a write is in progress -/
  idle : c.writeInProgress = false → c.writeLen = 0
  /-- the pending bytes lie in the buffer -/
  fits : c.writeLen ≤ bufferSize

theorem armed_opened (now : ℤ) (netId : Int32) : (opened now netId).Armed :=
  ⟨rfl, fun _ => rfl, Nat.zero_le _⟩

theorem nothingLost_opened (now : ℤ) (netId : Int32) : (opened now netId).NothingLost := rfl

/-- Nothing waits while no write is in progress: nobody would write it. -/
theorem Armed.pending_eq_nil {c : TcpConnection} (h : c.Armed) (hidle : c.writeInProgress = false) :
    c.pending = [] := by
  rw [pending, h.idle hidle, List.take_zero]

theorem Armed.length_pending {c : TcpConnection} (h : c.Armed) : c.pending.length = c.writeLen := by
  rw [pending, List.length_take, c.writeBuffer.length_bytes, Nat.min_eq_left h.fits]

/-- A step that keeps the invariant: sends always do; a completion does when the
answers drain what is pending. -/
def WriteOk (c : TcpConnection) : WriteEvent → Prop
  | .send _ => True
  | .writable writeSome => Drains writeSome 0 c.writeLen

/-- The state after a completed write: nothing is pending, and the wire has gained
a front part of what was. -/
theorem handleWrite_spec (c : TcpConnection) (writeSome : ℕ → ℕ) :
    ∃ n, n ≤ c.writeLen ∧ (n = c.writeLen ↔ Drains writeSome 0 c.writeLen) ∧
      (c.handleWrite .success writeSome).socket =
        ⟨c.socket.isOpen, c.socket.written ++ c.pending.take n⟩ ∧
      (c.handleWrite .success writeSome).sendLog = c.sendLog ∧
      (c.handleWrite .success writeSome).writeInProgress = false ∧
      (c.handleWrite .success writeSome).writeLen = 0 := by
  obtain ⟨n, hn, hiff, hsock, hlog, hprog⟩ :=
    writeLoop_spec writeSome 0 0 { c with writeInProgress := false }
  exact ⟨n, hn, hiff, hsock, hlog, hprog, rfl⟩

/-- The loop touches the wire and the write side only. -/
theorem writeLoop_frame (writeSome : ℕ → ℕ) (k len : ℕ) (c : TcpConnection) :
    writeLoop writeSome k len c =
      { c with
        socket := ⟨c.socket.isOpen, (writeLoop writeSome k len c).socket.written⟩
        writeBuffer := (writeLoop writeSome k len c).writeBuffer
        writeLen := (writeLoop writeSome k len c).writeLen } := by
  fun_induction writeLoop writeSome k len c with
  | case1 => rfl
  | case2 k len c wlen unwritten hne c' hmore ih => rw [ih]
  | case3 => rfl

/-- After a completion no write is in progress; what the connection is for its owner
has not changed. -/
theorem handleWrite_frame (c : TcpConnection) (err : ErrorCode) (writeSome : ℕ → ℕ) :
    c.handleWrite err writeSome =
      { c with
        socket := ⟨c.socket.isOpen, (c.handleWrite err writeSome).socket.written⟩
        writeBuffer := (c.handleWrite err writeSome).writeBuffer
        writeLen := (c.handleWrite err writeSome).writeLen
        writeInProgress := false } := by
  cases err with
  | success =>
    simp only [handleWrite]
    rw [writeLoop_frame]
  | eof => rfl
  | other => rfl

/-- Whatever is pending, a write is now in progress for it. -/
theorem armed_postWrite {c : TcpConnection} (hopen : c.socket.isOpen = true)
    (hidle : c.writeInProgress = false) (hfits : c.writeLen ≤ bufferSize) : c.postWrite.Armed := by
  by_cases hlen : c.writeLen = 0
  · have hsame : c.postWrite = c := by simp [postWrite, hlen]
    rw [hsame]
    exact ⟨hopen, fun _ => hlen, hfits⟩
  · have harm : c.postWrite = { c with writeInProgress := true } := by
      simp [postWrite, hopen, hidle, hlen]
    rw [harm]
    exact ⟨hopen, fun h => Bool.noConfusion h, hfits⟩

@[simp] theorem postWrite_socket (c : TcpConnection) : c.postWrite.socket = c.socket := by
  rw [postWrite]
  split <;> rfl

@[simp] theorem postWrite_pending (c : TcpConnection) : c.postWrite.pending = c.pending := by
  rw [postWrite]
  split <;> rfl

@[simp] theorem postWrite_sendLog (c : TcpConnection) : c.postWrite.sendLog = c.sendLog := by
  rw [postWrite]
  split <;> rfl

/-- Every event keeps a connection armed. -/
theorem armed_writeStep (o : ByteOrder) {c : TcpConnection} (e : WriteEvent) (h : c.Armed) :
    (c.writeStep o e).Armed := by
  cases e with
  | send msg =>
    rw [writeStep, sendSerialized]
    by_cases hser : (msg.serialize o).2 = true
    · rw [if_pos hser]
      obtain ⟨code, -, heq, -⟩ | ⟨hlen, hopen, hidle, -, heq⟩ :=
        c.sendMessage_cases (msg.serialize o).1
      · rw [heq]
        exact ⟨h.isOpen, h.idle, h.fits⟩
      · rw [heq]
        have harm : ({ c with
            writeBuffer := c.writeBuffer.fill (msg.serialize o).1.frame
            writeLen := (msg.serialize o).1.len } : TcpConnection).postWrite.Armed :=
          armed_postWrite hopen hidle hlen
        exact ⟨harm.isOpen, harm.idle, harm.fits⟩
    · rw [if_neg hser]
      exact h
  | writable writeSome =>
    obtain ⟨n, -, -, hsock, -, -, hlen⟩ := c.handleWrite_spec writeSome
    refine ⟨?_, fun _ => hlen, ?_⟩
    · rw [writeStep, hsock]
      exact h.isOpen
    · rw [writeStep, hlen]
      exact Nat.zero_le _

/-- **Exact step lemma**: on an armed connection an event keeps `NothingLost`
exactly when it is a send or drains what is pending. -/
theorem nothingLost_writeStep_iff (o : ByteOrder) {c : TcpConnection} (e : WriteEvent)
    (harm : c.Armed) (h : c.NothingLost) : (c.writeStep o e).NothingLost ↔ c.WriteOk e := by
  cases e with
  | send msg =>
    refine ⟨fun _ => trivial, fun _ => ?_⟩
    rw [writeStep, sendSerialized]
    by_cases hser : (msg.serialize o).2 = true
    · rw [if_pos hser]
      obtain ⟨code, hcode, heq, -⟩ | ⟨hlen, -, hidle, -, heq⟩ :=
        c.sendMessage_cases (msg.serialize o).1
      · -- refused: neither the wire, nor the pending bytes, nor the accepted list moves
        rw [heq, NothingLost, accepted_logged_ne hcode]
        exact h
      · -- taken: nothing was pending, now exactly the new frame is
        rw [NothingLost, harm.pending_eq_nil hidle, List.append_nil] at h
        have hframe : (msg.serialize o).1.frame.length = (msg.serialize o).1.len := by
          rw [NetMessage.length_frame_serialize hser, (NetMessage.serialize_spec hser).2.2.1]
        have hacc : ({ c with
              writeBuffer := c.writeBuffer.fill (msg.serialize o).1.frame
              writeLen := (msg.serialize o).1.len } : TcpConnection).postWrite.accepted =
            c.accepted := by
          rw [accepted, postWrite_sendLog]
          rfl
        rw [heq, NothingLost, accepted_logged_zero, hacc, List.flatMap_append, ← h]
        have hpend := c.writeBuffer.take_fill (by rw [hframe]; exact hlen)
        rw [hframe] at hpend
        simp only [logged, postWrite_socket, List.flatMap_cons, List.flatMap_nil, List.append_nil]
        congr 1
        exact (postWrite_pending _).trans hpend
    · rw [if_neg hser]
      exact h
  | writable writeSome =>
    obtain ⟨n, hn, hiff, hsock, hlog, -, hlen⟩ := c.handleWrite_spec writeSome
    have hpend : (c.handleWrite .success writeSome).pending = [] := by
      rw [pending, hlen, List.take_zero]
    have hacc : (c.handleWrite .success writeSome).accepted = c.accepted := by
      rw [accepted, hlog, accepted]
    rw [writeStep, NothingLost, hsock, hpend, hacc, List.append_nil, ← h, WriteOk, ← hiff]
    simp only [List.append_cancel_left_eq]
    -- the part that went out is everything exactly when it is as long
    refine ⟨fun heq => ?_, fun heq => ?_⟩
    · have := congrArg List.length heq
      rw [List.length_take, harm.length_pending] at this
      omega
    · rw [heq, ← harm.length_pending, List.take_length]

/-- **Nothing accepted is lost, exactly.** In every run of an open connection, over
any interleaving of sends and completed writes and whatever `write_some` answers,
the wire followed by the pending bytes is the concatenation of the accepted frames
in every state, if and only if no completion meets an answer of 0 while bytes are
pending. -/
theorem nothingLost_always_iff (o : ByteOrder) (now : ℤ) (netId : Int32) (es : List WriteEvent) :
    Always (writeStep o) NothingLost (opened now netId) es ↔
      EachStep (writeStep o) WriteOk (opened now netId) es :=
  always_iff_eachStep (I := Armed) (fun _ e h => armed_writeStep o e h)
    (fun _ e harm h => nothingLost_writeStep_iff o e harm h)
    (armed_opened now netId) (nothingLost_opened now netId)

/-- An accepted frame is dropped when the socket takes nothing: `handle_write`
copies the unwritten bytes to the front of the buffer and then clears their
length. -/
theorem nothingLost_fails_on_zero_write :
    ¬ Always (writeStep .little) NothingLost (opened 0 0)
      [.send (.ofJson [] 1002 7 0), .writable fun _ => 0] := by
  intro h
  have hstep := always_cons.mp h
  obtain ⟨hsent, hlast⟩ := always_cons.mp hstep.2
  have harm := armed_writeStep .little (.send (.ofJson [] 1002 7 0)) (armed_opened 0 0)
  have hok := (nothingLost_writeStep_iff .little (.writable fun _ => 0) harm hsent).mp hlast.last
  exact absurd (hok 0 (by decide)) (by decide)

end TcpConnection

end MyServer
