import MyServer.FuncHandler
import MyServer.JsonWriter
import MyServer.ReadPath
import MyServer.WritePath

/-!
# The servers behind the gate (`accountHandler.cpp`, `gameHandler.cpp`, `gameServer.cpp`)

The account server answers each request inside `onRecv`; the game server queues it
and answers one per update tick. Both do it with the same few lines (`respond`):
run the handler, serialize the response, hand it to the gate connection and ignore
what `sendMessage` says.

The queue holds copies of the messages. A `NetMessage` owns its stream and has no copy
constructor, so a copy shares the stream with the message of `handle_read`, which frees it when
its turn of the loop ends. The `pop` of the first request frees it once more, and the game
server aborts: it takes up one request and no other.

`Backend` is what the two servers share. Two of its fields only record the history:
the frames that were sent to the server and, for every request that was taken up, its `Outcome`.
`NoResponseLost` is what the servers are for; `noResponseLost_always_iff` says exactly
which runs keep it.
-/

namespace MyServer

universe u

/-! ## State -/

/-- What became of a request that was taken up. -/
structure Outcome : Type where
  /-- the request -/
  request : Packet
  /-- the handler was run and returned true -/
  handled : Bool
  /-- the response object, serialized -/
  response : NetMessage
  /-- what `sendMessage` returned; `none` when the response did not serialize -/
  code : Option ℤ

/-- The handler returned true and the response was short enough to serialize. -/
def Outcome.due (x : Outcome) : Prop := x.handled = true ∧ x.code ≠ none

/-- What the servers share: the connection to the gate, the state `σ` the handlers
work on, and whether the process has ended. -/
structure Backend (σ : Type u) : Type u where
  /-- `m_GateConn` -/
  gateConn : TcpConnection
  /-- the managers and the database -/
  world : σ
  /-- the process has ended -/
  down : Bool
  /-- every frame that was sent to it -/
  received : List Packet
  /-- every request that was taken up -/
  outcomes : List Outcome

/-- The class `GameServer`. -/
structure GameServer (σ : Type u) : Type u extends Backend σ where
  /-- `m_MsgQueue` -/
  msgQueue : List NetMessage

/-- The frames one read brings: each can be sent, and together they fit one read. -/
structure Delivery : Type where
  /-- the frames -/
  frames : List Packet
  /-- each serializes -/
  short : ∀ p ∈ frames, msgHead + p.message.length < msgMaximum
  /-- one `read_some` brings at most `MSG_MAXIMUM` bytes -/
  fits : (frames.map fun p => msgHead + p.message.length).sum ≤ msgMaximum

/-- What can happen to a server. -/
inductive ServerEvent : Type where
  /-- a read on the gate connection -/
  | read : Delivery → ServerEvent
  /-- `GameServer::update`; the account server has none -/
  | tick : ServerEvent
  /-- the armed write completes; `write_some` will answer these counts -/
  | writable : ErrorCode → (ℕ → ℕ) → ServerEvent

namespace Delivery

/-- The bytes that are read. -/
def bytes (o : ByteOrder) (d : Delivery) : List UInt8 := d.frames.flatMap (Packet.bytes o)

/-- Their number. -/
def size (d : Delivery) : ℕ := (d.frames.map fun p => msgHead + p.message.length).sum

/-- The frames the read loop gets to see: a read of `MSG_MAXIMUM` bytes is refused. -/
def seen (d : Delivery) : List Packet := if d.size < msgMaximum then d.frames else []

theorem length_bytes (o : ByteOrder) (d : Delivery) : (d.bytes o).length = d.size := by
  rw [bytes, size, List.length_flatMap]
  simp only [Packet.length_bytes]

/-- The frames come whole in one read, so all are seen unless the read is refused. -/
theorem decodeAll_bytes (o : ByteOrder) (d : Delivery) :
    ((wire o).decodeAll (d.bytes o)).1 = d.seen := by
  rw [seen]
  split
  · rename_i hlt
    have hbytes : (d.frames.flatMap (wire o).encode).length < (wire o).limit := by
      rw [← d.length_bytes o] at hlt
      exact hlt
    exact congrArg Prod.fst ((wire o).decodeAll_flatMap hbytes)
  · rename_i hge
    have hlimit : (wire o).limit ≤ (d.bytes o).length := by
      rw [d.length_bytes o]
      exact Nat.le_of_not_lt hge
    rw [(wire o).decodeAll_of_none ((wire o).decode_limit hlimit)]

end Delivery

/-- The state in which the handler is called for the frames of a read. -/
def Receiver.loaded {σ : Type u} (R : Receiver σ) (o : ByteOrder) (d : Delivery) (s : σ) : σ :=
  R.setConn { R.conn s with
    readInProgress := false, readBuffer := (R.conn s).readBuffer.fill (d.bytes o) } s

/-- A read hands over the frames it sees and arms the next read. -/
theorem Receiver.handleRead_delivery {σ : Type u} (R : Receiver σ) (o : ByteOrder) (d : Delivery)
    (s : σ) :
    (R.handleRead o .success (some (d.bytes o)) s).state =
      let t := (R.feed (d.seen.map Packet.received) (R.loaded o d s)).state
      R.setConn (R.conn t).postRead t := by
  have hlen : (d.bytes o).length ≤ msgMaximum := by
    rw [d.length_bytes o]
    exact d.fits
  rw [Receiver.handleRead_eq_feed hlen, d.decodeAll_bytes]
  rfl

/-! ## Answering one request -/

namespace Backend

variable {σ : Type u} (o : ByteOrder) (J : JsonLib) (F : FuncHandler σ)

/-- A server that has just accepted the gate. -/
def start (now : ℤ) (w : σ) : Backend σ where
  gateConn := .opened now (-3)
  world := w
  down := false
  received := []
  outcomes := []

/-- The lines `AccountHandler::onRecv` and `GameServer::runMessage` share: run the
handler, serialize the response and send it. -/
def respond (b : Backend σ) (req : NetMessage) : Backend σ × Option JsonFault :=
  match F.runFuncHandler J req .blank b.world with
  | (.error fault, w) => ({ b with world := w }, some fault)
  | (.ok (handled, rsp), w) =>
    let r := rsp.serialize o
    let b := { b with world := w }
    if r.2 then
      let sent := b.gateConn.sendMessage r.1
      let outcome := ⟨req.packet, handled, r.1, some sent.2⟩
      ({ b with gateConn := sent.1, outcomes := b.outcomes ++ [outcome] }, none)
    else
      ({ b with outcomes := b.outcomes ++ [⟨req.packet, handled, r.1, none⟩] }, none)

/-- `AccountHandler::onRecv`. When the handler throws, `onRecv` throws, and the
request is gone; when it aborts, so does the process. -/
def onRecv (b : Backend σ) (req : NetMessage) : Backend σ × Bool :=
  if ¬ inAccountRange req.proto then (b, false)
  else
    match b.respond o J F req with
    | (b, none) => (b, false)
    | (b, some fault) =>
      let outcome := ⟨req.packet, false, .blank, none⟩
      ({ b with outcomes := b.outcomes ++ [outcome], down := fault = .abort }, true)

/-- The answer to `req`, in the state `w`, is a response that serializes. -/
def due (req : NetMessage) (w : σ) : Bool :=
  match (F.runFuncHandler J req .blank w).1 with
  | .ok (true, rsp) => (rsp.serialize o).2
  | _ => false

/-- Taking up `req` calls `sendMessage`. -/
def writes (req : NetMessage) (w : σ) : Bool :=
  match (F.runFuncHandler J req .blank w).1 with
  | .ok (_, rsp) => (rsp.serialize o).2
  | .error _ => false

/-- How the handler of `req` fails to return. -/
def fault (req : NetMessage) (w : σ) : Option JsonFault :=
  match (F.runFuncHandler J req .blank w).1 with
  | .ok _ => none
  | .error fault => some fault

/-- The state the handler of `req` leaves. -/
def next (req : NetMessage) (w : σ) : σ := (F.runFuncHandler J req .blank w).2

/-- What is kept whatever the servers do: the gate connection is open, and what it
has accepted are the responses whose outcome says so, in order. -/
structure Accounted (b : Backend σ) : Prop where
  /-- the connection is open -/
  isOpen : b.gateConn.socket.isOpen = true
  /-- the log of the connection agrees with the outcomes -/
  accepted : b.gateConn.accepted =
    (b.outcomes.filter fun x => x.code = some 0).map Outcome.response

/-- Every response that was due has been accepted for writing. -/
def AllAccepted (b : Backend σ) : Prop := ∀ x ∈ b.outcomes, x.due → x.code = some 0

variable {o J F}

theorem due_imp_writes {req : NetMessage} {w : σ} (h : due o J F req w = true) :
    writes o J F req w = true ∧ fault J F req w = none := by
  rw [due] at h
  rw [writes, fault]
  split at h
  · rename_i rsp heq
    rw [heq]
    exact ⟨h, rfl⟩
  · cases h

/-- A request whose handler does not return: nothing but the handlers' state has
changed. -/
theorem respond_fault {b : Backend σ} {req : NetMessage} {f : JsonFault}
    (h : fault J F req b.world = some f) :
    b.respond o J F req = ({ b with world := next J F req b.world }, some f) := by
  rw [fault] at h
  rw [respond, next]
  rcases hrun : F.runFuncHandler J req .blank b.world with ⟨r, w⟩
  rw [hrun] at h
  cases r with
  | error f' =>
    cases h
    rfl
  | ok r => cases h

/-- A request whose handler returns: one outcome is added, due exactly when the
answer is, and accepted exactly when a frame is sent and no write was in
progress. -/
theorem respond_returned {b : Backend σ} {req : NetMessage} (hb : b.Accounted)
    (h : fault J F req b.world = none) :
    ∃ (c : TcpConnection) (x : Outcome),
      b.respond o J F req =
        ({ b with
            gateConn := c
            world := next J F req b.world
            outcomes := b.outcomes ++ [x] }, none) ∧
      x.request = req.packet ∧ (x.due ↔ due o J F req b.world = true) ∧
      (x.code = some 0 ↔ writes o J F req b.world = true ∧ b.gateConn.writeInProgress = false) ∧
      c.socket.isOpen = true ∧ c.readBuffer = b.gateConn.readBuffer ∧
      c.writeInProgress = (b.gateConn.writeInProgress || writes o J F req b.world) ∧
      c.accepted = b.gateConn.accepted ++ if x.code = some 0 then [x.response] else [] := by
  rw [fault] at h
  rw [respond, next, due, writes]
  rcases hrun : F.runFuncHandler J req .blank b.world with ⟨r, w⟩
  rw [hrun] at h
  cases r with
  | error f => cases h
  | ok r =>
    obtain ⟨handled, rsp⟩ := r
    rcases hser : (rsp.serialize o).2 with _ | _
    · -- nothing is sent
      refine ⟨b.gateConn, ⟨req.packet, handled, (rsp.serialize o).1, none⟩, ?_⟩
      simp only [hser, Outcome.due]
      refine ⟨rfl, trivial, ?_, by simp, hb.isOpen, trivial, by simp, by simp⟩
      cases handled <;> simp [hser]
    · obtain ⟨hcode, hprog⟩ := TcpConnection.sendMessage_open o hb.isOpen hser
      refine ⟨(b.gateConn.sendMessage (rsp.serialize o).1).1,
        ⟨req.packet, handled, (rsp.serialize o).1,
          some (b.gateConn.sendMessage (rsp.serialize o).1).2⟩, ?_⟩
      simp only [hser, Outcome.due]
      refine ⟨rfl, trivial, ?_, ?_, ?_, ?_, ?_, ?_⟩
      · cases handled <;> simp [hser]
      · simp [hcode]
      · rw [TcpConnection.sendMessage_frame]
        exact hb.isOpen
      · rw [TcpConnection.sendMessage_frame]
      · simp [hprog]
      · rw [TcpConnection.accepted_sendMessage]
        simp

theorem readBuffer_respond (b : Backend σ) (req : NetMessage) :
    (b.respond o J F req).1.gateConn.readBuffer = b.gateConn.readBuffer := by
  rw [respond]
  split
  · rfl
  · dsimp only
    split
    · rw [TcpConnection.sendMessage_frame]
    · rfl

theorem readBuffer_onRecv (b : Backend σ) (req : NetMessage) :
    (b.onRecv o J F req).1.gateConn.readBuffer = b.gateConn.readBuffer := by
  have hbuf := b.readBuffer_respond (o := o) (J := J) (F := F) req
  rw [onRecv]
  split
  · rfl
  · split <;> rename_i heq <;> rw [heq] at hbuf <;> exact hbuf

/-- One more outcome, and its response in the log if it was accepted. -/
theorem Accounted.append {b : Backend σ} {c : TcpConnection} {x : Outcome} (hb : b.Accounted)
    (hopen : c.socket.isOpen = true)
    (hacc : c.accepted = b.gateConn.accepted ++ if x.code = some 0 then [x.response] else [])
    (w : σ) (down : Bool) :
    ({ b with
        gateConn := c, world := w, down := down, outcomes := b.outcomes ++ [x] } :
      Backend σ).Accounted := by
  refine ⟨hopen, ?_⟩
  rw [hacc, hb.accepted, List.filter_append, List.map_append]
  by_cases h : x.code = some 0 <;> simp [h]

theorem forall_mem_append_one {α : Type*} {P : α → Prop} {l : List α} {x : α} :
    (∀ y ∈ l ++ [x], P y) ↔ (∀ y ∈ l, P y) ∧ P x := by
  simp [or_imp, forall_and]

/-- **What the servers are for.** The requests that were taken up, followed by those
still waiting, are the requests of the server's range that were sent to it, in order; every
response that was due has been accepted for writing; and what the gate connection has
accepted are the accepted responses, one for each such outcome and in order. -/
structure NoResponseLost (inRange : Int32 → Bool) (waiting : List Packet) (b : Backend σ) :
    Prop where
  /-- every request is taken up once, in order -/
  requests : b.outcomes.map Outcome.request ++ waiting =
    b.received.filter fun p => inRange p.proto
  /-- nothing due was refused -/
  allAccepted : b.AllAccepted
  /-- the connection holds one response for each accepted outcome -/
  responses : b.gateConn.accepted =
    (b.outcomes.filter fun x => x.code = some 0).map Outcome.response

/-! ## The account server -/

variable (o J F)

/-- The gate connection of the account server, with its handler. -/
def accountReceiver : Receiver (Backend σ) where
  conn := gateConn
  setConn c b := { b with gateConn := c }
  onRecv := onRecv o J F
  conn_setConn _ _ := rfl
  readBuffer_onRecv := readBuffer_onRecv

/-- One event at the account server. Nobody reads what is sent to a process that has ended. -/
def accountStep (b : Backend σ) : ServerEvent → Backend σ
  | .read d =>
    let b := { b with received := b.received ++ d.frames }
    if b.down then b
    else ((accountReceiver o J F).handleRead o .success (some (d.bytes o)) b).state
  | .tick => b
  | .writable err writeSome =>
    if b.down then b else { b with gateConn := b.gateConn.handleWrite err writeSome }

/-- The requests among `frames` find the gate connection free: whenever one whose
response is due comes up, no write is in progress, and a handler that does not return
leaves no later request of the same read behind. -/
def Clear (writing : Bool) (w : σ) : List Packet → Prop
  | [] => True
  | p :: ps =>
    if inAccountRange p.proto then
      (due o J F p.received w = true → writing = false) ∧
        match fault J F p.received w with
        | none => Clear (writing || writes o J F p.received w) (next J F p.received w) ps
        | some _ => ∀ q ∈ ps, inAccountRange q.proto = false
    else Clear writing w ps

/-- An event after which the account server still owes nothing. A read of exactly
`MSG_MAXIMUM` bytes is refused whole, and a process that has ended owes every request. -/
def AccountOk (b : Backend σ) : ServerEvent → Prop
  | .read d =>
    if b.down then ∀ p ∈ d.frames, inAccountRange p.proto = false
    else
      (d.size < msgMaximum ∨ ∀ p ∈ d.frames, inAccountRange p.proto = false) ∧
        Clear o J F b.gateConn.writeInProgress b.world d.frames
  | .tick => True
  | .writable _ _ => True

variable {o J F}

/-- Requests outside the range are not taken up. -/
theorem clear_of_outside {writing : Bool} {w : σ} {ps : List Packet}
    (h : ∀ p ∈ ps, inAccountRange p.proto = false) : Clear o J F writing w ps := by
  induction ps with
  | nil => trivial
  | cons p ps ih =>
    rw [Clear, h p (List.mem_cons_self ..)]
    exact ih fun q hq => h q (List.mem_cons_of_mem _ hq)

/-- What a read's worth of frames does: the requests among them that are taken up are
all of them, and nothing due is refused, exactly when the frames are clear. -/
theorem account_feed (ps : List Packet) :
    ∀ b : Backend σ, b.Accounted →
      let s := ((accountReceiver o J F).feed (ps.map Packet.received) b).state
      s.Accounted ∧ s.received = b.received ∧
        ∃ taken, s.outcomes.map Outcome.request = b.outcomes.map Outcome.request ++ taken ∧
          (taken = ps.filter (fun p => inAccountRange p.proto) ∧ s.AllAccepted ↔
            b.AllAccepted ∧ Clear o J F b.gateConn.writeInProgress b.world ps) := by
  induction ps with
  | nil =>
    intro b hb
    exact ⟨hb, rfl, [], by simp [Receiver.feed], by simp [Receiver.feed, Clear]⟩
  | cons p ps ih =>
    intro b hb
    rcases hrange : inAccountRange p.proto with _ | _
    · -- not for this server: skipped
      have hrecv : (accountReceiver o J F).onRecv b p.received = (b, false) := by
        have : inAccountRange p.received.proto = false := hrange
        simp [accountReceiver, onRecv, this]
      have hcons := Receiver.feed_cons_returned (R := accountReceiver o J F)
        (ps.map Packet.received) (congrArg Prod.snd hrecv)
      rw [hrecv] at hcons
      rw [List.map_cons, hcons, Clear, List.filter_cons, hrange]
      exact ih b hb
    have hproto : inAccountRange p.received.proto = true := hrange
    rcases hfault : fault J F p.received b.world with _ | f
    · obtain ⟨c, x, hresp, hreq, hdue, hcode, hopen, -, hprog, hacc⟩ :=
        respond_returned (o := o) hb hfault
      have hrecv : (accountReceiver o J F).onRecv b p.received =
          ({ b with
              gateConn := c
              world := next J F p.received b.world
              outcomes := b.outcomes ++ [x] }, false) := by
        simp [accountReceiver, onRecv, hproto, hresp]
      have hcons := Receiver.feed_cons_returned (R := accountReceiver o J F)
        (ps.map Packet.received) (congrArg Prod.snd hrecv)
      rw [hrecv] at hcons
      obtain ⟨hnext, hrec, taken, htaken, hiff⟩ := ih _ (hb.append hopen hacc _ b.down)
      rw [List.map_cons, hcons, Clear, List.filter_cons, hrange, hfault]
      refine ⟨hnext, hrec, p :: taken, ?_, ?_⟩
      · rw [htaken, List.map_append, List.append_assoc]
        simp [hreq]
      · -- the new outcome is fine exactly when the connection was free for it
        have hone : (x.due → x.code = some 0) ↔
            (due o J F p.received b.world = true → b.gateConn.writeInProgress = false) := by
          rw [hdue, hcode]
          exact ⟨fun h hd => (h hd).2, fun h hd => ⟨(due_imp_writes hd).1, h hd⟩⟩
        have hall : ({ b with
            gateConn := c
            world := next J F p.received b.world
            outcomes := b.outcomes ++ [x] } : Backend σ).AllAccepted ↔
              b.AllAccepted ∧ (x.due → x.code = some 0) := forall_mem_append_one
        rw [hall, hone, hprog] at hiff
        simp only [if_true, List.cons.injEq, true_and]
        rw [hiff, and_assoc]
    · -- the handler does not return: the rest of the read is dropped
      have hrecv : (accountReceiver o J F).onRecv b p.received =
          ({ b with
              world := next J F p.received b.world
              outcomes := b.outcomes ++ [⟨p, false, .blank, none⟩]
              down := f = .abort }, true) := by
        simp [accountReceiver, onRecv, hproto, respond_fault hfault]
      have hcons := Receiver.feed_cons_threw (R := accountReceiver o J F)
        (ps.map Packet.received) (congrArg Prod.snd hrecv)
      rw [hrecv] at hcons
      have hnotdue : ¬ due o J F p.received b.world = true := by
        intro hdue
        rw [(due_imp_writes hdue).2] at hfault
        cases hfault
      rw [List.map_cons, hcons, Clear, List.filter_cons, hrange, hfault]
      refine ⟨hb.append hb.isOpen (by simp) _ _, rfl, [p], by simp, ?_⟩
      have hall : ({ b with
          world := next J F p.received b.world
          outcomes := b.outcomes ++ [⟨p, false, .blank, none⟩]
          down := f = .abort } : Backend σ).AllAccepted ↔
            b.AllAccepted ∧ ((⟨p, false, .blank, none⟩ : Outcome).due →
              (⟨p, false, .blank, none⟩ : Outcome).code = some 0) := forall_mem_append_one
      simp only [if_true, List.cons.injEq, true_and]
      rw [hall, eq_comm, List.filter_eq_nil_iff]
      simp [hnotdue, Outcome.due, and_comm]

/-- Reading changes neither the socket nor the log. -/
theorem Accounted.setConn {b : Backend σ} (hb : b.Accounted) {c : TcpConnection}
    (hopen : c.socket.isOpen = b.gateConn.socket.isOpen) (hlog : c.sendLog = b.gateConn.sendLog)
    (received : List Packet) :
    ({ b with gateConn := c, received := received } : Backend σ).Accounted := by
  refine ⟨hopen.trans hb.isOpen, ?_⟩
  rw [← hb.accepted, TcpConnection.accepted, TcpConnection.accepted, hlog]

theorem postRead_socket (c : TcpConnection) :
    c.postRead.socket = c.socket ∧ c.postRead.sendLog = c.sendLog := by
  rw [TcpConnection.postRead]
  split <;> exact ⟨rfl, rfl⟩

theorem Accounted.writable {b : Backend σ} (hb : b.Accounted) (err : ErrorCode)
    (writeSome : ℕ → ℕ) :
    ({ b with gateConn := b.gateConn.handleWrite err writeSome } : Backend σ).Accounted := by
  have hframe := b.gateConn.handleWrite_frame err writeSome
  exact hb.setConn (by rw [hframe]) (by rw [hframe]) b.received

/-- What is sent to a process that has ended waits in vain. -/
theorem NoResponseLost.received_iff {inRange : Int32 → Bool} {b : Backend σ}
    (h : b.NoResponseLost inRange []) (ps : List Packet) :
    ({ b with received := b.received ++ ps } : Backend σ).NoResponseLost inRange [] ↔
      ∀ p ∈ ps, inRange p.proto = false := by
  have hbefore := h.requests
  have hreq : b.outcomes.map Outcome.request ++ [] =
      (b.received ++ ps).filter (fun p => inRange p.proto) ↔ ∀ p ∈ ps, inRange p.proto = false := by
    rw [hbefore, List.filter_append, List.self_eq_append_right, List.filter_eq_nil_iff]
    simp only [Bool.not_eq_true]
  exact ⟨fun hn => hreq.mp hn.requests, fun hn => ⟨hreq.mpr hn, h.allAccepted, h.responses⟩⟩

/-- A read at the account server. -/
theorem account_handleRead {b : Backend σ} (d : Delivery) (hb : b.Accounted) :
    let s := ((accountReceiver o J F).handleRead o .success (some (d.bytes o))
      { b with received := b.received ++ d.frames }).state
    s.Accounted ∧
      (b.NoResponseLost inAccountRange [] →
        (s.NoResponseLost inAccountRange [] ↔
          (d.size < msgMaximum ∨ ∀ p ∈ d.frames, inAccountRange p.proto = false) ∧
            Clear o J F b.gateConn.writeInProgress b.world d.frames)) := by
  rw [Receiver.handleRead_delivery]
  obtain ⟨hacc, hrec, taken, htaken, hiff⟩ := account_feed (o := o) (J := J) (F := F) d.seen
    ((accountReceiver o J F).loaded o d { b with received := b.received ++ d.frames })
    ⟨hb.isOpen, hb.accepted⟩
  set t := ((accountReceiver o J F).feed (d.seen.map Packet.received)
    ((accountReceiver o J F).loaded o d { b with received := b.received ++ d.frames })).state
  obtain ⟨hsocket, hlog⟩ := postRead_socket t.gateConn
  have hnext := hacc.setConn (congrArg Socket.isOpen hsocket) hlog t.received
  refine ⟨hnext, fun h => ?_⟩
  have hreq : t.outcomes.map Outcome.request ++ [] =
      t.received.filter (fun p => inAccountRange p.proto) ↔
        taken = d.frames.filter (fun p => inAccountRange p.proto) := by
    have hbefore := h.requests
    rw [List.append_nil] at hbefore
    rw [List.append_nil, htaken, hrec]
    change b.outcomes.map Outcome.request ++ taken =
      (b.received ++ d.frames).filter (fun p => inAccountRange p.proto) ↔ _
    rw [hbefore, List.filter_append, List.append_cancel_left_eq]
  have hlost : ((accountReceiver o J F).setConn t.gateConn.postRead t).NoResponseLost
      inAccountRange [] ↔
        taken = d.frames.filter (fun p => inAccountRange p.proto) ∧ t.AllAccepted :=
    ⟨fun hn => ⟨hreq.mp hn.requests, hn.allAccepted⟩,
      fun hn => ⟨hreq.mpr hn.1, hn.2, hnext.accepted⟩⟩
  refine hlost.trans ?_
  change _ ↔ b.AllAccepted ∧ Clear o J F b.gateConn.writeInProgress b.world d.seen at hiff
  by_cases hsize : d.size < msgMaximum
  · rw [Delivery.seen, if_pos hsize] at hiff
    rw [hiff]
    exact ⟨fun hc => ⟨.inl hsize, hc.2⟩, fun hc => ⟨h.allAccepted, hc.2⟩⟩
  · -- nothing was seen: fine exactly when nothing was meant for this server
    rw [Delivery.seen, if_neg hsize] at hiff
    obtain ⟨hnil, hall⟩ := hiff.mpr ⟨h.allAccepted, trivial⟩
    rw [hnil, List.filter_nil, eq_comm, List.filter_eq_nil_iff]
    simp only [Bool.not_eq_true]
    exact ⟨fun hout => ⟨.inr hout.1, clear_of_outside hout.1⟩,
      fun hok => ⟨hok.1.resolve_left hsize, hall⟩⟩

/-- **Exact step lemma** for the account server: an event keeps `NoResponseLost`
exactly when it is allowed. -/
theorem accountStep_spec {b : Backend σ} (e : ServerEvent) (hb : b.Accounted) :
    (b.accountStep o J F e).Accounted ∧
      (b.NoResponseLost inAccountRange [] →
        ((b.accountStep o J F e).NoResponseLost inAccountRange [] ↔ b.AccountOk o J F e)) := by
  cases e with
  | tick => exact ⟨hb, fun h => ⟨fun _ => trivial, fun _ => h⟩⟩
  | writable err writeSome =>
    rw [accountStep, AccountOk]
    split
    · exact ⟨hb, fun h => ⟨fun _ => trivial, fun _ => h⟩⟩
    · have hnext := hb.writable err writeSome
      exact ⟨hnext, fun h => ⟨fun _ => trivial,
        fun _ => ⟨h.requests, h.allAccepted, hnext.accepted⟩⟩⟩
  | read d =>
    by_cases hdown : b.down = true
    · have hstep : b.accountStep o J F (.read d) =
          { b with received := b.received ++ d.frames } := if_pos hdown
      rw [hstep, AccountOk, if_pos hdown]
      exact ⟨⟨hb.isOpen, hb.accepted⟩, fun h => h.received_iff d.frames⟩
    · have hstep : b.accountStep o J F (.read d) =
          ((accountReceiver o J F).handleRead o .success (some (d.bytes o))
            { b with received := b.received ++ d.frames }).state := if_neg hdown
      rw [hstep, AccountOk, if_neg hdown]
      exact account_handleRead d hb

end Backend

/-! ## The game server -/

namespace GameServer

variable {σ : Type u} (o : ByteOrder) (J : JsonLib) (F : FuncHandler σ)

/-- A game server that has just accepted the gate. -/
def start (now : ℤ) (w : σ) : GameServer σ := { Backend.start now w with msgQueue := [] }

/-- `pushMessage`. The copy in the queue shares its stream with `msg`. -/
def pushMessage (g : GameServer σ) (msg : NetMessage) : GameServer σ :=
  { g with msgQueue := g.msgQueue ++ [msg] }

/-- `GameHandler::onRecv`; it always returns. -/
def onRecv (g : GameServer σ) (req : NetMessage) : GameServer σ × Bool :=
  if inGameRange req.proto then (g.pushMessage req, false) else (g, false)

/-- `runMessage`. It runs outside any `try`, so a handler that does not return ends the
process, with the request still at the front. And if it returns, the `pop` destroys the copy of a
message whose stream is gone: the second `delete[]` aborts. -/
def runMessage (g : GameServer σ) : GameServer σ :=
  match g.msgQueue with
  | [] => g
  | req :: rest =>
    match g.toBackend.respond o J F req with
    | (b, none) => { b with down := true, msgQueue := rest }
    | (b, some _) =>
      let outcome := ⟨req.packet, false, .blank, none⟩
      { b with outcomes := b.outcomes ++ [outcome], down := true, msgQueue := g.msgQueue }

/-- The gate connection of the game server, with its handler. -/
def gameReceiver : Receiver (GameServer σ) where
  conn g := g.gateConn
  setConn c g := { g with gateConn := c }
  onRecv := onRecv
  conn_setConn _ _ := rfl
  readBuffer_onRecv g req := by
    rw [onRecv]
    split <;> rfl

/-- One event at the game server. -/
def gameStep (g : GameServer σ) : ServerEvent → GameServer σ
  | .read d =>
    let g := { g with received := g.received ++ d.frames }
    if g.down then g else (gameReceiver.handleRead o .success (some (d.bytes o)) g).state
  | .tick => if g.down then g else g.runMessage o J F
  | .writable err writeSome =>
    if g.down then g else { g with gateConn := g.gateConn.handleWrite err writeSome }

/-- The requests that may still be taken up. -/
def waiting (g : GameServer σ) : List Packet :=
  if g.down then [] else g.msgQueue.map NetMessage.packet

/-- `NoResponseLost`, with the queue of a process that runs as the waiting requests. -/
def NoneLost (g : GameServer σ) : Prop := g.toBackend.NoResponseLost inGameRange g.waiting

/-- An event after which the game server still owes nothing: a tick takes up the only request
that waits, and when this has a response due no write is in progress. -/
def GameOk (g : GameServer σ) : ServerEvent → Prop
  | .read d =>
    if g.down then ∀ p ∈ d.frames, inGameRange p.proto = false
    else d.size < msgMaximum ∨ ∀ p ∈ d.frames, inGameRange p.proto = false
  | .tick =>
    g.down = false → ∀ req rest, g.msgQueue = req :: rest →
      (Backend.due o J F req g.world = true → g.gateConn.writeInProgress = false) ∧ rest = []
  | .writable _ _ => True

variable {o J F}

/-- A read's worth of frames: the requests among them join the queue. -/
theorem game_feed (ps : List Packet) :
    ∀ g : GameServer σ,
      (gameReceiver.feed (ps.map Packet.received) g).state =
        { g with
          msgQueue := g.msgQueue ++
            (ps.filter fun p => inGameRange p.proto).map Packet.received } := by
  induction ps with
  | nil =>
    intro g
    simp [Receiver.feed]
  | cons p ps ih =>
    intro g
    have hret : (gameReceiver.onRecv g p.received).2 = false := by
      simp only [gameReceiver, onRecv]
      split <;> rfl
    rw [List.map_cons, Receiver.feed_cons_returned _ hret]
    simp only [ih]
    rcases hrange : inGameRange p.proto with _ | _
    · have hproto : inGameRange p.received.proto = false := hrange
      simp [gameReceiver, onRecv, hproto, hrange]
    · have hproto : inGameRange p.received.proto = true := hrange
      simp [gameReceiver, onRecv, pushMessage, hproto, hrange]

theorem waiting_of_up {g : GameServer σ} (h : g.down = false) :
    g.waiting = g.msgQueue.map NetMessage.packet := by rw [waiting, h, if_neg Bool.false_ne_true]

theorem waiting_of_down {g : GameServer σ} (h : g.down = true) : g.waiting = [] := by
  rw [waiting, if_pos h]

/-- A read at the game server. -/
theorem game_handleRead {g : GameServer σ} (d : Delivery) (hg : g.toBackend.Accounted)
    (hup : g.down = false) :
    let s := (gameReceiver.handleRead o .success (some (d.bytes o))
      { g with received := g.received ++ d.frames }).state
    s.toBackend.Accounted ∧
      (g.NoneLost →
        (s.NoneLost ↔ d.size < msgMaximum ∨ ∀ p ∈ d.frames, inGameRange p.proto = false)) := by
  rw [Receiver.handleRead_delivery, game_feed]
  obtain ⟨hsocket, hlog⟩ := Backend.postRead_socket { g.gateConn with
    readInProgress := false, readBuffer := g.gateConn.readBuffer.fill (d.bytes o) }
  have hnext := hg.setConn (congrArg Socket.isOpen hsocket) hlog (g.received ++ d.frames)
  refine ⟨hnext, fun h => ?_⟩
  have hbefore := h.requests
  rw [waiting_of_up hup] at hbefore
  have hreq : g.outcomes.map Outcome.request ++ (g.msgQueue ++
      (d.seen.filter fun p => inGameRange p.proto).map Packet.received).map NetMessage.packet =
        (g.received ++ d.frames).filter (fun p => inGameRange p.proto) ↔
      d.seen.filter (fun p => inGameRange p.proto) =
        d.frames.filter fun p => inGameRange p.proto := by
    have hid : ∀ ps : List Packet, ps.map (NetMessage.packet ∘ Packet.received) = ps :=
      fun ps => List.map_id ps
    rw [List.map_append, List.map_map, hid, ← List.append_assoc, hbefore, List.filter_append,
      List.append_cancel_left_eq]
  have hlost : d.seen.filter (fun p => inGameRange p.proto) =
      d.frames.filter (fun p => inGameRange p.proto) ↔
        d.size < msgMaximum ∨ ∀ p ∈ d.frames, inGameRange p.proto = false := by
    rw [Delivery.seen]
    by_cases hsize : d.size < msgMaximum
    · rw [if_pos hsize]
      exact ⟨fun _ => .inl hsize, fun _ => rfl⟩
    · rw [if_neg hsize, List.filter_nil, eq_comm, List.filter_eq_nil_iff]
      simp only [Bool.not_eq_true]
      exact ⟨fun hout => .inr hout, fun hok => hok.resolve_left hsize⟩
  rw [← hlost]
  refine ⟨fun hn => hreq.mp ?_, fun hn => ⟨?_, h.allAccepted, hnext.accepted⟩⟩
  · have hafter := hn.requests
    rwa [waiting_of_up (by exact hup)] at hafter
  · rw [waiting_of_up (by exact hup)]
    exact hreq.mpr hn

/-- **A request that is taken up at the game server**, with the outcome `x`: none is lost just
when the outcome is fine and no other request waits in the process that ends here. -/
theorem noneLost_served_iff {g : GameServer σ} (h : g.NoneLost) (hup : g.down = false)
    {req : NetMessage} {rest : List NetMessage} (hqueue : g.msgQueue = req :: rest) {x : Outcome}
    (hreq : x.request = req.packet) {c : TcpConnection} {w : σ} {q : List NetMessage}
    (hacc : c.accepted =
      ((g.outcomes ++ [x]).filter fun x => x.code = some 0).map Outcome.response) :
    ({ g with
        gateConn := c, world := w, outcomes := g.outcomes ++ [x], down := true, msgQueue := q } :
      GameServer σ).NoneLost ↔ (x.due → x.code = some 0) ∧ rest = [] := by
  have hbefore := h.requests
  rw [waiting_of_up hup, hqueue, List.map_cons, ← hreq] at hbefore
  have hrequests : (g.outcomes ++ [x]).map Outcome.request ++ [] =
      g.received.filter (fun p => inGameRange p.proto) ↔ rest = [] := by
    rw [← hbefore, List.map_append, List.map_singleton, List.append_nil,
      List.append_cancel_left_eq, List.cons.injEq, eq_comm (a := []), List.map_eq_nil_iff,
      and_iff_right rfl]
  refine ⟨fun hn => ⟨(Backend.forall_mem_append_one.mp hn.allAccepted).2, ?_⟩, fun hx => ?_⟩
  · have hafter := hn.requests
    rw [waiting_of_down rfl] at hafter
    exact hrequests.mp hafter
  · refine ⟨?_, Backend.forall_mem_append_one.mpr ⟨h.allAccepted, hx.1⟩, hacc⟩
    rw [waiting_of_down rfl]
    exact hrequests.mpr hx.2

/-- A tick at the game server. -/
theorem game_runMessage {g : GameServer σ} (hg : g.toBackend.Accounted) (hup : g.down = false) :
    (g.runMessage o J F).toBackend.Accounted ∧
      (g.NoneLost →
        ((g.runMessage o J F).NoneLost ↔ ∀ req rest, g.msgQueue = req :: rest →
          (Backend.due o J F req g.world = true → g.gateConn.writeInProgress = false) ∧
            rest = [])) := by
  rcases hqueue : g.msgQueue with _ | ⟨req, rest⟩
  · have hsame : g.runMessage o J F = g := by rw [runMessage, hqueue]
    rw [hsame]
    exact ⟨hg, fun h => iff_of_true h fun req rest hcons => absurd hcons (by simp)⟩
  simp only [List.cons.injEq, and_imp, forall_apply_eq_imp_iff, forall_eq']
  rcases hfault : Backend.fault J F req g.world with _ | f
  · obtain ⟨c, x, hresp, hreq, hdue, hcode, hopen, -, -, hacc⟩ :=
      Backend.respond_returned (o := o) hg hfault
    have hrun : g.runMessage o J F =
        { g with
          gateConn := c, world := Backend.next J F req g.world, outcomes := g.outcomes ++ [x],
          down := true, msgQueue := rest } := by
      rw [runMessage, hqueue]
      simp only [hresp]
    have hnext := hg.append hopen hacc (Backend.next J F req g.world) true
    have hone : (x.due → x.code = some 0) ↔
        (Backend.due o J F req g.world = true → g.gateConn.writeInProgress = false) := by
      rw [hdue, hcode]
      exact ⟨fun h hd => (h hd).2, fun h hd => ⟨(Backend.due_imp_writes hd).1, h hd⟩⟩
    rw [hrun, ← hone]
    exact ⟨hnext, fun h => noneLost_served_iff h hup hqueue hreq hnext.accepted⟩
  -- the handler does not return, and no response is due
  · have hrun : g.runMessage o J F =
        { g with
          gateConn := g.gateConn, world := Backend.next J F req g.world,
          outcomes := g.outcomes ++ [⟨req.packet, false, .blank, none⟩], down := true,
          msgQueue := g.msgQueue } := by
      rw [runMessage, hqueue]
      simp only [Backend.respond_fault hfault]
    have hnext := hg.append (x := ⟨req.packet, false, .blank, none⟩) hg.isOpen (by simp)
      (Backend.next J F req g.world) true
    have hnotdue : ¬ Backend.due o J F req g.world = true := by
      intro hdue
      rw [(Backend.due_imp_writes hdue).2] at hfault
      cases hfault
    rw [hrun]
    refine ⟨hnext, fun h => (noneLost_served_iff h hup hqueue rfl hnext.accepted).trans ?_⟩
    simp [hnotdue, Outcome.due]

/-- **Exact step lemma** for the game server. -/
theorem gameStep_spec {g : GameServer σ} (e : ServerEvent) (hg : g.toBackend.Accounted) :
    (g.gameStep o J F e).toBackend.Accounted ∧
      (g.NoneLost → ((g.gameStep o J F e).NoneLost ↔ g.GameOk o J F e)) := by
  by_cases hdown : g.down = true
  -- a process that has ended does nothing
  · cases e with
    | read d =>
      have hsame : g.gameStep o J F (.read d) = { g with received := g.received ++ d.frames } :=
        if_pos hdown
      rw [hsame, GameOk, if_pos hdown]
      refine ⟨⟨hg.isOpen, hg.accepted⟩, fun h => ?_⟩
      rw [NoneLost, waiting_of_down hdown] at h
      rw [NoneLost, waiting_of_down (by exact hdown)]
      exact h.received_iff d.frames
    | tick =>
      rw [gameStep, if_pos hdown]
      exact ⟨hg, fun h => iff_of_true h fun hup => absurd (hdown.symm.trans hup) (by decide)⟩
    | writable err writeSome =>
      rw [gameStep, if_pos hdown]
      exact ⟨hg, fun h => iff_of_true h trivial⟩
  have hup := Bool.eq_false_iff.mpr hdown
  cases e with
  | read d =>
    have hstep : g.gameStep o J F (.read d) =
        (gameReceiver.handleRead o .success (some (d.bytes o))
          { g with received := g.received ++ d.frames }).state := if_neg hdown
    rw [hstep, GameOk, if_neg hdown]
    exact game_handleRead d hg hup
  | tick =>
    rw [gameStep, GameOk, if_neg hdown]
    obtain ⟨hnext, hiff⟩ := game_runMessage (o := o) (J := J) (F := F) hg hup
    exact ⟨hnext, fun h => (hiff h).trans ⟨fun hok _ => hok, fun hok => hok hup⟩⟩
  | writable err writeSome =>
    rw [gameStep, GameOk, if_neg hdown]
    have hnext := hg.writable err writeSome
    refine ⟨hnext, fun h => iff_of_true ⟨?_, h.allAccepted, hnext.accepted⟩ trivial⟩
    exact h.requests

end GameServer

/-! ## Whole runs -/

namespace Backend

variable {σ : Type u} (o : ByteOrder) (J : JsonLib) (F : FuncHandler σ)

theorem accounted_start (now : ℤ) (w : σ) : (start now w).Accounted := ⟨rfl, rfl⟩

theorem noResponseLost_start (inRange : Int32 → Bool) (now : ℤ) (w : σ) :
    (start now w).NoResponseLost inRange [] :=
  ⟨rfl, fun _ hx => absurd hx List.not_mem_nil, rfl⟩

theorem account_always_iff (now : ℤ) (w : σ) (es : List ServerEvent) :
    Always (accountStep o J F) (NoResponseLost inAccountRange []) (start now w) es ↔
      EachStep (accountStep o J F) (AccountOk o J F) (start now w) es :=
  always_iff_eachStep (I := Accounted) (fun _ e hb => (accountStep_spec e hb).1)
    (fun _ e hb => (accountStep_spec e hb).2) (accounted_start now w)
    (noResponseLost_start inAccountRange now w)

/-- **No response is lost, exactly.** Over any interleaving of reads, ticks and write
completions on an open gate connection, and for any handlers, each server takes up
every request of its range once and in order and gets every due response accepted, in
every state of the run, if and only if every step is allowed: a request whose response
is due meets no write in progress, no read brings exactly `MSG_MAXIMUM` bytes of
requests, at the account server no handler fails to return while requests of the
same read are still behind it, and no request is sent to a process that has ended. The game
server ends with its first request, so that no other may wait behind it or come later. -/
theorem noResponseLost_always_iff (now : ℤ) (w : σ) (es : List ServerEvent) :
    (Always (accountStep o J F) (NoResponseLost inAccountRange []) (start now w) es ↔
      EachStep (accountStep o J F) (AccountOk o J F) (start now w) es) ∧
    (Always (GameServer.gameStep o J F) GameServer.NoneLost (.start now w) es ↔
      EachStep (GameServer.gameStep o J F) (GameServer.GameOk o J F) (.start now w) es) :=
  ⟨account_always_iff o J F now w es,
    always_iff_eachStep (I := fun g : GameServer σ => g.toBackend.Accounted)
      (fun _ e hg => (GameServer.gameStep_spec e hg).1)
      (fun _ e hg => (GameServer.gameStep_spec e hg).2) (accounted_start now w)
      (noResponseLost_start inGameRange now w)⟩

/-- A dispatcher with one request, always answered with `{"msg":[0]}`. -/
def oneHandler : FuncHandler Unit :=
  FuncHandler.empty.registFuncHandler playerLoginReq playerLoginRsp
    fun _ _ w => (.ok (true, Json.reply [.int 0]), w)

/-- Two login requests of different clients, in one read. -/
def twoLogins : Delivery where
  frames := [⟨playerLoginReq, 0, 1, []⟩, ⟨playerLoginReq, 0, 2, []⟩]
  short := by decide
  fits := by decide

/-- The second of two requests in one read finds the write of the first response in
progress: its response is refused with code 2 and forgotten. -/
theorem noResponseLost_fails_on_two_requests :
    ¬ Always (accountStep .little plainJson oneHandler)
      (NoResponseLost inAccountRange []) (start 0 ()) [.read twoLogins] := by
  rw [account_always_iff]
  rintro ⟨hok, -⟩
  obtain ⟨-, -, hsecond⟩ := hok
  exact absurd (hsecond.1 (by decide)) (by decide)

end Backend

end MyServer
