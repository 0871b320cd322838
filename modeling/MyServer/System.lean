import MyServer.GateFrames
import MyServer.HandlerFaults

/-!
# The gate and the servers behind it, as one system

The gate, the account server and the game server, and the frames between them. Any number
of clients send the gate whatever they like. A frame that one of the parties has accepted for
writing can reach the other one at any time: never, once or many times, and in any order. What a
process has accepted in the call that ends it is never written.

An event hands one frame to a handler. For a client that is no restriction: whatever bytes a read
brings, the read loop hands over the frames at their front, one after the other
(`Receiver.handleRead_eq_feed`). Between the gate and the servers it is one: here every read begins
and ends where a frame does. `handle_read` keeps nothing of a frame that a read cuts, and takes what
the next read brings of it for a frame of its own, with a net id that a client may have written.

* `System.step` — one event: a frame arrives somewhere, or something happens to a party.
* `System.gateStep` — the gate's part of an event.
* `System.toAccount_step`, `System.fromAccount_step`, … — what an event can add to the frames on
  the way.
-/

namespace MyServer

/-! ## The system -/

/-- The three processes, and what they have sent each other. -/
structure System : Type where
  /-- the gate -/
  gate : Gate
  /-- the account server, with its collection -/
  account : Backend (List Document)
  /-- the game server, with its players -/
  game : GameServer Players
  /-- the frames the gate has sent to the account server -/
  toAccount : List Packet
  /-- the frames the gate has sent to the game server -/
  toGame : List Packet
  /-- the frames the account server has sent -/
  fromAccount : List Packet
  /-- the frames the game server has sent -/
  fromGame : List Packet

/-- What can happen. -/
inductive SystemEvent : Type where
  /-- a client's frame arrives at the gate -/
  | client : ConnPtr → Packet → SystemEvent
  /-- the network or the timer makes the gate do something -/
  | gate : GateOp → SystemEvent
  /-- a frame the gate has sent arrives at the account server -/
  | toAccount : ℕ → Env → SystemEvent
  /-- a frame the account server has sent arrives at the gate -/
  | fromAccount : ℕ → SystemEvent
  /-- a frame the gate has sent arrives at the game server -/
  | toGame : ℕ → SystemEvent
  /-- a frame the game server has sent arrives at the gate -/
  | fromGame : ℕ → SystemEvent
  /-- `GameServer::update` -/
  | tick : Env → SystemEvent
  /-- a write of the account server completes -/
  | accountWritten : ErrorCode → (ℕ → ℕ) → SystemEvent
  /-- a write of the game server completes -/
  | gameWritten : ErrorCode → (ℕ → ℕ) → SystemEvent
  /-- the account server accepts a connection of the gate -/
  | accountAccept : ℤ → SystemEvent
  /-- the game server accepts a connection of the gate -/
  | gameAccept : ℤ → SystemEvent

namespace System

/-- The gate becomes `g`; what its server connections have accepted is on its way. -/
def withGate (s : System) (g : Gate) : System :=
  { s with
    gate := g
    toAccount := s.toAccount ++
      newFrames (s.gate.conn s.gate.accountConn) (g.conn s.gate.accountConn)
    toGame := s.toGame ++ newFrames (s.gate.conn s.gate.gameConn) (g.conn s.gate.gameConn) }

/-- What a process has sent in a call that leaves it as `b`, if that is not the end of it. -/
def sentBy {σ : Type} (c : TcpConnection) (b : Backend σ) : List Packet :=
  if b.down then [] else newFrames c b.gateConn

/-- The account server becomes `b`. -/
def withAccount (s : System) (b : Backend (List Document)) : System :=
  { s with account := b, fromAccount := s.fromAccount ++ sentBy s.account.gateConn b }

/-- The game server becomes `b`. -/
def withGame (s : System) (b : GameServer Players) : System :=
  { s with game := b, fromGame := s.fromGame ++ sentBy s.game.gateConn b.toBackend }

variable (o : ByteOrder) (J : JsonLib) (M : MongoLib)

/-- One event. A process that has ended does nothing any more. -/
def step (s : System) : SystemEvent → System
  | .client c q =>
    if (s.gate.conn c).netId < 0 then s else s.withGate (s.gate.onRecv o J c q.received).1
  | .gate op => if op.outside then s.withGate (s.gate.step o op) else s
  | .toAccount i env =>
    match s.toAccount[i]? with
    | none => s
    | some q =>
      if s.account.down then s
      else s.withAccount
        (s.account.onRecv o J (registered (AccountMgr.registFunc J M env)) q.received).1
  | .fromAccount i =>
    match s.fromAccount[i]? with
    | none => s
    | some q => s.withGate (s.gate.onRecv o J s.gate.accountConn q.received).1
  | .toGame i =>
    match s.toGame[i]? with
    | none => s
    | some q => if s.game.down then s else s.withGame (s.game.onRecv q.received).1
  | .fromGame i =>
    match s.fromGame[i]? with
    | none => s
    | some q => s.withGate (s.gate.onRecv o J s.gate.gameConn q.received).1
  | .tick env =>
    if s.game.down then s
    else s.withGame (s.game.runMessage o J (registered (Players.regFunc J M env)))
  | .accountWritten err writeSome =>
    if s.account.down then s
    else { s with account := { s.account with
        gateConn := s.account.gateConn.handleWrite err writeSome } }
  | .gameWritten err writeSome =>
    if s.game.down then s
    else { s with game := { s.game with
        gateConn := s.game.gateConn.handleWrite err writeSome } }
  | .accountAccept now =>
    if s.account.down then s
    else { s with account := { s.account with gateConn := .opened now (-3) } }
  | .gameAccept now =>
    if s.game.down then s
    else { s with game := { s.game with gateConn := .opened now (-3) } }

/-- The system after its start, with these accounts and these players. -/
def init (now : ℤ) (as : List Account) (w : Players) : System where
  gate := .init now
  account := .start now (as.map Account.document)
  game := .start now w
  toAccount := []
  toGame := []
  fromAccount := []
  fromGame := []

end System

/-! ## The servers -/

universe u

section

variable {σ : Type u} {o : ByteOrder} {J : JsonLib}

theorem firstFor_eq_some {regs : List (Registration σ)} {proto : Int32} {r : Registration σ}
    (h : firstFor proto regs = some r) : r ∈ regs ∧ r.requestId = proto := by
  have hproto := List.find?_some h
  exact ⟨List.mem_of_find?_eq_some h, of_decide_eq_true hproto⟩

/-- What a server with these registrations, in the state `w`, sends for the request `q`: the
answer of the handler, or the empty response. -/
def Replies (J : JsonLib) (regs : List (Registration σ)) (w : σ) (q x : Packet) : Prop :=
  x = NetMessage.blank.packet ∨ ∃ reqJson r rspJson, bodyOf J q.received = some reqJson ∧
    firstFor q.proto regs = some r ∧ (r.handler reqJson q.playerId w).1 = .ok (true, rspJson) ∧
    x = ⟨r.responseId, q.playerId, q.netId, tighten (J.toStyledString rspJson)⟩

/-- A request is answered at most once, with the response of its handler. -/
theorem Backend.respond_extends (o : ByteOrder) (J : JsonLib) (regs : List (Registration σ))
    (b : Backend σ) (q : Packet) :
    Extends (Replies J regs b.world q) b.gateConn
      (b.respond o J (registered regs) q.received).1.gateConn := by
  have hsent : ∀ {handled : Bool} {rsp : NetMessage} {w : σ},
      (registered regs).runFuncHandler J q.received .blank b.world = (.ok (handled, rsp), w) →
      Replies J regs b.world q rsp.packet → Extends (Replies J regs b.world q) b.gateConn
        (b.respond o J (registered regs) q.received).1.gateConn := by
    intro handled rsp w hrun hrsp
    rw [respond, hrun]
    dsimp only
    split
    · rename_i hser
      have hpacket := (NetMessage.serialize_spec hser).1
      refine (extends_sendMessage b.gateConn (rsp.serialize o).1).mono fun p hp => ?_
      rw [hp, hpacket]
      exact hrsp
    · exact extends_of_accepted rfl
  obtain ⟨-, w, hrun⟩ | ⟨-, fault, w, hrun⟩ |
    ⟨-, reqJson, r, rspJson, w, hbody, hfirst, hhandler, hrun⟩ :=
    runFuncHandler_cases J regs q.received b.world
  · exact hsent hrun (.inl rfl)
  · rw [respond, hrun]
    exact extends_of_accepted rfl
  · exact hsent hrun (.inr ⟨reqJson, r, rspJson, hbody, hfirst, hhandler, rfl⟩)

theorem Backend.onRecv_extends (o : ByteOrder) (J : JsonLib) (regs : List (Registration σ))
    (b : Backend σ) (q : Packet) :
    Extends (Replies J regs b.world q) b.gateConn
      (b.onRecv o J (registered regs) q.received).1.gateConn := by
  have hresp := b.respond_extends o J regs q
  rw [onRecv]
  split
  · exact extends_of_accepted rfl
  · generalize b.respond o J (registered regs) q.received = r at hresp ⊢
    rcases r with ⟨b', _ | fault⟩
    · exact hresp
    · exact hresp

/-- The state after a request is the handler's, or the one before. -/
theorem world_runFuncHandler (J : JsonLib) (regs : List (Registration σ)) (req : NetMessage)
    (w : σ) :
    ((registered regs).runFuncHandler J req .blank w).2 = w ∨
      ∃ reqJson r, firstFor req.proto regs = some r ∧
        ((registered regs).runFuncHandler J req .blank w).2 =
          (r.handler reqJson req.playerId w).2 := by
  obtain ⟨hhandler, hproto⟩ := lookup_registered regs req.proto
  rw [FuncHandler.runFuncHandler, hhandler, hproto]
  dsimp only
  split
  · exact .inl rfl
  · rename_i reqJson _
    rcases hfirst : firstFor req.proto regs with _ | r
    · exact .inl rfl
    · refine .inr ⟨reqJson, r, rfl, ?_⟩
      dsimp only [Option.map_some]
      rcases r.handler reqJson req.playerId w with ⟨fault | ⟨_ | _, rspJson⟩, w⟩ <;> rfl

/-- Only a handler changes the state, and only the first one registered for the request is run. -/
theorem Backend.world_respond (o : ByteOrder) (J : JsonLib) (regs : List (Registration σ))
    (b : Backend σ) (q : Packet) :
    (b.respond o J (registered regs) q.received).1.world = b.world ∨
      ∃ reqJson r, firstFor q.proto regs = some r ∧
        (b.respond o J (registered regs) q.received).1.world =
          (r.handler reqJson q.playerId b.world).2 := by
  have hworld : (b.respond o J (registered regs) q.received).1.world =
      ((registered regs).runFuncHandler J q.received .blank b.world).2 := by
    rw [respond]
    rcases (registered regs).runFuncHandler J q.received .blank b.world with
      ⟨fault | ⟨handled, rsp⟩, w⟩
    · rfl
    · dsimp only
      split <;> rfl
  rw [hworld]
  exact world_runFuncHandler J regs q.received b.world

end

/-- A request leaves a table of accounts a table of accounts. -/
theorem AccountMgr.accounts_onRecv {J : JsonLib} {M : MongoLib} (hstd : StandardJson J M)
    (o : ByteOrder) (env : Env) {b : Backend (List Document)} {as : List Account}
    (hb : b.world = as.map Account.document) (q : Packet) :
    ∃ as' : List Account, (b.onRecv o J (registered (registFunc J M env)) q.received).1.world =
      as'.map Account.document := by
  have hresp : ∃ as' : List Account,
      (b.respond o J (registered (registFunc J M env)) q.received).1.world =
        as'.map Account.document := by
    obtain heq | ⟨reqJson, r, hfirst, heq⟩ := b.world_respond o J (registFunc J M env) q
    · exact ⟨as, heq.trans hb⟩
    · rw [heq, hb]
      obtain ⟨hr, -⟩ := firstFor_eq_some hfirst
      simp only [registFunc, List.mem_cons, List.not_mem_nil, or_false] at hr
      rcases hr with rfl | rfl
      · exact ⟨_, step_document hstd as (.regist reqJson env)⟩
      · exact ⟨as, rfl⟩
  rw [Backend.onRecv]
  split
  · exact ⟨as, hb⟩
  · generalize b.respond o J (registered (registFunc J M env)) q.received = r at hresp ⊢
    rcases r with ⟨b', _ | fault⟩
    · exact hresp
    · exact hresp

/-- The game server answers with its own protocols, or with the empty response. -/
theorem Players.replies_proto {J : JsonLib} {M : MongoLib} {env : Env} {w : Players}
    {q x : Packet} (h : Replies J (regFunc J M env) w q x) : inAccountRange x.proto = false := by
  obtain rfl | ⟨reqJson, r, rspJson, -, hfirst, -, rfl⟩ := h
  · decide
  · obtain ⟨hr, -⟩ := firstFor_eq_some hfirst
    simp only [regFunc, List.mem_cons, List.not_mem_nil, or_false] at hr
    have hcreate : inAccountRange playerCreateRoleRsp = false := by decide
    have henter : inAccountRange playerEnterGameRsp = false := by decide
    rcases hr with rfl | rfl
    · exact hcreate
    · exact henter

namespace System

variable {o : ByteOrder} {J : JsonLib} {M : MongoLib} {s : System}

/-! ## One event -/

/-- What holds in every state. -/
structure Wired (s : System) : Prop where
  /-- the gate's tables -/
  tables : s.gate.Tables
  /-- the gate's server connections -/
  upstream : s.gate.Upstream
  /-- what waits at the game server came from the gate -/
  queue : ∀ r ∈ s.game.msgQueue, ∃ q ∈ s.toGame, r = q.received
  /-- the game server does not answer for the account server -/
  fromGame : ∀ x ∈ s.fromGame, inAccountRange x.proto = false

/-- What the gate hands to a connection in an event. -/
inductive Handed (J : JsonLib) (s : System) : SystemEvent → ConnPtr → Packet → Prop where
  /-- because of a client's frame -/
  | client {c d : ConnPtr} {q x : Packet} : s.gate.FromClient c q d x → Handed J s (.client c q) d x
  /-- because of a frame of the account server -/
  | fromAccount {i : ℕ} {d : ConnPtr} {q x : Packet} : s.fromAccount[i]? = some q →
    s.gate.FromServer J q d x → Handed J s (.fromAccount i) d x
  /-- because of a frame of the game server -/
  | fromGame {i : ℕ} {d : ConnPtr} {q x : Packet} : s.fromGame[i]? = some q →
    s.gate.FromServer J q d x → Handed J s (.fromGame i) d x

/-- The event is the arrival of a login response of the account server. -/
def Admits (J : JsonLib) (s : System) (e : SystemEvent) (p n : Int32) : Prop :=
  ∃ i q, e = .fromAccount i ∧ s.fromAccount[i]? = some q ∧ Gate.LogsIn J q p n

/-- The gate's part of an event. -/
structure GateStep (J : JsonLib) (s : System) (e : SystemEvent) (s' : System) : Prop where
  /-- the tables -/
  tables : s'.gate.Tables
  /-- the server connections -/
  upstream : s'.gate.Upstream
  /-- who comes online, and what is handed to whom -/
  adds : s.gate.Adds s'.gate (Admits J s e) (Handed J s e)
  /-- what is sent to the account server -/
  toAccount : ∀ x ∈ s'.toAccount, x ∈ s.toAccount ∨ Handed J s e s.gate.accountConn x
  /-- what is sent to the game server -/
  toGame : ∀ x ∈ s'.toGame, x ∈ s.toGame ∨ Handed J s e s.gate.gameConn x

theorem gateStep_withGate {e : SystemEvent} {g : Gate} (htables : g.Tables)
    (hup : g.Upstream) (hadds : s.gate.Adds g (Admits J s e) (Handed J s e)) :
    GateStep J s e (s.withGate g) := by
  refine ⟨htables, hup, hadds, fun x hx => ?_, fun x hx => ?_⟩
  · exact (List.mem_append.mp hx).imp_right (hadds.accepted _).newFrames
  · exact (List.mem_append.mp hx).imp_right (hadds.accepted _).newFrames

/-- An event at a server leaves the gate alone. -/
theorem gateStep_of_same (hw : s.Wired) {e : SystemEvent} {s' : System} (hgate : s'.gate = s.gate)
    (haccount : s'.toAccount = s.toAccount) (hgame : s'.toGame = s.toGame) :
    GateStep J s e s' := by
  refine ⟨hgate ▸ hw.tables, hgate ▸ hw.upstream, ?_, fun x hx => .inl (haccount ▸ hx),
    fun x hx => .inl (hgame ▸ hx)⟩
  rw [hgate]
  exact (Gate.Silent.refl s.gate).adds

/-- **The gate's part of every event.** -/
theorem gateStep (hw : s.Wired) (e : SystemEvent) : GateStep J s e (s.step o J M e) := by
  have hsame : GateStep J s e s := gateStep_of_same hw rfl rfl rfl
  cases e with
  | client c q =>
    rw [step]
    split
    · exact hsame
    · rename_i hneg
      obtain ⟨htables, hup, hadds⟩ :=
        Gate.client_spec o J hw.tables hw.upstream (Int32.not_lt.mp hneg) q
      exact gateStep_withGate htables hup (hadds.after (fun _ => rfl) (fun hon => .inl hon) .client)
  | gate op =>
    rw [step]
    split
    · rename_i hop
      obtain ⟨hup, hsilent⟩ := Gate.outside_spec o hw.tables hw.upstream hop
      exact gateStep_withGate (hw.tables.step o op) hup hsilent.adds
    · exact hsame
  | fromAccount i =>
    rw [step]
    split
    · exact hsame
    · rename_i q hq
      obtain ⟨htables, hup, hadds⟩ :=
        Gate.server_spec o J hw.tables hw.upstream hw.upstream.account.2.2 q
      refine gateStep_withGate htables hup ⟨fun hon => ?_, fun d => ?_⟩
      · exact (hadds.online hon).imp_right fun h => ⟨i, q, rfl, hq, h⟩
      · exact (hadds.accepted d).mono fun x hx => .fromAccount hq hx
  | fromGame i =>
    rw [step]
    split
    · exact hsame
    · rename_i q hq
      obtain ⟨htables, hup, hadds⟩ :=
        Gate.server_spec o J hw.tables hw.upstream hw.upstream.game.2.2 q
      refine gateStep_withGate htables hup ⟨fun hon => ?_, fun d => ?_⟩
      · rcases hadds.online hon with hold | ⟨hrange, -⟩
        · exact .inl hold
        · -- the game server's frames are of other protocols
          rw [hw.fromGame q (List.mem_of_getElem? hq)] at hrange
          cases hrange
      · exact (hadds.accepted d).mono fun x hx => .fromGame hq hx
  | toAccount i env =>
    rw [step]
    split
    · exact hsame
    · split
      · exact hsame
      · exact gateStep_of_same hw rfl rfl rfl
  | toGame i =>
    rw [step]
    split
    · exact hsame
    · split
      · exact hsame
      · exact gateStep_of_same hw rfl rfl rfl
  | tick env =>
    rw [step]
    split
    · exact hsame
    · exact gateStep_of_same hw rfl rfl rfl
  | accountWritten | gameWritten | accountAccept | gameAccept =>
    rw [step]
    split
    · exact hsame
    · exact gateStep_of_same hw rfl rfl rfl

/-- The event is the arrival of a client's frame, and this is what the gate makes of it. -/
def Sends (s : System) (e : SystemEvent) (x : Packet) : Prop :=
  ∃ c q, e = .client c q ∧ x = { q with netId := (s.gate.conn c).netId }

/-- Only clients' frames go to the servers. -/
theorem sends_of_handed (hw : s.Wired) {e : SystemEvent} {d : ConnPtr} {x : Packet}
    (hneg : (s.gate.conn d).netId < 0) (h : Handed J s e d x) : s.Sends e x := by
  have hroute : ∀ {p n : Int32}, s.gate.route p n ≠ some d := by
    intro p n hroute
    exact absurd hneg (Int32.not_lt.mpr (Gate.netId_route hw.tables hroute))
  cases h with
  | client h =>
    cases h with
    | account _ => exact ⟨_, _, rfl, rfl⟩
    | game _ => exact ⟨_, _, rfl, rfl⟩
    | heartBeat _ h => exact absurd h hroute
  | fromAccount _ h =>
    cases h with
    | relayed _ h => exact absurd h hroute
    | login _ h => exact absurd h hroute
  | fromGame _ h =>
    cases h with
    | relayed _ h => exact absurd h hroute
    | login _ h => exact absurd h hroute

/-- The connection to the account server has a negative net id, so only clients' frames go there. -/
theorem toAccount_step (hw : s.Wired) {e : SystemEvent} {x : Packet}
    (hx : x ∈ (s.step o J M e).toAccount) : x ∈ s.toAccount ∨ s.Sends e x :=
  ((gateStep (o := o) (J := J) (M := M) hw e).toAccount x hx).imp_right
    (sends_of_handed hw hw.upstream.account.2.2)

theorem toGame_step (hw : s.Wired) {e : SystemEvent} {x : Packet}
    (hx : x ∈ (s.step o J M e).toGame) : x ∈ s.toGame ∨ s.Sends e x :=
  ((gateStep (o := o) (J := J) (M := M) hw e).toGame x hx).imp_right
    (sends_of_handed hw hw.upstream.game.2.2)

theorem newFrames_of_sentBy {σ : Type} {c : TcpConnection} {b : Backend σ} {x : Packet}
    (h : x ∈ sentBy c b) : x ∈ newFrames c b.gateConn := by
  rw [sentBy] at h
  split at h
  · exact absurd h List.not_mem_nil
  · exact h

theorem fromAccount_step {e : SystemEvent} {x : Packet}
    (hx : x ∈ (s.step o J M e).fromAccount) : x ∈ s.fromAccount ∨
      ∃ i env q, e = .toAccount i env ∧ s.toAccount[i]? = some q ∧
        Replies J (AccountMgr.registFunc J M env) s.account.world q x := by
  cases e with
  | toAccount i env =>
    rw [step] at hx
    split at hx
    · exact .inl hx
    · rename_i q hq
      split at hx
      · exact .inl hx
      · refine (List.mem_append.mp hx).imp_right fun hnew => ⟨i, env, q, rfl, hq, ?_⟩
        exact (s.account.onRecv_extends o J _ q).newFrames (newFrames_of_sentBy hnew)
  | client | gate | fromAccount | fromGame | toGame | tick | accountWritten | gameWritten |
    accountAccept | gameAccept =>
    rw [step] at hx
    left
    split at hx
    · exact hx
    · first | exact hx | (split at hx <;> exact hx)

/-- One tick answers the front of the queue. -/
theorem runMessage_extends (hw : s.Wired) (env : Env) :
    Extends (fun x => ∃ q ∈ s.toGame, Replies J (Players.regFunc J M env) s.game.world q x)
      s.game.gateConn
      (s.game.runMessage o J (registered (Players.regFunc J M env))).gateConn := by
  rw [GameServer.runMessage]
  split
  · exact extends_of_accepted rfl
  · rename_i req rest hqueue
    obtain ⟨q, hq, rfl⟩ := hw.queue req (hqueue ▸ List.mem_cons_self ..)
    have hresp := s.game.toBackend.respond_extends o J (Players.regFunc J M env) q
    have hsent := hresp.mono fun x hx => (⟨q, hq, hx⟩ : ∃ q ∈ s.toGame,
      Replies J (Players.regFunc J M env) s.game.world q x)
    generalize s.game.toBackend.respond o J (registered (Players.regFunc J M env)) q.received = r
      at hsent ⊢
    rcases r with ⟨b, _ | fault⟩
    · exact hsent
    · exact hsent

/-- The game server answers in its tick, and what it takes up then came from the gate. -/
theorem fromGame_step (hw : s.Wired) {e : SystemEvent} {x : Packet}
    (hx : x ∈ (s.step o J M e).fromGame) : x ∈ s.fromGame ∨
      ∃ env q, e = .tick env ∧ q ∈ s.toGame ∧
        Replies J (Players.regFunc J M env) s.game.world q x := by
  cases e with
  | tick env =>
    rw [step] at hx
    split at hx
    · exact .inl hx
    · refine (List.mem_append.mp hx).imp_right fun hnew => ?_
      obtain ⟨q, hq, hreplies⟩ :=
        (runMessage_extends hw env).newFrames (newFrames_of_sentBy hnew)
      exact ⟨env, q, rfl, hq, hreplies⟩
  | toGame i =>
    rw [step] at hx
    split at hx
    · exact .inl hx
    · rename_i q _
      split at hx
      · exact .inl hx
      · -- a request is only queued
        have hconn : (s.game.onRecv q.received).1.gateConn = s.game.gateConn := by
          rw [GameServer.onRecv]
          split <;> rfl
        refine .inl ((List.mem_append.mp hx).resolve_right fun hnew => ?_)
        have hnew := newFrames_of_sentBy hnew
        rw [hconn] at hnew
        exact (extends_of_accepted (Q := fun _ => False) rfl).newFrames hnew
  | client | gate | fromAccount | fromGame | toAccount | accountWritten | gameWritten |
    accountAccept | gameAccept =>
    rw [step] at hx
    left
    split at hx
    · exact hx
    · first | exact hx | (split at hx <;> exact hx)

/-- What waits at the game server waited before, or has just arrived. -/
theorem queue_step (hw : s.Wired) (e : SystemEvent) :
    ∀ r ∈ (s.step o J M e).game.msgQueue, ∃ q ∈ s.toGame, r = q.received := by
  intro r hr
  cases e with
  | tick env =>
    rw [step] at hr
    split at hr
    · exact hw.queue r hr
    · change r ∈ (s.game.runMessage o J (registered (Players.regFunc J M env))).msgQueue at hr
      refine hw.queue r ?_
      rw [GameServer.runMessage] at hr
      split at hr
      · exact hr
      · rename_i req rest hqueue
        generalize s.game.toBackend.respond o J (registered (Players.regFunc J M env)) req = b at hr
        rcases b with ⟨b, _ | fault⟩
        · exact hqueue ▸ List.mem_cons_of_mem _ hr
        · exact hr
  | toGame i =>
    rw [step] at hr
    split at hr
    · exact hw.queue r hr
    · rename_i q hq
      split at hr
      · exact hw.queue r hr
      · change r ∈ (s.game.onRecv q.received).1.msgQueue at hr
        rw [GameServer.onRecv] at hr
        split at hr
        · rcases List.mem_append.mp hr with hold | hnew
          · exact hw.queue r hold
          · exact ⟨q, List.mem_of_getElem? hq, List.mem_singleton.mp hnew⟩
        · exact hw.queue r hr
  | client | gate | fromAccount | fromGame | toAccount | accountWritten | gameWritten |
    accountAccept | gameAccept =>
    refine hw.queue r ?_
    rw [step] at hr
    split at hr
    · exact hr
    · first | exact hr | (split at hr <;> exact hr)

/-- What the gate has sent stays on the way. -/
theorem toGame_subset (s : System) (e : SystemEvent) : s.toGame ⊆ (s.step o J M e).toGame := by
  intro x hx
  have hgate : ∀ g, x ∈ (s.withGate g).toGame := fun g => List.mem_append_left _ hx
  cases e with
  | client | gate =>
    rw [step]
    split
    · first | exact hx | exact hgate _
    · first | exact hx | exact hgate _
  | fromAccount | fromGame =>
    rw [step]
    split
    · exact hx
    · exact hgate _
  | toAccount | toGame =>
    rw [step]
    split
    · exact hx
    · split <;> exact hx
  | tick | accountWritten | gameWritten | accountAccept | gameAccept =>
    rw [step]
    split <;> exact hx

/-- The collection is a table of accounts. -/
def Tabled (s : System) : Prop := ∃ as : List Account, s.account.world = as.map Account.document

/-- The handlers of the account server keep the collection a table, and nobody else writes it. -/
theorem tabled_step (hstd : StandardJson J M) (has : s.Tabled) (e : SystemEvent) :
    (s.step o J M e).Tabled := by
  obtain ⟨as, has⟩ := has
  cases e with
  | toAccount i env =>
    rw [step]
    split
    · exact ⟨as, has⟩
    · rename_i q _
      split
      · exact ⟨as, has⟩
      · exact AccountMgr.accounts_onRecv hstd o env has q
  | client | gate | fromAccount | fromGame | toGame | tick | accountWritten | gameWritten |
    accountAccept | gameAccept =>
    refine ⟨as, ?_⟩
    rw [step]
    split
    · exact has
    · first | exact has | (split <;> exact has)

/-- **Every event keeps the invariant.** -/
theorem Wired.step (hw : s.Wired) (e : SystemEvent) : (s.step o J M e).Wired := by
  have hgate := gateStep (o := o) (J := J) (M := M) hw e
  refine ⟨hgate.tables, hgate.upstream, fun r hr => ?_, fun x hx => ?_⟩
  · obtain ⟨q, hq, heq⟩ := queue_step hw e r hr
    exact ⟨q, s.toGame_subset e hq, heq⟩
  · rcases fromGame_step hw hx with hold | ⟨env, q, -, -, hreplies⟩
    · exact hw.fromGame x hold
    · exact Players.replies_proto hreplies

end System

end MyServer
