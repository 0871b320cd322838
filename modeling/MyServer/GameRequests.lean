import MyServer.Roles
import MyServer.SystemRuns

/-!
# Requests at the game server

`GameHandler::onRecv` puts a request into a queue, and `update` takes one out of it and runs its
handler. Nothing that the handler answers leaves the process, since the process ends before the
write is ready (`GameServer.runMessage`). What is left of a request is what the handler has done to
the players, and this goes for the first request only.

The gate sends a client's request on under the player id that the client wrote into it, and nobody
asks whether that player is online on the client's connection.

* `GameServer.serves_first_only` — where the players are after an update, however reads, updates
  and writes are interleaved.
* `System.role_for_anyone` — that one request can be any client's, for a role of any player.
-/

namespace MyServer

universe u

/-! ## The queue -/

section

variable {σ : Type u}

namespace TcpConnection

/-- A connection that has sent nothing and has nothing to send. -/
structure Silent (c : TcpConnection) : Prop where
  /-- no bytes wait -/
  writeLen : c.writeLen = 0
  /-- none were written -/
  written : c.socket.written = []

theorem Silent.handleWrite {c : TcpConnection} (h : c.Silent) (err : ErrorCode)
    (writeSome : ℕ → ℕ) : (c.handleWrite err writeSome).Silent := by
  cases err with
  | success =>
    obtain ⟨n, -, -, hsocket, -, -, hlen⟩ := c.handleWrite_spec writeSome
    refine ⟨hlen, ?_⟩
    rw [hsocket, h.written, pending, h.writeLen]
    simp
  | eof => exact ⟨h.writeLen, h.written⟩
  | other => exact ⟨rfl, h.written⟩

theorem Silent.postRead {c : TcpConnection} (h : c.Silent) : c.postRead.Silent := by
  rw [TcpConnection.postRead]
  split
  · exact h
  · exact ⟨h.writeLen, h.written⟩

end TcpConnection

/-- The requests that an event brings to the game server. -/
def ServerEvent.requests : ServerEvent → List NetMessage
  | .read d => (d.seen.filter fun p => inGameRange p.proto).map Packet.received
  | .tick => []
  | .writable _ _ => []

namespace GameServer

section

variable {o : ByteOrder} {J : JsonLib} {F : FuncHandler σ}

/-- Taking up a request: the handler's state, one outcome unless the handler did not return, and
nothing that is written. -/
theorem respond_spec (b : Backend σ) (req : NetMessage) :
    (b.respond o J F req).1.world = Backend.next J F req b.world ∧
      (b.respond o J F req).1.outcomes.map Outcome.request =
        b.outcomes.map Outcome.request ++ (if (b.respond o J F req).2 = none then [req.packet]
          else []) ∧
      (b.respond o J F req).1.gateConn.socket = b.gateConn.socket := by
  rw [Backend.respond, Backend.next]
  rcases F.runFuncHandler J req .blank b.world with ⟨fault | ⟨handled, rsp⟩, w⟩
  · exact ⟨rfl, (List.append_nil _).symm, rfl⟩
  · dsimp only
    split
    · refine ⟨rfl, List.map_append, ?_⟩
      dsimp only
      rw [TcpConnection.sendMessage_frame]
    · exact ⟨rfl, List.map_append, rfl⟩

/-- The update that takes up a request is the last one, and writes nothing. -/
theorem runMessage_spec {g : GameServer σ} {req : NetMessage} {rest : List NetMessage}
    (h : g.msgQueue = req :: rest) :
    (g.runMessage o J F).world = Backend.next J F req g.world ∧
      (g.runMessage o J F).down = true ∧
      (g.runMessage o J F).outcomes.map Outcome.request =
        g.outcomes.map Outcome.request ++ [req.packet] ∧
      (g.runMessage o J F).gateConn.socket = g.gateConn.socket := by
  obtain ⟨hworld, hout, hsocket⟩ := respond_spec (o := o) (J := J) (F := F) g.toBackend req
  rw [runMessage, h]
  dsimp only
  generalize g.toBackend.respond o J F req = r at hworld hout hsocket ⊢
  obtain ⟨b, _ | fault⟩ := r
  · exact ⟨hworld, rfl, hout, hsocket⟩
  · refine ⟨hworld, rfl, List.map_append.trans ?_, hsocket⟩
    rw [hout]
    exact congrArg (· ++ _) (List.append_nil _)

/-- What the game server has made of the requests `rs`, with the players `w` at its start. -/
inductive FirstOnly (J : JsonLib) (F : FuncHandler σ) (w : σ) (rs : List NetMessage)
    (g : GameServer σ) : Prop where
  /-- they wait -/
  | waiting : g.down = false → g.world = w → g.msgQueue = rs → g.outcomes = [] →
      g.gateConn.Silent → FirstOnly J F w rs g
  /-- the first was taken up -/
  | ended {req : NetMessage} {rest : List NetMessage} : rs = req :: rest → g.down = true →
      g.world = Backend.next J F req w → g.outcomes.map Outcome.request = [req.packet] →
      g.gateConn.socket.written = [] → FirstOnly J F w rs g

/-- An update takes up the first of the requests, if there is one. -/
theorem FirstOnly.tick {w : σ} {rs : List NetMessage} {g : GameServer σ}
    (h : FirstOnly J F w rs g) :
    FirstOnly J F w rs (g.gameStep o J F .tick) ∧
      (rs ≠ [] → (g.gameStep o J F .tick).down = true) := by
  rw [gameStep]
  cases h with
  | ended hrs hdown hworld hout hwritten =>
    rw [if_pos hdown]
    exact ⟨.ended hrs hdown hworld hout hwritten, fun _ => hdown⟩
  | waiting hdown hworld hqueue hout hsilent =>
    rw [hdown, if_neg Bool.false_ne_true]
    cases rs with
    | nil =>
      rw [runMessage, hqueue]
      exact ⟨.waiting hdown hworld hqueue hout hsilent, fun hne => absurd rfl hne⟩
    | cons req rest =>
      obtain ⟨hnext, hend, hreq, hsocket⟩ := runMessage_spec (o := o) (J := J) (F := F) hqueue
      rw [hout, List.map_nil, List.nil_append] at hreq
      rw [hworld] at hnext
      exact ⟨.ended rfl hend hnext hreq (by rw [hsocket, hsilent.written]), fun _ => hend⟩

/-- **Step**: every event leaves it so. -/
theorem FirstOnly.step {w : σ} {rs : List NetMessage} {g : GameServer σ}
    (h : FirstOnly J F w rs g) (e : ServerEvent) :
    FirstOnly J F w (rs ++ e.requests) (g.gameStep o J F e) := by
  cases e with
  | tick =>
    rw [ServerEvent.requests, List.append_nil]
    exact h.tick.1
  | read d =>
    cases h with
    | ended hrs hdown hworld hout hwritten =>
      have hstep : g.gameStep o J F (.read d) = { g with received := g.received ++ d.frames } :=
        if_pos hdown
      rw [hstep]
      exact .ended (congrArg (· ++ _) hrs) hdown hworld hout hwritten
    | waiting hdown hworld hqueue hout hsilent =>
      have hstep : g.gameStep o J F (.read d) =
          (gameReceiver.handleRead o .success (some (d.bytes o))
            { g with received := g.received ++ d.frames }).state :=
        if_neg (hdown ▸ Bool.false_ne_true)
      rw [hstep, Receiver.handleRead_delivery, game_feed]
      refine .waiting hdown hworld (congrArg (· ++ _) hqueue) hout
        (TcpConnection.Silent.postRead ?_)
      exact ⟨hsilent.writeLen, hsilent.written⟩
  | writable err writeSome =>
    rw [ServerEvent.requests, List.append_nil]
    cases h with
    | ended hrs hdown hworld hout hwritten =>
      have hstep : g.gameStep o J F (.writable err writeSome) = g := if_pos hdown
      rw [hstep]
      exact .ended hrs hdown hworld hout hwritten
    | waiting hdown hworld hqueue hout hsilent =>
      have hstep : g.gameStep o J F (.writable err writeSome) =
          { g with gateConn := g.gateConn.handleWrite err writeSome } :=
        if_neg (hdown ▸ Bool.false_ne_true)
      rw [hstep]
      exact .waiting hdown hworld hqueue hout (hsilent.handleWrite err writeSome)

end

/-- The requests that the reads among these events bring. -/
def requests (es : List ServerEvent) : List NetMessage := es.flatMap ServerEvent.requests

/-- **Run**: so it is after any events. -/
theorem firstOnly_run (o : ByteOrder) (J : JsonLib) (F : FuncHandler σ) (now : ℤ) (w : σ)
    (es : List ServerEvent) :
    FirstOnly J F w (requests es) (runFrom (gameStep o J F) (.start now w) es) := by
  induction es using List.reverseRecOn with
  | nil => exact .waiting rfl rfl rfl rfl ⟨rfl, rfl⟩
  | append_singleton es e ih =>
    rw [runFrom_append, requests, List.flatMap_append, List.flatMap_singleton]
    exact ih.step e

/-- **The game server serves one request.** However reads, updates and writes are interleaved:
after an update the request that arrived first has been taken up, if there was one, and no other;
the players are where its handler took them; the process has ended; and it has not written a byte,
so nobody was answered. -/
theorem serves_first_only (o : ByteOrder) (J : JsonLib) (F : FuncHandler σ) (now : ℤ) (w : σ)
    (es : List ServerEvent) :
    let g := runFrom (gameStep o J F) (.start now w) (es ++ [.tick])
    g.outcomes.map Outcome.request = ((requests es).take 1).map NetMessage.packet ∧
      g.world = (requests es).head?.elim w (fun req => Backend.next J F req w) ∧
      g.down = !(requests es).isEmpty ∧ g.gateConn.socket.written = [] := by
  intro g
  have hg : g = (runFrom (gameStep o J F) (.start now w) es).gameStep o J F .tick :=
    runFrom_append ..
  obtain ⟨hfirst, hend⟩ := (firstOnly_run o J F now w es).tick (o := o)
  rw [← hg] at hfirst hend
  cases hfirst with
  | waiting hdown hworld hqueue hout hsilent =>
    -- no request has come
    have hnil : requests es = [] := by
      by_contra hne
      exact absurd ((hend hne).symm.trans hdown) Bool.noConfusion
    rw [hnil, hout]
    exact ⟨rfl, hworld, hdown, hsilent.written⟩
  | ended hcons hdown hworld hout hwritten =>
    rw [hcons]
    exact ⟨hout, hworld, hdown, hwritten⟩

end GameServer

end

/-! ## Whose request it is -/

/-- The state a registered handler leaves. -/
theorem Backend.next_of_handler {σ : Type u} {J : JsonLib} {regs : List (Registration σ)}
    {m : NetMessage} {req : Json} {r : Registration σ} {w : σ} (hbody : bodyOf J m = some req)
    (hfirst : firstFor m.proto regs = some r) :
    next J (registered regs) m w = (r.handler req m.playerId w).2 := by
  obtain ⟨hhandler, hproto⟩ := lookup_registered regs m.proto
  rw [next, FuncHandler.runFuncHandler, hhandler, hproto, ← bodyOf, hbody, hfirst]
  dsimp only [Option.map_some]
  rcases r.handler req m.playerId w with ⟨fault | ⟨_ | _, rspJson⟩, w⟩ <;> rfl

namespace System

variable {o : ByteOrder} {J : JsonLib} {M : MongoLib} {s : System}

/-- Nothing stands in the way of the request `q`, sent on the connection `c`, to the handler of
`r`, which takes `req`. -/
structure GameReady (J : JsonLib) (regs : List (Registration Players)) (s : System) (c : ConnPtr)
    (q : Packet) (r : Registration Players) (req : Json) : Prop where
  /-- the client's connection is in the gate's table -/
  client : s.gate.connMap[(s.gate.conn c).netId]? = some c
  /-- the gate's connection to the game server is open and idle -/
  gameReady : Traffic.Ready s.gate s.gate.gameConn
  /-- the game server runs, and no request waits -/
  up : s.game.down = false ∧ s.game.msgQueue = []
  /-- the request can be read -/
  body : bodyOf J q.received = some req
  /-- its handler -/
  handler : firstFor q.proto regs = some r
  /-- it is one for the game server -/
  proto : inGameRange q.proto = true
  /-- it fits a frame -/
  short : msgHead + q.message.length < msgMaximum

variable {c : ConnPtr} {q : Packet} {env : Env} {r : Registration Players} {req : Json}
  {regs : List (Registration Players)}

/-- The request goes to the game server, under the player id it came with. -/
theorem GameReady.sent (h : GameReady J regs s c q r req) (hw : s.Wired) :
    (s.step o J M (.client c q)).toGame =
        s.toGame ++ [{ q with netId := (s.gate.conn c).netId }] ∧
      (s.step o J M (.client c q)).game = s.game ∧
      (s.step o J M (.client c q)).fromGame = s.fromGame ∧
      (s.step o J M (.client c q)).gate = s.gate.sendToGameSvr o
        (q.received.setNetId (s.gate.conn c).netId) := by
  obtain ⟨hnet, hpos, -⟩ := hw.tables.connEntry h.client
  have hrange : inGameRange q.received.proto = true := h.proto
  obtain ⟨-, hcases⟩ := Traffic.onRecv_cases (o := o) (J := J) hw.tables hw.upstream c q.received
  have heq : (s.gate.onRecv o J c q.received).1 =
      s.gate.sendToGameSvr o (q.received.setNetId (s.gate.conn c).netId) := by
    rcases hcases with ⟨-, hneg | ⟨-, hout⟩⟩ | ⟨-, -, hout, -⟩ | ⟨-, -, -, heq⟩
    · exact absurd hneg (Int32.not_lt.mpr hpos)
    · rw [hrange] at hout
      cases hout
    · rw [hrange] at hout
      cases hout
    · exact heq
  rw [step, if_neg (Int32.not_lt.mpr hpos), heq]
  refine ⟨?_, rfl, rfl, rfl⟩
  have hser : ((Gate.copyOf (q.received.setNetId (s.gate.conn c).netId)).serialize o).2 = true :=
    NetMessage.serialize_eq_true_iff.mpr h.short
  have hforward := (Traffic.accepted_forward s.gate.gameConn hser).mpr h.gameReady
  exact congrArg (s.toGame ++ ·) (newFrames_eq hforward)

/-- The events that take a request there and have it served. -/
def exchange (s : System) (c : ConnPtr) (q : Packet) (env : Env) : List SystemEvent :=
  [.client c q, .toGame s.toGame.length, .tick env]

/-- A frame of its range waits at a game server that runs. -/
theorem step_toGame {i : ℕ} {x : Packet} (hx : s.toGame[i]? = some x) (hup : s.game.down = false)
    (hrange : inGameRange x.proto = true) :
    s.step o J M (.toGame i) = s.withGame (s.game.pushMessage x.received) := by
  have hreceived : inGameRange x.received.proto = true := hrange
  rw [step, hx]
  dsimp only
  rw [hup, GameServer.onRecv, hreceived]
  rfl

/-- Putting it there sends nothing. -/
theorem fromGame_push (s : System) (m : NetMessage) :
    (s.withGame (s.game.pushMessage m)).fromGame = s.fromGame := by
  have hnone : sentBy s.game.gateConn (s.game.pushMessage m).toBackend = [] := by
    rw [sentBy]
    split
    · rfl
    · exact newFrames_eq (List.append_nil _).symm
  rw [withGame, hnone, List.append_nil]

/-- The tick takes up what waits first. -/
theorem step_tick (hup : s.game.down = false) (env : Env) :
    s.step o J M (.tick env) =
      s.withGame (s.game.runMessage o J (registered (Players.regFunc J M env))) := by
  rw [step, hup]
  rfl

/-- **A game request is served**, for the player that it names, and this ends the game server. -/
theorem GameReady.completes (hw : s.Wired)
    (h : GameReady J (Players.regFunc J M env) s c q r req) :
    let s' := runFrom (step o J M) s (s.exchange c q env)
    s'.game.world = (r.handler req q.playerId s.game.world).2 ∧ s'.game.down = true ∧
      s'.gate.playerMap = s.gate.playerMap ∧ s'.fromGame = s.fromGame := by
  intro s'
  obtain ⟨hto, hgame, hfrom, hgate⟩ := h.sent (o := o) (M := M) hw
  let x : Packet := { q with netId := (s.gate.conn c).netId }
  -- the request is on its way
  let s₁ := s.step o J M (.client c q)
  have hx : s₁.toGame[s.toGame.length]? = some x := by
    rw [show s₁.toGame = _ from hto]
    simp [x]
  have hup : s₁.game.down = false := hgame ▸ h.up.1
  -- it waits at the game server
  let s₂ := s₁.withGame (s₁.game.pushMessage x.received)
  have hs₂ : s₁.step o J M (.toGame s.toGame.length) = s₂ := step_toGame hx hup h.proto
  have hqueue : s₂.game.msgQueue = [x.received] := by
    change s₁.game.msgQueue ++ [x.received] = _
    rw [show s₁.game = _ from hgame, h.up.2]
    rfl
  -- it is served
  obtain ⟨hworld, hdown, -, -⟩ := GameServer.runMessage_spec (o := o) (J := J)
    (F := registered (Players.regFunc J M env)) hqueue
  have hs' : s' =
      s₂.withGame (s₂.game.runMessage o J (registered (Players.regFunc J M env))) := by
    change (s₁.step o J M (.toGame s.toGame.length)).step o J M (.tick env) = _
    rw [hs₂]
    exact step_tick (s := s₂) hup env
  have hstart : s₂.game.world = s.game.world := congrArg (fun g => g.world) hgame
  rw [hstart, Backend.next_of_handler (m := x.received) h.body h.handler] at hworld
  rw [hs']
  refine ⟨hworld, hdown, ?_, ?_⟩
  · change s₁.gate.playerMap = _
    rw [show s₁.gate = _ from hgate]
    rfl
  · have hlast : sentBy s₂.game.gateConn (s₂.game.runMessage o J
        (registered (Players.regFunc J M env))).toBackend = [] := if_pos hdown
    rw [withGame, hlast, List.append_nil]
    exact (fromGame_push s₁ x.received).trans hfrom

/-! ## A role for anyone -/

/-- A game server that runs has not served anything. -/
theorem world_step {w : Players} (h : s.game.down = false → s.game.world = w) (e : SystemEvent) :
    (s.step o J M e).game.down = false → (s.step o J M e).game.world = w := by
  cases e with
  | tick env =>
    rw [step]
    split_ifs with hdown
    · exact h
    · intro hup
      rcases hqueue : s.game.msgQueue with _ | ⟨req, rest⟩
      · have hsame : s.game.runMessage o J (registered (Players.regFunc J M env)) = s.game := by
          rw [GameServer.runMessage, hqueue]
        change (s.game.runMessage o J (registered (Players.regFunc J M env))).world = w
        rw [hsame]
        exact h (Bool.eq_false_of_not_eq_true hdown)
      · have hend := (GameServer.runMessage_spec (o := o) (J := J)
          (F := registered (Players.regFunc J M env)) hqueue).2.1
        exact absurd (hend.symm.trans hup) Bool.noConfusion
  | toGame i =>
    rw [step]
    split
    · exact h
    · split_ifs
      · exact h
      · rename_i q _ _
        change (s.game.onRecv q.received).1.down = false →
          (s.game.onRecv q.received).1.world = w
        rw [GameServer.onRecv]
        split_ifs <;> exact h
  | client | gate | toAccount | fromAccount | fromGame | accountWritten | gameWritten |
    accountAccept | gameAccept =>
    rw [step]
    split
    · exact h
    · first | exact h | (split <;> exact h)

theorem world_run (o : ByteOrder) (J : JsonLib) (M : MongoLib) (now : ℤ) (as : List Account)
    (w : Players) (es : List SystemEvent) :
    (run o J M now as w es).game.down = false → (run o J M now as w es).game.world = w := by
  have hall : Always (step o J M) (fun s => s.game.down = false → s.game.world = w)
      (init now as w) es := by
    refine always_of_step (fun s e h => world_step h e) ?_ es
    intro _
    rfl
  exact hall.last

/-- The handler of the requests for a role. -/
def roleRegistration (J : JsonLib) (M : MongoLib) (env : Env) : Registration Players :=
  ⟨playerCreateRoleReq, playerCreateRoleRsp, Players.createRoleReq J M env⟩

/-- **Any client can make a role for any player.** In every state that the system can reach, on
whatever collection the game server was started: as long as the game server runs and nothing stands
in the way of the request, a client's request for a role, with the player id and the nickname that
the client chose, puts that role into the map and into the collection, over what the collection had
of the player. No login is needed, and none happens. The game server ends, and sends no answer. -/
theorem role_for_anyone (hstd : StandardJson J M) (now : ℤ) (as : List Account)
    (col : List Document) (es : List SystemEvent) {c : ConnPtr} {q : Packet} {env : Env}
    {req : Json} {nickname : CString}
    (h : GameReady J (Players.regFunc J M env) (run o J M now as ⟨.create, col⟩ es) c q
      (roleRegistration J M env) req)
    (hname : Players.nicknameOf req = .ok (some nickname)) (hcalm : env.updateThrows = false) :
    let s := run o J M now as ⟨.create, col⟩ es
    let s' := run o J M now as ⟨.create, col⟩ (es ++ s.exchange c q env)
    s'.game.world.mgr.playerInfoMap[q.playerId]? =
        some (.obj (Players.role q.playerId nickname)) ∧
      (∃ doc, Document.record q.playerId s'.game.world.col = some doc ∧
        Players.roleOf doc = (.str (nickname.squeeze true), .int 1, .int 0)) ∧
      s'.gate.playerMap = s.gate.playerMap ∧ s'.game.down = true ∧ s'.fromGame = s.fromGame := by
  intro s s'
  have hw : s.Wired := wired_run o J M now as ⟨.create, col⟩ es
  have hs' : s' = runFrom (step o J M) s (s.exchange c q env) := runFrom_append ..
  obtain ⟨hworld, hdown, hplayers, hfrom⟩ := GameReady.completes (o := o) hw h
  have hstart : s.game.world = ⟨.create, col⟩ := world_run o J M now as ⟨.create, col⟩ es h.up.1
  have hfree : s.game.world.mgr.playerInfoMap[q.playerId]? = none := by
    rw [hstart]
    exact Std.TreeMap.getElem?_emptyc
  have hnick : s.game.world.mgr.nickNameMap = [] := by rw [hstart]; rfl
  have hnew : ((roleRegistration J M env).handler req q.playerId s.game.world).2 =
      (Players.newPlayer J M env s.game.world q.playerId nickname).2 := by
    change (Players.createRoleReq J M env req q.playerId s.game.world).2 = _
    rw [Players.createRoleReq, hname]
  rw [Players.newPlayer_of_new hstd hfree hnick, hcalm] at hnew
  rw [hs']
  refine ⟨?_, ?_, hplayers, hdown, hfrom⟩
  · rw [hworld, hnew]
    change (s.game.world.mgr.playerInfoMap.insert q.playerId _)[q.playerId]? = _
    rw [lookup_insert, if_pos rfl]
  · rw [hworld, hnew]
    obtain ⟨⟨doc, hdoc, hfields⟩, -⟩ :=
      Players.record_role q.playerId (nickname.squeeze true) env.oid s.game.world.col
    refine ⟨doc, hdoc, ?_⟩
    rw [Players.roleOf, hfields]
    rfl

/-- A request for the role of player 8. -/
def roleEight : Packet :=
  ⟨playerCreateRoleReq, 8, 0,
    tighten (wholeJson.toStyledString (Players.roleBody AccountMgr.userA))⟩

/-- The second of two clients makes it, and takes the place of the role that player 8 had. -/
theorem role_for_anyone_eight :
    let s := run .little wholeJson wholeMongo 0 [] ⟨.create, [Players.documentEight]⟩ connected
    let s' := run .little wholeJson wholeMongo 0 [] ⟨.create, [Players.documentEight]⟩
      (connected ++ s.exchange 3 roleEight AccountMgr.calmEnv)
    s'.gate.playerMap[(8 : Int32)]? = none ∧
      ∃ doc, Document.record 8 s'.game.world.col = some doc ∧
        Players.roleOf doc = (.str AccountMgr.userA, .int 1, .int 0) := by
  intro s s'
  have hready : GameReady wholeJson (Players.regFunc wholeJson wholeMongo AccountMgr.calmEnv)
      (run .little wholeJson wholeMongo 0 [] ⟨.create, [Players.documentEight]⟩ connected) 3
      roleEight (roleRegistration wholeJson wholeMongo AccountMgr.calmEnv)
      (Players.roleBody AccountMgr.userA) := by
    refine ⟨?_, ⟨rfl, rfl⟩, ⟨rfl, rfl⟩, ?_, rfl, ?_, ?_⟩
    · decide +kernel
    · decide +kernel
    · decide
    · decide +kernel
  obtain ⟨-, hrole, hplayers, -⟩ := role_for_anyone standardJson_whole 0 []
    [Players.documentEight] connected hready rfl rfl
  refine ⟨?_, hrole⟩
  rw [hplayers]
  decide +kernel

end System

end MyServer
