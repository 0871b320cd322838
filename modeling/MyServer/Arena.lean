import MyServer.HandlerFaults
import MyServer.TcpClient

/-!
# Robots and servers (`robot.cpp`, `tcpClient.cpp` against `accountMgr.cpp`, `playerMgr.cpp`)

The robots of the test client talk to one account server and one game server. An exchange is what
comes of one `post_write`: the robot acts, the request is served, the client reads the response
and gives it to the robot. Of the gate there is its choice of a server, and the heartbeats it
answers itself. A response comes in one read.

A server that ends stays away, and its clients are not told: the account server ends when a
handler aborts, and the game server with its first request, before the response is written
(`GameServer.runMessage`). So what the game server is asked is never answered here.

* `Through` — a value that comes through: written, tightened and read it is the same.
* `exchange_account`, `exchange_game`, `exchange_wait` — what an exchange does, from what the
  handler does.
-/

namespace MyServer

/-! ## The model -/

/-- The robots of the test client, by their numbers, and the servers they talk to. -/
structure Arena : Type where
  /-- `m_Robot` of each client -/
  robot : Int32 → Robot
  /-- `count` of each client -/
  count : Int32 → ℕ
  /-- the collection of the account server -/
  col : List Document
  /-- the players of the game server -/
  players : Players
  /-- the account server has ended -/
  accountDown : Bool
  /-- the game server has ended -/
  gameDown : Bool

namespace Arena

variable (o : ByteOrder) (J : JsonLib) (M : MongoLib)

/-- What a server sends after `runFuncHandler`. -/
def sent : Except JsonFault (Bool × NetMessage) → Option NetMessage
  | .error _ => none
  | .ok (_, rsp) => if (rsp.serialize o).2 then some rsp else none

/-- The handler has ended the process. -/
def aborts {α : Type} : Except JsonFault α → Bool
  | .error .abort => true
  | _ => false

/-- The way of a request through the gate: `handleClientMsg`, the server in charge, and the
response. -/
def serve (env : Env) (req : NetMessage) (s : Arena) : Option NetMessage × Arena :=
  if inGateRange req.proto then
    if req.proto = playerHeartBeatReq then
      (some (.ofJson [] playerHeartBeatRsp req.playerId req.netId), s)
    else (none, s)
  else if inGameRange req.proto then
    if s.gameDown then (none, s)
    else
      let out := (registered (Players.regFunc J M env)).runFuncHandler J req .blank s.players
      -- `runMessage` does not return, and `handle_write` does not come to run
      (none, { s with players := out.2, gameDown := true })
  else if inAccountRange req.proto then
    if s.accountDown then (none, s)
    else
      let out := (registered (AccountMgr.registFunc J M env)).runFuncHandler J req .blank s.col
      (sent o out.1, { s with col := out.2, accountDown := aborts out.1 })
  else (none, s)

/-- `TcpClient::handle_read` of a response that comes in one read. -/
def receive (r : Robot) : Option NetMessage → Robot
  | none => r
  | some rsp =>
    let c : TcpClient := ⟨r, true, .zero 1024⟩
    (c.handleRead J o (some (rsp.wireBytes o))).client.robot

/-- Robot `i` after an exchange. -/
def withRobot (s : Arena) (i : Int32) (r : Robot) : Arena :=
  { s with robot := Function.update s.robot i r }

/-- The `count` of client `i` after an exchange. -/
def withCount (s : Arena) (i : Int32) (n : ℕ) : Arena :=
  { s with count := Function.update s.count i n }

/-- `TcpClient::post_write` and what comes of it. A client that has waited five times resets its
robot. -/
def exchange (s : Arena) (e : Int32 × Env) : Arena :=
  match (s.robot e.1).doAction with
  | .error _ => s
  | .ok (action, r) =>
    if action.step = -1 then
      if s.count e.1 < 5 then (s.withRobot e.1 r).withCount e.1 (s.count e.1 + 1)
      else (s.withRobot e.1 r.reset).withCount e.1 0
    else
      let text := tighten (J.toStyledString action.msg)
      let req := NetMessage.ofJson text action.step action.playerId 0
      if (req.serialize o).2 then
        let out := serve o J M e.2 req s
        out.2.withRobot e.1 (receive o J r out.1)
      else s.withRobot e.1 r

/-- Robots that were just made, and servers with empty collections. -/
def start (pre : CString) : Arena where
  robot := Robot.create pre
  count _ := 0
  col := []
  players := ⟨.create, []⟩
  accountDown := false
  gameDown := false

end Arena

/-! ## Texts that come through -/

namespace Json

/-- The value is read as it was written, through `tighten`. -/
structure Through (num : ℚ → Json) (v : Json) : Prop where
  /-- nothing is taken out of its strings -/
  squeeze : squeezeJson false v = v
  /-- the quotes in it are balanced -/
  flag : flagJson false v = false
  /-- numbers are as they are read -/
  reread : reread num v = v
  /-- and integers stay integers -/
  demote : Reader.demote v = v

variable {num : ℚ → Json}

theorem through_null : Through num null := ⟨rfl, rfl, rfl, rfl⟩

/-- An integer that is not next to the smallest one. -/
theorem through_int {n : Int32} (h : -2147483640 < n.toInt) : Through num (int n) :=
  ⟨rfl, rfl, rfl, if_pos h⟩

theorem through_str {s : CString} (h : 34 ∉ s.val) : Through num (str s) := by
  refine ⟨?_, flagAfter_of_noQuote h false, rfl, rfl⟩
  rw [squeezeJson]
  exact congrArg str (Subtype.ext (squeeze_of_noQuote h))

theorem through_items {xs : List Json} (h : ∀ x ∈ xs, Through num x) :
    squeezeItems false xs = xs ∧ flagItems false xs = false ∧ rereadItems num xs = xs ∧
      Reader.demoteItems xs = xs := by
  induction xs with
  | nil => exact ⟨rfl, rfl, rfl, rfl⟩
  | cons x xs ih =>
    obtain ⟨hsqueeze, hflag, hreread, hdemote⟩ := h x (List.mem_cons_self ..)
    obtain ⟨hsqueezes, hflags, hrereads, hdemotes⟩ := ih fun y hy => h y (List.mem_cons_of_mem x hy)
    simp only [squeezeItems, flagItems, rereadItems, Reader.demoteItems, hsqueeze, hflag, hreread,
      hdemote, hsqueezes, hflags, hrereads, hdemotes, and_self]

/-- A message comes through with its elements: its one name has neither blanks nor quotes. -/
theorem through_reply {xs : List Json} (h : ∀ x ∈ xs, Through num x) : Through num (reply xs) := by
  obtain ⟨hsqueeze, hflag, hreread, hdemote⟩ := through_items h
  have hname : msgKey.squeeze true = msgKey := by decide
  have hafter : flagAfter false msgKey.val = false := by decide
  have hsorted : Sorted [(msgKey, arr xs)] := List.pairwise_singleton _ _
  refine ⟨?_, ?_, ?_, ?_⟩
  · simp only [reply, squeezeJson, squeezeObject, Bool.not_false, hname, hafter, hsqueeze]
  · simp only [reply, flagJson, flagMembers, hafter, hflag]
  · rw [reply, reread_obj hsorted]
    simp only [mapValues, List.map_cons, List.map_nil, Json.reread, hreread]
  · simp only [reply, Reader.demote, Reader.demoteMembers, hdemote]

end Json

/-- What is assumed of the libraries, with the texts that the programs send each other: a value
that was written and tightened is read as the value without the blanks that `tighten` took. -/
structure StandardTalk (J : JsonLib) (M : MongoLib) (num : ℚ → Json) : Prop
    extends StandardJson J M where
  /-- a tightened text is read -/
  parses : ∀ v, J.parse (tighten (J.toStyledString v)) =
    some (Reader.demote (Json.reread num (Json.squeezeJson false v)))
  /-- and is not empty -/
  text : ∀ v, tighten (J.toStyledString v) ≠ []

section

variable {J : JsonLib} {M : MongoLib} {num : ℚ → Json}

/-- A message whose text is that of the value has the value for its body. -/
theorem StandardTalk.body (h : StandardTalk J M num) {v : Json} (hv : v.Through num)
    {msg : NetMessage} (hmsg : msg.message = tighten (J.toStyledString v)) :
    bodyOf J msg = some v := by
  rw [bodyOf, hmsg, if_pos (h.text v), h.parses, hv.squeeze, hv.reread, hv.demote]

end

/-! ## What a robot does next -/

namespace Robot

open PlayerMgr

variable {r : Robot} {id : Int32}

/-- The robot after a request: it has looked at its player id, and it waits. -/
def waiting (r : Robot) (step : Int32) : Robot :=
  { r with playerInfo := (r.playerInfo.touch playerId).2, step := step }

theorem Sound.waiting (h : r.Sound) {step : Int32} (hstep : step ∈ steps) :
    (r.waiting step).Sound := h.touch.2.setStep hstep

theorem Sound.doAction_login (h : r.Sound) (hstep : r.step = playerLoginReq) :
    ∃ n, r.doAction = .ok (⟨.reply [.str r.userName, .str r.userPass], playerLoginReq, n⟩,
      r.waiting playerLoginRsp) := by
  obtain ⟨⟨n, hn⟩, -⟩ := h.touch
  refine ⟨n, ?_⟩
  rw [Robot.doAction]
  simp only [hn, bind, Except.bind, hstep, if_true]
  rfl

theorem Sound.doAction_regist (h : r.Sound) (hstep : r.step = playerRegistReq) :
    ∃ n, r.doAction = .ok (⟨.reply [.str r.userName, .str r.userPass], playerRegistReq, n⟩,
      r.waiting playerRegistRsp) := by
  obtain ⟨⟨n, hn⟩, -⟩ := h.touch
  have hlogin : playerRegistReq ≠ playerLoginReq := by decide
  refine ⟨n, ?_⟩
  rw [Robot.doAction]
  simp only [hn, bind, Except.bind, hstep, hlogin, if_true, if_false]
  rfl

theorem touch_of_lookup (h : r.playerInfo.lookup playerId = some (.int id)) :
    r.playerInfo.touch playerId = (.int id, r.playerInfo) := by
  rw [Record.touch, h]

theorem doAction_enterGame (hid : r.playerInfo.lookup playerId = some (.int id))
    (hstep : r.step = playerEnterGameReq) :
    r.doAction = .ok (⟨.null, playerEnterGameReq, id⟩, r.setStep playerEnterGameRsp) := by
  have hne : playerEnterGameReq ≠ playerLoginReq ∧ playerEnterGameReq ≠ playerRegistReq ∧
      playerEnterGameReq ≠ playerCreateRoleReq := by decide
  rw [Robot.doAction]
  simp only [touch_of_lookup hid, Json.asInt, bind, Except.bind, hstep, hne.1, hne.2.1, hne.2.2,
    if_true, if_false]
  rfl

/-- A robot that waits to be let into the game has nothing to send. -/
theorem doAction_entering (hid : r.playerInfo.lookup playerId = some (.int id))
    (hstep : r.step = playerEnterGameRsp) : r.doAction = .ok (⟨.null, -1, id⟩, r) := by
  have hne : playerEnterGameRsp ≠ playerLoginReq ∧ playerEnterGameRsp ≠ playerRegistReq ∧
      playerEnterGameRsp ≠ playerCreateRoleReq ∧ playerEnterGameRsp ≠ playerEnterGameReq ∧
      playerEnterGameRsp ≠ playerHeartBeatReq := by decide
  rw [Robot.doAction]
  simp only [touch_of_lookup hid, Json.asInt, bind, Except.bind, hstep, hne.1, hne.2.1, hne.2.2.1,
    hne.2.2.2.1, hne.2.2.2.2, if_false]
  rw [← hstep]
  rfl

end Robot

/-! ## One exchange -/

/-- The text of the value fits the buffers of the client. -/
def Fits (J : JsonLib) (v : Json) : Prop :=
  msgHead + (tighten (J.toStyledString v)).length ≤ 1024

instance (J : JsonLib) (v : Json) : Decidable (Fits J v) := inferInstanceAs (Decidable (_ ≤ _))

namespace Arena

variable {o : ByteOrder} {J : JsonLib} {M : MongoLib} {num : ℚ → Json}
  {s : Arena} {i : Int32} {env : Env} {r r' : Robot} {v rsp : Json} {proto id : Int32}

/-- A message with a text that fits is serialized. -/
theorem serialize_of_short {msg : NetMessage} (hlen : msgHead + msg.message.length ≤ 1024) :
    (msg.serialize o).2 = true := by
  rw [NetMessage.serialize_eq_true_iff, msgMaximum]
  omega

/-- The client gives its robot the message that was sent. -/
theorem receive_eq {msg : NetMessage} (hlen : msgHead + msg.message.length ≤ 1024)
    (hcons : msg.Consistent) (r : Robot) :
    receive o J r (some msg) = (r.handleMsg J msg).toOption.getD r := by
  have hser : (msg.serialize o).2 = true := serialize_of_short hlen
  have hwire : (msg.wireBytes o).length ≤ 1024 := by
    rw [NetMessage.wireBytes, NetMessage.length_frame_serialize hser]
    exact hlen
  have hpacket := (NetMessage.packet_deserialize_wireBytes hser).mpr (.inl hcons)
  rw [receive, (TcpClient.handleRead_spec _ hwire).2]
  generalize (NetMessage.blank.deserialize o (msg.wireBytes o) (msg.wireBytes o).length).1 = got
    at hpacket ⊢
  -- of the object the robot looks at the protocol id and the text
  have hproto : got.proto = msg.proto := congrArg Packet.proto hpacket
  have htext : got.message = msg.message := congrArg Packet.message hpacket
  rw [Robot.handleMsg, Robot.handleMsg, hproto, htext]

/-- The robot takes an answer that comes through. -/
theorem receive_of_through (h : StandardTalk J M num) (hrsp : rsp.Through num)
    (hfits : Fits J rsp) {msg : NetMessage} (hmsg : msg.message = tighten (J.toStyledString rsp))
    (hcons : msg.Consistent) (hdisp : r.dispatch msg.proto rsp = .ok r') :
    receive o J r (some msg) = r' := by
  have hbody := h.body hrsp hmsg
  rw [bodyOf] at hbody
  rw [receive_eq (hmsg ▸ hfits) hcons, Robot.handleMsg, hbody]
  dsimp only
  rw [hdisp]
  rfl

/-- An exchange in which a request is sent: what the server does, and what the robot makes of the
response. -/
theorem exchange_of_serve {t : Arena} {out : Option NetMessage}
    (hact : (s.robot i).doAction = .ok (⟨v, proto, id⟩, r)) (hwait : proto ≠ -1) (hv : Fits J v)
    (hserve : serve o J M env (.ofJson (tighten (J.toStyledString v)) proto id 0) s = (out, t)) :
    exchange o J M s (i, env) = t.withRobot i (receive o J r out) := by
  have hser : ((NetMessage.ofJson (tighten (J.toStyledString v)) proto id 0).serialize o).2 =
      true := serialize_of_short hv
  rw [exchange, hact]
  dsimp only
  rw [if_neg hwait, if_pos hser, hserve]

/-- A response that was filled is sent, if it fits. -/
theorem sent_filled (hfits : Fits J rsp) {responseId : Int32} {req : NetMessage} :
    sent o (.ok (true, filled responseId req (tighten (J.toStyledString rsp)))) =
      some (filled responseId req (tighten (J.toStyledString rsp))) := by
  have hser : ((filled responseId req (tighten (J.toStyledString rsp))).serialize o).2 = true :=
    serialize_of_short hfits
  rw [sent, if_pos hser]

/-- An exchange with the account server. -/
theorem exchange_account (h : StandardTalk J M num) (hup : s.accountDown = false)
    {reg : Registration (List Document)} {col : List Document}
    (hact : (s.robot i).doAction = .ok (⟨v, proto, id⟩, r)) (hv : v.Through num)
    (hvfits : Fits J v) (hrange : inAccountRange proto = true)
    (hfirst : firstFor proto (AccountMgr.registFunc J M env) = some reg)
    (hrun : reg.handler v id s.col = (.ok (true, rsp), col)) (hrsp : rsp.Through num)
    (hfits : Fits J rsp) (hdisp : r.dispatch reg.responseId rsp = .ok r') :
    exchange o J M s (i, env) = { s with col := col }.withRobot i r' := by
  obtain ⟨hgate, hgame⟩ := ranges_of_account hrange
  have hwait : proto ≠ -1 := by
    rintro rfl
    revert hrange
    decide
  generalize hreq : NetMessage.ofJson (tighten (J.toStyledString v)) proto id 0 = req
  obtain ⟨hproto, hplayer, hbody⟩ : req.proto = proto ∧ req.playerId = id ∧
      bodyOf J req = some v := by
    rw [← hreq]
    exact ⟨rfl, rfl, h.body hv rfl⟩
  have hserve : serve o J M env req s =
      (some (filled reg.responseId req (tighten (J.toStyledString rsp))),
        { s with col := col }) := by
    rw [← hproto] at hgate hgame hrange hfirst
    rw [← hplayer] at hrun
    rw [serve, hgate, hgame, hrange, runFuncHandler_of_handled hbody hfirst hrun]
    simp only [Bool.false_eq_true, if_false, if_true, hup, sent_filled hfits, aborts]
  rw [exchange_of_serve hact hwait hvfits (hreq.symm ▸ hserve)]
  exact congrArg _ (receive_of_through h hrsp hfits rfl rfl hdisp)

/-- A request to the game server whose handler changes nothing. It is not answered, and the
game server is down after it, if it was not before. -/
theorem exchange_game (h : StandardTalk J M num) {reg : Registration Players}
    (hact : (s.robot i).doAction = .ok (⟨v, proto, id⟩, r)) (hv : v.Through num)
    (hvfits : Fits J v) (hrange : inGameRange proto = true)
    (hfirst : firstFor proto (Players.regFunc J M env) = some reg)
    (hrun : reg.handler v id s.players = (.ok (true, rsp), s.players)) :
    exchange o J M s (i, env) = { s with gameDown := true }.withRobot i r := by
  obtain ⟨hgate, -⟩ := ranges_of_game hrange
  have hwait : proto ≠ -1 := by
    rintro rfl
    revert hrange
    decide
  generalize hreq : NetMessage.ofJson (tighten (J.toStyledString v)) proto id 0 = req
  obtain ⟨hproto, hplayer, hbody⟩ : req.proto = proto ∧ req.playerId = id ∧
      bodyOf J req = some v := by
    rw [← hreq]
    exact ⟨rfl, rfl, h.body hv rfl⟩
  have hserve : serve o J M env req s = (none, { s with gameDown := true }) := by
    rw [← hproto] at hgate hrange hfirst
    rw [← hplayer] at hrun
    rw [serve, hgate, hrange, runFuncHandler_of_handled hbody hfirst hrun]
    simp only [Bool.false_eq_true, if_false, if_true]
    split_ifs with hdown
    · rw [← hdown]
    · rfl
  rw [exchange_of_serve hact hwait hvfits (hreq.symm ▸ hserve), receive]

/-- A robot that waits for a response: the client counts, and starts it over after five times. -/
theorem exchange_wait (hact : (s.robot i).doAction = .ok (⟨v, -1, id⟩, r)) :
    exchange o J M s (i, env) =
      if s.count i < 5 then (s.withRobot i r).withCount i (s.count i + 1)
      else (s.withRobot i r.reset).withCount i 0 := by
  rw [exchange, hact]
  rfl

end Arena

end MyServer
