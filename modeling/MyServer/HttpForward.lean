import MyServer.Gate
import MyServer.PostBody
import MyServer.WritePath

/-!
# HTTP requests on their way to the game server (`gateServer.cpp`)

`on_http_req` gets a request as a JSON object, takes the numbers of the message out of
its members `proto` and `playerId`, and hands the rest to the game connection. The
message is put together with the setters of `NetMessage` and given to `sendMessage` as it
is. `sendMessage` copies the stream of a message, which only `serialize` fills, so nothing
becomes pending (`onHttpReq_delivers_nothing`).
-/

namespace MyServer

/-! ## The request -/

/-- The member name `"proto"`. -/
def protoKey : CString := ⟨[112, 114, 111, 116, 111], by decide⟩

/-- The member name `"playerId"`. -/
def playerIdKey : CString := ⟨[112, 108, 97, 121, 101, 114, 73, 100], by decide⟩

/-- The member name `"player_id"`. -/
def playerIdKey2 : CString := ⟨[112, 108, 97, 121, 101, 114, 95, 105, 100], by decide⟩

/-- The member name `"net_id"`. -/
def netIdKey : CString := ⟨[110, 101, 116, 95, 105, 100], by decide⟩

namespace Json

/-- What reading `operator[](key)` leaves of a value that is not `const`: it makes the
member when there is none. -/
def touch (key : CString) (ms : List (CString × Json)) : List (CString × Json) :=
  match ms.lookup key with
  | none => insertMember key null ms
  | some _ => ms

end Json

namespace Gate

/-- `lexical_cast<int>(value.asString())`; `none` when one of the two throws. -/
def castInt (L : Http.LexicalCast) (value : Json) : Option Int32 :=
  match value.asString with
  | .ok s => L.toInt s.val
  | .error _ => none

/-- The `try` block of `on_http_req`: `protoId`, `playerId` and the request. The first
conversion that throws ends it. -/
def httpNumbers (L : Http.LexicalCast) (reqJson : List (CString × Json)) :
    Int32 × Int32 × List (CString × Json) :=
  let reqJson := Json.touch protoKey reqJson
  match castInt L (Json.find protoKey reqJson) with
  | none => (0, 0, reqJson)
  | some protoId =>
    let reqJson := Json.touch playerIdKey reqJson
    match castInt L (Json.find playerIdKey reqJson) with
    | none => (protoId, 0, reqJson)
    | some playerId => (protoId, playerId, reqJson)

/-- The request without the members `proto` and `player_id`. -/
def withoutNumbers (reqJson : List (CString × Json)) : List (CString × Json) :=
  (reqJson.filter fun m => m.1 ≠ protoKey).filter fun m => m.1 ≠ playerIdKey2

/-- The message `on_http_req` puts together for a connection with the id `connId`. -/
def httpMessage (L : Http.LexicalCast) (J : JsonLib) (connId : Int32)
    (reqJson : List (CString × Json)) : NetMessage :=
  let (protoId, playerId, reqJson) := httpNumbers L reqJson
  let msg := NetMessage.blank
  let msg := msg.setProto protoId
  let msg := msg.setNetId connId
  let msg := msg.setPlayerId playerId
  msg.setMessage (J.toStyledString (.obj (withoutNumbers reqJson)))

/-- `on_http_req`. The request is an object whenever it is called. -/
def onHttpReq (L : Http.LexicalCast) (J : JsonLib) (g : Gate) (connId : Int32)
    (reqJson : List (CString × Json)) : Gate :=
  g.modify g.gameConn fun conn => (conn.sendMessage (httpMessage L J connId reqJson)).1

end Gate

/-! ## Delivery -/

/-- What `deserialize` makes of the bytes that are pending on a connection. -/
def TcpConnection.readPending (o : ByteOrder) (c : TcpConnection) : NetMessage × ℤ :=
  NetMessage.blank.deserialize o c.pending c.pending.length

/-- One complete frame is pending on a connection, and it is this request. -/
structure Delivered (o : ByteOrder) (J : JsonLib) (c : TcpConnection) (proto playerId netId : Int32)
    (reqJson : List (CString × Json)) : Prop where
  /-- there is a frame -/
  pos : 0 < (c.readPending o).2
  /-- and nothing else -/
  complete : (c.readPending o).2 = c.pending.length
  /-- with these numbers -/
  header : (c.readPending o).1.proto = proto ∧ (c.readPending o).1.playerId = playerId ∧
    (c.readPending o).1.netId = netId
  /-- the request without its members `proto` and `player_id` -/
  body : J.parse (c.readPending o).1.message = some (.obj (Gate.withoutNumbers reqJson))

/-- A connection with nothing to write has no request for its peer. -/
theorem not_delivered_of_pending_nil {o : ByteOrder} {J : JsonLib} {c : TcpConnection}
    {proto playerId netId : Int32} {reqJson : List (CString × Json)} (h : c.pending = []) :
    ¬ Delivered o J c proto playerId netId reqJson := by
  intro hd
  have hpos := hd.pos
  rw [TcpConnection.readPending, h, NetMessage.deserialize_refused o _ (.inr (by decide))] at hpos
  exact absurd hpos (by decide)

namespace Gate

variable {L : Http.LexicalCast} {J : JsonLib} {o : ByteOrder} {g : Gate} {connId : Int32}
  {reqJson : List (CString × Json)} {protoId playerId : Int32}

/-- A message that was never serialized has no stream. -/
theorem len_httpMessage (L : Http.LexicalCast) (J : JsonLib) (connId : Int32)
    (reqJson : List (CString × Json)) : (httpMessage L J connId reqJson).len = 0 := rfl

/-- `sendMessage` takes the message and has nothing to write. -/
theorem pending_onHttpReq (hidle : (g.conn g.gameConn).writeInProgress = false)
    (hopen : (g.conn g.gameConn).socket.isOpen = true) :
    ((g.onHttpReq L J connId reqJson).conn g.gameConn).pending = [] := by
  rw [onHttpReq, modify]
  simp only [Function.update_self]
  obtain ⟨code, -, -, hwhy⟩ | ⟨-, -, -, -, heq⟩ :=
    (g.conn g.gameConn).sendMessage_cases (httpMessage L J connId reqJson)
  · rw [len_httpMessage, hidle, hopen] at hwhy
    exact absurd hwhy (by decide)
  · rw [heq, len_httpMessage]
    exact (TcpConnection.postWrite_pending _).trans List.take_zero

/-- **No HTTP request reaches the game server.** Whatever is in the request, on an open
and idle game connection `on_http_req` does not leave its frame pending. -/
theorem onHttpReq_delivers_nothing (o : ByteOrder) (L : Http.LexicalCast) (J : JsonLib) (g : Gate)
    (connId : Int32) (reqJson : List (CString × Json)) (protoId playerId : Int32)
    (hopen : (g.conn g.gameConn).socket.isOpen = true)
    (hidle : (g.conn g.gameConn).writeInProgress = false) :
    ¬ Delivered o J ((g.onHttpReq L J connId reqJson).conn g.gameConn) protoId playerId connId
      reqJson :=
  not_delivered_of_pending_nil (pending_onHttpReq hidle hopen)

/-- `proto=10002&playerId=7` from the connection 1. -/
def httpLogin : List (CString × Json) :=
  [(netIdKey, .int 1), (playerIdKey, .str ⟨[55], by decide⟩),
    (protoKey, .str ⟨[49, 48, 48, 48, 50], by decide⟩)]

/-- A gate that has just been connected to its servers delivers nothing. -/
theorem init_delivers_nothing :
    ¬ Delivered .little plainJson
      (((init 0).onHttpReq Http.strictCast plainJson 1 httpLogin).conn (init 0).gameConn) 10002 7 1
      httpLogin :=
  onHttpReq_delivers_nothing _ _ _ (init 0) 1 httpLogin 10002 7 rfl rfl

/-- A request with both numbers, of which nothing becomes pending. -/
theorem http_login_lost :
    Json.find protoKey httpLogin = .str ⟨[49, 48, 48, 48, 50], by decide⟩ ∧
      Http.strictCast.toInt [49, 48, 48, 48, 50] = some 10002 ∧
      Json.find playerIdKey httpLogin = .str ⟨[55], by decide⟩ ∧
      Http.strictCast.toInt [55] = some 7 ∧
      ((init 0).conn (init 0).gameConn).socket.isOpen = true ∧
      ((init 0).conn (init 0).gameConn).writeInProgress = false ∧
      (plainJson.toStyledString (.obj (withoutNumbers httpLogin))).length < msgMaximum - msgHead ∧
      (((init 0).onHttpReq Http.strictCast plainJson 1 httpLogin).conn
        (init 0).gameConn).pending = [] ∧
      ¬ Delivered .little plainJson
        (((init 0).onHttpReq Http.strictCast plainJson 1 httpLogin).conn (init 0).gameConn) 10002 7
        1 httpLogin := by
  have hpending : (((init 0).onHttpReq Http.strictCast plainJson 1 httpLogin).conn
      (init 0).gameConn).pending = [] := pending_onHttpReq rfl rfl
  refine ⟨by decide, by decide, by decide, by decide, rfl, rfl, by decide, hpending, ?_⟩
  exact not_delivered_of_pending_nil hpending

end Gate

end MyServer
