import MyServer.Connection
import MyServer.FuncHandler
import Mathlib.Logic.Function.Basic

/-!
# The gate (`gateServer.cpp`, `gateHandler.cpp`)

The gate owns the connections of the clients and one connection to each of the servers
behind it. Connections are shared objects, so the model keeps a heap `conn` of all the
connections made so far and passes addresses around; two tables lead to them,
`m_ConnMap` by net id and `m_PlayerMap` by player id. Both are filled with
`std::map::insert`, which does not replace an entry.

Times are microseconds. A `GateOp` is one call of a public operation, or something the
network does to one connection; `onRecv` is a few operations in a row.
-/

namespace MyServer

/-- The address of a connection object. -/
abbrev ConnPtr : Type := ℕ

/-- `MAX_NET_ID` -/
def maxNetId : Int32 := 2147483647

/-- The class `GateServer`. -/
structure Gate : Type where
  /-- the connection objects -/
  conn : ConnPtr → TcpConnection
  /-- the first address not in use -/
  next : ConnPtr
  /-- the connection waiting in `async_accept` -/
  nextConn : ConnPtr
  /-- `m_ConnMap` -/
  connMap : Std.TreeMap Int32 ConnPtr
  /-- `m_PlayerMap` -/
  playerMap : Std.TreeMap Int32 ConnPtr
  /-- `m_nConnCount` -/
  connCount : Int32
  /-- `m_nNetIdHolder` -/
  netIdHolder : Int32
  /-- `m_pGameConn` -/
  gameConn : ConnPtr
  /-- `m_pAccountConn` -/
  accountConn : ConnPtr
  /-- `m_SystemTime` -/
  systemTime : ℤ

namespace Gate

/-- Change one connection object. -/
def modify (g : Gate) (c : ConnPtr) (f : TcpConnection → TcpConnection) : Gate :=
  { g with conn := Function.update g.conn c (f (g.conn c)) }

/-- `new TcpConnection(...)` at time `now`, with its net id. -/
def create (g : Gate) (now : ℤ) (netId : Int32) : Gate :=
  { g with
    conn := Function.update g.conn g.next ((TcpConnection.create now).setNetId netId)
    next := g.next + 1 }

/-- `connect`: when the address resolves, `async_connect` opens the socket. -/
def connect (g : Gate) (resolved : Bool) (c : ConnPtr) : Gate :=
  if resolved then g.modify c fun conn => { conn with socket := ⟨true, []⟩ } else g

/-- `connectToGameSvr` -/
def connectToGameSvr (g : Gate) (now : ℤ) (resolved : Bool) : Gate :=
  let c := g.next
  let g := { g.create now (-1) with gameConn := c }
  g.connect resolved c

/-- `connectToAccountSvr` -/
def connectToAccountSvr (g : Gate) (now : ℤ) (resolved : Bool) : Gate :=
  let c := g.next
  let g := { g.create now (-2) with accountConn := c }
  g.connect resolved c

/-- `init` at time `now`, with addresses that resolve: the tables are empty, one
connection waits for a client, and the connections to the servers are being made. -/
def init (now : ℤ) : Gate :=
  let g : Gate :=
    { conn := fun _ => .create now
      next := 0
      nextConn := 0
      connMap := ∅
      playerMap := ∅
      connCount := 0
      netIdHolder := 0
      gameConn := 0
      accountConn := 0
      systemTime := now }
  ((g.create now 0).connectToGameSvr now true).connectToAccountSvr now true

/-- `handle_connect` -/
def handleConnect (g : Gate) (c : ConnPtr) (err : ErrorCode) : Gate :=
  if err ≠ .success then g.modify c TcpConnection.close else g.modify c TcpConnection.start

/-- `handle_accept`. The connection that was waiting is the client's; the object for the
next client is made at once. -/
def handleAccept (g : Gate) (err : ErrorCode) (now : ℤ) : Gate :=
  if err ≠ .success then
    let g := g.modify g.nextConn TcpConnection.close
    { g.create now 0 with nextConn := g.next }
  else
    let c := g.nextConn
    let g := g.modify c fun conn =>
      { conn with socket := ⟨true, []⟩ }.setNetId g.netIdHolder
    let g := { g with connMap := g.connMap.insertIfNew g.netIdHolder c }
    let g := g.modify c TcpConnection.start
    let g := { g with
      netIdHolder := (g.netIdHolder + 1) % maxNetId, connCount := g.connCount + 1 }
    { g.create now 0 with nextConn := g.next }

/-! ## Sessions -/

/-- `onPlayerLogin` -/
def onPlayerLogin (g : Gate) (playerId netId : Int32) : Gate :=
  if netId < 0 ∨ playerId < 0 then g
  else if g.playerMap[playerId]?.any fun c => (g.conn c).netId = netId then g
  else
    match g.connMap[netId]? with
    | none => g
    | some c =>
      let g := g.modify c fun conn => (conn.setPlayerId playerId).setHeartBeat g.systemTime
      { g with playerMap := g.playerMap.insertIfNew playerId c }

/-- `kickPlayer` -/
def kickPlayer (g : Gate) (playerId netId : Int32) : Gate :=
  if 0 < playerId ∧ g.playerMap[playerId]?.any fun c => netId = (g.conn c).netId then
    { g with playerMap := g.playerMap.erase playerId }
  else g

/-- `kickConnection` -/
def kickConnection (g : Gate) (c : ConnPtr) : Gate × Bool :=
  let netId := (g.conn c).netId
  if netId < 0 then (g, false)
  else
    match g.connMap[netId]? with
    | none => (g, false)
    | some tmpConn =>
      let g := { g with connMap := g.connMap.erase netId, connCount := g.connCount - 1 }
      let g := g.kickPlayer (g.conn c).playerId netId
      (g.modify tmpConn TcpConnection.stop, true)

/-- `(tmp - heartBeat).total_seconds() > 180` -/
def dead (tmp : ℤ) (conn : TcpConnection) : Bool := 180 < (tmp - conn.heartBeat).tdiv 1000000

/-- `checkHeartBeat`. The iterator steps on before the connection it stood on is kicked,
so the loop sees the entries the table had at the start. -/
def checkHeartBeat (g : Gate) (tmp : ℤ) : Gate :=
  g.connMap.toList.foldl
    (fun g entry => if dead tmp (g.conn entry.2) then (g.kickConnection entry.2).1 else g) g

/-- `checkServerAlive` -/
def checkServerAlive (g : Gate) (now : ℤ) (resolved : Bool) : Gate :=
  let g := if (g.conn g.accountConn).socket.isOpen then g else g.connectToAccountSvr now resolved
  if (g.conn g.gameConn).socket.isOpen then g else g.connectToGameSvr now resolved

/-- `update`, at time `tmp`. -/
def update (g : Gate) (tmp : ℤ) (resolved : Bool) : Gate :=
  if 5000 ≤ (tmp - g.systemTime).tdiv 1000 then
    let g := { g with systemTime := tmp }
    (g.checkServerAlive tmp resolved).checkHeartBeat tmp
  else g

/-! ## Forwarding -/

variable (o : ByteOrder)

/-- The copy of a message the gate sends on. -/
def copyOf (msg : NetMessage) : NetMessage := .ofJson msg.message msg.proto msg.playerId msg.netId

/-- `sendToGameSvr` -/
def sendToGameSvr (g : Gate) (msg : NetMessage) : Gate :=
  g.modify g.gameConn fun conn => conn.sendSerialized o (copyOf msg)

/-- `sendToAccountSvr` -/
def sendToAccountSvr (g : Gate) (msg : NetMessage) : Gate :=
  g.modify g.accountConn fun conn => conn.sendSerialized o (copyOf msg)

/-- The connection `sendToPlayer` picks: the player's, or else the one with the net id of
the message. -/
def route (g : Gate) (playerId netId : Int32) : Option ConnPtr :=
  g.playerMap[playerId]?.or g.connMap[netId]?

/-- `sendToPlayer` -/
def sendToPlayer (g : Gate) (msg : NetMessage) : Gate :=
  match g.route msg.playerId msg.netId with
  | none => g
  | some playerConn =>
    if ¬ (g.conn playerConn).socket.isOpen then (g.kickConnection playerConn).1
    else g.modify playerConn fun conn => conn.sendSerialized o (copyOf msg)

/-- The player of a successful login response: `some` when the message is one. -/
def loginOf (J : JsonLib) (msg : NetMessage) : Except JsonFault (Option Int32) :=
  match J.parse msg.message with
  | none => .ok none
  | some json =>
    if msg.proto ≠ playerLoginRsp then .ok none
    else do
      let errorcode ← (← (← json.member Json.msgKey).index 0).asInt
      if errorcode = 0 then
        let playerId ← (← (← json.member Json.msgKey).index 1).asInt
        return some playerId
      else return none

/-- `GateHandler::handleServerMsg`, with the fault that stopped it. -/
def handleServerMsg (J : JsonLib) (g : Gate) (msg : NetMessage) : Gate × Option JsonFault :=
  if inGateRange msg.proto then (g, none)
  else if inAccountRange msg.proto then
    match loginOf J msg with
    | .error fault => (g, some fault)
    | .ok none => (g.sendToPlayer o msg, none)
    | .ok (some playerId) =>
      ((g.onPlayerLogin playerId msg.netId).sendToPlayer o (msg.setPlayerId playerId), none)
  else if inGameRange msg.proto then (g.sendToPlayer o msg, none)
  else (g, none)

/-- `GateHandler::handleClientMsg` -/
def handleClientMsg (g : Gate) (c : ConnPtr) (req : NetMessage) : Gate :=
  let req := req.setNetId (g.conn c).netId
  if inGateRange req.proto then
    if req.proto = playerHeartBeatReq then
      let g := g.modify c fun conn => conn.setHeartBeat g.systemTime
      g.sendToPlayer o (.ofJson [] playerHeartBeatRsp req.playerId req.netId)
    else g
  else if inGameRange req.proto then g.sendToGameSvr o req
  else if inAccountRange req.proto then g.sendToAccountSvr o req
  else g

/-- `GateHandler::onRecv` -/
def onRecv (J : JsonLib) (g : Gate) (c : ConnPtr) (msg : NetMessage) : Gate × Option JsonFault :=
  if (g.conn c).netId < 0 then g.handleServerMsg o J msg
  else (g.handleClientMsg o c msg, none)

end Gate

/-! ## Steps -/

/-- What the gate does, one call at a time. -/
inductive GateOp : Type where
  /-- `handle_accept` -/
  | accept : ErrorCode → ℤ → GateOp
  /-- `handle_connect` of a connection to a server -/
  | connect : ConnPtr → ErrorCode → GateOp
  /-- `onPlayerLogin` -/
  | login : Int32 → Int32 → GateOp
  /-- `kickConnection` -/
  | kick : ConnPtr → GateOp
  /-- `checkHeartBeat` -/
  | checkHeartBeat : ℤ → GateOp
  /-- `update` -/
  | update : ℤ → Bool → GateOp
  /-- `sendToPlayer` -/
  | sendToPlayer : NetMessage → GateOp
  /-- `sendToGameSvr` -/
  | sendToGameSvr : NetMessage → GateOp
  /-- `sendToAccountSvr` -/
  | sendToAccountSvr : NetMessage → GateOp
  /-- a heartbeat request sets the heartbeat of its connection -/
  | heard : ConnPtr → GateOp
  /-- a failed read closes the socket -/
  | closed : ConnPtr → GateOp
  /-- the armed write of a connection completes -/
  | written : ConnPtr → ErrorCode → (ℕ → ℕ) → GateOp

/-- One step of the gate. -/
def Gate.step (o : ByteOrder) (g : Gate) : GateOp → Gate
  | .accept err now => g.handleAccept err now
  | .connect c err => g.handleConnect c err
  | .login playerId netId => g.onPlayerLogin playerId netId
  | .kick c => (g.kickConnection c).1
  | .checkHeartBeat tmp => g.checkHeartBeat tmp
  | .update tmp resolved => g.update tmp resolved
  | .sendToPlayer msg => g.sendToPlayer o msg
  | .sendToGameSvr msg => g.sendToGameSvr o msg
  | .sendToAccountSvr msg => g.sendToAccountSvr o msg
  | .heard c => g.modify c fun conn => conn.setHeartBeat g.systemTime
  | .closed c => g.modify c TcpConnection.close
  | .written c err writeSome => g.modify c fun conn => conn.handleWrite err writeSome

end MyServer
