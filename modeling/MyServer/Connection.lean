import MyServer.Message

/-!
# The connection (`tcpConnection.h`, `tcpConnection.cpp`)

`TcpConnection` is the object of the source, field by field. The socket stands for
the operating system's end: whether it is open, and everything that has been put
on the wire. `sendLog` is the only addition: it records the calls of `sendMessage`
with the code each returned, so that statements can talk about "the messages for
which `sendMessage` returned 0" (`accepted`).

The asynchronous runtime is not modelled as a scheduler: `handleWrite` and
`handleRead` are what it calls, and a run is any order of such calls. What
`write_some` and `read_some` answer is an argument of the call.
-/

namespace MyServer

/-- What the handlers tell apart in a `boost::system::error_code`. -/
inductive ErrorCode : Type where
  /-- no error -/
  | success : ErrorCode
  /-- `boost::asio::error::eof` -/
  | eof : ErrorCode
  /-- any other error -/
  | other : ErrorCode
  deriving DecidableEq

/-- The size of `m_ReadBuffer` and `m_WriteBuffer`. -/
def bufferSize : ℕ := 8192

/-- The operating system's end of a connection. -/
structure Socket : Type where
  /-- `is_open()` -/
  isOpen : Bool
  /-- everything `write_some` has put on the wire, oldest byte first -/
  written : List UInt8

/-- The class `TcpConnection`. Times are microseconds. -/
structure TcpConnection : Type where
  /-- `m_Socket` -/
  socket : Socket
  /-- `m_ReadBuffer` -/
  readBuffer : Buffer bufferSize
  /-- `m_WriteBuffer` -/
  writeBuffer : Buffer bufferSize
  /-- `m_nWriteLen` -/
  writeLen : ℕ
  /-- `m_bWriteInProgress` -/
  writeInProgress : Bool
  /-- `m_bReadInProgress` -/
  readInProgress : Bool
  /-- `m_nNetId` -/
  netId : Int32
  /-- `m_HeartBeat` -/
  heartBeat : ℤ
  /-- `m_nPlayerId` -/
  playerId : Int32
  /-- every `sendMessage` call with the code it returned, oldest first -/
  sendLog : List (NetMessage × ℤ)

namespace TcpConnection

/-- The constructor, run at time `now`. It leaves `m_nNetId` indeterminate; every
owner calls `setNetId` before the id is read. -/
def create (now : ℤ) : TcpConnection where
  socket := ⟨false, []⟩
  readBuffer := .zero _
  writeBuffer := .zero _
  writeLen := 0
  writeInProgress := false
  readInProgress := false
  netId := 0
  heartBeat := now
  playerId := 0
  sendLog := []

/-- A connection just accepted or connected: constructed, given its id, and its
socket opened. -/
def opened (now : ℤ) (netId : Int32) : TcpConnection :=
  { create now with socket := ⟨true, []⟩, netId := netId }

/-- `setNetId` -/
def setNetId (c : TcpConnection) (netId : Int32) : TcpConnection := { c with netId := netId }

/-- `setHeartBeat` -/
def setHeartBeat (c : TcpConnection) (heartBeat : ℤ) : TcpConnection :=
  { c with heartBeat := heartBeat }

/-- `setPlayerId` -/
def setPlayerId (c : TcpConnection) (playerId : Int32) : TcpConnection :=
  { c with playerId := playerId }

/-- `m_Socket.close()` -/
def close (c : TcpConnection) : TcpConnection :=
  { c with socket := { c.socket with isOpen := false } }

/-- `post_read`: arm the next read unless one is armed. -/
def postRead (c : TcpConnection) : TcpConnection :=
  if ¬ c.socket.isOpen ∨ c.readInProgress then c else { c with readInProgress := true }

/-- `start` -/
def start (c : TcpConnection) : TcpConnection := c.postRead

/-- `post_write`: ask to be called when the socket takes bytes. -/
def postWrite (c : TcpConnection) : TcpConnection :=
  if ¬ c.socket.isOpen ∨ c.writeInProgress ∨ c.writeLen = 0 then c
  else { c with writeInProgress := true }

/-- `stop` -/
def stop (c : TcpConnection) : TcpConnection :=
  { c with
    writeInProgress := false
    readInProgress := false
    writeBuffer := .zero _
    readBuffer := .zero _
    socket := { c.socket with isOpen := false } }

/-! ## Sending -/

/-- Record a call of `sendMessage`. -/
def logged (c : TcpConnection) (msg : NetMessage) (code : ℤ) : TcpConnection :=
  { c with sendLog := c.sendLog ++ [(msg, code)] }

/-- `sendMessage`. It refuses a message that is too long (1), a closed socket (-1)
and any message while a write is in progress (2), and then leaves the connection
as it is; a message that is taken (0) replaces the contents of the write buffer
and arms the write. -/
def sendMessage (c : TcpConnection) (msg : NetMessage) : TcpConnection × ℤ :=
  if bufferSize < msg.len then (c.logged msg 1, 1)
  else if ¬ c.socket.isOpen then (c.logged msg (-1), -1)
  else if c.writeInProgress then (c.logged msg 2, 2)
  else
    let c := { c with writeLen := 0 }
    let c := { c with
      writeBuffer := c.writeBuffer.fill msg.frame, writeLen := c.writeLen + msg.len }
    (c.postWrite.logged msg 0, 0)

/-- What every owner of a connection does with a message: serialize it, and send it
if that worked. -/
def sendSerialized (o : ByteOrder) (c : TcpConnection) (msg : NetMessage) : TcpConnection :=
  let r := msg.serialize o
  if r.2 then (c.sendMessage r.1).1 else c

/-- The messages for which `sendMessage` returned 0, oldest first. -/
def accepted (c : TcpConnection) : List NetMessage :=
  (c.sendLog.filter fun call => call.2 = 0).map Prod.fst

/-- The bytes waiting to be written: the first `m_nWriteLen` of `m_WriteBuffer`. -/
def pending (c : TcpConnection) : List UInt8 := c.writeBuffer.bytes.take c.writeLen

/-! ## Writing -/

/-- The loop of `handle_write`. `writeSome k` is the answer of the `k`-th call of
`write_some`, which never exceeds what it was offered; `len` is the local of the
same name. An answer of 0 moves the unwritten bytes to the front and leaves the
loop. -/
def writeLoop (writeSome : ℕ → ℕ) (k len : ℕ) (c : TcpConnection) : TcpConnection :=
  let wlen := min (writeSome k) c.writeLen
  let unwritten := (c.writeBuffer.bytes.drop len).take c.writeLen
  if wlen = 0 then { c with writeBuffer := c.writeBuffer.fill unwritten }
  else
    let c' : TcpConnection :=
      { c with
        socket := { c.socket with written := c.socket.written ++ unwritten.take wlen }
        writeLen := c.writeLen - wlen }
    if 0 < c'.writeLen then writeLoop writeSome (k + 1) (len + wlen) c' else c'
termination_by c.writeLen
decreasing_by omega

/-- `handle_write`: on success write until the socket stops taking bytes, and
forget whatever is left; on an error other than end of file give up. -/
def handleWrite (c : TcpConnection) (err : ErrorCode) (writeSome : ℕ → ℕ) : TcpConnection :=
  let c := { c with writeInProgress := false }
  match err with
  | .success => { writeLoop writeSome 0 0 c with writeLen := 0 }
  | .eof => c
  | .other => { c with writeLen := 0 }

end TcpConnection

end MyServer
