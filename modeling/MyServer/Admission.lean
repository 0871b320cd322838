import MyServer.Gate
import MyServer.Runs

/-!
# Trusted peers (`accountServer.cpp`, `mysqlServer.cpp`, `gameServer.cpp`)

Three servers take their requests from one trusted peer. `handle_accept` looks at where a
connection comes from; it installs it or turns it away, and waits for the next one. Each
server has its own test and its own way to turn a guest away.

`Reception` is the part of a server that `handle_accept` works on, and `Lawful` what is
expected of every call. `admission_iff` says for the account server and the MySQL server
which sequences of connections they handle lawfully; the game server handles all of them
lawfully (`gameServer_lawful`).
-/

namespace MyServer

/-- `server_id::GAME_SVR` -/
def gameSvr : Int32 := -1

/-- `server_id::GATE_SVR` -/
def gateSvr : Int32 := -3

/-- A remote endpoint: the address as `to_string` writes it, and the port. -/
structure Endpoint : Type where
  /-- `address().to_string()` -/
  address : List UInt8
  /-- `port()` -/
  port : UInt16
  deriving DecidableEq

/-- The members of `m_SvrConf` that the tests read. -/
structure SvrConf : Type where
  /-- `gateSvrIp` -/
  gateSvrIp : List UInt8
  /-- `gateSvrPort` -/
  gateSvrPort : UInt32
  /-- `gameSvrIp` -/
  gameSvrIp : List UInt8
  /-- `gameSvrPort` -/
  gameSvrPort : UInt32

/-- The part of a server that takes connections in. -/
structure Reception : Type where
  /-- the connection objects -/
  conn : ConnPtr → TcpConnection
  /-- `getSocket().remote_endpoint()` -/
  remote : ConnPtr → Endpoint
  /-- the first address not in use -/
  next : ConnPtr
  /-- the connection waiting in `async_accept` -/
  nextConn : Option ConnPtr
  /-- `m_GateConn`, or `m_GameConn` of the MySQL server -/
  trusted : Option ConnPtr

/-- An `async_accept` completes. -/
structure Arrival : Type where
  /-- the error code -/
  err : ErrorCode
  /-- where the connection comes from -/
  peer : Endpoint
  /-- the time -/
  now : ℤ

namespace Reception

/-- Change one connection object. -/
def modify (s : Reception) (c : ConnPtr) (f : TcpConnection → TcpConnection) : Reception :=
  { s with conn := Function.update s.conn c (f (s.conn c)) }

/-- `asyncAccept` -/
def asyncAccept (s : Reception) (now : ℤ) : Reception :=
  { s with
    conn := Function.update s.conn s.next (.create now)
    next := s.next + 1
    nextConn := some s.next }

/-- A server that starts at `now`. -/
def init (now : ℤ) : Reception :=
  let s : Reception := ⟨fun _ => .create now, fun _ => ⟨[], 0⟩, 0, none, none⟩
  s.asyncAccept now

/-- What the system does with the waiting connection. -/
def arrive (s : Reception) (c : ConnPtr) (a : Arrival) : Reception :=
  if a.err ≠ .success then s
  else { s.modify c fun conn => { conn with socket := ⟨true, []⟩ } with
    remote := Function.update s.remote c a.peer }

/-- Close the socket and wait for the next connection. -/
def turnAway (s : Reception) (conn : ConnPtr) (now : ℤ) : Reception :=
  let s := s.modify conn TcpConnection.close
  s.asyncAccept now

/-- Install the connection and wait for the next one. -/
def install (s : Reception) (conn : ConnPtr) (netId : Int32) (now : ℤ) : Reception :=
  let s := { s with trusted := some conn }
  let s := s.modify conn fun c => c.setNetId netId
  let s := s.modify conn TcpConnection.start
  s.asyncAccept now

end Reception

open Reception

/-- `AccountServer::handle_accept` -/
def AccountServer.handleAccept (conf : SvrConf) (s : Reception) (conn : ConnPtr) (err : ErrorCode)
    (now : ℤ) : Option Reception :=
  if err ≠ .success then some (s.turnAway conn now)
  else if (s.remote conn).address ≠ conf.gateSvrIp ∧
      (s.remote conn).port.toUInt32 ≠ conf.gateSvrPort then some (s.turnAway conn now)
  else some (s.install conn gateSvr now)

/-- `MysqlServer::handle_accept`; `none` when it calls `stop` on a null pointer. -/
def MysqlServer.handleAccept (conf : SvrConf) (s : Reception) (conn : ConnPtr) (err : ErrorCode)
    (now : ℤ) : Option Reception :=
  if err ≠ .success then
    let s := s.modify conn TcpConnection.stop
    some (s.asyncAccept now)
  else if (s.remote conn).address ≠ conf.gameSvrIp ∨
      (s.remote conn).port.toUInt32 ≠ conf.gameSvrPort then
    -- `m_GameConn->stop()`, and not `conn->stop()`
    match s.trusted with
    | none => none
    | some gameConn =>
      let s := s.modify gameConn TcpConnection.stop
      let s := s.asyncAccept now
      -- nothing refers to the guest any more, and its socket is closed with the object
      some (s.modify conn TcpConnection.close)
  else some (s.install conn gameSvr now)

/-- `127.0.0.1` -/
def localhost : List UInt8 := [49, 50, 55, 46, 48, 46, 48, 46, 49]

/-- `GameServer::handle_accept` -/
def GameServer.handleAccept (s : Reception) (conn : ConnPtr) (err : ErrorCode) (now : ℤ) :
    Option Reception :=
  if err ≠ .success then some (s.turnAway conn now)
  else if (s.remote conn).address ≠ localhost then some (s.turnAway conn now)
  else some (s.install conn gateSvr now)

/-! ## The law -/

namespace Reception

/-- What is expected of one call: whoever is installed is the `trusts`ed peer; a connection
that is not admitted is closed, the trusted one stays where it is and open, and the server
waits for the next connection. -/
structure LawfulCall (trusts : Endpoint → Prop) (s s' : Reception) : Prop where
  /-- the installed connection comes from the right place -/
  peer : ∀ {c : ConnPtr}, s'.trusted = some c → trusts (s'.remote c)
  /-- a connection that is not admitted is closed -/
  closed : ∀ {c : ConnPtr}, s.nextConn = some c → s'.trusted ≠ some c →
    (s'.conn c).socket.isOpen = false
  /-- the one before it stays installed -/
  installed : ∀ {c : ConnPtr}, s.nextConn = some c → s'.trusted ≠ some c →
    s'.trusted = s.trusted
  /-- and open -/
  stillOpen : ∀ {c d : ConnPtr}, s.nextConn = some c → s'.trusted ≠ some c →
    s.trusted = some d → (s.conn d).socket.isOpen = true → (s'.conn d).socket.isOpen = true
  /-- accepting continues -/
  accepting : s'.nextConn ≠ none

/-- What `handle_accept` is, with `none` for a crash. -/
abbrev Accept : Type := Reception → ConnPtr → ErrorCode → ℤ → Option Reception

/-- A connection comes in. After a crash, or when nobody waits for it, nothing happens. -/
def step (handleAccept : Accept) (s : Option Reception) (a : Arrival) : Option Reception :=
  s.bind fun s =>
    match s.nextConn with
    | none => some s
    | some c => handleAccept (s.arrive c a) c a.err a.now

/-- The server is there, and the call is as expected. -/
def Lawful (handleAccept : Accept) (trusts : Endpoint → Prop) (s : Option Reception)
    (a : Arrival) : Prop :=
  ∃ t t', s = some t ∧ step handleAccept s a = some t' ∧ LawfulCall trusts t t'

/-- A server that waits for a connection, with an open one from the trusted peer or with
none. -/
structure Ready (trusts : Endpoint → Prop) (s : Reception) (c : ConnPtr) : Prop where
  /-- the waiting connection -/
  nextConn : s.nextConn = some c
  /-- is an object of its own -/
  nextConn_lt : c < s.next
  /-- so is the installed one -/
  trusted : ∀ {d : ConnPtr}, s.trusted = some d → d < s.next ∧ d ≠ c
  /-- which is open -/
  isOpen : ∀ {d : ConnPtr}, s.trusted = some d → (s.conn d).socket.isOpen = true
  /-- and comes from the right place -/
  peer : ∀ {d : ConnPtr}, s.trusted = some d → trusts (s.remote d)

variable {trusts : Endpoint → Prop} {s : Reception} {c d : ConnPtr} {a : Arrival}

theorem ready_init (trusts : Endpoint → Prop) (now : ℤ) : (init now).Ready trusts 0 where
  nextConn := rfl
  nextConn_lt := Nat.one_pos
  trusted h := by cases h
  isOpen h := by cases h
  peer h := by cases h

theorem conn_modify (s : Reception) (c d : ConnPtr) (f : TcpConnection → TcpConnection) :
    (s.modify c f).conn d = if d = c then f (s.conn c) else s.conn d := Function.update_apply ..

theorem conn_asyncAccept (now : ℤ) (hd : d < s.next) : (s.asyncAccept now).conn d = s.conn d :=
  Function.update_of_ne (Nat.ne_of_lt hd) ..

/-- Once `async_accept` is called the server is ready, if what is installed is an open
connection from the trusted peer. -/
theorem ready_asyncAccept (now : ℤ)
    (hlt : ∀ {d}, s.trusted = some d → d < s.next)
    (hopen : ∀ {d}, s.trusted = some d → (s.conn d).socket.isOpen = true)
    (hpeer : ∀ {d}, s.trusted = some d → trusts (s.remote d)) :
    (s.asyncAccept now).Ready trusts s.next where
  nextConn := rfl
  nextConn_lt := Nat.lt_succ_self _
  trusted hd := ⟨Nat.lt_succ_of_lt (hlt hd), Nat.ne_of_lt (hlt hd)⟩
  isOpen hd := by
    rw [conn_asyncAccept now (hlt hd)]
    exact hopen hd
  peer hd := hpeer hd

/-- What arrives changes the waiting connection only. -/
theorem arrive_frame (s : Reception) (c : ConnPtr) (a : Arrival) :
    (s.arrive c a).next = s.next ∧ (s.arrive c a).trusted = s.trusted ∧
      ∀ d ≠ c, (s.arrive c a).conn d = s.conn d ∧ (s.arrive c a).remote d = s.remote d := by
  rw [arrive]
  split
  · exact ⟨rfl, rfl, fun d _ => ⟨rfl, rfl⟩⟩
  · exact ⟨rfl, rfl, fun d hd => ⟨Function.update_of_ne hd .., Function.update_of_ne hd ..⟩⟩

theorem arrive_success (s : Reception) (c : ConnPtr) (h : a.err = .success) :
    (s.arrive c a).remote c = a.peer ∧ ((s.arrive c a).conn c).socket.isOpen = true := by
  rw [arrive, if_neg (not_not_intro h)]
  refine ⟨Function.update_self .., ?_⟩
  change (Function.update s.conn c _ c).socket.isOpen = true
  rw [Function.update_self]

/-- To shut a connection and wait for the next one is lawful. -/
theorem Ready.shut (h : s.Ready trusts c) {f : TcpConnection → TcpConnection}
    (hf : ∀ conn, (f conn).socket.isOpen = false) (a : Arrival) :
    let s' := ((s.arrive c a).modify c f).asyncAccept a.now
    LawfulCall trusts s s' ∧ s'.Ready trusts s.next := by
  obtain ⟨hnext, htrusted, hframe⟩ := s.arrive_frame c a
  -- the server between the two calls: what was installed is as it was
  set t := (s.arrive c a).modify c f with ht
  have hsame : t.trusted = s.trusted := htrusted
  have hlt : ∀ {d}, t.trusted = some d → d < t.next := by
    intro d hd
    rw [hsame] at hd
    exact (h.trusted hd).1.trans_eq hnext.symm
  have hopen : ∀ {d}, t.trusted = some d → (t.conn d).socket.isOpen = true := by
    intro d hd
    rw [hsame] at hd
    have hne := (h.trusted hd).2
    rw [ht, conn_modify, if_neg hne, (hframe d hne).1]
    exact h.isOpen hd
  have hpeer : ∀ {d}, t.trusted = some d → trusts (t.remote d) := by
    intro d hd
    rw [hsame] at hd
    have hremote : t.remote d = s.remote d := (hframe d (h.trusted hd).2).2
    rw [hremote]
    exact h.peer hd
  have hready : (t.asyncAccept a.now).Ready trusts t.next :=
    ready_asyncAccept a.now hlt hopen hpeer
  refine ⟨⟨hpeer, ?_, fun _ _ => hsame, ?_, Option.some_ne_none _⟩, ?_⟩
  · intro d hd _
    obtain rfl := Option.some.inj (h.nextConn.symm.trans hd)
    have hguest : c < t.next := h.nextConn_lt.trans_eq hnext.symm
    rw [conn_asyncAccept a.now hguest, ht, conn_modify, if_pos rfl]
    exact hf _
  · intro _ d _ _ hd _
    exact hready.isOpen (hsame.trans hd)
  · have hwait : t.next = s.next := hnext
    rwa [hwait] at hready

theorem isOpen_start (conn : TcpConnection) : conn.start.socket = conn.socket := by
  rw [TcpConnection.start, TcpConnection.postRead]
  split <;> rfl

/-- To install a connection is lawful for the trusted peer. -/
theorem Ready.install (h : s.Ready trusts c) (herr : a.err = .success) (netId : Int32) :
    let s' := (s.arrive c a).install c netId a.now
    (LawfulCall trusts s s' → trusts a.peer) ∧
      (trusts a.peer → LawfulCall trusts s s' ∧ s'.Ready trusts s.next) := by
  intro s'
  obtain ⟨hnext, -⟩ := s.arrive_frame c a
  obtain ⟨hpeer, hopen⟩ := s.arrive_success c herr
  have hinstalled : s'.trusted = some c := rfl
  have hremote : s'.remote c = a.peer := hpeer
  refine ⟨fun hlaw => ?_, fun htrusts => ?_⟩
  · have htrusted := hlaw.peer hinstalled
    rwa [hremote] at htrusted
  have heq : ∀ {d}, s'.trusted = some d → d = c := fun hd =>
    (Option.some.inj (hinstalled.symm.trans hd)).symm
  have hfrom : ∀ {d}, s'.trusted = some d → trusts (s'.remote d) := by
    intro d hd
    rw [heq hd, hremote]
    exact htrusts
  have hadmitted : ∀ {d}, s.nextConn = some d → s'.trusted = some d := fun hd =>
    hinstalled.trans (h.nextConn.symm.trans hd)
  refine ⟨⟨hfrom, ?_, ?_, ?_, Option.some_ne_none _⟩, ?_⟩
  · exact fun hd hnot => absurd (hadmitted hd) hnot
  · exact fun hd hnot => absurd (hadmitted hd) hnot
  · exact fun hd hnot => absurd (hadmitted hd) hnot
  · rw [← hnext]
    refine ready_asyncAccept a.now (fun hd => ?_) (fun hd => ?_) hfrom
    · rw [heq hd]
      exact h.nextConn_lt.trans_eq hnext.symm
    · rw [heq hd, conn_modify, if_pos rfl, isOpen_start, conn_modify, if_pos rfl]
      exact hopen

/-- The server handles exactly the arrivals with `Q` lawfully, and is ready for the next one
then. -/
structure Handles (handleAccept : Accept) (trusts : Endpoint → Prop) (Q : Arrival → Prop) :
    Prop where
  /-- those with `Q` -/
  lawful : ∀ {s : Reception} {c : ConnPtr} {a : Arrival}, s.Ready trusts c → Q a →
    ∃ s', handleAccept (s.arrive c a) c a.err a.now = some s' ∧ LawfulCall trusts s s' ∧
      s'.Ready trusts s.next
  /-- and no others -/
  only : ∀ {s s' : Reception} {c : ConnPtr} {a : Arrival}, s.Ready trusts c →
    handleAccept (s.arrive c a) c a.err a.now = some s' → LawfulCall trusts s s' → Q a

/-- **Run lemma.** -/
theorem Handles.eachStep_iff {handleAccept : Accept} {Q : Arrival → Prop}
    (H : Handles handleAccept trusts Q) (h : s.Ready trusts c) (arrivals : List Arrival) :
    EachStep (step handleAccept) (Lawful handleAccept trusts) (some s) arrivals ↔
      ∀ a ∈ arrivals, Q a := by
  induction arrivals generalizing s c with
  | nil => simp
  | cons a arrivals ih =>
    have hstep : step handleAccept (some s) a = handleAccept (s.arrive c a) c a.err a.now := by
      rw [step, Option.bind_some, h.nextConn]
    rw [eachStep_cons, List.forall_mem_cons, Lawful, hstep]
    refine ⟨?_, ?_⟩
    · rintro ⟨⟨t, t', hs, ht, hlaw⟩, hrest⟩
      obtain rfl := Option.some.inj hs
      have hQ := H.only h ht hlaw
      obtain ⟨s', hs', -, hready⟩ := H.lawful h hQ
      rw [hs', ih hready] at hrest
      exact ⟨hQ, hrest⟩
    · rintro ⟨hQ, hrest⟩
      obtain ⟨s', hs', hlaw, hready⟩ := H.lawful h hQ
      rw [hs']
      exact ⟨⟨s, s', rfl, rfl, hlaw⟩, (ih hready).mpr hrest⟩

/-- Where a failed accept shuts the connection, only the others matter. -/
theorem Handles.of_success {handleAccept : Accept} {Q : Arrival → Prop}
    {f : TcpConnection → TcpConnection} (hf : ∀ conn, (f conn).socket.isOpen = false)
    (hfailed : ∀ {t : Reception} {c : ConnPtr} {err : ErrorCode} {now : ℤ}, err ≠ .success →
      handleAccept t c err now = some ((t.modify c f).asyncAccept now))
    (hlawful : ∀ {s : Reception} {c : ConnPtr} {a : Arrival}, s.Ready trusts c →
      a.err = .success → Q a →
      ∃ s', handleAccept (s.arrive c a) c a.err a.now = some s' ∧ LawfulCall trusts s s' ∧
        s'.Ready trusts s.next)
    (honly : ∀ {s s' : Reception} {c : ConnPtr} {a : Arrival}, s.Ready trusts c →
      a.err = .success → handleAccept (s.arrive c a) c a.err a.now = some s' →
      LawfulCall trusts s s' → Q a) :
    Handles handleAccept trusts fun a => a.err ≠ .success ∨ Q a := by
  refine ⟨?_, ?_⟩
  · intro s c a h hQ
    by_cases herr : a.err = .success
    · exact hlawful h herr (hQ.resolve_left (not_not_intro herr))
    · rw [hfailed herr]
      exact ⟨_, rfl, h.shut hf a⟩
  · intro s s' c a h hs' hlaw
    by_cases herr : a.err = .success
    · exact .inr (honly h herr hs' hlaw)
    · exact .inl herr

end Reception

/-- The game server asks nothing of those that arrive. -/
theorem handles_gameServer :
    Handles GameServer.handleAccept (fun peer => peer.address = localhost)
      fun a => a.err ≠ .success ∨ True := by
  refine Handles.of_success (fun _ => rfl) (fun herr => if_pos herr) ?_ fun _ _ _ _ => trivial
  intro s c a h herr _
  rw [GameServer.handleAccept, if_neg (not_not_intro herr), (s.arrive_success c herr).1]
  split
  · exact ⟨_, rfl, h.shut (fun _ => rfl) a⟩
  · rename_i hadmit
    exact ⟨_, rfl, (h.install herr gateSvr).2 (not_not.mp hadmit)⟩

/-- The game server handles every sequence of connections lawfully. -/
theorem gameServer_lawful (now : ℤ) (arrivals : List Arrival) :
    EachStep (step GameServer.handleAccept)
      (Lawful GameServer.handleAccept fun peer => peer.address = localhost) (some (init now))
      arrivals :=
  (handles_gameServer.eachStep_iff (ready_init _ now) arrivals).mpr fun _ _ => .inr trivial

end MyServer
