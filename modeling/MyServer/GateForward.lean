import MyServer.GateRouting

/-!
# Forwarding to the servers

Client frames of the account and the game range are copied, with the net id of the
connection they came on, to the gate's one connection to that server. `Traffic` is the
gate together with the record of what it should have sent on; `NoRequestLost` compares
that record with what the upstream connections have accepted.

Two clients share one upstream connection and its one write buffer, so a frame that
arrives before the last forwarded write has completed is refused and only logged.
`noRequestLost_always_iff` says that this is the only way to lose one.
-/

namespace MyServer

/-- What can happen at the gate between its clients and its servers. -/
inductive ForwardEvent : Type where
  /-- a client connects -/
  | accept : ℤ → ForwardEvent
  /-- a frame arrives on a connection, a client's or a server's -/
  | frame : ConnPtr → NetMessage → ForwardEvent
  /-- the armed write of a connection completes -/
  | written : ConnPtr → ErrorCode → (ℕ → ℕ) → ForwardEvent
  /-- a connection's read fails -/
  | closed : ConnPtr → ForwardEvent
  /-- `checkHeartBeat` -/
  | checkHeartBeat : ℤ → ForwardEvent

/-- The gate, and the packets it should have sent on so far. -/
structure Traffic : Type where
  /-- the gate -/
  gate : Gate
  /-- the packets for the account server, oldest first -/
  toAccount : List Packet
  /-- the packets for the game server, oldest first -/
  toGame : List Packet

namespace Traffic

variable (o : ByteOrder) (J : JsonLib)

/-- The frame comes from a client and can be serialized again. -/
def forwardable (g : Gate) (c : ConnPtr) (msg : NetMessage) : Bool :=
  0 ≤ (g.conn c).netId && ((Gate.copyOf msg).serialize o).2

/-- The packet to send on: the client's, with the net id of its connection. -/
def expected (g : Gate) (c : ConnPtr) (msg : NetMessage) : Packet :=
  ⟨msg.proto, msg.playerId, (g.conn c).netId, msg.message⟩

/-- One event. -/
def step (t : Traffic) : ForwardEvent → Traffic
  | .accept now => { t with gate := t.gate.handleAccept .success now }
  | .frame c msg =>
    let due := forwardable o t.gate c msg
    { gate := (t.gate.onRecv o J c msg).1
      toAccount := if due && inAccountRange msg.proto
        then t.toAccount ++ [expected t.gate c msg] else t.toAccount
      toGame := if due && inGameRange msg.proto
        then t.toGame ++ [expected t.gate c msg] else t.toGame }
  | .written c err writeSome =>
    { t with gate := t.gate.modify c fun conn => conn.handleWrite err writeSome }
  | .closed c => { t with gate := t.gate.modify c TcpConnection.close }
  | .checkHeartBeat tmp => { t with gate := t.gate.checkHeartBeat tmp }

/-- The gate after `init`, with nothing to send on. -/
def init (now : ℤ) : Traffic := ⟨Gate.init now, [], []⟩

/-- What a connection has accepted for writing, as packets. -/
def acceptedBy (g : Gate) (c : ConnPtr) : List Packet := (g.conn c).accepted.map NetMessage.packet

/-- **No client request is lost**: each upstream connection has accepted exactly the
packets it should have, once each and in order. -/
structure NoRequestLost (t : Traffic) : Prop where
  /-- the account server's -/
  account : acceptedBy t.gate t.gate.accountConn = t.toAccount
  /-- the game server's -/
  game : acceptedBy t.gate t.gate.gameConn = t.toGame

/-- The connection is open and has no write in progress. -/
def Ready (g : Gate) (c : ConnPtr) : Prop :=
  (g.conn c).socket.isOpen = true ∧ (g.conn c).writeInProgress = false

/-- An event after which still nothing is lost: a frame to be sent on finds its upstream
connection ready. -/
def ForwardOk (t : Traffic) : ForwardEvent → Prop
  | .frame c msg => forwardable o t.gate c msg = true →
    (inAccountRange msg.proto = true → Ready t.gate t.gate.accountConn) ∧
      (inGameRange msg.proto = true → Ready t.gate t.gate.gameConn)
  | _ => True

end Traffic

/-! ## The upstream connections -/

namespace Gate

variable {g g' : Gate}

/-- The upstream connections are two objects, neither of them the one waiting for a
client, with negative net ids. -/
structure Upstream (g : Gate) : Prop where
  /-- they differ -/
  ne : g.accountConn ≠ g.gameConn
  /-- the account connection -/
  account : g.accountConn < g.next ∧ g.accountConn ≠ g.nextConn ∧
    (g.conn g.accountConn).netId < 0
  /-- the game connection -/
  game : g.gameConn < g.next ∧ g.gameConn ≠ g.nextConn ∧ (g.conn g.gameConn).netId < 0

/-- A connection of a client is not an upstream one. -/
theorem ne_of_netId {c d : ConnPtr} (hc : 0 ≤ (g.conn c).netId) (hd : (g.conn d).netId < 0) :
    c ≠ d := by
  rintro rfl
  exact absurd hd (Int32.not_lt.mpr hc)

/-- What routing picks is a client's connection. -/
theorem netId_route (h : g.Tables) {p n : Int32} {t : ConnPtr} (ht : g.route p n = some t) :
    0 ≤ (g.conn t).netId := by
  rcases route_eq_some.mp ht with hplayer | ⟨-, hconn⟩
  · exact (h.playerEntry hplayer).2.1
  · obtain ⟨hnet, hpos, -⟩ := h.connEntry hconn
    rw [hnet]
    exact hpos

/-- `d` is an upstream connection that the step has not sent anything to. -/
structure Untouched (g g' : Gate) (d : ConnPtr) : Prop where
  /-- the log -/
  sendLog : (g'.conn d).sendLog = (g.conn d).sendLog
  /-- the net id -/
  netId : (g'.conn d).netId = (g.conn d).netId

theorem untouched_modify (g : Gate) (c d : ConnPtr) {f : TcpConnection → TcpConnection}
    (hlog : ∀ conn, (f conn).sendLog = conn.sendLog) (hids : KeepsIds f) :
    Untouched g (g.modify c f) d := by
  refine ⟨?_, ?_⟩ <;> rw [conn_modify] <;> split
  · rename_i hdc
    subst hdc
    exact hlog _
  · rfl
  · rename_i hdc
    subst hdc
    exact (hids _).1
  · rfl

/-- `sendToPlayer` never touches an upstream connection. -/
theorem untouched_sendToPlayer (o : ByteOrder) (h : g.Tables) {d : ConnPtr}
    (hd : (g.conn d).netId < 0) (msg : NetMessage) : Untouched g (g.sendToPlayer o msg) d := by
  obtain ⟨-, heq⟩ | ⟨t, ht, ⟨-, heq⟩ | ⟨-, heq⟩⟩ := g.sendToPlayer_cases o msg
  · rw [heq]
    exact ⟨rfl, rfl⟩
  · rw [heq]
    exact ⟨g.sendLog_kickConnection t d, (g.netId_kickConnection t d).1⟩
  · have hne : d ≠ t := (ne_of_netId (netId_route h ht) hd).symm
    rw [heq]
    refine ⟨?_, ?_⟩ <;> rw [conn_modify, if_neg hne]

/-- The step keeps the upstream connections where they are and sends them nothing. -/
structure Bypasses (g g' : Gate) : Prop where
  /-- the account connection stays -/
  accountConn : g'.accountConn = g.accountConn
  /-- the game connection stays -/
  gameConn : g'.gameConn = g.gameConn
  /-- connections are only added -/
  next : g.next ≤ g'.next
  /-- the waiting connection is the same or a new one -/
  nextConn : g'.nextConn = g.nextConn ∨ g'.nextConn = g.next
  /-- nothing is sent to the account connection -/
  account : Untouched g g' g.accountConn
  /-- nothing is sent to the game connection -/
  game : Untouched g g' g.gameConn

/-- Neither the server connections nor their ids have changed. -/
theorem Upstream.of_bypasses (hu : g.Upstream) (hb : Bypasses g g') : g'.Upstream := by
  obtain ⟨hne, ⟨halt, hawait, hanet⟩, ⟨hglt, hgwait, hgnet⟩⟩ := hu
  have hwait : ∀ d, d < g.next → d ≠ g.nextConn → d ≠ g'.nextConn := by
    intro d hd hdne
    rcases hb.nextConn with heq | heq
    · rw [heq]
      exact hdne
    · rw [heq]
      exact Nat.ne_of_lt hd
  refine ⟨?_, ⟨?_, ?_, ?_⟩, ?_, ?_, ?_⟩
  · rw [hb.accountConn, hb.gameConn]
    exact hne
  · rw [hb.accountConn]
    exact lt_of_lt_of_le halt hb.next
  · rw [hb.accountConn]
    exact hwait _ halt hawait
  · rw [hb.accountConn, hb.account.netId]
    exact hanet
  · rw [hb.gameConn]
    exact lt_of_lt_of_le hglt hb.next
  · rw [hb.gameConn]
    exact hwait _ hglt hgwait
  · rw [hb.gameConn, hb.game.netId]
    exact hgnet

theorem Bypasses.refl (g : Gate) : Bypasses g g :=
  ⟨rfl, rfl, le_rfl, .inl rfl, ⟨rfl, rfl⟩, ⟨rfl, rfl⟩⟩

/-- The second call must not have moved on to another waiting connection. -/
theorem Bypasses.trans {g'' : Gate} (h : Bypasses g g') (h' : Bypasses g' g'')
    (hwait : g''.nextConn = g'.nextConn) : Bypasses g g'' := by
  have haccount := h'.account
  have hgame := h'.game
  rw [h.accountConn] at haccount
  rw [h.gameConn] at hgame
  refine ⟨h'.accountConn.trans h.accountConn, h'.gameConn.trans h.gameConn, h.next.trans h'.next,
    ?_, ⟨?_, ?_⟩, ?_, ?_⟩
  · rw [hwait]
    exact h.nextConn
  · exact haccount.sendLog.trans h.account.sendLog
  · exact haccount.netId.trans h.account.netId
  · exact hgame.sendLog.trans h.game.sendLog
  · exact hgame.netId.trans h.game.netId

theorem bypasses_modify (g : Gate) (c : ConnPtr) {f : TcpConnection → TcpConnection}
    (hlog : ∀ conn, (f conn).sendLog = conn.sendLog) (hids : KeepsIds f) :
    Bypasses g (g.modify c f) :=
  ⟨rfl, rfl, le_rfl, .inl rfl, g.untouched_modify c _ hlog hids,
    g.untouched_modify c _ hlog hids⟩

theorem nextConn_sendToPlayer (o : ByteOrder) (g : Gate) (msg : NetMessage) :
    (g.sendToPlayer o msg).nextConn = g.nextConn ∧ (g.sendToPlayer o msg).next = g.next ∧
      (g.sendToPlayer o msg).accountConn = g.accountConn ∧
      (g.sendToPlayer o msg).gameConn = g.gameConn := by
  obtain ⟨-, heq⟩ | ⟨t, -, ⟨-, heq⟩ | ⟨-, heq⟩⟩ := g.sendToPlayer_cases o msg
  · rw [heq]
    exact ⟨rfl, rfl, rfl, rfl⟩
  · rw [heq, kickConnection_frame]
    exact ⟨rfl, rfl, rfl, rfl⟩
  · rw [heq]
    exact ⟨rfl, rfl, rfl, rfl⟩

/-- A route leads to a client, which is none of the server connections. -/
theorem bypasses_sendToPlayer (o : ByteOrder) (h : g.Tables) (hu : g.Upstream)
    (msg : NetMessage) : Bypasses g (g.sendToPlayer o msg) := by
  obtain ⟨hwait, hnext, haccount, hgame⟩ := g.nextConn_sendToPlayer o msg
  exact ⟨haccount, hgame, hnext.ge, .inl hwait,
    untouched_sendToPlayer o h hu.account.2.2 msg, untouched_sendToPlayer o h hu.game.2.2 msg⟩

theorem bypasses_onPlayerLogin (g : Gate) (p n : Int32) : Bypasses g (g.onPlayerLogin p n) := by
  have hlog := g.sendLog_onPlayerLogin p n
  have hfields : (g.onPlayerLogin p n).accountConn = g.accountConn ∧
      (g.onPlayerLogin p n).gameConn = g.gameConn ∧ (g.onPlayerLogin p n).next = g.next ∧
      (g.onPlayerLogin p n).nextConn = g.nextConn := by
    obtain ⟨heq, -⟩ | ⟨-, -, -, c, -, heq⟩ := g.onPlayerLogin_cases p n <;> rw [heq]
    · exact ⟨rfl, rfl, rfl, rfl⟩
    · exact ⟨rfl, rfl, rfl, rfl⟩
  obtain ⟨haccount, hgame, hnext, hwait⟩ := hfields
  exact ⟨haccount, hgame, hnext.ge, .inl hwait, ⟨(hlog _).1, (hlog _).2⟩,
    ⟨(hlog _).1, (hlog _).2⟩⟩

/-- What a server sends goes to a player or logs one in. -/
theorem bypasses_handleServerMsg (o : ByteOrder) (J : JsonLib) (h : g.Tables) (hu : g.Upstream)
    (msg : NetMessage) : Bypasses g (g.handleServerMsg o J msg).1 := by
  have hsend := bypasses_sendToPlayer o h hu msg
  rw [handleServerMsg]
  split
  · exact .refl g
  · split
    · split
      · exact .refl g
      · exact hsend
      · rename_i p _
        have hlogin := g.bypasses_onPlayerLogin p msg.netId
        have hthen := bypasses_sendToPlayer o (h.onPlayerLogin p msg.netId)
          (hu.of_bypasses hlogin) (msg.setPlayerId p)
        exact hlogin.trans hthen (nextConn_sendToPlayer o _ _).1
    · split
      · exact hsend
      · exact .refl g

/-- The table has clients only, so the check closes no server connection. -/
theorem bypasses_checkHeartBeat (h : g.Tables) (tmp : ℤ) : Bypasses g (g.checkHeartBeat tmp) := by
  obtain ⟨hconn, -⟩ := checkHeartBeat_spec h.keyed tmp
  have hframe := beat_frame tmp g.connMap.toList g
  change g.checkHeartBeat tmp = _ at hframe
  have huntouched : ∀ d, Untouched g (g.checkHeartBeat tmp) d := by
    intro d
    refine ⟨?_, (ids_checkHeartBeat h tmp d).1⟩
    rw [hconn]
    split <;> rfl
  refine ⟨?_, ?_, ?_, ?_, huntouched _, huntouched _⟩ <;> rw [hframe]
  exact .inl rfl

/-- The waiting connection is none of the server connections. -/
theorem bypasses_handleAccept (h : g.Tables) (hu : g.Upstream) (now : ℤ) :
    Bypasses g (g.handleAccept .success now) := by
  obtain ⟨-, -, hconn, -, hnext, hwait, -⟩ := handleAccept_spec h now
  have huntouched : ∀ d, d < g.next → d ≠ g.nextConn →
      Untouched g (g.handleAccept .success now) d := by
    intro d hd hne
    refine ⟨?_, ?_⟩ <;> rw [hconn d hd hne]
  refine ⟨rfl, rfl, ?_, .inr hwait, huntouched _ hu.account.1 hu.account.2.1,
    huntouched _ hu.game.1 hu.game.2.1⟩
  rw [hnext]
  exact Nat.le_succ _

end Gate

/-! ## Runs -/

namespace Traffic

variable {o : ByteOrder} {J : JsonLib} {t : Traffic} {g g' : Gate}

theorem accepted_of_untouched {d : ConnPtr} (h : Gate.Untouched g g' d) :
    acceptedBy g' d = acceptedBy g d := by
  rw [acceptedBy, acceptedBy, TcpConnection.accepted, TcpConnection.accepted, h.sendLog]

/-- Sending on: the packet is accepted exactly when the connection is ready. -/
theorem accepted_forward (d : ConnPtr) {msg : NetMessage}
    (hser : ((Gate.copyOf msg).serialize o).2 = true) :
    acceptedBy (g.modify d fun conn => conn.sendSerialized o (Gate.copyOf msg)) d =
        acceptedBy g d ++ [msg.packet] ↔ Ready g d := by
  have hpacket : ((Gate.copyOf msg).serialize o).1.packet = msg.packet :=
    (NetMessage.serialize_spec hser).1
  rw [acceptedBy, Gate.conn_modify, if_pos rfl, TcpConnection.sendSerialized, if_pos hser,
    TcpConnection.accepted_sendMessage, List.map_append, acceptedBy, List.append_cancel_left_eq]
  rcases hopen : (g.conn d).socket.isOpen with _ | _
  · -- a closed socket refuses
    have hrefused : ¬ ((g.conn d).sendMessage ((Gate.copyOf msg).serialize o).1).2 = 0 := by
      obtain ⟨code, hcode, heq, -⟩ | ⟨-, hopen', -⟩ :=
        (g.conn d).sendMessage_cases ((Gate.copyOf msg).serialize o).1
      · rw [heq]
        exact hcode
      · rw [hopen] at hopen'
        cases hopen'
    rw [if_neg hrefused, Ready, hopen]
    simp
  · obtain ⟨hzero, -⟩ := TcpConnection.sendMessage_open o hopen hser
    rw [Ready, hopen, ← hzero]
    split
    · rename_i hcode
      simp [hcode, hpacket]
    · rename_i hcode
      simp [hcode]

/-- What is forwarded to one connection no other one gets. -/
theorem accepted_forward_other {d e : ConnPtr} (hne : e ≠ d) (f : TcpConnection → TcpConnection) :
    acceptedBy (g.modify d f) e = acceptedBy g e := by
  rw [acceptedBy, Gate.conn_modify, if_neg hne, acceptedBy]

/-- Sending on, whether or not the copy serializes. -/
theorem forwarded_iff {d : ConnPtr} {msg : NetMessage} {queue : List Packet}
    (hq : acceptedBy g d = queue) :
    acceptedBy (g.modify d fun conn => conn.sendSerialized o (Gate.copyOf msg)) d =
        (if ((Gate.copyOf msg).serialize o).2 then queue ++ [msg.packet] else queue) ↔
      (((Gate.copyOf msg).serialize o).2 = true → Ready g d) := by
  by_cases hser : ((Gate.copyOf msg).serialize o).2 = true
  · rw [if_pos hser, ← hq, accepted_forward d hser]
    exact ⟨fun h _ => h, fun h => h hser⟩
  · rw [if_neg hser, acceptedBy, Gate.conn_modify, if_pos rfl, TcpConnection.sendSerialized,
      if_neg hser]
    exact ⟨fun _ h => absurd h hser, fun _ => hq⟩

/-- Nothing is lost by an event that sends nothing upstream and asks for nothing to be
sent. -/
theorem noRequestLost_of_bypasses (h : t.NoRequestLost) (hb : Gate.Bypasses t.gate g) :
    NoRequestLost ⟨g, t.toAccount, t.toGame⟩ := by
  refine ⟨?_, ?_⟩
  · rw [hb.accountConn, accepted_of_untouched hb.account]
    exact h.account
  · rw [hb.gameConn, accepted_of_untouched hb.game]
    exact h.game

theorem Upstream_modify (hu : g.Upstream) (d : ConnPtr) (msg : NetMessage) :
    (g.modify d fun conn => conn.sendSerialized o (Gate.copyOf msg)).Upstream := by
  have hs := g.sameTables_modify d (keepsIds_sendSerialized o (Gate.copyOf msg))
  obtain ⟨hne, ⟨halt, hawait, hanet⟩, ⟨hglt, hgwait, hgnet⟩⟩ := hu
  refine ⟨hne, ⟨halt, hawait, ?_⟩, hglt, hgwait, ?_⟩
  · rw [← (hs.ids _ halt).1] at hanet
    exact hanet
  · rw [← (hs.ids _ hglt).1] at hgnet
    exact hgnet

/-- The gate's part of a frame: either it bypasses the servers, or it is a client's frame
of one of the two ranges and goes to that server. -/
theorem onRecv_cases (h : g.Tables) (hu : g.Upstream) (c : ConnPtr) (msg : NetMessage) :
    (g.onRecv o J c msg).1.Tables ∧
    ((Gate.Bypasses g (g.onRecv o J c msg).1 ∧
        ((g.conn c).netId < 0 ∨
          (inAccountRange msg.proto = false ∧ inGameRange msg.proto = false))) ∨
      (0 ≤ (g.conn c).netId ∧ inAccountRange msg.proto = true ∧ inGameRange msg.proto = false ∧
        (g.onRecv o J c msg).1 = g.sendToAccountSvr o (msg.setNetId (g.conn c).netId)) ∨
      (0 ≤ (g.conn c).netId ∧ inAccountRange msg.proto = false ∧ inGameRange msg.proto = true ∧
        (g.onRecv o J c msg).1 = g.sendToGameSvr o (msg.setNetId (g.conn c).netId))) := by
  rw [Gate.onRecv]
  by_cases hneg : (g.conn c).netId < 0
  · rw [if_pos hneg]
    refine ⟨?_, .inl ⟨Gate.bypasses_handleServerMsg o J h hu msg, .inl hneg⟩⟩
    rw [Gate.handleServerMsg]
    split
    · exact h
    · split
      · split
        · exact h
        · exact h.step o (.sendToPlayer msg)
        · exact (h.onPlayerLogin _ _).step o (.sendToPlayer _)
      · split
        · exact h.step o (.sendToPlayer msg)
        · exact h
  rw [if_neg hneg]
  have hpos := Int32.not_lt.mp hneg
  have hproto : (msg.setNetId (g.conn c).netId).proto = msg.proto := rfl
  dsimp only [Gate.handleClientMsg]
  rw [hproto]
  rcases hgate : inGateRange msg.proto with _ | _
  · simp only [Bool.false_eq_true, if_false]
    rcases hgame : inGameRange msg.proto with _ | _
    · rcases haccount : inAccountRange msg.proto with _ | _
      · exact ⟨h, .inl ⟨.refl g, .inr ⟨rfl, rfl⟩⟩⟩
      · exact ⟨h.step o (.sendToAccountSvr _), .inr (.inl ⟨hpos, rfl, rfl, rfl⟩)⟩
    · obtain ⟨-, haccount⟩ := ranges_of_game hgame
      rw [haccount]
      exact ⟨h.step o (.sendToGameSvr _), .inr (.inr ⟨hpos, rfl, rfl, rfl⟩)⟩
  · -- a frame for the gate itself
    have houtside : inAccountRange msg.proto = false ∧ inGameRange msg.proto = false := by
      rw [inGateRange_iff] at hgate
      rw [Bool.eq_false_iff, Bool.eq_false_iff, Ne, Ne, inAccountRange_iff, inGameRange_iff]
      omega
    rw [if_pos rfl]
    split
    · have hheard : Gate.Bypasses g (g.step o (.heard c)) :=
        g.bypasses_modify c (f := fun conn => conn.setHeartBeat g.systemTime) (fun _ => rfl)
          (keepsIds_setHeartBeat g.systemTime)
      have htables := h.step o (.heard c)
      have hsend := Gate.bypasses_sendToPlayer o htables (hu.of_bypasses hheard)
        (.ofJson [] playerHeartBeatRsp (msg.setNetId (g.conn c).netId).playerId
          (msg.setNetId (g.conn c).netId).netId)
      exact ⟨htables.step o (.sendToPlayer _),
        .inl ⟨hheard.trans hsend (Gate.nextConn_sendToPlayer o _ _).1, .inr houtside⟩⟩
    · exact ⟨h, .inl ⟨.refl g, .inr houtside⟩⟩

/-- A frame. -/
theorem frame_spec (h : t.gate.Tables) (hu : t.gate.Upstream) (c : ConnPtr) (msg : NetMessage) :
    (t.step o J (.frame c msg)).gate.Tables ∧ (t.step o J (.frame c msg)).gate.Upstream ∧
      (t.NoRequestLost →
        ((t.step o J (.frame c msg)).NoRequestLost ↔ t.ForwardOk o (.frame c msg))) := by
  obtain ⟨htables, hcases⟩ := onRecv_cases (o := o) (J := J) h hu c msg
  refine ⟨htables, ?_⟩
  rcases hcases with ⟨hb, hwhy⟩ | ⟨hpos, haccount, hgame, heq⟩ | ⟨hpos, haccount, hgame, heq⟩
  · -- nothing is to be sent on
    have hnot : ∀ r : Bool, r = inAccountRange msg.proto ∨ r = inGameRange msg.proto →
        (forwardable o t.gate c msg && r) = false := by
      rintro r hr
      rcases hwhy with hneg | ⟨haccount, hgame⟩
      · rw [forwardable, decide_eq_false (Int32.not_le.mpr hneg)]
        rfl
      · have hfalse : r = false := by
          rcases hr with rfl | rfl
          · exact haccount
          · exact hgame
        rw [hfalse, Bool.and_false]
    have hsame : t.step o J (.frame c msg) =
        ⟨(t.gate.onRecv o J c msg).1, t.toAccount, t.toGame⟩ := by
      simp only [step, hnot _ (.inl rfl), hnot _ (.inr rfl), Bool.false_eq_true, if_false]
    rw [hsame]
    refine ⟨hu.of_bypasses hb, fun hP => ?_⟩
    refine ⟨fun _ hdue => ?_, fun _ => noRequestLost_of_bypasses hP hb⟩
    have hacc := hnot _ (.inl rfl)
    have hgam := hnot _ (.inr rfl)
    rw [hdue, Bool.true_and] at hacc hgam
    refine ⟨fun hin => ?_, fun hin => ?_⟩
    · rw [hacc] at hin
      cases hin
    · rw [hgam] at hin
      cases hin
  all_goals
    have hdue : forwardable o t.gate c msg =
        ((Gate.copyOf (msg.setNetId (t.gate.conn c).netId)).serialize o).2 := by
      rw [forwardable, decide_eq_true hpos, Bool.true_and, Bool.eq_iff_iff,
        NetMessage.serialize_eq_true_iff, NetMessage.serialize_eq_true_iff]
      rfl
    refine ⟨by rw [step, heq]; exact Upstream_modify hu _ _, fun hP => ?_⟩
    rw [step, ForwardOk, heq, haccount, hgame, hdue]
    simp only [Bool.and_true, Bool.and_false, Bool.false_eq_true, if_false, false_imp_iff,
      true_imp_iff, and_true, true_and]
  · refine Iff.trans ⟨fun hn => hn.account, fun hn => ⟨hn, ?_⟩⟩ (forwarded_iff hP.account)
    exact (accepted_forward_other hu.ne.symm fun conn => conn.sendSerialized o
      (Gate.copyOf (msg.setNetId (t.gate.conn c).netId))).trans hP.game
  · refine Iff.trans ⟨fun hn => hn.game, fun hn => ⟨?_, hn⟩⟩ (forwarded_iff hP.game)
    exact (accepted_forward_other hu.ne fun conn => conn.sendSerialized o
      (Gate.copyOf (msg.setNetId (t.gate.conn c).netId))).trans hP.account

/-- **Exact step lemma**: an event keeps `NoRequestLost` exactly when it is allowed. -/
theorem step_spec (h : t.gate.Tables) (hu : t.gate.Upstream) (e : ForwardEvent) :
    (t.step o J e).gate.Tables ∧ (t.step o J e).gate.Upstream ∧
      (t.NoRequestLost → ((t.step o J e).NoRequestLost ↔ t.ForwardOk o e)) := by
  have hbypass : ∀ {g : Gate}, Gate.Bypasses t.gate g →
      g.Upstream ∧ (t.NoRequestLost → (NoRequestLost ⟨g, t.toAccount, t.toGame⟩ ↔ True)) :=
    fun hb => ⟨hu.of_bypasses hb,
      fun hP => ⟨fun _ => trivial, fun _ => noRequestLost_of_bypasses hP hb⟩⟩
  cases e with
  | frame c msg => exact frame_spec h hu c msg
  | accept now => exact ⟨h.handleAccept .success now, hbypass (Gate.bypasses_handleAccept h hu now)⟩
  | checkHeartBeat tmp => exact ⟨h.checkHeartBeat tmp, hbypass (Gate.bypasses_checkHeartBeat h tmp)⟩
  | closed c =>
    exact ⟨h.step o (.closed c),
      hbypass (t.gate.bypasses_modify c (fun _ => rfl) keepsIds_close)⟩
  | written c err writeSome =>
    refine ⟨h.step o (.written c err writeSome),
      hbypass (t.gate.bypasses_modify c (fun conn => ?_) (keepsIds_handleWrite err writeSome))⟩
    rw [conn.handleWrite_frame err writeSome]

theorem upstream_init (now : ℤ) : (Gate.init now).Upstream := by
  have hptr : (2 : ConnPtr) ≠ 1 ∧ (2 : ConnPtr) < 3 ∧ (2 : ConnPtr) ≠ 0 ∧ (1 : ConnPtr) < 3 ∧
      (1 : ConnPtr) ≠ 0 := by decide
  have haccount : ((Gate.init now).conn 2).netId = -2 := rfl
  have hgame : ((Gate.init now).conn 1).netId = -1 := rfl
  refine ⟨hptr.1, ⟨hptr.2.1, hptr.2.2.1, ?_⟩, hptr.2.2.2.1, hptr.2.2.2.2, ?_⟩
  · exact haccount ▸ by decide
  · exact hgame ▸ by decide

theorem invariant_run (o : ByteOrder) (J : JsonLib) (now : ℤ) (es : List ForwardEvent) :
    Always (step o J) (fun t => t.gate.Tables ∧ t.gate.Upstream) (init now) es :=
  always_of_step (fun _ e ht => ⟨(step_spec ht.1 ht.2 e).1, (step_spec ht.1 ht.2 e).2.1⟩)
    ⟨Gate.tables_init now, upstream_init now⟩ es

/-- **No client request is lost, exactly.** Over any interleaving of frames from any
number of clients, answers of the servers, accepts, write completions, failing reads and
heartbeat checks, every client frame of the account (game) range that serializes again is
accepted once, in order, with its proto, player id and body and the net id of its
connection, on the account (game) connection, in every state of the run, if and only if
each such frame finds that connection open and without a write in progress. -/
theorem noRequestLost_always_iff (o : ByteOrder) (J : JsonLib) (now : ℤ)
    (es : List ForwardEvent) :
    Always (step o J) NoRequestLost (init now) es ↔
      EachStep (step o J) (ForwardOk o) (init now) es :=
  always_iff_eachStep (I := fun t : Traffic => t.gate.Tables ∧ t.gate.Upstream)
    (fun _ e ht => ⟨(step_spec ht.1 ht.2 e).1, (step_spec ht.1 ht.2 e).2.1⟩)
    (fun _ e ht => (step_spec ht.1 ht.2 e).2.2)
    ⟨Gate.tables_init now, upstream_init now⟩ ⟨rfl, rfl⟩

/-- Two clients ask to log in before the first forwarded request has been written: the
second request is refused by the account connection and only logged. -/
theorem noRequestLost_fails_on_two_clients :
    ¬ Always (step .little plainJson) NoRequestLost (init 0)
      [.accept 0, .accept 0, .frame 0 (.ofJson [] playerLoginReq 0 0),
        .frame 3 (.ofJson [] playerLoginReq 0 0)] := by
  intro h
  have hthree : [.accept 0, .accept 0, .frame 0 (.ofJson [] playerLoginReq 0 0)] <+:
      [.accept 0, .accept 0, .frame 0 (.ofJson [] playerLoginReq 0 0),
        ForwardEvent.frame 3 (.ofJson [] playerLoginReq 0 0)] := ⟨[_], rfl⟩
  obtain ⟨htables, hupstream⟩ := invariant_run .little plainJson 0 _ _ hthree
  obtain ⟨-, -, hiff⟩ := step_spec htables hupstream
    (.frame 3 (.ofJson [] playerLoginReq 0 0))
  obtain ⟨hready, -⟩ := (hiff (h _ hthree)).mp h.last (by decide)
  exact absurd (hready (by decide)).2 (by decide)

end Traffic

end MyServer
