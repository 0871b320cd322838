import MyServer.GateSessions

/-!
# Where a reply goes

A client writes any player id into its frames, and the gate looks a reply up by player
id first; the net id of the connection the frame came on is only the fallback. So the
reply to a frame on `c` reaches `c` or nobody exactly when the table has no entry for the
frame's player id that leads to another open connection (`reply_routed_iff`).
-/

namespace MyServer

namespace Gate

variable {g g' : Gate}

/-- Between the two states nothing has been handed to a connection other than `c`: no
other connection has seen a call of `sendMessage`. -/
def HandsOnlyTo (c : ConnPtr) (g g' : Gate) : Prop :=
  ∀ t, t ≠ c → (g'.conn t).sendLog = (g.conn t).sendLog

/-- Neither the entry of the player nor, when there is none, the entry of the net id of
`c` leads to another open connection (or the reply `msg` is too long to be sent). -/
def Unclaimed (o : ByteOrder) (g : Gate) (c : ConnPtr) (playerId : Int32) (msg : NetMessage) :
    Prop :=
  ((copyOf msg).serialize o).2 = true →
    (∀ t, g.playerMap[playerId]? = some t → (g.conn t).socket.isOpen = true → t = c) ∧
      (g.playerMap[playerId]? = none → ∀ t, g.connMap[(g.conn c).netId]? = some t →
        (g.conn t).socket.isOpen = true → t = c)

theorem sendLog_kickConnection (g : Gate) (c d : ConnPtr) :
    ((g.kickConnection c).1.conn d).sendLog = (g.conn d).sendLog := by
  rcases g.conn_kickConnection c d with heq | heq
  · rw [heq]
  · rw [heq]
    rfl

theorem sendLog_sendSerialized (o : ByteOrder) (conn : TcpConnection) (msg : NetMessage) :
    (conn.sendSerialized o msg).sendLog = conn.sendLog ↔ ¬ (msg.serialize o).2 = true := by
  rw [TcpConnection.sendSerialized]
  by_cases hser : (msg.serialize o).2 = true
  · rw [if_pos hser, TcpConnection.sendMessage_frame]
    simp [hser]
  · rw [if_neg hser]
    simp [hser]

theorem route_eq_some {playerId netId : Int32} {t : ConnPtr} :
    g.route playerId netId = some t ↔
      g.playerMap[playerId]? = some t ∨
        (g.playerMap[playerId]? = none ∧ g.connMap[netId]? = some t) := by
  rw [route]
  rcases g.playerMap[playerId]? with _ | d <;> simp

/-- `Unclaimed` is about what routing picks. -/
theorem unclaimed_iff_route (o : ByteOrder) (g : Gate) (c : ConnPtr) (p : Int32)
    (msg : NetMessage) :
    g.Unclaimed o c p msg ↔
      (((copyOf msg).serialize o).2 = true → ∀ t, g.route p (g.conn c).netId = some t →
        (g.conn t).socket.isOpen = true → t = c) := by
  refine imp_congr_right fun _ => ⟨fun h t ht hopen => ?_, fun h => ⟨fun t ht => ?_, ?_⟩⟩
  · rcases route_eq_some.mp ht with hplayer | ⟨hnone, hconn⟩
    · exact h.1 t hplayer hopen
    · exact h.2 hnone t hconn hopen
  · exact h t (route_eq_some.mpr (.inl ht))
  · exact fun hnone t ht => h t (route_eq_some.mpr (.inr ⟨hnone, ht⟩))

/-- One call of `sendToPlayer`, for a reply that carries the net id of `c`. -/
theorem sendToPlayer_handsOnlyTo_iff (o : ByteOrder) (c : ConnPtr) (msg : NetMessage)
    (hnet : msg.netId = (g.conn c).netId) :
    HandsOnlyTo c g (g.sendToPlayer o msg) ↔ g.Unclaimed o c msg.playerId msg := by
  rw [unclaimed_iff_route, ← hnet]
  obtain ⟨hnone, heq⟩ | ⟨t, ht, ⟨hclosed, heq⟩ | ⟨hopen, heq⟩⟩ := g.sendToPlayer_cases o msg
  · rw [heq, hnone]
    exact ⟨fun _ _ t ht => (nomatch ht), fun _ _ _ => rfl⟩
  · rw [heq, ht]
    refine ⟨fun _ _ t' ht' hopen => ?_, fun _ d _ => g.sendLog_kickConnection t d⟩
    obtain rfl : t = t' := Option.some.inj ht'
    rw [hclosed] at hopen
    cases hopen
  · rw [heq, ht]
    refine ⟨fun honly hser t' ht' _ => ?_, fun hsame d hd => ?_⟩
    · obtain rfl : t = t' := Option.some.inj ht'
      by_contra hne
      have hlog := honly t hne
      rw [conn_modify, if_pos rfl, sendLog_sendSerialized] at hlog
      exact hlog hser
    · rw [conn_modify]
      split
      · rename_i hdt
        subst hdt
        rw [sendLog_sendSerialized]
        exact fun hser => hd (hsame hser d rfl hopen)
      · rfl

/-- A login adds an entry only where routing would have gone anyway. -/
theorem route_onPlayerLogin (g : Gate) (p n : Int32) :
    (g.onPlayerLogin p n).route p n = g.route p n := by
  obtain ⟨heq, -⟩ | ⟨-, -, -, c, hc, heq⟩ := g.onPlayerLogin_cases p n
  · rw [heq]
  · rw [heq]
    rcases hlook : g.playerMap[p]? with _ | d
    · have hnew := (g.lookup_loggedIn p p c c).mpr (.inr ⟨rfl, hlook, rfl⟩)
      rw [route, route, hnew, hlook, hc]
      rfl
    · have hold := (g.lookup_loggedIn p p c d).mpr (.inl hlook)
      rw [route, route, hold, hlook]
      rfl

theorem sendLog_onPlayerLogin (g : Gate) (p n : Int32) (d : ConnPtr) :
    ((g.onPlayerLogin p n).conn d).sendLog = (g.conn d).sendLog ∧
      ((g.onPlayerLogin p n).conn d).netId = (g.conn d).netId := by
  obtain ⟨heq, -⟩ | ⟨-, -, -, c, -, heq⟩ := g.onPlayerLogin_cases p n
  · rw [heq]
    exact ⟨rfl, rfl⟩
  · have hconn := g.conn_modify c d fun conn => (conn.setPlayerId p).setHeartBeat g.systemTime
    rw [heq, (g.ids_loggedIn p c d).1]
    refine ⟨(congrArg TcpConnection.sendLog hconn).trans ?_, rfl⟩
    split
    · rename_i hdc
      subst hdc
      rfl
    · rfl

/-- A state in which no connection has been handed anything since `g`, with the same
sockets and the same choice for this reply, makes no difference to where it goes. -/
theorem sendToPlayer_congr (o : ByteOrder) (c : ConnPtr) (msg : NetMessage)
    (hnet : msg.netId = (g.conn c).netId)
    (hconn : ∀ d, (g'.conn d).sendLog = (g.conn d).sendLog ∧
      (g'.conn d).netId = (g.conn d).netId ∧ (g'.conn d).socket = (g.conn d).socket)
    (hroute : g'.route msg.playerId msg.netId = g.route msg.playerId msg.netId) :
    HandsOnlyTo c g (g'.sendToPlayer o msg) ↔ g.Unclaimed o c msg.playerId msg := by
  have hlog : HandsOnlyTo c g (g'.sendToPlayer o msg) ↔
      HandsOnlyTo c g' (g'.sendToPlayer o msg) := by
    refine forall_congr' fun t => imp_congr_right fun _ => ?_
    rw [(hconn t).1]
  have hnet' : msg.netId = (g'.conn c).netId := by rw [(hconn c).2.1, hnet]
  rw [hlog, sendToPlayer_handsOnlyTo_iff o c msg hnet', unclaimed_iff_route, unclaimed_iff_route,
    ← hnet', ← hnet, hroute]
  refine imp_congr_right fun _ => forall_congr' fun t => imp_congr_right fun _ => ?_
  rw [(hconn t).2.2]

/-- The gate's own answer to a heartbeat request. -/
theorem heartBeat_handsOnlyTo_iff (o : ByteOrder) (c : ConnPtr) {req : NetMessage}
    (hreq : req.proto = playerHeartBeatReq) :
    HandsOnlyTo c g (g.handleClientMsg o c req) ↔
      g.Unclaimed o c req.playerId
        (.ofJson [] playerHeartBeatRsp req.playerId (g.conn c).netId) := by
  have hgate : inGateRange (req.setNetId (g.conn c).netId).proto = true := by
    change inGateRange req.proto = true
    rw [hreq]
    decide
  have hproto : (req.setNetId (g.conn c).netId).proto = playerHeartBeatReq := hreq
  rw [handleClientMsg, hgate, if_pos rfl, if_pos hproto]
  refine sendToPlayer_congr (g := g) o c
    (.ofJson [] playerHeartBeatRsp req.playerId (g.conn c).netId) rfl (fun d => ?_) rfl
  -- only the heartbeat of `c` has changed
  rw [conn_modify]
  split
  · rename_i hdc
    subst hdc
    exact ⟨rfl, rfl, rfl⟩
  · exact ⟨rfl, rfl, rfl⟩

/-- A response of a server. A successful login response is routed by the id of the player
that has logged in, any other one by the id it carries. -/
theorem serverMsg_handsOnlyTo_iff (o : ByteOrder) (J : JsonLib) (c : ConnPtr) {rsp : NetMessage}
    (hnet : rsp.netId = (g.conn c).netId)
    (hrange : inAccountRange rsp.proto = true ∨ inGameRange rsp.proto = true)
    {who : Option Int32} (hwho : loginOf J rsp = .ok who) :
    HandsOnlyTo c g (g.handleServerMsg o J rsp).1 ↔
      g.Unclaimed o c (who.getD rsp.playerId) (rsp.setPlayerId (who.getD rsp.playerId)) := by
  have hgate : inGateRange rsp.proto = false := by
    rcases hrange with haccount | hgame
    · exact (ranges_of_account haccount).1
    · exact (ranges_of_game hgame).1
  rw [handleServerMsg, hgate]
  rcases who with _ | p
  · -- not a login: both branches send the message on as it is
    have hplain := sendToPlayer_handsOnlyTo_iff (g := g) o c rsp hnet
    rcases haccount : inAccountRange rsp.proto with _ | _
    · rw [hrange.resolve_left (by rw [haccount]; decide)]
      exact hplain
    · rw [hwho]
      exact hplain
  · have haccount : inAccountRange rsp.proto = true := by
      rw [proto_of_loginOf hwho]
      decide
    rw [haccount, hwho]
    refine sendToPlayer_congr (g := g) o c (rsp.setPlayerId p) hnet (fun d => ?_) ?_
    · obtain ⟨hlog, hid⟩ := g.sendLog_onPlayerLogin p rsp.netId d
      exact ⟨hlog, hid, g.socket_onPlayerLogin p rsp.netId d⟩
    · exact g.route_onPlayerLogin p rsp.netId

/-- **Reply routing, exactly.** In every state the gate can reach, let a frame come in on
connection `c`, with any player id in it. The answer, be it the gate's own to a heartbeat
request, or a server's response with the player id of the frame and the net id of `c`
handed to `sendToPlayer` or arriving through `handleServerMsg`, is handed to `c` or to
nobody if and only if the tables lead the player id (the one that has logged in, for a
successful login response) to no other open connection. -/
theorem reply_routed_iff (o : ByteOrder) (J : JsonLib) (now : ℤ) (ops : List GateOp)
    (c : ConnPtr) (req : NetMessage) :
    let g := runFrom (step o) (init now) ops
    (req.proto = playerHeartBeatReq →
      (HandsOnlyTo c g (g.handleClientMsg o c req) ↔
        g.Unclaimed o c req.playerId
          (.ofJson [] playerHeartBeatRsp req.playerId (g.conn c).netId))) ∧
    ∀ rsp : NetMessage, rsp.playerId = req.playerId → rsp.netId = (g.conn c).netId →
      (HandsOnlyTo c g (g.sendToPlayer o rsp) ↔ g.Unclaimed o c req.playerId rsp) ∧
      (inAccountRange rsp.proto = true ∨ inGameRange rsp.proto = true →
        ∀ who, loginOf J rsp = .ok who →
          (HandsOnlyTo c g (g.handleServerMsg o J rsp).1 ↔
            g.Unclaimed o c (who.getD req.playerId)
              (rsp.setPlayerId (who.getD req.playerId)))) := by
  intro g
  refine ⟨fun hreq => heartBeat_handsOnlyTo_iff o c hreq, fun rsp hplayer hnet => ⟨?_, ?_⟩⟩
  · rw [← hplayer]
    exact sendToPlayer_handsOnlyTo_iff o c rsp hnet
  · intro hrange who hwho
    rw [← hplayer]
    exact serverMsg_handsOnlyTo_iff o J c hnet hrange hwho

/-- A heartbeat request of the first client. -/
theorem reply_routed_heartbeat :
    let g := runFrom (step .little) (init 0) [.accept .success 0]
    HandsOnlyTo 0 g (g.handleClientMsg .little 0 (.ofJson [] playerHeartBeatReq 5 0)) :=
  ((reply_routed_iff .little plainJson 0 [.accept .success 0] 0
    (.ofJson [] playerHeartBeatReq 5 0)).1 rfl).mpr
    fun _ => by
      have hnone : (runFrom (step .little) (init 0) [.accept .success 0]).playerMap[(5 : Int32)]? =
          none := by decide
      have hzero : (runFrom (step .little) (init 0) [.accept .success 0]).connMap[
          ((runFrom (step .little) (init 0) [.accept .success 0]).conn 0).netId]? = some 0 := by
        decide
      refine ⟨fun t ht => ?_, fun _ t ht _ => ?_⟩
      · rw [show (NetMessage.ofJson [] playerHeartBeatReq 5 0).playerId = 5 from rfl, hnone] at ht
        cases ht
      · exact (Option.some.inj (hzero.symm.trans ht)).symm

/-- Player 5 is logged in on the first connection. A client on the second one writes 5 into
a heartbeat request, and the answer goes to the first. -/
theorem reply_misrouted_to_claimed_player :
    let g := runFrom (step .little) (init 0)
      [.accept .success 0, .accept .success 0, .login 5 0]
    ¬ HandsOnlyTo 3 g (g.handleClientMsg .little 3 (.ofJson [] playerHeartBeatReq 5 0)) := by
  intro g h
  have hclear := (heartBeat_handsOnlyTo_iff .little 3 rfl).mp h (by decide)
  exact absurd (hclear.1 0 (by decide) (by decide)) (by decide)

end Gate

end MyServer
