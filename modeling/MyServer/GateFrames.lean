import MyServer.GateForward
import MyServer.ReadPath

/-!
# What the gate sends, and whom it takes for logged in

For every kind of event at the gate: which players come online by it, and what it hands to
which connection.

* `Gate.outside_spec` — the network and the timer: nobody comes online, and nothing is sent.
* `Gate.client_spec` — a client's frame: it is sent on with the net id of its connection, or a
  heartbeat is answered; nobody comes online.
* `Gate.server_spec` — a server's frame: it is passed on, and a login response brings its
  player online.
-/

namespace MyServer

/-! ## Frames -/

/-- The frames that were accepted for writing since the connection was `c`. -/
def newFrames (c c' : TcpConnection) : List Packet :=
  (c'.accepted.drop c.accepted.length).map NetMessage.packet

/-- What the connection has accepted since it was `c` satisfies `Q`, unless it is a new one. -/
def Extends (Q : Packet → Prop) (c c' : TcpConnection) : Prop :=
  c'.accepted = [] ∨ ∃ l, c'.accepted = c.accepted ++ l ∧ ∀ m ∈ l, Q m.packet

theorem accepted_of_sendLog {c c' : TcpConnection} (h : c'.sendLog = c.sendLog) :
    c'.accepted = c.accepted := by
  rw [TcpConnection.accepted, TcpConnection.accepted, h]

theorem extends_of_accepted {Q : Packet → Prop} {c c' : TcpConnection}
    (h : c'.accepted = c.accepted) : Extends Q c c' :=
  .inr ⟨[], by rw [h, List.append_nil], fun _ hm => absurd hm List.not_mem_nil⟩

theorem Extends.mono {Q Q' : Packet → Prop} {c c' : TcpConnection} (h : Extends Q c c')
    (himp : ∀ p, Q p → Q' p) : Extends Q' c c' := by
  obtain hnil | ⟨l, heq, hl⟩ := h
  · exact .inl hnil
  · exact .inr ⟨l, heq, fun m hm => himp _ (hl m hm)⟩

/-- A frame that was accepted was accepted before, or it is one of the new ones. -/
theorem Extends.mem {Q : Packet → Prop} {c c' : TcpConnection} (h : Extends Q c c')
    {m : NetMessage} (hm : m ∈ c'.accepted) : m ∈ c.accepted ∨ Q m.packet := by
  rcases h with hnil | ⟨l, heq, hl⟩
  · rw [hnil] at hm
    cases hm
  · rw [heq] at hm
    exact (List.mem_append.mp hm).imp_right (hl m)

/-- A connection made anew has no frames at all, so `newFrames` has none for it either. -/
theorem Extends.newFrames {Q : Packet → Prop} {c c' : TcpConnection} (h : Extends Q c c')
    {p : Packet} (hp : p ∈ newFrames c c') : Q p := by
  rw [MyServer.newFrames] at hp
  rcases h with hnil | ⟨l, heq, hl⟩
  · rw [hnil, List.drop_nil] at hp
    cases hp
  · rw [heq, List.drop_left] at hp
    obtain ⟨m, hm, rfl⟩ := List.mem_map.mp hp
    exact hl m hm

/-- A message is accepted as it is or not at all. -/
theorem extends_sendMessage (c : TcpConnection) (msg : NetMessage) :
    Extends (fun p => p = msg.packet) c (c.sendMessage msg).1 := by
  refine .inr ⟨_, c.accepted_sendMessage msg, fun m hm => ?_⟩
  split at hm
  · rw [List.mem_singleton.mp hm]
  · cases hm

/-- The same for one that is put into bytes first: that changes its buffer and not its packet. -/
theorem extends_sendSerialized (o : ByteOrder) (c : TcpConnection) (msg : NetMessage) :
    Extends (fun p => p = msg.packet) c (c.sendSerialized o msg) := by
  rw [TcpConnection.sendSerialized]
  split
  · rename_i hser
    have hpacket := (NetMessage.serialize_spec hser).1
    rw [← hpacket]
    exact extends_sendMessage c (msg.serialize o).1
  · exact extends_of_accepted rfl

/-! ## The gate's calls -/

/-- The call comes from the network or from the timer. The others are made by `onRecv`. -/
def GateOp.outside : GateOp → Bool
  | .accept _ _ => true
  | .connect _ _ => true
  | .kick _ => true
  | .update _ _ => true
  | .closed _ => true
  | .written _ _ _ => true
  | _ => false

namespace Gate

variable {g g' : Gate}

/-- The player's entry leads to a connection with this net id. -/
def Online (g : Gate) (playerId netId : Int32) : Prop :=
  ∃ c, g.playerMap[playerId]? = some c ∧ (g.conn c).netId = netId

/-- No player has come online, and no connection has accepted a frame. -/
structure Silent (g g' : Gate) : Prop where
  /-- who is online was so before, on the same net id -/
  online : ∀ {p n : Int32}, g'.Online p n → g.Online p n
  /-- logs only go with their connections -/
  accepted : ∀ d, (g'.conn d).accepted = (g.conn d).accepted ∨ (g'.conn d).accepted = []

theorem Silent.refl (g : Gate) : g.Silent g := ⟨fun h => h, fun _ => .inl rfl⟩

/-- A log that is gone stays gone: the connection is not made again by a silent call. -/
theorem Silent.trans {g'' : Gate} (h : g.Silent g') (h' : g'.Silent g'') : g.Silent g'' := by
  refine ⟨fun hon => h.online (h'.online hon), fun d => ?_⟩
  rcases h'.accepted d with heq | hnil
  · rw [heq]
    exact h.accepted d
  · exact .inr hnil

/-- Who is online is said by the tables and the ids. -/
theorem online_of_same (h : g.Tables) (hs : g.SameTables g') {p n : Int32}
    (hon : g'.Online p n) : g.Online p n := by
  obtain ⟨c, hc, hnet⟩ := hon
  rw [hs.playerMap] at hc
  refine ⟨c, hc, ?_⟩
  rw [← (hs.ids c (h.playerEntry hc).2.2.1).1]
  exact hnet

/-- A change of one connection that leaves its log and its ids alone. -/
theorem silent_modify (h : g.Tables) (c : ConnPtr) {f : TcpConnection → TcpConnection}
    (hlog : ∀ conn, (f conn).sendLog = conn.sendLog) (hids : KeepsIds f) :
    g.Silent (g.modify c f) := by
  refine ⟨online_of_same h (g.sameTables_modify c hids), fun d => .inl ?_⟩
  exact accepted_of_sendLog (g.untouched_modify c d hlog hids).sendLog

theorem sendLog_start (c : TcpConnection) : c.start.sendLog = c.sendLog := by
  rw [TcpConnection.start, TcpConnection.postRead]
  split <;> rfl

/-- A kick takes entries away and closes the connection; nothing is written. -/
theorem silent_kickConnection (g : Gate) (c : ConnPtr) : g.Silent (g.kickConnection c).1 := by
  refine ⟨?_, fun d => .inl (accepted_of_sendLog (g.sendLog_kickConnection c d))⟩
  rintro p n ⟨d, hd, hnet⟩
  rw [(g.netId_kickConnection c d).1] at hnet
  refine ⟨d, ?_, hnet⟩
  by_cases hnone : (g.conn c).netId < 0 ∨ g.connMap[(g.conn c).netId]? = none
  · rw [kickConnection_none hnone] at hd
    exact hd
  · obtain ⟨hpos, hsome⟩ := not_or.mp hnone
    obtain ⟨t, ht⟩ := Option.ne_none_iff_exists'.mp hsome
    obtain ⟨-, -, hplayer, -⟩ := kickConnection_spec (Int32.not_lt.mp hpos) ht
    exact ((hplayer p d).mp hd).1

/-- The check only closes connections. -/
theorem silent_checkHeartBeat (h : g.Tables) (tmp : ℤ) : g.Silent (g.checkHeartBeat tmp) := by
  obtain ⟨hconn, -, hplayer⟩ := checkHeartBeat_spec h.keyed tmp
  refine ⟨?_, fun d => .inl (accepted_of_sendLog ?_)⟩
  · rintro p n ⟨d, hd, hnet⟩
    rw [(ids_checkHeartBeat h tmp d).1] at hnet
    exact ⟨d, ((hplayer p d).mp hd).1, hnet⟩
  · rw [hconn]
    split <;> rfl

/-- The accepted connection gets a net id, but no player yet. -/
theorem silent_handleAccept (h : g.Tables) (err : ErrorCode) (now : ℤ) :
    g.Silent (g.handleAccept err now) := by
  by_cases herr : err = .success
  · subst herr
    obtain ⟨-, hplayer, hconn, -⟩ := handleAccept_spec h now
    refine ⟨?_, fun d => ?_⟩
    · rintro p n ⟨c, hc, hnet⟩
      rw [hplayer] at hc
      obtain ⟨-, -, hlt, hne⟩ := h.playerEntry hc
      rw [hconn c hlt hne] at hnet
      exact ⟨c, hc, hnet⟩
    · rw [conn_handleAccept]
      split
      · exact .inr rfl
      · split
        · rename_i heq
          rw [heq]
          exact .inl (accepted_of_sendLog (sendLog_start _))
        · exact .inl rfl
  · have hclose := silent_modify (f := TcpConnection.close) h g.nextConn (fun _ => rfl)
      keepsIds_close
    have hsame := (g.sameTables_modify g.nextConn keepsIds_close).trans
      (sameTables_create (g.modify g.nextConn TcpConnection.close) now 0)
    rw [handleAccept, if_pos herr]
    refine ⟨fun hon => online_of_same h hsame hon, fun d => ?_⟩
    have hcreate : ((g.modify g.nextConn TcpConnection.close).create now 0).conn d =
        if d = g.next then (TcpConnection.create now).setNetId 0
        else (g.modify g.nextConn TcpConnection.close).conn d := conn_create ..
    change ((((g.modify g.nextConn TcpConnection.close).create now 0).conn d).accepted = _ ∨
      (((g.modify g.nextConn TcpConnection.close).create now 0).conn d).accepted = _)
    rw [hcreate]
    split
    · exact .inr rfl
    · exact hclose.accepted d

theorem fields_connect (g : Gate) (resolved : Bool) (c : ConnPtr) :
    (g.connect resolved c).next = g.next ∧ (g.connect resolved c).nextConn = g.nextConn ∧
      (g.connect resolved c).accountConn = g.accountConn ∧
      (g.connect resolved c).gameConn = g.gameConn := by
  rw [connect]
  split <;> exact ⟨rfl, rfl, rfl, rfl⟩

/-- `g'` is `g` with one more connection, of a negative net id, that has sent nothing. -/
structure Makes (g g' : Gate) : Prop where
  /-- the tables and the other connections' ids -/
  same : g.SameTables g'
  /-- one more -/
  next : g'.next = g.next + 1
  /-- the other connections -/
  old : ∀ d, d ≠ g.next → g'.conn d = g.conn d
  /-- the new one's net id -/
  netId : (g'.conn g.next).netId < 0
  /-- the new one's log -/
  accepted : (g'.conn g.next).accepted = []

/-- Connecting to a server makes a connection with the net id of that server, which is negative
and in no table. -/
theorem makes_connect {g₁ : Gate} {now : ℤ} {netId : Int32} (hneg : netId < 0) (resolved : Bool)
    (hsame : g.SameTables g₁) (hnext : g₁.next = g.next + 1)
    (hconn : g₁.conn = (g.create now netId).conn) : g.Makes (g₁.connect resolved g.next) := by
  have hnew : g₁.conn g.next = (TcpConnection.create now).setNetId netId := by
    rw [hconn, conn_create, if_pos rfl]
  refine ⟨hsame.trans (g₁.sameTables_connect resolved g.next), ?_, fun d hd => ?_, ?_, ?_⟩
  · rw [(g₁.fields_connect resolved g.next).1, hnext]
  · have hold : g₁.conn d = g.conn d := by rw [hconn, conn_create, if_neg hd]
    rw [connect]
    split
    · rw [conn_modify, if_neg hd, hold]
    · exact hold
  · rw [connect]
    split
    · rw [conn_modify, if_pos rfl, hnew]
      exact hneg
    · rw [hnew]
      exact hneg
  · rw [connect]
    split
    · rw [conn_modify, if_pos rfl, hnew]
      rfl
    · rw [hnew]
      rfl

/-- The new connection has no player and no frames. -/
theorem Makes.silent (hm : g.Makes g') (h : g.Tables) : g.Silent g' := by
  refine ⟨online_of_same h hm.same, fun d => ?_⟩
  by_cases hd : d = g.next
  · rw [hd]
    exact .inr hm.accepted
  · rw [hm.old d hd]
    exact .inl rfl

/-- One of the two pointers leads to the new connection. -/
theorem Makes.upstream (hm : g.Makes g') (h : g.Tables) (hu : g.Upstream)
    (hptr : (g'.accountConn = g.next ∧ g'.gameConn = g.gameConn) ∨
      (g'.accountConn = g.accountConn ∧ g'.gameConn = g.next)) : g'.Upstream := by
  have hnew : g.next < g'.next ∧ g.next ≠ g'.nextConn ∧ (g'.conn g.next).netId < 0 := by
    refine ⟨?_, ?_, hm.netId⟩
    · rw [hm.next]
      exact Nat.lt_succ_self _
    · rw [hm.same.nextConn]
      exact (Nat.ne_of_lt h.nextConn_lt).symm
  have hold : ∀ {d}, d < g.next ∧ d ≠ g.nextConn ∧ (g.conn d).netId < 0 →
      d < g'.next ∧ d ≠ g'.nextConn ∧ (g'.conn d).netId < 0 := by
    rintro d ⟨hlt, hne, hneg⟩
    rw [hm.next, hm.same.nextConn, hm.old d (Nat.ne_of_lt hlt)]
    exact ⟨Nat.lt_succ_of_lt hlt, hne, hneg⟩
  obtain ⟨haccount, hgame⟩ | ⟨haccount, hgame⟩ := hptr
  · refine ⟨?_, haccount ▸ hnew, hgame ▸ hold hu.game⟩
    rw [haccount, hgame]
    exact (Nat.ne_of_lt hu.game.1).symm
  · refine ⟨?_, haccount ▸ hold hu.account, hgame ▸ hnew⟩
    rw [haccount, hgame]
    exact Nat.ne_of_lt hu.account.1

/-- A new connection to the account server. -/
theorem connectToAccountSvr_spec (h : g.Tables) (hu : g.Upstream) (now : ℤ) (resolved : Bool) :
    (g.connectToAccountSvr now resolved).Tables ∧ (g.connectToAccountSvr now resolved).Upstream ∧
      g.Silent (g.connectToAccountSvr now resolved) := by
  have hcreate := g.sameTables_create now (-2)
  have hm : g.Makes (g.connectToAccountSvr now resolved) :=
    makes_connect (by decide) resolved
      ⟨hcreate.1, hcreate.2, hcreate.3, hcreate.4, hcreate.5, hcreate.6⟩ rfl rfl
  exact ⟨h.of_same hm.same,
    hm.upstream h hu (.inl (fields_connect _ resolved g.next).2.2), hm.silent h⟩

/-- A new connection to the game server. -/
theorem connectToGameSvr_spec (h : g.Tables) (hu : g.Upstream) (now : ℤ) (resolved : Bool) :
    (g.connectToGameSvr now resolved).Tables ∧ (g.connectToGameSvr now resolved).Upstream ∧
      g.Silent (g.connectToGameSvr now resolved) := by
  have hcreate := g.sameTables_create now (-1)
  have hm : g.Makes (g.connectToGameSvr now resolved) :=
    makes_connect (by decide) resolved
      ⟨hcreate.1, hcreate.2, hcreate.3, hcreate.4, hcreate.5, hcreate.6⟩ rfl rfl
  exact ⟨h.of_same hm.same,
    hm.upstream h hu (.inr (fields_connect _ resolved g.next).2.2), hm.silent h⟩

/-- A server connection that is not open is replaced by a new one. -/
theorem checkServerAlive_spec (h : g.Tables) (hu : g.Upstream) (now : ℤ) (resolved : Bool) :
    (g.checkServerAlive now resolved).Tables ∧ (g.checkServerAlive now resolved).Upstream ∧
      g.Silent (g.checkServerAlive now resolved) := by
  have hsecond : ∀ {g : Gate}, g.Tables → g.Upstream →
      let g' := if (g.conn g.gameConn).socket.isOpen then g else g.connectToGameSvr now resolved
      g'.Tables ∧ g'.Upstream ∧ g.Silent g' := by
    intro g h hu
    dsimp only
    split
    · exact ⟨h, hu, .refl g⟩
    · exact connectToGameSvr_spec h hu now resolved
  rw [checkServerAlive]
  split
  · exact hsecond h hu
  · obtain ⟨h', hu', hs⟩ := connectToAccountSvr_spec h hu now resolved
    obtain ⟨h'', hu'', hs'⟩ := hsecond h' hu'
    exact ⟨h'', hu'', hs.trans hs'⟩

theorem upstream_checkHeartBeat (h : g.Tables) (hu : g.Upstream) (tmp : ℤ) :
    (g.checkHeartBeat tmp).Upstream := hu.of_bypasses (bypasses_checkHeartBeat h tmp)

/-- **The timer** sends nothing and lets nobody in: it closes connections and connects to the
servers again. -/
theorem update_spec (h : g.Tables) (hu : g.Upstream) (tmp : ℤ) (resolved : Bool) :
    (g.update tmp resolved).Upstream ∧ g.Silent (g.update tmp resolved) := by
  rw [update]
  split
  · have htime : ({ g with systemTime := tmp } : Gate).Tables :=
      ⟨h.connEntry, h.playerEntry, h.nextConn_lt, h.holder⟩
    have hup : ({ g with systemTime := tmp } : Gate).Upstream := ⟨hu.ne, hu.account, hu.game⟩
    have hset : g.Silent { g with systemTime := tmp } := ⟨fun hon => hon, fun _ => .inl rfl⟩
    obtain ⟨h', hu', hs⟩ := checkServerAlive_spec htime hup tmp resolved
    exact ⟨upstream_checkHeartBeat h' hu' tmp,
      (hset.trans hs).trans (silent_checkHeartBeat h' tmp)⟩
  · exact ⟨hu, .refl g⟩

/-- A failed accept closes the waiting connection and makes another. -/
theorem upstream_handleAccept (h : g.Tables) (hu : g.Upstream) (err : ErrorCode) (now : ℤ) :
    (g.handleAccept err now).Upstream := by
  by_cases herr : err = .success
  · subst herr
    exact hu.of_bypasses (bypasses_handleAccept h hu now)
  · have hconn : ∀ d, d < g.next → d ≠ g.nextConn →
        ((g.modify g.nextConn TcpConnection.close).create now 0).conn d = g.conn d := by
      intro d hd hne
      have hfresh : d ≠ (g.modify g.nextConn TcpConnection.close).next := Nat.ne_of_lt hd
      rw [conn_create, if_neg hfresh, conn_modify, if_neg hne]
    obtain ⟨hne, ⟨halt, hawait, hanet⟩, ⟨hglt, hgwait, hgnet⟩⟩ := hu
    rw [← hconn _ halt hawait] at hanet
    rw [← hconn _ hglt hgwait] at hgnet
    rw [handleAccept, if_pos herr]
    exact ⟨hne, ⟨Nat.lt_succ_of_lt halt, Nat.ne_of_lt halt, hanet⟩, Nat.lt_succ_of_lt hglt,
      Nat.ne_of_lt hglt, hgnet⟩

/-- **What the network and the timer make the gate do**: nobody comes online by it, and
nothing is sent. -/
theorem outside_spec (o : ByteOrder) (h : g.Tables) (hu : g.Upstream) {op : GateOp}
    (hop : op.outside = true) : (g.step o op).Upstream ∧ g.Silent (g.step o op) := by
  have hmodify : ∀ (c : ConnPtr) {f : TcpConnection → TcpConnection},
      (∀ conn, (f conn).sendLog = conn.sendLog) → KeepsIds f →
      (g.modify c f).Upstream ∧ g.Silent (g.modify c f) := by
    intro c f hlog hids
    exact ⟨hu.of_bypasses (g.bypasses_modify c hlog hids), silent_modify h c hlog hids⟩
  cases op with
  | accept err now => exact ⟨upstream_handleAccept h hu err now, silent_handleAccept h err now⟩
  | connect c err =>
    rw [step, handleConnect]
    split
    · exact hmodify c (fun _ => rfl) keepsIds_close
    · exact hmodify c sendLog_start keepsIds_start
  | kick c =>
    refine ⟨hu.of_bypasses ?_, g.silent_kickConnection c⟩
    have hsame : ∀ d, Untouched g (g.kickConnection c).1 d :=
      fun d => ⟨g.sendLog_kickConnection c d, (g.netId_kickConnection c d).1⟩
    rw [step]
    refine ⟨?_, ?_, ?_, .inl ?_, hsame _, hsame _⟩ <;> rw [kickConnection_frame]
  | update tmp resolved => exact update_spec h hu tmp resolved
  | closed c => exact hmodify c (fun _ => rfl) keepsIds_close
  | written c err writeSome =>
    refine hmodify c (fun conn => ?_) (keepsIds_handleWrite err writeSome)
    rw [conn.handleWrite_frame err writeSome]
  | login | checkHeartBeat | sendToPlayer | sendToGameSvr | sendToAccountSvr | heard => cases hop

/-! ## Frames at the gate -/

/-- From `g` to `g'` only the players in `new` have come online, and what connections have
accepted is in `sent`. -/
structure Adds (g g' : Gate) (new : Int32 → Int32 → Prop) (sent : ConnPtr → Packet → Prop) :
    Prop where
  /-- the players -/
  online : ∀ {p n : Int32}, g'.Online p n → g.Online p n ∨ new p n
  /-- the frames -/
  accepted : ∀ d, Extends (sent d) (g.conn d) (g'.conn d)

/-- Nothing is added whatever was allowed. -/
theorem Silent.adds (h : g.Silent g') {new : Int32 → Int32 → Prop}
    {sent : ConnPtr → Packet → Prop} : g.Adds g' new sent := by
  refine ⟨fun hon => .inl (h.online hon), fun d => ?_⟩
  rcases h.accepted d with heq | hnil
  · exact extends_of_accepted heq
  · exact .inl hnil

/-- What is sent after a step that has sent nothing. -/
theorem Adds.after {g'' : Gate} {new : Int32 → Int32 → Prop} {sent sent' : ConnPtr → Packet → Prop}
    (hlog : ∀ d, (g'.conn d).sendLog = (g.conn d).sendLog)
    (hon : ∀ {p n : Int32}, g'.Online p n → g.Online p n ∨ new p n)
    (h : g'.Adds g'' (fun _ _ => False) sent) (himp : ∀ {d p}, sent d p → sent' d p) :
    g.Adds g'' new sent' := by
  refine ⟨fun hon'' => ?_, fun d => ?_⟩
  · rcases h.online hon'' with hon' | hno
    · exact hon hon'
    · exact absurd hno id
  · rcases h.accepted d with hnil | ⟨l, heq, hl⟩
    · exact .inl hnil
    · rw [accepted_of_sendLog (hlog d)] at heq
      exact .inr ⟨l, heq, fun m hm => himp (hl m hm)⟩

/-- A copy of the message is handed to one connection. -/
theorem adds_send (o : ByteOrder) (h : g.Tables) (c : ConnPtr) (msg : NetMessage) :
    g.Adds (g.modify c fun conn => conn.sendSerialized o (copyOf msg)) (fun _ _ => False)
      (fun d p => d = c ∧ p = msg.packet) := by
  have hsame := g.sameTables_modify c (keepsIds_sendSerialized o (copyOf msg))
  refine ⟨fun hon => .inl (online_of_same h hsame hon), fun d => ?_⟩
  rw [conn_modify]
  split
  · rename_i hd
    subst hd
    have hpacket : (copyOf msg).packet = msg.packet := rfl
    exact (extends_sendSerialized o (g.conn d) (copyOf msg)).mono
      fun p hp => ⟨rfl, hp.trans hpacket⟩
  · exact extends_of_accepted rfl

/-- A message goes to the connection that `route` finds, and to no other. -/
theorem adds_sendToPlayer (o : ByteOrder) (h : g.Tables) (msg : NetMessage) :
    g.Adds (g.sendToPlayer o msg) (fun _ _ => False)
      (fun d p => g.route msg.playerId msg.netId = some d ∧ p = msg.packet) := by
  obtain ⟨-, heq⟩ | ⟨t, ht, ⟨-, heq⟩ | ⟨-, heq⟩⟩ := g.sendToPlayer_cases o msg
  · rw [heq]
    exact (Silent.refl g).adds
  · rw [heq]
    exact (g.silent_kickConnection t).adds
  · rw [heq]
    refine Adds.after (fun _ => rfl) (fun hon => .inl hon) (adds_send o h t msg) ?_
    rintro d p ⟨rfl, hp⟩
    exact ⟨ht, hp⟩

/-- A login brings one player online, on the net id of the response. -/
theorem online_onPlayerLogin (h : g.Tables) {p n q m : Int32}
    (hon : (g.onPlayerLogin p n).Online q m) : g.Online q m ∨ (q = p ∧ m = n) := by
  obtain ⟨heq, -⟩ | ⟨-, -, -, c, hc, heq⟩ := g.onPlayerLogin_cases p n
  · rw [heq] at hon
    exact .inl hon
  · rw [heq] at hon
    obtain ⟨d, hd, hnet⟩ := hon
    rw [(g.ids_loggedIn p c d).1] at hnet
    rcases (g.lookup_loggedIn p q c d).mp hd with hold | ⟨hq, -, rfl⟩
    · exact .inl ⟨d, hold, hnet⟩
    · refine .inr ⟨hq, ?_⟩
      rw [← hnet, (h.connEntry hc).1]

/-- What the gate sends when a client's frame `q` arrives on the connection `c`. -/
inductive FromClient (g : Gate) (c : ConnPtr) (q : Packet) : ConnPtr → Packet → Prop where
  /-- it sends the frame on to the account server, with the net id of the connection -/
  | account : inAccountRange q.proto = true →
    FromClient g c q g.accountConn { q with netId := (g.conn c).netId }
  /-- it sends the frame on to the game server -/
  | game : inGameRange q.proto = true →
    FromClient g c q g.gameConn { q with netId := (g.conn c).netId }
  /-- it answers a heartbeat -/
  | heartBeat {d : ConnPtr} : q.proto = playerHeartBeatReq →
    g.route q.playerId (g.conn c).netId = some d →
    FromClient g c q d ⟨playerHeartBeatRsp, q.playerId, (g.conn c).netId, []⟩

/-- **A client's frame** brings nobody online. -/
theorem client_spec (o : ByteOrder) (J : JsonLib) (h : g.Tables) (hu : g.Upstream) {c : ConnPtr}
    (hpos : 0 ≤ (g.conn c).netId) (q : Packet) :
    (g.onRecv o J c q.received).1.Tables ∧ (g.onRecv o J c q.received).1.Upstream ∧
      g.Adds (g.onRecv o J c q.received).1 (fun _ _ => False) (g.FromClient c q) := by
  obtain ⟨htables, hcases⟩ := Traffic.onRecv_cases (o := o) (J := J) h hu c q.received
  refine ⟨htables, ?_⟩
  rcases hcases with ⟨hb, hwhy⟩ | ⟨-, hrange, -, heq⟩ | ⟨-, -, hrange, heq⟩
  · refine ⟨hu.of_bypasses hb, ?_⟩
    rcases hwhy with hneg | ⟨haccount, hgame⟩
    · exact absurd hneg (Int32.not_lt.mpr hpos)
    -- a frame for the gate itself, or for nobody
    rw [onRecv, if_neg (Int32.not_lt.mpr hpos), handleClientMsg]
    have hproto : (q.received.setNetId (g.conn c).netId).proto = q.received.proto := rfl
    dsimp only
    rw [hproto, haccount, hgame]
    split
    · split
      · rename_i hbeat
        have hids := keepsIds_setHeartBeat g.systemTime
        have hlog : ∀ conn : TcpConnection,
            (conn.setHeartBeat g.systemTime).sendLog = conn.sendLog := fun _ => rfl
        refine Adds.after (fun d => (g.untouched_modify c d hlog hids).sendLog)
          (fun hon => .inl ((silent_modify h c hlog hids).online hon))
          (adds_sendToPlayer o (h.of_same (g.sameTables_modify c hids)) _) ?_
        rintro d p ⟨hroute, rfl⟩
        exact .heartBeat hbeat hroute
      · exact (Silent.refl g).adds
    · exact (Silent.refl g).adds
  · rw [heq]
    refine ⟨Traffic.Upstream_modify hu _ _,
      Adds.after (fun _ => rfl) (fun hon => .inl hon) (adds_send o h _ _) ?_⟩
    rintro d p ⟨rfl, rfl⟩
    exact .account hrange
  · rw [heq]
    refine ⟨Traffic.Upstream_modify hu _ _,
      Adds.after (fun _ => rfl) (fun hon => .inl hon) (adds_send o h _ _) ?_⟩
    rintro d p ⟨rfl, rfl⟩
    exact .game hrange

/-- What the gate sends when a frame `q` of a server arrives. -/
inductive FromServer (J : JsonLib) (g : Gate) (q : Packet) : ConnPtr → Packet → Prop where
  /-- it passes the frame on -/
  | relayed {d : ConnPtr} : inAccountRange q.proto = true ∨ inGameRange q.proto = true →
    g.route q.playerId q.netId = some d → FromServer J g q d q
  /-- it puts the player of a login in the frame and passes it on -/
  | login {d : ConnPtr} {p : Int32} : loginOf J q.received = .ok (some p) →
    g.route p q.netId = some d → FromServer J g q d { q with playerId := p }

/-- The frame logs the player in on the net id. -/
def LogsIn (J : JsonLib) (q : Packet) (p n : Int32) : Prop :=
  inAccountRange q.proto = true ∧ loginOf J q.received = .ok (some p) ∧ n = q.netId

/-- **A server's frame** brings nobody online but the player of a login response. The gate
does not look at which server it comes from. -/
theorem server_spec (o : ByteOrder) (J : JsonLib) (h : g.Tables) (hu : g.Upstream) {c : ConnPtr}
    (hneg : (g.conn c).netId < 0) (q : Packet) :
    (g.onRecv o J c q.received).1.Tables ∧ (g.onRecv o J c q.received).1.Upstream ∧
      g.Adds (g.onRecv o J c q.received).1 (LogsIn J q) (g.FromServer J q) := by
  obtain ⟨htables, -⟩ := Traffic.onRecv_cases (o := o) (J := J) h hu c q.received
  refine ⟨htables, ?_⟩
  rw [onRecv, if_pos hneg]
  refine ⟨hu.of_bypasses (bypasses_handleServerMsg o J h hu q.received), ?_⟩
  have hrelay : inAccountRange q.proto = true ∨ inGameRange q.proto = true →
      g.Adds (g.sendToPlayer o q.received) (LogsIn J q) (g.FromServer J q) := by
    intro hrange
    refine Adds.after (fun _ => rfl) (fun hon => .inl hon) (adds_sendToPlayer o h _) ?_
    rintro d p ⟨hroute, rfl⟩
    exact .relayed hrange hroute
  rw [handleServerMsg]
  split
  · exact (Silent.refl g).adds
  · split
    · rename_i haccount
      split
      · exact (Silent.refl g).adds
      · exact hrelay (.inl haccount)
      · rename_i p hlogin
        refine Adds.after (fun d => (g.sendLog_onPlayerLogin p _ d).1) (fun hon => ?_)
          (adds_sendToPlayer o (h.onPlayerLogin p _) _) ?_
        · rcases online_onPlayerLogin h hon with hold | ⟨rfl, hn⟩
          · exact .inl hold
          · exact .inr ⟨haccount, hlogin, hn⟩
        · rintro d x ⟨hroute, rfl⟩
          refine .login hlogin ?_
          rw [← g.route_onPlayerLogin]
          exact hroute
    · split
      · rename_i hgame
        exact hrelay (.inr hgame)
      · exact (Silent.refl g).adds

end Gate

end MyServer
