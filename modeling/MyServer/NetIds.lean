import MyServer.ConnectionManager
import MyServer.GateBeats

/-!
# Net ids of the gate process

The gate process listens twice. `GateServer` numbers its clients with one counter,
`ConnectionManager` numbers the HTTP connections with another, and both begin with zero.
`on_http_req` puts the id of the HTTP connection into the net id of its message for the
game server; `sendToPlayer` looks a net id up among the clients of `GateServer`.

`GateProcess` is the state of both. `separate_always_iff` says when no HTTP connection has
the net id of a client, so that no answer to it can reach that client.
-/

namespace MyServer

/-- A step of the gate process. -/
inductive ProcessOp : Type where
  /-- a step of `GateServer` -/
  | tcp : GateOp → ProcessOp
  /-- a call of `ConnectionManager` -/
  | http : Http.HttpOp → ProcessOp
  /-- `on_http_req`, for a connection and its request -/
  | request : ConnPtr → List (CString × Json) → ProcessOp

/-- The gate process. -/
structure GateProcess : Type where
  /-- `GateServer` -/
  gate : Gate
  /-- `ConnectionManager` -/
  http : Http.Tracker

namespace GateProcess

variable (o : ByteOrder) (L : Http.LexicalCast) (J : JsonLib)

/-- The process at its start. -/
def init (now : ℤ) : GateProcess := ⟨.init now, .init⟩

/-- The connection id of an HTTP connection. -/
def connId (s : GateProcess) (c : ConnPtr) : Int32 := (s.http.mgr.conn c).connId

/-- One step. -/
def step (s : GateProcess) : ProcessOp → GateProcess
  | .tcp op => { s with gate := s.gate.step o op }
  | .http op => { s with http := s.http.step op }
  | .request c reqJson => { s with gate := s.gate.onHttpReq L J (s.connId c) reqJson }

/-- The ids of the live HTTP connections are none of the clients' net ids. -/
structure Separate (s : GateProcess) : Prop where
  /-- every client has another net id -/
  distinct : ∀ {c : ConnPtr}, s.http.live c = true →
    ∀ {n : Int32} {d : ConnPtr}, s.gate.connMap[n]? = some d →
      s.connId c ≠ (s.gate.conn d).netId
  /-- an answer that has the net id of the request, for a player who is not there, is sent
  to nobody -/
  undelivered : ∀ {c : ConnPtr}, s.http.live c = true →
    ∀ (reqJson : List (CString × Json)) (msg : NetMessage),
      msg.netId = (Gate.httpMessage L J (s.connId c) reqJson).netId →
        s.gate.playerMap[msg.playerId]? = none → s.gate.sendToPlayer o msg = s.gate

/-- A client gets a net id that no live HTTP connection has, and an HTTP connection gets an
id that no client has. -/
def SeparateOk (s : GateProcess) : ProcessOp → Prop
  | .tcp op => s.gate.accepts op ≠ none →
      ∀ c, s.http.live c = true → s.connId c ≠ s.gate.netIdHolder
  | .http (.start _) => s.gate.connMap[s.http.mgr.curConnId]? = none
  | .http (.stop _) => True
  | .request _ _ => True

variable {o L J} {s : GateProcess}

/-! ## One step -/

/-- The table has nobody under the id of a live HTTP connection. -/
def Vacant (s : GateProcess) : Prop :=
  ∀ c, s.http.live c = true → s.gate.connMap[s.connId c]? = none

theorem separate_iff (h : s.gate.Tables) : s.Separate o L J ↔ s.Vacant := by
  refine ⟨fun hs c hc => ?_, fun hs => ⟨?_, ?_⟩⟩
  · rw [Option.eq_none_iff_forall_ne_some]
    exact fun d hd => hs.distinct hc hd (h.connEntry hd).1.symm
  · intro c hc n d hd heq
    have hfree := hs c hc
    rw [heq, (h.connEntry hd).1, hd] at hfree
    cases hfree
  · intro c hc _ msg hnet hp
    have hroute : s.gate.route msg.playerId msg.netId = none := by
      rw [Gate.route, hp, hnet]
      exact hs c hc
    rw [Gate.sendToPlayer, hroute]

theorem sameTables_onHttpReq (g : Gate) (connId : Int32) (reqJson : List (CString × Json)) :
    g.SameTables (g.onHttpReq L J connId reqJson) :=
  g.sameTables_modify g.gameConn fun c => by
    rw [TcpConnection.sendMessage_frame]
    exact ⟨rfl, rfl⟩

theorem tables_step (h : s.gate.Tables) (op : ProcessOp) : (s.step o L J op).gate.Tables := by
  cases op with
  | tcp op => exact h.step o op
  | http op => exact h
  | request c reqJson => exact h.of_same (sameTables_onHttpReq s.gate _ reqJson)

/-- A new client is put under the next net id, where nobody is. -/
theorem vacant_accept_iff (h : s.gate.Tables) (hs : s.Vacant) (now : ℤ) :
    (s.step o L J (.tcp (.accept .success now))).Vacant ↔
      ∀ c, s.http.live c = true → s.connId c ≠ s.gate.netIdHolder := by
  obtain ⟨hmap, -⟩ := Gate.handleAccept_spec h now
  refine forall_congr' fun c => imp_congr_right fun hc => ?_
  have hfree := hs c hc
  refine ⟨fun hnext heq => ?_, fun hne => ?_⟩
  · have hentry := (hmap (s.connId c) s.gate.nextConn).mpr (.inr ⟨heq, hfree, rfl⟩)
    cases hnext.symm.trans hentry
  · rw [Option.eq_none_iff_forall_ne_some]
    intro d hd
    rcases (hmap (s.connId c) d).mp hd with hold | ⟨heq, -⟩
    · cases hfree.symm.trans hold
    · exact hne heq

/-- Nobody else is put into the table. -/
theorem Vacant.tcp (h : s.gate.Tables) (hs : s.Vacant) {op : GateOp}
    (hop : s.gate.accepts op = none) : (s.step o L J (.tcp op)).Vacant := by
  intro c hc
  rw [Option.eq_none_iff_forall_ne_some]
  intro d hd
  rcases Gate.entry_of_step o h hd with hold | hacc
  · cases (hs c hc).symm.trans hold
  · cases hop.symm.trans hacc

/-- An HTTP connection takes the next id. -/
theorem vacant_start_iff (hs : s.Vacant) (c : ConnPtr) :
    (s.step o L J (.http (.start c))).Vacant ↔
      s.gate.connMap[s.http.mgr.curConnId]? = none := by
  have hid : ∀ d, (s.step o L J (.http (.start c))).connId d =
      if d = c then s.http.mgr.curConnId else s.connId d := fun d =>
    (s.http.mgr.start_spec c d).1
  refine ⟨fun hnext => ?_, fun hfree d hd => ?_⟩
  · have hnew := hnext c (Http.Tracker.live_start_iff.mpr (.inl rfl))
    rw [hid, if_pos rfl] at hnew
    exact hnew
  · rw [hid]
    split
    · exact hfree
    · rename_i hne
      exact hs d ((Http.Tracker.live_start_iff.mp hd).resolve_left hne)

theorem Vacant.stop (hs : s.Vacant) (n : Int32) : (s.step o L J (.http (.stop n))).Vacant := by
  intro d hd
  have hid : (s.step o L J (.http (.stop n))).connId d = s.connId d :=
    congrArg (fun conn : ConnPtr → Http.Connection => (conn d).connId) (s.http.mgr.stop_frame n).1
  rw [hid]
  exact hs d (Http.Tracker.live_stop_iff.mp hd).1

/-- **Exact step lemma.** -/
theorem vacant_step_iff (h : s.gate.Tables) (hs : s.Vacant) (op : ProcessOp) :
    (s.step o L J op).Vacant ↔ s.SeparateOk op := by
  cases op with
  | tcp op =>
    obtain ⟨now, rfl⟩ | hop := s.gate.accepts_cases op
    · rw [vacant_accept_iff h hs, SeparateOk]
      exact ⟨fun hall _ => hall, fun hall => hall (Option.some_ne_none _)⟩
    · exact iff_of_true (hs.tcp h hop) fun hacc => absurd hop hacc
  | http op =>
    cases op with
    | start c => exact vacant_start_iff hs c
    | stop n => exact iff_of_true (hs.stop n) trivial
  | request c reqJson =>
    refine iff_of_true (fun d hd => ?_) trivial
    have hmap := (sameTables_onHttpReq (L := L) (J := J) s.gate (s.connId c) reqJson).connMap
    exact (congrArg (fun m : Std.TreeMap Int32 ConnPtr => m[s.connId d]?) hmap).trans (hs d hd)

/-! ## Runs -/

variable (o L J)

/-- **A net id names one client.** Over any interleaving of the two listeners, the id of a
live HTTP connection is no client's net id, and an answer to it for a player who is not
there reaches nobody, if and only if every client is given a net id that no live HTTP
connection has, and every HTTP connection an id that no client has. -/
theorem separate_always_iff (now : ℤ) (ops : List ProcessOp) :
    Always (step o L J) (Separate o L J) (init now) ops ↔
      EachStep (step o L J) SeparateOk (init now) ops := by
  have hfree : (init now).Vacant := fun c hc => absurd hc Bool.false_ne_true
  have htables : (init now).gate.Tables := Gate.tables_init now
  refine always_iff_eachStep (I := fun s => s.gate.Tables) (fun s op h => tables_step h op)
    (fun s op h hs => ?_) htables ((separate_iff htables).mpr hfree)
  rw [separate_iff (tables_step h op)]
  exact vacant_step_iff h ((separate_iff h).mp hs) op

/-- A client comes, and then an HTTP connection. -/
def oneOfEach : List ProcessOp := [.tcp (.accept .success 0), .http (.start 0)]

/-- The first client and the first HTTP connection both have the id 0, and an answer to the
HTTP request goes to the client. -/
theorem separate_fails_on_one_of_each :
    let s := runFrom (step .little Http.strictCast plainJson) (init 0) oneOfEach
    s.http.live 0 = true ∧ s.gate.connMap[(0 : Int32)]? = some 0 ∧
      s.connId 0 = (s.gate.conn 0).netId ∧
      s.gate.route 7 (Gate.httpMessage Http.strictCast plainJson (s.connId 0) []).netId = some 0 ∧
      ¬ Always (step .little Http.strictCast plainJson) (Separate .little Http.strictCast plainJson)
        (init 0) oneOfEach := by
  intro s
  have hentry : s.gate.connMap[(0 : Int32)]? = some 0 := by decide
  have hlive : s.http.live 0 = true := by decide
  refine ⟨hlive, hentry, by decide, by decide, fun hall => ?_⟩
  exact hall.last.distinct hlive hentry (by decide)

end GateProcess

end MyServer
