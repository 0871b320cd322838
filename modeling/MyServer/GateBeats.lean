import MyServer.GateBooks

/-!
# Heartbeats

When a heartbeat check may kick a client. A check looks at the heartbeat of a connection,
which is the system time of the last login or heartbeat request, and before the first one
the time when the object was made. That is not when its client came: `handle_accept` makes
the object for the next client, who may take long.

`Beats` is the gate with the times that matter. `evictions_iff` says when every client that
a check kicks has been there for more than 180 seconds.
-/

namespace MyServer

/-- The change keeps the heartbeat. -/
def KeepsBeat (f : TcpConnection → TcpConnection) : Prop := ∀ c, (f c).heartBeat = c.heartBeat

theorem keepsBeat_close : KeepsBeat TcpConnection.close := fun _ => rfl

theorem keepsBeat_start : KeepsBeat TcpConnection.start := by
  intro c
  rw [TcpConnection.start, TcpConnection.postRead]
  split <;> rfl

theorem keepsBeat_handleWrite (err : ErrorCode) (writeSome : ℕ → ℕ) :
    KeepsBeat fun c => c.handleWrite err writeSome := by
  intro c
  dsimp only
  rw [c.handleWrite_frame err writeSome]

theorem keepsBeat_sendSerialized (o : ByteOrder) (msg : NetMessage) :
    KeepsBeat fun c => c.sendSerialized o msg := by
  intro c
  dsimp only [TcpConnection.sendSerialized]
  split
  · rw [TcpConnection.sendMessage_frame]
  · rfl

namespace Gate

variable {g : Gate}

/-- The connection whose heartbeat a step sets to the system time. -/
def beats (g : Gate) : GateOp → Option ConnPtr
  | .heard c => some c
  | .login playerId netId =>
    if netId < 0 ∨ playerId < 0 then none
    else if g.playerMap[playerId]?.any fun c => (g.conn c).netId = netId then none
    else g.connMap[netId]?
  | _ => none

/-- `total_seconds() > 180` -/
theorem dead_iff {tmp : ℤ} {conn : TcpConnection} :
    dead tmp conn = true ↔ 181000000 ≤ tmp - conn.heartBeat := by
  rw [dead, decide_eq_true_eq]
  rcases le_or_gt 0 (tmp - conn.heartBeat) with hpos | hneg
  · rw [Int.tdiv_eq_ediv_of_nonneg hpos]
    omega
  · have hdiv : (tmp - conn.heartBeat).tdiv 1000000 = -(-(tmp - conn.heartBeat) / 1000000) := by
      rw [← Int.tdiv_eq_ediv_of_nonneg (by omega), Int.neg_tdiv, neg_neg]
    omega

theorem heartBeat_modify (g : Gate) (c d : ConnPtr) {f : TcpConnection → TcpConnection}
    (hf : KeepsBeat f) : ((g.modify c f).conn d).heartBeat = (g.conn d).heartBeat := by
  rw [conn_modify]
  split
  · rename_i heq
    rw [heq, hf]
  · rfl

/-- The check reads the times of the heartbeats and closes connections; it sets none. -/
theorem heartBeat_checkHeartBeat (h : g.Tables) (tmp : ℤ) (d : ConnPtr) :
    ((g.checkHeartBeat tmp).conn d).heartBeat = (g.conn d).heartBeat := by
  rw [(checkHeartBeat_spec h.keyed tmp).1]
  split <;> rfl

theorem heartBeat_handleAccept (g : Gate) (err : ErrorCode) (now : ℤ) {d : ConnPtr}
    (hd : d < g.next) : ((g.handleAccept err now).conn d).heartBeat = (g.conn d).heartBeat := by
  by_cases herr : err = .success
  · subst herr
    rw [conn_handleAccept, if_neg (Nat.ne_of_lt hd)]
    split
    · rename_i heq
      rw [keepsBeat_start, heq]
      rfl
    · rfl
  · rw [handleAccept, if_pos herr]
    refine (congrArg TcpConnection.heartBeat (conn_create _ now 0 d)).trans ?_
    change (if d = g.next then _ else _ : TcpConnection).heartBeat = _
    rw [if_neg (Nat.ne_of_lt hd)]
    exact g.heartBeat_modify g.nextConn d keepsBeat_close

/-- A login counts as a heartbeat of the connection it is for. -/
theorem heartBeat_onPlayerLogin (g : Gate) (p n : Int32) (d : ConnPtr) :
    ((g.onPlayerLogin p n).conn d).heartBeat =
      if g.beats (.login p n) = some d then g.systemTime else (g.conn d).heartBeat := by
  rw [onPlayerLogin, beats]
  by_cases hneg : n < 0 ∨ p < 0
  · rw [if_pos hneg, if_pos hneg]
    rfl
  rw [if_neg hneg, if_neg hneg]
  by_cases honline : (g.playerMap[p]?.any fun c => (g.conn c).netId = n) = true
  · rw [if_pos honline, if_pos honline]
    rfl
  rw [if_neg honline, if_neg honline]
  rcases g.connMap[n]? with _ | c
  · rfl
  · change ((g.loggedIn p c).conn d).heartBeat = _
    rw [conn_loggedIn]
    by_cases hc : d = c
    · subst hc
      rw [if_pos rfl, if_pos rfl]
      rfl
    · rw [if_neg hc, if_neg fun h => hc (Option.some.inj h).symm]

/-- **Heartbeats change by logins and heartbeat requests only.** -/
theorem heartBeat_step (o : ByteOrder) (h : g.Tables) (op : GateOp) {d : ConnPtr}
    (hd : d < g.next) :
    ((g.step o op).conn d).heartBeat =
      if g.beats op = some d then g.systemTime else (g.conn d).heartBeat := by
  cases op with
  | accept err now => exact g.heartBeat_handleAccept err now hd
  | connect c err =>
    change ((g.handleConnect c err).conn d).heartBeat = (g.conn d).heartBeat
    rw [handleConnect]
    split
    · exact g.heartBeat_modify c d keepsBeat_close
    · exact g.heartBeat_modify c d keepsBeat_start
  | login p n => exact g.heartBeat_onPlayerLogin p n d
  | kick c => exact g.heartBeat_kickConnection c d
  | checkHeartBeat tmp => exact heartBeat_checkHeartBeat h tmp d
  | update tmp resolved =>
    change ((g.update tmp resolved).conn d).heartBeat = (g.conn d).heartBeat
    by_cases hdue : 5000 ≤ (tmp - g.systemTime).tdiv 1000
    · have hsame := g.sameTables_refreshed tmp resolved
      rw [update_of_due hdue, heartBeat_checkHeartBeat (h.of_same hsame),
        g.conn_refreshed tmp resolved hd]
    · rw [update, if_neg hdue]
  | sendToPlayer msg =>
    change ((g.sendToPlayer o msg).conn d).heartBeat = (g.conn d).heartBeat
    obtain ⟨-, heq⟩ | ⟨t, -, ⟨-, heq⟩ | ⟨-, heq⟩⟩ := g.sendToPlayer_cases o msg
    · rw [heq]
    · rw [heq]
      exact g.heartBeat_kickConnection t d
    · rw [heq]
      exact g.heartBeat_modify t d (keepsBeat_sendSerialized o _)
  | sendToGameSvr msg => exact g.heartBeat_modify _ d (keepsBeat_sendSerialized o _)
  | sendToAccountSvr msg => exact g.heartBeat_modify _ d (keepsBeat_sendSerialized o _)
  | heard c =>
    rw [step, conn_modify, beats]
    by_cases hc : d = c
    · subst hc
      rw [if_pos rfl, if_pos rfl]
      rfl
    · rw [if_neg hc, if_neg fun h => hc (Option.some.inj h).symm]
  | closed c => exact g.heartBeat_modify c d keepsBeat_close
  | written c err writeSome => exact g.heartBeat_modify c d (keepsBeat_handleWrite err writeSome)

/-- An accept makes the object for the next client. -/
theorem heartBeat_next_handleAccept (g : Gate) (err : ErrorCode) (now : ℤ) :
    (g.handleAccept err now).nextConn = g.next ∧
      ((g.handleAccept err now).conn g.next).heartBeat = now := by
  by_cases herr : err = .success
  · subst herr
    refine ⟨rfl, ?_⟩
    rw [conn_handleAccept, if_pos rfl]
    rfl
  · rw [handleAccept, if_pos herr]
    refine ⟨rfl, (congrArg TcpConnection.heartBeat (conn_create _ now 0 g.next)).trans ?_⟩
    change (if g.next = g.next then _ else _ : TcpConnection).heartBeat = now
    rw [if_pos rfl]
    rfl

/-- Nothing else does. -/
theorem nextConn_step (o : ByteOrder) {op : GateOp} (h : ∀ err now, op ≠ .accept err now) :
    (g.step o op).nextConn = g.nextConn := by
  have hbeat : ∀ (g : Gate) (tmp : ℤ), (g.checkHeartBeat tmp).nextConn = g.nextConn := by
    intro g tmp
    have hframe := beat_frame tmp g.connMap.toList g
    change g.checkHeartBeat tmp = _ at hframe
    rw [hframe]
  cases op with
  | accept err now => exact absurd rfl (h err now)
  | login p n =>
    rw [step]
    obtain ⟨heq, -⟩ | ⟨-, -, -, c, -, heq⟩ := g.onPlayerLogin_cases p n
    · rw [heq]
    · rw [heq]
      rfl
  | kick c => rw [step, kickConnection_frame]
  | checkHeartBeat tmp => exact hbeat g tmp
  | update tmp resolved =>
    rw [step]
    by_cases hdue : 5000 ≤ (tmp - g.systemTime).tdiv 1000
    · rw [update_of_due hdue, hbeat]
      exact (g.sameTables_refreshed tmp resolved).nextConn
    · rw [update, if_neg hdue]
  | sendToPlayer msg =>
    rw [step]
    obtain ⟨-, heq⟩ | ⟨t, -, ⟨-, heq⟩ | ⟨-, heq⟩⟩ := g.sendToPlayer_cases o msg
    · rw [heq]
    · rw [heq, kickConnection_frame]
    · rw [heq]
      rfl
  | connect | sendToGameSvr | sendToAccountSvr | heard | closed | written =>
    exact (g.sameTables_step o _ rfl).nextConn

theorem accepts_cases (g : Gate) (op : GateOp) :
    (∃ now, op = .accept .success now) ∨ g.accepts op = none := by
  cases op with
  | accept err now =>
    cases err with
    | success => exact .inl ⟨now, rfl⟩
    | eof | other => exact .inr rfl
  | _ => exact .inr rfl

/-- Only the waiting connection can be accepted. -/
theorem eq_nextConn_of_accepts {op : GateOp} {c : ConnPtr} (h : g.accepts op = some c) :
    c = g.nextConn := by
  obtain ⟨now, rfl⟩ | hnone := g.accepts_cases op
  · exact (Option.some.inj h).symm
  · cases hnone.symm.trans h

/-- An entry is an old one, or that of the client that is accepted. -/
theorem entry_of_step (o : ByteOrder) (h : g.Tables) {op : GateOp} {n : Int32} {c : ConnPtr}
    (hc : (g.step o op).connMap[n]? = some c) :
    g.connMap[n]? = some c ∨ g.accepts op = some c := by
  obtain ⟨now, rfl⟩ | ⟨d, -, -, -, heq⟩ | ⟨tmp, -, -, -, hchecked⟩ | ⟨-, -, -, hsame⟩ :=
    step_cases o h op
  · rcases ((handleAccept_spec h now).1 n c).mp hc with hold | ⟨-, -, rfl⟩
    · exact .inl hold
    · exact .inr rfl
  · rw [heq, lookup_kickConnection h] at hc
    exact .inl hc.1
  · exact .inl ((hchecked.lookup n c).mp hc).1
  · rw [hsame.connMap] at hc
    exact .inl hc

end Gate

/-! ## The times -/

/-- The gate, and when things happened. -/
structure Beats : Type where
  /-- the gate -/
  gate : Gate
  /-- when a connection object was made -/
  createdAt : ConnPtr → ℤ
  /-- when its client was accepted -/
  acceptedAt : ConnPtr → ℤ
  /-- the system time of its last login or heartbeat request -/
  heardAt : ConnPtr → Option ℤ

namespace Beats

/-- A gate that starts at `now`. -/
def init (now : ℤ) : Beats := ⟨.init now, fun _ => now, fun _ => now, fun _ => none⟩

/-- One step of the gate. -/
def step (o : ByteOrder) (s : Beats) (op : GateOp) : Beats where
  gate := s.gate.step o op
  createdAt :=
    match op with
    | .accept _ now => Function.update s.createdAt s.gate.next now
    | _ => s.createdAt
  acceptedAt :=
    match op with
    | .accept .success now => Function.update s.acceptedAt s.gate.nextConn now
    | _ => s.acceptedAt
  heardAt :=
    match op with
    | .accept _ _ => Function.update s.heardAt s.gate.next none
    | op => fun c => if s.gate.beats op = some c then some s.gate.systemTime else s.heardAt c

/-- The last sign of life of a connection: its last login or heartbeat request, or else the
making of the object. -/
def lastBeat (s : Beats) (c : ConnPtr) : ℤ := (s.heardAt c).getD (s.createdAt c)

/-- A heartbeat check kicks only clients that were accepted more than 180 seconds ago. -/
def NotPremature (s : Beats) (op : GateOp) : Prop :=
  ∀ tmp, s.gate.checkTime op = some tmp →
    ∀ c ∈ s.gate.evicted op, 180000000 < tmp - s.acceptedAt c

/-- At a heartbeat check, the last sign of life of a client that was accepted in the last
180 seconds is less than 181 seconds old. -/
def InTime (s : Beats) (op : GateOp) : Prop :=
  ∀ tmp, s.gate.checkTime op = some tmp →
    ∀ (n : Int32) (c : ConnPtr), s.gate.connMap[n]? = some c →
      tmp - s.acceptedAt c ≤ 180000000 → tmp - s.lastBeat c < 181000000

/-- What the times say of the connections that are or will be in the table. -/
structure Timed (s : Beats) : Prop where
  /-- the tables are well formed -/
  tables : s.gate.Tables
  /-- the heartbeat of the waiting connection -/
  nextConn : (s.gate.conn s.gate.nextConn).heartBeat = s.lastBeat s.gate.nextConn
  /-- the heartbeats of the clients -/
  entry : ∀ {n : Int32} {c : ConnPtr}, s.gate.connMap[n]? = some c →
    (s.gate.conn c).heartBeat = s.lastBeat c

variable {s : Beats}

theorem timed_init (now : ℤ) : (init now).Timed := by
  refine ⟨Gate.tables_init now, rfl, fun {n c} hc => ?_⟩
  rw [init, Gate.connMap_init] at hc
  cases hc

/-- The times follow the heartbeats. -/
theorem lastBeat_step (o : ByteOrder) (s : Beats) (op : GateOp) {c : ConnPtr}
    (hc : c < s.gate.next) : (s.step o op).lastBeat c =
      if s.gate.beats op = some c then s.gate.systemTime else s.lastBeat c := by
  cases op with
  | accept err now =>
    have hne := Nat.ne_of_lt hc
    simp [lastBeat, step, Gate.beats, hne]
  | _ =>
    simp only [lastBeat, step]
    split <;> rfl

/-- A connection that was there has the time of its last heartbeat; the one that is made for the
next client has the time at which it is made. -/
theorem Timed.step (h : s.Timed) (o : ByteOrder) (op : GateOp) : (s.step o op).Timed := by
  have hkeep : ∀ c < s.gate.next, (s.gate.conn c).heartBeat = s.lastBeat c →
      ((s.step o op).gate.conn c).heartBeat = (s.step o op).lastBeat c := by
    intro c hc heq
    rw [lastBeat_step o s op hc, ← heq]
    exact Gate.heartBeat_step o h.tables op hc
  have hwait := hkeep s.gate.nextConn h.tables.nextConn_lt h.nextConn
  refine ⟨h.tables.step o op, ?_, fun {n c} hc => ?_⟩
  · by_cases hop : ∃ err now, op = .accept err now
    · obtain ⟨err, now, rfl⟩ := hop
      obtain ⟨hnext, hbeat⟩ := s.gate.heartBeat_next_handleAccept err now
      have hlast : (s.step o (.accept err now)).lastBeat s.gate.next = now := by
        simp [lastBeat, Beats.step]
      change ((s.gate.handleAccept err now).conn (s.gate.handleAccept err now).nextConn).heartBeat =
        (s.step o (.accept err now)).lastBeat (s.gate.handleAccept err now).nextConn
      rw [hnext, hbeat, hlast]
    · have hsame : (s.step o op).gate.nextConn = s.gate.nextConn :=
        Gate.nextConn_step o fun err now heq => hop ⟨err, now, heq⟩
      rw [hsame]
      exact hwait
  · rcases Gate.entry_of_step o h.tables hc with hold | hnew
    · exact hkeep c (h.tables.connEntry hold).2.2.1 (h.entry hold)
    · rw [Gate.eq_nextConn_of_accepts hnew]
      exact hwait

/-- **Exact step lemma**: a check kicks nobody too early exactly when the young clients gave
a sign of life. -/
theorem notPremature_iff (h : s.Timed) (op : GateOp) : s.NotPremature op ↔ s.InTime op := by
  refine forall_congr' fun tmp => imp_congr_right fun htime => ⟨fun hearly n c hc hyoung => ?_, ?_⟩
  · -- a client that gave none is kicked
    by_contra hold
    have hnet := (h.tables.connEntry hc).1
    have hdead : Gate.dead tmp (s.gate.conn c) = true := by
      rw [Gate.dead_iff, h.entry hc]
      exact not_lt.mp hold
    have hentry : s.gate.connMap[(s.gate.conn c).netId]? = some c := by
      rw [hnet]
      exact hc
    have hlate := hearly c (h.tables.mem_evicted_iff.mpr ⟨tmp, htime, hentry, hdead⟩)
    omega
  · intro hintime c hc
    obtain ⟨tmp', htime', hentry, hdead⟩ := h.tables.mem_evicted_iff.mp hc
    obtain rfl : tmp = tmp' := Option.some.inj (htime.symm.trans htime')
    rw [Gate.dead_iff, h.entry hentry] at hdead
    by_contra hyoung
    have hbeat := hintime _ c hentry (not_lt.mp hyoung)
    omega

/-- **No premature eviction, exactly.** At whatever times clients come, log in and send
heartbeats, every client that a heartbeat check kicks was accepted more than 180 seconds
before, if and only if at every check each client accepted in the last 180 seconds gave a
sign of life in the last 181: it logged in or sent a heartbeat, or its object was made,
which the accept before it does. -/
theorem evictions_iff (o : ByteOrder) (now : ℤ) (ops : List GateOp) :
    EachStep (step o) NotPremature (init now) ops ↔ EachStep (step o) InTime (init now) ops :=
  eachStep_congr (I := Timed) (fun _ op h => h.step o op) (fun _ op h => notPremature_iff h op)
    (timed_init now) ops

/-- The first client comes 200 seconds after the start, and the next check, at the same
time, kicks it. -/
theorem evictions_fail_on_late_client :
    ¬ EachStep (step .little) NotPremature (init 0)
      [.accept .success 200000000, .update 200000000 true] := by
  rintro ⟨-, hearly, -⟩
  exact absurd (hearly 200000000 (by decide) 0 (by decide +kernel)) (by decide)

end Beats

end MyServer
