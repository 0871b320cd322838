import MyServer.GateTables

/-!
# Sessions: who is logged in where

`SessionsConsistent` is what the two tables are meant to say: the entry of a player
leads to a connection that carries the player's id and that the table by net id still
holds. Accepting, sending and everything the network does keep it. A login keeps it
unless its connection is already another player's, and a kick keeps it unless it takes
a connection away whose player's entry it leaves behind, which happens for player 0 and
for a kick through a connection with another player id.

The last part is about one login: whether the player's messages go to the connection
the player has just logged in on.
-/

namespace MyServer

namespace Gate

variable {g g' : Gate}

/-- Every player's entry leads to a connection of that player which is still in the table
by net id. -/
def SessionsConsistent (g : Gate) : Prop :=
  ∀ (p : Int32) (c : ConnPtr), g.playerMap[p]? = some c →
    (g.conn c).playerId = p ∧ g.connMap[(g.conn c).netId]? = some c

/-- A kick through `c` finds the entry of the player whose connection it takes away: the
ids agree, and the id is not 0. -/
def KickOk (g : Gate) (c : ConnPtr) : Prop :=
  ∀ t, 0 ≤ (g.conn c).netId → g.connMap[(g.conn c).netId]? = some t →
    g.playerMap[(g.conn t).playerId]? = some t →
      (g.conn c).playerId = (g.conn t).playerId ∧ 0 < (g.conn c).playerId

/-- The connection that logs in is not yet another player's. -/
def LoginOk (g : Gate) (p n : Int32) : Prop :=
  ∀ c, 0 ≤ n → 0 ≤ p → g.connMap[n]? = some c →
    g.playerMap[(g.conn c).playerId]? = some c → (g.conn c).playerId = p

/-- Every connection the heartbeat check kicks may be kicked. -/
def BeatOk (g : Gate) (tmp : ℤ) : Prop :=
  ∀ (n : Int32) (c : ConnPtr), g.connMap[n]? = some c → dead tmp (g.conn c) = true → g.KickOk c

/-- A step after which the sessions are still consistent. -/
def SessionOk (g : Gate) : GateOp → Prop
  | .login p n => g.LoginOk p n
  | .kick c => g.KickOk c
  | .checkHeartBeat tmp => g.BeatOk tmp
  | .update tmp _ => 5000 ≤ (tmp - g.systemTime).tdiv 1000 → g.BeatOk tmp
  | .sendToPlayer msg =>
    ∀ t, g.route msg.playerId msg.netId = some t → (g.conn t).socket.isOpen = false → g.KickOk t
  | _ => True

/-! ## One step -/

theorem consistent_of_same (h : g.Tables) (hs : g.SameTables g') :
    g'.SessionsConsistent ↔ g.SessionsConsistent := by
  rw [SessionsConsistent, SessionsConsistent, hs.playerMap, hs.connMap]
  refine forall_congr' fun p => forall_congr' fun c => imp_congr_right fun hc => ?_
  obtain ⟨-, -, hlt, -⟩ := h.playerEntry hc
  rw [(hs.ids c hlt).1, (hs.ids c hlt).2]

/-- Only the connections of the table count for the heartbeat check. -/
theorem beatOk_of_same (h : g.Tables) (hs : g.SameTables g')
    (hconn : ∀ d < g.next, g'.conn d = g.conn d) (tmp : ℤ) : g'.BeatOk tmp ↔ g.BeatOk tmp := by
  rw [BeatOk, BeatOk, hs.connMap]
  refine forall_congr' fun n => forall_congr' fun c => imp_congr_right fun hc => ?_
  rw [hconn c (h.connEntry hc).2.2.1, KickOk, KickOk, hs.connMap, hs.playerMap,
    hconn c (h.connEntry hc).2.2.1]
  refine imp_congr_right fun _ => forall_congr' fun t => imp_congr_right fun _ =>
    imp_congr_right fun ht => ?_
  rw [hconn t (h.connEntry ht).2.2.1]

theorem consistent_kick_iff (h : g.Tables) (hP : g.SessionsConsistent) (c : ConnPtr) :
    (g.kickConnection c).1.SessionsConsistent ↔ g.KickOk c := by
  by_cases hnone : (g.conn c).netId < 0 ∨ g.connMap[(g.conn c).netId]? = none
  · rw [kickConnection_none hnone]
    refine ⟨fun _ t hpos ht _ => ?_, fun _ => hP⟩
    rcases hnone with hneg | hnone
    · exact absurd hneg (Int32.not_lt.mpr hpos)
    · rw [hnone] at ht
      cases ht
  obtain ⟨hneg, hsome⟩ := not_or.mp hnone
  obtain ⟨t, ht⟩ := Option.ne_none_iff_exists'.mp hsome
  have hpos := Int32.not_lt.mp hneg
  have hnet : (g.conn t).netId = (g.conn c).netId := (h.connEntry ht).1
  obtain ⟨-, hmap, hplayer, -⟩ := kickConnection_spec hpos ht
  have hids := g.netId_kickConnection c
  refine ⟨fun hP' t' _ ht' hentry => ?_, fun hok p d hd => ?_⟩
  · obtain rfl : t = t' := Option.some.inj (ht.symm.trans ht')
    -- an entry that stayed would lead to a connection that is gone
    by_contra hbad
    have hstays := (hplayer (g.conn t).playerId t).mpr
      ⟨hentry, fun hcase => hbad ⟨hcase.2.1.symm, hcase.1⟩⟩
    obtain ⟨-, hback⟩ := hP' _ _ hstays
    rw [(hids t).1, hnet] at hback
    exact ((hmap _ _).mp hback).2 rfl
  · obtain ⟨hold, hkept⟩ := (hplayer p d).mp hd
    obtain ⟨hid, hback⟩ := hP p d hold
    rw [(hids d).1, (hids d).2]
    refine ⟨hid, (hmap _ _).mpr ⟨hback, fun heq => hkept ?_⟩⟩
    rw [heq] at hback
    obtain rfl : t = d := Option.some.inj (ht.symm.trans hback)
    rw [← hid] at hold
    obtain ⟨hsame, hgt⟩ := hok t hpos ht hold
    exact ⟨hgt, hid.symm.trans hsame.symm, heq⟩

theorem consistent_login_iff (h : g.Tables) (hP : g.SessionsConsistent) (p n : Int32) :
    (g.onPlayerLogin p n).SessionsConsistent ↔ g.LoginOk p n := by
  obtain ⟨heq, hwhy⟩ | ⟨hn, hp, -, c, hc, heq⟩ := g.onPlayerLogin_cases p n
  · rw [heq]
    refine ⟨fun _ c hn hp hc _ => ?_, fun _ => hP⟩
    rcases hwhy with hneg | ⟨d, hd, hnet⟩ | hnone
    · rcases hneg with hneg | hneg
      · exact absurd hneg (Int32.not_lt.mpr hn)
      · exact absurd hneg (Int32.not_lt.mpr hp)
    · -- already online here: the entry is the one the table by net id has
      obtain ⟨hid, hback⟩ := hP p d hd
      rw [hnet] at hback
      obtain rfl : c = d := Option.some.inj (hc.symm.trans hback)
      exact hid
    · rw [hnone] at hc
      cases hc
  rw [heq]
  have hids := g.ids_loggedIn p c
  refine ⟨fun hP' c' _ _ hc' hentry => ?_, fun hok q d hd => ?_⟩
  · obtain rfl : c = c' := Option.some.inj (hc.symm.trans hc')
    obtain ⟨hid, -⟩ := hP' _ _ ((g.lookup_loggedIn p _ c c).mpr (.inl hentry))
    rw [(hids c).2, if_pos rfl] at hid
    exact hid.symm
  · rw [(hids d).1, (hids d).2]
    rcases (g.lookup_loggedIn p q c d).mp hd with hold | ⟨rfl, -, rfl⟩
    · obtain ⟨hid, hback⟩ := hP q d hold
      refine ⟨?_, hback⟩
      split
      · rename_i hdc
        subst hdc
        rw [← hid] at hold
        rw [← hok d hn hp hc hold, hid]
      · exact hid
    · rw [if_pos rfl, (h.connEntry hc).1]
      exact ⟨rfl, hc⟩

theorem consistent_beat_iff (h : g.Tables) (hP : g.SessionsConsistent) (tmp : ℤ) :
    (g.checkHeartBeat tmp).SessionsConsistent ↔ g.BeatOk tmp := by
  obtain ⟨-, hmap, hplayer⟩ := checkHeartBeat_spec h.keyed tmp
  have hids := ids_checkHeartBeat h tmp
  refine ⟨fun hP' n c hc hdead t hpos ht hentry => ?_, fun hok p d hd => ?_⟩
  · -- a connection of the table is what the table has under its net id
    rw [(h.connEntry hc).1] at ht
    obtain rfl : c = t := Option.some.inj (hc.symm.trans ht)
    refine ⟨rfl, ?_⟩
    by_contra hle
    have hstays := (hplayer (g.conn c).playerId c).mpr ⟨hentry, fun hcase => hle hcase.1⟩
    obtain ⟨-, hback⟩ := hP' _ _ hstays
    exact ((hmap _ _).mp hback).2 hdead
  · obtain ⟨hold, hkept⟩ := (hplayer p d).mp hd
    obtain ⟨hid, hback⟩ := hP p d hold
    rw [(hids d).1, (hids d).2]
    refine ⟨hid, (hmap _ _).mpr ⟨hback, fun hdead => hkept ?_⟩⟩
    have hpos := (h.playerEntry hold).2.1
    rw [← hid] at hold
    obtain ⟨-, hgt⟩ := hok _ d hback hdead d hpos hback hold
    rw [hid] at hgt
    exact ⟨hgt, d, hback, hdead, hid⟩

theorem consistent_accept (h : g.Tables) (hP : g.SessionsConsistent) (err : ErrorCode) (now : ℤ) :
    (g.handleAccept err now).SessionsConsistent := by
  by_cases herr : err = .success
  · subst herr
    obtain ⟨hmap, hplayer, hconn, -⟩ := handleAccept_spec h now
    intro p c hc
    rw [hplayer] at hc
    obtain ⟨-, -, hlt, hne⟩ := h.playerEntry hc
    rw [hconn c hlt hne]
    exact ⟨(hP p c hc).1, (hmap _ _).mpr (.inl (hP p c hc).2)⟩
  · have hsame := (g.sameTables_modify g.nextConn keepsIds_close).trans
      (sameTables_create (g.modify g.nextConn TcpConnection.close) now 0)
    rw [handleAccept, if_pos herr]
    exact (consistent_of_same h hsame).mpr hP

/-- **Exact step lemma**: a step keeps the sessions consistent exactly when it is
allowed. -/
theorem consistent_step_iff (o : ByteOrder) (h : g.Tables) (hP : g.SessionsConsistent)
    (op : GateOp) : (g.step o op).SessionsConsistent ↔ g.SessionOk op := by
  have hneutral : g.SameTables (g.step o op) →
      ((g.step o op).SessionsConsistent ↔ True) :=
    fun hs => ⟨fun _ => trivial, fun _ => (consistent_of_same h hs).mpr hP⟩
  cases op with
  | accept err now => exact ⟨fun _ => trivial, fun _ => consistent_accept h hP err now⟩
  | login p n => exact consistent_login_iff h hP p n
  | kick c => exact consistent_kick_iff h hP c
  | checkHeartBeat tmp => exact consistent_beat_iff h hP tmp
  | update tmp resolved =>
    rw [step, update, SessionOk]
    by_cases hdue : 5000 ≤ (tmp - g.systemTime).tdiv 1000
    · rw [if_pos hdue]
      have htime : ({ g with systemTime := tmp } : Gate).Tables :=
        ⟨h.connEntry, h.playerEntry, h.nextConn_lt, h.holder⟩
      have hs := sameTables_checkServerAlive { g with systemTime := tmp } tmp resolved
      have hbeat := consistent_beat_iff (htime.of_same hs)
        ((consistent_of_same htime hs).mpr hP) tmp
      have hsame := beatOk_of_same htime hs
        (fun d hd => conn_checkServerAlive { g with systemTime := tmp } tmp resolved hd) tmp
      exact (hbeat.trans hsame).trans ⟨fun hok _ => hok, fun hok => hok hdue⟩
    · rw [if_neg hdue]
      exact ⟨fun _ hd => absurd hd hdue, fun _ => hP⟩
  | sendToPlayer msg =>
    rw [step, SessionOk]
    obtain ⟨hnone, heq⟩ | ⟨t, ht, ⟨hclosed, heq⟩ | ⟨hopen, heq⟩⟩ := g.sendToPlayer_cases o msg
    · rw [heq, hnone]
      exact ⟨fun _ t ht => absurd ht (Option.some_ne_none t).symm, fun _ => hP⟩
    · rw [heq, ht, consistent_kick_iff h hP t]
      refine ⟨fun hok t' ht' _ => ?_, fun hok => hok t rfl hclosed⟩
      obtain rfl : t = t' := Option.some.inj ht'
      exact hok
    · rw [heq, ht]
      refine ⟨fun _ t' ht' hclosed => ?_, fun _ => ?_⟩
      · obtain rfl : t = t' := Option.some.inj ht'
        rw [hopen] at hclosed
        cases hclosed
      · exact (consistent_of_same h
          (g.sameTables_modify t (keepsIds_sendSerialized o _))).mpr hP
  | connect | sendToGameSvr | sendToAccountSvr | heard | closed | written =>
    exact hneutral (g.sameTables_step o _ rfl)

/-! ## Whole runs -/

theorem consistent_init (now : ℤ) : (init now).SessionsConsistent := by
  intro p c hc
  rw [playerMap_init] at hc
  cases hc

/-- **Session tables, exactly.** In every state of a run of the gate, over any order of
accepts, logins with any ids, kicks, heartbeat checks, sends and whatever the network
does, every player's entry leads to a connection of that player still in the table by
net id, if and only if every step of the run is allowed: no login on a connection that
is another player's, and no kick of a connection whose player's entry the kick does not
find. -/
theorem sessionsConsistent_always_iff (o : ByteOrder) (now : ℤ) (ops : List GateOp) :
    Always (step o) SessionsConsistent (init now) ops ↔
      EachStep (step o) SessionOk (init now) ops :=
  always_iff_eachStep (I := Tables) (fun _ op h => h.step o op)
    (fun _ op h hP => consistent_step_iff o h hP op) (tables_init now) (consistent_init now)

/-- A client that logs in as player 5 and then as player 6 leaves the entry of player 5
behind, on a connection that says it is player 6. -/
theorem sessionsConsistent_fails_on_second_login :
    ¬ Always (step .little) SessionsConsistent (init 0)
      [.accept .success 0, .login 5 0, .login 6 0] := by
  intro h
  obtain ⟨hid, -⟩ := h.last 5 0 (by decide)
  exact absurd hid (by decide)

/-! ## One login -/

/-- A step in which nobody logs in and nobody is kicked. -/
def Quiet (g : Gate) : GateOp → Prop
  | .login _ _ => False
  | .kick _ => False
  | .checkHeartBeat tmp =>
    ∀ (n : Int32) (c : ConnPtr), g.connMap[n]? = some c → ¬ dead tmp (g.conn c) = true
  | .update tmp _ => 5000 ≤ (tmp - g.systemTime).tdiv 1000 →
    ∀ (n : Int32) (c : ConnPtr), g.connMap[n]? = some c → ¬ dead tmp (g.conn c) = true
  | .sendToPlayer msg =>
    ∀ t, g.route msg.playerId msg.netId = some t → (g.conn t).socket.isOpen = true
  | _ => True

/-- `sendToPlayer` hands `msg` to `c`, if its socket is still open. -/
def SentTo (o : ByteOrder) (g : Gate) (msg : NetMessage) (c : ConnPtr) : Prop :=
  (g.conn c).socket.isOpen = true →
    g.sendToPlayer o msg = g.modify c fun conn => conn.sendSerialized o (copyOf msg)

/-- **A login takes effect** on the connection `c` that the table has under `n`: the
player's entry leads to `c`; every message for the player goes to `c` until somebody
logs in or is kicked; and so does the login response itself. -/
structure LoginTakesEffect (o : ByteOrder) (J : JsonLib) (g : Gate) (p n : Int32) (c : ConnPtr) :
    Prop where
  /-- the player's entry -/
  entry : (g.onPlayerLogin p n).playerMap[p]? = some c
  /-- later messages for the player -/
  later : ∀ ops, EachStep (step o) Quiet (g.onPlayerLogin p n) ops →
    ∀ msg : NetMessage, msg.playerId = p →
      SentTo o (runFrom (step o) (g.onPlayerLogin p n) ops) msg c
  /-- the login response, as `handleServerMsg` processes it -/
  response : ∀ msg : NetMessage, loginOf J msg = .ok (some p) → msg.netId = n →
    (g.conn c).socket.isOpen = true →
      (g.handleServerMsg o J msg).1 = (g.onPlayerLogin p n).modify c fun conn =>
        conn.sendSerialized o (copyOf (msg.setPlayerId p))

theorem sentTo_of_entry {o : ByteOrder} {msg : NetMessage} {c : ConnPtr}
    (h : g.playerMap[msg.playerId]? = some c) : SentTo o g msg c := by
  intro hopen
  rw [sendToPlayer, route, h]
  simp [hopen]

theorem lookup_checkHeartBeat_quiet (h : g.Tables) {tmp : ℤ}
    (halive : ∀ (n : Int32) (c : ConnPtr), g.connMap[n]? = some c → ¬ dead tmp (g.conn c) = true)
    {p : Int32} {c : ConnPtr} (hc : g.playerMap[p]? = some c) :
    (g.checkHeartBeat tmp).playerMap[p]? = some c := by
  obtain ⟨-, -, hplayer⟩ := checkHeartBeat_spec h.keyed tmp
  refine (hplayer p c).mpr ⟨hc, ?_⟩
  rintro ⟨-, d, hd, hdead, -⟩
  exact halive _ d hd hdead

/-- A quiet step keeps a player's entry. -/
theorem lookup_step_quiet (o : ByteOrder) (h : g.Tables) {op : GateOp} (hq : g.Quiet op)
    {p : Int32} {c : ConnPtr} (hc : g.playerMap[p]? = some c) :
    (g.step o op).playerMap[p]? = some c := by
  have hneutral : g.SameTables (g.step o op) → (g.step o op).playerMap[p]? = some c := by
    intro hs
    rw [hs.playerMap]
    exact hc
  cases op with
  | accept err now =>
    rw [step, handleAccept]
    split <;> exact hc
  | login p n => exact hq.elim
  | kick c => exact hq.elim
  | checkHeartBeat tmp => exact lookup_checkHeartBeat_quiet h hq hc
  | update tmp resolved =>
    rw [step, update]
    split
    · rename_i hdue
      have htime : ({ g with systemTime := tmp } : Gate).Tables :=
        ⟨h.connEntry, h.playerEntry, h.nextConn_lt, h.holder⟩
      have hs := sameTables_checkServerAlive { g with systemTime := tmp } tmp resolved
      refine lookup_checkHeartBeat_quiet (htime.of_same hs) (fun n d hd => ?_) ?_
      · rw [hs.connMap] at hd
        rw [conn_checkServerAlive _ tmp resolved (htime.connEntry hd).2.2.1]
        exact hq hdue n d hd
      · rw [hs.playerMap]
        exact hc
    · exact hc
  | sendToPlayer msg =>
    rw [step]
    obtain ⟨-, heq⟩ | ⟨t, ht, ⟨hclosed, heq⟩ | ⟨-, heq⟩⟩ := g.sendToPlayer_cases o msg
    · rw [heq]
      exact hc
    · rw [hq t ht] at hclosed
      cases hclosed
    · rw [heq]
      exact hc
  | connect | sendToGameSvr | sendToAccountSvr | heard | closed | written =>
    exact hneutral (g.sameTables_step o _ rfl)

/-- Over a quiet run. -/
theorem lookup_run_quiet (o : ByteOrder) (h : g.Tables) {ops : List GateOp}
    (hq : EachStep (step o) Quiet g ops) {p : Int32} {c : ConnPtr}
    (hc : g.playerMap[p]? = some c) : (runFrom (step o) g ops).playerMap[p]? = some c := by
  have hall : Always (step o) (fun g => g.Tables ∧ g.playerMap[p]? = some c) g ops :=
    always_of_eachStep (fun _ _ hg hq => ⟨hg.1.step o _, lookup_step_quiet o hg.1 hq hg.2⟩)
      ⟨h, hc⟩ hq
  exact hall.last.2

/-- A successful login response is a message with that protocol id. -/
theorem proto_of_loginOf {J : JsonLib} {msg : NetMessage} {p : Int32}
    (h : loginOf J msg = .ok (some p)) : msg.proto = playerLoginRsp := by
  rw [loginOf] at h
  split at h
  · cases h
  · by_contra hne
    rw [if_pos hne] at h
    cases h

/-- After a login the player's entry is the one there was, or else the connection the
table has under the net id. -/
theorem entry_onPlayerLogin_iff {p n : Int32} (hp : 0 ≤ p) (hn : 0 ≤ n)
    {c : ConnPtr} (hc : g.connMap[n]? = some c) :
    (g.onPlayerLogin p n).playerMap[p]? = some c ↔ ∀ d, g.playerMap[p]? = some d → d = c := by
  obtain ⟨heq, hwhy⟩ | ⟨-, -, -, c', hc', heq⟩ := g.onPlayerLogin_cases p n
  · rw [heq]
    refine ⟨fun hentry d hd => Option.some.inj (hd.symm.trans hentry), fun hsame => ?_⟩
    rcases hwhy with (hneg | hneg) | ⟨d, hd, -⟩ | hnone
    · exact absurd hneg (Int32.not_lt.mpr hn)
    · exact absurd hneg (Int32.not_lt.mpr hp)
    · rw [hd, hsame d hd]
    · rw [hnone] at hc
      cases hc
  · obtain rfl : c = c' := Option.some.inj (hc.symm.trans hc')
    rw [heq, lookup_loggedIn]
    refine ⟨?_, fun hsame => ?_⟩
    · rintro (hentry | ⟨-, hnone, -⟩) d hd
      · exact Option.some.inj (hd.symm.trans hentry)
      · rw [hnone] at hd
        cases hd
    · rcases hlook : g.playerMap[p]? with _ | d
      · exact .inr ⟨rfl, rfl, rfl⟩
      · rw [hsame d hlook]
        exact .inl rfl

theorem socket_onPlayerLogin (g : Gate) (p n : Int32) (c : ConnPtr) :
    ((g.onPlayerLogin p n).conn c).socket = (g.conn c).socket := by
  obtain ⟨heq, -⟩ | ⟨-, -, -, c', -, heq⟩ := g.onPlayerLogin_cases p n
  · rw [heq]
  · have hconn := g.conn_modify c' c fun conn => (conn.setPlayerId p).setHeartBeat g.systemTime
    rw [heq]
    refine (congrArg TcpConnection.socket hconn).trans ?_
    split
    · rename_i hcc
      subst hcc
      rfl
    · rfl

/-- **Login, exactly.** In every state the gate can reach, for a player id and a net id
that are not negative and a connection in the table, a login takes effect if and only if
the player had no entry yet, or one that leads to that very connection already. -/
theorem loginTakesEffect_iff (o : ByteOrder) (J : JsonLib) (now : ℤ) (ops : List GateOp)
    {p n : Int32} (hp : 0 ≤ p) (hn : 0 ≤ n) {c : ConnPtr}
    (hc : (runFrom (step o) (init now) ops).connMap[n]? = some c) :
    LoginTakesEffect o J (runFrom (step o) (init now) ops) p n c ↔
      ∀ d, (runFrom (step o) (init now) ops).playerMap[p]? = some d → d = c := by
  have h := tables_run o now ops
  set g := runFrom (step o) (init now) ops
  refine ⟨fun heff => (entry_onPlayerLogin_iff hp hn hc).mp heff.entry, fun hsame => ?_⟩
  have hentry := (entry_onPlayerLogin_iff hp hn hc).mpr hsame
  refine ⟨hentry, fun later hq msg hmsg => ?_, fun msg hlogin hnet hopen => ?_⟩
  · refine sentTo_of_entry ?_
    rw [hmsg]
    exact lookup_run_quiet o (h.onPlayerLogin p n) hq hentry
  · -- the response is an account message: login first, then `sendToPlayer`
    have hproto := proto_of_loginOf hlogin
    have hgate : inGateRange msg.proto = false := by
      rw [hproto]
      decide
    have haccount : inAccountRange msg.proto = true := by
      rw [hproto]
      decide
    have hsend : SentTo o (g.onPlayerLogin p n) (msg.setPlayerId p) c := sentTo_of_entry hentry
    rw [handleServerMsg, hgate, haccount, hlogin, hnet]
    refine hsend ?_
    rw [socket_onPlayerLogin]
    exact hopen

/-- The first login of player 5, on the first connection. -/
theorem loginTakesEffect_first :
    LoginTakesEffect .little plainJson
      (runFrom (step .little) (init 0) [.accept .success 0]) 5 0 0 :=
  (loginTakesEffect_iff .little plainJson 0 [.accept .success 0]
    (p := 5) (n := 0) (by decide) (by decide) (c := 0) (by decide)).mpr
    fun d hd => by
      have hnone : (runFrom (step .little) (init 0) [.accept .success 0]).playerMap[(5 : Int32)]? =
          none := by decide
      rw [hnone] at hd
      cases hd

/-- Player 5 logs in on connection 0 and then on connection 1: the entry still leads to
the object of connection 0, and that is where the response of the second login goes. -/
theorem loginTakesEffect_fails_on_second_connection :
    let g := runFrom (step .little) (init 0)
      [.accept .success 0, .accept .success 0, .login 5 0]
    g.connMap[(1 : Int32)]? = some 3 ∧ (g.onPlayerLogin 5 1).playerMap[(5 : Int32)]? ≠ some 3 ∧
      (g.onPlayerLogin 5 1).route 5 1 = some 0 := by
  decide

end Gate

end MyServer
