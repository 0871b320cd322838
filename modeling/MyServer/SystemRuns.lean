import MyServer.AccountLogin
import MyServer.GateSessions
import MyServer.PlayerStore
import MyServer.System

/-!
# Logins and answers in the whole system

What holds in every run of the gate and the servers behind it, whatever the clients send and
whatever becomes of the frames between the processes, as long as each is read whole.

* `online_authentic` — a player is online on a net id only if a client with that net id sent the
  credentials of the player's account and the account server found them right.
* `frames_solicited` — whatever the gate sends is a client's frame sent on, or the answer to one.
* `login_completes` — a login in whose way nothing stands goes through.

The first two follow a fact back through the events that brought it about, from the gate to the
server, to the gate, to the client (`Caused`).
-/

namespace MyServer

namespace System

variable {o : ByteOrder} {J : JsonLib} {M : MongoLib} {s : System}

/-! ## Runs -/

section

variable (o J M) (now : ℤ) (as : List Account) (w : Players)

/-- The state after these events. -/
def run (es : List SystemEvent) : System := runFrom (step o J M) (init now as w) es

theorem wired_run (es : List SystemEvent) : (run o J M now as w es).Wired := by
  have hinit : (init now as w).Wired :=
    ⟨Gate.tables_init now, Traffic.upstream_init now, fun _ hr => absurd hr List.not_mem_nil,
      fun _ hx => absurd hx List.not_mem_nil⟩
  have hall : Always (step o J M) Wired (init now as w) es :=
    always_of_step (fun _ e hw => hw.step e) hinit es
  exact hall.last

theorem tabled_run (hstd : StandardJson J M) (es : List SystemEvent) :
    (run o J M now as w es).Tabled := by
  have hall : Always (step o J M) Tabled (init now as w) es :=
    always_of_step (fun _ e h => tabled_step hstd h e) ⟨as, rfl⟩ es
  exact hall.last

variable {o J M now as w}

theorem caused_run {P : System → Prop} {Q : List SystemEvent → SystemEvent → Prop}
    (hfirst : ¬ P (init now as w))
    (hstep : ∀ pre e, P ((run o J M now as w pre).step o J M e) →
      P (run o J M now as w pre) ∨ Q pre e)
    {es : List SystemEvent} (h : P (run o J M now as w es)) : Caused Q es :=
  caused_of_step hfirst hstep es h

/-- What is on its way to the account server was sent by a client. -/
theorem caused_toAccount {es : List SystemEvent} {x : Packet}
    (hx : x ∈ (run o J M now as w es).toAccount) :
    Caused (fun pre e => (run o J M now as w pre).Sends e x) es := by
  refine caused_run (P := fun s => x ∈ s.toAccount) List.not_mem_nil (fun pre e h => ?_) hx
  exact toAccount_step (wired_run o J M now as w pre) h

/-- What is on its way to the game server was sent by a client. -/
theorem caused_toGame {es : List SystemEvent} {x : Packet}
    (hx : x ∈ (run o J M now as w es).toGame) :
    Caused (fun pre e => (run o J M now as w pre).Sends e x) es := by
  refine caused_run (P := fun s => x ∈ s.toGame) List.not_mem_nil (fun pre e h => ?_) hx
  exact toGame_step (wired_run o J M now as w pre) h

end

/-! ## Who is online -/

/-- An answer with these numbers. One next to the smallest `int` is a `double`, as it was read from
the database. -/
def numbers (ns : List Int32) : Json := .reply (ns.map fun n => Reader.demote (.int n))

/-- The numbers of an answer can be read at the other end. -/
def ReadsAnswers (J : JsonLib) : Prop :=
  ∀ ns : List Int32, ∃ vs, J.parse (tighten (J.toStyledString (numbers ns))) =
    some (Json.reply vs) ∧ vs.map Json.asInt = ns.map .ok

/-- The gate reads a login out of an answer that begins with 0 and the player's id. -/
theorem answer_of_loginOf (hr : ReadsAnswers J) (ns : List Int32) {x : Packet} {p : Int32}
    (hmsg : x.message = tighten (J.toStyledString (numbers ns)))
    (h : Gate.loginOf J x.received = .ok (some p)) :
    ns[0]?.getD 0 = 0 ∧ ns[1]?.getD 0 = p := by
  obtain ⟨vs, hparse, hvs⟩ := hr ns
  have hproto := Gate.proto_of_loginOf h
  have hindex : ∀ i : ℕ, Json.asInt (vs[i]?.getD .null) = .ok (ns[i]?.getD 0) := by
    intro i
    have hi : (vs.map Json.asInt)[i]? = (ns.map Except.ok)[i]? := by rw [hvs]
    rw [List.getElem?_map, List.getElem?_map] at hi
    rcases hv : vs[i]? with _ | v
    · rcases hn : ns[i]? with _ | n
      · rfl
      · rw [hv, hn] at hi
        cases hi
    · rcases hn : ns[i]? with _ | n
      · rw [hv, hn] at hi
        cases hi
      · rw [hv, hn] at hi
        exact Option.some.inj hi
  have hread : J.parse x.received.message = some (Json.reply vs) := by
    rw [← hparse, ← hmsg]
    rfl
  have hmember : (Json.reply vs).member Json.msgKey = .ok (.arr vs) := rfl
  rw [Gate.loginOf, hread] at h
  dsimp only at h
  rw [if_neg (not_not.mpr hproto), hmember] at h
  simp only [Json.index, bind, Except.bind, hindex] at h
  split at h
  · rename_i hzero
    refine ⟨hzero, ?_⟩
    cases h
    rfl
  · cases h

/-- The request is a login with the credentials of the account. -/
def Matches (J : JsonLib) (x : Packet) (a : Account) : Prop :=
  x.proto = playerLoginReq ∧ ∃ req name pass, bodyOf J x.received = some req ∧
    AccountMgr.credentials req = .ok (some (name, pass)) ∧ a.userName = name.squeeze true ∧
    a.userPass = pass

/-- The request arrives at the account server, which stores the account it matches. -/
def Checks (J : JsonLib) (s : System) (e : SystemEvent) (x : Packet) (a : Account) : Prop :=
  (∃ i env, e = .toAccount i env ∧ s.toAccount[i]? = some x) ∧
    (∃ as : List Account, s.account.world = as.map Account.document ∧ a ∈ as) ∧ Matches J x a

/-- A login response of the account server answers a request that matches the account. -/
theorem matches_of_logsIn (hstd : StandardJson J M) (hr : ReadsAnswers J) {env : Env}
    {as : List Account} {x y : Packet} {p n : Int32}
    (hreply : Replies J (AccountMgr.registFunc J M env) (as.map Account.document) x y)
    (hlogin : Gate.LogsIn J y p n) : n = x.netId ∧ ∃ a ∈ as, a.playerId = p ∧ Matches J x a := by
  obtain ⟨-, hlogin, rfl⟩ := hlogin
  have hproto : y.proto = playerLoginRsp := Gate.proto_of_loginOf hlogin
  have hblank : NetMessage.blank.packet.proto ≠ playerLoginRsp := by decide
  have hregist : playerRegistRsp ≠ playerLoginRsp := by decide
  obtain rfl | ⟨req, r, rsp, hbody, hfirst, hrun, rfl⟩ := hreply
  · exact absurd hproto hblank
  refine ⟨rfl, ?_⟩
  obtain ⟨hreg, hid⟩ := firstFor_eq_some hfirst
  simp only [AccountMgr.registFunc, List.mem_cons, List.not_mem_nil, or_false] at hreg
  rcases hreg with rfl | rfl
  · exact absurd hproto hregist
  -- the login handler, and what it answers
  change (AccountMgr.loginAnswer J M env (as.map Account.document) req) = _ at hrun
  have hrefused : ∀ n : Int32, n ≠ 0 → rsp = numbers [n] → False := by
    intro n hn hrsp
    exact hn (answer_of_loginOf hr [n] (congrArg (tighten ∘ J.toStyledString) hrsp) hlogin).1
  rcases hcred : AccountMgr.credentials req with fault | _ | ⟨name, pass⟩
  · rw [AccountMgr.loginAnswer, hcred] at hrun
    cases hrun
  · rw [AccountMgr.loginAnswer, hcred] at hrun
    cases hrun
    exact absurd rfl (hrefused (-1) (by decide))
  · rw [AccountMgr.loginAnswer_eq hstd env hcred, Account.login] at hrun
    rcases hfound : Account.found env name as with _ | a
    · rw [hfound] at hrun
      cases hrun
      exact absurd rfl (hrefused 1 (by decide))
    · rw [hfound] at hrun
      dsimp only at hrun
      split at hrun
      · rename_i hpass
        cases hrun
        obtain ⟨-, hp⟩ := answer_of_loginOf hr [0, a.playerId] rfl hlogin
        rw [Account.found] at hfound
        split at hfound
        · cases hfound
        · obtain ⟨hmem, hname⟩ := Account.lookup_eq_some hfound
          exact ⟨a, hmem, hp, hid.symm, req, name, pass, hbody, hcred, hname, hpass⟩
      · cases hrun
        exact absurd rfl (hrefused (-1) (by decide))

/-- **Who is online has shown the password.** Whatever the clients send, and however whole frames
are lost, repeated or reordered between the gate and the servers: when a player is online on a net
id, then the account server has found, in a request, the name and the password of an account
with this player id, and that request was sent by a client whose connection had this net id. -/
theorem online_authentic (hstd : StandardJson J M) (hr : ReadsAnswers J) (now : ℤ)
    (as : List Account) (w : Players) (es : List SystemEvent) {p n : Int32}
    (hon : (run o J M now as w es).gate.Online p n) :
    ∃ x a, x.netId = n ∧ a.playerId = p ∧
      Caused (fun pre e => Checks J (run o J M now as w pre) e x a ∧
        Caused (fun pre' e' => (run o J M now as w pre').Sends e' x) pre) es := by
  have hfirst : ¬ (init now as w).gate.Online p n := by
    rintro ⟨c, hc, -⟩
    have hnone : (init now as w).gate.playerMap[p]? = none := Gate.playerMap_init now p
    rw [hnone] at hc
    cases hc
  -- back from the entry to the response, to the request, to the client
  obtain ⟨pre, e, hpre, i, y, rfl, hy, hlogin⟩ :=
    caused_run (P := fun s => s.gate.Online p n)
      (Q := fun pre e => Admits J (run o J M now as w pre) e p n) hfirst
      (fun pre e h => (gateStep (wired_run o J M now as w pre) e).adds.online h) hon
  obtain ⟨pre', e', hpre', i', env, x, rfl, hx, hreply⟩ :=
    caused_run (P := fun s => y ∈ s.fromAccount)
      (Q := fun pre e => ∃ i env q, e = .toAccount i env ∧
        (run o J M now as w pre).toAccount[i]? = some q ∧
        Replies J (AccountMgr.registFunc J M env) (run o J M now as w pre).account.world q y)
      List.not_mem_nil (fun pre e h => fromAccount_step h) (List.mem_of_getElem? hy)
  obtain ⟨as', has'⟩ := tabled_run o J M now as w hstd pre'
  rw [has'] at hreply
  obtain ⟨hn, a, ha, hp, hmatch⟩ := matches_of_logsIn hstd hr hreply hlogin
  have hle : pre' ++ [.toAccount i' env] <+: es :=
    hpre'.trans ((List.prefix_append pre _).trans hpre)
  exact ⟨x, a, hn.symm, hp, pre', _, hle, ⟨⟨i', env, rfl, hx⟩, ⟨as', has', ha⟩, hmatch⟩,
    caused_toAccount (List.mem_of_getElem? hx)⟩

/-- The account of the user `b` with the password `a`. -/
def accountB : Account :=
  ⟨⟨⟨List.replicate 24 50, by decide⟩, by decide⟩, 2, 0, AccountMgr.userB, AccountMgr.userA⟩

/-- A login to the account of the user `a`. -/
def loginA : Packet :=
  ⟨playerLoginReq, 0, 0, tighten (wholeJson.toStyledString
    (AccountMgr.body AccountMgr.userA AccountMgr.userB))⟩

/-- The system with two accounts, after these events. -/
def runA (es : List SystemEvent) : System :=
  run .little wholeJson wholeMongo 0 [accountB, accountA] ⟨.create, []⟩ es

/-- Two clients connect. -/
def connected : List SystemEvent := [.gate (.accept .success 0), .gate (.accept .success 0)]

/-- The second one logs in. -/
def loginEvents : List SystemEvent :=
  connected ++ [.client 3 loginA, .toAccount 0 AccountMgr.calmEnv, .fromAccount 0]

/-! ### What jsoncpp makes of an answer -/

theorem squeezeItems_numbers (f : Bool) (ns : List Int32) :
    Json.squeezeItems f (ns.map fun n => Reader.demote (.int n)) =
      ns.map fun n => Reader.demote (.int n) := by
  induction ns generalizing f with
  | nil => rfl
  | cons n ns ih =>
    have hsame : Json.squeezeJson f (Reader.demote (.int n)) = Reader.demote (.int n) := by
      rw [Reader.demote]
      split_ifs <;> rfl
    rw [List.map_cons, Json.squeezeItems, ih, hsame]

theorem rereadItems_numbers (say : ℚ → Json) (ns : List Int32) :
    Reader.demoteItems (Json.rereadItems say (ns.map fun n => Reader.demote (.int n))) =
      ns.map fun n => Reader.demote (Json.reread say (Reader.demote (.int n))) := by
  induction ns with
  | nil => rfl
  | cons n ns ih => rw [List.map_cons, Json.rereadItems, Reader.demoteItems, ih, List.map_cons]

/-- **`Json::Reader` reads the numbers of an answer**, if the text of a whole `double` is read as
that number. -/
theorem readsAnswers_jsoncpp {scan : List UInt8 → Option ℚ} {realText : ℚ → List UInt8}
    {say : ℚ → Json} (S : Reader.NumberText scan realText say)
    (hexact : ∀ n : Int32, (say n.toInt).asInt = .ok n) :
    ReadsAnswers (Reader.jsoncpp scan realText) := by
  intro ns
  refine ⟨ns.map fun n => Reader.demote (Json.reread say (Reader.demote (.int n))), ?_, ?_⟩
  · have hkey : Json.msgKey.squeeze true = Json.msgKey := by decide
    refine (Reader.jsoncpp_parse (S.parse_tighten (numbers ns))).trans ?_
    rw [numbers, Json.reply, Json.squeezeJson, Json.squeezeObject, Bool.not_false, hkey,
      Json.squeezeJson, squeezeItems_numbers, ← rereadItems_numbers]
    rfl
  · rw [List.map_map]
    refine List.map_congr_left fun n _ => ?_
    by_cases hroom : -2147483640 < n.toInt
    · have hint : Reader.demote (.int n) = .int n := if_pos hroom
      simp only [Function.comp_apply, hint, Json.reread, Json.asInt]
    · have hreal : Reader.demote (.int n) = .real n.toInt := if_neg hroom
      simp only [Function.comp_apply, hreal, Json.reread, S.kept, hexact]

theorem readsAnswers_whole : ReadsAnswers wholeJson := by
  refine readsAnswers_jsoncpp Reader.doubleText_whole.numberText fun n => ?_
  have hge : -2 ^ 31 ≤ (n.toInt : ℚ) := by exact_mod_cast n.le_toInt
  have hle : (n.toInt : ℚ) ≤ 2 ^ 31 - 1 := by exact_mod_cast Int.le_sub_one_of_lt n.toInt_lt
  rw [Json.whole_toInt, Json.asInt, if_pos ⟨hge, hle⟩]
  simp

/-- The client that logged in is online. -/
theorem online_authentic_second :
    (runA loginEvents).gate.Online 1 1 ∧
      ∃ x a, x.netId = 1 ∧ a.playerId = 1 ∧
        Caused (fun pre e => Checks wholeJson (runA pre) e x a ∧
          Caused (fun pre' e' => (runA pre').Sends e' x) pre) loginEvents := by
  have hentry : (runA loginEvents).gate.playerMap[(1 : Int32)]? = some 3 := by decide +kernel
  have hnet : ((runA loginEvents).gate.conn 3).netId = 1 := by decide +kernel
  have hon : (runA loginEvents).gate.Online 1 1 := ⟨3, hentry, hnet⟩
  exact ⟨hon, online_authentic standardJson_whole readsAnswers_whole 0 [accountB, accountA]
    ⟨.create, []⟩ loginEvents hon⟩

/-! ## What the gate sends -/

/-- The requests of the clients, and what answers them. -/
def exchanges : List (Int32 × Int32) :=
  [(playerHeartBeatReq, playerHeartBeatRsp), (playerRegistReq, playerRegistRsp),
    (playerLoginReq, playerLoginRsp), (playerCreateRoleReq, playerCreateRoleRsp),
    (playerEnterGameReq, playerEnterGameRsp)]

/-- `y` answers `x`: it goes to the same net id, and names the same player unless it is a login
response. -/
def Answers (x y : Packet) : Prop :=
  (x.proto, y.proto) ∈ exchanges ∧ y.netId = x.netId ∧
    (y.playerId = x.playerId ∨ y.proto = playerLoginRsp)

/-- A server replies with an answer, or with the empty response. -/
theorem answers_of_replies {σ : Type} {regs : List (Registration σ)} {w : σ} {x y : Packet}
    (hregs : ∀ r ∈ regs, (r.requestId, r.responseId) ∈ exchanges) (h : Replies J regs w x y) :
    y.proto = 0 ∨ Answers x y := by
  obtain rfl | ⟨req, r, rsp, -, hfirst, -, rfl⟩ := h
  · exact .inl rfl
  · obtain ⟨hr, hid⟩ := firstFor_eq_some hfirst
    refine .inr ⟨?_, rfl, .inl rfl⟩
    rw [← hid]
    exact hregs r hr

/-- In this event a client sends what `y` answers. -/
def Asks (s : System) (e : SystemEvent) (y : Packet) : Prop := ∃ x, s.Sends e x ∧ Answers x y

variable {now : ℤ} {as : List Account} {w : Players} {es : List SystemEvent}

/-- What the account server has sent answers a client. -/
theorem caused_fromAccount {y : Packet} (hy : y ∈ (run o J M now as w es).fromAccount)
    (hproto : y.proto ≠ 0) :
    Caused (fun pre e => (run o J M now as w pre).Asks e y) es := by
  obtain ⟨pre, e, hpre, i, env, x, -, hx, hreply⟩ :=
    caused_run (P := fun s => y ∈ s.fromAccount)
      (Q := fun pre e => ∃ i env q, e = .toAccount i env ∧
        (run o J M now as w pre).toAccount[i]? = some q ∧
        Replies J (AccountMgr.registFunc J M env) (run o J M now as w pre).account.world q y)
      List.not_mem_nil (fun pre e h => fromAccount_step h) hy
  have hregs : ∀ r ∈ AccountMgr.registFunc J M env, (r.requestId, r.responseId) ∈ exchanges := by
    simp [AccountMgr.registFunc, exchanges]
  have hans := (answers_of_replies hregs hreply).resolve_left hproto
  have hsent := (caused_toAccount (List.mem_of_getElem? hx)).extend
    ((List.prefix_append pre [e]).trans hpre)
  exact hsent.imp fun _ _ h => ⟨x, h, hans⟩

/-- What the game server has sent answers a client. -/
theorem caused_fromGame {y : Packet} (hy : y ∈ (run o J M now as w es).fromGame)
    (hproto : y.proto ≠ 0) :
    Caused (fun pre e => (run o J M now as w pre).Asks e y) es := by
  obtain ⟨pre, e, hpre, env, x, -, hx, hreply⟩ :=
    caused_run (P := fun s => y ∈ s.fromGame)
      (Q := fun pre e => ∃ env q, e = .tick env ∧ q ∈ (run o J M now as w pre).toGame ∧
        Replies J (Players.regFunc J M env) (run o J M now as w pre).game.world q y)
      List.not_mem_nil (fun pre e h => fromGame_step (wired_run o J M now as w pre) h) hy
  have hregs : ∀ r ∈ Players.regFunc J M env, (r.requestId, r.responseId) ∈ exchanges := by
    simp [Players.regFunc, exchanges]
  have hans := (answers_of_replies hregs hreply).resolve_left hproto
  have hsent := (caused_toGame hx).extend ((List.prefix_append pre [e]).trans hpre)
  exact hsent.imp fun _ _ h => ⟨x, h, hans⟩

theorem accepted_init (d : ConnPtr) : ((init now as w).gate.conn d).accepted = [] := by
  simp only [init, Gate.init, Gate.connectToAccountSvr, Gate.connectToGameSvr, Gate.connect,
    Gate.create, Gate.modify, if_true, Function.update_apply]
  split_ifs <;> rfl

end System

namespace Gate

/-- The connection is the one of the frame's player, or the one of its net id. -/
def Leads (g : Gate) (x : Packet) (d : ConnPtr) : Prop :=
  g.playerMap[x.playerId]? = some d ∨ g.connMap[x.netId]? = some d

theorem leads_of_route {g : Gate} {x : Packet} {d : ConnPtr}
    (h : g.route x.playerId x.netId = some d) : g.Leads x d :=
  (route_eq_some.mp h).imp_right And.right

/-- A server's frame that is passed on is not the empty response, and keeps its protocol and its
net id. -/
theorem fromServer_cases {J : JsonLib} {g : Gate} {y m : Packet} {d : ConnPtr}
    (h : g.FromServer J y d m) : g.Leads m d ∧ y.proto ≠ 0 ∧ m.proto = y.proto ∧
      m.netId = y.netId ∧ (m.playerId = y.playerId ∨ m.proto = playerLoginRsp) := by
  have haccount : inAccountRange 0 = false := by decide
  have hgame : inGameRange 0 = false := by decide
  have hlogin : playerLoginRsp ≠ 0 := by decide
  cases h with
  | relayed hrange hroute =>
    refine ⟨leads_of_route hroute, fun hzero => ?_, rfl, rfl, .inl rfl⟩
    rw [hzero, haccount, hgame] at hrange
    rcases hrange with h | h <;> cases h
  | login hof hroute =>
    have hproto : y.proto = playerLoginRsp := proto_of_loginOf hof
    refine ⟨leads_of_route hroute, ?_, rfl, rfl, .inr hproto⟩
    rw [hproto]
    exact hlogin

end Gate

namespace System

variable {o : ByteOrder} {J : JsonLib} {M : MongoLib}

theorem Answers.passed_on {x y m : Packet} (h : Answers x y) (hproto : m.proto = y.proto)
    (hnet : m.netId = y.netId) (hplayer : m.playerId = y.playerId ∨ m.proto = playerLoginRsp) :
    Answers x m := by
  obtain ⟨hex, hxnet, hxplayer⟩ := h
  refine ⟨hproto ▸ hex, hnet.trans hxnet, ?_⟩
  rcases hplayer with heq | hlogin
  · rw [heq, hproto]
    exact hxplayer
  · exact .inr hlogin

/-- **Nobody is sent anything unasked.** Whatever the clients send, and however whole frames are
lost, repeated or reordered between the gate and the servers: a frame that a connection of the gate
has accepted is a client's frame on its way to a server, or it answers a frame that a client sent
before, and the connection is the one of the player it names or the one that asked. -/
theorem frames_solicited (o : ByteOrder) (J : JsonLib) (M : MongoLib) (now : ℤ)
    (as : List Account) (w : Players) (es : List SystemEvent) {d : ConnPtr} {m : NetMessage}
    (hm : m ∈ ((run o J M now as w es).gate.conn d).accepted) :
    Caused (fun pre e =>
      ((run o J M now as w pre).Sends e m.packet ∧
        (d = (run o J M now as w pre).gate.accountConn ∨
          d = (run o J M now as w pre).gate.gameConn)) ∨
      ((run o J M now as w pre).gate.Leads m.packet d ∧
        Caused (fun pre' e' => (run o J M now as w pre').Asks e' m.packet) (pre ++ [e]))) es := by
  have hfirst : m ∉ ((init now as w).gate.conn d).accepted := by
    rw [accepted_init]
    exact List.not_mem_nil
  have hhanded := caused_run (P := fun s => m ∈ (s.gate.conn d).accepted)
    (Q := fun pre e => Handed J (run o J M now as w pre) e d m.packet) hfirst
    (fun pre e h => ((gateStep (wired_run o J M now as w pre) e).adds.accepted d).mem h) hm
  obtain ⟨pre, e, hpre, hhand⟩ := hhanded
  refine ⟨pre, e, hpre, ?_⟩
  generalize m.packet = z at hhand
  -- an answer of a server: it was sent before this event
  have hserver : ∀ {y : Packet},
      Caused (fun pre' e' => (run o J M now as w pre').Asks e' y) pre → z.proto = y.proto →
      z.netId = y.netId → (z.playerId = y.playerId ∨ z.proto = playerLoginRsp) →
      Caused (fun pre' e' => (run o J M now as w pre').Asks e' z) (pre ++ [e]) := by
    intro y hcaused hproto hnet hplayer
    refine (hcaused.extend (List.prefix_append pre [e])).imp ?_
    rintro _ _ ⟨x, hsends, hx⟩
    exact ⟨x, hsends, hx.passed_on hproto hnet hplayer⟩
  cases hhand with
  | client hclient =>
    cases hclient with
    | account _ => exact .inl ⟨⟨_, _, rfl, rfl⟩, .inl rfl⟩
    | game _ => exact .inl ⟨⟨_, _, rfl, rfl⟩, .inr rfl⟩
    | heartBeat hbeat hroute =>
      refine .inr ⟨Gate.leads_of_route hroute, pre, _, List.prefix_rfl, _, ⟨_, _, rfl, rfl⟩, ?_⟩
      refine ⟨?_, rfl, .inl rfl⟩
      rw [hbeat]
      exact List.mem_cons_self ..
  | fromAccount hy hserved =>
    obtain ⟨hleads, hne, hproto, hnet, hplayer⟩ := Gate.fromServer_cases hserved
    exact .inr ⟨hleads,
      hserver (caused_fromAccount (List.mem_of_getElem? hy) hne) hproto hnet hplayer⟩
  | fromGame hy hserved =>
    obtain ⟨hleads, hne, hproto, hnet, hplayer⟩ := Gate.fromServer_cases hserved
    exact .inr ⟨hleads,
      hserver (caused_fromGame (List.mem_of_getElem? hy) hne) hproto hnet hplayer⟩

/-- The client that logged in has been sent something. -/
theorem frames_solicited_second : ∃ m, m ∈ ((runA loginEvents).gate.conn 3).accepted ∧
    Caused (fun pre e =>
      ((runA pre).Sends e m.packet ∧
        ((3 : ConnPtr) = (runA pre).gate.accountConn ∨ (3 : ConnPtr) = (runA pre).gate.gameConn)) ∨
      ((runA pre).gate.Leads m.packet 3 ∧
        Caused (fun pre' e' => (runA pre').Asks e' m.packet) (pre ++ [e]))) loginEvents := by
  have hne : ((runA loginEvents).gate.conn 3).accepted ≠ [] := by decide +kernel
  obtain ⟨m, hm⟩ := List.exists_mem_of_ne_nil _ hne
  unfold runA at hm ⊢
  exact ⟨m, hm, frames_solicited .little wholeJson wholeMongo 0 [accountB, accountA]
    ⟨.create, []⟩ loginEvents hm⟩

/-! ## A login that goes through -/

theorem newFrames_eq {c c' : TcpConnection} {ps : List Packet}
    (h : c'.accepted.map NetMessage.packet = c.accepted.map NetMessage.packet ++ ps) :
    newFrames c c' = ps := by
  rw [newFrames, List.map_drop, h, List.drop_append_of_le_length (by simp)]
  simp

/-- Nothing stands in the way of a login to the account `a` with the request `q`, sent on the
connection `c`. -/
structure LoginReady (J : JsonLib) (s : System) (c : ConnPtr) (q : Packet) (env : Env)
    (a : Account) : Prop where
  /-- the client's connection is in the gate's table -/
  client : s.gate.connMap[(s.gate.conn c).netId]? = some c
  /-- it is open and idle -/
  clientReady : Traffic.Ready s.gate c
  /-- the gate's connection to the account server is open and idle -/
  accountReady : Traffic.Ready s.gate s.gate.accountConn
  /-- the account server runs -/
  up : s.account.down = false
  /-- its connection to the gate is open and idle -/
  gateReady : s.account.gateConn.socket.isOpen = true ∧ s.account.gateConn.writeInProgress = false
  /-- the database can be read -/
  calm : env.findThrows = false
  /-- the account is stored, and is the first with its name -/
  stored : ∃ as, s.account.world = as.map Account.document ∧
    Account.lookup a.userName as = some a
  /-- the request has its name and password -/
  right : Matches J q a
  /-- the player is not online -/
  free : 0 ≤ a.playerId ∧ s.gate.playerMap[a.playerId]? = none
  /-- the request fits a frame -/
  short : msgHead + q.message.length < msgMaximum
  /-- the answer fits a frame -/
  answerShort : msgHead + (tighten (J.toStyledString (numbers [0, a.playerId]))).length < msgMaximum

/-- The response to a login to the account, as the account server sends it. -/
def loginResponse (J : JsonLib) (a : Account) (x : Packet) : Packet :=
  ⟨playerLoginRsp, x.playerId, x.netId, tighten (J.toStyledString (numbers [0, a.playerId]))⟩

variable {s : System} {c : ConnPtr} {q : Packet} {env : Env} {a : Account}

/-- The request goes to the account server. -/
theorem LoginReady.sent (h : LoginReady J s c q env a) (hw : s.Wired) :
    (s.step o J M (.client c q)).toAccount =
        s.toAccount ++ [{ q with netId := (s.gate.conn c).netId }] ∧
      (s.step o J M (.client c q)).account = s.account ∧
      (s.step o J M (.client c q)).fromAccount = s.fromAccount ∧
      (s.step o J M (.client c q)).gate = s.gate.sendToAccountSvr o
        (q.received.setNetId (s.gate.conn c).netId) := by
  obtain ⟨hnet, hpos, -⟩ := hw.tables.connEntry h.client
  have hrange : inAccountRange q.received.proto = true := by
    change inAccountRange q.proto = true
    rw [h.right.1]
    decide
  obtain ⟨-, hcases⟩ := Traffic.onRecv_cases (o := o) (J := J) hw.tables hw.upstream c q.received
  have heq : (s.gate.onRecv o J c q.received).1 =
      s.gate.sendToAccountSvr o (q.received.setNetId (s.gate.conn c).netId) := by
    rcases hcases with ⟨-, hneg | ⟨hout, -⟩⟩ | ⟨-, -, -, heq⟩ | ⟨-, hout, -⟩
    · exact absurd hneg (Int32.not_lt.mpr hpos)
    · rw [hrange] at hout
      cases hout
    · exact heq
    · rw [hrange] at hout
      cases hout
  rw [step, if_neg (Int32.not_lt.mpr hpos), heq]
  refine ⟨?_, rfl, rfl, rfl⟩
  have hser : ((Gate.copyOf (q.received.setNetId (s.gate.conn c).netId)).serialize o).2 = true :=
    NetMessage.serialize_eq_true_iff.mpr h.short
  have hforward := (Traffic.accepted_forward s.gate.accountConn hser).mpr h.accountReady
  exact congrArg (s.toAccount ++ ·) (newFrames_eq hforward)

/-- A handler that returns true is heard, when the connection to the gate is open and idle. -/
theorem sentBy_onRecv {σ : Type} {regs : List (Registration σ)} {b : Backend σ} {x : Packet}
    {req rsp : Json} {r : Registration σ} (hrange : inAccountRange x.proto = true)
    (hbody : bodyOf J x.received = some req) (hfirst : firstFor x.proto regs = some r)
    (hrun : (r.handler req x.playerId b.world).1 = .ok (true, rsp))
    (hshort : msgHead + (tighten (J.toStyledString rsp)).length < msgMaximum)
    (hready : b.gateConn.socket.isOpen = true ∧ b.gateConn.writeInProgress = false)
    (hup : b.down = false) :
    sentBy b.gateConn (b.onRecv o J (registered regs) x.received).1 =
      [⟨r.responseId, x.playerId, x.netId, tighten (J.toStyledString rsp)⟩] := by
  obtain ⟨w, hrun⟩ : ∃ w, r.handler req x.received.playerId b.world = (.ok (true, rsp), w) :=
    ⟨_, Prod.ext hrun rfl⟩
  have hret := runFuncHandler_of_handled hbody hfirst hrun
  have hser : ((filled r.responseId x.received
      (tighten (J.toStyledString rsp))).serialize o).2 = true :=
    NetMessage.serialize_eq_true_iff.mpr hshort
  have hcode := (TcpConnection.sendMessage_open o hready.1 hser).1.mpr hready.2
  have hpacket := (NetMessage.serialize_spec hser).1
  have hrange' : inAccountRange x.received.proto = true := hrange
  rw [Backend.onRecv, if_neg (not_not.mpr hrange'), Backend.respond, hret]
  dsimp only
  rw [if_pos hser, sentBy, hup, if_neg Bool.false_ne_true]
  refine newFrames_eq ?_
  rw [TcpConnection.accepted_sendMessage, if_pos hcode, List.map_append, List.map_singleton,
    hpacket]
  rfl

theorem loginOf_answer (hr : ReadsAnswers J) {p : Int32} {y : Packet}
    (hproto : y.proto = playerLoginRsp)
    (hmsg : y.message = tighten (J.toStyledString (numbers [0, p]))) :
    Gate.loginOf J y.received = .ok (some p) := by
  obtain ⟨vs, hparse, hvs⟩ := hr [0, p]
  have hread : J.parse y.received.message = some (Json.reply vs) := by
    rw [← hparse, ← hmsg]
    rfl
  have hproto' : y.received.proto = playerLoginRsp := hproto
  obtain ⟨u, v, rfl⟩ : ∃ u v, vs = [u, v] := by
    have hlen := congrArg List.length hvs
    simp only [List.length_map] at hlen
    exact List.length_eq_two.mp hlen
  simp only [List.map_cons, List.map_nil, List.cons.injEq, and_true] at hvs
  have hmember : (Json.reply [u, v]).member Json.msgKey = .ok (.arr [u, v]) := rfl
  have hfirst : (Json.arr [u, v]).index 0 = .ok u := rfl
  have hsecond : (Json.arr [u, v]).index 1 = .ok v := rfl
  rw [Gate.loginOf, hread]
  dsimp only
  rw [if_neg (not_not.mpr hproto'), hmember]
  simp only [bind, Except.bind, hfirst, hsecond, hvs.1, hvs.2, if_true]
  rfl

/-- The account server answers with the player's id. -/
theorem LoginReady.answered (h : LoginReady J s c q env a) (hstd : StandardJson J M) {x : Packet}
    (hproto : x.proto = q.proto) (hmsg : x.message = q.message) :
    sentBy s.account.gateConn
        (s.account.onRecv o J (registered (AccountMgr.registFunc J M env)) x.received).1 =
      [loginResponse J a x] := by
  obtain ⟨hlogin, req, name, pass, hbody, hcred, hname, hpass⟩ := h.right
  obtain ⟨as, hworld, hlook⟩ := h.stored
  have hrange : inAccountRange x.proto = true := by
    rw [hproto, hlogin]
    decide
  have hbody' : bodyOf J x.received = some req := by
    have heq : x.received.message = q.received.message := hmsg
    rw [bodyOf, heq]
    exact hbody
  have hfirst : firstFor x.proto (AccountMgr.registFunc J M env) =
      some ⟨playerLoginReq, playerLoginRsp, AccountMgr.handlePlayerLogin J M env⟩ := by
    rw [hproto, hlogin]
    rfl
  refine sentBy_onRecv hrange hbody' hfirst ?_ h.answerShort h.gateReady h.up
  change AccountMgr.loginAnswer J M env s.account.world req = _
  have hfound : Account.found env name as = some a := by
    rw [Account.found, h.calm, ← hname]
    exact hlook
  rw [hworld, AccountMgr.loginAnswer_eq hstd env hcred, Account.login, hfound]
  dsimp only
  rw [if_pos hpass]
  rfl

/-- The response reaches the client, and the player is online. -/
theorem gate_login (hr : ReadsAnswers J) {g : Gate} {p n : Int32} {y : Packet} (h : g.Tables)
    (hu : g.Upstream) (hclient : g.connMap[n]? = some c) (hready : Traffic.Ready g c)
    (hfree : 0 ≤ p ∧ g.playerMap[p]? = none) (hproto : y.proto = playerLoginRsp)
    (hnet : y.netId = n)
    (hmsg : y.message = tighten (J.toStyledString (numbers [0, p])))
    (hshort : msgHead + y.message.length < msgMaximum) :
    (g.onRecv o J g.accountConn y.received).1.playerMap[p]? = some c ∧
      Traffic.acceptedBy (g.onRecv o J g.accountConn y.received).1 c =
        Traffic.acceptedBy g c ++ [{ y with playerId := p }] := by
  obtain ⟨hcnet, hpos, -⟩ := h.connEntry hclient
  have hrecv : (g.onRecv o J g.accountConn y.received).1 =
      (g.onPlayerLogin p n).sendToPlayer o (y.received.setPlayerId p) := by
    have hgate : inGateRange playerLoginRsp = false := by decide
    have haccount : inAccountRange playerLoginRsp = true := by decide
    have hproto' : y.received.proto = playerLoginRsp := hproto
    have hnet' : y.received.netId = n := hnet
    rw [Gate.onRecv, if_pos hu.account.2.2, Gate.handleServerMsg, hproto', hgate, haccount,
      loginOf_answer hr hproto hmsg, hnet']
    rfl
  -- the login is taken up
  have hlogin : g.onPlayerLogin p n = g.loggedIn p c := by
    obtain ⟨-, (hneg | hneg) | ⟨d, hd, -⟩ | hnone⟩ | ⟨-, -, -, d, hd, heq⟩ :=
      g.onPlayerLogin_cases p n
    · exact absurd hneg (Int32.not_lt.mpr hpos)
    · exact absurd hneg (Int32.not_lt.mpr hfree.1)
    · rw [hfree.2] at hd
      cases hd
    · rw [hclient] at hnone
      cases hnone
    · cases hclient.symm.trans hd
      exact heq
  have hentry : (g.loggedIn p c).playerMap[p]? = some c :=
    (g.lookup_loggedIn p p c c).mpr (.inr ⟨rfl, hfree.2, rfl⟩)
  have hroute : (g.loggedIn p c).route (y.received.setPlayerId p).playerId
      (y.received.setPlayerId p).netId = some c := Gate.route_eq_some.mpr (.inl hentry)
  have hconn : (g.loggedIn p c).conn c =
      ((g.conn c).setPlayerId p).setHeartBeat g.systemTime := by
    rw [Gate.conn_loggedIn, if_pos rfl]
  have hready' : Traffic.Ready (g.loggedIn p c) c := by
    rw [Traffic.Ready, hconn]
    exact hready
  have hsend : (g.loggedIn p c).sendToPlayer o (y.received.setPlayerId p) =
      (g.loggedIn p c).modify c fun conn =>
        conn.sendSerialized o (Gate.copyOf (y.received.setPlayerId p)) := by
    obtain ⟨hnone, -⟩ | ⟨t, ht, ⟨hclosed, -⟩ | ⟨-, heq⟩⟩ :=
      (g.loggedIn p c).sendToPlayer_cases o (y.received.setPlayerId p)
    · rw [hroute] at hnone
      cases hnone
    · cases hroute.symm.trans ht
      rw [hready'.1] at hclosed
      cases hclosed
    · cases hroute.symm.trans ht
      exact heq
  rw [hrecv, hlogin, hsend]
  refine ⟨hentry, ?_⟩
  have hser : ((Gate.copyOf (y.received.setPlayerId p)).serialize o).2 = true :=
    NetMessage.serialize_eq_true_iff.mpr hshort
  have hold : Traffic.acceptedBy (g.loggedIn p c) c = Traffic.acceptedBy g c := by
    rw [Traffic.acceptedBy, hconn]
    rfl
  rw [(Traffic.accepted_forward c hser).mpr hready', hold]
  rfl

/-- **A login goes through.** In every state a run can reach: when nothing stands in its way, a
login request with the name and the password of an account, its arrival at the account server and
the arrival of the response at the gate leave the player online on the client's connection, and
that connection has accepted the response, with the player's id. -/
theorem login_completes (hstd : StandardJson J M) (hr : ReadsAnswers J) (now : ℤ)
    (as : List Account) (w : Players) (es : List SystemEvent) {c : ConnPtr} {q : Packet} {env : Env}
    {a : Account} (h : LoginReady J (run o J M now as w es) c q env a) :
    let s := run o J M now as w es
    let s' := run o J M now as w (es ++ [.client c q, .toAccount s.toAccount.length env,
      .fromAccount s.fromAccount.length])
    s'.gate.playerMap[a.playerId]? = some c ∧
      Traffic.acceptedBy s'.gate c = Traffic.acceptedBy s.gate c ++
        [{ loginResponse J a { q with netId := (s.gate.conn c).netId } with
          playerId := a.playerId }] := by
  intro s s'
  have hw : s.Wired := wired_run o J M now as w es
  change LoginReady J s c q env a at h
  obtain ⟨hnet, hpos, -⟩ := hw.tables.connEntry h.client
  obtain ⟨hto, haccount, hfrom, hgate⟩ := h.sent (o := o) (M := M) hw
  -- the request is on its way
  let s₁ := s.step o J M (.client c q)
  have hw₁ : s₁.Wired := hw.step _
  have hx : s₁.toAccount[s.toAccount.length]? =
      some { q with netId := (s.gate.conn c).netId } := by
    rw [show s₁.toAccount = _ from hto]
    simp
  -- the account server has answered
  let s₂ := s₁.step o J M (.toAccount s.toAccount.length env)
  have hs₂ : s₂ = s₁.withAccount (s.account.onRecv o J
      (registered (AccountMgr.registFunc J M env))
      (Packet.received { q with netId := (s.gate.conn c).netId })).1 := by
    have hup : s₁.account.down = false := by
      rw [show s₁.account = _ from haccount]
      exact h.up
    change s₁.step o J M (.toAccount s.toAccount.length env) = _
    rw [step, hx]
    dsimp only
    rw [hup, show s₁.account = _ from haccount]
    rfl
  have hy : s₂.fromAccount[s.fromAccount.length]? =
      some (loginResponse J a { q with netId := (s.gate.conn c).netId }) := by
    have hnew := h.answered (o := o) hstd
      (x := { q with netId := (s.gate.conn c).netId }) rfl rfl
    rw [hs₂, withAccount]
    dsimp only
    rw [show s₁.account = _ from haccount, hnew, show s₁.fromAccount = _ from hfrom]
    simp
  -- the gate hands it to the client
  have hs' : s' = s₂.withGate (s₁.gate.onRecv o J s₁.gate.accountConn
      (Packet.received (loginResponse J a { q with netId := (s.gate.conn c).netId }))).1 := by
    have hgate₂ : s₂.gate = s₁.gate := by rw [hs₂]; rfl
    have hrun : s' = s₂.step o J M (.fromAccount s.fromAccount.length) := runFrom_append ..
    rw [hrun, step, hy]
    dsimp only
    rw [hgate₂]
  have hsame : s₁.gate.connMap = s.gate.connMap ∧ s₁.gate.playerMap = s.gate.playerMap ∧
      s₁.gate.conn c = s.gate.conn c := by
    have hne : c ≠ s.gate.accountConn :=
      Gate.ne_of_netId (by rw [hnet]; exact hpos) hw.upstream.account.2.2
    rw [show s₁.gate = _ from hgate]
    refine ⟨rfl, rfl, ?_⟩
    rw [Gate.sendToAccountSvr, Gate.conn_modify, if_neg hne]
  obtain ⟨hmap, hplayers, hconn⟩ := hsame
  have hlogin := gate_login (o := o) (J := J) (g := s₁.gate) (c := c) (p := a.playerId)
    (n := (s.gate.conn c).netId)
    (y := loginResponse J a { q with netId := (s.gate.conn c).netId }) hr hw₁.tables hw₁.upstream
    (by rw [hmap]; exact h.client)
    (by rw [Traffic.Ready, hconn]; exact h.clientReady)
    (by rw [hplayers]; exact h.free) rfl rfl rfl h.answerShort
  have hold : Traffic.acceptedBy s₁.gate c = Traffic.acceptedBy s.gate c := by
    rw [Traffic.acceptedBy, hconn, Traffic.acceptedBy]
  rw [hold] at hlogin
  rw [hs']
  exact hlogin

/-- The second of two clients that have just connected. -/
theorem login_completes_second :
    LoginReady wholeJson (runA connected) 3 loginA AccountMgr.calmEnv accountA ∧
      (runA (connected ++ [.client 3 loginA,
        .toAccount (runA connected).toAccount.length AccountMgr.calmEnv,
        .fromAccount (runA connected).fromAccount.length])).gate.playerMap[accountA.playerId]? =
          some 3 := by
  have hmatch : Matches wholeJson loginA accountA := by
    refine ⟨rfl, AccountMgr.body AccountMgr.userA AccountMgr.userB, AccountMgr.userA,
      AccountMgr.userB, ?_, rfl, ?_, rfl⟩
    · decide +kernel
    · decide +kernel
  have hready : LoginReady wholeJson (runA connected) 3 loginA AccountMgr.calmEnv accountA := by
    refine ⟨?_, ?_, ?_, rfl, ?_, rfl, ⟨[accountB, accountA], rfl, ?_⟩, hmatch, ?_, ?_, ?_⟩
    · decide +kernel
    · exact ⟨rfl, rfl⟩
    · exact ⟨rfl, rfl⟩
    · exact ⟨rfl, rfl⟩
    · decide +kernel
    · decide +kernel
    · decide +kernel
    · decide +kernel
  unfold runA at hready ⊢
  exact ⟨hready, (login_completes standardJson_whole readsAnswers_whole 0 [accountB, accountA]
    ⟨.create, []⟩ connected hready).1⟩

end System

end MyServer
