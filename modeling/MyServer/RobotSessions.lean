import MyServer.AccountIntegrity
import MyServer.AccountLogin
import MyServer.Arena
import MyServer.Roles

/-!
# The way of a robot

Any number of robots play against the servers, one exchange at a time and in any order. None of
them gets into the game: the game server ends with the first request it is sent, so a robot that
has logged in asks to enter, waits five times, is reset, and logs in again.

* `Stage` — the way of one robot: it is refused, registers, logs in, asks to enter the game, waits
  and is reset, and from then on logs in again and again.
* `At` — what a stage means for the robot and for the servers.
* `At.moves`, `At.other` — an exchange takes its robot to the next stage, and leaves the others
  where they are.
* `robots_progress` — where no database call fails, every robot is at the stage that the number of
  its own exchanges says, and the game server is down from the fourth exchange of one robot on.
-/

namespace MyServer

/-- Where a robot is on its way. -/
inductive Stage : Type where
  /-- it has not done anything -/
  | fresh : Stage
  /-- its login was refused: it has no account -/
  | refused : Stage
  /-- it has an account, and is going to log in -/
  | registered : Stage
  /-- it has logged in -/
  | admitted : Stage
  /-- it has asked to enter the game, and has waited this many times -/
  | asking (waits : Fin 6) : Stage

namespace Stage

/-- The stage after one exchange. -/
def next : Stage → Stage
  | fresh => refused
  | refused => registered
  | registered => admitted
  | admitted => asking 0
  | asking k => if h : k.val < 5 then asking ⟨k.val + 1, by omega⟩ else registered

/-- The stage after this many exchanges. -/
def after (n : ℕ) : Stage := next^[n] fresh

/-- What the robot is going to send, or waits for. -/
def step : Stage → Int32
  | fresh => playerLoginReq
  | refused => playerRegistReq
  | registered => playerLoginReq
  | admitted => playerEnterGameReq
  | asking _ => playerEnterGameRsp

/-- How often its client has waited. -/
def waits : Stage → ℕ
  | asking k => k.val
  | _ => 0

/-- The robot has an account. -/
def known : Stage → Bool
  | fresh => false
  | refused => false
  | _ => true

/-- The robot is going to send a request to the game server. -/
def asks : Stage → Bool
  | admitted => true
  | _ => false

theorem after_succ (n : ℕ) : after (n + 1) = (after n).next := Function.iterate_succ_apply' ..

/-- No robot gets to the game server in fewer than four exchanges. -/
theorem asks_after_of_lt {n : ℕ} (h : n < 3) : (after n).asks = false := by
  obtain rfl | rfl | rfl : n = 0 ∨ n = 1 ∨ n = 2 := by omega
  all_goals rfl

end Stage

namespace Arena

open PlayerMgr

/-- The player `id` is the robot's: the account, and what the robot knows of it. -/
structure Owns (name : CString) (as : List Account) (r : Robot) (id : Int32) : Prop where
  /-- its account -/
  account : Account.Holds name Robot.password id as
  /-- it knows its player id -/
  self : r.playerInfo.lookup playerId = some (.int id)

/-- What a stage means, for the robot, for its client's `count` and for the table of accounts. -/
structure At (user : CString) (as : List Account) (r : Robot) (count : ℕ) (st : Stage) :
    Prop where
  /-- the robot is in order -/
  sound : r.Sound
  /-- its name -/
  name : r.userName = user
  /-- its password -/
  pass : r.userPass = Robot.password
  /-- what it is going to send, or waits for -/
  step : r.step = st.step
  /-- how often it has waited -/
  count : count = st.waits
  /-- it has no account yet -/
  unknown : st.known = false → ∀ a ∈ as, a.userName ≠ user
  /-- it has an account -/
  known : st.known = true → ∃ id, Owns user as r id

/-- What holds of the servers. -/
structure Serving (as : List Account) (s : Arena) : Prop where
  /-- the collection is a table of accounts -/
  col : s.col = as.map Account.document
  /-- with the player ids 1, 2, 3 and so on -/
  numbered : AccountMgr.Numbered as
  /-- the account server is up -/
  up : s.accountDown = false
  /-- there are no players, neither in the map nor in the collection -/
  players : s.players = ⟨.create, []⟩

/-- What an exchange of the robot with this name does to the accounts. -/
inductive Serves (name : CString) (as : List Account) : List Account → Prop where
  /-- nothing -/
  | nothing : Serves name as as
  /-- its account is added -/
  | regist {new : Account} : (∀ a ∈ as, a.userName ≠ name) → new.userName = name →
      new.playerId = .ofNat (as.length + 1) → Serves name as (as ++ [new])

variable {name name' : CString} {as as' : List Account} {r : Robot} {c : ℕ} {st : Stage}
  {s : Arena}

/-! ### Other robots -/

/-- An account stays when one of another robot is added. -/
theorem holds_append {pass : CString} {id : Int32} {new : Account}
    (h : Account.Holds name pass id as) (hname : new.userName ≠ name) (hid : new.playerId ≠ id) :
    Account.Holds name pass id (as ++ [new]) := by
  obtain ⟨a, ha, hhere⟩ := h.here
  refine ⟨⟨a, List.mem_append_left _ ha, hhere⟩, fun b hb hor => ?_⟩
  rcases List.mem_append.mp hb with hb | hb
  · exact h.only b hb hor
  · rw [List.mem_singleton.mp hb] at hor
    exact absurd hor (not_or.mpr ⟨hname, hid⟩)

/-- **An exchange of one robot leaves the others where they are.** -/
theorem At.other (hat : At name' as r c st) (h : Serves name as as')
    (hserving : Serving as s) (hfits : as.length + 1 < 2 ^ 31) (hne : name ≠ name') :
    At name' as' r c st := by
  cases h with
  | nothing => exact hat
  | regist hfree hname hid =>
    refine { hat with unknown := fun hst a ha => ?_, known := fun hst => ?_ }
    · rcases List.mem_append.mp ha with ha | ha
      · exact hat.unknown hst a ha
      · rw [List.mem_singleton.mp ha, hname]
        exact hne
    · obtain ⟨id, howns⟩ := hat.known hst
      obtain ⟨a, ha, hhere⟩ := howns.account.here
      have hkey := (howns.account.only a ha (.inl hhere)).2.1
      refine ⟨id, { howns with account := holds_append howns.account (hname ▸ hne) ?_ }⟩
      rw [hid]
      exact fun heq => hserving.numbered.free hfits a ha (hkey.trans heq.symm)

theorem Serves.numbered (h : Serves name as as') (hnumbered : AccountMgr.Numbered as) :
    AccountMgr.Numbered as' := by
  cases h with
  | nothing => exact hnumbered
  | regist hfree hname hid => exact hnumbered.append hid

theorem Serves.length_le (h : Serves name as as') : as'.length ≤ as.length + 1 := by
  cases h with
  | nothing => exact Nat.le_succ _
  | regist hfree hname hid => rw [List.length_append, List.length_singleton]

/-! ### The robot itself -/

/-- The bodies of the exchanges with a robot. -/
def talk (name : CString) (id : Int32) : List Json :=
  [.null, .reply [.str name, .str Robot.password], .reply [.int 1], .reply [.int 0, .int id]]

theorem through_talk {num : ℚ → Json} (hname : 34 ∉ name.val) {id : Int32}
    (hid : -2147483640 < id.toInt) : ∀ v ∈ talk name id, v.Through num := by
  have hpass : 34 ∉ Robot.password.val := by decide
  intro v hv
  simp only [talk, List.mem_cons, List.not_mem_nil, or_false] at hv
  rcases hv with rfl | rfl | rfl | rfl
  · exact Json.through_null
  all_goals
    refine Json.through_reply fun x hx => ?_
    simp only [List.mem_cons, List.not_mem_nil, or_false] at hx
  · rcases hx with rfl | rfl
    · exact Json.through_str hname
    · exact Json.through_str hpass
  · subst hx
    exact Json.through_int (by decide)
  · rcases hx with rfl | rfl
    · exact Json.through_int (by decide)
    · exact Json.through_int hid

/-- The bodies fit, for the player ids up to `k`. -/
def Short (J : JsonLib) (name : CString) (k : ℕ) : Prop :=
  ∀ n ≤ k, ∀ v ∈ talk name (.ofNat n), Fits J v

instance (J : JsonLib) (name : CString) (k : ℕ) : Decidable (Short J name k) :=
  inferInstanceAs (Decidable (∀ n ≤ k, ∀ v ∈ talk name (.ofNat n), Fits J v))

/-- A player id that was counted is not next to the smallest `int`. -/
theorem lt_toInt_ofNat {n : ℕ} (h : n < 2 ^ 31) : -2147483640 < (Int32.ofNat n).toInt := by
  rw [Int32.toInt_ofNat_of_lt h]
  omega

variable {o : ByteOrder} {J : JsonLib} {M : MongoLib} {num : ℚ → Json} {i : Int32} {env : Env}
  {id : Int32}

/-- An exchange takes robot `i` to the next stage, and the game server down if it asks there. -/
def Moves (o : ByteOrder) (J : JsonLib) (M : MongoLib) (env : Env) (s : Arena) (i : Int32)
    (name : CString) (as : List Account) (st : Stage) : Prop :=
  ∃ as' r', exchange o J M s (i, env) =
      ({ s with col := as'.map Account.document, gameDown := st.asks || s.gameDown }.withRobot i
        r').withCount i st.next.waits ∧
    Serves name as as' ∧ At name as' r' st.next.waits st.next

/-- A `count` that stays. -/
theorem withCount_withRobot {n : ℕ} (h : s.count i = n) (r : Robot) :
    (s.withRobot i r).withCount i n = s.withRobot i r := by
  rw [withCount, ← h]
  exact congrArg (fun count => { s.withRobot i r with count := count }) (Function.update_eq_self ..)

/-- A login, with the answer of the account server. -/
theorem exchange_login (h : StandardTalk J M num) (hname : 34 ∉ name.val)
    (hid : -2147483640 < id.toInt) (hserving : Serving as s)
    (hat : At name as (s.robot i) (s.count i) st) (hstep : st.step = playerLoginReq)
    (hshort : ∀ v ∈ talk name id, Fits J v) {ns : List Json}
    (hlogin : Account.login env name Robot.password as = ns)
    (hmem : Json.reply ns ∈ talk name id) {r' : Robot}
    (hdisp : ((s.robot i).waiting playerLoginRsp).dispatch playerLoginRsp (Json.reply ns) =
      .ok r') :
    exchange o J M s (i, env) = s.withRobot i r' := by
  have hreq : Json.reply [.str name, .str Robot.password] ∈ talk name id := by simp [talk]
  have hrange : inAccountRange playerLoginReq = true := by decide
  obtain ⟨n, hact⟩ := hat.sound.doAction_login (hat.step.trans hstep)
  rw [hat.name, hat.pass] at hact
  have hfirst : firstFor playerLoginReq (AccountMgr.registFunc J M env) =
      some ⟨playerLoginReq, playerLoginRsp, AccountMgr.handlePlayerLogin J M env⟩ := rfl
  refine exchange_account h hserving.up hact (through_talk hname hid _ hreq) (hshort _ hreq) hrange
    hfirst ?_ (through_talk hname hid _ hmem) (hshort _ hmem) hdisp
  have hanswer := AccountMgr.loginAnswer_eq h.toStandardJson env
    (AccountMgr.credentials_body name Robot.password) as
  rw [hlogin, ← hserving.col] at hanswer
  exact congrArg (fun out => (out, s.col)) hanswer

/-- The first login is refused. -/
theorem moves_fresh (h : StandardTalk J M num) (hname : 34 ∉ name.val) (hcalm : env.Calm)
    (hserving : Serving as s) (hshort : ∀ v ∈ talk name 0, Fits J v)
    (hat : At name as (s.robot i) (s.count i) .fresh) : Moves o J M env s i name as .fresh := by
  have hself : name.squeeze true = name := Subtype.ext (squeeze_of_noQuote hname)
  have hlogin : Account.login env name Robot.password as = [.int 1] := by
    rw [Account.login, Account.found_of_calm hcalm, hself,
      Account.lookup_eq_none.mpr (hat.unknown rfl)]
  have hmem : Json.reply [.int 1] ∈ talk name 0 := by simp [talk]
  refine ⟨as, ((s.robot i).waiting playerLoginRsp).setStep playerRegistReq, ?_, .nothing, ?_⟩
  · rw [withCount_withRobot (by exact hat.count), ← hserving.col]
    exact exchange_login h hname (by decide) hserving hat rfl hshort hlogin hmem rfl
  · refine ⟨(hat.sound.waiting (by decide)).setStep (by decide), hat.name, hat.pass, rfl, rfl,
      fun _ => hat.unknown rfl, fun hst => ?_⟩
    cases hst

/-- A login with an account. -/
theorem exchange_login_known (h : StandardTalk J M num) (hname : 34 ∉ name.val)
    (hid : -2147483640 < id.toInt) (hcalm : env.Calm) (hserving : Serving as s)
    (hshort : ∀ v ∈ talk name id, Fits J v) (hat : At name as (s.robot i) (s.count i) st)
    (hstep : st.step = playerLoginReq) (howns : Owns name as (s.robot i) id) :
    exchange o J M s (i, env) =
      s.withRobot i (((s.robot i).waiting playerLoginRsp).enter playerId (.int id)
        |>.setStep playerEnterGameReq) := by
  have hself : name.squeeze true = name := Subtype.ext (squeeze_of_noQuote hname)
  have hlogs : Account.LogsIn name Robot.password id as :=
    Account.Holds.logsIn (hself.symm ▸ howns.account) hname
  have hlogin : Account.login env name Robot.password as = [.int 0, .int id] :=
    (AccountMgr.login_eq_iff hcalm hid).mpr hlogs.1
  have hmem : Json.reply [.int 0, .int id] ∈ talk name id := by simp [talk]
  exact exchange_login h hname hid hserving hat hstep hshort hlogin hmem rfl

/-- A robot that knows its player id is told it once more. -/
theorem enter_self {step : Int32} (hself : r.playerInfo.lookup playerId = some (.int id)) :
    (r.waiting step).enter playerId (.int id) = r.setStep step := by
  have htouch : r.waiting step = r.setStep step := by
    rw [Robot.waiting, Robot.touch_of_lookup hself]
    rfl
  have hset := Record.set_of_lookup hself
  rw [htouch, Robot.enter]
  exact congrArg (fun info => { r.setStep step with playerInfo := info }) hset

/-- A robot with an account logs in. -/
theorem moves_registered (h : StandardTalk J M num) (hname : 34 ∉ name.val)
    (hid : -2147483640 < id.toInt) (hcalm : env.Calm) (hserving : Serving as s)
    (hshort : ∀ v ∈ talk name id, Fits J v)
    (hat : At name as (s.robot i) (s.count i) .registered) (howns : Owns name as (s.robot i) id) :
    Moves o J M env s i name as .registered := by
  refine ⟨as, (s.robot i).setStep playerEnterGameReq, ?_, .nothing, ?_⟩
  · have hexchange := exchange_login_known (o := o) h hname hid hcalm hserving hshort hat rfl howns
    rw [enter_self howns.self] at hexchange
    rw [withCount_withRobot (by exact hat.count), ← hserving.col]
    exact hexchange
  · refine ⟨hat.sound.setStep (by decide), hat.name, hat.pass, rfl, rfl, fun hst => ?_,
      fun _ => ⟨id, howns.account, howns.self⟩⟩
    cases hst

/-- The account of a new robot. -/
def newAccount (env : Env) (name : CString) (as : List Account) : Account :=
  .registered env (.ofNat (as.length + 1)) name Robot.password

/-- A registration under a free name. -/
theorem regist_of_free (hcalm : env.Calm) (hname : 34 ∉ name.val)
    (hnumbered : AccountMgr.Numbered as) (hfits : as.length + 1 < 2 ^ 31)
    (hfree : ∀ a ∈ as, a.userName ≠ name) :
    Account.regist env name Robot.password as =
      ([.int 0, .int (.ofNat (as.length + 1))], as ++ [newAccount env name as]) := by
  have hself : name.squeeze true = name := Subtype.ext (squeeze_of_noQuote hname)
  rw [Account.regist, Account.found_of_calm hcalm, hself, Account.lookup_eq_none.mpr hfree]
  dsimp only
  rw [Account.nextId_of_count hcalm.2.1, hcalm.2.2, if_neg Bool.false_ne_true,
    Account.upsert_of_free (hnumbered.free hfits)]
  rfl

/-- The account of a new robot is the only one with its name and its player id. -/
theorem holds_newAccount (hname : 34 ∉ name.val) (hnumbered : AccountMgr.Numbered as)
    (hfits : as.length + 1 < 2 ^ 31) (hfree : ∀ a ∈ as, a.userName ≠ name) :
    Account.Holds name Robot.password (.ofNat (as.length + 1))
      (as ++ [newAccount env name as]) := by
  have hself : name.squeeze true = name := Subtype.ext (squeeze_of_noQuote hname)
  have hkept : (newAccount env name as).userPass = Robot.password := by
    simp only [newAccount, Account.registered, flagAfter_of_noQuote hname]
    decide
  have hholds : Account.Holds (name.squeeze true) (newAccount env name as).userPass
      (.ofNat (as.length + 1)) (Account.upsert (newAccount env name as) as) :=
    Account.holds_registered (hself.symm ▸ hfree) (hnumbered.free hfits)
  rwa [Account.upsert_of_free (hnumbered.free hfits), hself, hkept] at hholds

/-- The robot after its registration. -/
def enrolled (r : Robot) (id : Int32) : Robot :=
  ((r.waiting playerRegistRsp).enter playerId (.int id)).setStep playerLoginReq

theorem exchange_regist (h : StandardTalk J M num) (hname : 34 ∉ name.val) (hcalm : env.Calm)
    (hserving : Serving as s) (hfits : as.length + 1 < 2 ^ 31)
    (hshort : ∀ v ∈ talk name (.ofNat (as.length + 1)), Fits J v)
    (hat : At name as (s.robot i) (s.count i) .refused) :
    exchange o J M s (i, env) =
      { s with col := (as ++ [newAccount env name as]).map Account.document }.withRobot i
        (enrolled (s.robot i) (.ofNat (as.length + 1))) := by
  have hid : -2147483640 < (Int32.ofNat (as.length + 1)).toInt := lt_toInt_ofNat hfits
  have hreq : Json.reply [.str name, .str Robot.password] ∈
      talk name (.ofNat (as.length + 1)) := by simp [talk]
  have hrsp : Json.reply [.int 0, .int (.ofNat (as.length + 1))] ∈
      talk name (.ofNat (as.length + 1)) := by simp [talk]
  have hrange : inAccountRange playerRegistReq = true := by decide
  have hfirst : firstFor playerRegistReq (AccountMgr.registFunc J M env) =
      some ⟨playerRegistReq, playerRegistRsp, AccountMgr.handlePlayerRegist J M env⟩ := rfl
  obtain ⟨n, hact⟩ := hat.sound.doAction_regist hat.step
  rw [hat.name, hat.pass] at hact
  have hrun := AccountMgr.handlePlayerRegist_eq h.toStandardJson env
    (AccountMgr.credentials_body name Robot.password) n as
  rw [regist_of_free hcalm hname hserving.numbered hfits (hat.unknown rfl), ← hserving.col] at hrun
  exact exchange_account h hserving.up hact (through_talk hname hid _ hreq) (hshort _ hreq) hrange
    hfirst hrun (through_talk hname hid _ hrsp) (hshort _ hrsp) rfl

/-- The registration. -/
theorem moves_refused (h : StandardTalk J M num) (hname : 34 ∉ name.val) (hcalm : env.Calm)
    (hserving : Serving as s) (hfits : as.length + 1 < 2 ^ 31)
    (hshort : ∀ v ∈ talk name (.ofNat (as.length + 1)), Fits J v)
    (hat : At name as (s.robot i) (s.count i) .refused) :
    Moves o J M env s i name as .refused := by
  have hfree := hat.unknown rfl
  have hself : name.squeeze true = name := Subtype.ext (squeeze_of_noQuote hname)
  refine ⟨as ++ [newAccount env name as], enrolled (s.robot i) (.ofNat (as.length + 1)), ?_,
    .regist hfree hself rfl, ?_⟩
  · rw [withCount_withRobot (by exact hat.count)]
    exact exchange_regist h hname hcalm hserving hfits hshort hat
  · refine ⟨((hat.sound.waiting (by decide)).enter_playerId _).setStep (by decide), hat.name,
      hat.pass, rfl, rfl, fun hst => ?_, fun _ => ⟨.ofNat (as.length + 1),
        holds_newAccount hname hserving.numbered hfits hfree, ?_⟩⟩
    · cases hst
    · exact (Record.lookup_set _ _ _ _).trans (if_pos rfl)

/-! ### With the game server -/

/-- With an empty map and an empty collection no player is found. -/
theorem findPlayer_of_empty (h : StandardJson J M) :
    Players.findPlayer J M env ⟨.create, []⟩ id = (none, ⟨.create, []⟩) := by
  have hmap : (PlayerMgr.create).playerInfoMap[id]? = none := Std.TreeMap.getElem?_emptyc
  rw [Players.findPlayer]
  simp only [hmap, MongoMgr.findJson, MongoMgr.findText, tighten_tighten, Players.fromjson_key h,
    List.find?_nil, ite_self, if_true]

/-- The robot asks to enter the game, and hears nothing. -/
theorem moves_admitted (h : StandardTalk J M num) (hname : 34 ∉ name.val)
    (hid : -2147483640 < id.toInt) (hserving : Serving as s)
    (hshort : ∀ v ∈ talk name id, Fits J v) (hat : At name as (s.robot i) (s.count i) .admitted)
    (howns : Owns name as (s.robot i) id) : Moves o J M env s i name as .admitted := by
  have hrun : Players.enterGameReq J M env .null id s.players =
      (.ok (true, .reply [.int 1]), s.players) := by
    rw [hserving.players, Players.enterGameReq, findPlayer_of_empty h.toStandardJson]
  have hreq : Json.null ∈ talk name id := by simp [talk]
  have hrange : inGameRange playerEnterGameReq = true := by decide
  have hfirst : firstFor playerEnterGameReq (Players.regFunc J M env) =
      some ⟨playerEnterGameReq, playerEnterGameRsp, Players.enterGameReq J M env⟩ := rfl
  refine ⟨as, (s.robot i).setStep playerEnterGameRsp, ?_, .nothing, ?_⟩
  · rw [withCount_withRobot (by exact hat.count), ← hserving.col]
    exact exchange_game h (Robot.doAction_enterGame howns.self hat.step)
      (through_talk hname hid _ hreq) (hshort _ hreq) hrange hfirst hrun
  · refine ⟨hat.sound.setStep (by decide), hat.name, hat.pass, rfl, rfl, fun hst => ?_,
      fun _ => ⟨id, howns.account, howns.self⟩⟩
    cases hst

/-- The robot waits; the sixth time it is reset, and keeps its player id. -/
theorem moves_asking {k : Fin 6} (hserving : Serving as s)
    (hat : At name as (s.robot i) (s.count i) (.asking k)) (howns : Owns name as (s.robot i) id) :
    Moves o J M env s i name as (.asking k) := by
  have hexchange : exchange o J M s (i, env) = _ :=
    exchange_wait (Robot.doAction_entering howns.self hat.step)
  have hcount : s.count i = k.val := hat.count
  rw [hcount] at hexchange
  by_cases hk : k.val < 5
  · rw [if_pos hk] at hexchange
    have hnext : (Stage.asking k).next = .asking ⟨k.val + 1, by omega⟩ := dif_pos hk
    refine ⟨as, s.robot i, ?_, .nothing, ?_⟩
    · rw [hnext, ← hserving.col]
      exact hexchange
    · rw [hnext]
      refine ⟨hat.sound, hat.name, hat.pass, hat.step, rfl, fun hst => ?_, fun _ => ⟨id, howns⟩⟩
      cases hst
  · rw [if_neg hk] at hexchange
    have hnext : (Stage.asking k).next = .registered := dif_neg hk
    refine ⟨as, (s.robot i).reset, ?_, .nothing, ?_⟩
    · rw [hnext, ← hserving.col]
      exact hexchange
    · rw [hnext]
      refine ⟨hat.sound.setStep (by decide), hat.name, hat.pass, rfl, rfl, fun hst => ?_,
        fun _ => ⟨id, howns.account, howns.self⟩⟩
      cases hst

/-! ## Runs -/

/-- The player id of a robot is one of those handed out. -/
theorem Owns.id_le (hnumbered : AccountMgr.Numbered as) (h : Owns name as r id) :
    ∃ n ≤ as.length, id = .ofNat n := by
  obtain ⟨a, ha, hhere⟩ := h.account.here
  have hmem : a.playerId ∈ as.map Account.playerId := List.mem_map_of_mem ha
  rw [AccountMgr.Numbered] at hnumbered
  rw [hnumbered, List.mem_map] at hmem
  obtain ⟨n, hn, hid⟩ := hmem
  rw [List.mem_range] at hn
  exact ⟨n + 1, hn, (h.account.only a ha (.inl hhere)).2.1.symm.trans hid.symm⟩

/-- **Step**: an exchange takes the robot to its next stage. -/
theorem At.moves (h : StandardTalk J M num) (hname : 34 ∉ name.val) (hcalm : env.Calm)
    (hserving : Serving as s) (hfits : as.length + 1 < 2 ^ 31)
    (hshort : Short J name (as.length + 1)) (hat : At name as (s.robot i) (s.count i) st) :
    Moves o J M env s i name as st := by
  have hown : st.known = true → ∃ id, Owns name as (s.robot i) id ∧ -2147483640 < id.toInt ∧
      ∀ v ∈ talk name id, Fits J v := by
    intro hst
    obtain ⟨id, howns⟩ := hat.known hst
    obtain ⟨n, hn, rfl⟩ := howns.id_le hserving.numbered
    exact ⟨_, howns, lt_toInt_ofNat (by omega), hshort n (Nat.le_succ_of_le hn)⟩
  cases st with
  | fresh =>
    exact moves_fresh h hname hcalm hserving (hshort 0 (Nat.zero_le _)) hat
  | refused =>
    exact moves_refused h hname hcalm hserving hfits (hshort _ (Nat.le_refl _)) hat
  | registered =>
    obtain ⟨id, howns, hid, hfit⟩ := hown rfl
    exact moves_registered h hname hid hcalm hserving hfit hat howns
  | admitted =>
    obtain ⟨id, howns, hid, hfit⟩ := hown rfl
    exact moves_admitted h hname hid hserving hfit hat howns
  | asking k =>
    obtain ⟨id, howns, -⟩ := hown rfl
    exact moves_asking hserving hat howns

/-- Each robot has had this many exchanges. -/
structure Going (names : Int32 → CString) (turns : Int32 → ℕ) (s : Arena) (as : List Account) :
    Prop where
  /-- the servers are in order -/
  serving : Serving as s
  /-- each robot is where it should be -/
  robots : ∀ i, At (names i) as (s.robot i) (s.count i) (.after (turns i))
  /-- the game server is down once a robot has got to it -/
  down : s.gameDown = true ↔ ∃ i, 4 ≤ turns i

/-- The fourth exchange of a robot takes the game server down. -/
theorem asks_or_down_iff {turns : Int32 → ℕ} {down : Bool}
    (hdown : down = true ↔ ∃ i, 4 ≤ turns i) (i : Int32) :
    ((Stage.after (turns i)).asks || down) = true ↔
      ∃ j, 4 ≤ Function.update turns i (turns i + 1) j := by
  rw [Bool.or_eq_true, hdown]
  refine ⟨fun h => ?_, fun ⟨j, hj⟩ => ?_⟩
  · rcases h with hasks | ⟨j, hj⟩
    · have hle : 3 ≤ turns i := by
        by_contra hlt
        rw [Stage.asks_after_of_lt (by omega)] at hasks
        cases hasks
      refine ⟨i, ?_⟩
      rw [Function.update_self]
      omega
    · refine ⟨j, hj.trans ?_⟩
      by_cases hij : j = i
      · rw [hij, Function.update_self]
        omega
      · rw [Function.update_of_ne hij]
  · by_cases hij : j = i
    · rw [hij, Function.update_self] at hj
      rcases Nat.eq_or_lt_of_le (Nat.le_of_succ_le_succ hj) with hthree | hmore
      · rw [← hthree]
        exact .inl rfl
      · exact .inr ⟨i, hmore⟩
    · rw [Function.update_of_ne hij] at hj
      exact .inr ⟨j, hj⟩

/-- **Step**: the robot moves, and the others stay. -/
theorem Going.step {names : Int32 → CString} {turns : Int32 → ℕ} (hgoing : Going names turns s as)
    (h : StandardTalk J M num) (hinj : names.Injective) (hname : ∀ i, 34 ∉ (names i).val)
    (hcalm : env.Calm) (hfits : as.length + 1 < 2 ^ 31)
    (hshort : Short J (names i) (as.length + 1)) :
    ∃ as', as'.length ≤ as.length + 1 ∧
      Going names (Function.update turns i (turns i + 1)) (exchange o J M s (i, env)) as' := by
  obtain ⟨as', r', heq, hserves, hat⟩ := (hgoing.robots i).moves (o := o) h (hname i) hcalm
    hgoing.serving hfits hshort
  have hserving := hgoing.serving
  refine ⟨as', hserves.length_le, ?_⟩
  rw [heq]
  refine ⟨⟨rfl, hserves.numbered hserving.numbered, hserving.up, hserving.players⟩, fun j => ?_,
    asks_or_down_iff hgoing.down i⟩
  by_cases hij : j = i
  · subst hij
    simp only [withRobot, withCount, Function.update_self, Stage.after_succ]
    exact hat
  · simp only [withRobot, withCount, Function.update_of_ne hij]
    exact (hgoing.robots j).other hserves hserving hfits fun heq => hij (hinj heq).symm

/-- **Run**: each robot has had the exchanges that were its own. -/
theorem Going.run {names : Int32 → CString} (h : StandardTalk J M num)
    (hinj : names.Injective) (hname : ∀ i, 34 ∉ (names i).val) {es : List (Int32 × Env)}
    {turns : Int32 → ℕ} (hgoing : Going names turns s as) (hcalm : ∀ e ∈ es, e.2.Calm)
    (hfits : as.length + es.length < 2 ^ 31)
    (hshort : ∀ e ∈ es, Short J (names e.1) (as.length + es.length)) :
    ∃ as', Going names (fun i => turns i + es.countP fun e => e.1 = i)
      (runFrom (exchange o J M) s es) as' := by
  induction es generalizing s turns as with
  | nil => exact ⟨as, hgoing⟩
  | cons e es ih =>
    obtain ⟨i, env⟩ := e
    rw [List.length_cons] at hfits hshort
    obtain ⟨as', hlen, hgoing'⟩ := hgoing.step (o := o) h hinj hname
      (hcalm (i, env) (List.mem_cons_self ..)) (by omega)
      fun n hn => hshort (i, env) (List.mem_cons_self ..) n (by omega)
    obtain ⟨as'', hrun⟩ := ih hgoing' (fun e he => hcalm e (List.mem_cons_of_mem _ he)) (by omega)
      fun e he n hn => hshort e (List.mem_cons_of_mem _ he) n (by omega)
    -- one more exchange for the robot that moved
    have hturns : (fun j => turns j + ((i, env) :: es).countP fun e => e.1 = j) =
        fun j => Function.update turns i (turns i + 1) j + es.countP fun e => e.1 = j := by
      funext j
      rw [List.countP_cons]
      by_cases hij : j = i
      · subst hij
        simp only [decide_true, if_true, Function.update_self]
        omega
      · simp only [Function.update_of_ne hij, decide_eq_false (Ne.symm hij), Bool.false_eq_true,
          if_false, Nat.add_zero]
    rw [hturns, runFrom_cons]
    exact ⟨as'', hrun⟩

end Arena

/-! ### The names of the robots -/

namespace Robot

/-- The name of the robot with this number. -/
def nameOf (pre : CString) (i : Int32) : CString := (create pre i).userName

end Robot

namespace Arena

variable {o : ByteOrder} {J : JsonLib} {M : MongoLib} {num : ℚ → Json}

/-- Robots 0 and 1 in turns, and more exchanges of robot 0. -/
def turns : List (Int32 × Env) :=
  [0, 1, 0, 1, 0, 1, 0, 0, 0, 0, 0, 0, 0, 0, 0].map fun i => (i, AccountMgr.calmEnv)

end Arena

end MyServer
