import MyServer.JsonNormal
import MyServer.PlayerMgr
import MyServer.Runs

/-!
# The robot of the test client (`robot.h`, `robot.cpp`)

A `Robot` plays one account. `m_nStep` is the protocol id of what comes next: a request it
is going to send, or the response it waits for. `doAction` writes the request and
`handleMsg` takes a response; both read `m_nStep` as a state machine, but `handleMsg` does
not ask whether the response is the one that is waited for.

An empty body is not parsed. The response is null then, every element of it is null, and
null is the number 0, the code of success (`dispatch_null_keeps_iff`).
-/

namespace MyServer

namespace Json

/-- The members of an object; null has none. -/
def members : Json → List (CString × Json)
  | obj ms => ms
  | _ => []

/-- Null, or an object with the members of a `std::map`: what `operator[](key)` takes. -/
inductive IsRecord : Json → Prop where
  | null : IsRecord null
  | obj {ms : List (CString × Json)} : Sorted ms → IsRecord (obj ms)

/-- The text of a number is a C string. -/
theorem zero_notMem_intToString (n : Int32) : 0 ∉ intToString n := by
  have hdigits : ∀ m : UInt32, 0 ∉ uintToString m := by
    intro m h
    have hzero := (uintToString_digits m).digit 0 h
    revert hzero
    decide
  rw [intToString]
  split_ifs
  · rw [List.mem_cons, not_or]
    exact ⟨by decide, hdigits _⟩
  · exact hdigits _

/-- The element `msg["msg"][i]` of a response -/
def msgAt (i : ℕ) (msg : Json) : Except JsonFault Json := do
  let elements ← msg.member msgKey
  elements.index i

end Json

/-! ## Records -/

/-- A value that members are entered into. -/
abbrev Record : Type := {value : Json // value.IsRecord}

namespace Record

/-- A `Json::Value` by default -/
def null : Record := ⟨.null, .null⟩

theorem sorted_members (r : Record) : Json.Sorted r.val.members := by
  obtain ⟨value, h⟩ := r
  cases h with
  | null => exact List.Pairwise.nil
  | obj h => exact h

/-- `value[key] = v` -/
def set (key : CString) (v : Json) (r : Record) : Record :=
  ⟨.obj (Json.insertMember key v r.val.members), .obj (r.sorted_members.insertMember key v)⟩

/-- The member of a name, if there is one. -/
def lookup (key : CString) (r : Record) : Option Json := r.val.members.lookup key

/-- `value[key]`, which enters a null member where there is none. -/
def touch (key : CString) (r : Record) : Json × Record :=
  match r.lookup key with
  | some v => (v, r)
  | none => (.null, r.set key .null)

theorem lookup_set (key k : CString) (v : Json) (r : Record) :
    (r.set key v).lookup k = if k = key then some v else r.lookup k :=
  Json.lookup_insertMember key k v r.val.members

theorem set_of_lookup {key : CString} {v : Json} {r : Record} (h : r.lookup key = some v) :
    r.set key v = r := by
  have hins := Json.insertMember_of_lookup r.sorted_members h
  obtain ⟨value, hr⟩ := r
  cases hr with
  | null => cases h
  | obj hs => exact Subtype.ext (congrArg Json.obj hins)

/-- An assignment that enters what is there changes nothing; any other does, since a member that
is missing is entered. -/
theorem set_eq_self_iff {key : CString} {v : Json} {r : Record} :
    r.set key v = r ↔ r.lookup key = some v := by
  refine ⟨fun h => ?_, set_of_lookup⟩
  rw [← h, lookup_set, if_pos rfl]

end Record

/-! ## The robot -/

/-- The class `Robot`. `m_AccountInfo` has these two members from `init` on. -/
structure Robot : Type where
  /-- `m_AccountInfo[db::Account::userName]` -/
  userName : CString
  /-- `m_AccountInfo[db::Account::userPass]` -/
  userPass : CString
  /-- `m_PlayerInfo` -/
  playerInfo : Record
  /-- `m_nStep` -/
  step : Int32

/-- What `doAction` writes through its references. -/
structure Action : Type where
  /-- `msg` -/
  msg : Json
  /-- `step` -/
  step : Int32
  /-- `playerId` -/
  playerId : Int32

namespace Robot

open PlayerMgr

/-- `"123456"` -/
def password : CString := ⟨[49, 50, 51, 52, 53, 54], by decide⟩

/-- `Robot(prefix, id)` -/
def create (pre : CString) (id : Int32) : Robot where
  userName := ⟨pre.val ++ Json.intToString id, by
    rw [List.mem_append]
    exact fun h => h.elim pre.property (Json.zero_notMem_intToString id)⟩
  userPass := password
  playerInfo := .null
  step := playerLoginReq

/-- `setStep` -/
def setStep (r : Robot) (step : Int32) : Robot := { r with step := step }

/-- `reset` -/
def reset (r : Robot) : Robot := r.setStep playerLoginReq

/-! ### Responses -/

/-- `m_PlayerInfo[key] = v` -/
def enter (r : Robot) (key : CString) (v : Json) : Robot :=
  { r with playerInfo := r.playerInfo.set key v }

/-- `handleLoginRsp` -/
def handleLoginRsp (r : Robot) (msg : Json) : Except JsonFault Robot := do
  let msgId ← (← msg.msgAt 0).asInt
  if msgId = 0 then
    let id ← (← msg.msgAt 1).asInt
    return (r.enter playerId (.int id)).setStep playerEnterGameReq
  else if msgId = 1 then return r.setStep playerRegistReq
  else return r.setStep playerLoginReq

/-- `handleRegistRsp` -/
def handleRegistRsp (r : Robot) (msg : Json) : Except JsonFault Robot := do
  let msgId ← (← msg.msgAt 0).asInt
  if msgId = 0 then
    let id ← (← msg.msgAt 1).asInt
    return (r.enter playerId (.int id)).setStep playerLoginReq
  else return r.setStep playerLoginReq

/-- `handleEnterGameRsp` -/
def handleEnterGameRsp (r : Robot) (msg : Json) : Except JsonFault Robot := do
  let msgId ← (← msg.msgAt 0).asInt
  if msgId = 0 then
    let info ← msg.msgAt 1
    let r := r.enter nickName (← info.member nickName)
    let r := r.enter level (← info.member level)
    let r := r.enter vip (← info.member vip)
    return r.setStep playerHeartBeatReq
  else if msgId = 1 then return r.setStep playerCreateRoleReq
  else return r.setStep playerLoginReq

/-- `handleCreateRoleRsp` -/
def handleCreateRoleRsp (r : Robot) (msg : Json) : Except JsonFault Robot := do
  let msgId ← (← msg.msgAt 0).asInt
  if msgId = 0 then return r.setStep playerEnterGameReq
  else return r.setStep playerLoginReq

/-- `handleHeartBeatRsp` -/
def handleHeartBeatRsp (r : Robot) (_msg : Json) : Except JsonFault Robot :=
  return r.setStep playerLoginReq

/-- The branches of `handleMsg`. -/
def dispatch (r : Robot) (protoId : Int32) (msgJson : Json) : Except JsonFault Robot :=
  if protoId = playerLoginRsp then r.handleLoginRsp msgJson
  else if protoId = playerRegistRsp then r.handleRegistRsp msgJson
  else if protoId = playerCreateRoleRsp then r.handleCreateRoleRsp msgJson
  else if protoId = playerEnterGameRsp then r.handleEnterGameRsp msgJson
  else if protoId = playerHeartBeatRsp then r.handleHeartBeatRsp msgJson
  else return r

/-- `handleMsg`. A fault comes before anything is changed. -/
def handleMsg (J : JsonLib) (r : Robot) (msg : NetMessage) : Except JsonFault Robot :=
  match if msg.message ≠ [] then J.parse msg.message else some .null with
  | none => return r
  | some msgJson => r.dispatch msg.proto msgJson

/-! ### Requests -/

/-- `handleLoginReq`, with the request it writes into a new `msg` -/
def handleLoginReq (r : Robot) : Json × Robot :=
  (.reply [.str r.userName, .str r.userPass], r.setStep playerLoginRsp)

/-- `handleRegistReq` -/
def handleRegistReq (r : Robot) : Json × Robot :=
  (.reply [.str r.userName, .str r.userPass], r.setStep playerRegistRsp)

/-- `handleEnterGameReq` -/
def handleEnterGameReq (r : Robot) : Json × Robot := (.null, r.setStep playerEnterGameRsp)

/-- `handleCreateRoleReq`. It does not wait for the response. -/
def handleCreateRoleReq (r : Robot) : Json × Robot :=
  (.reply [.str r.userName], r.setStep playerCreateRoleReq)

/-- `handleHeartBeatReq`. Nor does this one. -/
def handleHeartBeatReq (r : Robot) : Json × Robot := (.null, r.setStep playerHeartBeatReq)

/-- `doAction`. Reading the player id enters a null member where there is none. -/
def doAction (r : Robot) : Except JsonFault (Action × Robot) := do
  let step := r.step
  let (id, info) := r.playerInfo.touch playerId
  let id ← id.asInt
  let r := { r with playerInfo := info }
  let send (out : Json × Robot) : Action × Robot := (⟨out.1, step, id⟩, out.2)
  if step = playerLoginReq then return send r.handleLoginReq
  else if step = playerRegistReq then return send r.handleRegistReq
  else if step = playerCreateRoleReq then return send r.handleCreateRoleReq
  else if step = playerEnterGameReq then return send r.handleEnterGameReq
  else if step = playerHeartBeatReq then return send r.handleHeartBeatReq
  else return (⟨.null, -1, id⟩, r)

/-! ## What an empty body does -/

/-- The robot is already where the response to `protoId` would take it, were it one of
success without a player: logged in or registered as player 0, in the game without a name,
a level and a rank. -/
def Settled (r : Robot) (protoId : Int32) : Prop :=
  if protoId = playerLoginRsp then
    r.step = playerEnterGameReq ∧ r.playerInfo.lookup playerId = some (.int 0)
  else if protoId = playerRegistRsp then
    r.step = playerLoginReq ∧ r.playerInfo.lookup playerId = some (.int 0)
  else if protoId = playerCreateRoleRsp then r.step = playerEnterGameReq
  else if protoId = playerEnterGameRsp then
    r.step = playerHeartBeatReq ∧
      ∀ key ∈ [nickName, level, vip], r.playerInfo.lookup key = some .null
  else if protoId = playerHeartBeatRsp then r.step = playerLoginReq
  else True

/-- The step and the player information of a robot -/
def progress (r : Robot) : Int32 × Record := (r.step, r.playerInfo)

theorem progress_enter_eq_iff {r : Robot} {key : CString} {v : Json} {step : Int32} :
    ((r.enter key v).setStep step).progress = r.progress ↔
      r.step = step ∧ r.playerInfo.lookup key = some v := by
  rw [progress, progress, Prod.mk.injEq]
  exact and_congr eq_comm Record.set_eq_self_iff

theorem progress_setStep_eq_iff {r : Robot} {step : Int32} :
    (r.setStep step).progress = r.progress ↔ r.step = step := by
  rw [progress, progress, Prod.mk.injEq]
  exact ⟨fun h => h.1.symm, fun h => ⟨h.symm, rfl⟩⟩

/-- Three different names, so one assignment does not undo another. -/
theorem progress_enterGame_eq_iff {r : Robot} {step : Int32} :
    ((((r.enter nickName .null).enter level .null).enter vip .null).setStep step).progress =
        r.progress ↔
      r.step = step ∧ ∀ key ∈ [nickName, level, vip], r.playerInfo.lookup key = some .null := by
  rw [progress, progress, Prod.mk.injEq]
  refine and_congr eq_comm ⟨fun h key hkey => ?_, fun h => ?_⟩
  · -- every one of the three names is looked up in what the three assignments leave
    have hset : ((r.playerInfo.set nickName .null).set level .null).set vip .null =
        r.playerInfo := h
    rw [← hset, Record.lookup_set, Record.lookup_set, Record.lookup_set]
    simp only [List.mem_cons, List.not_mem_nil, or_false] at hkey
    rcases hkey with rfl | rfl | rfl <;> simp
  · have hname := Record.set_of_lookup (h nickName (by simp))
    have hlevel := Record.set_of_lookup (h level (by simp))
    have hvip := Record.set_of_lookup (h vip (by simp))
    simp only [setStep, enter, hname, hlevel, hvip]

/-- **An empty response is one of success.** Null in place of a response changes nothing
of the progress exactly for a robot that is there already. -/
theorem dispatch_null_keeps_iff (r : Robot) (protoId : Int32) :
    ∃ r', r.dispatch protoId .null = .ok r' ∧
      (r'.progress = r.progress ↔ r.Settled protoId) := by
  rw [dispatch, Settled]
  split_ifs
  · exact ⟨_, rfl, progress_enter_eq_iff⟩
  · exact ⟨_, rfl, progress_enter_eq_iff⟩
  · exact ⟨_, rfl, progress_setStep_eq_iff⟩
  · exact ⟨_, rfl, progress_enterGame_eq_iff⟩
  · exact ⟨_, rfl, progress_setStep_eq_iff⟩
  · exact ⟨r, rfl, iff_of_true rfl trivial⟩

/-! ## Runs of the robot -/

/-- The calls the client makes. -/
inductive Call : Type where
  | doAction : Call
  | handleMsg (msg : NetMessage) : Call
  | reset : Call

/-- The robot after a call; a fault leaves it as it was. -/
def call (J : JsonLib) (r : Robot) : Call → Robot
  | .doAction => (r.doAction.toOption.map Prod.snd).getD r
  | .handleMsg msg => (r.handleMsg J msg).toOption.getD r
  | .reset => r.reset

/-- The steps a robot takes. No response to the creation of a role and to a heartbeat is
waited for. -/
def steps : List Int32 :=
  [playerLoginReq, playerLoginRsp, playerRegistReq, playerRegistRsp, playerEnterGameReq,
    playerEnterGameRsp, playerCreateRoleReq, playerHeartBeatReq]

/-- What holds of a robot in use. -/
structure Sound (r : Robot) : Prop where
  /-- the step is one of the known ones -/
  step : r.step ∈ steps
  /-- the player id is a number, or nothing -/
  player : ∀ v, r.playerInfo.lookup playerId = some v → v = .null ∨ ∃ n, v = .int n

theorem sound_create (pre : CString) (id : Int32) : (create pre id).Sound := by
  refine ⟨by simp [create, steps], fun v h => ?_⟩
  cases h

theorem Sound.setStep {r : Robot} (h : r.Sound) {step : Int32} (hstep : step ∈ steps) :
    (r.setStep step).Sound := ⟨hstep, h.player⟩

theorem Sound.enter_playerId {r : Robot} (h : r.Sound) (n : Int32) :
    (r.enter playerId (.int n)).Sound := by
  refine ⟨h.step, fun v hv => ?_⟩
  rw [enter, Record.lookup_set, if_pos rfl] at hv
  exact .inr ⟨n, (Option.some.inj hv).symm⟩

/-- Another member does not touch the player id. -/
theorem Sound.enter_ne {r : Robot} (h : r.Sound) {key : CString} (hkey : playerId ≠ key)
    (v : Json) : (r.enter key v).Sound := by
  refine ⟨h.step, fun w hw => ?_⟩
  rw [enter, Record.lookup_set, if_neg hkey] at hw
  exact h.player w hw

/-- Reading the player id gives a number and keeps the robot sound. -/
theorem Sound.touch {r : Robot} (h : r.Sound) :
    (∃ n, (r.playerInfo.touch playerId).1.asInt = .ok n) ∧
      ({ r with playerInfo := (r.playerInfo.touch playerId).2 } : Robot).Sound := by
  cases hl : r.playerInfo.lookup playerId with
  | some v =>
    rw [Record.touch, hl]
    refine ⟨?_, h⟩
    obtain rfl | ⟨n, rfl⟩ := h.player v hl
    · exact ⟨0, rfl⟩
    · exact ⟨n, rfl⟩
  | none =>
    rw [Record.touch, hl]
    refine ⟨⟨0, rfl⟩, h.step, fun v hv => ?_⟩
    rw [Record.lookup_set, if_pos rfl] at hv
    exact .inl (Option.some.inj hv).symm

/-- Whatever is returned has the property. -/
def Ensures {α : Type} (P : α → Prop) (x : Except JsonFault α) : Prop := ∀ a, x = .ok a → P a

theorem ensures_pure {α : Type} {P : α → Prop} {a : α} (h : P a) : Ensures P (pure a) := by
  intro b hb
  cases hb
  exact h

/-- What comes before only decides whether it is reached. -/
theorem ensures_bind {α β : Type} {P : β → Prop} {x : Except JsonFault α}
    {f : α → Except JsonFault β} (h : ∀ a, Ensures P (f a)) : Ensures P (x >>= f) := by
  intro b hb
  cases x with
  | error fault => cases hb
  | ok a => exact h a b hb

/-- A response leaves a sound robot sound. -/
theorem Sound.dispatch {r : Robot} (h : r.Sound) (protoId : Int32) (msg : Json) :
    Ensures Sound (r.dispatch protoId msg) := by
  have hstep : ∀ step ∈ steps, ∀ s : Robot, s.Sound → Ensures Sound (pure (s.setStep step)) :=
    fun step hmem s hs => ensures_pure (hs.setStep hmem)
  have hplayer : ∀ step ∈ steps, Ensures Sound (do
      let id ← (← msg.msgAt 1).asInt
      return (r.enter playerId (.int id)).setStep step) :=
    fun step hmem => ensures_bind fun _ => ensures_bind fun id =>
      hstep step hmem _ (h.enter_playerId id)
  rw [Robot.dispatch]
  split_ifs
  · refine ensures_bind fun _ => ensures_bind fun _ => ?_
    split_ifs
    · exact hplayer _ (by decide)
    · exact hstep _ (by decide) _ h
    · exact hstep _ (by decide) _ h
  · refine ensures_bind fun _ => ensures_bind fun _ => ?_
    split_ifs
    · exact hplayer _ (by decide)
    · exact hstep _ (by decide) _ h
  · refine ensures_bind fun _ => ensures_bind fun _ => ?_
    split_ifs <;> exact hstep _ (by decide) _ h
  · refine ensures_bind fun _ => ensures_bind fun _ => ?_
    split_ifs
    · refine ensures_bind fun _ => ensures_bind fun name => ensures_bind fun lv =>
        ensures_bind fun rank => hstep _ (by decide) _ ?_
      exact ((h.enter_ne (by decide) name).enter_ne (by decide) lv).enter_ne (by decide) rank
    · exact hstep _ (by decide) _ h
    · exact hstep _ (by decide) _ h
  · exact hstep _ (by decide) _ h
  · exact ensures_pure h

/-- Each response sets one of the known steps, and a player id is entered as a number. -/
theorem Sound.handleMsg {r : Robot} (h : r.Sound) (J : JsonLib) (msg : NetMessage) :
    Ensures Sound (r.handleMsg J msg) := by
  rw [Robot.handleMsg]
  split
  · exact ensures_pure h
  · exact h.dispatch _ _

/-- A sound robot acts without a fault, and stays sound. -/
theorem Sound.doAction {r : Robot} (h : r.Sound) :
    ∃ action r', r.doAction = .ok (action, r') ∧ r'.Sound := by
  obtain ⟨⟨id, hid⟩, hinfo⟩ := h.touch
  simp only [Robot.doAction, hid, bind, Except.bind]
  split_ifs
  · exact ⟨_, _, rfl, hinfo.setStep (by decide)⟩
  · exact ⟨_, _, rfl, hinfo.setStep (by decide)⟩
  · exact ⟨_, _, rfl, hinfo.setStep (by decide)⟩
  · exact ⟨_, _, rfl, hinfo.setStep (by decide)⟩
  · exact ⟨_, _, rfl, hinfo.setStep (by decide)⟩
  · exact ⟨_, _, rfl, hinfo⟩

/-- A call that fails leaves the robot as it was. -/
theorem Sound.call {r : Robot} (h : r.Sound) (J : JsonLib) (c : Call) : (r.call J c).Sound := by
  cases c with
  | doAction =>
    obtain ⟨action, r', hr, hsound⟩ := h.doAction
    rw [Robot.call, hr]
    exact hsound
  | handleMsg msg =>
    rw [Robot.call]
    cases hr : r.handleMsg J msg with
    | error fault => exact h
    | ok r' => exact h.handleMsg J msg r' hr
  | reset => exact h.setStep (by decide)

/-- **Runs of the robot.** Whatever it is sent, the robot is at one of the known steps and
its next action does not fault. -/
theorem sound_always (J : JsonLib) (pre : CString) (id : Int32) (calls : List Call) :
    Always (call J) (fun r => r.step ∈ steps ∧ ∃ action r', r.doAction = .ok (action, r'))
      (create pre id) calls := by
  intro before hbefore
  have hsound := always_of_step (P := Sound) (fun r c h => h.call J c) (sound_create pre id)
    calls before hbefore
  obtain ⟨action, r', hr, -⟩ := hsound.doAction
  exact ⟨hsound.step, action, r', hr⟩

end Robot

end MyServer
