import MyServer.Accounts
import MyServer.JsonNormal
import MyServer.PlayerMgr
import MyServer.Responses

/-!
# Requests that make a handler fail (`funcHandler.cpp`, `accountMgr.cpp`, `playerMgr.cpp`)

The accessors of the JSON library check the kind of the value they are called on and abort
or throw when it is the wrong one. The handlers test some of what they are sent before they
use it, and not the rest: nothing tests that the request is an object, and the account
handlers do not test that the two elements they take from an array are strings.

`dispatch_returns_iff` says for each of the four handlers, and for every request that parses,
when its dispatch returns. Besides the request it depends on what the database holds, for
that is read with the same accessors.
-/

namespace MyServer

universe u v

/-- The computation returns: no check of the JSON library fails. -/
def Returns {α : Type u} (x : Except JsonFault α) : Prop := ∃ a, x = .ok a

theorem returns_ok {α : Type u} (a : α) : Returns (.ok a) := ⟨a, rfl⟩

theorem not_returns_error {α : Type u} (fault : JsonFault) :
    ¬ Returns (.error fault : Except JsonFault α) := by
  rintro ⟨a, h⟩
  cases h

/-- A sequence returns if each part does, on what the part before it returned. -/
theorem returns_bind {α β : Type u} {x : Except JsonFault α} {f : α → Except JsonFault β} :
    Returns (x >>= f) ↔ ∃ a, x = .ok a ∧ Returns (f a) := by
  cases x with
  | error fault =>
    refine iff_of_false (not_returns_error fault) ?_
    rintro ⟨a, h, -⟩
    cases h
  | ok a =>
    refine ⟨fun h => ⟨a, rfl, h⟩, ?_⟩
    rintro ⟨b, h, hb⟩
    cases h
    exact hb

namespace Json

/-- `operator[](key)` is allowed. -/
def HasMembers : Json → Prop
  | null => True
  | obj _ => True
  | _ => False

/-- `asString` is allowed. -/
def Textual : Json → Prop
  | null => True
  | str _ => True
  | bool _ => True
  | _ => False

/-- The member of a value, `null` when it has none. -/
def memberOf (key : CString) : Json → Json
  | obj ms => find key ms
  | _ => null

/-- Where it is allowed, `operator[]` gives the member or null. -/
theorem member_eq {v : Json} (h : v.HasMembers) (key : CString) :
    v.member key = .ok (v.memberOf key) := by
  cases v with
  | null | obj _ => rfl
  | int _ | uint _ | real _ | str _ | bool _ | arr _ => exact absurd h id

theorem returns_member {v : Json} {key : CString} : Returns (v.member key) ↔ v.HasMembers := by
  refine ⟨?_, fun h => ⟨_, member_eq h key⟩⟩
  intro h
  cases v with
  | null | obj _ => trivial
  | int _ | uint _ | real _ | str _ | bool _ | arr _ => exact absurd h (not_returns_error _)

theorem returns_asString {v : Json} : Returns v.asString ↔ v.Textual := by
  cases v with
  | null | str _ => exact iff_of_true ⟨_, rfl⟩ trivial
  | bool b => cases b <;> exact iff_of_true ⟨_, rfl⟩ trivial
  | int _ | uint _ | real _ | arr _ | obj _ => exact iff_of_false (not_returns_error _) id

end Json

/-! ## The dispatch -/

/-- A dispatch returns when the handler does. -/
theorem returns_runFuncHandler {σ : Type u} {J : JsonLib} {regs : List (Registration σ)}
    {req : NetMessage} {v : Json} {r : Registration σ} (hbody : bodyOf J req = some v)
    (hfirst : firstFor req.proto regs = some r) (rsp : NetMessage) (w : σ) :
    Returns ((registered regs).runFuncHandler J req rsp w).1 ↔
      Returns (r.handler v req.playerId w).1 := by
  obtain ⟨hhandler, hproto⟩ := lookup_registered regs req.proto
  rw [FuncHandler.runFuncHandler, hhandler, hproto, ← bodyOf, hbody, hfirst]
  dsimp only [Option.map_some]
  rcases r.handler v req.playerId w with ⟨fault | ⟨_ | _, rspJson⟩, w'⟩
  · exact iff_of_false (not_returns_error _) (not_returns_error _)
  · exact iff_of_true (returns_ok _) (returns_ok _)
  · exact iff_of_true (returns_ok _) (returns_ok _)

/-- A dispatch whose handler returns true. -/
theorem runFuncHandler_of_handled {σ : Type u} {J : JsonLib} {regs : List (Registration σ)}
    {req : NetMessage} {w w' : σ} {v rsp : Json} {r : Registration σ}
    (hbody : bodyOf J req = some v) (hfirst : firstFor req.proto regs = some r)
    (hrun : r.handler v req.playerId w = (.ok (true, rsp), w')) :
    (registered regs).runFuncHandler J req .blank w =
      (.ok (true, filled r.responseId req (tighten (J.toStyledString rsp))), w') := by
  obtain ⟨hhandler, hproto⟩ := lookup_registered regs req.proto
  rw [FuncHandler.runFuncHandler, hhandler, hproto, ← bodyOf, hbody, hfirst]
  dsimp only [Option.map_some]
  rw [hrun]
  rfl

/-! ## The account handlers -/

namespace AccountMgr

variable (J : JsonLib) (M : MongoLib) (env : Env)

/-- `registFunc` -/
def registFunc : List (Registration (List Document)) :=
  [⟨playerRegistReq, playerRegistRsp, handlePlayerRegist J M env⟩,
    ⟨playerLoginReq, playerLoginRsp, handlePlayerLogin J M env⟩]

/-- The request has members, and the two elements that are taken from its `msg` are null,
strings or booleans. -/
def Credible (req : Json) : Prop :=
  req.HasMembers ∧ ∀ x y rest, req.memberOf Json.msgKey = .arr (x :: y :: rest) →
    x.Textual ∧ y.Textual

/-- What the handlers take out of a request that has members. -/
theorem credentials_eq {req : Json} (h : req.HasMembers) :
    credentials req =
      match req.memberOf Json.msgKey with
      | .arr (x :: y :: _) => do return some (← x.asString, ← y.asString)
      | _ => .ok none := by
  rw [credentials, Json.member_eq h]
  rcases req.memberOf Json.msgKey with _ | _ | _ | _ | _ | _ | (_ | ⟨x, _ | ⟨y, rest⟩⟩) | _ <;> rfl

/-- `asString` is called on two elements only if the array has them; otherwise nothing is read. -/
theorem returns_credentials {req : Json} : Returns (credentials req) ↔ Credible req := by
  by_cases hreq : req.HasMembers
  · rw [credentials_eq hreq, Credible, and_iff_right hreq]
    split
    · rename_i x y rest hmsg
      rw [returns_bind]
      refine ⟨?_, ?_⟩
      · rintro ⟨name, hname, h⟩
        obtain ⟨pass, hpass, -⟩ := returns_bind.mp h
        intro x' y' rest' heq
        cases hmsg.symm.trans heq
        exact ⟨Json.returns_asString.mp ⟨name, hname⟩, Json.returns_asString.mp ⟨pass, hpass⟩⟩
      · intro h
        obtain ⟨hx, hy⟩ := h x y rest hmsg
        obtain ⟨name, hname⟩ := Json.returns_asString.mpr hx
        obtain ⟨pass, hpass⟩ := Json.returns_asString.mpr hy
        exact ⟨name, hname, returns_bind.mpr ⟨pass, hpass, returns_ok _⟩⟩
    · rename_i hmsg
      refine iff_of_true (returns_ok _) ?_
      intro x y rest heq
      exact absurd heq (hmsg x y rest)
  · refine iff_of_false ?_ fun h => hreq h.1
    intro h
    rw [credentials] at h
    obtain ⟨msg, hmsg, -⟩ := returns_bind.mp h
    exact hreq (Json.returns_member.mp ⟨msg, hmsg⟩)

/-- The document under a name, as it is read back. -/
def stored (col : List Document) (name : CString) : Option Json := do
  let query ← M.fromjson (tighten (J.toStyledString (.obj [(userName, .str name)])))
  if env.findThrows then none
  else
    let doc ← col.find? (Document.isMatch query)
    J.parse (M.jsonString doc.members)

/-- `findJson` gives null where nothing is found, and takes the `_id` out of what it does find. -/
theorem findJson_stored (col : List Document) (name : CString) :
    findJson J M env col (J.toStyledString (.obj [(userName, .str name)])) =
      match stored J M env col name with
      | none => .ok .null
      | some doc => doc.removeMember idKey := by
  rw [findJson, stored]
  rcases M.fromjson (tighten (J.toStyledString (.obj [(userName, .str name)]))) with _ | query
  · rfl
  by_cases hthrows : env.findThrows = true
  · simp [hthrows]
  · rcases hfind : col.find? (Document.isMatch query) with _ | doc
    · simp [hthrows, hfind]
    · rcases hparse : J.parse (M.jsonString doc.members) with _ | ret
      · simp [hthrows, hfind, hparse]
      · simp [hthrows, hfind, hparse]

theorem returns_removeMember {doc : Json} : Returns (doc.removeMember idKey) ↔ doc.HasMembers := by
  cases doc with
  | null | obj _ => exact iff_of_true ⟨_, rfl⟩ trivial
  | int _ | uint _ | real _ | str _ | bool _ | arr _ => exact iff_of_false (not_returns_error _) id

/-- `removeMember` leaves the other members. -/
theorem memberOf_removeMember {doc tmp : Json} (h : doc.removeMember idKey = .ok tmp) :
    tmp.HasMembers ∧ tmp.memberOf userPass = doc.memberOf userPass := by
  cases doc with
  | null =>
    cases h
    exact ⟨trivial, rfl⟩
  | obj ms =>
    cases h
    refine ⟨trivial, ?_⟩
    rw [Json.memberOf, Json.memberOf, Json.find, Json.find, Json.lookup_filter_ne,
      if_neg (by decide)]
  | int _ | uint _ | real _ | str _ | bool _ | arr _ => cases h

/-- A value without members has no password. -/
theorem textual_of_empty {tmp : Json} (h : tmp.HasMembers) (hempty : tmp.empty = true) :
    (tmp.memberOf userPass).Textual := by
  cases tmp with
  | null => trivial
  | obj ms =>
    obtain rfl : ms = [] := List.isEmpty_iff.mp hempty
    trivial
  | int _ | uint _ | real _ | str _ | bool _ | arr _ => exact absurd h id

/-- The member is there or null, and null is the empty string. -/
theorem returns_checkPass {tmp : Json} (h : tmp.HasMembers) (pass : CString) :
    Returns (checkPass pass tmp) ↔ (tmp.memberOf userPass).Textual := by
  rw [checkPass]
  by_cases hempty : tmp.empty = true
  · rw [if_pos hempty]
    exact iff_of_true (returns_ok _) (textual_of_empty h hempty)
  · rw [if_neg hempty, Json.member_eq h, Json.member_eq h, ← Json.returns_asString]
    refine ⟨?_, ?_⟩
    · intro hrun
      obtain ⟨value, hvalue, hrest⟩ := returns_bind.mp hrun
      cases hvalue
      obtain ⟨text, htext, -⟩ := returns_bind.mp hrest
      exact ⟨text, htext⟩
    · rintro ⟨text, htext⟩
      refine returns_bind.mpr ⟨_, rfl, returns_bind.mpr ⟨text, htext, ?_⟩⟩
      split
      · exact returns_ok _
      · exact returns_ok _

/-- The document that the request leads to has members. -/
def Found (req : Json) (col : List Document) : Prop :=
  ∀ name pass doc, credentials req = .ok (some (name, pass)) → stored J M env col name = some doc →
    doc.HasMembers

/-- Its password is null, a string or a boolean. -/
def Legible (req : Json) (col : List Document) : Prop :=
  ∀ name pass doc, credentials req = .ok (some (name, pass)) → stored J M env col name = some doc →
    (doc.memberOf userPass).Textual

variable {J M env} {req : Json} {col : List Document}

/-- `removeMember` is the one call in it that can fail. -/
theorem returns_findJson {name : CString} :
    Returns (findJson J M env col (J.toStyledString (.obj [(userName, .str name)]))) ↔
      ∀ doc, stored J M env col name = some doc → doc.HasMembers := by
  rw [findJson_stored]
  rcases stored J M env col name with _ | doc
  · exact iff_of_true (returns_ok _) fun doc h => by cases h
  · simp only [Option.some.injEq, forall_eq']
    exact returns_removeMember

/-- What is found has members, and its password is that of the document: the `_id` is another
member. -/
theorem memberOf_findJson {name : CString} {tmp : Json}
    (h : findJson J M env col (J.toStyledString (.obj [(userName, .str name)])) = .ok tmp) :
    tmp.HasMembers ∧ ((tmp.memberOf userPass).Textual ↔
      ∀ doc, stored J M env col name = some doc → (doc.memberOf userPass).Textual) := by
  rw [findJson_stored] at h
  rcases hstored : stored J M env col name with _ | doc
  · rw [hstored] at h
    cases h
    exact ⟨trivial, iff_of_true trivial fun doc h => by cases h⟩
  · rw [hstored] at h
    obtain ⟨hmembers, heq⟩ := memberOf_removeMember h
    simp only [Option.some.injEq, forall_eq']
    exact ⟨hmembers, by rw [heq]⟩

/-- The three calls that can fail come one after the other: the request, the document, its
password. -/
theorem returns_loginAnswer :
    Returns (loginAnswer J M env col req) ↔
      Credible req ∧ Found J M env req col ∧ Legible J M env req col := by
  rw [loginAnswer, returns_bind, ← returns_credentials]
  refine ⟨?_, ?_⟩
  · rintro ⟨c, hc, h⟩
    refine ⟨⟨c, hc⟩, ?_, ?_⟩
    · intro name pass doc hcred hdoc
      cases hc.symm.trans hcred
      obtain ⟨tmp, htmp, -⟩ := returns_bind.mp h
      exact returns_findJson.mp ⟨tmp, htmp⟩ doc hdoc
    · intro name pass doc hcred hdoc
      cases hc.symm.trans hcred
      obtain ⟨tmp, htmp, hcheck⟩ := returns_bind.mp h
      obtain ⟨hmembers, htext⟩ := memberOf_findJson htmp
      exact htext.mp ((returns_checkPass hmembers pass).mp hcheck) doc hdoc
  · rintro ⟨⟨c, hc⟩, hfound, hlegible⟩
    refine ⟨c, hc, ?_⟩
    rcases c with _ | ⟨name, pass⟩
    · exact returns_ok _
    · obtain ⟨tmp, htmp⟩ := returns_findJson.mpr fun doc hdoc => hfound name pass doc hc hdoc
      obtain ⟨hmembers, htext⟩ := memberOf_findJson htmp
      have hcheck := htext.mpr fun doc hdoc => hlegible name pass doc hc hdoc
      exact returns_bind.mpr ⟨tmp, htmp, (returns_checkPass hmembers pass).mpr hcheck⟩

/-- The handler of a registration does not look at the password of the document it finds. -/
theorem returns_handlePlayerRegist (id : Int32) :
    Returns (handlePlayerRegist J M env req id col).1 ↔ Credible req ∧ Found J M env req col := by
  rw [handlePlayerRegist, ← returns_credentials]
  rcases hc : credentials req with fault | _ | ⟨name, pass⟩
  · exact iff_of_false (not_returns_error _) fun h => not_returns_error _ h.1
  · refine iff_of_true (returns_ok _) ⟨returns_ok _, ?_⟩
    intro name pass doc hcred
    cases hc.symm.trans hcred
  · have hfound : Found J M env req col ↔
        Returns (findJson J M env col (J.toStyledString (.obj [(userName, .str name)]))) := by
      rw [returns_findJson]
      refine ⟨fun h doc hdoc => h name pass doc hc hdoc, ?_⟩
      intro h name' pass' doc hcred hdoc
      cases hc.symm.trans hcred
      exact h doc hdoc
    rw [hfound, and_iff_right (returns_ok _)]
    dsimp only
    rcases findJson J M env col (J.toStyledString (.obj [(userName, .str name)])) with fault | tmp
    · exact iff_of_false (not_returns_error _) (not_returns_error _)
    · refine iff_of_true ?_ (returns_ok _)
      dsimp only
      split
      · exact returns_ok _
      · exact returns_ok _

end AccountMgr

/-! ## The player handlers -/

namespace Players

variable (J : JsonLib) (M : MongoLib) (env : Env)

/-- `regFunc` -/
def regFunc : List (Registration Players) :=
  [⟨playerCreateRoleReq, playerCreateRoleRsp, createRoleReq J M env⟩,
    ⟨playerEnterGameReq, playerEnterGameRsp, enterGameReq J M env⟩]

variable {J M env} {req : Json} {w : Players}

/-- The kind of the element is tested before it is used. -/
theorem returns_nicknameOf : Returns (nicknameOf req) ↔ req.HasMembers := by
  rw [nicknameOf, returns_bind]
  refine ⟨?_, ?_⟩
  · rintro ⟨msg, hmsg, -⟩
    exact Json.returns_member.mp ⟨msg, hmsg⟩
  · intro h
    refine ⟨_, Json.member_eq h _, ?_⟩
    rcases req.memberOf Json.msgKey with _ | _ | _ | _ | _ | _ | (_ | ⟨x, rest⟩) | _
    case arr.cons => cases x <;> exact returns_ok _
    all_goals exact returns_ok _

theorem returns_createRoleReq (id : Int32) :
    Returns (createRoleReq J M env req id w).1 ↔ req.HasMembers := by
  rw [createRoleReq, ← returns_nicknameOf]
  rcases nicknameOf req with fault | _ | nickname
  · exact iff_of_false (not_returns_error _) (not_returns_error _)
  · exact iff_of_true (returns_ok _) (returns_ok _)
  · exact iff_of_true (returns_ok _) (returns_ok _)

/-- The role is read member by member, and none of the members is converted. -/
theorem returns_roleInfo {playerInfo : Json} :
    Returns (roleInfo playerInfo) ↔ playerInfo.HasMembers := by
  rw [roleInfo, returns_bind]
  refine ⟨?_, ?_⟩
  · rintro ⟨name, hname, -⟩
    exact Json.returns_member.mp ⟨name, hname⟩
  · intro h
    refine ⟨_, Json.member_eq h _, ?_⟩
    rw [Json.member_eq h, Json.member_eq h]
    exact returns_ok _

/-- The request is not looked at. -/
theorem returns_enterGameReq (req : Json) (id : Int32) :
    Returns (enterGameReq J M env req id w).1 ↔
      ∀ playerInfo, (findPlayer J M env w id).1 = some playerInfo → playerInfo.HasMembers := by
  rw [enterGameReq]
  rcases findPlayer J M env w id with ⟨_ | playerInfo, w'⟩
  · refine iff_of_true (returns_ok _) ?_
    intro playerInfo h
    cases h
  · simp only [Option.some.injEq, forall_eq', ← returns_roleInfo]
    rcases roleInfo playerInfo with fault | info
    · exact iff_of_false (not_returns_error _) (not_returns_error _)
    · exact iff_of_true (returns_ok _) (returns_ok _)

end Players

/-! ## All four -/

open AccountMgr Players in
/-- **When a dispatch returns**, for every request that parses, of any shape, and any state
of the server.

* A login: the request is null or an object, the first two elements of its `msg`, if that is
  an array of at least two, are null, strings or booleans, and the document found under the
  name, if any, is null or an object whose password is null, a string or a boolean.
* A registration: the same, but for the password.
* A new role: the request is null or an object.
* Entering the game: the player found, if any, is null or an object. -/
theorem dispatch_returns_iff (J : JsonLib) (M : MongoLib) (env : Env) {req : NetMessage} {v : Json}
    (hbody : bodyOf J req = some v) (rsp : NetMessage) :
    (∀ col, req.proto = playerLoginReq →
      (Returns ((registered (registFunc J M env)).runFuncHandler J req rsp col).1 ↔
        Credible v ∧ Found J M env v col ∧ Legible J M env v col)) ∧
    (∀ col, req.proto = playerRegistReq →
      (Returns ((registered (registFunc J M env)).runFuncHandler J req rsp col).1 ↔
        Credible v ∧ Found J M env v col)) ∧
    (∀ w, req.proto = playerCreateRoleReq →
      (Returns ((registered (regFunc J M env)).runFuncHandler J req rsp w).1 ↔ v.HasMembers)) ∧
    (∀ w, req.proto = playerEnterGameReq →
      (Returns ((registered (regFunc J M env)).runFuncHandler J req rsp w).1 ↔
        ∀ playerInfo, (findPlayer J M env w req.playerId).1 = some playerInfo →
          playerInfo.HasMembers)) := by
  refine ⟨?_, ?_, ?_, ?_⟩
  · intro col hproto
    have hfirst : firstFor req.proto (registFunc J M env) =
        some ⟨playerLoginReq, playerLoginRsp, handlePlayerLogin J M env⟩ := by
      rw [hproto]
      rfl
    rw [returns_runFuncHandler hbody hfirst]
    exact returns_loginAnswer
  · intro col hproto
    have hfirst : firstFor req.proto (registFunc J M env) =
        some ⟨playerRegistReq, playerRegistRsp, handlePlayerRegist J M env⟩ := by
      rw [hproto]
      rfl
    rw [returns_runFuncHandler hbody hfirst]
    exact returns_handlePlayerRegist req.playerId
  · intro w hproto
    have hfirst : firstFor req.proto (regFunc J M env) =
        some ⟨playerCreateRoleReq, playerCreateRoleRsp, createRoleReq J M env⟩ := by
      rw [hproto]
      rfl
    rw [returns_runFuncHandler hbody hfirst]
    exact returns_createRoleReq req.playerId
  · intro w hproto
    have hfirst : firstFor req.proto (regFunc J M env) =
        some ⟨playerEnterGameReq, playerEnterGameRsp, enterGameReq J M env⟩ := by
      rw [hproto]
      rfl
    rw [returns_runFuncHandler hbody hfirst]
    exact returns_enterGameReq v req.playerId

/-- A login with the text `{"msg":["a","b"]}`. -/
def loginA : NetMessage :=
  .ofJson [123, 34, 109, 115, 103, 34, 58, 91, 34, 97, 34, 44, 34, 98, 34, 93, 125]
    playerLoginReq 7 3

/-- The account `a` with the password `b`. -/
def accountA : Account := ⟨AccountMgr.calmEnv.oid, 1, 0, AccountMgr.userA, AccountMgr.userB⟩

open AccountMgr in
theorem dispatch_returns_stored :
    stored wholeJson wholeMongo calmEnv [accountA.document] userA =
        some (.obj accountA.document.members) ∧
      Returns ((registered (registFunc wholeJson wholeMongo calmEnv)).runFuncHandler
        wholeJson loginA .blank [accountA.document]).1 := by
  have hbody : bodyOf wholeJson loginA =
      some (.obj [(Json.msgKey, .arr [.str userA, .str userB])]) := by decide +kernel
  have hstored : stored wholeJson wholeMongo calmEnv [accountA.document] userA =
      some (.obj accountA.document.members) := by decide +kernel
  have hiff := dispatch_returns_iff wholeJson wholeMongo calmEnv hbody .blank
  refine ⟨hstored, (hiff.1 [accountA.document] rfl).mpr ⟨⟨trivial, ?_⟩, ?_, ?_⟩⟩
  · intro x y rest hmsg
    cases hmsg
    exact ⟨trivial, trivial⟩
  -- the only document it leads to is the account's
  · intro name pass doc hname hdoc
    cases hname
    cases hstored.symm.trans hdoc
    trivial
  · intro name pass doc hname hdoc
    cases hname
    cases hstored.symm.trans hdoc
    trivial

/-- A login with the text `5`. -/
def numberLogin : NetMessage := .ofJson [53] playerLoginReq 7 3

/-- **A number for a request**: the reader accepts it, and the handler aborts on it. -/
theorem dispatch_aborts_on_number :
    wholeJson.parse numberLogin.message = some (.int 5) ∧
      ((registered (AccountMgr.registFunc wholeJson wholeMongo AccountMgr.calmEnv)).runFuncHandler
        wholeJson numberLogin .blank []).1 = .error .abort := by
  have hparse : wholeJson.parse numberLogin.message = some (.int 5) := by decide +kernel
  refine ⟨hparse, ?_⟩
  obtain ⟨hhandler, hproto⟩ := lookup_registered
    (AccountMgr.registFunc wholeJson wholeMongo AccountMgr.calmEnv) numberLogin.proto
  have hmessage : numberLogin.message ≠ [] := by decide
  rw [FuncHandler.runFuncHandler, hhandler, hproto, if_pos hmessage, hparse]
  rfl

end MyServer
