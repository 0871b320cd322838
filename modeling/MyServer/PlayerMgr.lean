import MyServer.AccountMgr

/-!
# The player manager (`playerMgr.cpp`, `mongoMgr.cpp`)

The roles of the players, in a map and in one collection of the database. The map is
filled when a role is created, changed or first looked for; the constructor leaves it
empty, so a restart empties it while the collection stays. A second map, from nicknames
to players, is looked at before a role is created; nothing ever enters it.

The database and its faults are those of the account manager. Here an object that is
saved may come with an `_id`. The server does not change the `_id` of a document, and it does
not insert a second document with the same one: it leaves the collection alone, and the client
does not hear of it.
-/

namespace MyServer

/-! ## The database -/

namespace Document

/-- The members of an object except `_id`. -/
def withoutId (ms : List (CString × Json)) : List (CString × Json) :=
  ms.filter fun m => m.1 ≠ idKey

/-- The document that an object gives when it is inserted: with the `_id` it comes with, if no
other document has that, or with a new one. -/
def inserted (obj : List (CString × Json)) (oid : ObjectId) (col : List Document) :
    Option Document :=
  match obj.lookup idKey with
  | none => some ⟨oid.json, obj⟩
  | some id => if col.any (fun d => d.id = id) then none else some ⟨id, withoutId obj⟩

/-- What an object leaves of the document it is to replace: one with another `_id` nothing. -/
def replaced (obj : List (CString × Json)) (d : Document) : Document :=
  if (obj.lookup idKey).getD d.id = d.id then ⟨d.id, withoutId obj⟩ else d

/-- `update` with `upsert`, of an object that may have an `_id`: `before` are the documents that
do not match. -/
def saveFrom (query obj : List (CString × Json)) (oid : ObjectId) (before : List Document) :
    List Document → List Document
  | [] => before ++ (inserted obj oid before).toList
  | d :: ds =>
    if d.isMatch query then before ++ replaced obj d :: ds
    else saveFrom query obj oid (before ++ [d]) ds

/-- `update` with `upsert`. -/
def save (query obj : List (CString × Json)) (oid : ObjectId) (col : List Document) :
    List Document := saveFrom query obj oid [] col

end Document

namespace MongoMgr

variable (J : JsonLib) (M : MongoLib) (env : Env)

/-- `saveJson`, with the collection it leaves -/
def saveJson (col : List Document) (query obj : List UInt8) : Bool × List Document :=
  let queryStr := tighten query
  let objStr := tighten obj
  match M.fromjson queryStr, M.fromjson objStr with
  | some query, some obj =>
    if env.updateThrows then (false, col) else (true, Document.save query obj env.oid col)
  | _, _ => (false, col)

/-- `saveJson2` -/
def saveJson2 (col : List Document) (query obj : Json) : Bool × List Document :=
  let queryStr := tighten (J.toStyledString query)
  let objStr := tighten (J.toStyledString obj)
  saveJson M env col queryStr objStr

/-- `findJson` of a text. Unlike the one of the account manager it leaves the `_id` in. -/
def findText (col : List Document) (query : List UInt8) : Json :=
  let queryStr := tighten query
  match M.fromjson queryStr with
  | none => .null
  | some query =>
    if env.findThrows then .null
    else
      match col.find? (Document.isMatch query) with
      | none => .null
      | some obj => (J.parse (M.jsonString obj.members)).getD .null

/-- `findJson` -/
def findJson (col : List Document) (queryJson : Json) : Json :=
  findText J M env col (tighten (J.toStyledString queryJson))

end MongoMgr

namespace Json

/-- `value[key] = v` -/
def setMember (key : CString) (v : Json) : Json → Except JsonFault Json
  | null => .ok (obj [(key, v)])
  | obj ms => .ok (obj (insertMember key v ms))
  | _ => .error .abort

/-- `isString` -/
def isString : Json → Bool
  | str _ => true
  | _ => false

end Json

/-! ## The manager -/

/-- The class `PlayerMgr`. -/
structure PlayerMgr : Type where
  /-- `m_PlayerInfoMap` -/
  playerInfoMap : Std.TreeMap Int32 Json
  /-- `m_NickNameMap` -/
  nickNameMap : List (CString × Int32)

/-- The game server's players: the manager and the collection. -/
structure Players : Type where
  /-- the manager -/
  mgr : PlayerMgr
  /-- the collection -/
  col : List Document

namespace PlayerMgr

/-- `PlayerMgr()` -/
def create : PlayerMgr := ⟨∅, []⟩

/-! ### Member names (`stringDef.h`) -/

/-- `db::Player::playerId`, the same text as `db::Account::playerId` -/
def playerId : CString := AccountMgr.playerId

/-- `db::Player::nickName` -/
def nickName : CString := ⟨[110, 110], by decide⟩

/-- `db::Player::level` -/
def level : CString := ⟨[108, 118], by decide⟩

/-- `db::Player::vip` -/
def vip : CString := ⟨[118, 105, 112], by decide⟩

end PlayerMgr

namespace Players

open PlayerMgr

variable (J : JsonLib) (M : MongoLib) (env : Env)

/-- `m_PlayerInfoMap[playerId] = json` -/
def cache (w : Players) (playerId : Int32) (json : Json) : Players :=
  { w with mgr := { w.mgr with playerInfoMap := w.mgr.playerInfoMap.insert playerId json } }

/-- `savePlayer`. It sets the player id in the object it saves. -/
def savePlayer (w : Players) (id : Int32) (json : Json) : Except JsonFault Bool × Players :=
  let key := Json.obj [(playerId, .int id)]
  match Json.setMember playerId (.int id) json with
  | .error fault => (.error fault, w)
  | .ok json =>
    let saved := MongoMgr.saveJson2 J M env w.col key json
    (.ok saved.1, { w with col := saved.2 })

/-- The object of a new player, member by member. -/
def role (id : Int32) (nickname : CString) : List (CString × Json) :=
  let player := [(playerId, .int id)]
  let player := Json.insertMember nickName (.str nickname) player
  let player := Json.insertMember level (.int 1) player
  Json.insertMember vip (.int 0) player

/-- `newPlayer` -/
def newPlayer (w : Players) (id : Int32) (nickname : CString) : Bool × Players :=
  if w.mgr.playerInfoMap[id]?.isSome then (false, w)
  else if (w.mgr.nickNameMap.lookup nickname).isSome then (false, w)
  else
    let player := Json.obj (role id nickname)
    let w := w.cache id player
    -- the result of `savePlayer` is not looked at
    (true, (savePlayer J M env w id player).2)

/-- `findPlayer`: the player's object, `none` when it returns false -/
def findPlayer (w : Players) (id : Int32) : Option Json × Players :=
  match w.mgr.playerInfoMap[id]? with
  | some json => (some json, w)
  | none =>
    let key := Json.obj [(playerId, .int id)]
    let player := MongoMgr.findJson J M env w.col key
    if player = .null then (none, w) else (some player, w.cache id player)

/-- `modifyUpdatePlayerInfo`. The map gets the object as the caller has it. -/
def modifyUpdatePlayerInfo (w : Players) (id : Int32) (json : Json) :
    Except JsonFault Bool × Players :=
  savePlayer J M env (w.cache id json) id json

/-! ## The handlers -/

/-- What `createRoleReq` takes out of its request: `none` when it is refused with `-1`. -/
def nicknameOf (req : Json) : Except JsonFault (Option CString) := do
  let msg ← req.member Json.msgKey
  if !msg.isArray || msg.size < 1 then return none
  let first ← msg.index 0
  if !first.isString then return none
  return some (← first.asString)

/-- `createRoleReq` -/
def createRoleReq : HandlerFunc Players :=
  fun req id w =>
    match nicknameOf req with
    | .error fault => (.error fault, w)
    | .ok none => (.ok (false, Json.reply [.int (-1)]), w)
    | .ok (some nickname) =>
      -- the result of `newPlayer` is not looked at
      (.ok (true, Json.reply [.int 0]), (newPlayer J M env w id nickname).2)

/-- The second element of the answer of `enterGameReq`. -/
def roleInfo (playerInfo : Json) : Except JsonFault Json := do
  let name ← playerInfo.member nickName
  let vipLevel ← playerInfo.member vip
  let lv ← playerInfo.member level
  let info := [(nickName, name)]
  let info := Json.insertMember vip vipLevel info
  return .obj (Json.insertMember level lv info)

/-- `enterGameReq` -/
def enterGameReq : HandlerFunc Players :=
  fun _ id w =>
    match findPlayer J M env w id with
    | (none, w) => (.ok (true, Json.reply [.int 1]), w)
    | (some playerInfo, w) =>
      ((roleInfo playerInfo).map fun info => (true, Json.reply [.int 0, info]), w)

/-! ## Runs -/

/-- A new `PlayerMgr` on the same collection. -/
def restart (w : Players) : Players := ⟨.create, w.col⟩

end Players

/-- What happens to the players of the game server. -/
inductive PlayerOp : Type where
  /-- `PLAYER_CREATE_ROLE_REQ` -/
  | createRole : Json → Int32 → Env → PlayerOp
  /-- `PLAYER_ENTER_GAME_REQ` -/
  | enterGame : Json → Int32 → Env → PlayerOp
  /-- `modifyUpdatePlayerInfo` -/
  | modify : Int32 → Json → Env → PlayerOp
  /-- the server is started again -/
  | restart : PlayerOp

namespace Players

variable (J : JsonLib) (M : MongoLib)

/-- After a call that did not fail. A failed `assert` ends the process, which is then
started again. -/
def settle {α : Type} : Except JsonFault α × Players → Players
  | (.ok _, w) => w
  | (.error _, w) => w.restart

/-- One step of the game server. -/
def step (w : Players) : PlayerOp → Players
  | .createRole req id env => settle (createRoleReq J M env req id w)
  | .enterGame req id env => settle (enterGameReq J M env req id w)
  | .modify id json env => settle (modifyUpdatePlayerInfo J M env w id json)
  | .restart => w.restart

end Players

end MyServer
