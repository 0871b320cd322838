import MyServer.FuncHandler

/-!
# The account manager (`accountMgr.cpp`, `accountMgr.h`)

Registration and login over one collection of the database. The collection is the list of
its documents in the order `findOne` meets them; a query is a list of members and matches
by equality; `update` with `upsert` replaces the first match, whose `_id` stays, or
inserts the document.

The database's client library is a parameter: `fromjson` and `jsonString`. What happens
outside during one request is its `Env`: the clock, the `_id` a new document would get,
and which of the three database calls throw a `DBException`.

The handlers see a failed call only through `findJson`, `dbCount` and `saveJson`, which
turn it into `null`, `0` and `false`.
-/

namespace MyServer

/-! ## The database -/

/-- The client library's BSON, from and to JSON text. -/
structure MongoLib : Type where
  /-- `mongo::fromjson`; `none` when it throws -/
  fromjson : List UInt8 → Option (List (CString × Json))
  /-- `BSONObj::jsonString` -/
  jsonString : List (CString × Json) → List UInt8

/-- An object id, as text: 24 hexadecimal digits. -/
def ObjectId : Type :=
  { s : CString // s.val.length = 24 ∧ ∀ c ∈ s.val, (48 ≤ c ∧ c ≤ 57) ∨ (97 ≤ c ∧ c ≤ 102) }
  deriving DecidableEq

/-- A stored document: its `_id`, and its other members. -/
structure Document : Type where
  /-- the `_id` -/
  id : Json
  /-- the members except `_id` -/
  fields : List (CString × Json)
  deriving DecidableEq

/-- The member name `"_id"`. -/
def idKey : CString := ⟨[95, 105, 100], by decide⟩

/-- The member name `"$oid"`. -/
def oidKey : CString := ⟨[36, 111, 105, 100], by decide⟩

/-- An object id, as JSON. -/
def ObjectId.json (oid : ObjectId) : Json := .obj [(oidKey, .str oid.val)]

namespace Document

/-- The whole document, as `findOne` returns it: the `_id` comes first. -/
def members (d : Document) : List (CString × Json) := (idKey, d.id) :: d.fields

/-- A query matches by equality of the members it names. -/
def isMatch (query : List (CString × Json)) (d : Document) : Bool :=
  query.all fun m => Json.find m.1 d.fields = m.2

/-- `update` with `upsert`. -/
def update (query obj : List (CString × Json)) (oid : ObjectId) :
    List Document → List Document
  | [] => [⟨oid.json, obj⟩]
  | d :: ds => if d.isMatch query then ⟨d.id, obj⟩ :: ds else d :: update query obj oid ds

end Document

/-- What happens outside during one request. -/
structure Env : Type where
  /-- `(unsigned int)time(&now)` -/
  now : UInt32
  /-- the `_id` of a document inserted now -/
  oid : ObjectId
  /-- `findOne` throws, or `fromjson` on its query -/
  findThrows : Bool
  /-- `count` throws -/
  countThrows : Bool
  /-- `update` throws, or `fromjson` on its two texts -/
  updateThrows : Bool

/-- No call throws. -/
def Env.Calm (env : Env) : Prop :=
  env.findThrows = false ∧ env.countThrows = false ∧ env.updateThrows = false

instance (env : Env) : Decidable env.Calm := inferInstanceAs (Decidable (_ ∧ _ ∧ _))

namespace AccountMgr

/-! ## Member names (`stringDef.h`) -/

/-- `db::Account::playerId` -/
def playerId : CString := ⟨[112, 105], by decide⟩

/-- `db::Account::userName` -/
def userName : CString := ⟨[117, 110], by decide⟩

/-- `db::Account::userPass` -/
def userPass : CString := ⟨[117, 112], by decide⟩

/-- `db::Account::registTime` -/
def registTime : CString := ⟨[114, 116], by decide⟩

/-! ## Access to the collection -/

/-- `findJson` -/
def findJson (J : JsonLib) (M : MongoLib) (env : Env) (col : List Document) (query : List UInt8) :
    Except JsonFault Json :=
  let queryStr := tighten query
  match M.fromjson queryStr with
  | none => .ok .null
  | some query =>
    if env.findThrows then .ok .null
    else
      match col.find? (Document.isMatch query) with
      | none => .ok .null
      | some obj =>
        match J.parse (M.jsonString obj.members) with
        | none => .ok .null
        | some ret => ret.removeMember idKey

/-- `db_count`. The count is converted to an `int`. -/
def dbCount (env : Env) (col : List Document) : Int32 :=
  if env.countThrows then 0 else .ofNat col.length

/-- `saveJson`, with the collection it leaves. -/
def saveJson (M : MongoLib) (env : Env) (col : List Document) (query obj : List UInt8) :
    Bool × List Document :=
  let queryStr := tighten query
  let objStr := tighten obj
  match M.fromjson queryStr, M.fromjson objStr with
  | some query, some obj =>
    if env.updateThrows then (false, col) else (true, Document.update query obj env.oid col)
  | _, _ => (false, col)

/-! ## The handlers -/

/-- What both handlers begin with: `none` when the request is refused with `-1`. -/
def credentials (req : Json) : Except JsonFault (Option (CString × CString)) := do
  let msg ← req.member Json.msgKey
  if !msg.isArray || msg.size < 2 then return none
  let name ← (← msg.index 0).asString
  let pass ← (← msg.index 1).asString
  return some (name, pass)

/-- What `handlePlayerLogin` does with the document it found. -/
def checkPass (pass : CString) (tmp : Json) : Except JsonFault (Bool × Json) := do
  if tmp.empty then return (true, Json.reply [.int 1])
  if (← (← tmp.member userPass).asString) ≠ pass then return (true, Json.reply [.int (-1)])
  return (true, Json.reply [.int 0, ← tmp.member playerId])

/-- The answer of `handlePlayerLogin`. -/
def loginAnswer (J : JsonLib) (M : MongoLib) (env : Env) (col : List Document) (req : Json) :
    Except JsonFault (Bool × Json) := do
  match ← credentials req with
  | none => return (true, Json.reply [.int (-1)])
  | some (name, pass) =>
    let key := Json.obj [(userName, .str name)]
    let tmp ← findJson J M env col (J.toStyledString key)
    checkPass pass tmp

/-- `handlePlayerLogin` -/
def handlePlayerLogin (J : JsonLib) (M : MongoLib) (env : Env) : HandlerFunc (List Document) :=
  fun req _ col => (loginAnswer J M env col req, col)

/-- The document of a new player: `newPlayer`, member by member. -/
def newPlayer (playerCount : Int32) (name pass : CString) (now : UInt32) :
    List (CString × Json) :=
  let members := [(playerId, .int (playerCount + 1))]
  let members := Json.insertMember userName (.str name) members
  let members := Json.insertMember userPass (.str pass) members
  Json.insertMember registTime (.uint now) members

/-- `handlePlayerRegist` -/
def handlePlayerRegist (J : JsonLib) (M : MongoLib) (env : Env) : HandlerFunc (List Document) :=
  fun req _ col =>
    match credentials req with
    | .error fault => (.error fault, col)
    | .ok none => (.ok (true, Json.reply [.int (-1)]), col)
    | .ok (some (name, pass)) =>
      let key := Json.obj [(userName, .str name)]
      match findJson J M env col (J.toStyledString key) with
      | .error fault => (.error fault, col)
      | .ok tmp =>
        if tmp.empty then
          let playerCount := dbCount env col
          let key := Json.obj [(playerId, .int (playerCount + 1))]
          let obj := Json.obj (newPlayer playerCount name pass env.now)
          -- the result of `saveJson` is not looked at
          let saved := saveJson M env col (J.toStyledString key) (J.toStyledString obj)
          (.ok (true, Json.reply [.int 0, .int (playerCount + 1)]), saved.2)
        else (.ok (true, Json.reply [.int (-1)]), col)

/-! ## Runs -/

/-- A request to the account manager. -/
inductive Request : Type where
  /-- `PLAYER_REGIST_REQ` with its body -/
  | regist : Json → Env → Request
  /-- `PLAYER_LOGIN_REQ` with its body -/
  | login : Json → Env → Request

/-- The outside of a request. -/
def Request.env : Request → Env
  | .regist _ env => env
  | .login _ env => env

/-- The collection after a request. The player id of the packet is not looked at. -/
def step (J : JsonLib) (M : MongoLib) (col : List Document) : Request → List Document
  | .regist req env => (handlePlayerRegist J M env req 0 col).2
  | .login req env => (handlePlayerLogin J M env req 0 col).2

/-- The body of a request with these credentials. -/
def body (name pass : CString) : Json := Json.reply [.str name, .str pass]

@[simp] theorem credentials_body (name pass : CString) :
    credentials (body name pass) = .ok (some (name, pass)) := rfl

end AccountMgr

end MyServer
