import MyServer.JsonReader
import MyServer.Message
import MyServer.Tighten
import Mathlib.Logic.Basic

/-!
# Dispatch of requests (`funcHandler.h`, `funcHandler.cpp`)

A `FuncHandler` maps request ids to handlers and to response ids; both maps are
`std::map`s filled with `insert`, which keeps the first registration of an id. A
handler works on a state `σ` (the managers and the database behind them) and
answers `false`, or `true` with a response, or does not return.

The JSON library is a parameter: the text `toStyledString` writes and the value
`Reader::parse` reads. The protocol ids (`protocol.h`) come first.
-/

namespace MyServer

universe u

/-! ## Protocol ids -/

/-- `PLAYER_HEART_BEAT_REQ` -/
def playerHeartBeatReq : Int32 := 1002

/-- `PLAYER_HEART_BEAT_RSP` -/
def playerHeartBeatRsp : Int32 := 1003

/-- `PLAYER_REGIST_REQ` -/
def playerRegistReq : Int32 := 2002

/-- `PLAYER_REGIST_RSP` -/
def playerRegistRsp : Int32 := 2003

/-- `PLAYER_LOGIN_REQ` -/
def playerLoginReq : Int32 := 2004

/-- `PLAYER_LOGIN_RSP` -/
def playerLoginRsp : Int32 := 2005

/-- `PLAYER_CREATE_ROLE_REQ` -/
def playerCreateRoleReq : Int32 := 10002

/-- `PLAYER_CREATE_ROLE_RSP` -/
def playerCreateRoleRsp : Int32 := 10003

/-- `PLAYER_ENTER_GAME_REQ` -/
def playerEnterGameReq : Int32 := 10004

/-- `PLAYER_ENTER_GAME_RSP` -/
def playerEnterGameRsp : Int32 := 10005

/-- Strictly between `GATE_BEGIN` and `GATE_END`. -/
def inGateRange (proto : Int32) : Bool := 1001 < proto && proto < 2000

/-- Strictly between `ACCOUNT_BEGIN` and `ACCOUNT_END`. -/
def inAccountRange (proto : Int32) : Bool := 2001 < proto && proto < 3000

/-- Strictly between `GAME_BEGIN` and `GAME_END`. -/
def inGameRange (proto : Int32) : Bool := 10001 < proto && proto < 20000

theorem inGateRange_iff {p : Int32} : inGateRange p = true ↔ 1001 < p.toInt ∧ p.toInt < 2000 := by
  rw [inGateRange, Bool.and_eq_true, decide_eq_true_eq, decide_eq_true_eq,
    Int32.lt_iff_toInt_lt, Int32.lt_iff_toInt_lt]
  rfl

theorem inAccountRange_iff {p : Int32} :
    inAccountRange p = true ↔ 2001 < p.toInt ∧ p.toInt < 3000 := by
  rw [inAccountRange, Bool.and_eq_true, decide_eq_true_eq, decide_eq_true_eq,
    Int32.lt_iff_toInt_lt, Int32.lt_iff_toInt_lt]
  rfl

theorem inGameRange_iff {p : Int32} :
    inGameRange p = true ↔ 10001 < p.toInt ∧ p.toInt < 20000 := by
  rw [inGameRange, Bool.and_eq_true, decide_eq_true_eq, decide_eq_true_eq,
    Int32.lt_iff_toInt_lt, Int32.lt_iff_toInt_lt]
  rfl

theorem ranges_of_account {p : Int32} (h : inAccountRange p = true) :
    inGateRange p = false ∧ inGameRange p = false := by
  rw [inAccountRange_iff] at h
  rw [Bool.eq_false_iff, Bool.eq_false_iff, Ne, Ne, inGateRange_iff, inGameRange_iff]
  omega

theorem ranges_of_game {p : Int32} (h : inGameRange p = true) :
    inGateRange p = false ∧ inAccountRange p = false := by
  rw [inGameRange_iff] at h
  rw [Bool.eq_false_iff, Bool.eq_false_iff, Ne, Ne, inGateRange_iff, inAccountRange_iff]
  omega

/-! ## The dispatcher -/

/-- The two entry points of the JSON library the dispatch uses. -/
structure JsonLib : Type where
  /-- `Json::Reader::parse`; `none` when it returns false -/
  parse : List UInt8 → Option Json
  /-- `Json::Value::toStyledString` -/
  toStyledString : Json → List UInt8

/-- The library with a reader for standard JSON, and without `double`s. -/
def plainJson : JsonLib := ⟨Json.read, Json.toStyledString fun _ => []⟩

/-- `bool (Json::Value& req, Json::Value& rsp, int playerId)`, on the state `σ`. -/
abbrev HandlerFunc (σ : Type u) : Type u :=
  Json → Int32 → σ → Except JsonFault (Bool × Json) × σ

/-- The class `FuncHandler`. -/
structure FuncHandler (σ : Type u) : Type u where
  /-- `m_HandlerMap` -/
  handlerMap : Std.TreeMap Int32 (HandlerFunc σ)
  /-- `m_ProtoMap` -/
  protoMap : Std.TreeMap Int32 Int32

namespace FuncHandler

variable {σ : Type u}

/-- The constructor. -/
def empty : FuncHandler σ := ⟨∅, ∅⟩

/-- `registFuncHandler` -/
def registFuncHandler (F : FuncHandler σ) (requestId responseId : Int32) (handler : HandlerFunc σ) :
    FuncHandler σ where
  handlerMap := F.handlerMap.insertIfNew requestId handler
  protoMap := F.protoMap.insertIfNew requestId responseId

/-- `runFuncHandler`: the flag it returns with the response object, which it leaves
as it was unless the flag is true. -/
def runFuncHandler (J : JsonLib) (F : FuncHandler σ) (reqMsg rspMsg : NetMessage) (w : σ) :
    Except JsonFault (Bool × NetMessage) × σ :=
  let reqJson := if reqMsg.message ≠ [] then J.parse reqMsg.message else some .null
  match reqJson with
  | none => (.ok (false, rspMsg), w)
  | some reqJson =>
    match F.handlerMap[reqMsg.proto]?, F.protoMap[reqMsg.proto]? with
    | some handler, some responseId =>
      match handler reqJson reqMsg.playerId w with
      | (.error fault, w) => (.error fault, w)
      | (.ok (false, _), w) => (.ok (false, rspMsg), w)
      | (.ok (true, rspJson), w) =>
        let rspMsg := rspMsg.setMessage (tighten (J.toStyledString rspJson))
        let rspMsg := rspMsg.setProto responseId
        let rspMsg := rspMsg.setPlayerId reqMsg.playerId
        (.ok (true, rspMsg.setNetId reqMsg.netId), w)
    | _, _ => (.ok (false, rspMsg), w)

end FuncHandler

end MyServer
