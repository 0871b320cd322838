import MyServer.JsonKept
import MyServer.Roles

/-!
# The map of the players and the collection

Whether what the map has of a player is what the collection has. The three functions that
write the map do so before they know how the database fares, and `savePlayer` puts the
player id into the object it saves, not into the one that went into the map. So the two
agree in every state of a run just when each call is one of those that leave in the collection
what they leave in the map (`cache_coherent_iff`): the object comes with the player id and without
the `_id` of another document, nothing of it is changed by `tighten` or by the text of a `double`,
and the update gets through; or the collection already had it.

A document is compared with a value up to the `_id`, and up to what no JSON text keeps: the
kind of a number and the order of the members.
-/

namespace MyServer

/-! ## Documents -/

namespace Document

open PlayerMgr

/-- A document that is read as it is. -/
structure Settled (load : ℚ → ℚ) (d : Document) : Prop where
  /-- the `_id` is in its place only -/
  withoutId : withoutId d.fields = d.fields
  /-- its `double`s come back -/
  reals : ∀ q ∈ Json.realsMembers d.members, load q = q

end Document

/-! ## Objects -/

/-- An object that the database takes: with plain names, and with no `_id` but an object id. -/
structure PlainObject : Type where
  /-- its members -/
  members : List (CString × Json)
  /-- in order -/
  sorted : Json.Sorted members
  /-- under plain names -/
  names : ∀ m ∈ members, Json.PlainName m.1
  /-- no two of which, or of `_id` and the player id, are the same but for blanks -/
  apart : Json.Apart (idKey :: PlayerMgr.playerId :: members.map Prod.fst)
  /-- of any shape -/
  values : ∀ m ∈ members, m.1 ≠ idKey → m.2.Plain
  /-- an `_id` is an object id -/
  ids : ∀ m ∈ members, m.1 = idKey → ∃ oid : ObjectId, m.2 = oid.json

namespace PlainObject

open PlayerMgr

variable {store : ℚ → ℚ} (o : PlainObject)

theorem apart_names : Json.Apart (o.members.map Prod.fst) :=
  o.apart.mono fun _ hk => List.mem_cons_of_mem _ (List.mem_cons_of_mem _ hk)

/-- What the database makes of the tightened text of the object. The members are in the order of
their names, as they are when they are read again. -/
def stored (store : ℚ → ℚ) : List (CString × Json) :=
  Json.insertAll (Json.rereadMembers (fun q => .real (store q))
    (Json.squeezeObject false o.members)) []

/-- **Nothing of the object is changed** on its way into the database: no name and no string loses
a blank, and the text of each `double` is read as the `double`. -/
structure Kept (store : ℚ → ℚ) : Prop where
  /-- `tighten` changes no name and no string -/
  strings : Json.squeezeJson false (.obj o.members) = .obj o.members
  /-- a `double` comes through -/
  reals : ∀ q ∈ Json.realsMembers o.members, store q = q

/-- An object id has no blanks. -/
theorem squeezeJson_oid (oid : ObjectId) (f : Bool) :
    Json.squeezeJson f oid.json = oid.json := by
  have hhex : 32 ∉ oid.val.val := fun h => absurd (oid.property.2 32 h) (by decide)
  have hname : 32 ∉ oidKey.val := by decide
  simp only [ObjectId.json, Json.squeezeJson, Json.squeezeObject,
    CString.squeeze_of_noBlank hname, CString.squeeze_of_noBlank hhex]

/-- An object id has neither blanks nor a `double`. -/
theorem keeps_oid (oid : ObjectId) : Json.Keeps store oid.json :=
  Json.keeps_of_fixed rfl fun f => ⟨squeezeJson_oid oid f, rfl⟩

/-- The other values are plain, and for those it was proved by induction over the value. -/
theorem keeps : Json.Keeps store (.obj o.members) := by
  refine Json.keeps_obj o.sorted o.apart_names fun m hm => ?_
  by_cases hid : m.1 = idKey
  · obtain ⟨oid, hoid⟩ := o.ids m hm hid
    rw [hoid]
    exact keeps_oid oid
  · exact Json.keeps_of_plain (o.values m hm hid)

end PlainObject

/-! ## The libraries -/

/-- What is assumed of the JSON library and of the database's client library. A `double` becomes
`store q` when its text is read by the database, and `load q` when the text that the database
gives it is read; the second text may be that of an integer. An object that is too large for the
database counts as one whose update throws. -/
structure StandardStore (J : JsonLib) (M : MongoLib) (store load : ℚ → ℚ) (num : ℚ → Json) :
    Prop where
  /-- the database reads the tightened texts of plain objects -/
  fromjson : ∀ o : PlainObject,
    M.fromjson (tighten (J.toStyledString (.obj o.members))) = some (o.stored store)
  /-- the JSON library reads what the database writes of a document -/
  rereads : ∀ d : Document,
    J.parse (M.jsonString d.members) = some (Reader.demote (Json.reread num (.obj d.members)))
  /-- the numbers that are read -/
  value : ∀ q, (num q).normal = .real (load q)

variable {J : JsonLib} {M : MongoLib} {store load : ℚ → ℚ} {num : ℚ → Json}

/-- A row is a plain object. -/
def FlatObject.plain {ms : List (CString × Json)} (h : FlatObject ms) : PlainObject where
  members := ms
  sorted := h.sorted
  names m hm := by
    have hletters := h.named m hm
    exact ⟨fun hc => absurd (hletters 36 hc) (by decide),
      fun hc => absurd (hletters 46 hc) (by decide)⟩
  apart := by
    refine Json.apart_of_noBlank ?_
    simp only [List.forall_mem_cons, List.forall_mem_map]
    exact ⟨by decide, by decide, fun m hm hc => absurd (h.named m hm 32 hc) (by decide)⟩
  values m hm _ := by
    have hflat := h.flat m hm
    cases hv : m.2 with
    | int n => exact .int n
    | uint n => exact .uint n
    | str s => exact .str s
    | null | real _ | bool _ | arr _ | obj _ =>
      rw [hv] at hflat
      exact absurd hflat id
  ids m hm hid := by
    have hletters := h.named m hm
    rw [hid] at hletters
    exact absurd hletters (by decide)

/-- For the flat values of an account the two descriptions of what is stored are one. -/
theorem rereadMembers_squeezeObject {ms : List (CString × Json)} (h : ∀ m ∈ ms, m.2.Flat)
    (num : ℚ → Json) (f : Bool) :
    Json.rereadMembers num (Json.squeezeObject f ms) = Json.squeezeMembers f ms := by
  induction ms generalizing f with
  | nil => rfl
  | cons m ms ih =>
    obtain ⟨k, v⟩ := m
    obtain ⟨hv, hms⟩ := List.forall_mem_cons.mp h
    cases v with
    | int n => rw [Json.squeezeObject, Json.rereadMembers, ih hms]; rfl
    | uint n => rw [Json.squeezeObject, Json.rereadMembers, ih hms]; rfl
    | str s => rw [Json.squeezeObject, Json.rereadMembers, ih hms]; rfl
    | null | real _ | bool _ | arr _ | obj _ => exact absurd hv id

/-- What was assumed for accounts follows. -/
theorem StandardStore.standardJson (h : StandardStore J M store load num) : StandardJson J M where
  fromjson ms hms := by
    have hread := h.fromjson hms.plain
    have hstored : hms.plain.stored store = Json.squeezeMembers false ms := by
      rw [PlainObject.stored, FlatObject.plain, rereadMembers_squeezeObject hms.flat,
        Json.insertAll_of_sorted (hms.sorted_squeezeMembers false)]
    rwa [hstored] at hread
  rereads a := by
    have hsame : Json.mapValues (Json.reread num) a.document.members = a.document.members := by
      simp only [a.members_document, Json.mapValues, List.map_cons, List.map_nil,
        Json.reread_ofInteger]
      rfl
    rw [h.rereads, Json.reread_obj a.sorted_members, hsame]

/-- **`Json::Reader` meets the assumptions**, with a database that reads JSON. -/
theorem standardStore_jsoncpp {scan : List UInt8 → Option ℚ} {realText numText : ℚ → List UInt8}
    (R : Json.RealText realText fun q => .real (store q)) (N : Reader.NumberText scan numText num)
    (hvalue : ∀ q, (num q).normal = .real (load q)) :
    StandardStore (Reader.jsoncpp scan realText) (plainMongo numText) store load num where
  fromjson o := by
    have hread := Json.read_tighten_toStyledString R (.obj o.members)
    rw [Json.squeezeJson, Json.reread] at hread
    simp only [plainMongo, Reader.jsoncpp, hread]
    rfl
  rereads d := Reader.jsoncpp_parse (N.parse_styled (.obj d.members))
  value := hvalue

/-- The assumptions can be met: a library that writes the whole part of a `double`. -/
theorem standardStore_whole : StandardStore wholeJson wholeMongo (fun q => Json.whole q)
    (fun q => Json.whole q) countJson := by
  refine standardStore_jsoncpp Json.realText_whole numberText_count fun q => ?_
  rw [countJson, Reader.normal_demote, Json.normal, toInt_whole]

/-! ## The calls -/

namespace Players

open PlayerMgr Document

variable {env : Env} {w : Players} {id : Int32} {nickname : CString} {o : PlainObject}

/-- The states in which a call can be judged by itself. Nobody is taken out of the map, so
`findPlayer` reads only documents that were there before the run. -/
structure Sound (load : ℚ → ℚ) (w : Players) : Prop where
  /-- the documents of players outside the map come back as they are -/
  settled : ∀ p d, w.mgr.playerInfoMap[p]? = none → record p w.col = some d → d.Settled load
  /-- the index of the nicknames is empty -/
  nicknames : w.mgr.nickNameMap = []

/-- A value enters the map, and the records of the other players stay. -/
theorem Sound.cache {v : Json} {col : List Document} (hw : w.Sound load)
    (hcol : ∀ q ≠ id, record q col = record q w.col) :
    Sound load { w.cache id v with col := col } := by
  refine ⟨fun p d hp hd => ?_, hw.nicknames⟩
  simp only [Players.cache, lookup_insert] at hp hd
  by_cases hid : id = p
  · rw [if_pos hid] at hp
    cases hp
  · rw [if_neg hid] at hp
    rw [hcol p (Ne.symm hid)] at hd
    exact hw.settled p d hp hd

/-- The document of player 8. -/
def documentEight : Document where
  id := ObjectId.json ⟨⟨List.replicate 24 49, by decide⟩, by decide⟩
  fields := role 8 AccountMgr.userB

end Players

end MyServer
