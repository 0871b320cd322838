import MyServer.AccountMgr
import MyServer.ReaderLayout
import MyServer.Runs

/-!
# The account table

The account manager as an operation on a table of accounts. An `Account` stands for the
document the registration writes; on a collection of such documents the two handlers are
exactly `regist` and `login` below (`handlePlayerRegist_eq`, `loginAnswer_eq`), and a run
of requests is a run on the table (`step_document`).

What is assumed of the libraries is `StandardJson`, two laws about the texts that the two
managers give them and no others: the database takes the text of a row for the row, and
jsoncpp reads the text of a stored account as the account, with an integer next to the ends of
32 bits as a `double`. `Json::Reader` meets them (`standardJson_jsoncpp`). The table keeps
the strings that survive `tighten`: the user name squeezed, and the password squeezed
from the flag the user name leaves.
-/

namespace MyServer

/-- An account as it is stored. -/
structure Account : Type where
  /-- the object id of its document -/
  oid : ObjectId
  /-- the player id -/
  playerId : Int32
  /-- the time of registration -/
  registTime : UInt32
  /-- the user name -/
  userName : CString
  /-- the password -/
  userPass : CString
  deriving DecidableEq

namespace Account

/-- The document of an account. -/
def document (a : Account) : Document where
  id := a.oid.json
  fields :=
    [(AccountMgr.playerId, .int a.playerId),
     (AccountMgr.registTime, Json.ofInteger a.registTime.toNat),
     (AccountMgr.userName, .str a.userName),
     (AccountMgr.userPass, .str a.userPass)]

/-- With its `_id`, which comes first. -/
theorem members_document (a : Account) : a.document.members =
    [(idKey, .obj [(oidKey, .str a.oid.val)]), (AccountMgr.playerId, .int a.playerId),
     (AccountMgr.registTime, Json.ofInteger a.registTime.toNat),
     (AccountMgr.userName, .str a.userName), (AccountMgr.userPass, .str a.userPass)] := rfl

/-! ## Operations on the table -/

/-- The account a lookup by name finds. -/
def lookup (name : CString) (as : List Account) : Option Account :=
  as.find? fun a => a.userName = name

/-- `update` with `upsert`, keyed by the player id. -/
def upsert (new : Account) : List Account → List Account
  | [] => [new]
  | a :: as =>
    if a.playerId = new.playerId then { new with oid := a.oid } :: as else a :: upsert new as

/-- What `findJson` finds under a name sent by a client. -/
def found (env : Env) (name : CString) (as : List Account) : Option Account :=
  if env.findThrows then none else lookup (name.squeeze true) as

/-- The player id a registration hands out. -/
def nextId (env : Env) (as : List Account) : Int32 :=
  (if env.countThrows then 0 else .ofNat as.length) + 1

/-- The account a registration stores. -/
def registered (env : Env) (id : Int32) (name pass : CString) : Account where
  oid := env.oid
  playerId := id
  registTime := env.now
  userName := name.squeeze true
  userPass := pass.squeeze !flagAfter false name.val

/-- Registration: the numbers it answers, and the table it leaves. -/
def regist (env : Env) (name pass : CString) (as : List Account) : List Json × List Account :=
  match found env name as with
  | some _ => ([.int (-1)], as)
  | none =>
    let id := nextId env as
    ([.int 0, .int id], if env.updateThrows then as else upsert (registered env id name pass) as)

/-- Login: the numbers it answers. The player id is that of the document as it was read. -/
def login (env : Env) (name pass : CString) (as : List Account) : List Json :=
  match found env name as with
  | none => [.int 1]
  | some a =>
    if a.userPass = pass then [.int 0, Reader.demote (.int a.playerId)] else [.int (-1)]

/-- The table after a request. -/
def tableStep (as : List Account) : AccountMgr.Request → List Account
  | .regist req env =>
    match AccountMgr.credentials req with
    | .ok (some (name, pass)) => (regist env name pass as).2
    | _ => as
  | .login _ _ => as

/-- Every account of the table is one the registration wrote, or was there before, and
those whose player id is not the new one stay. -/
theorem mem_upsert {new b : Account} {as : List Account} (h : b ∈ upsert new as) :
    b ∈ as ∨ ∃ oid, b = { new with oid := oid } := by
  induction as with
  | nil => exact .inr ⟨new.oid, List.mem_singleton.mp h⟩
  | cons a as ih =>
    rw [upsert] at h
    split_ifs at h
    · rcases List.mem_cons.mp h with rfl | h
      · exact .inr ⟨a.oid, rfl⟩
      · exact .inl (List.mem_cons_of_mem a h)
    · rcases List.mem_cons.mp h with rfl | h
      · exact .inl (List.mem_cons_self ..)
      · exact (ih h).imp_left (List.mem_cons_of_mem a)

/-- The other accounts stay: at most one is replaced. -/
theorem mem_upsert_of_ne {new a : Account} {as : List Account} (ha : a ∈ as)
    (hne : a.playerId ≠ new.playerId) : a ∈ upsert new as := by
  induction as with
  | nil => exact absurd ha List.not_mem_nil
  | cons b as ih =>
    rw [upsert]
    split_ifs with hb
    · rcases List.mem_cons.mp ha with rfl | ha
      · exact absurd hb hne
      · exact List.mem_cons_of_mem _ ha
    · rcases List.mem_cons.mp ha with rfl | ha
      · exact List.mem_cons_self ..
      · exact List.mem_cons_of_mem _ (ih ha)

/-- The new account is there. -/
theorem registered_mem_upsert (new : Account) (as : List Account) :
    ∃ oid, { new with oid := oid } ∈ upsert new as := by
  induction as with
  | nil => exact ⟨new.oid, List.mem_singleton.mpr rfl⟩
  | cons a as ih =>
    rw [upsert]
    split_ifs
    · exact ⟨a.oid, List.mem_cons_self ..⟩
    · obtain ⟨oid, hmem⟩ := ih
      exact ⟨oid, List.mem_cons_of_mem a hmem⟩

/-- A player id that is taken: the table keeps its size. One that is free: the new account
comes last. -/
theorem upsert_of_free {new : Account} {as : List Account}
    (h : ∀ a ∈ as, a.playerId ≠ new.playerId) : upsert new as = as ++ [new] := by
  induction as with
  | nil => rfl
  | cons a as ih =>
    rw [upsert, if_neg (h a (List.mem_cons_self ..)),
      ih fun b hb => h b (List.mem_cons_of_mem a hb)]
    rfl

/-- The first account with the player id is replaced and keeps its object id. -/
theorem upsert_of_taken {new : Account} {as : List Account} {a : Account}
    (h : as.find? (fun a => a.playerId = new.playerId) = some a) :
    ∃ pre post, as = pre ++ a :: post ∧ (∀ b ∈ pre, b.playerId ≠ new.playerId) ∧
      a.playerId = new.playerId ∧
      upsert new as = pre ++ { new with oid := a.oid } :: post := by
  obtain ⟨hkey, pre, post, has, hpre⟩ := List.find?_eq_some_iff_append.mp h
  rw [decide_eq_true_eq] at hkey
  have hne : ∀ b ∈ pre, b.playerId ≠ new.playerId := by
    intro b hb heq
    have := hpre b hb
    rw [heq, decide_eq_true rfl] at this
    exact Bool.noConfusion this
  refine ⟨pre, post, has, hne, hkey, ?_⟩
  rw [has]
  clear has h hpre
  induction pre with
  | nil => rw [List.nil_append, upsert, if_pos hkey]; rfl
  | cons b pre ih =>
    rw [List.cons_append, upsert, if_neg (hne b (List.mem_cons_self ..)),
      ih fun c hc => hne c (List.mem_cons_of_mem b hc)]
    rfl

theorem length_upsert (new : Account) (as : List Account) :
    as.length ≤ (upsert new as).length ∧ (upsert new as).length ≤ as.length + 1 := by
  induction as with
  | nil => exact ⟨Nat.zero_le _, Nat.le_refl _⟩
  | cons a as ih =>
    rw [upsert]
    split_ifs
    · exact ⟨Nat.le_refl _, Nat.le_succ _⟩
    · simp only [List.length_cons]
      omega

/-- **What a request can do to the table**: nothing, or store one account under a name that
was not found. -/
theorem tableStep_cases (as : List Account) (r : AccountMgr.Request) :
    tableStep as r = as ∨
      ∃ name pass, found r.env name as = none ∧ r.env.updateThrows = false ∧
        tableStep as r = upsert (registered r.env (nextId r.env as) name pass) as := by
  cases r with
  | login req env => exact .inl rfl
  | regist req env =>
    rw [tableStep]
    rcases AccountMgr.credentials req with fault | _ | ⟨name, pass⟩
    · exact .inl rfl
    · exact .inl rfl
    · simp only [regist]
      rcases hfound : found env name as with _ | a
      · by_cases hthrows : env.updateThrows = true
        · exact .inl (if_pos hthrows)
        · refine .inr ⟨name, pass, hfound, ?_, if_neg hthrows⟩
          exact (Bool.not_eq_true _).mp hthrows
      · exact .inl rfl

theorem length_tableStep (as : List Account) (r : AccountMgr.Request) :
    as.length ≤ (tableStep as r).length ∧ (tableStep as r).length ≤ as.length + 1 := by
  rcases tableStep_cases as r with heq | ⟨name, pass, -, -, heq⟩
  · rw [heq]
    exact ⟨Nat.le_refl _, Nat.le_succ _⟩
  · rw [heq]
    exact length_upsert _ as

/-- Where `count` does not throw, the player id handed out is the size plus one. -/
theorem nextId_of_count {env : Env} (hcount : env.countThrows = false) (as : List Account) :
    nextId env as = .ofNat (as.length + 1) := by
  rw [nextId, hcount, Int32.ofNat_add]
  rfl

/-- Below `2^31` different counts are different player ids. -/
theorem ofNat_ne {m n : ℕ} (hm : m < 2 ^ 31) (hn : n < 2 ^ 31) (hne : m ≠ n) :
    Int32.ofNat m ≠ Int32.ofNat n := by
  intro heq
  have := congrArg Int32.toInt heq
  rw [Int32.toInt_ofNat_of_lt hm, Int32.toInt_ofNat_of_lt hn] at this
  exact hne (Int.ofNat.inj this)

end Account

/-! ## The libraries -/

/-- The members of a row: integers and strings, under names of small letters. -/
structure FlatObject (ms : List (CString × Json)) : Prop where
  /-- there are some -/
  ne_nil : ms ≠ []
  /-- in order -/
  sorted : Json.Sorted ms
  /-- integers and strings -/
  flat : ∀ m ∈ ms, m.2.Flat
  /-- small letters -/
  named : ∀ m ∈ ms, ∀ c ∈ m.1.val, 97 ≤ c ∧ c ≤ 122

theorem flatObject_singleton {k : CString} {v : Json} (hv : v.Flat)
    (hk : ∀ c ∈ k.val, 97 ≤ c ∧ c ≤ 122) : FlatObject [(k, v)] where
  ne_nil := List.cons_ne_nil _ _
  sorted := List.pairwise_singleton _ _
  flat := List.forall_mem_singleton.mpr hv
  named := List.forall_mem_singleton.mpr hk

/-- What is assumed of the JSON library and of the database's client library. The client throws on
an object of more than 16 MB; that exception is caught with those of `findOne` and `update`, and
`findThrows` and `updateThrows` stand for it. -/
structure StandardJson (J : JsonLib) (M : MongoLib) : Prop where
  /-- the database reads a row, from its tightened text -/
  fromjson : ∀ ms, FlatObject ms →
    M.fromjson (tighten (J.toStyledString (.obj ms))) = some (Json.squeezeMembers false ms)
  /-- a stored account is read as it is, but for integers next to the ends of 32 bits -/
  rereads : ∀ a : Account, J.parse (M.jsonString a.document.members) =
    some (Reader.demote (.obj a.document.members))

namespace AccountMgr

open Account

variable {J : JsonLib} {M : MongoLib}

/-! ## The texts of the account manager -/

theorem fromjson_userName (h : StandardJson J M) (name : CString) :
    M.fromjson (tighten (J.toStyledString (.obj [(userName, .str name)]))) =
      some [(userName, .str (name.squeeze true))] :=
  h.fromjson _ (flatObject_singleton trivial (by decide))

theorem fromjson_playerId (h : StandardJson J M) (id : Int32) :
    M.fromjson (tighten (J.toStyledString (.obj [(playerId, .int id)]))) =
      some [(playerId, .int id)] :=
  h.fromjson _ (flatObject_singleton trivial (by decide))

/-- **The document of a new player as the database stores it.** -/
theorem fromjson_newPlayer (h : StandardJson J M) (env : Env) (count : Int32)
    (name pass : CString) :
    M.fromjson (tighten (J.toStyledString (.obj (newPlayer count name pass env.now)))) =
      some (registered env (count + 1) name pass).document.fields := by
  have hmembers : newPlayer count name pass env.now =
      [(playerId, .int (count + 1)), (registTime, .uint env.now), (userName, .str name),
        (userPass, .str pass)] := rfl
  have hrow : FlatObject (newPlayer count name pass env.now) := by
    rw [hmembers]
    refine ⟨List.cons_ne_nil _ _, ?_, ?_, ?_⟩
    · simp only [Json.Sorted, List.pairwise_cons, List.forall_mem_cons]
      decide
    · simp only [List.forall_mem_cons]
      exact ⟨trivial, trivial, trivial, trivial, List.forall_mem_nil _⟩
    · simp only [List.forall_mem_cons]
      exact ⟨by decide, by decide, by decide, by decide, List.forall_mem_nil _⟩
  -- only the flag that the user name leaves is not known
  have hkey : ∀ f, userPass.squeeze f = userPass ∧ flagAfter f userPass.val = f := by
    intro f
    cases f <;> exact ⟨rfl, rfl⟩
  rw [h.fromjson _ hrow, hmembers]
  simp only [Json.squeezeMembers, Json.squeezeValue, Json.flagValue, hkey]
  rfl

/-! ## The handlers on a table of accounts -/

/-- The query has the one field, and each document has it once. -/
theorem isMatch_userName (name : CString) (a : Account) :
    a.document.isMatch [(userName, .str name)] = decide (a.userName = name) := by
  have hfind : Json.find userName a.document.fields = .str a.userName := rfl
  rw [Document.isMatch, List.all_cons, List.all_nil, Bool.and_true, hfind, decide_eq_decide,
    Json.str.injEq]

theorem isMatch_playerId (id : Int32) (a : Account) :
    a.document.isMatch [(playerId, .int id)] = decide (a.playerId = id) := by
  have hfind : Json.find playerId a.document.fields = .int a.playerId := rfl
  rw [Document.isMatch, List.all_cons, List.all_nil, Bool.and_true, hfind, decide_eq_decide,
    Json.int.injEq]

/-- `findJson` under a user name. -/
theorem findJson_userName (h : StandardJson J M) (env : Env) (name : CString)
    (as : List Account) :
    findJson J M env (as.map document) (J.toStyledString (.obj [(userName, .str name)])) =
      .ok (match found env name as with
        | none => .null
        | some a => Reader.demote (.obj a.document.fields)) := by
  rw [findJson, fromjson_userName h, found]
  have hfind : (as.map document).find? (Document.isMatch [(userName, .str (name.squeeze true))]) =
      (lookup (name.squeeze true) as).map document := by
    rw [List.find?_map, lookup]
    refine congrArg (Option.map document) (congrArg (List.find? · as) (funext fun a => ?_))
    exact isMatch_userName _ a
  simp only [hfind]
  split_ifs
  · rfl
  · rcases lookup (name.squeeze true) as with _ | a
    · rfl
    · simp only [Option.map_some, h.rereads]
      rfl

/-- **The update, in terms of the table.** By induction over the accounts: the query is the player
id, and that is in each document. -/
theorem update_document (new : Account) (as : List Account) :
    Document.update [(playerId, .int new.playerId)] new.document.fields new.oid (as.map document) =
      (upsert new as).map document := by
  induction as with
  | nil => rfl
  | cons a as ih =>
    rw [List.map_cons, Document.update, isMatch_playerId, upsert, ih]
    simp only [decide_eq_true_eq]
    split_ifs <;> rfl

theorem dbCount_map (env : Env) (as : List Account) :
    dbCount env (as.map document) + 1 = nextId env as := by
  rw [dbCount, nextId, List.length_map]

/-- `saveJson` of a new player. -/
theorem saveJson_newPlayer (h : StandardJson J M) (env : Env) (count : Int32)
    (name pass : CString) (as : List Account) :
    (saveJson M env (as.map document) (J.toStyledString (.obj [(playerId, .int (count + 1))]))
        (J.toStyledString (.obj (newPlayer count name pass env.now)))).2 =
      (if env.updateThrows then as
        else upsert (registered env (count + 1) name pass) as).map document := by
  rw [saveJson, fromjson_playerId h, fromjson_newPlayer h]
  simp only
  split_ifs
  · rfl
  · exact update_document (registered env (count + 1) name pass) as

/-- The response with these numbers. -/
def answer (ns : List Json) : Except JsonFault (Bool × Json) := .ok (true, Json.reply ns)

theorem answer_injective {ms ns : List Json} (h : answer ms = answer ns) : ms = ns := by
  simpa only [answer, Json.reply, Except.ok.injEq, Prod.mk.injEq, true_and, Json.obj.injEq,
    List.cons.injEq, Json.arr.injEq, and_true] using h

/-- **Registration is `regist` on the table.** -/
theorem handlePlayerRegist_eq (h : StandardJson J M) (env : Env) {req : Json}
    {name pass : CString} (hreq : credentials req = .ok (some (name, pass))) (p : Int32)
    (as : List Account) :
    handlePlayerRegist J M env req p (as.map document) =
      (answer (regist env name pass as).1, (regist env name pass as).2.map document) := by
  rw [handlePlayerRegist, hreq]
  simp only [findJson_userName h, saveJson_newPlayer h]
  simp only [dbCount_map]
  rw [regist]
  rcases found env name as with _ | a <;> rfl

/-- **Login is `login` on the table.** -/
theorem loginAnswer_eq (h : StandardJson J M) (env : Env) {req : Json} {name pass : CString}
    (hreq : credentials req = .ok (some (name, pass))) (as : List Account) :
    loginAnswer J M env (as.map document) req = answer (login env name pass as) := by
  rw [loginAnswer, hreq]
  simp only [bind, Except.bind, findJson_userName h]
  rw [login]
  rcases found env name as with _ | a
  · rfl
  · have hempty : (Reader.demote (.obj a.document.fields)).empty = false := rfl
    have hpass : Json.member userPass (Reader.demote (.obj a.document.fields)) =
      .ok (.str a.userPass) := rfl
    have hid : Json.member playerId (Reader.demote (.obj a.document.fields)) =
      .ok (Reader.demote (.int a.playerId)) := rfl
    simp only [checkPass, hempty, Bool.false_eq_true, if_false, hpass, hid, Json.asString, bind,
      Except.bind]
    by_cases heq : a.userPass = pass
    · rw [if_neg (not_not.mpr heq), if_pos heq]
      rfl
    · rw [if_pos heq, if_neg heq]
      rfl

/-- **A request on the collection is a request on the table.** -/
theorem step_document (h : StandardJson J M) (as : List Account) (r : Request) :
    step J M (as.map document) r = (tableStep as r).map document := by
  cases r with
  | login req env => rfl
  | regist req env =>
    rw [step, tableStep]
    rcases hreq : credentials req with fault | _ | ⟨name, pass⟩
    · rw [handlePlayerRegist, hreq]
    · rw [handlePlayerRegist, hreq]
    · rw [handlePlayerRegist_eq h env hreq]

end AccountMgr

/-! ## Libraries that meet the assumptions -/

/-- A name of small letters is left alone. -/
theorem squeeze_of_letters {k : CString} (hk : ∀ c ∈ k.val, 97 ≤ c ∧ c ≤ 122) (f : Bool) :
    k.squeeze f = k :=
  CString.squeeze_of_noBlank (fun hblank => absurd (hk 32 hblank) (by decide)) f

/-- A row keeps its names. -/
theorem FlatObject.map_fst_squeezeMembers {ms : List (CString × Json)}
    (hnamed : ∀ m ∈ ms, ∀ c ∈ m.1.val, 97 ≤ c ∧ c ≤ 122) (f : Bool) :
    (Json.squeezeMembers f ms).map Prod.fst = ms.map Prod.fst := by
  induction ms generalizing f with
  | nil => rfl
  | cons m ms ih =>
    obtain ⟨hm, hms⟩ := List.forall_mem_cons.mp hnamed
    rw [Json.squeezeMembers, List.map_cons, List.map_cons, ih hms, squeeze_of_letters hm]

/-- So it stays in order. -/
theorem FlatObject.sorted_squeezeMembers {ms : List (CString × Json)} (h : FlatObject ms)
    (f : Bool) : Json.Sorted (Json.squeezeMembers f ms) :=
  h.sorted.of_names (FlatObject.map_fst_squeezeMembers h.named f)

/-- A client library for the database that reads JSON and writes it as jsoncpp does. -/
def plainMongo (numText : ℚ → List UInt8) : MongoLib where
  fromjson t :=
    match Json.read t with
    | some (.obj ms) => some ms
    | _ => none
  jsonString ms := Json.toStyledString numText (.obj ms)

/-- The one reader of the development stands in for the database. -/
theorem fromjson_plain {realText : ℚ → List UInt8} (numText : ℚ → List UInt8)
    {ms : List (CString × Json)} (h : FlatObject ms) :
    (plainMongo numText).fromjson (tighten (Json.toStyledString realText (.obj ms))) =
      some (Json.squeezeMembers false ms) := by
  simp only [plainMongo, Json.read_tighten realText h.ne_nil h.flat,
    Json.insertAll_of_sorted (h.sorted_squeezeMembers false)]

theorem Account.sorted_members (a : Account) : Json.Sorted a.document.members := by
  rw [Account.members_document]
  simp only [Json.Sorted, List.pairwise_cons, List.forall_mem_cons]
  decide

/-- **`Json::Reader` meets the assumptions**, with a database that reads JSON. -/
theorem standardJson_jsoncpp {scan : List UInt8 → Option ℚ} {realText numText : ℚ → List UInt8}
    {num : ℚ → Json} (N : Reader.NumberText scan numText num) :
    StandardJson (Reader.jsoncpp scan realText) (plainMongo numText) where
  fromjson _ h := fromjson_plain numText h
  rereads a := by
    have hsame : Json.mapValues (Json.reread num) a.document.members = a.document.members := by
      rw [Account.members_document]
      simp only [Json.mapValues, List.map_cons, List.map_nil, Json.reread_ofInteger]
      rfl
    have hreread : Json.reread num (.obj a.document.members) = .obj a.document.members := by
      rw [Json.reread_obj a.sorted_members, hsame]
    rw [← hreread]
    exact Reader.jsoncpp_parse (N.parse_styled (.obj a.document.members))

/-- jsoncpp, with whole numbers for `double`s. -/
def wholeJson : JsonLib := Reader.jsoncpp Reader.wholeScan Json.wholeText

/-- A whole number as the database's client library writes it, without a point. -/
def countText (q : ℚ) : List UInt8 := Json.intToString (.ofInt (Json.whole q))

/-- And a database. -/
def wholeMongo : MongoLib := plainMongo countText

theorem toInt_whole (q : ℚ) : (Int32.ofInt (Json.whole q)).toInt = Json.whole q :=
  Int32.toInt_ofInt_of_le (Json.whole_range q).1 (Json.whole_range q).2

/-- What jsoncpp reads of it: without its point a `double` is an integer, if it is not next to the
smallest one. -/
def countJson (q : ℚ) : Json := Reader.demote (.int (.ofInt (Json.whole q)))

theorem numberText_count : Reader.NumberText Reader.wholeScan countText countJson where
  number _ := (Reader.intToString_cases _).1
  short _ := Reader.length_intToString _
  value _ := Reader.standardNumber_int (Reader.doubleText_whole.int _)
  kept _ := Reader.demote_demote_int _
  int := Reader.doubleText_whole.int
  uint := Reader.doubleText_whole.uint

/-- The assumptions can be met. -/
theorem standardJson_whole : StandardJson wholeJson wholeMongo :=
  standardJson_jsoncpp numberText_count

namespace AccountMgr

/-- At time 0, no call throws. -/
def calmEnv : Env := ⟨0, ⟨⟨List.replicate 24 48, by decide⟩, by decide⟩, false, false, false⟩

/-- The update throws. -/
def stormEnv : Env := { calmEnv with updateThrows := true }

/-- The user name `a`. -/
def userA : CString := ⟨[97], by decide⟩

/-- The user name `b`. -/
def userB : CString := ⟨[98], by decide⟩

end AccountMgr

end MyServer
