import MyServer.Accounts
import MyServer.Maps
import MyServer.PlayerMgr

/-!
# The roles of the players

Two laws about `createRoleReq` with their exact conditions. A role that is in the
collection stays as it is exactly when every `createRoleReq` for it meets it in the map,
or does not get through to the database, or asks for what is there (`roles_kept_iff`):
the check before the write looks at the map only, and a restart empties the map. And no
two players in the map share a nickname exactly when nobody asks for a nickname that is
taken (`nicknames_distinct_iff`): the index of the nicknames is never filled.
-/

namespace MyServer

/-! ## The record of a player -/

namespace Document

open PlayerMgr

/-- The document of a player: the first one with its id. -/
def record (id : Int32) (col : List Document) : Option Document :=
  col.find? (isMatch [(playerId, .int id)])

theorem isMatch_iff {id : Int32} {d : Document} :
    d.isMatch [(playerId, .int id)] = true ↔ Json.find playerId d.fields = .int id := by
  rw [isMatch, List.all_cons, List.all_nil, Bool.and_true, decide_eq_true_eq]

theorem record_append (id : Int32) (ds ds' : List Document) :
    record id (ds ++ ds') = (record id ds).or (record id ds') := List.find?_append

theorem record_cons_of_ne {id q : Int32} (hne : q ≠ id) {d : Document}
    (hd : Json.find playerId d.fields = .int id) (ds : List Document) :
    record q (d :: ds) = record q ds := by
  refine List.find?_cons_of_neg fun hq => ?_
  rw [isMatch_iff, hd, Json.int.injEq] at hq
  exact hne hq.symm

/-- What a save leaves where the record of the player is, or would come. -/
def saved (obj : List (CString × Json)) (oid : ObjectId) (col : List Document) :
    Option Document → Option Document
  | none => inserted obj oid col
  | some d => some (replaced obj d)

theorem saveFrom_spec (id : Int32) (obj : List (CString × Json)) (oid : ObjectId)
    {before : List Document} (hbefore : ∀ d ∈ before, ¬ d.isMatch [(playerId, .int id)] = true)
    (col : List Document) :
    ∃ pre post, before ++ col = pre ++ ((record id col).toList ++ post) ∧
      (∀ d ∈ pre, ¬ d.isMatch [(playerId, .int id)] = true) ∧
      (record id col = none → post = []) ∧
      saveFrom [(playerId, .int id)] obj oid before col =
        pre ++ ((saved obj oid (before ++ col) (record id col)).toList ++ post) := by
  induction col generalizing before with
  | nil =>
    refine ⟨before, [], by simp [record], hbefore, fun _ => rfl, ?_⟩
    rw [saveFrom, List.append_nil, List.append_nil]
    rfl
  | cons d col ih =>
    rw [saveFrom, record]
    by_cases hd : d.isMatch [(playerId, .int id)] = true
    · rw [if_pos hd, List.find?_cons_of_pos hd]
      exact ⟨before, col, rfl, hbefore, fun h => absurd h (Option.some_ne_none d), rfl⟩
    · rw [if_neg hd, List.find?_cons_of_neg hd, ← record]
      have hall : ∀ x ∈ before ++ [d], ¬ x.isMatch [(playerId, .int id)] = true :=
        List.forall_mem_append.mpr ⟨hbefore, List.forall_mem_singleton.mpr hd⟩
      obtain ⟨pre, post, hcol, hpre, hpost, hsave⟩ := ih hall
      rw [List.append_assoc, List.singleton_append] at hcol hsave
      exact ⟨pre, post, hcol, hpre, hpost, hsave⟩

/-- **What a save does**: it finds the record of the player behind the documents of others
and puts what is saved in its place, at the end when there is none. -/
theorem save_spec (id : Int32) (obj : List (CString × Json)) (oid : ObjectId)
    (col : List Document) :
    ∃ pre post, col = pre ++ ((record id col).toList ++ post) ∧
      (∀ d ∈ pre, ¬ d.isMatch [(playerId, .int id)] = true) ∧
      (record id col = none → post = []) ∧
      save [(playerId, .int id)] obj oid col =
        pre ++ ((saved obj oid col (record id col)).toList ++ post) :=
  saveFrom_spec id obj oid (List.forall_mem_nil _) col

/-- **The record of a player after a save under its id**, if that leaves a document. -/
theorem record_save {id : Int32} {obj : List (CString × Json)} {oid : ObjectId}
    {col : List Document} {d : Document} (hd : saved obj oid col (record id col) = some d)
    (h : Json.find playerId d.fields = .int id) :
    record id (save [(playerId, .int id)] obj oid col) = some d := by
  obtain ⟨pre, post, -, hpre, -, hsave⟩ := save_spec id obj oid col
  have hnone : record id pre = none := List.find?_eq_none.mpr hpre
  rw [hsave, hd, record_append, hnone, Option.none_or]
  exact List.find?_cons_of_pos (isMatch_iff.mpr h)

/-- The records of the other players stay. -/
theorem record_save_of_ne {id q : Int32} (hne : q ≠ id) {obj : List (CString × Json)}
    {oid : ObjectId} {col : List Document} {d : Document}
    (hd : saved obj oid col (record id col) = some d)
    (h : Json.find playerId d.fields = .int id) :
    record q (save [(playerId, .int id)] obj oid col) = record q col := by
  obtain ⟨pre, post, hcol, -, -, hsave⟩ := save_spec id obj oid col
  have hrecord : record q col = record q (pre ++ ((record id col).toList ++ post)) :=
    congrArg (record q) hcol
  rw [hsave, hd, hrecord, Option.toList_some, List.singleton_append, record_append,
    record_append, record_cons_of_ne hne h]
  rcases hd : record id col with _ | d
  · rfl
  · have hmatch := isMatch_iff.mp (List.find?_some hd)
    rw [Option.toList_some, List.singleton_append, record_cons_of_ne hne hmatch]

end Document

namespace Players

open PlayerMgr Document

variable {J : JsonLib} {M : MongoLib} {env : Env} {w : Players} {id : Int32} {nickname : CString}

/-! ## One role -/

theorem role_eq (id : Int32) (nickname : CString) :
    role id nickname =
      [(level, .int 1), (nickName, .str nickname), (playerId, .int id), (vip, .int 0)] := rfl

/-- The role as the database stores it. -/
theorem fromjson_role (h : StandardJson J M) (id : Int32) (nickname : CString) :
    M.fromjson (tighten (J.toStyledString (.obj (role id nickname)))) =
      some (role id (nickname.squeeze true)) := by
  have hrow : FlatObject (role id nickname) := by
    rw [role_eq]
    refine ⟨List.cons_ne_nil _ _, ?_, ?_, ?_⟩
    · simp only [Json.Sorted, List.pairwise_cons, List.forall_mem_cons]
      decide
    · simp only [List.forall_mem_cons]
      exact ⟨trivial, trivial, trivial, trivial, List.forall_mem_nil _⟩
    · simp only [List.forall_mem_cons]
      exact ⟨by decide, by decide, by decide, by decide, List.forall_mem_nil _⟩
  -- only the flag that the nickname leaves is not known
  have hkeys : ∀ f, playerId.squeeze f = playerId ∧ flagAfter f playerId.val = f ∧
      vip.squeeze f = vip ∧ flagAfter f vip.val = f := by
    intro f
    cases f <;> exact ⟨rfl, rfl, rfl, rfl⟩
  rw [h.fromjson _ hrow, role_eq, role_eq]
  simp only [Json.squeezeMembers, Json.squeezeValue, Json.flagValue, hkeys]
  rfl

theorem fromjson_key (h : StandardJson J M) (id : Int32) :
    M.fromjson (tighten (J.toStyledString (.obj [(playerId, .int id)]))) =
      some [(playerId, .int id)] := AccountMgr.fromjson_playerId h id

/-- What a new player does to the collection. -/
theorem savePlayer_role (h : StandardJson J M) (w : Players) (id : Int32) (nickname : CString) :
    (savePlayer J M env w id (.obj (role id nickname))).2 =
      { w with col := if env.updateThrows then w.col
          else save [(playerId, .int id)] (role id (nickname.squeeze true)) env.oid w.col } := by
  have hset : Json.setMember playerId (.int id) (.obj (role id nickname)) =
      .ok (.obj (role id nickname)) := by
    rw [Json.setMember, role_eq]
    rfl
  simp only [savePlayer, hset, MongoMgr.saveJson2, MongoMgr.saveJson, tighten_tighten,
    fromjson_key h, fromjson_role h]
  split_ifs <;> rfl

/-- A player that is in neither map goes into the first and is saved. -/
theorem newPlayer_eq (hcache : w.mgr.playerInfoMap[id]? = none) (hnick : w.mgr.nickNameMap = []) :
    newPlayer J M env w id nickname =
      (true, (savePlayer J M env (w.cache id (.obj (role id nickname))) id
        (.obj (role id nickname))).2) := by
  have hlookup : (w.mgr.nickNameMap.lookup nickname).isSome = false := by rw [hnick]; rfl
  have hnone : w.mgr.playerInfoMap[id]?.isSome = false := by rw [hcache]; rfl
  rw [newPlayer, hnone, hlookup]
  rfl

theorem newPlayer_of_new (h : StandardJson J M) (hcache : w.mgr.playerInfoMap[id]? = none)
    (hnick : w.mgr.nickNameMap = []) :
    newPlayer J M env w id nickname =
      (true, { w.cache id (.obj (role id nickname)) with
        col := if env.updateThrows then w.col
          else save [(playerId, .int id)] (role id (nickname.squeeze true)) env.oid w.col }) := by
  rw [newPlayer_eq hcache hnick, savePlayer_role h]
  rfl

theorem newPlayer_of_cached (hcache : w.mgr.playerInfoMap[id]?.isSome = true) :
    newPlayer J M env w id nickname = (false, w) := by rw [newPlayer, if_pos hcache]

/-! ## Steps -/

theorem step_createRole (w : Players) (req : Json) (id : Int32) (env : Env) :
    step J M w (.createRole req id env) =
      match nicknameOf req with
      | .error _ => w.restart
      | .ok none => w
      | .ok (some nickname) => (newPlayer J M env w id nickname).2 := by
  rw [step, createRoleReq]
  rcases nicknameOf req with fault | _ | nickname <;> rfl

theorem mgr_savePlayer (w : Players) (id : Int32) (json : Json) :
    (savePlayer J M env w id json).2.mgr = w.mgr := by
  rw [savePlayer]
  cases Json.setMember playerId (.int id) json <;> rfl

theorem nickNameMap_newPlayer (w : Players) (id : Int32) (nickname : CString) :
    (newPlayer J M env w id nickname).2.mgr.nickNameMap = w.mgr.nickNameMap := by
  rw [newPlayer]
  split_ifs
  · rfl
  · rfl
  · simp only [mgr_savePlayer]
    rfl

theorem nickNameMap_findPlayer (J : JsonLib) (M : MongoLib) (env : Env) (w : Players)
    (id : Int32) :
    (findPlayer J M env w id).2.mgr.nickNameMap = w.mgr.nickNameMap := by
  rw [findPlayer]
  split
  · rfl
  · simp only
    split_ifs <;> rfl

/-- A call that failed leaves a new manager. -/
theorem nickNameMap_settle {α : Type} {r : Except JsonFault α × Players}
    (h : r.2.mgr.nickNameMap = []) : (settle r).mgr.nickNameMap = [] := by
  obtain ⟨fault | _, w⟩ := r
  · rfl
  · exact h

/-- **Nothing enters the index of the nicknames.** -/
theorem nickNameMap_step (w : Players) (op : PlayerOp) (h : w.mgr.nickNameMap = []) :
    (step J M w op).mgr.nickNameMap = [] := by
  cases op with
  | createRole req id env =>
    rw [step_createRole]
    rcases nicknameOf req with fault | _ | nickname
    · rfl
    · exact h
    · exact (nickNameMap_newPlayer w id nickname).trans h
  | enterGame req id env =>
    refine nickNameMap_settle ?_
    have hfind := (nickNameMap_findPlayer J M env w id).trans h
    rw [enterGameReq]
    rcases hplayer : findPlayer J M env w id with ⟨_ | player, w'⟩ <;> rw [hplayer] at hfind <;>
      exact hfind
  | modify id json env =>
    refine nickNameMap_settle ?_
    rw [modifyUpdatePlayerInfo, mgr_savePlayer]
    exact h
  | restart => rfl

/-! ## Roles stay -/

/-- The nickname, the level and the vip level of a record. -/
def roleOf (d : Document) : Json × Json × Json :=
  (Json.find nickName d.fields, Json.find level d.fields, Json.find vip d.fields)

variable (J M) in
/-- A `createRoleReq` leaves every role that has a record as it is. -/
def KeepsRoles (w : Players) : PlayerOp → Prop
  | .createRole req id env =>
    ∀ q d, record q w.col = some d →
      ∃ d', record q (step J M w (.createRole req id env)).col = some d' ∧ roleOf d' = roleOf d
  | _ => True

/-- The condition on a `createRoleReq` with a nickname: the player is in the map, or the
update throws, or the record of the player, if there is one, already is what is asked for. -/
def SafeCreate (w : Players) : PlayerOp → Prop
  | .createRole req id env =>
    match nicknameOf req with
    | .ok (some nickname) =>
      w.mgr.playerInfoMap[id]?.isSome = true ∨ env.updateThrows = true ∨
        ∀ d, record id w.col = some d → roleOf d = (.str (nickname.squeeze true), .int 1, .int 0)
    | _ => True
  | _ => True

/-- A new player is saved as it is: its object comes without an `_id`. -/
theorem saved_role (id : Int32) (nickname : CString) (oid : ObjectId) (col : List Document)
    (d : Option Document) :
    ∃ d', saved (role id nickname) oid col d = some d' ∧ d'.fields = role id nickname := by
  have hnone : (role id nickname).lookup idKey = none := rfl
  rcases d with _ | d
  · exact ⟨⟨oid.json, role id nickname⟩, by rw [saved, inserted, hnone], rfl⟩
  · refine ⟨_, rfl, ?_⟩
    rw [replaced, hnone, Option.getD_none, if_pos rfl]
    rfl

/-- The record of a new player, and those of the others. -/
theorem record_role (id : Int32) (nickname : CString) (oid : ObjectId) (col : List Document) :
    (∃ d, record id (save [(playerId, .int id)] (role id nickname) oid col) = some d ∧
        d.fields = role id nickname) ∧
      ∀ q ≠ id, record q (save [(playerId, .int id)] (role id nickname) oid col) =
        record q col := by
  obtain ⟨d, hd, hfields⟩ := saved_role id nickname oid col (record id col)
  have hkey : Json.find playerId d.fields = .int id := by
    rw [hfields]
    rfl
  exact ⟨⟨d, record_save hd hkey, hfields⟩, fun q hq => record_save_of_ne hq hd hkey⟩

/-- **Exactness of one `newPlayer`.** -/
theorem newPlayer_keeps_iff (h : StandardJson J M) (hnick : w.mgr.nickNameMap = []) :
    (∀ q d, record q w.col = some d →
        ∃ d', record q (newPlayer J M env w id nickname).2.col = some d' ∧ roleOf d' = roleOf d) ↔
      w.mgr.playerInfoMap[id]?.isSome = true ∨ env.updateThrows = true ∨
        ∀ d, record id w.col = some d →
          roleOf d = (.str (nickname.squeeze true), .int 1, .int 0) := by
  by_cases hcache : w.mgr.playerInfoMap[id]?.isSome = true
  · rw [newPlayer_of_cached hcache]
    exact iff_of_true (fun q d hd => ⟨d, hd, rfl⟩) (.inl hcache)
  rw [newPlayer_of_new h (Option.not_isSome_iff_eq_none.mp hcache) hnick]
  -- a call that does not reach the database keeps the roles
  by_cases hthrows : env.updateThrows = true
  · simp only [hthrows, if_true]
    exact iff_of_true (fun q d hd => ⟨d, hd, rfl⟩) (.inr (.inl trivial))
  simp only [hthrows, hcache, Bool.false_eq_true, if_false, false_or]
  obtain ⟨⟨d', hnew, hfields⟩, hothers⟩ :=
    record_role id (nickname.squeeze true) env.oid w.col
  have hrole : roleOf d' = (.str (nickname.squeeze true), .int 1, .int 0) := by
    rw [roleOf, hfields]
    rfl
  refine ⟨fun hkeeps d hd => ?_, fun hsame q d hd => ?_⟩
  · obtain ⟨d'', hd'', heq⟩ := hkeeps id d hd
    rw [hnew, Option.some.injEq] at hd''
    rw [← heq, ← hd'', hrole]
  · by_cases hq : q = id
    · subst hq
      exact ⟨d', hnew, hrole.trans (hsame d hd).symm⟩
    · rw [hothers q hq]
      exact ⟨d, hd, rfl⟩

/-- One step keeps the roles exactly when it is safe. -/
theorem keepsRoles_iff (h : StandardJson J M) (hnick : w.mgr.nickNameMap = []) (op : PlayerOp) :
    KeepsRoles J M w op ↔ SafeCreate w op := by
  cases op with
  | createRole req id env =>
    rw [KeepsRoles, SafeCreate, step_createRole]
    rcases nicknameOf req with fault | _ | nickname
    · exact iff_of_true (fun q d hd => ⟨d, hd, rfl⟩) trivial
    · exact iff_of_true (fun q d hd => ⟨d, hd, rfl⟩) trivial
    · exact newPlayer_keeps_iff h hnick
  | enterGame req id env => exact Iff.rfl
  | modify id json env => exact Iff.rfl
  | restart => exact Iff.rfl

/-- **Creating a role destroys none**, in a run of requests, changes and restarts from any
collection, exactly when every `createRoleReq` of the run is safe where it is made. -/
theorem roles_kept_iff (h : StandardJson J M) (col : List Document) (ops : List PlayerOp) :
    EachStep (step J M) (KeepsRoles J M) ⟨.create, col⟩ ops ↔
      EachStep (step J M) SafeCreate ⟨.create, col⟩ ops := by
  have hall : Always (step J M) (fun _ => True) ⟨.create, col⟩ ops := fun _ _ => trivial
  refine (and_iff_right hall).symm.trans ?_
  refine always_and_eachStep_iff (I := fun w => w.mgr.nickNameMap = []) ?_ ?_ rfl trivial
  · exact fun w op hw _ _ => nickNameMap_step w op hw
  · intro w op hw _
    rw [and_iff_right trivial]
    exact keepsRoles_iff h hw op

/-- The request for a role with this nickname. -/
def roleBody (nickname : CString) : Json := Json.reply [.str nickname]

@[simp] theorem nicknameOf_roleBody (nickname : CString) :
    nicknameOf (roleBody nickname) = .ok (some nickname) := rfl

/-- A role that is created once, and looked at after a restart, is safe. -/
theorem roles_kept_create :
    EachStep (step wholeJson wholeMongo) (KeepsRoles wholeJson wholeMongo) ⟨.create, []⟩
      [.createRole (roleBody AccountMgr.userA) 7 AccountMgr.calmEnv, .restart,
        .enterGame .null 7 AccountMgr.calmEnv] := by
  refine (roles_kept_iff standardJson_whole [] _).mpr ⟨?_, trivial, trivial, trivial⟩
  exact .inr (.inr fun d hd => absurd hd (Option.some_ne_none d).symm)

/-- A role that is created again after a restart takes the place of the first. -/
theorem roles_lost_after_restart :
    StandardJson wholeJson wholeMongo ∧
      ¬ EachStep (step wholeJson wholeMongo) (KeepsRoles wholeJson wholeMongo) ⟨.create, []⟩
        [.createRole (roleBody AccountMgr.userA) 7 AccountMgr.calmEnv, .restart,
          .createRole (roleBody AccountMgr.userB) 7 AccountMgr.calmEnv] := by
  refine ⟨standardJson_whole, ?_⟩
  rintro ⟨-, -, hkeeps, -⟩
  have hfirst : step wholeJson wholeMongo ⟨.create, []⟩
      (.createRole (roleBody AccountMgr.userA) 7 AccountMgr.calmEnv) = _ :=
    congrArg Prod.snd (newPlayer_of_new standardJson_whole rfl rfl)
  have hsafe := (keepsRoles_iff standardJson_whole rfl _).mp hkeeps
  rw [hfirst] at hsafe
  obtain ⟨⟨d, hd, hfields⟩, -⟩ := record_role 7 (AccountMgr.userA.squeeze true)
    AccountMgr.calmEnv.oid []
  rcases hsafe with hcache | hthrows | hsame
  · exact Bool.noConfusion hcache
  · exact Bool.noConfusion hthrows
  · have hrole := hsame d hd
    rw [roleOf, hfields] at hrole
    exact absurd hrole (by decide)

/-! ## Nicknames -/

/-- The nickname of a player in the map. -/
def nicknameIn (w : Players) (id : Int32) : Option Json :=
  match w.mgr.playerInfoMap[id]? with
  | some (.obj ms) => ms.lookup nickName
  | _ => none

/-- No two players in the map have the same nickname. -/
def DistinctNicknames (w : Players) : Prop :=
  ∀ p q n, w.nicknameIn p = some n → w.nicknameIn q = some n → p = q

variable (J M) in
/-- A `createRoleReq`: the body, the player and what happens outside. -/
def createStep (w : Players) (e : Json × Int32 × Env) : Players :=
  step J M w (.createRole e.1 e.2.1 e.2.2)

/-- The condition on a `createRoleReq`: the player is in the map, or no player in the map has the
nickname. -/
def FreshNickname (w : Players) (e : Json × Int32 × Env) : Prop :=
  match nicknameOf e.1 with
  | .ok (some nickname) =>
    w.mgr.playerInfoMap[e.2.1]?.isSome = true ∨ ∀ q, w.nicknameIn q ≠ some (.str nickname)
  | _ => True

theorem mgr_newPlayer (hcache : w.mgr.playerInfoMap[id]? = none) (hnick : w.mgr.nickNameMap = []) :
    (newPlayer J M env w id nickname).2.mgr =
      ⟨w.mgr.playerInfoMap.insert id (.obj (role id nickname)), []⟩ := by
  rw [newPlayer_eq hcache hnick, mgr_savePlayer]
  simp only [cache, hnick]

/-- The nicknames after a new player. -/
theorem nicknameIn_newPlayer (hcache : w.mgr.playerInfoMap[id]? = none)
    (hnick : w.mgr.nickNameMap = []) (q : Int32) :
    (newPlayer J M env w id nickname).2.nicknameIn q =
      if id = q then some (.str nickname) else w.nicknameIn q := by
  rw [nicknameIn, mgr_newPlayer hcache hnick]
  simp only [lookup_insert]
  split_ifs <;> rfl

/-- **Exactness of one `newPlayer`**, for the nicknames. -/
theorem newPlayer_distinct_iff (hnick : w.mgr.nickNameMap = []) (hw : w.DistinctNicknames) :
    (newPlayer J M env w id nickname).2.DistinctNicknames ↔
      w.mgr.playerInfoMap[id]?.isSome = true ∨ ∀ q, w.nicknameIn q ≠ some (.str nickname) := by
  by_cases hcache : w.mgr.playerInfoMap[id]?.isSome = true
  · rw [newPlayer_of_cached hcache]
    exact iff_of_true hw (.inl hcache)
  have hnone := Option.not_isSome_iff_eq_none.mp hcache
  have hself : w.nicknameIn id = none := by rw [nicknameIn, hnone]
  simp only [DistinctNicknames, nicknameIn_newPlayer hnone hnick, hcache, Bool.false_eq_true,
    false_or]
  refine ⟨fun hdistinct q hq => ?_, fun hfree p q n hp hq => ?_⟩
  · have hne : id ≠ q := by
      rintro rfl
      rw [hself] at hq
      cases hq
    exact hne (hdistinct id q (.str nickname) (if_pos rfl) ((if_neg hne).trans hq))
  · -- one of the two players may be the new one
    split_ifs at hp hq with h₁ h₂ h₂
    · exact h₁.symm.trans h₂
    · exact absurd (hq.trans hp.symm) (hfree q)
    · exact absurd (hp.trans hq.symm) (hfree p)
    · exact hw p q n hp hq

theorem createStep_distinct_iff (hnick : w.mgr.nickNameMap = []) (hw : w.DistinctNicknames)
    (e : Json × Int32 × Env) : (createStep J M w e).DistinctNicknames ↔ w.FreshNickname e := by
  rw [createStep, step_createRole, FreshNickname]
  rcases nicknameOf e.1 with fault | _ | nickname
  · refine iff_of_true ?_ trivial
    intro p q n hp
    cases hp
  · exact iff_of_true hw trivial
  · exact newPlayer_distinct_iff hnick hw

/-- **No two players in the map share a nickname**, in every state of a run of requests
from an empty manager, exactly when no request of the run asks for a nickname that a
player in the map has. -/
theorem nicknames_distinct_iff (J : JsonLib) (M : MongoLib) (col : List Document)
    (es : List (Json × Int32 × Env)) :
    Always (createStep J M) DistinctNicknames ⟨.create, col⟩ es ↔
      EachStep (createStep J M) FreshNickname ⟨.create, col⟩ es := by
  refine always_iff_eachStep (I := fun w => w.mgr.nickNameMap = []) ?_ ?_ rfl ?_
  · exact fun w e hw => nickNameMap_step w _ hw
  · exact fun w e hnick hw => createStep_distinct_iff hnick hw e
  · intro p q n hp
    cases hp

/-- Two players get the same nickname. -/
theorem nicknames_shared :
    ¬ Always (createStep wholeJson wholeMongo) DistinctNicknames ⟨.create, []⟩
      [(roleBody AccountMgr.userA, 1, AccountMgr.calmEnv),
        (roleBody AccountMgr.userA, 2, AccountMgr.calmEnv)] := by
  intro hall
  have hsame := hall.last 1 2 (.str AccountMgr.userA) rfl rfl
  exact absurd hsame (by decide)

end Players

end MyServer
