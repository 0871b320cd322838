import MyServer.AccountIntegrity
import MyServer.Roles

/-!
# What a success answer is worth

`handlePlayerRegist` and `createRoleReq` both answer 0 without a look at what became of
the save. `answers_truthful_iff` says for each of them, in every reachable state and for
every choice of database calls that throw, when the answer 0 is true: the account with the
answered id and the requested name is stored, or the role was created by this call.
-/

namespace MyServer

namespace Account

/-- The ids of a table stay distinct: an account with an id in use is replaced. -/
theorem playerId_nodup_upsert {new : Account} {as : List Account}
    (h : (as.map playerId).Nodup) : ((upsert new as).map playerId).Nodup := by
  rcases hfind : as.find? (fun a => a.playerId = new.playerId) with _ | a
  · have hne : ∀ a ∈ as, a.playerId ≠ new.playerId := by
      intro a ha heq
      exact absurd (List.find?_eq_none.mp hfind a ha) (not_not.mpr (decide_eq_true heq))
    rw [upsert_of_free hne, List.map_append, List.nodup_append]
    refine ⟨h, List.nodup_singleton _, ?_⟩
    intro x hx y hy hxy
    obtain ⟨a, ha, rfl⟩ := List.mem_map.mp hx
    rw [List.mem_singleton.mp hy] at hxy
    exact hne a ha hxy
  · obtain ⟨pre, post, rfl, -, hkey, hupsert⟩ := upsert_of_taken hfind
    rw [hupsert]
    simp only [List.map_append, List.map_cons, hkey] at h ⊢
    exact h

theorem playerId_nodup_tableStep {as : List Account} (h : (as.map playerId).Nodup)
    (r : AccountMgr.Request) : ((tableStep as r).map playerId).Nodup := by
  rcases tableStep_cases as r with heq | ⟨name, pass, -, -, heq⟩
  · rwa [heq]
  · rw [heq]
    exact playerId_nodup_upsert h

/-- The account with the new id is the new one. -/
theorem mem_upsert_iff {new : Account} {as : List Account} (h : (as.map playerId).Nodup)
    (name : CString) :
    (∃ a ∈ upsert new as, a.playerId = new.playerId ∧ a.userName = name) ↔
      new.userName = name := by
  refine ⟨?_, ?_⟩
  · rintro ⟨a, ha, hid, rfl⟩
    obtain ⟨oid, hmem⟩ := registered_mem_upsert new as
    have heq : a = { new with oid := oid } :=
      List.inj_on_of_nodup_map (playerId_nodup_upsert h) ha hmem hid
    rw [heq]
  · rintro rfl
    obtain ⟨oid, hmem⟩ := registered_mem_upsert new as
    exact ⟨_, hmem, rfl, rfl⟩

end Account

namespace AccountMgr

open Account

variable {J : JsonLib} {M : MongoLib}

/-- An account with this id and name is in the collection. -/
def Stored (k : Int32) (name : CString) (col : List Document) : Prop :=
  ∃ d ∈ col, idOf d = .int k ∧ nameOf d = .str name

theorem stored_map_iff {k : Int32} {name : CString} {as : List Account} :
    Stored k name (as.map document) ↔ ∃ a ∈ as, a.playerId = k ∧ a.userName = name := by
  have hid : ∀ a : Account, idOf a.document = .int a.playerId := fun _ => rfl
  have hname : ∀ a : Account, nameOf a.document = .str a.userName := fun _ => rfl
  simp [Stored, hid, hname]

/-- **The answer of a registration.** -/
theorem regist_truthful_iff (h : StandardJson J M) {as : List Account}
    (hids : (as.map Account.playerId).Nodup) {env : Env} {req : Json} {p k : Int32}
    {name pass : CString} (hreq : credentials req = .ok (some (name, pass)))
    (hanswer : (handlePlayerRegist J M env req p (as.map document)).1 = answer [.int 0, .int k]) :
    Stored k name (handlePlayerRegist J M env req p (as.map document)).2 ↔
      (env.updateThrows = false ∧ name.squeeze true = name) ∨
        (env.updateThrows = true ∧ Stored k name (as.map document)) := by
  rw [handlePlayerRegist_eq h env hreq] at hanswer ⊢
  have hnumbers := answer_injective hanswer
  rw [regist] at hnumbers ⊢
  rcases hfound : found env name as with _ | a
  · simp only [hfound, List.cons.injEq, Json.int.injEq, and_true, true_and] at hnumbers ⊢
    subst hnumbers
    simp only [stored_map_iff]
    cases hthrows : env.updateThrows with
    | true => simp
    | false =>
      simp only [Bool.false_eq_true, if_false, true_and, false_and, or_false]
      exact mem_upsert_iff hids name
  · simp [hfound] at hnumbers

/-- In every reachable state the collection is a table of accounts with distinct ids. -/
theorem exists_table (h : StandardJson J M) (rs : List Request) :
    ∃ as : List Account, runFrom (step J M) [] rs = as.map document ∧
      (as.map Account.playerId).Nodup := by
  have hrun := runFrom_map (f := List.map document) (step_document h) [] rs
  refine ⟨runFrom tableStep [] rs, hrun, ?_⟩
  refine Always.last (P := fun as : List Account => (as.map Account.playerId).Nodup) ?_
  apply always_of_step
  · exact fun as r has => playerId_nodup_tableStep has r
  · exact List.nodup_nil

end AccountMgr

namespace Players

open PlayerMgr Document

variable {J : JsonLib} {M : MongoLib}

/-- The player had no role, and now has a record with this nickname. -/
def Created (id : Int32) (nickname : CString) (before after : List Document) : Prop :=
  record id before = none ∧
    ∃ d, record id after = some d ∧ Json.find nickName d.fields = .str nickname

/-- **The answer of `createRoleReq`.** -/
theorem createRole_truthful_iff (h : StandardJson J M) {w : Players}
    (hnick : w.mgr.nickNameMap = []) {env : Env} {req : Json} {id : Int32} {nickname : CString}
    (hreq : nicknameOf req = .ok (some nickname)) :
    Created id nickname w.col (createRoleReq J M env req id w).2.col ↔
      w.mgr.playerInfoMap[id]? = none ∧ record id w.col = none ∧ env.updateThrows = false ∧
        nickname.squeeze true = nickname := by
  have hstate : (createRoleReq J M env req id w).2 = (newPlayer J M env w id nickname).2 := by
    rw [createRoleReq, hreq]
  rw [hstate]
  -- a collection that stays the same has no new record
  have hsame : ¬ Created id nickname w.col w.col := by
    rintro ⟨hnone, d, hd, -⟩
    rw [hnone] at hd
    cases hd
  by_cases hcache : w.mgr.playerInfoMap[id]?.isSome = true
  · rw [newPlayer_of_cached hcache]
    refine iff_of_false hsame fun hok => ?_
    rw [hok.1] at hcache
    cases hcache
  have hnone := Option.not_isSome_iff_eq_none.mp hcache
  rw [newPlayer_of_new h hnone hnick]
  cases hthrows : env.updateThrows with
  | true => simpa using hsame
  | false =>
    obtain ⟨⟨d, hd, hfields⟩, -⟩ := record_role id (nickname.squeeze true) env.oid w.col
    have hname : Json.find nickName d.fields = .str (nickname.squeeze true) := by
      rw [hfields]
      rfl
    simp only [Bool.false_eq_true, if_false, Created, hd, Option.some.injEq, exists_eq_left', hname,
      Json.str.injEq, hnone, true_and]

end Players

open AccountMgr Players Document

/-- **What the answer 0 is worth.** In every reachable state and whatever calls throw:

* a registration that answers 0 with the id `k` leaves an account with this id and the
  requested name, exactly if the update goes through and the name survives it, or the
  update throws and there is such an account anyway;
* a `createRoleReq` with a nickname, which always answers 0, has created the role, exactly
  if the player is not in the map and has no record, the update goes through and the
  nickname survives it. -/
theorem answers_truthful_iff {J : JsonLib} {M : MongoLib} (h : StandardJson J M) :
    (∀ (rs : List AccountMgr.Request) (env : Env) (req : Json) (p k : Int32) (name pass : CString),
      credentials req = .ok (some (name, pass)) →
      (handlePlayerRegist J M env req p (runFrom (AccountMgr.step J M) [] rs)).1 =
        answer [.int 0, .int k] →
      (Stored k name (handlePlayerRegist J M env req p (runFrom (AccountMgr.step J M) [] rs)).2 ↔
        (env.updateThrows = false ∧ name.squeeze true = name) ∨
          (env.updateThrows = true ∧ Stored k name (runFrom (AccountMgr.step J M) [] rs)))) ∧
    ∀ (col : List Document) (ops : List PlayerOp) (env : Env) (req : Json) (id : Int32)
      (nickname : CString) (w : Players), w = runFrom (Players.step J M) ⟨.create, col⟩ ops →
      nicknameOf req = .ok (some nickname) →
      (createRoleReq J M env req id w).1 = .ok (true, Json.reply [.int 0]) ∧
        (Created id nickname w.col (createRoleReq J M env req id w).2.col ↔
          w.mgr.playerInfoMap[id]? = none ∧ record id w.col = none ∧ env.updateThrows = false ∧
            nickname.squeeze true = nickname) := by
  refine ⟨?_, ?_⟩
  · intro rs env req p k name pass hreq hanswer
    obtain ⟨as, hcol, hids⟩ := exists_table h rs
    rw [hcol] at hanswer ⊢
    exact regist_truthful_iff h hids hreq hanswer
  · rintro col ops env req id nickname w rfl hreq
    have hnick : (runFrom (Players.step J M) ⟨.create, col⟩ ops).mgr.nickNameMap = [] := by
      have hall : Always (Players.step J M) (fun w => w.mgr.nickNameMap = []) ⟨.create, col⟩ ops :=
        always_of_step nickNameMap_step rfl ops
      exact hall.last
    refine ⟨?_, createRole_truthful_iff h hnick hreq⟩
    rw [createRoleReq, hreq]

/-- A first registration and a first role are true to their answers. -/
theorem answers_truthful_first :
    Stored 1 userA (handlePlayerRegist wholeJson wholeMongo calmEnv (body userA userB) 0
        (runFrom (AccountMgr.step wholeJson wholeMongo) [] [])).2 ∧
      Created 7 userA [] (createRoleReq wholeJson wholeMongo calmEnv (roleBody userA) 7
        (runFrom (Players.step wholeJson wholeMongo) ⟨.create, []⟩ [])).2.col := by
  obtain ⟨haccount, hrole⟩ := answers_truthful_iff standardJson_whole
  have hanswer : (handlePlayerRegist wholeJson wholeMongo calmEnv (body userA userB) 0 []).1 =
      answer [.int 0, .int 1] :=
    congrArg Prod.fst (handlePlayerRegist_eq standardJson_whole calmEnv (credentials_body _ _) 0 [])
  refine ⟨(haccount [] calmEnv _ 0 1 userA userB (credentials_body _ _) hanswer).mpr ?_,
    (hrole [] [] calmEnv _ 7 userA _ rfl rfl).2.mpr ?_⟩
  · exact .inl ⟨rfl, rfl⟩
  · exact ⟨rfl, rfl, rfl, rfl⟩

/-- When the update throws, both answer 0 and nothing is stored. -/
theorem answers_untrue :
    (handlePlayerRegist wholeJson wholeMongo stormEnv (body userA userB) 0 []).1 =
        answer [.int 0, .int 1] ∧
      ¬ Stored 1 userA
        (handlePlayerRegist wholeJson wholeMongo stormEnv (body userA userB) 0 []).2 ∧
      (createRoleReq wholeJson wholeMongo stormEnv (roleBody userA) 7 ⟨.create, []⟩).1 =
        .ok (true, Json.reply [.int 0]) ∧
      ¬ Created 7 userA []
        (createRoleReq wholeJson wholeMongo stormEnv (roleBody userA) 7 ⟨.create, []⟩).2.col := by
  have hregist : handlePlayerRegist wholeJson wholeMongo stormEnv (body userA userB) 0 [] =
      (answer [.int 0, .int 1], []) :=
    handlePlayerRegist_eq standardJson_whole stormEnv (credentials_body _ _) 0 []
  refine ⟨congrArg Prod.fst hregist, ?_, rfl, fun hcreated => ?_⟩
  · rw [hregist]
    rintro ⟨d, hd, -⟩
    exact List.not_mem_nil hd
  · have hindex : (⟨.create, []⟩ : Players).mgr.nickNameMap = [] := rfl
    have hok := (createRole_truthful_iff standardJson_whole hindex (nicknameOf_roleBody userA)).mp
      hcreated
    exact Bool.noConfusion hok.2.2.1

end MyServer
