import MyServer.Accounts

/-!
# Register, then log in

What a successful registration is good for, when the database never fails: from then on
the same credentials log in and answer the player id it handed out, and no other user
name does, whatever requests come in between. `registers_for_good_iff` says exactly for
which registrations this holds:

* the user name has no quote: otherwise `tighten` takes another user name for it;
* in the password, an even number of quotes stands before each blank: otherwise what is
  stored is not what was sent;
* no account had the player id before: otherwise the table did not grow, the next
  registration hands out the same player id and overwrites this account.

The count of accounts is an `int`; everything is said of runs in which it does not
overflow.
-/

namespace MyServer

namespace Account

/-! ## The table across registrations -/

/-- Under a player id in use, a second `upsert` leaves nothing of the first. -/
theorem upsert_upsert {new next : Account} {as : List Account}
    (htaken : ∃ a ∈ as, a.playerId = new.playerId) (hid : next.playerId = new.playerId) :
    upsert next (upsert new as) = upsert next as ∧ (upsert new as).length = as.length := by
  induction as with
  | nil =>
    obtain ⟨a, ha, -⟩ := htaken
    exact absurd ha List.not_mem_nil
  | cons a as ih =>
    by_cases ha : a.playerId = new.playerId
    · rw [upsert, if_pos ha, upsert, if_pos hid.symm, upsert, if_pos (ha.trans hid.symm)]
      exact ⟨rfl, rfl⟩
    · have htail : ∃ b ∈ as, b.playerId = new.playerId := by
        obtain ⟨b, hb, hkey⟩ := htaken
        rcases List.mem_cons.mp hb with rfl | hb
        · exact absurd hkey ha
        · exact ⟨b, hb, hkey⟩
      obtain ⟨heq, hlen⟩ := ih htail
      have hne : a.playerId ≠ next.playerId := fun h => ha (h.trans hid)
      rw [upsert, if_neg ha, upsert, if_neg hne, upsert, if_neg hne, heq]
      exact ⟨rfl, congrArg (· + 1) hlen⟩

theorem lookup_eq_none {name : CString} {as : List Account} :
    lookup name as = none ↔ ∀ a ∈ as, a.userName ≠ name := by
  rw [lookup, List.find?_eq_none]
  simp only [decide_eq_true_eq]

theorem lookup_eq_some {name : CString} {as : List Account} {a : Account}
    (h : lookup name as = some a) : a ∈ as ∧ a.userName = name := by
  have hname := List.find?_some h
  rw [decide_eq_true_eq] at hname
  exact ⟨List.mem_of_find?_eq_some h, hname⟩

/-- A lookup of the new account finds it. -/
theorem lookup_upsert (new : Account) {as : List Account}
    (hfresh : ∀ a ∈ as, a.userName ≠ new.userName) :
    ∃ oid, lookup new.userName (upsert new as) = some { new with oid := oid } := by
  rcases hlookup : lookup new.userName (upsert new as) with _ | a
  · obtain ⟨oid, hmem⟩ := registered_mem_upsert new as
    exact absurd rfl (lookup_eq_none.mp hlookup { new with oid := oid } hmem)
  · obtain ⟨hmem, hname⟩ := lookup_eq_some hlookup
    rcases mem_upsert hmem with hold | ⟨oid, rfl⟩
    · exact absurd hname (hfresh a hold)
    · exact ⟨oid, rfl⟩

/-- Some user name is not in the table, and survives `tighten`. -/
theorem exists_fresh (as : List Account) :
    ∃ name : CString, name.squeeze true = name ∧ ∀ a ∈ as, a.userName ≠ name := by
  have hbound : ∃ k, ∀ a ∈ as, a.userName.val.length < k := by
    induction as with
    | nil => exact ⟨0, fun a ha => absurd ha List.not_mem_nil⟩
    | cons b as ih =>
      obtain ⟨k, hk⟩ := ih
      refine ⟨max k (b.userName.val.length + 1), fun a ha => ?_⟩
      rcases List.mem_cons.mp ha with rfl | ha
      · omega
      · have := hk a ha
        omega
  obtain ⟨k, hk⟩ := hbound
  have hzero : 0 ∉ List.replicate k (97 : UInt8) := by
    intro h
    exact absurd (List.eq_of_mem_replicate h) (by decide)
  have hquote : 34 ∉ List.replicate k (97 : UInt8) := by
    intro h
    exact absurd (List.eq_of_mem_replicate h) (by decide)
  refine ⟨⟨List.replicate k 97, hzero⟩, Subtype.ext (squeeze_of_noQuote hquote), ?_⟩
  intro a ha heq
  have := hk a ha
  rw [heq, List.length_replicate] at this
  exact Nat.lt_irrefl k this

/-! ## A registration that holds -/

/-- The account with this name and the account with this player id are the same, and it has
this password. -/
structure Holds (name pass : CString) (id : Int32) (as : List Account) : Prop where
  /-- it is there -/
  here : ∃ a ∈ as, a.userName = name
  /-- nothing else has its name or its player id -/
  only : ∀ a ∈ as, a.userName = name ∨ a.playerId = id →
    a.userName = name ∧ a.playerId = id ∧ a.userPass = pass

theorem found_of_calm {env : Env} (hcalm : env.Calm) (name : CString) (as : List Account) :
    found env name as = lookup (name.squeeze true) as := by
  rw [found, hcalm.1]
  rfl

/-- **Step**: a request under which another player id is handed out keeps it. -/
theorem Holds.step {name pass : CString} {id : Int32} {as : List Account}
    (h : Holds name pass id as) {r : AccountMgr.Request} (hcalm : r.env.Calm)
    (hid : Int32.ofNat (as.length + 1) ≠ id) : Holds name pass id (tableStep as r) := by
  rcases tableStep_cases as r with heq | ⟨name', pass', hfound, -, heq⟩
  · rwa [heq]
  · rw [found_of_calm hcalm] at hfound
    rw [heq, nextId_of_count hcalm.2.1]
    obtain ⟨a, ha, hname⟩ := h.here
    have hkey := (h.only a ha (.inl hname)).2.1
    refine ⟨⟨a, mem_upsert_of_ne ha (hkey ▸ Ne.symm hid), hname⟩, fun b hb hor => ?_⟩
    rcases mem_upsert hb with hold | ⟨oid, rfl⟩
    · exact h.only b hold hor
    · -- the new account has another name and another player id
      rcases hor with hor | hor
      · exact absurd (hname.trans hor.symm) (lookup_eq_none.mp hfound a ha)
      · exact absurd hor hid

/-- **Run**: it is kept by every run in which the count does not reach `2 ^ 31`. -/
theorem Holds.run {name pass : CString} {k : ℕ} {as : List Account}
    (h : Holds name pass (.ofNat k) as) (hk : k ≤ as.length) {rs : List AccountMgr.Request}
    (hcalm : ∀ r ∈ rs, r.env.Calm)
    (hfits : EachStep tableStep (fun as _ => as.length + 1 < 2 ^ 31) as rs) :
    Holds name pass (.ofNat k) (runFrom tableStep as rs) := by
  induction rs generalizing as with
  | nil => exact h
  | cons r rs ih =>
    obtain ⟨hnow, hlater⟩ := hfits
    obtain ⟨hgrow, -⟩ := length_tableStep as r
    rw [runFrom_cons]
    refine ih (h.step (hcalm r (List.mem_cons_self ..)) ?_) (by omega)
      (fun s hs => hcalm s (List.mem_cons_of_mem r hs)) hlater
    exact ofNat_ne (by omega) (by omega) (by omega)

/-! ## Logging in -/

/-- `name` and `pass` find the account `id`, and no other user name finds an account with
that player id. -/
def LogsIn (name pass : CString) (id : Int32) (as : List Account) : Prop :=
  (∃ a, lookup (name.squeeze true) as = some a ∧ a.userPass = pass ∧ a.playerId = id) ∧
  ∀ name', name' ≠ name → ∀ a, lookup (name'.squeeze true) as = some a → a.playerId ≠ id

/-- Before each blank stands an even number of quotes. -/
def BlankSafe (s : List UInt8) : Prop :=
  ∀ pre post, s = pre ++ 32 :: post → Even (pre.count 34)

theorem squeeze_eq_self_iff_blankSafe (s : CString) :
    s.squeeze true = s ↔ BlankSafe s.val := by
  rw [Subtype.ext_iff, CString.squeeze, squeeze_eq_self_iff, BlankSafe]
  simp only [flagAfter_eq_true_iff]

/-- An account that holds, under a user name without quotes, is reached by it alone. -/
theorem Holds.logsIn {name pass : CString} {id : Int32} {as : List Account}
    (h : Holds (name.squeeze true) pass id as) (hname : 34 ∉ name.val) :
    LogsIn name pass id as := by
  refine ⟨?_, ?_⟩
  · rcases hlookup : lookup (name.squeeze true) as with _ | a
    · obtain ⟨a, ha, heq⟩ := h.here
      exact absurd heq (lookup_eq_none.mp hlookup a ha)
    · obtain ⟨hmem, heq⟩ := lookup_eq_some hlookup
      obtain ⟨-, hid, hpass⟩ := h.only a hmem (.inl heq)
      exact ⟨a, rfl, hpass, hid⟩
  · intro name' hne a hlookup hid
    obtain ⟨hmem, heq⟩ := lookup_eq_some hlookup
    have hsame := heq.symm.trans (h.only a hmem (.inr hid)).1
    exact hne (Subtype.ext (squeeze_inj_of_noQuote hname (congrArg Subtype.val hsame)))

section Registered

variable {env : Env} {name pass : CString} {id : Int32} {as : List Account}
  (hfresh : ∀ a ∈ as, a.userName ≠ name.squeeze true)

include hfresh

/-- Under a player id that was free, the new account holds. -/
theorem holds_registered (hfree : ∀ a ∈ as, a.playerId ≠ id) :
    Holds (name.squeeze true) (registered env id name pass).userPass id
      (upsert (registered env id name pass) as) := by
  obtain ⟨oid, hmem⟩ := registered_mem_upsert (registered env id name pass) as
  refine ⟨⟨_, hmem, rfl⟩, fun a ha hor => ?_⟩
  rcases mem_upsert ha with hold | ⟨oid, rfl⟩
  · rcases hor with hor | hor
    · exact absurd hor (hfresh a hold)
    · exact absurd hor (hfree a hold)
  · exact ⟨rfl, rfl, rfl⟩

/-- Where the credentials of a registration log in right after it, they survived. -/
theorem survives_of_logsIn (h : LogsIn name pass id (upsert (registered env id name pass) as)) :
    34 ∉ name.val ∧ BlankSafe pass.val := by
  obtain ⟨oid, hlookup⟩ := lookup_upsert (registered env id name pass) hfresh
  have hname : 34 ∉ name.val := by
    intro hquote
    obtain ⟨name', hne, hsame⟩ := exists_squeeze_eq hquote
    exact h.2 name' hne _ (by rw [hsame]; exact hlookup) rfl
  refine ⟨hname, (squeeze_eq_self_iff_blankSafe pass).mp ?_⟩
  obtain ⟨a, ha, hpass, -⟩ := h.1
  have hstored : a = { registered env id name pass with oid := oid } :=
    Option.some.inj (ha.symm.trans hlookup)
  rw [hstored] at hpass
  simp only [registered, flagAfter_of_noQuote hname, Bool.not_false] at hpass
  exact hpass

/-- Under a player id in use, one more registration takes the account away. -/
theorem overwritten_of_taken (hcalm : env.Calm) (hid : id = .ofNat (as.length + 1))
    (htaken : ∃ a ∈ as, a.playerId = id) :
    ∃ r : AccountMgr.Request, r.env.Calm ∧
      ¬ LogsIn name pass id (tableStep (upsert (registered env id name pass) as) r) := by
  obtain ⟨fresh, hsqueeze, hnew⟩ := exists_fresh (upsert (registered env id name pass) as)
  have htwice : upsert (registered env id fresh fresh) (upsert (registered env id name pass) as) =
        upsert (registered env id fresh fresh) as ∧
      (upsert (registered env id name pass) as).length = as.length := upsert_upsert htaken rfl
  have hlookup : lookup (fresh.squeeze true) (upsert (registered env id name pass) as) = none := by
    rw [hsqueeze]
    exact lookup_eq_none.mpr hnew
  -- the count has not changed, so the next registration uses the same player id
  have hstep : tableStep (upsert (registered env id name pass) as)
      (.regist (AccountMgr.body fresh fresh) env) = upsert (registered env id fresh fresh) as := by
    rw [tableStep, AccountMgr.credentials_body]
    simp only [regist, found_of_calm hcalm, hlookup, nextId_of_count hcalm.2.1, htwice.2, ← hid,
      hcalm.2.2, Bool.false_eq_true, if_false]
    exact htwice.1
  refine ⟨.regist (AccountMgr.body fresh fresh) env, hcalm, ?_⟩
  rintro ⟨⟨a, ha, -, -⟩, -⟩
  rw [hstep] at ha
  obtain ⟨hmem, heq⟩ := lookup_eq_some ha
  rcases mem_upsert hmem with hold | ⟨oid, rfl⟩
  · exact hfresh a hold heq
  · -- the name that took its place is another one
    obtain ⟨oid', hold⟩ := registered_mem_upsert (registered env id name pass) as
    exact hnew _ hold (heq.symm.trans hsqueeze)

end Registered

end Account

namespace AccountMgr

open Account

variable (J : JsonLib) (M : MongoLib)

/-! ## The handlers -/

/-- In this collection, `name` and `pass` log in as player `id`, and no other user name
does. -/
def LogsInAs (name pass : CString) (id : Int32) (col : List Document) : Prop :=
  (∀ (env : Env) (p : Int32), env.Calm →
    (handlePlayerLogin J M env (body name pass) p col).1 = answer [.int 0, .int id]) ∧
  ∀ (env : Env) (p : Int32) (req : Json) (name' pass' : CString), env.Calm →
    credentials req = .ok (some (name', pass')) → name' ≠ name →
    (handlePlayerLogin J M env req p col).1 ≠ answer [.int 0, .int id]

variable {J M}

/-- A player id that is not next to the smallest `int` is answered as it is. -/
theorem demote_int_iff {n id : Int32} (hid : -2147483640 < id.toInt) :
    Reader.demote (.int n) = .int id ↔ n = id := by
  rw [Reader.demote]
  split_ifs with hn
  · exact Json.int.injEq n id ▸ Iff.rfl
  · refine iff_of_false (by simp) ?_
    rintro rfl
    exact hn hid

/-- A login that answers `id` has found an account with that player id. -/
theorem login_eq_iff {env : Env} (hcalm : env.Calm) {name pass : CString} {as : List Account}
    {id : Int32} (hid : -2147483640 < id.toInt) :
    login env name pass as = [.int 0, .int id] ↔
      ∃ a, lookup (name.squeeze true) as = some a ∧ a.userPass = pass ∧ a.playerId = id := by
  rw [login, found_of_calm hcalm]
  rcases lookup (name.squeeze true) as with _ | a
  · simp
  · simp only [Option.some.injEq, exists_eq_left']
    split_ifs with hpass
    · simp only [List.cons.injEq, true_and, and_true, demote_int_iff hid, hpass]
    · simp [hpass]

theorem logsInAs_iff (h : StandardJson J M) (name pass : CString) {id : Int32}
    (hid : -2147483640 < id.toInt) (as : List Account) :
    LogsInAs J M name pass id (as.map document) ↔ LogsIn name pass id as := by
  have hanswer : ∀ {env : Env} {p : Int32} {req : Json} {name' pass' : CString}, env.Calm →
      credentials req = .ok (some (name', pass')) →
      ((handlePlayerLogin J M env req p (as.map document)).1 = answer [.int 0, .int id] ↔
        ∃ a, lookup (name'.squeeze true) as = some a ∧ a.userPass = pass' ∧ a.playerId = id) := by
    intro env p req name' pass' hcalm hreq
    rw [← login_eq_iff hcalm hid, handlePlayerLogin, loginAnswer_eq h env hreq]
    exact ⟨answer_injective, congrArg answer⟩
  have hcalm : calmEnv.Calm := by decide
  refine ⟨?_, ?_⟩
  · rintro ⟨hself, hothers⟩
    refine ⟨(hanswer hcalm (credentials_body name pass)).mp (hself calmEnv 0 hcalm), ?_⟩
    intro name' hne a hlookup hid
    have hbody := credentials_body name' a.userPass
    exact hothers calmEnv 0 _ name' a.userPass hcalm hbody hne
      ((hanswer hcalm hbody).mpr ⟨a, hlookup, rfl, hid⟩)
  · rintro ⟨hself, hothers⟩
    refine ⟨fun env p hcalm => (hanswer hcalm (credentials_body name pass)).mpr hself, ?_⟩
    intro env p req name' pass' hcalm hreq hne heq
    obtain ⟨a, hlookup, -, hid⟩ := (hanswer hcalm hreq).mp heq
    exact hothers name' hne a hlookup hid

/-- What a registration that answers `[0, id]` found and did. -/
theorem regist_eq {env : Env} (hcalm : env.Calm) {name pass : CString} {as : List Account}
    {id : Int32} (h : (regist env name pass as).1 = [.int 0, .int id]) :
    (∀ a ∈ as, a.userName ≠ name.squeeze true) ∧ id = .ofNat (as.length + 1) ∧
      (regist env name pass as).2 = upsert (registered env id name pass) as := by
  rw [regist, found_of_calm hcalm] at h ⊢
  rcases hlookup : lookup (name.squeeze true) as with _ | a
  · simp only [hlookup, nextId_of_count hcalm.2.1, hcalm.2.2, Bool.false_eq_true, if_false] at h ⊢
    have hid : id = .ofNat (as.length + 1) := by
      simp only [List.cons.injEq, Json.int.injEq, and_true, true_and] at h
      exact h.symm
    exact ⟨lookup_eq_none.mp hlookup, hid, by rw [hid]⟩
  · simp only [hlookup] at h
    exact absurd h (by simp)

/-- **Register, then log in**: a registration that answers `[0, id]` is good for every
run of requests after it, as long as the number of accounts plus one is an `int`, exactly if its
user name has no quote, its password has an even number of quotes before each blank, and the
player id was free. -/
theorem registers_for_good_iff (h : StandardJson J M) {env : Env} (hcalm : env.Calm)
    (as : List Account) (hfits : as.length + 2 < 2 ^ 31) (name pass : CString) (p id : Int32)
    (hreg : (handlePlayerRegist J M env (body name pass) p (as.map document)).1 =
      answer [.int 0, .int id]) :
    (∀ rs : List Request, (∀ r ∈ rs, r.env.Calm) →
      EachStep (step J M) (fun col _ => col.length + 1 < 2 ^ 31)
        (handlePlayerRegist J M env (body name pass) p (as.map document)).2 rs →
      LogsInAs J M name pass id (runFrom (step J M)
        (handlePlayerRegist J M env (body name pass) p (as.map document)).2 rs)) ↔
    34 ∉ name.val ∧ BlankSafe pass.val ∧ ∀ a ∈ as, a.playerId ≠ id := by
  rw [handlePlayerRegist_eq h env (credentials_body name pass)] at hreg ⊢
  obtain ⟨hfresh, hid, htable⟩ := regist_eq hcalm (answer_injective hreg)
  have hroom : -2147483640 < id.toInt := by
    rw [hid, Int32.toInt_ofNat_of_lt (by omega)]
    omega
  simp only [htable, runFrom_map (step_document h), eachStep_map (step_document h),
    logsInAs_iff h name pass hroom, List.length_map]
  refine ⟨?_, ?_⟩
  · intro hall
    have hnow := survives_of_logsIn hfresh
      (hall [] (fun r hr => absurd hr List.not_mem_nil) trivial)
    refine ⟨hnow.1, hnow.2, fun a ha hkey => ?_⟩
    obtain ⟨r, hr, hlost⟩ := overwritten_of_taken hfresh hcalm hid ⟨a, ha, hkey⟩
    have hsize := (length_upsert (registered env id name pass) as).2
    refine hlost (hall [r] (fun s hs => ?_) ⟨by omega, trivial⟩)
    rwa [List.mem_singleton.mp hs]
  · rintro ⟨hname, hpass, hfree⟩ rs hrs hfit
    have hstored : (registered env id name pass).userPass = pass := by
      simp only [registered, flagAfter_of_noQuote hname, Bool.not_false]
      exact (squeeze_eq_self_iff_blankSafe pass).mpr hpass
    have hholds : Holds (name.squeeze true) (registered env id name pass).userPass id
        (upsert (registered env id name pass) as) := holds_registered hfresh hfree
    have hgrown : (upsert (registered env id name pass) as).length = as.length + 1 := by
      rw [upsert_of_free hfree, List.length_append, List.length_singleton]
    rw [hstored] at hholds
    subst hid
    exact (hholds.run (Nat.le_of_eq hgrown.symm) hrs hfit).logsIn hname

/-- A password with a blank, on an empty collection; another registration and a login come
after it. -/
theorem registers_for_good_first :
    LogsInAs wholeJson wholeMongo userA ⟨[98, 32, 99], by decide⟩ 1
      (runFrom (step wholeJson wholeMongo)
        (handlePlayerRegist wholeJson wholeMongo calmEnv
          (body userA ⟨[98, 32, 99], by decide⟩) 0 []).2
        [.regist (body userB userB) calmEnv, .login (body userB userA) calmEnv]) := by
  have hreg : (handlePlayerRegist wholeJson wholeMongo calmEnv
      (body userA ⟨[98, 32, 99], by decide⟩) 0 (List.map document [])).1 =
        answer [.int 0, .int 1] := by
    rw [handlePlayerRegist_eq standardJson_whole calmEnv (credentials_body _ _)]
    rfl
  have hgood :=
    registers_for_good_iff standardJson_whole (by decide) [] (by decide) userA _ 0 1 hreg
  refine hgood.mpr ⟨by decide, ?_, ?_⟩ _ ?_ ?_
  · exact (squeeze_eq_self_iff_blankSafe _).mp (Subtype.ext rfl)
  · exact fun a ha => absurd ha List.not_mem_nil
  · intro r hr
    simp only [List.mem_cons, List.not_mem_nil, or_false] at hr
    rcases hr with rfl | rfl <;> decide
  · rw [handlePlayerRegist_eq standardJson_whole calmEnv (credentials_body _ _),
      eachStep_map (step_document standardJson_whole)]
    exact ⟨by decide +kernel, by decide +kernel, trivial⟩

/-- **Two registrations that are not**: with a blank behind a quote in the password, the
same credentials are refused right after it; and the user name with a quote is reached
by another one, which has a blank behind the quote. -/
theorem registers_for_good_fails_on_quotes :
    ((handlePlayerRegist wholeJson wholeMongo calmEnv
        (body userA ⟨[34, 32], by decide⟩) 0 []).1 = answer [.int 0, .int 1] ∧
      (handlePlayerLogin wholeJson wholeMongo calmEnv (body userA ⟨[34, 32], by decide⟩) 0
        (handlePlayerRegist wholeJson wholeMongo calmEnv
          (body userA ⟨[34, 32], by decide⟩) 0 []).2).1 = answer [.int (-1)]) ∧
    ((handlePlayerRegist wholeJson wholeMongo calmEnv
        (body ⟨[97, 34], by decide⟩ userB) 0 []).1 = answer [.int 0, .int 1] ∧
      (handlePlayerLogin wholeJson wholeMongo calmEnv
        (body ⟨[97, 34, 32], by decide⟩ userB) 0
        (handlePlayerRegist wholeJson wholeMongo calmEnv
          (body ⟨[97, 34], by decide⟩ userB) 0 []).2).1 = answer [.int 0, .int 1]) := by
  have hregist : ∀ name pass : CString,
      handlePlayerRegist wholeJson wholeMongo calmEnv (body name pass) 0 [] =
        (answer (regist calmEnv name pass []).1, (regist calmEnv name pass []).2.map document) :=
    fun name pass =>
      handlePlayerRegist_eq standardJson_whole calmEnv (credentials_body name pass) 0 []
  have hlogin : ∀ (name pass : CString) (as : List Account),
      (handlePlayerLogin wholeJson wholeMongo calmEnv (body name pass) 0 (as.map document)).1 =
        answer (login calmEnv name pass as) :=
    fun name pass as => loginAnswer_eq standardJson_whole calmEnv (credentials_body name pass) as
  simp only [hregist, hlogin]
  refine ⟨⟨rfl, ?_⟩, ⟨rfl, ?_⟩⟩
  · exact congrArg answer (by decide)
  · exact congrArg answer (by decide)

end AccountMgr

end MyServer
