import MyServer.Accounts
import Mathlib.Data.List.Nodup

/-!
# Integrity of the account table under faults

Each database call of a request may throw. `findJson` then reports that the name is
free, `dbCount` that there are no accounts, and a registration goes on to an `update`
keyed on the count plus one. Two things can go wrong: the name is stored twice, or the
account that has this player id is overwritten. `integrity_always_iff` says exactly
which registrations do neither.
-/

namespace MyServer

/-! ## One `upsert` on a table -/

namespace Account

/-- What a registration must not change in a stored account. -/
def identity (a : Account) : CString × CString × Int32 := (a.userName, a.userPass, a.playerId)

/-- The new account does no harm: the account it replaces, if there is one, has its name and
password, and if there is none, its name is free. -/
def Harmless (new : Account) (as : List Account) : Prop :=
  (∀ a, as.find? (fun a => a.playerId = new.playerId) = some a →
    a.userName = new.userName ∧ a.userPass = new.userPass) ∧
  (as.find? (fun a => a.playerId = new.playerId) = none → new.userName ∉ as.map userName)

/-- An account under a free player id is appended. -/
theorem append_keeps_iff {new : Account} {as : List Account} (hnames : (as.map userName).Nodup)
    (hfree : as.find? (fun a => a.playerId = new.playerId) = none) :
    ((upsert new as).map userName).Nodup ∧ as.map identity <+: (upsert new as).map identity ↔
      new.userName ∉ as.map userName := by
  have hne : ∀ a ∈ as, a.playerId ≠ new.playerId := by
    intro a ha heq
    exact absurd (List.find?_eq_none.mp hfree a ha) (not_not.mpr (decide_eq_true heq))
  rw [upsert_of_free hne, List.map_append, List.map_append, List.map_singleton, List.nodup_append]
  refine ⟨?_, ?_⟩
  · rintro ⟨⟨-, -, hdisjoint⟩, -⟩ hmem
    exact hdisjoint _ hmem _ (List.mem_singleton.mpr rfl) rfl
  · intro hfresh
    refine ⟨⟨hnames, List.nodup_singleton _, ?_⟩, List.prefix_append _ _⟩
    intro x hx y hy hxy
    rw [List.mem_singleton.mp hy] at hxy
    exact hfresh (hxy ▸ hx)

/-- An account under a player id in use replaces the one that has it. -/
theorem replace_keeps_iff {new a : Account} {as : List Account} (hnames : (as.map userName).Nodup)
    (htaken : as.find? (fun a => a.playerId = new.playerId) = some a) :
    ((upsert new as).map userName).Nodup ∧ as.map identity <+: (upsert new as).map identity ↔
      a.userName = new.userName ∧ a.userPass = new.userPass := by
  obtain ⟨pre, post, has, -, hkey, hupsert⟩ := upsert_of_taken htaken
  rw [hupsert]
  refine ⟨?_, ?_⟩
  · -- the table keeps its length, so the prefix is all of it
    rintro ⟨-, hprefix⟩
    have heq := hprefix.eq_of_length (by rw [has]; simp)
    rw [has, List.map_append, List.map_append, List.map_cons, List.map_cons,
      List.append_cancel_left_eq, List.cons.injEq] at heq
    have hid : identity a = identity new := heq.1
    simp only [identity, Prod.mk.injEq] at hid
    exact ⟨hid.1, hid.2.1⟩
  · rintro ⟨hname, hpass⟩
    have hid : identity { new with oid := a.oid } = identity a := by
      simp only [identity, hname, hpass, hkey]
    rw [has] at hnames ⊢
    simp only [List.map_append, List.map_cons, hid] at hnames ⊢
    rw [← hname]
    exact ⟨hnames, List.prefix_rfl⟩

/-- **Exactness of one `upsert`**: the names stay distinct and the stored accounts stay as
they are exactly if the new account is harmless. -/
theorem upsert_keeps_iff {new : Account} {as : List Account} (hnames : (as.map userName).Nodup) :
    ((upsert new as).map userName).Nodup ∧ as.map identity <+: (upsert new as).map identity ↔
      Harmless new as := by
  rcases hfind : as.find? (fun a => a.playerId = new.playerId) with _ | a
  · rw [append_keeps_iff hnames hfind, Harmless, hfind]
    refine ⟨fun h => ⟨fun a ha => (nomatch ha), fun _ => h⟩, fun h => h.2 rfl⟩
  · rw [replace_keeps_iff hnames hfind, Harmless, hfind]
    refine ⟨fun h => ⟨?_, fun hnone => nomatch hnone⟩, fun h => h.1 a rfl⟩
    rintro b hb
    obtain rfl := Option.some.inj hb
    exact h

end Account

namespace AccountMgr

open Account

variable (J : JsonLib) (M : MongoLib)

/-! ## The property -/

/-- The user name of a document. -/
def nameOf (d : Document) : Json := Json.find userName d.fields

/-- The password of a document. -/
def passOf (d : Document) : Json := Json.find userPass d.fields

/-- The player id of a document. -/
def idOf (d : Document) : Json := Json.find playerId d.fields

/-- No two accounts have the same user name. -/
def DistinctNames (col : List Document) : Prop := (col.map nameOf).Nodup

/-- The request leaves the user names, passwords and player ids of the stored accounts
as they are: at most, it adds an account. -/
def KeepsAccounts (col : List Document) (r : Request) : Prop :=
  col.map (fun d => (nameOf d, passOf d, idOf d)) <+:
    (step J M col r).map (fun d => (nameOf d, passOf d, idOf d))

/-- The condition on a registration with these credentials. Either nothing is stored: the
update throws, or the lookup works and finds the name. Or the player id it will use, the
count plus one, is free, and so is the name. Or the account that has this player id
already has this name and password. -/
def SafeRegist (env : Env) (name pass : CString) (col : List Document) : Prop :=
  env.updateThrows = true ∨
  (env.findThrows = false ∧ .str (name.squeeze true) ∈ col.map nameOf) ∨
  (∀ d, col.find? (fun d => idOf d = .int (dbCount env col + 1)) = some d →
      nameOf d = .str (name.squeeze true) ∧
      passOf d = .str (pass.squeeze !flagAfter false name.val)) ∧
    (col.find? (fun d => idOf d = .int (dbCount env col + 1)) = none →
      .str (name.squeeze true) ∉ col.map nameOf)

/-- The condition on a request. -/
def RequestOk (col : List Document) : Request → Prop
  | .regist req env =>
    match credentials req with
    | .ok (some (name, pass)) => SafeRegist env name pass col
    | _ => True
  | .login _ _ => True

/-! ## One request -/

theorem map_nameOf (as : List Account) :
    (as.map document).map nameOf = (as.map Account.userName).map .str := by
  rw [List.map_map, List.map_map]
  rfl

theorem distinctNames_iff (as : List Account) :
    DistinctNames (as.map document) ↔ (as.map Account.userName).Nodup := by
  rw [DistinctNames, map_nameOf]
  exact List.nodup_map_iff fun _ _ => Json.str.inj

theorem mem_map_nameOf {name : CString} {as : List Account} :
    .str name ∈ (as.map document).map nameOf ↔ name ∈ as.map Account.userName := by
  rw [map_nameOf]
  exact List.mem_map_of_injective fun _ _ => Json.str.inj

/-- The triple of a document is the identity of its account. -/
theorem map_identity (as : List Account) :
    (as.map document).map (fun d => (nameOf d, passOf d, idOf d)) =
      (as.map identity).map fun i => (.str i.1, .str i.2.1, .int i.2.2) := by
  rw [List.map_map, List.map_map]
  rfl

variable {J M}

theorem keepsAccounts_iff (h : StandardJson J M) (as : List Account) (r : Request) :
    KeepsAccounts J M (as.map document) r ↔
      as.map identity <+: (tableStep as r).map identity := by
  rw [KeepsAccounts, step_document h, map_identity, map_identity]
  refine List.prefix_map_iff_of_injective ?_
  rintro ⟨n, p, i⟩ ⟨n', p', i'⟩ heq
  simp only [Prod.mk.injEq, Json.str.injEq, Json.int.injEq] at heq
  rw [heq.1, heq.2.1, heq.2.2]

theorem found_isSome_iff (env : Env) (name : CString) (as : List Account) :
    (∃ a, found env name as = some a) ↔
      env.findThrows = false ∧ name.squeeze true ∈ as.map Account.userName := by
  rw [found]
  cases env.findThrows with
  | true =>
    refine iff_of_false ?_ fun h => Bool.noConfusion h.1
    rintro ⟨a, ha⟩
    exact absurd ha (Option.some_ne_none a).symm
  | false =>
    simp only [Bool.false_eq_true, if_false, true_and, lookup, List.mem_map]
    rw [← Option.isSome_iff_exists, List.find?_isSome]
    simp only [decide_eq_true_eq]

/-- The condition, read on the table. -/
theorem safeRegist_iff (env : Env) (name pass : CString) (as : List Account) :
    SafeRegist env name pass (as.map document) ↔
      env.updateThrows = true ∨ (∃ a, found env name as = some a) ∨
        Harmless (registered env (nextId env as) name pass) as := by
  have hfind : (as.map document).find?
      (fun d => idOf d = .int (dbCount env (as.map document) + 1)) =
      (as.find? fun a => a.playerId = nextId env as).map document := by
    rw [List.find?_map, dbCount_map]
    refine congrArg (Option.map document) (congrArg (List.find? · as) (funext fun a => ?_))
    have hid : idOf a.document = .int a.playerId := rfl
    rw [Function.comp_apply, hid, decide_eq_decide, Json.int.injEq]
  have hname : ∀ a : Account, nameOf a.document = .str a.userName := fun _ => rfl
  have hpass : ∀ a : Account, passOf a.document = .str a.userPass := fun _ => rfl
  have hkey : (registered env (nextId env as) name pass).playerId = nextId env as := rfl
  rw [SafeRegist, hfind, found_isSome_iff, mem_map_nameOf, Harmless, hkey]
  refine or_congr_right (or_congr_right (and_congr ?_ ?_))
  · generalize as.find? (fun a => a.playerId = nextId env as) = x
    cases x with
    | none => exact ⟨fun _ a ha => (nomatch ha), fun _ d hd => nomatch hd⟩
    | some a =>
      simp only [Option.map_some, Option.some.injEq, forall_eq', hname, hpass, Json.str.injEq]
      rfl
  · rw [Option.map_eq_none_iff]
    rfl

/-- **What a request can do to the table, and its condition**: where it changes nothing the
condition holds, and where it stores an account the condition is that this one is
harmless. -/
theorem requestOk_cases (as : List Account) (r : Request) :
    (tableStep as r = as ∧ RequestOk (as.map document) r) ∨
      ∃ name pass, found r.env name as = none ∧
        tableStep as r = upsert (registered r.env (nextId r.env as) name pass) as ∧
        (RequestOk (as.map document) r ↔
          Harmless (registered r.env (nextId r.env as) name pass) as) := by
  cases r with
  | login req env => exact .inl ⟨rfl, trivial⟩
  | regist req env =>
    rw [tableStep, RequestOk]
    rcases credentials req with fault | _ | ⟨name, pass⟩
    · exact .inl ⟨rfl, trivial⟩
    · exact .inl ⟨rfl, trivial⟩
    · simp only [safeRegist_iff, regist]
      rcases hfound : found env name as with _ | a
      · by_cases hthrows : env.updateThrows = true
        · exact .inl ⟨if_pos hthrows, .inl hthrows⟩
        · refine .inr ⟨name, pass, hfound, if_neg hthrows, ?_⟩
          simp only [hthrows, reduceCtorEq, exists_false, false_or]
          exact Iff.rfl
      · exact .inl ⟨rfl, .inr (.inl ⟨a, rfl⟩)⟩

/-- **Step**: from a table with distinct names, a request keeps it sound exactly under the
condition. -/
theorem integrity_step_iff (h : StandardJson J M) (r : Request) {as : List Account}
    (hnames : (as.map Account.userName).Nodup) :
    DistinctNames ((tableStep as r).map document) ∧ KeepsAccounts J M (as.map document) r ↔
      RequestOk (as.map document) r := by
  rw [distinctNames_iff, keepsAccounts_iff h]
  rcases requestOk_cases as r with ⟨heq, hok⟩ | ⟨name, pass, -, heq, hok⟩
  · rw [heq]
    exact iff_of_true ⟨hnames, List.prefix_rfl⟩ hok
  · rw [heq, hok]
    exact upsert_keeps_iff hnames

/-- **Integrity of the account table**: from any table of accounts with distinct names, and
whichever calls throw, the names stay distinct and no request changes a stored account,
exactly if every request of the run meets the condition. -/
theorem integrity_always_iff (h : StandardJson J M) (as : List Account)
    (hnames : (as.map Account.userName).Nodup) (rs : List Request) :
    Always (step J M) DistinctNames (as.map document) rs ∧
        EachStep (step J M) (KeepsAccounts J M) (as.map document) rs ↔
      EachStep (step J M) RequestOk (as.map document) rs := by
  rw [always_map (step_document h), eachStep_map (step_document h),
    eachStep_map (step_document h)]
  refine always_and_eachStep_iff (I := fun _ => True) (fun _ _ _ _ _ => trivial) ?_ trivial ?_
  · intro as r _ hdistinct
    exact integrity_step_iff h r ((distinctNames_iff as).mp hdistinct)
  · exact (distinctNames_iff as).mpr hnames

/-! ## Runs without faults of `findOne` and `count` -/

/-- The player ids are 1, 2, 3 and so on. -/
def Numbered (as : List Account) : Prop :=
  as.map Account.playerId = (List.range as.length).map fun i => .ofNat (i + 1)

theorem Numbered.append {as : List Account} (h : Numbered as) {new : Account}
    (hnew : new.playerId = .ofNat (as.length + 1)) : Numbered (as ++ [new]) := by
  rw [Numbered] at h ⊢
  rw [List.map_append, h, List.length_append, List.length_singleton, List.range_succ,
    List.map_append, List.map_singleton, List.map_singleton, hnew]

/-- The next player id of a numbered table is free, as long as an `int` holds it. -/
theorem Numbered.free {as : List Account} (h : Numbered as) (hfits : as.length + 1 < 2 ^ 31) :
    ∀ a ∈ as, a.playerId ≠ .ofNat (as.length + 1) := by
  intro a ha heq
  have hmem : a.playerId ∈ as.map Account.playerId := List.mem_map_of_mem ha
  rw [Numbered] at h
  rw [h, List.mem_map] at hmem
  obtain ⟨i, hi, hid⟩ := hmem
  rw [List.mem_range] at hi
  exact ofNat_ne (by omega) hfits (by omega) (hid.trans heq)

/-- **Step**: in a numbered table, a request whose lookup and count do not throw meets the
condition, and the table stays numbered. -/
theorem Numbered.step {as : List Account} (h : Numbered as) {r : Request}
    (hfind : r.env.findThrows = false) (hcount : r.env.countThrows = false)
    (hfits : as.length + 1 < 2 ^ 31) :
    RequestOk (as.map document) r ∧ Numbered (tableStep as r) := by
  rcases requestOk_cases as r with ⟨heq, hok⟩ | ⟨name, pass, hfound, heq, hok⟩
  · rw [heq]
    exact ⟨hok, h⟩
  · have hid : nextId r.env as = .ofNat (as.length + 1) := nextId_of_count hcount as
    have hfree : ∀ a ∈ as,
        a.playerId ≠ (registered r.env (nextId r.env as) name pass).playerId := by
      intro a ha
      rw [registered, hid]
      exact h.free hfits a ha
    have hfresh : name.squeeze true ∉ as.map Account.userName := by
      intro hmem
      obtain ⟨a, ha⟩ := (found_isSome_iff r.env name as).mpr ⟨hfind, hmem⟩
      rw [hfound] at ha
      exact absurd ha (Option.some_ne_none a).symm
    rw [heq, hok, upsert_of_free hfree]
    refine ⟨⟨fun a ha => ?_, fun _ => hfresh⟩, h.append hid⟩
    have hkey := List.find?_some ha
    rw [decide_eq_true_eq] at hkey
    exact absurd hkey (hfree a (List.mem_of_find?_eq_some ha))

/-- **Run**: from the empty collection, the requests of a run meet the condition as long as
`findOne` and `count` do not throw, and the accounts can be counted. -/
theorem requestsOk_of_faultless (h : StandardJson J M) {rs : List Request}
    (hfind : ∀ r ∈ rs, r.env.findThrows = false) (hcount : ∀ r ∈ rs, r.env.countThrows = false)
    (hfits : rs.length + 1 < 2 ^ 31) : EachStep (step J M) RequestOk [] rs := by
  have hrun : ∀ (rs : List Request) (as : List Account),
      (∀ r ∈ rs, r.env.findThrows = false ∧ r.env.countThrows = false) → Numbered as →
      as.length + rs.length + 1 < 2 ^ 31 →
      EachStep tableStep (fun as r => RequestOk (as.map document) r) as rs := by
    intro rs
    induction rs with
    | nil => exact fun as _ _ _ => trivial
    | cons r rs ih =>
      intro as hrs hnumbered hlen
      rw [List.length_cons] at hlen
      obtain ⟨hf, hc⟩ := hrs r (List.mem_cons_self ..)
      obtain ⟨hok, hnext⟩ := hnumbered.step hf hc (by omega)
      have hgrow := (length_tableStep as r).2
      exact ⟨hok, ih _ (fun s hs => hrs s (List.mem_cons_of_mem r hs)) hnext (by omega)⟩
  refine (eachStep_map (s := []) (step_document h)).mpr (hrun rs [] ?_ rfl ?_)
  · exact fun r hr => ⟨hfind r hr, hcount r hr⟩
  · rw [List.length_nil]
    omega

/-! ## Runs of two registrations -/

/-- A registration at time 0, with its name as the password, and the calls that throw. -/
def registWith (name : CString) (findThrows countThrows updateThrows : Bool) : Request :=
  .regist (body name name)
    { calmEnv with
      findThrows := findThrows, countThrows := countThrows, updateThrows := updateThrows }

/-- Two registrations of one name, and a third whose three calls all throw. -/
theorem integrity_of_refused :
    Always (step wholeJson wholeMongo) DistinctNames []
        [registWith userA false false false, registWith userA false false false,
          registWith userB true true true] ∧
      EachStep (step wholeJson wholeMongo) (KeepsAccounts wholeJson wholeMongo) []
        [registWith userA false false false, registWith userA false false false,
          registWith userB true true true] := by
  refine (integrity_always_iff standardJson_whole [] List.nodup_nil _).mpr ?_
  refine ⟨.inr (.inr ⟨?_, ?_⟩), .inr (.inl ⟨rfl, ?_⟩), .inl rfl, trivial⟩
  · exact fun d hd => nomatch hd
  · exact fun _ => List.not_mem_nil
  · decide +kernel

/-- **Both defects**: a lookup that throws lets a stored name in a second time, and a count
that throws lets a registration overwrite the first account. -/
theorem integrity_fails_on_faults :
    ¬ DistinctNames (runFrom (step wholeJson wholeMongo) []
        [registWith userA false false false, registWith userA true false false]) ∧
      ¬ KeepsAccounts wholeJson wholeMongo
        (runFrom (step wholeJson wholeMongo) [] [registWith userA false false false])
        (registWith userB false true false) := by
  have hrun : ∀ rs, runFrom (step wholeJson wholeMongo) [] rs =
      (runFrom tableStep [] rs).map document := runFrom_map (step_document standardJson_whole) []
  rw [hrun, hrun, distinctNames_iff, keepsAccounts_iff standardJson_whole]
  decide +kernel

end AccountMgr

end MyServer
