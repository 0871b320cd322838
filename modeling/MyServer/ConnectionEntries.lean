import MyServer.ConnectionManager

/-!
# Null entries of the HTTP connection map (`connection_manager.cpp`)

`getConnection` reads the map with `operator[]`, which puts a null pointer where there is no
entry; `stop` and `stop_all` call the connections they find. `PtrManager` is the manager with
such pointers. A call through a null pointer ends the process: the state after it is `none`.

`real_always_iff` says over which calls every entry is a connection under its own id. As long
as nobody asks for a connection, this manager is the one without null pointers
(`refines_run`).
-/

namespace MyServer

namespace Http

/-- The class `ConnectionManager`, where the map may have null pointers. -/
structure PtrManager : Type where
  /-- the connection objects -/
  conn : ConnPtr → Connection
  /-- whether their sockets are open -/
  isOpen : ConnPtr → Bool
  /-- `m_ConnectionMap`; `none` is a null pointer -/
  connectionMap : Std.TreeMap Int32 (Option ConnPtr)
  /-- `m_nCurConnId` -/
  curConnId : Int32

/-- A call of the manager. `close()` of a socket may throw. -/
inductive PtrOp : Type where
  /-- `start` -/
  | start : ConnPtr → PtrOp
  /-- `stop` -/
  | stop : Int32 → (ConnPtr → Bool) → PtrOp
  /-- `stop_all` -/
  | stopAll : (ConnPtr → Bool) → PtrOp
  /-- `getConnection` -/
  | getConnection : Int32 → PtrOp

namespace PtrManager

/-! ## The calls -/

/-- The constructor. -/
def create : PtrManager := ⟨fun _ => .create 0, fun _ => false, ∅, httpStartConnId⟩

/-- `getNextConnId` -/
def getNextConnId (m : PtrManager) : Int32 × PtrManager :=
  (m.curConnId, { m with curConnId := (m.curConnId + 1) % httpEndConnId })

/-- `start`, of a connection that has just been accepted. -/
def start (m : PtrManager) (c : ConnPtr) : PtrManager :=
  let (connId, m) := m.getNextConnId
  let m := { m with
    conn := Function.update m.conn c { m.conn c with connId := connId }
    isOpen := Function.update m.isOpen c true }
  { m with connectionMap := m.connectionMap.insert (m.conn c).connId (some c) }

/-- `stop`. An exception leaves the entry where it is. -/
def stop (m : PtrManager) (connId : Int32) (closeThrows : ConnPtr → Bool) : Option PtrManager :=
  match m.connectionMap[connId]? with
  | none => some m
  | some none => none
  | some (some c) =>
    let m := { m with isOpen := Function.update m.isOpen c false }
    if closeThrows c then some m
    else some { m with connectionMap := m.connectionMap.erase connId }

/-- The loop of `stop_all`: what is open afterwards, and whether it came to its end. -/
def stopLoop (closeThrows : ConnPtr → Bool) :
    List (Int32 × Option ConnPtr) → (ConnPtr → Bool) → Option ((ConnPtr → Bool) × Bool)
  | [], isOpen => some (isOpen, true)
  | (_, none) :: _, _ => none
  | (_, some c) :: entries, isOpen =>
    let isOpen := Function.update isOpen c false
    if closeThrows c then some (isOpen, false) else stopLoop closeThrows entries isOpen

/-- `stop_all`. An exception is caught, and the map is not cleared. -/
def stopAll (m : PtrManager) (closeThrows : ConnPtr → Bool) : Option PtrManager := do
  let (isOpen, done) ← stopLoop closeThrows m.connectionMap.toList m.isOpen
  return { m with
    isOpen := isOpen
    connectionMap := if done then ∅ else m.connectionMap }

/-- `getConnection`: `operator[]` inserts a null pointer where there is nothing. -/
def getConnection (m : PtrManager) (connId : Int32) : Option ConnPtr × PtrManager :=
  match m.connectionMap[connId]? with
  | some p => (p, m)
  | none => (none, { m with connectionMap := m.connectionMap.insert connId none })

/-- One call; there is nothing after a call through a null pointer. -/
def step (s : Option PtrManager) (op : PtrOp) : Option PtrManager :=
  s.bind fun m =>
    match op with
    | .start c => some (m.start c)
    | .stop connId closeThrows => m.stop connId closeThrows
    | .stopAll closeThrows => m.stopAll closeThrows
    | .getConnection connId => some (m.getConnection connId).2

/-! ## Real entries -/

/-- Every entry is a connection under its own id. -/
def Real (m : PtrManager) : Prop :=
  ∀ (connId : Int32) (p : Option ConnPtr), m.connectionMap[connId]? = some p →
    ∃ c, p = some c ∧ (m.conn c).connId = connId

/-- No null pointer was called, and every entry is a connection under its own id. -/
def Sound (s : Option PtrManager) : Prop := ∃ m, s = some m ∧ m.Real

/-- `getConnection` leaves the map as it is. -/
def Keeps (s : Option PtrManager) : PtrOp → Prop
  | .getConnection connId => ∀ m, s = some m →
      ∀ n : Int32, (m.getConnection connId).2.connectionMap[n]? = m.connectionMap[n]?
  | _ => True

/-- What a call must not do: start a connection that the map has under another id, or ask for
an id that it does not have. -/
def CallOk (s : Option PtrManager) : PtrOp → Prop
  | .start c => ∀ m, s = some m →
      ∀ n : Int32, m.connectionMap[n]? = some (some c) → n = m.curConnId
  | .getConnection connId => ∀ m, s = some m → m.connectionMap[connId]? ≠ none
  | _ => True

variable {m : PtrManager}

theorem real_create : create.Real := by
  intro connId p hp
  cases Std.TreeMap.getElem?_emptyc.symm.trans hp

/-- `start` writes one entry and one id. -/
theorem start_spec (m : PtrManager) (c d : ConnPtr) :
    ((m.start c).conn d).connId = (if d = c then m.curConnId else (m.conn d).connId) ∧
      ∀ n : Int32, (m.start c).connectionMap[n]? =
        if m.curConnId = n then some (some c) else m.connectionMap[n]? := by
  refine ⟨?_, fun n => ?_⟩
  · rw [start, getNextConnId]
    by_cases hd : d = c
    · subst hd
      simp
    · simp [hd]
  · simp [start, getNextConnId, Std.TreeMap.getElem?_insert]

/-- The entries stay real exactly when the connection has no other one. -/
theorem real_start_iff (h : m.Real) (c : ConnPtr) :
    (m.start c).Real ↔ ∀ n : Int32, m.connectionMap[n]? = some (some c) → n = m.curConnId := by
  refine ⟨fun hs n hn => ?_, fun hc n p hp => ?_⟩
  · by_contra hne
    have hentry : (m.start c).connectionMap[n]? = some (some c) := by
      rw [(m.start_spec c c).2, if_neg (Ne.symm hne), hn]
    obtain ⟨d, hd, hid⟩ := hs n _ hentry
    obtain rfl := Option.some.inj hd
    rw [(m.start_spec c c).1, if_pos rfl] at hid
    exact hne hid.symm
  · rw [(m.start_spec c c).2] at hp
    split at hp
    · rename_i hn
      refine ⟨c, (Option.some.inj hp).symm, ?_⟩
      rw [(m.start_spec c c).1, if_pos rfl, hn]
    · rename_i hn
      obtain ⟨d, rfl, hid⟩ := h n p hp
      refine ⟨d, rfl, ?_⟩
      rw [(m.start_spec c d).1, if_neg, hid]
      rintro rfl
      exact hn (hc n hp).symm

/-- Where every entry is real, `stop` calls a connection and keeps the entries real. -/
theorem Real.stop (h : m.Real) (connId : Int32) (closeThrows : ConnPtr → Bool) :
    Sound (m.stop connId closeThrows) := by
  rw [PtrManager.stop]
  rcases hentry : m.connectionMap[connId]? with _ | p
  · exact ⟨m, rfl, h⟩
  obtain ⟨c, rfl, -⟩ := h connId p hentry
  dsimp only
  split
  · exact ⟨_, rfl, h⟩
  · refine ⟨_, rfl, fun n p hp => ?_⟩
    rw [lookup_erase] at hp
    split at hp
    · cases hp
    · exact h n p hp

/-- Where no entry is null, the loop of `stop_all` comes to an end or to an exception. -/
theorem stopLoop_ne_none (closeThrows : ConnPtr → Bool) {entries : List (Int32 × Option ConnPtr)}
    (h : ∀ e ∈ entries, e.2 ≠ none) (isOpen : ConnPtr → Bool) :
    stopLoop closeThrows entries isOpen ≠ none := by
  induction entries generalizing isOpen with
  | nil => exact Option.some_ne_none _
  | cons e entries ih =>
    obtain ⟨n, _ | c⟩ := e
    · exact absurd rfl (h _ List.mem_cons_self)
    · rw [stopLoop]
      split
      · exact Option.some_ne_none _
      · exact ih (fun e he => h e (List.mem_cons_of_mem _ he)) _

theorem Real.stopAll (h : m.Real) (closeThrows : ConnPtr → Bool) :
    Sound (m.stopAll closeThrows) := by
  have hentries : ∀ e ∈ m.connectionMap.toList, e.2 ≠ none := by
    intro e he
    obtain ⟨c, hc, -⟩ := h e.1 e.2 (Std.TreeMap.mem_toList_iff_getElem?_eq_some.mp he)
    rw [hc]
    exact Option.some_ne_none c
  obtain ⟨⟨isOpen, done⟩, hloop⟩ :=
    Option.ne_none_iff_exists'.mp (stopLoop_ne_none closeThrows hentries m.isOpen)
  rw [PtrManager.stopAll, hloop]
  refine ⟨_, rfl, fun n p hp => ?_⟩
  cases done with
  | true => cases Std.TreeMap.getElem?_emptyc.symm.trans hp
  | false => exact h n p hp

/-- `getConnection` is a lookup exactly when there is an entry. -/
theorem getConnection_iff (h : m.Real) (connId : Int32) :
    ((m.getConnection connId).2.Real ↔ m.connectionMap[connId]? ≠ none) ∧
      ((∀ n : Int32, (m.getConnection connId).2.connectionMap[n]? = m.connectionMap[n]?) ↔
        m.connectionMap[connId]? ≠ none) := by
  rw [getConnection]
  rcases hentry : m.connectionMap[connId]? with _ | p
  · have hnull : (m.connectionMap.insert connId none)[connId]? = some none := by
      rw [lookup_insert, if_pos rfl]
    refine ⟨iff_of_false (fun hs => ?_) (fun h => h rfl),
      iff_of_false (fun hs => ?_) (fun h => h rfl)⟩
    · obtain ⟨c, hc, -⟩ := hs connId none hnull
      cases hc
    · cases (hnull.symm.trans (hs connId)).trans hentry
  · exact ⟨iff_of_true h (Option.some_ne_none p),
      iff_of_true (fun n => rfl) (Option.some_ne_none p)⟩

/-- **Exact step lemma.** -/
theorem sound_step_iff (s : Option PtrManager) (op : PtrOp) (h : Sound s) :
    Sound (step s op) ∧ Keeps s op ↔ CallOk s op := by
  obtain ⟨m, rfl, hm⟩ := h
  cases op with
  | start c =>
    have hsound : Sound (some (m.start c)) ↔ (m.start c).Real := by simp [Sound]
    simp only [step, Option.bind_some, Keeps, CallOk, and_true, Option.some.injEq, forall_eq']
    rw [hsound, real_start_iff hm]
  | stop connId closeThrows => exact iff_of_true ⟨hm.stop connId closeThrows, trivial⟩ trivial
  | stopAll closeThrows => exact iff_of_true ⟨hm.stopAll closeThrows, trivial⟩ trivial
  | getConnection connId =>
    have hsound : Sound (some (m.getConnection connId).2) ↔ (m.getConnection connId).2.Real := by
      simp [Sound]
    obtain ⟨hreal, hkeeps⟩ := getConnection_iff hm connId
    simp only [step, Option.bind_some, Keeps, CallOk, Option.some.injEq, forall_eq']
    rw [hsound, hreal, hkeeps, and_self_iff]

/-- **Entries of the connection map.** Over any calls, with any ids and exceptions, no null
pointer is called, every entry is a connection under its own id and `getConnection` leaves
the map as it is, if and only if `getConnection` is only called with ids that the map has, and
no connection is started again while it is in the map under another id. -/
theorem real_always_iff (ops : List PtrOp) :
    Always step Sound (some create) ops ∧ EachStep step Keeps (some create) ops ↔
      EachStep step CallOk (some create) ops :=
  always_and_eachStep_iff (I := fun _ => True) (fun _ _ _ _ _ => trivial)
    (fun s op _ h => sound_step_iff s op h) trivial ⟨create, rfl, real_create⟩

/-- A connection that nobody started is asked for, and then stopped. -/
theorem getConnection_leaves_null :
    (step (some create) (.getConnection 7)).map (fun m => m.connectionMap[(7 : Int32)]?) =
        some (some none) ∧
      runFrom step (some create) [.getConnection 7, .stop 7 fun _ => false] = none ∧
      runFrom step (some create) [.getConnection 7, .stopAll fun _ => false] = none := by
  refine ⟨by decide +kernel, ?_, ?_⟩ <;> rw [← Option.isNone_iff_eq_none] <;> decide +kernel

/-! ## Without queries -/

/-- The same manager, without null pointers. -/
structure Refines (p : PtrManager) (m : ConnectionManager) : Prop where
  /-- the connections -/
  conn : p.conn = m.conn
  /-- their sockets -/
  isOpen : p.isOpen = m.isOpen
  /-- the entries -/
  connectionMap : ∀ n : Int32, p.connectionMap[n]? = m.connectionMap[n]?.map some
  /-- the counter -/
  curConnId : p.curConnId = m.curConnId

theorem refines_create : create.Refines .create :=
  ⟨rfl, rfl, fun _ => by simp [create, ConnectionManager.create], rfl⟩

theorem Refines.start {m' : ConnectionManager} (h : m.Refines m') (c : ConnPtr) :
    (m.start c).Refines (m'.start c) := by
  refine ⟨?_, ?_, fun n => ?_, ?_⟩
  · simp [PtrManager.start, ConnectionManager.start, getNextConnId,
      ConnectionManager.getNextConnId, h.conn, h.curConnId]
  · simp [PtrManager.start, ConnectionManager.start, getNextConnId,
      ConnectionManager.getNextConnId, h.isOpen]
  · rw [(m.start_spec c c).2, (m'.start_spec c c).2, h.curConnId, h.connectionMap]
    split <;> rfl
  · simp [PtrManager.start, ConnectionManager.start, getNextConnId,
      ConnectionManager.getNextConnId, h.curConnId]

/-- `stop` finds a connection where the other manager finds it. -/
theorem Refines.stop {m' : ConnectionManager} (h : m.Refines m') (connId : Int32) :
    ∃ p, m.stop connId (fun _ => false) = some p ∧ p.Refines (m'.stop connId) := by
  rw [PtrManager.stop, ConnectionManager.stop, h.connectionMap]
  rcases m'.connectionMap[connId]? with _ | c
  · exact ⟨m, rfl, h⟩
  · refine ⟨_, rfl, h.conn, ?_, fun n => ?_, h.curConnId⟩
    · simp only [h.isOpen]
    · simp only [lookup_erase, h.connectionMap]
      split <;> rfl

/-- A call that both managers have. -/
def ofHttp : HttpOp → PtrOp
  | .start c => .start c
  | .stop connId => .stop connId fun _ => false

/-- **Without queries no null pointer is called**, and the manager is the one that has none. -/
theorem refines_run (ops : List HttpOp) :
    ∃ p, runFrom step (some create) (ops.map ofHttp) = some p ∧
      p.Refines (runFrom Tracker.step .init ops).mgr := by
  induction ops using List.reverseRecOn with
  | nil => exact ⟨create, rfl, refines_create⟩
  | append_singleton ops op ih =>
    obtain ⟨p, hrun, hp⟩ := ih
    rw [List.map_append, runFrom_append, runFrom_append, hrun]
    cases op with
    | start c => exact ⟨p.start c, rfl, hp.start c⟩
    | stop connId => exact hp.stop connId

end PtrManager

end Http

end MyServer
