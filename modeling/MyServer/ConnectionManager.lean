import MyServer.GateBooks
import MyServer.HttpConnection

/-!
# The HTTP connections (`connection_manager.cpp`)

`start` gives a connection the next id and puts it into a map, `stop` takes it out and
closes it. The ids come from a counter that starts again after 65535 of them, and the map
is written with `operator[]`, which replaces an entry. A connection whose reply is written
stays in the map: the call of `stop` in `handle_write` is commented out.

`Tracker` is the manager with its history. `tracked_always_iff` says when every connection
that was started and not stopped is in the map under its id.
-/

namespace MyServer

namespace Http

/-- `HTTP_START_CONN_ID` -/
def httpStartConnId : Int32 := 0

/-- `HTTP_END_CONN_ID` -/
def httpEndConnId : Int32 := 65535

/-- The class `ConnectionManager`. Connections are shared objects. -/
structure ConnectionManager : Type where
  /-- the connection objects -/
  conn : ConnPtr → Connection
  /-- whether their sockets are open -/
  isOpen : ConnPtr → Bool
  /-- `m_ConnectionMap` -/
  connectionMap : Std.TreeMap Int32 ConnPtr
  /-- `m_nCurConnId` -/
  curConnId : Int32

namespace ConnectionManager

/-- The constructor. -/
def create : ConnectionManager := ⟨fun _ => .create 0, fun _ => false, ∅, httpStartConnId⟩

/-- `getNextConnId` -/
def getNextConnId (m : ConnectionManager) : Int32 × ConnectionManager :=
  (m.curConnId, { m with curConnId := (m.curConnId + 1) % httpEndConnId })

/-- `start`, of a connection that has just been accepted. -/
def start (m : ConnectionManager) (c : ConnPtr) : ConnectionManager :=
  let (connId, m) := m.getNextConnId
  let m := { m with
    conn := Function.update m.conn c { m.conn c with connId := connId }
    isOpen := Function.update m.isOpen c true }
  { m with connectionMap := m.connectionMap.insert (m.conn c).connId c }

/-- `stop` -/
def stop (m : ConnectionManager) (connId : Int32) : ConnectionManager :=
  match m.connectionMap[connId]? with
  | none => m
  | some c =>
    { m with
      isOpen := Function.update m.isOpen c false
      connectionMap := m.connectionMap.erase connId }

/-- The connection gets the current number and is entered under it; an entry that had the number
is lost. -/
theorem start_spec (m : ConnectionManager) (c d : ConnPtr) :
    ((m.start c).conn d).connId = (if d = c then m.curConnId else (m.conn d).connId) ∧
      (∀ n : Int32, (m.start c).connectionMap[n]? =
        if m.curConnId = n then some c else m.connectionMap[n]?) := by
  refine ⟨?_, fun n => ?_⟩
  · rw [start, getNextConnId]
    by_cases hd : d = c
    · subst hd
      simp
    · simp [hd]
  · simp [start, getNextConnId, Std.TreeMap.getElem?_insert]

/-- The entry is taken away, whatever connection it leads to. -/
theorem stop_spec (m : ConnectionManager) (connId n : Int32) :
    (m.stop connId).connectionMap[n]? = if connId = n then none else m.connectionMap[n]? := by
  rw [stop]
  split
  · rename_i hnone
    split
    · rename_i heq
      rw [← heq, hnone]
    · rfl
  · exact lookup_erase ..

theorem stop_frame (m : ConnectionManager) (connId : Int32) :
    (m.stop connId).conn = m.conn ∧ (m.stop connId).curConnId = m.curConnId := by
  rw [stop]
  split <;> exact ⟨rfl, rfl⟩

end ConnectionManager

/-- A call of the manager. -/
inductive HttpOp : Type where
  /-- `start` -/
  | start : ConnPtr → HttpOp
  /-- `stop` -/
  | stop : Int32 → HttpOp

/-- The manager, and what was started. -/
structure Tracker : Type where
  /-- the manager -/
  mgr : ConnectionManager
  /-- started, and not stopped since -/
  live : ConnPtr → Bool
  /-- how many calls of `start` there were -/
  starts : ℕ
  /-- how many there were before the last one for a connection -/
  lastStart : ConnPtr → ℕ

namespace Tracker

/-- A new manager. -/
def init : Tracker := ⟨.create, fun _ => false, 0, fun _ => 0⟩

/-- One call. -/
def step (s : Tracker) : HttpOp → Tracker
  | .start c =>
    { mgr := s.mgr.start c
      live := Function.update s.live c true
      starts := s.starts + 1
      lastStart := Function.update s.lastStart c s.starts }
  | .stop connId =>
    { s with
      mgr := s.mgr.stop connId
      live d := s.live d && s.mgr.connectionMap[connId]? ≠ some d }

/-- Every connection that was started and not stopped is in the map under its id. -/
def Tracked (s : Tracker) : Prop :=
  ∀ c, s.live c = true → s.mgr.connectionMap[(s.mgr.conn c).connId]? = some c

/-- `start` picks an id that no other connection has which was started and not stopped. -/
def PicksFree (s : Tracker) : HttpOp → Prop
  | .start c => ∀ d, d ≠ c → s.live d = true → (s.mgr.conn d).connId ≠ s.mgr.curConnId
  | .stop _ => True

/-- When `start` is called, the connection that was last started 65535 calls before has been
stopped, unless it is the same. -/
def StartOk (s : Tracker) : HttpOp → Prop
  | .start c => ∀ d, d ≠ c → s.live d = true → s.lastStart d + 65535 ≠ s.starts
  | .stop _ => True

/-- How the ids follow from the history, as long as every connection is tracked. -/
structure Numbered (s : Tracker) : Prop where
  /-- the counter counts the calls -/
  counter : s.mgr.curConnId.toInt = (s.starts % 65535 : ℕ)
  /-- so did it when a connection was started -/
  connId : ∀ c, s.live c = true → (s.mgr.conn c).connId.toInt = (s.lastStart c % 65535 : ℕ)
  /-- and that is not once around ago -/
  recent : ∀ c, s.live c = true → s.lastStart c < s.starts ∧ s.starts ≤ s.lastStart c + 65535

theorem numbered_init : init.Numbered :=
  ⟨rfl, fun _ hc => absurd hc Bool.false_ne_true, fun _ hc => absurd hc Bool.false_ne_true⟩

theorem tracked_init : init.Tracked := fun _ hc => absurd hc Bool.false_ne_true

variable {s : Tracker}

theorem live_start_iff {c d : ConnPtr} :
    (s.step (.start c)).live d = true ↔ d = c ∨ s.live d = true := by
  change Function.update s.live c true d = true ↔ _
  rw [Function.update_apply]
  by_cases hd : d = c <;> simp [hd]

theorem lastStart_start (c d : ConnPtr) :
    (s.step (.start c)).lastStart d = if d = c then s.starts else s.lastStart d :=
  Function.update_apply ..

/-- A call of `start` loses nobody exactly when the id is free. -/
theorem tracked_start_iff (hs : s.Tracked) (c : ConnPtr) :
    (s.step (.start c)).Tracked ↔ s.PicksFree (.start c) := by
  have hentry : ∀ d, (s.step (.start c)).mgr.connectionMap[
      ((s.step (.start c)).mgr.conn d).connId]? =
        if s.mgr.curConnId = (if d = c then s.mgr.curConnId else (s.mgr.conn d).connId) then some c
        else s.mgr.connectionMap[if d = c then s.mgr.curConnId else (s.mgr.conn d).connId]? := by
    intro d
    rw [← (s.mgr.start_spec c d).1]
    exact (s.mgr.start_spec c d).2 _
  refine ⟨fun hnext d hne hd heq => ?_, fun hfree d hd => ?_⟩
  · have hd' := hnext d (live_start_iff.mpr (.inr hd))
    rw [hentry, if_neg hne, if_pos heq.symm] at hd'
    exact hne (Option.some.inj hd').symm
  · rw [hentry]
    by_cases hc : d = c
    · rw [if_pos hc, if_pos rfl, hc]
    · have hold := (live_start_iff.mp hd).resolve_left hc
      rw [if_neg hc, if_neg (Ne.symm (hfree d hc hold))]
      exact hs d hold

theorem live_stop_iff {connId : Int32} {d : ConnPtr} :
    (s.step (.stop connId)).live d = true ↔
      s.live d = true ∧ s.mgr.connectionMap[connId]? ≠ some d := by
  simp [step]

/-- The connection that is stopped is no longer live, and the other entries are not touched. -/
theorem tracked_stop (hs : s.Tracked) (connId : Int32) : (s.step (.stop connId)).Tracked := by
  intro d hd
  obtain ⟨hold, hne⟩ := live_stop_iff.mp hd
  have hentry := hs d hold
  change (s.mgr.stop connId).connectionMap[((s.mgr.stop connId).conn d).connId]? = some d
  rw [(s.mgr.stop_frame connId).1, ConnectionManager.stop_spec, if_neg, hentry]
  rintro rfl
  exact hne hentry

/-- In a window of 65535 calls, the same id means once around. -/
theorem same_turn_iff {N i n : ℕ} (hi : i < n) (hn : n ≤ i + N) : i % N = n % N ↔ i + N = n := by
  refine ⟨fun h => ?_, ?_⟩
  · have hdvd : N ∣ n - i := Nat.dvd_of_mod_eq_zero (Nat.sub_mod_eq_zero_of_mod_eq h.symm)
    have hle := Nat.le_of_dvd (by omega) hdvd
    omega
  · rintro rfl
    exact (Nat.add_mod_right i N).symm

/-- The id is free exactly when the connection of 65535 calls before is gone. -/
theorem picksFree_iff (h : s.Numbered) (op : HttpOp) : s.PicksFree op ↔ s.StartOk op := by
  cases op with
  | stop connId => exact Iff.rfl
  | start c =>
    refine forall_congr' fun d => imp_congr_right fun _ => forall_congr' fun hd => not_congr ?_
    obtain ⟨hlt, hle⟩ := h.recent d hd
    rw [← same_turn_iff hlt hle, ← Int32.toInt_inj, h.counter, h.connId d hd, Nat.cast_inj]

/-- By assumption the connection of 65535 calls before is gone, so those that are live were started
within one turn of the counter. -/
theorem Numbered.start (h : s.Numbered) (c : ConnPtr) (hok : s.StartOk (.start c)) :
    (s.step (.start c)).Numbered := by
  have hend : httpEndConnId.toInt = 65535 := by decide
  have hzero : (0 : Int32).toInt = 0 := by decide
  have hrange : 0 ≤ s.mgr.curConnId ∧ s.mgr.curConnId < httpEndConnId := by
    rw [Int32.le_iff_toInt_le, Int32.lt_iff_toInt_lt, hend, hzero, h.counter]
    omega
  refine ⟨?_, fun d hd => ?_, fun d hd => ?_⟩
  · refine (toInt_counter hrange).trans ?_
    rw [h.counter, hend]
    have hstarts : (s.step (.start c)).starts = s.starts + 1 := rfl
    omega
  · rw [lastStart_start]
    refine (congrArg Int32.toInt (s.mgr.start_spec c d).1).trans ?_
    by_cases hc : d = c
    · rw [if_pos hc, if_pos hc]
      exact h.counter
    · rw [if_neg hc, if_neg hc]
      exact h.connId d ((live_start_iff.mp hd).resolve_left hc)
  · rw [lastStart_start]
    change _ < s.starts + 1 ∧ s.starts + 1 ≤ _
    by_cases hc : d = c
    · rw [if_pos hc]
      omega
    · have hold := (live_start_iff.mp hd).resolve_left hc
      have hne := hok d hc hold
      obtain ⟨hlt, hle⟩ := h.recent d hold
      rw [if_neg hc]
      omega

/-- Taking an entry away leaves the other numbers as they are. -/
theorem Numbered.stop (h : s.Numbered) (connId : Int32) : (s.step (.stop connId)).Numbered := by
  obtain ⟨hconn, hcur⟩ := s.mgr.stop_frame connId
  refine ⟨?_, fun d hd => ?_, fun d hd => h.recent d (live_stop_iff.mp hd).1⟩
  · exact (congrArg Int32.toInt hcur).trans h.counter
  · have hid : ((s.mgr.stop connId).conn d).connId = (s.mgr.conn d).connId := by rw [hconn]
    exact (congrArg Int32.toInt hid).trans (h.connId d (live_stop_iff.mp hd).1)

/-- A call that loses nobody leaves the ids in step with the history. -/
theorem Numbered.step (h : s.Numbered) (hs : s.Tracked) (op : HttpOp)
    (hnext : (s.step op).Tracked) : (s.step op).Numbered := by
  cases op with
  | stop connId => exact h.stop connId
  | start c => exact h.start c ((picksFree_iff h _).mp ((tracked_start_iff hs c).mp hnext))

/-- **HTTP connections.** Over any calls of `start` and `stop`, every connection that was
started and not stopped is in the map under its id, and `start` picks an id that no other
such connection has, if and only if at every call of `start` the connection that was last
started 65535 calls before has been stopped. -/
theorem tracked_always_iff (ops : List HttpOp) :
    Always step Tracked init ops ∧ EachStep step PicksFree init ops ↔
      EachStep step StartOk init ops := by
  refine always_and_eachStep_iff (I := Numbered) (fun s op h hs hnext => h.step hs op hnext)
    (fun s op h hs => ?_) numbered_init tracked_init
  rw [picksFree_iff h]
  refine and_iff_right_of_imp fun hok => ?_
  cases op with
  | stop connId => exact tracked_stop hs connId
  | start c => exact (tracked_start_iff hs c).mpr ((picksFree_iff h _).mpr hok)

/-! ## Once around -/

/-- New connections `0`, `1` and so on, one after the other. -/
def newcomers (n : ℕ) : List HttpOp := (List.range n).map .start

theorem runFrom_newcomers_succ (n : ℕ) :
    runFrom step init (newcomers (n + 1)) = (runFrom step init (newcomers n)).step (.start n) := by
  rw [newcomers, List.range_succ, List.map_append, runFrom_append]
  rfl

/-- Where nobody is stopped, connection `i` is the one of call `i`. -/
theorem run_newcomers (n : ℕ) :
    (runFrom step init (newcomers n)).starts = n ∧
      ∀ i < n, (runFrom step init (newcomers n)).live i = true ∧
        (runFrom step init (newcomers n)).lastStart i = i := by
  induction n with
  | zero => exact ⟨rfl, fun i hi => absurd hi (Nat.not_lt_zero i)⟩
  | succ n ih =>
    obtain ⟨hstarts, hall⟩ := ih
    rw [runFrom_newcomers_succ]
    refine ⟨congrArg (· + 1) hstarts, fun i hi => ?_⟩
    rw [live_start_iff, lastStart_start]
    by_cases hn : i = n
    · rw [if_pos hn, hstarts]
      exact ⟨.inl hn, hn.symm⟩
    · obtain ⟨hlive, hlast⟩ := hall i (by omega)
      rw [if_neg hn]
      exact ⟨.inr hlive, hlast⟩

/-- When the counter is around, a newcomer takes the id of the first. -/
theorem not_tracked_of_around {n : ℕ} (hn : n = 65535) :
    ¬ Always step Tracked init (newcomers (n + 1)) := by
  intro hall
  obtain ⟨hstarts, hold⟩ := run_newcomers n
  have hne : 0 ≠ n := by omega
  obtain ⟨hlive, hlast⟩ := hold 0 (by omega)
  have hprefix : newcomers n <+: newcomers (n + 1) := by
    rw [newcomers, newcomers, List.range_succ, List.map_append]
    exact List.prefix_append _ _
  have hnumbered := always_of_always (I := Numbered) (fun s op h hs hnext => h.step hs op hnext)
    numbered_init hall
  have hafter := hall.last
  rw [runFrom_newcomers_succ] at hafter
  have hok := (picksFree_iff (hnumbered _ hprefix) _).mp
    ((tracked_start_iff (hall _ hprefix) n).mp hafter)
  refine hok 0 hne hlive ?_
  rw [hlast, hstarts, hn]

/-- The connection after 65535 others takes the id and the entry of the first. -/
theorem tracked_fails_once_around : ¬ Always step Tracked init (newcomers (65535 + 1)) :=
  not_tracked_of_around rfl

end Tracker

end Http

end MyServer
