import MyServer.GateTables
import Mathlib.Data.Int.Interval

/-!
# The books of the gate

Whether the gate knows how many clients it has, and which. A `Ledger` is the gate together
with the connections that were accepted and not kicked since; `Booked` says that
`m_nConnCount` counts the entries of `m_ConnMap` and that each of these connections is
there under its net id.

Net ids come from a counter that starts again after `MAX_NET_ID`, and neither `insert` nor
`kickConnection` looks whose entry it meets. `booked_always_iff` says which runs stay
booked. What a step does to the books is said once (`step_cases`): it accepts, it calls
`kickConnection`, it makes a heartbeat check, or it leaves them alone.
-/

namespace MyServer

namespace Gate

variable {g g' : Gate}

/-! ## Who is kicked -/

/-- The connections the loop of `checkHeartBeat` kicks. -/
def beatKicks (tmp : ℤ) : Gate → List (Int32 × ConnPtr) → List ConnPtr
  | _, [] => []
  | g, e :: L =>
    if dead tmp (g.conn e.2) then e.2 :: beatKicks tmp (g.kickConnection e.2).1 L
    else beatKicks tmp g L

/-- The time of the heartbeat check that a step makes. -/
def checkTime (g : Gate) : GateOp → Option ℤ
  | .checkHeartBeat tmp => some tmp
  | .update tmp _ => if 5000 ≤ (tmp - g.systemTime).tdiv 1000 then some tmp else none
  | _ => none

/-- The gate that the heartbeat check of an `update` meets. -/
def refreshed (g : Gate) (tmp : ℤ) (resolved : Bool) : Gate :=
  ({ g with systemTime := tmp } : Gate).checkServerAlive tmp resolved

/-- The connections that the heartbeat check of a step kicks. -/
def evicted (g : Gate) : GateOp → List ConnPtr
  | .checkHeartBeat tmp => beatKicks tmp g g.connMap.toList
  | .update tmp resolved =>
    if 5000 ≤ (tmp - g.systemTime).tdiv 1000 then
      beatKicks tmp (g.refreshed tmp resolved) (g.refreshed tmp resolved).connMap.toList
    else []
  | _ => []

/-- The connection a step kicks otherwise: `sendToPlayer` kicks one that is closed. -/
def kickCall (g : Gate) : GateOp → Option ConnPtr
  | .kick c => some c
  | .sendToPlayer msg =>
    (g.route msg.playerId msg.netId).filter fun c => !(g.conn c).socket.isOpen
  | _ => none

/-- The connection a step accepts. -/
def accepts (g : Gate) : GateOp → Option ConnPtr
  | .accept .success _ => some g.nextConn
  | _ => none

/-- Every connection for which a step calls `kickConnection`. -/
def kicked (g : Gate) (op : GateOp) : List ConnPtr := (g.kickCall op).toList ++ g.evicted op

theorem mem_beatKicks (tmp : ℤ) (d : ConnPtr) (L : List (Int32 × ConnPtr)) :
    ∀ g : Gate, d ∈ beatKicks tmp g L ↔
      (∃ e ∈ L, e.2 = d) ∧ dead tmp (g.conn d) = true := by
  induction L with
  | nil =>
    intro g
    simp [beatKicks]
  | cons e L ih =>
    intro g
    rw [beatKicks]
    by_cases hdead : dead tmp (g.conn e.2) = true
    · -- a kick does not change who is dead
      have hsame : dead tmp ((g.kickConnection e.2).1.conn d) = dead tmp (g.conn d) := by
        rw [dead, heartBeat_kickConnection, dead]
      rw [if_pos hdead, List.mem_cons, ih, hsame]
      refine ⟨?_, ?_⟩
      · rintro (rfl | ⟨⟨e', he', hd⟩, hd'⟩)
        · exact ⟨⟨e, List.mem_cons_self .., rfl⟩, hdead⟩
        · exact ⟨⟨e', List.mem_cons_of_mem _ he', hd⟩, hd'⟩
      · rintro ⟨⟨e', he', hd⟩, hd'⟩
        rcases List.mem_cons.mp he' with rfl | he'
        · exact .inl hd.symm
        · exact .inr ⟨⟨e', he', hd⟩, hd'⟩
    · rw [if_neg hdead, ih]
      refine and_congr_left fun hd => ⟨?_, ?_⟩
      · rintro ⟨e', he', heq⟩
        exact ⟨e', List.mem_cons_of_mem _ he', heq⟩
      · rintro ⟨e', he', heq⟩
        rcases List.mem_cons.mp he' with rfl | he'
        · subst heq
          exact absurd hd hdead
        · exact ⟨e', he', heq⟩

/-- The connections of the table stand under their own net ids. -/
theorem Tables.mem_toList_iff (h : g.Tables) {c : ConnPtr} :
    (∃ e ∈ g.connMap.toList, e.2 = c) ↔ g.connMap[(g.conn c).netId]? = some c := by
  refine ⟨?_, fun hc => ⟨((g.conn c).netId, c), ?_, rfl⟩⟩
  · rintro ⟨⟨n, c⟩, he, rfl⟩
    have hc := Std.TreeMap.mem_toList_iff_getElem?_eq_some.mp he
    rw [(h.connEntry hc).1]
    exact hc
  · exact Std.TreeMap.mem_toList_iff_getElem?_eq_some.mpr hc

theorem sameTables_refreshed (g : Gate) (tmp : ℤ) (resolved : Bool) :
    g.SameTables (g.refreshed tmp resolved) := by
  have hsame := sameTables_checkServerAlive { g with systemTime := tmp } tmp resolved
  exact ⟨hsame.1, hsame.2, hsame.3, hsame.4, hsame.5, hsame.6⟩

theorem update_of_due {tmp : ℤ} (h : 5000 ≤ (tmp - g.systemTime).tdiv 1000) (resolved : Bool) :
    g.update tmp resolved = (g.refreshed tmp resolved).checkHeartBeat tmp := by
  rw [update, if_pos h]
  rfl

theorem conn_refreshed (g : Gate) (tmp : ℤ) (resolved : Bool) {d : ConnPtr} (hd : d < g.next) :
    (g.refreshed tmp resolved).conn d = g.conn d :=
  conn_checkServerAlive { g with systemTime := tmp } tmp resolved hd

/-- **Who a heartbeat check kicks**: the connections of the table that are dead. -/
theorem Tables.mem_evicted_iff (h : g.Tables) {op : GateOp} {c : ConnPtr} :
    c ∈ g.evicted op ↔ ∃ tmp, g.checkTime op = some tmp ∧
      g.connMap[(g.conn c).netId]? = some c ∧ dead tmp (g.conn c) = true := by
  cases op with
  | checkHeartBeat tmp =>
    rw [evicted, mem_beatKicks, h.mem_toList_iff]
    simp [checkTime]
  | update tmp resolved =>
    rw [evicted, checkTime]
    split
    · rw [mem_beatKicks, (g.sameTables_refreshed tmp resolved).connMap, h.mem_toList_iff]
      simp only [Option.some.injEq, exists_eq_left']
      refine and_congr_right fun hc => ?_
      rw [g.conn_refreshed tmp resolved (h.connEntry hc).2.2.1]
    · simp
  | _ => simp [evicted, checkTime]

/-! ## What a step does to the books -/

/-- The count is that of the entries. -/
def Counted (g : Gate) : Prop := g.connCount.toInt = g.connMap.size

/-- The table, the count and the net ids are the same. -/
structure SameBooks (g g' : Gate) : Prop where
  /-- the table -/
  connMap : g'.connMap = g.connMap
  /-- the count -/
  connCount : g'.connCount = g.connCount
  /-- the net ids -/
  netId : ∀ d < g.next, (g'.conn d).netId = (g.conn d).netId

theorem SameBooks.of_same (h : g.SameTables g') (hcount : g'.connCount = g.connCount) :
    g.SameBooks g' := ⟨h.connMap, hcount, fun d hd => (h.ids d hd).1⟩

theorem SameBooks.counted (h : g.SameBooks g') (hg : g.Counted) : g'.Counted := by
  rw [Counted, h.connCount, h.connMap]
  exact hg

/-- After a heartbeat check at `tmp`. -/
structure Checked (tmp : ℤ) (g g' : Gate) : Prop where
  /-- the connections that are not dead stay -/
  lookup : ∀ (n : Int32) d,
    g'.connMap[n]? = some d ↔ g.connMap[n]? = some d ∧ ¬ dead tmp (g.conn d) = true
  /-- the count goes with them -/
  counted : g.Counted → g'.Counted
  /-- the net ids stay -/
  netId : ∀ d < g.next, (g'.conn d).netId = (g.conn d).netId

theorem connCount_checkServerAlive (g : Gate) (now : ℤ) (resolved : Bool) :
    (g.checkServerAlive now resolved).connCount = g.connCount := by
  have hconnect : ∀ (g : Gate) (c : ConnPtr), (g.connect resolved c).connCount = g.connCount := by
    intro g c
    rw [connect]
    split <;> rfl
  rw [checkServerAlive]
  split <;> split
  · rfl
  · rw [connectToGameSvr, hconnect]
    rfl
  · rw [connectToAccountSvr, hconnect]
    rfl
  · rw [connectToGameSvr, hconnect, connectToAccountSvr]
    exact hconnect _ _

theorem lookup_kickConnection (h : g.Tables) (c d : ConnPtr) (n : Int32) :
    (g.kickConnection c).1.connMap[n]? = some d ↔
      g.connMap[n]? = some d ∧ n ≠ (g.conn c).netId := by
  by_cases hnone : (g.conn c).netId < 0 ∨ g.connMap[(g.conn c).netId]? = none
  · rw [kickConnection_none hnone]
    refine ⟨fun hd => ⟨hd, ?_⟩, And.left⟩
    rintro rfl
    rcases hnone with hneg | hnone
    · exact absurd hneg (Int32.not_lt.mpr (h.connEntry hd).2.1)
    · rw [hnone] at hd
      cases hd
  · obtain ⟨hpos, hsome⟩ := not_or.mp hnone
    obtain ⟨t, ht⟩ := Option.ne_none_iff_exists'.mp hsome
    exact (kickConnection_spec (Int32.not_lt.mp hpos) ht).2.1 n d

/-- A kick takes an entry away and counts it, or does nothing. -/
theorem Counted.kickConnection (h : g.Counted) (c : ConnPtr) : (g.kickConnection c).1.Counted := by
  by_cases hnone : (g.conn c).netId < 0 ∨ g.connMap[(g.conn c).netId]? = none
  · rw [kickConnection_none hnone]
    exact h
  obtain ⟨hpos, hsome⟩ := not_or.mp hnone
  obtain ⟨t, ht⟩ := Option.ne_none_iff_exists'.mp hsome
  have hmem : g.connMap.contains (g.conn c).netId = true := by
    rw [Std.TreeMap.contains_eq_isSome_getElem?, ht]
    rfl
  have hmap : (g.kickConnection c).1.connMap = g.connMap.erase (g.conn c).netId := by
    rw [Gate.kickConnection, if_neg hpos, ht]
    dsimp only [modify]
    rw [kickPlayer_frame]
  have hcount := (kickConnection_spec (Int32.not_lt.mp hpos) ht).2.2.2
  have hsize : 0 < g.connMap.size := by
    refine Nat.pos_of_ne_zero fun hzero => ?_
    rw [Std.TreeMap.contains_of_isEmpty (by rw [Std.TreeMap.isEmpty_eq_size_eq_zero, hzero]; rfl)]
      at hmem
    cases hmem
  have hmax := g.connCount.toInt_lt
  have hone : (1 : Int32).toInt = 1 := by decide
  rw [Counted] at h
  rw [Counted, hmap, hcount, Std.TreeMap.size_erase, if_pos hmem, Int32.toInt_sub, hone, h,
    Int.bmod_eq_of_le (by omega) (by omega)]
  omega

theorem Counted.checkHeartBeat (h : g.Counted) (tmp : ℤ) : (g.checkHeartBeat tmp).Counted := by
  have hfold : ∀ (L : List (Int32 × ConnPtr)) (g : Gate), g.Counted →
      (L.foldl (beat tmp) g).Counted := by
    intro L
    induction L with
    | nil => exact fun _ h => h
    | cons e L ih =>
      intro g h
      rw [List.foldl_cons]
      apply ih
      rw [beat]
      split
      · exact h.kickConnection e.2
      · exact h
  exact hfold g.connMap.toList g h

theorem Tables.checked (h : g.Tables) (tmp : ℤ) : Checked tmp g (g.checkHeartBeat tmp) :=
  ⟨(checkHeartBeat_spec h.keyed tmp).2.1, fun hg => hg.checkHeartBeat tmp,
    fun d _ => (ids_checkHeartBeat h tmp d).1⟩

/-- **What a step does to the books.** -/
theorem step_cases (o : ByteOrder) (h : g.Tables) (op : GateOp) :
    (∃ now, op = .accept .success now) ∨
    (∃ c, g.kickCall op = some c ∧ g.checkTime op = none ∧ g.accepts op = none ∧
      g.step o op = (g.kickConnection c).1) ∨
    (∃ tmp, g.checkTime op = some tmp ∧ g.kickCall op = none ∧ g.accepts op = none ∧
      Checked tmp g (g.step o op)) ∨
    (g.kickCall op = none ∧ g.checkTime op = none ∧ g.accepts op = none ∧
      g.SameBooks (g.step o op)) := by
  cases op with
  | accept err now =>
    by_cases herr : err = .success
    · subst herr
      exact .inl ⟨now, rfl⟩
    · have hnone : g.accepts (.accept err now) = none := by
        cases err with
        | success => exact absurd rfl herr
        | eof | other => rfl
      have hsame := (g.sameTables_modify g.nextConn keepsIds_close).trans
        (sameTables_create (g.modify g.nextConn TcpConnection.close) now 0)
      refine .inr (.inr (.inr ⟨rfl, rfl, hnone, ?_⟩))
      rw [step, handleAccept, if_pos herr]
      exact ⟨rfl, rfl, fun d hd => (hsame.ids d hd).1⟩
  | login p n =>
    refine .inr (.inr (.inr ⟨rfl, rfl, rfl, ?_⟩))
    obtain ⟨heq, -⟩ | ⟨-, -, -, c, -, heq⟩ := g.onPlayerLogin_cases p n
    · rw [step, heq]
      exact ⟨rfl, rfl, fun _ _ => rfl⟩
    · rw [step, heq]
      exact ⟨rfl, rfl, fun d _ => (g.ids_loggedIn p c d).1⟩
  | kick c => exact .inr (.inl ⟨c, rfl, rfl, rfl, rfl⟩)
  | checkHeartBeat tmp => exact .inr (.inr (.inl ⟨tmp, rfl, rfl, rfl, h.checked tmp⟩))
  | update tmp resolved =>
    by_cases hdue : 5000 ≤ (tmp - g.systemTime).tdiv 1000
    · have hsame := g.sameTables_refreshed tmp resolved
      have hbooks := SameBooks.of_same hsame (connCount_checkServerAlive _ tmp resolved)
      have hchecked := (h.of_same hsame).checked tmp
      refine .inr (.inr (.inl ⟨tmp, by rw [checkTime, if_pos hdue], rfl, rfl, ?_⟩))
      rw [step, update_of_due hdue]
      refine ⟨fun n d => ?_, fun hg => hchecked.counted (hbooks.counted hg), fun d hd => ?_⟩
      · rw [hchecked.lookup, hsame.connMap]
        refine and_congr_right fun hd => ?_
        rw [g.conn_refreshed tmp resolved (h.connEntry hd).2.2.1]
      · rw [hchecked.netId d (lt_of_lt_of_le hd hsame.next)]
        exact hbooks.netId d hd
    · refine .inr (.inr (.inr ⟨rfl, by rw [checkTime, if_neg hdue], rfl, ?_⟩))
      rw [step, update, if_neg hdue]
      exact ⟨rfl, rfl, fun _ _ => rfl⟩
  | sendToPlayer msg =>
    rw [kickCall, step]
    obtain ⟨hroute, heq⟩ | ⟨t, hroute, ⟨hopen, heq⟩ | ⟨hopen, heq⟩⟩ := g.sendToPlayer_cases o msg
    · rw [heq, hroute]
      exact .inr (.inr (.inr ⟨rfl, rfl, rfl, rfl, rfl, fun _ _ => rfl⟩))
    · rw [heq, hroute]
      exact .inr (.inl ⟨t, by simp [hopen], rfl, rfl, rfl⟩)
    · rw [heq, hroute]
      have hsame := g.sameTables_modify t (keepsIds_sendSerialized o (copyOf msg))
      exact .inr (.inr (.inr ⟨by simp [hopen], rfl, rfl, .of_same hsame rfl⟩))
  | connect c err =>
    refine .inr (.inr (.inr ⟨rfl, rfl, rfl, .of_same (g.sameTables_step o _ rfl) ?_⟩))
    rw [step, handleConnect]
    split <;> rfl
  | sendToGameSvr | sendToAccountSvr | heard | closed | written =>
    exact .inr (.inr (.inr ⟨rfl, rfl, rfl, .of_same (g.sameTables_step o _ rfl) rfl⟩))

/-! ## Accepting -/

/-- There are fewer than `MAX_NET_ID` net ids. -/
theorem size_le_of_range {α : Type*} {m : Std.TreeMap Int32 α}
    (h : ∀ n c, m[n]? = some c → 0 ≤ n ∧ n < maxNetId) : m.size ≤ 2147483647 := by
  have hmax : maxNetId.toInt = 2147483647 := by decide
  have hzero : (0 : Int32).toInt = 0 := by decide
  have hnodup : (m.keys.map Int32.toInt).Nodup :=
    m.nodup_keys.map fun _ _ heq => Int32.toInt_inj.mp heq
  have hsub : (m.keys.map Int32.toInt).toFinset ⊆ Finset.Ico 0 2147483647 := by
    intro z hz
    obtain ⟨n, hn, rfl⟩ := List.mem_map.mp (List.mem_toFinset.mp hz)
    have hsome := Std.TreeMap.mem_iff_isSome_getElem?.mp (Std.TreeMap.mem_keys.mp hn)
    obtain ⟨c, hc⟩ := Option.isSome_iff_exists.mp hsome
    obtain ⟨hlo, hhi⟩ := h n c hc
    rw [Int32.le_iff_toInt_le, hzero] at hlo
    rw [Int32.lt_iff_toInt_lt, hmax] at hhi
    exact Finset.mem_Ico.mpr ⟨hlo, hhi⟩
  have hcard := Finset.card_le_card hsub
  rw [List.toFinset_card_of_nodup hnodup, List.length_map, Std.TreeMap.length_keys, Int.card_Ico]
    at hcard
  exact hcard

/-- An accept that finds its net id free adds an entry and counts it. -/
theorem Counted.handleAccept (h : g.Tables) (hg : g.Counted)
    (hrange : ∀ (n : Int32) c, g.connMap[n]? = some c → n < maxNetId) (now : ℤ)
    (hfree : g.connMap[g.netIdHolder]? = none) : (g.handleAccept .success now).Counted := by
  have hboth : ∀ n c, (g.connMap.insertIfNew g.netIdHolder g.nextConn)[n]? = some c →
      0 ≤ n ∧ n < maxNetId := by
    intro n c hc
    rcases (lookup_insertIfNew ..).mp hc with hold | ⟨rfl, -, -⟩
    · exact ⟨(h.connEntry hold).2.1, hrange n c hold⟩
    · exact h.holder
  have hsize := size_le_of_range hboth
  have hnew : g.netIdHolder ∉ g.connMap := by
    rw [Std.TreeMap.mem_iff_isSome_getElem?, hfree]
    exact Bool.false_ne_true
  have hone : (1 : Int32).toInt = 1 := by decide
  rw [Std.TreeMap.size_insertIfNew, if_neg hnew] at hsize
  rw [Counted] at hg
  change (g.connCount + 1).toInt = ((g.connMap.insertIfNew g.netIdHolder g.nextConn).size : ℤ)
  rw [Std.TreeMap.size_insertIfNew, if_neg hnew, Int32.toInt_add, hone, hg,
    Int.bmod_eq_of_le (by omega) (by omega)]
  omega

end Gate

/-! ## The ledger -/

/-- The gate, and who its clients are. -/
structure Ledger : Type where
  /-- the gate -/
  gate : Gate
  /-- accepted, and not kicked since -/
  live : ConnPtr → Bool

namespace Ledger

/-- A gate that has just started. -/
def init (now : ℤ) : Ledger := ⟨.init now, fun _ => false⟩

/-- One step of the gate. -/
def step (o : ByteOrder) (s : Ledger) (op : GateOp) : Ledger where
  gate := s.gate.step o op
  live c := s.gate.accepts op = some c || (s.live c && !(s.gate.kicked op).contains c)

/-- The count is right, and every client is in the table under its net id. -/
structure Booked (s : Ledger) : Prop where
  /-- the count -/
  counted : s.gate.Counted
  /-- the clients -/
  tracked : ∀ c, s.live c = true → s.gate.connMap[(s.gate.conn c).netId]? = some c

/-- A step that leaves the books in order: the net id of a new client is free, and whoever
is kicked is the one the table has under that net id. -/
def BookOk (s : Ledger) (op : GateOp) : Prop :=
  (s.gate.accepts op ≠ none → s.gate.connMap[s.gate.netIdHolder]? = none) ∧
    ∀ c ∈ s.gate.kickCall op, ∀ t, s.gate.connMap[(s.gate.conn c).netId]? = some t → t = c

/-- What holds whether or not the books are in order: the tables are well formed, and the
table has clients only, with net ids that the counter can have given them. -/
structure Known (s : Ledger) : Prop where
  /-- the tables -/
  tables : s.gate.Tables
  /-- no entry of a connection that was kicked -/
  entry : ∀ {n : Int32} {c : ConnPtr}, s.gate.connMap[n]? = some c →
    s.live c = true ∧ n < maxNetId

theorem known_init (now : ℤ) : (init now).Known := by
  refine ⟨Gate.tables_init now, fun {n c} hc => ?_⟩
  rw [init, Gate.connMap_init] at hc
  cases hc

theorem booked_init (now : ℤ) : (init now).Booked :=
  ⟨rfl, fun _ hc => absurd hc Bool.false_ne_true⟩

variable {s : Ledger} {o : ByteOrder} {op : GateOp}

theorem live_step_iff {c : ConnPtr} : (s.step o op).live c = true ↔
    s.gate.accepts op = some c ∨ (s.live c = true ∧ c ∉ s.gate.kicked op) := by
  simp [step]

/-- The entry of a client that is kicked goes with it. -/
theorem Known.step (h : s.Known) (o : ByteOrder) (op : GateOp) : (s.step o op).Known := by
  refine ⟨h.tables.step o op, fun {n d} hd => ?_⟩
  change (s.gate.step o op).connMap[n]? = some d at hd
  rw [live_step_iff, Gate.kicked, List.mem_append, Option.mem_toList, h.tables.mem_evicted_iff]
  obtain ⟨now, rfl⟩ | ⟨c, hcall, htime, -, heq⟩ | ⟨tmp, htime, hcall, -, hchecked⟩ |
    ⟨hcall, htime, -, hsame⟩ := Gate.step_cases o h.tables op
  · rcases ((Gate.handleAccept_spec h.tables now).1 n d).mp hd with hold | ⟨rfl, -, rfl⟩
    · refine ⟨.inr ⟨(h.entry hold).1, ?_⟩, (h.entry hold).2⟩
      simp [Gate.kickCall, Gate.checkTime]
    · exact ⟨.inl rfl, h.tables.holder.2⟩
  · rw [heq, Gate.lookup_kickConnection h.tables] at hd
    refine ⟨.inr ⟨(h.entry hd.1).1, ?_⟩, (h.entry hd.1).2⟩
    rw [hcall, htime]
    rintro (hc | ⟨_, hnone, -⟩)
    · obtain rfl := Option.some.inj hc
      exact hd.2 (h.tables.connEntry hd.1).1.symm
    · cases hnone
  · rw [hchecked.lookup] at hd
    refine ⟨.inr ⟨(h.entry hd.1).1, ?_⟩, (h.entry hd.1).2⟩
    rw [hcall, htime]
    rintro (hc | ⟨_, hsome, -, hdead⟩)
    · cases hc
    · obtain rfl := Option.some.inj hsome
      exact hd.2 hdead
  · rw [hsame.connMap] at hd
    refine ⟨.inr ⟨(h.entry hd).1, ?_⟩, (h.entry hd).2⟩
    rw [hcall, htime]
    simp

/-- A client has an entry, so it is none of the connections that a step makes. -/
theorem Booked.old (h : s.Known) (hs : s.Booked) {d : ConnPtr} (hd : s.live d = true) :
    d < s.gate.next ∧ d ≠ s.gate.nextConn := (h.tables.connEntry (hs.tracked d hd)).2.2

/-- A new client finds its net id free, or it has no entry. -/
theorem booked_accept_iff (h : s.Known) (hs : s.Booked) (o : ByteOrder) (now : ℤ) :
    (s.step o (.accept .success now)).Booked ↔ s.gate.connMap[s.gate.netIdHolder]? = none := by
  obtain ⟨hmap, -, hconn, hnet, -⟩ := Gate.handleAccept_spec h.tables now
  have hlive : ∀ d, (s.step o (.accept .success now)).live d = true ↔
      s.gate.nextConn = d ∨ s.live d = true := by
    intro d
    rw [live_step_iff]
    simp [Gate.accepts, Gate.kicked, Gate.kickCall, Gate.evicted]
  have htracked : ∀ d, (s.step o (.accept .success now)).gate.connMap[
      ((s.step o (.accept .success now)).gate.conn d).netId]? = some d ↔
        s.gate.connMap[((s.gate.handleAccept .success now).conn d).netId]? = some d ∨
          (((s.gate.handleAccept .success now).conn d).netId = s.gate.netIdHolder ∧
            s.gate.connMap[((s.gate.handleAccept .success now).conn d).netId]? = none ∧
            d = s.gate.nextConn) := fun d => hmap _ d
  refine ⟨fun hnext => ?_, fun hfree => ⟨?_, fun d hd => (htracked d).mpr ?_⟩⟩
  · have hnew := (htracked s.gate.nextConn).mp (hnext.tracked _ ((hlive _).mpr (.inl rfl)))
    rw [hnet] at hnew
    rcases hnew with hentry | ⟨-, hfree, -⟩
    · exact absurd rfl (h.tables.connEntry hentry).2.2.2
    · exact hfree
  · exact hs.counted.handleAccept h.tables (fun n c hc => (h.entry hc).2) now hfree
  · rcases (hlive d).mp hd with rfl | hd
    · rw [hnet]
      exact .inr ⟨rfl, hfree, rfl⟩
    · obtain ⟨hlt, hne⟩ := hs.old h hd
      rw [hconn d hlt hne]
      exact .inl (hs.tracked d hd)

/-- A kick takes away the entry under the net id; whose it was makes the difference. -/
theorem booked_kick_iff {c : ConnPtr} (h : s.Known) (hs : s.Booked)
    (heq : s.gate.step o op = (s.gate.kickConnection c).1)
    (hlive : ∀ d, (s.step o op).live d = true ↔ s.live d = true ∧ d ≠ c) :
    (s.step o op).Booked ↔
      ∀ t, s.gate.connMap[(s.gate.conn c).netId]? = some t → t = c := by
  have htracked : ∀ d, (s.step o op).gate.connMap[((s.step o op).gate.conn d).netId]? = some d ↔
      s.gate.connMap[(s.gate.conn d).netId]? = some d ∧
        (s.gate.conn d).netId ≠ (s.gate.conn c).netId := by
    intro d
    rw [step, heq, Gate.lookup_kickConnection h.tables, (s.gate.netId_kickConnection c d).1]
  refine ⟨fun hnext t ht => ?_, fun hown => ⟨?_, fun d hd => (htracked d).mpr ?_⟩⟩
  · -- another client would still be live, without an entry
    by_contra hne
    have hnet := (h.tables.connEntry ht).1
    have hgone := hnext.tracked t ((hlive t).mpr ⟨(h.entry ht).1, hne⟩)
    exact ((htracked t).mp hgone).2 hnet
  · rw [step, heq]
    exact hs.counted.kickConnection c
  · obtain ⟨hd, hne⟩ := (hlive d).mp hd
    refine ⟨hs.tracked d hd, fun hnet => hne (hown d ?_)⟩
    rw [← hnet]
    exact hs.tracked d hd

/-- **Exact step lemma**: a step leaves the books in order exactly when it is allowed. -/
theorem booked_step_iff (h : s.Known) (hs : s.Booked) (o : ByteOrder) (op : GateOp) :
    (s.step o op).Booked ↔ s.BookOk op := by
  rw [BookOk]
  obtain ⟨now, rfl⟩ | ⟨c, hcall, htime, hacc, heq⟩ | ⟨tmp, htime, hcall, hacc, hchecked⟩ |
    ⟨hcall, htime, hacc, hsame⟩ := Gate.step_cases o h.tables op
  · rw [booked_accept_iff h hs]
    simp [Gate.accepts, Gate.kickCall]
  · have hlive : ∀ d, (s.step o op).live d = true ↔ s.live d = true ∧ d ≠ c := by
      intro d
      rw [live_step_iff, Gate.kicked, List.mem_append, Option.mem_toList,
        h.tables.mem_evicted_iff, hcall, htime, hacc]
      refine ⟨?_, ?_⟩
      · rintro (hnone | ⟨hd, hnot⟩)
        · cases hnone
        · exact ⟨hd, fun hdc => hnot (.inl (congrArg some hdc.symm))⟩
      · rintro ⟨hd, hne⟩
        refine .inr ⟨hd, ?_⟩
        rintro (hc | ⟨_, hnone, -⟩)
        · exact hne (Option.some.inj hc).symm
        · cases hnone
    rw [booked_kick_iff h hs heq hlive, hcall, hacc]
    simp
  · rw [hcall, hacc]
    refine iff_of_true ⟨hchecked.counted hs.counted, fun d hd => ?_⟩ (by simp)
    rw [live_step_iff, Gate.kicked, List.mem_append, Option.mem_toList,
      h.tables.mem_evicted_iff, hcall, htime, hacc] at hd
    rcases hd with hd | ⟨hd, hnot⟩
    · cases hd
    have hentry := hs.tracked d hd
    rw [step, hchecked.netId d (hs.old h hd).1, hchecked.lookup]
    exact ⟨hentry, fun hdead => hnot (.inr ⟨tmp, rfl, hentry, hdead⟩)⟩
  · rw [hcall, hacc]
    refine iff_of_true ⟨hsame.counted hs.counted, fun d hd => ?_⟩ (by simp)
    rw [live_step_iff, hacc] at hd
    rcases hd with hd | ⟨hd, -⟩
    · cases hd
    rw [step, hsame.netId d (hs.old h hd).1, hsame.connMap]
    exact hs.tracked d hd

/-- **The books of the gate.** In every state of a run the count is that of the entries and
every client that was accepted and not kicked since is in the table under its net id, if
and only if at every step the net id for a new client is free, and a connection that is
kicked has the entry under its net id, or nobody has. -/
theorem booked_always_iff (o : ByteOrder) (now : ℤ) (ops : List GateOp) :
    Always (step o) Booked (init now) ops ↔ EachStep (step o) BookOk (init now) ops :=
  always_iff_eachStep (I := Known) (fun _ op h => h.step o op)
    (fun _ op h hs => booked_step_iff h hs o op) (known_init now) (booked_init now)

/-! ## Once around -/

/-- A client that stays, and `n` others that come and go, one after the other. -/
def visits (n : ℕ) : List GateOp :=
  .accept .success 0 :: (List.range n).flatMap fun i => [.accept .success 0, .kick (i + 3)]

theorem runFrom_visits_succ (o : ByteOrder) (n : ℕ) :
    runFrom (step o) (init 0) (visits (n + 1)) =
      ((runFrom (step o) (init 0) (visits n)).step o (.accept .success 0)).step o
        (.kick (n + 3)) := by
  have hsnoc : visits (n + 1) = visits n ++ [.accept .success 0, .kick (n + 3)] := by
    simp [visits, List.range_succ]
  rw [hsnoc, runFrom_append]
  rfl

/-- After `n` visits: the first client has the net id 0, and the counter is `n` further on. -/
structure Visited (n : ℕ) (s : Ledger) : Prop where
  /-- the tables -/
  known : s.Known
  /-- the counter -/
  holder : s.gate.netIdHolder.toInt = (n + 1) % 2147483647
  /-- the first client -/
  first : s.gate.connMap[(0 : Int32)]? = some 0
  /-- the object for the next client -/
  nextConn : s.gate.nextConn = n + 3
  /-- and the one after it -/
  next : s.gate.next = n + 4

theorem visited_accept {n : ℕ} (h : Visited n s) (o : ByteOrder) :
    Visited (n + 1) (s.step o (.accept .success 0)) := by
  obtain ⟨hmap, -, -, -, hnext, hwait, -⟩ := Gate.handleAccept_spec h.known.tables 0
  refine ⟨h.known.step o _, ?_, (hmap 0 0).mpr (.inl h.first), hwait.trans h.next, ?_⟩
  · have hmax : maxNetId.toInt = 2147483647 := by decide
    refine (toInt_counter h.known.tables.holder).trans ?_
    rw [h.holder, hmax]
    push_cast
    omega
  · refine hnext.trans ?_
    rw [h.next]

/-- The visitor is kicked under its own net id, so that the first client stays. -/
theorem visited_kick {n : ℕ} (h : Visited n s) (o : ByteOrder) {c : ConnPtr}
    (hc : (s.gate.conn c).netId ≠ 0) : Visited n (s.step o (.kick c)) := by
  have hframe : (s.gate.kickConnection c).1.netIdHolder = s.gate.netIdHolder ∧
      (s.gate.kickConnection c).1.nextConn = s.gate.nextConn ∧
      (s.gate.kickConnection c).1.next = s.gate.next := by
    rw [Gate.kickConnection]
    split_ifs
    · exact ⟨rfl, rfl, rfl⟩
    · split
      · exact ⟨rfl, rfl, rfl⟩
      · dsimp only [Gate.kickPlayer]
        split_ifs <;> exact ⟨rfl, rfl, rfl⟩
  obtain ⟨hholder, hwait, hnext⟩ := hframe
  refine ⟨h.known.step o _, ?_, ?_, hwait.trans h.nextConn, hnext.trans h.next⟩
  · rw [← h.holder]
    exact congrArg Int32.toInt hholder
  · exact (Gate.lookup_kickConnection h.known.tables c 0 0).mpr ⟨h.first, hc.symm⟩

/-- As long as the counter has not come around, the first client keeps its net id. -/
theorem visited_run (o : ByteOrder) {n : ℕ} (hn : n < 2147483647) :
    Visited n (runFrom (step o) (init 0) (visits n)) := by
  induction n with
  | zero =>
    have hfirst := ((Gate.handleAccept_spec (Gate.tables_init 0) 0).1 0 0).mpr
      (.inr ⟨rfl, rfl, rfl⟩)
    exact ⟨(known_init 0).step o _, rfl, hfirst, rfl, rfl⟩
  | succ n ih =>
    have h := ih (by omega)
    rw [runFrom_visits_succ]
    refine visited_kick (visited_accept h o) o ?_
    -- the visitor has the net id that the counter was at
    have hnet := (Gate.handleAccept_spec h.known.tables 0).2.2.2.1
    rw [h.nextConn] at hnet
    intro hzero
    have hint := congrArg Int32.toInt (hnet.symm.trans hzero)
    rw [h.holder, Int32.toInt_zero] at hint
    omega

/-- When the counter is around, a new client meets the entry of the first. -/
theorem not_booked_of_around (o : ByteOrder) {n : ℕ} (hn : n + 1 = 2147483647) :
    ¬ Always (step o) Booked (init 0) (visits n ++ [.accept .success 0]) := by
  intro hall
  have h := visited_run o (n := n) (by omega)
  have hbefore := hall _ (List.prefix_append _ _)
  have hafter := hall.last
  rw [runFrom_append] at hafter
  have hfree := (booked_accept_iff h.known hbefore o 0).mp hafter
  have hagain : (runFrom (step o) (init 0) (visits n)).gate.netIdHolder = 0 := by
    rw [← Int32.toInt_inj, h.holder, Int32.toInt_zero]
    omega
  rw [hagain, h.first] at hfree
  cases hfree

/-- A client stays while `MAX_NET_ID - 1` others come and go. The next one gets its net id: it
has no entry, and it is counted. -/
theorem booked_fails_once_around :
    ¬ Always (step .little) Booked (init 0) (visits 2147483646 ++ [.accept .success 0]) :=
  not_booked_of_around .little rfl

end Ledger

end MyServer
