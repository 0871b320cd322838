import MyServer.Gate
import MyServer.Maps
import MyServer.Runs
import MyServer.WritePath

/-!
# The tables of the gate

What each operation does to the two tables and to the ids of the connections, stated
through lookups, and the invariant `Tables` that every step keeps: an entry of
`m_ConnMap` stands under the net id of its connection, net ids of clients are not
negative, and no entry leads to the connection that still waits for a client.

The exact effect of a kick (`kickConnection_spec`) and of the heartbeat check
(`checkHeartBeat_spec`) is what the results about sessions and routing rest on.
-/

namespace MyServer

/-! ## Counters -/

/-- A counter that starts again after `m`. -/
theorem toInt_counter {k m : Int32} (h : 0 ≤ k ∧ k < m) :
    ((k + 1) % m).toInt = (k.toInt + 1) % m.toInt := by
  have hzero : (0 : Int32).toInt = 0 := by decide
  have hone : (1 : Int32).toInt = 1 := by decide
  have hlo := Int32.le_iff_toInt_le.mp h.1
  have hhi := Int32.lt_iff_toInt_lt.mp h.2
  have hmax := m.toInt_lt
  rw [hzero] at hlo
  rw [Int32.toInt_mod, Int32.toInt_add, hone, Int.bmod_eq_of_le (by omega) (by omega),
    Int.tmod_eq_emod_of_nonneg (by omega)]

/-- It stays in range. -/
theorem counter_next {k m : Int32} (h : 0 ≤ k ∧ k < m) : 0 ≤ (k + 1) % m ∧ (k + 1) % m < m := by
  have hzero : (0 : Int32).toInt = 0 := by decide
  have hlo := Int32.le_iff_toInt_le.mp h.1
  have hhi := Int32.lt_iff_toInt_lt.mp h.2
  rw [hzero] at hlo
  rw [Int32.le_iff_toInt_le, Int32.lt_iff_toInt_lt, toInt_counter h, hzero]
  exact ⟨Int.emod_nonneg _ (by omega), Int.emod_lt_of_pos _ (by omega)⟩

/-! ## Changes that keep the ids of a connection -/

/-- The change keeps the net id and the player id. -/
def KeepsIds (f : TcpConnection → TcpConnection) : Prop :=
  ∀ c, (f c).netId = c.netId ∧ (f c).playerId = c.playerId

theorem keepsIds_close : KeepsIds TcpConnection.close := fun _ => ⟨rfl, rfl⟩

/-- Starting a connection arms its read; the ids are set before. -/
theorem keepsIds_start : KeepsIds TcpConnection.start := by
  intro c
  rw [TcpConnection.start, TcpConnection.postRead]
  split <;> exact ⟨rfl, rfl⟩

theorem keepsIds_setHeartBeat (t : ℤ) : KeepsIds fun c => c.setHeartBeat t :=
  fun _ => ⟨rfl, rfl⟩

/-- A completed write moves the buffer only. -/
theorem keepsIds_handleWrite (err : ErrorCode) (writeSome : ℕ → ℕ) :
    KeepsIds fun c => c.handleWrite err writeSome := by
  intro c
  dsimp only
  rw [c.handleWrite_frame err writeSome]
  exact ⟨rfl, rfl⟩

/-- Whether the message is taken or refused, only the write buffer of the connection can change. -/
theorem keepsIds_sendSerialized (o : ByteOrder) (msg : NetMessage) :
    KeepsIds fun c => c.sendSerialized o msg := by
  intro c
  dsimp only [TcpConnection.sendSerialized]
  split
  · rw [TcpConnection.sendMessage_frame]
    exact ⟨rfl, rfl⟩
  · exact ⟨rfl, rfl⟩

namespace Gate

variable {g g' : Gate}

/-- A change to one connection leaves the others as they are. -/
theorem conn_modify (g : Gate) (c d : ConnPtr) (f : TcpConnection → TcpConnection) :
    (g.modify c f).conn d = if d = c then f (g.conn c) else g.conn d :=
  Function.update_apply ..

/-- A new object takes the next free pointer, so no connection that is in use is touched. -/
theorem conn_create (g : Gate) (now : ℤ) (netId : Int32) (d : ConnPtr) :
    (g.create now netId).conn d =
      if d = g.next then (TcpConnection.create now).setNetId netId else g.conn d :=
  Function.update_apply ..

/-- The tables and the ids of the connections in them are the same. -/
structure SameTables (g g' : Gate) : Prop where
  /-- the table by net id -/
  connMap : g'.connMap = g.connMap
  /-- the table by player id -/
  playerMap : g'.playerMap = g.playerMap
  /-- the ids of the connections made before -/
  ids : ∀ d < g.next,
    (g'.conn d).netId = (g.conn d).netId ∧ (g'.conn d).playerId = (g.conn d).playerId
  /-- connections are only added -/
  next : g.next ≤ g'.next
  /-- the waiting connection -/
  nextConn : g'.nextConn = g.nextConn
  /-- the next net id -/
  netIdHolder : g'.netIdHolder = g.netIdHolder

theorem SameTables.refl (g : Gate) : g.SameTables g :=
  ⟨rfl, rfl, fun _ _ => ⟨rfl, rfl⟩, le_rfl, rfl, rfl⟩

theorem SameTables.trans {g'' : Gate} (h : g.SameTables g') (h' : g'.SameTables g'') :
    g.SameTables g'' where
  connMap := h'.connMap.trans h.connMap
  playerMap := h'.playerMap.trans h.playerMap
  ids d hd := by
    obtain ⟨hnet, hplayer⟩ := h.ids d hd
    obtain ⟨hnet', hplayer'⟩ := h'.ids d (lt_of_lt_of_le hd h.next)
    exact ⟨hnet'.trans hnet, hplayer'.trans hplayer⟩
  next := h.next.trans h'.next
  nextConn := h'.nextConn.trans h.nextConn
  netIdHolder := h'.netIdHolder.trans h.netIdHolder

/-- What keeps the ids of a connection keeps the tables, because these are compared by ids. -/
theorem sameTables_modify (g : Gate) (c : ConnPtr) {f : TcpConnection → TcpConnection}
    (hf : KeepsIds f) : g.SameTables (g.modify c f) := by
  refine ⟨rfl, rfl, fun d _ => ?_, le_rfl, rfl, rfl⟩
  rw [conn_modify]
  split
  · rename_i heq
    subst heq
    exact hf _
  · exact ⟨rfl, rfl⟩

/-- A new object is in no table yet. -/
theorem sameTables_create (g : Gate) (now : ℤ) (netId : Int32) :
    g.SameTables (g.create now netId) := by
  refine ⟨rfl, rfl, fun d hd => ?_, Nat.le_succ _, rfl, rfl⟩
  rw [conn_create, if_neg (Nat.ne_of_lt hd)]
  exact ⟨rfl, rfl⟩

theorem sameTables_connect (g : Gate) (resolved : Bool) (c : ConnPtr) :
    g.SameTables (g.connect resolved c) := by
  rw [connect]
  split
  · exact g.sameTables_modify c fun _ => ⟨rfl, rfl⟩
  · exact .refl g

/-- Making connections leaves those that exist alone. -/
theorem conn_checkServerAlive (g : Gate) (now : ℤ) (resolved : Bool) {d : ConnPtr}
    (hd : d < g.next) : (g.checkServerAlive now resolved).conn d = g.conn d := by
  have hmade : ∀ (g : Gate) (netId : Int32), d < g.next →
      ∀ g₁ : Gate, g₁.conn = (g.create now netId).conn →
        (g₁.connect resolved g.next).conn d = g.conn d := by
    intro g netId hd g₁ hg₁
    have hcreate : g₁.conn d = g.conn d := by
      rw [hg₁, conn_create, if_neg (Nat.ne_of_lt hd)]
    rw [connect]
    split
    · rw [conn_modify, if_neg (Nat.ne_of_lt hd), hcreate]
    · exact hcreate
  have haccount : ∀ g : Gate, d < g.next →
      (g.connectToAccountSvr now resolved).conn d = g.conn d ∧
        d < (g.connectToAccountSvr now resolved).next := by
    intro g hd
    refine ⟨hmade g (-2) hd _ rfl, ?_⟩
    rw [connectToAccountSvr, connect]
    split <;> exact Nat.lt_succ_of_lt hd
  have hgame : ∀ g : Gate, d < g.next → (g.connectToGameSvr now resolved).conn d = g.conn d :=
    fun g hd => hmade g (-1) hd _ rfl
  have hsecond : ∀ g : Gate, d < g.next → (if (g.conn g.gameConn).socket.isOpen then g
      else g.connectToGameSvr now resolved).conn d = g.conn d := by
    intro g hd
    split
    · rfl
    · exact hgame g hd
  rw [checkServerAlive]
  split
  · exact hsecond g hd
  · exact (hsecond _ (haccount g hd).2).trans (haccount g hd).1

/-- The connections to the servers are made anew outside of the tables of the clients. -/
theorem sameTables_checkServerAlive (g : Gate) (now : ℤ) (resolved : Bool) :
    g.SameTables (g.checkServerAlive now resolved) := by
  have haccount : ∀ g : Gate, g.SameTables (g.connectToAccountSvr now resolved) := by
    intro g
    have hcreate := g.sameTables_create now (-2)
    have hset : g.SameTables { g.create now (-2) with accountConn := g.next } :=
      ⟨hcreate.1, hcreate.2, hcreate.3, hcreate.4, hcreate.5, hcreate.6⟩
    exact hset.trans (sameTables_connect _ resolved g.next)
  have hgame : ∀ g : Gate, g.SameTables (g.connectToGameSvr now resolved) := by
    intro g
    have hcreate := g.sameTables_create now (-1)
    have hset : g.SameTables { g.create now (-1) with gameConn := g.next } :=
      ⟨hcreate.1, hcreate.2, hcreate.3, hcreate.4, hcreate.5, hcreate.6⟩
    exact hset.trans (sameTables_connect _ resolved g.next)
  rw [checkServerAlive]
  have hfirst : g.SameTables (if (g.conn g.accountConn).socket.isOpen then g
      else g.connectToAccountSvr now resolved) := by
    split
    · exact .refl g
    · exact haccount g
  have hsecond : ∀ g : Gate, g.SameTables (if (g.conn g.gameConn).socket.isOpen then g
      else g.connectToGameSvr now resolved) := by
    intro g
    split
    · exact .refl g
    · exact hgame g
  exact hfirst.trans (hsecond _)

/-! ## Kicks -/

/-- A kick that finds nothing in the table. -/
theorem kickConnection_none {c : ConnPtr}
    (h : (g.conn c).netId < 0 ∨ g.connMap[(g.conn c).netId]? = none) :
    (g.kickConnection c).1 = g := by
  rw [kickConnection]
  rcases h with hneg | hnone
  · rw [if_pos hneg]
  · split
    · rfl
    · rw [hnone]

/-- `kickPlayer` touches the map of the players and nothing else. -/
theorem kickPlayer_frame (g : Gate) (playerId netId : Int32) :
    g.kickPlayer playerId netId =
      { g with playerMap := (g.kickPlayer playerId netId).playerMap } := by
  rw [kickPlayer]
  split <;> rfl

/-- The entry goes when the player id is positive and the connection that it leads to has the net
id; a player who has logged in elsewhere meanwhile stays. -/
theorem lookup_kickPlayer (g : Gate) (playerId netId p : Int32) (d : ConnPtr) :
    (g.kickPlayer playerId netId).playerMap[p]? = some d ↔
      g.playerMap[p]? = some d ∧ ¬ (0 < playerId ∧ p = playerId ∧ (g.conn d).netId = netId) := by
  rw [kickPlayer]
  split
  · rename_i hfound
    obtain ⟨hpos, hany⟩ := hfound
    rw [lookup_erase]
    by_cases hp : playerId = p
    · subst hp
      rw [if_pos rfl]
      refine ⟨fun h => (nomatch h), ?_⟩
      rintro ⟨hd, hnot⟩
      rw [hd, Option.any_some, decide_eq_true_eq] at hany
      exact absurd ⟨hpos, rfl, hany.symm⟩ hnot
    · rw [if_neg hp]
      exact ⟨fun h => ⟨h, fun hbad => hp hbad.2.1.symm⟩, fun h => h.1⟩
  · rename_i hnot
    refine ⟨fun h => ⟨h, ?_⟩, fun h => h.1⟩
    rintro ⟨hpos, rfl, hnet⟩
    refine hnot ⟨hpos, ?_⟩
    rw [h, Option.any_some, decide_eq_true_eq]
    exact hnet.symm

/-- The fields that a kick leaves alone, whichever branch it takes. -/
theorem kickConnection_frame (g : Gate) (c : ConnPtr) :
    (g.kickConnection c).1 =
      { g with
        conn := (g.kickConnection c).1.conn
        connMap := (g.kickConnection c).1.connMap
        playerMap := (g.kickConnection c).1.playerMap
        connCount := (g.kickConnection c).1.connCount } := by
  rw [kickConnection]
  split
  · rfl
  · split
    · rfl
    · dsimp only [modify]
      rw [kickPlayer_frame]

/-- **What a kick does**: the connection the table holds under the net id is stopped and
its entry goes; of the players, the one that `c` says it is goes, if its entry leads to
that net id. -/
theorem kickConnection_spec {c t : ConnPtr} (hnet : 0 ≤ (g.conn c).netId)
    (ht : g.connMap[(g.conn c).netId]? = some t) :
    (∀ d, (g.kickConnection c).1.conn d = if d = t then (g.conn t).stop else g.conn d) ∧
      (∀ n d, (g.kickConnection c).1.connMap[n]? = some d ↔
        g.connMap[n]? = some d ∧ n ≠ (g.conn c).netId) ∧
      (∀ p d, (g.kickConnection c).1.playerMap[p]? = some d ↔
        g.playerMap[p]? = some d ∧ ¬ (0 < (g.conn c).playerId ∧ p = (g.conn c).playerId ∧
          (g.conn d).netId = (g.conn c).netId)) ∧
      (g.kickConnection c).1.connCount = g.connCount - 1 := by
  have hpos : ¬ (g.conn c).netId < 0 := Int32.not_lt.mpr hnet
  rw [kickConnection, if_neg hpos, ht]
  have hframe := kickPlayer_frame
    { g with connMap := g.connMap.erase (g.conn c).netId, connCount := g.connCount - 1 }
    (g.conn c).playerId (g.conn c).netId
  refine ⟨fun d => ?_, fun n d => ?_, fun p d => ?_, ?_⟩
  · dsimp only
    rw [conn_modify, hframe]
  · dsimp only [modify]
    rw [hframe, lookup_erase]
    by_cases hn : (g.conn c).netId = n
    · rw [if_pos hn]
      exact ⟨fun h => (nomatch h), fun h => absurd hn.symm h.2⟩
    · rw [if_neg hn]
      exact ⟨fun h => ⟨h, fun heq => hn heq.symm⟩, fun h => h.1⟩
  · exact lookup_kickPlayer _ _ _ p d
  · dsimp only [modify]
    rw [hframe]

/-! ## The heartbeat check -/

/-- One round of the loop of `checkHeartBeat`. -/
def beat (tmp : ℤ) (g : Gate) (entry : Int32 × ConnPtr) : Gate :=
  if dead tmp (g.conn entry.2) then (g.kickConnection entry.2).1 else g

/-- So does the whole loop of the heartbeat check. -/
theorem beat_frame (tmp : ℤ) (L : List (Int32 × ConnPtr)) :
    ∀ g : Gate, L.foldl (beat tmp) g =
      { g with
        conn := (L.foldl (beat tmp) g).conn
        connMap := (L.foldl (beat tmp) g).connMap
        playerMap := (L.foldl (beat tmp) g).playerMap
        connCount := (L.foldl (beat tmp) g).connCount } := by
  induction L with
  | nil => exact fun _ => rfl
  | cons e L ih =>
    intro g
    have hbeat : beat tmp g e =
        { g with
          conn := (beat tmp g e).conn
          connMap := (beat tmp g e).connMap
          playerMap := (beat tmp g e).playerMap
          connCount := (beat tmp g e).connCount } := by
      rw [beat]
      split
      · exact kickConnection_frame g e.2
      · rfl
    rw [List.foldl_cons, ih, hbeat]

/-- The loop over entries of the table. Each round kicks the connection it stands on and
leaves the other entries alone, so whether a later one is dead is decided by the state
before the loop. -/
theorem beat_fold (tmp : ℤ) (L : List (Int32 × ConnPtr)) :
    ∀ g : Gate,
      (∀ e ∈ L, g.connMap[e.1]? = some e.2 ∧ (g.conn e.2).netId = e.1 ∧ 0 ≤ e.1) →
      L.Pairwise (fun a b => a.1 ≠ b.1) →
      (∀ d, (L.foldl (beat tmp) g).conn d =
        if (L.any fun e => e.2 = d) && dead tmp (g.conn d) then (g.conn d).stop else g.conn d) ∧
      (∀ n d, (L.foldl (beat tmp) g).connMap[n]? = some d ↔
        g.connMap[n]? = some d ∧ ¬ ((n, d) ∈ L ∧ dead tmp (g.conn d) = true)) ∧
      (∀ p d, (L.foldl (beat tmp) g).playerMap[p]? = some d ↔
        g.playerMap[p]? = some d ∧
          ¬ (0 < p ∧ ∃ e ∈ L, dead tmp (g.conn e.2) = true ∧ (g.conn e.2).playerId = p ∧
            (g.conn d).netId = e.1)) := by
  induction L with
  | nil =>
    intro g _ _
    simp
  | cons e L ih =>
    intro g hL hpair
    obtain ⟨hmem, hnet, hpos⟩ := hL e (List.mem_cons_self ..)
    obtain ⟨hhead, htail⟩ := List.pairwise_cons.mp hpair
    rw [List.foldl_cons, beat]
    by_cases hdead : dead tmp (g.conn e.2) = true
    · rw [if_pos hdead]
      obtain ⟨hconn, hmap, hplayer, -⟩ := kickConnection_spec (g := g) (c := e.2) (t := e.2)
        (by rw [hnet]; exact hpos) (by rw [hnet]; exact hmem)
      set g₁ := (g.kickConnection e.2).1
      -- stopping changes neither the ids nor the heartbeat
      have hsame : ∀ d, dead tmp (g₁.conn d) = dead tmp (g.conn d) ∧
          (g₁.conn d).netId = (g.conn d).netId ∧ (g₁.conn d).playerId = (g.conn d).playerId := by
        intro d
        rw [hconn]
        split
        · rename_i heq
          subst heq
          exact ⟨rfl, rfl, rfl⟩
        · exact ⟨rfl, rfl, rfl⟩
      have hL₁ : ∀ e' ∈ L,
          g₁.connMap[e'.1]? = some e'.2 ∧ (g₁.conn e'.2).netId = e'.1 ∧ 0 ≤ e'.1 := by
        intro e' he'
        obtain ⟨hmem', hnet', hpos'⟩ := hL e' (List.mem_cons_of_mem _ he')
        refine ⟨(hmap _ _).mpr ⟨hmem', ?_⟩, ?_, hpos'⟩
        · rw [hnet]
          exact Ne.symm (hhead e' he')
        · rw [(hsame e'.2).2.1, hnet']
      obtain ⟨hconn', hmap', hplayer'⟩ := ih g₁ hL₁ htail
      refine ⟨fun d => ?_, fun n d => ?_, fun p d => ?_⟩
      · rw [hconn', (hsame d).1, hconn, List.any_cons]
        by_cases hd : d = e.2
        · subst hd
          simp only [if_true, hdead, Bool.and_true, decide_true, Bool.true_or]
          split <;> rfl
        · rw [if_neg hd, decide_eq_false (Ne.symm hd), Bool.false_or]
      · rw [hmap', hmap, (hsame d).1, hnet]
        refine ⟨?_, ?_⟩
        · rintro ⟨⟨hlook, hne⟩, hnot⟩
          refine ⟨hlook, ?_⟩
          rintro ⟨hin, hd⟩
          rcases List.mem_cons.mp hin with rfl | hin
          · exact hne rfl
          · exact hnot ⟨hin, hd⟩
        · rintro ⟨hlook, hnot⟩
          refine ⟨⟨hlook, ?_⟩, fun hbad => hnot ⟨List.mem_cons_of_mem _ hbad.1, hbad.2⟩⟩
          rintro rfl
          obtain rfl : e.2 = d := Option.some.inj (hmem.symm.trans hlook)
          exact hnot ⟨List.mem_cons_self .., hdead⟩
      · rw [hplayer', hplayer, hnet]
        simp only [(hsame _).1, (hsame _).2.1, (hsame _).2.2]
        refine ⟨?_, ?_⟩
        · rintro ⟨⟨hlook, hkept⟩, hnot⟩
          refine ⟨hlook, ?_⟩
          rintro ⟨hp, e', hin, hd, hid, hnet'⟩
          rcases List.mem_cons.mp hin with rfl | hin
          · exact hkept ⟨by rw [hid]; exact hp, hid.symm, hnet'⟩
          · exact hnot ⟨hp, e', hin, hd, hid, hnet'⟩
        · rintro ⟨hlook, hnot⟩
          refine ⟨⟨hlook, ?_⟩, ?_⟩
          · rintro ⟨hp, rfl, hnet'⟩
            exact hnot ⟨hp, e, List.mem_cons_self .., hdead, rfl, hnet'⟩
          · rintro ⟨hp, e', hin, hrest⟩
            exact hnot ⟨hp, e', List.mem_cons_of_mem _ hin, hrest⟩
    · rw [if_neg hdead]
      obtain ⟨hconn', hmap', hplayer'⟩ :=
        ih g (fun e' he' => hL e' (List.mem_cons_of_mem _ he')) htail
      refine ⟨fun d => ?_, fun n d => ?_, fun p d => ?_⟩
      · rw [hconn', List.any_cons]
        by_cases hd : e.2 = d
        · subst hd
          simp only [hdead, Bool.and_false]
        · rw [decide_eq_false hd, Bool.false_or]
      · rw [hmap']
        refine and_congr_right fun _ => not_congr ⟨fun h => ⟨List.mem_cons_of_mem _ h.1, h.2⟩, ?_⟩
        rintro ⟨hin, hd⟩
        rcases List.mem_cons.mp hin with rfl | hin
        · exact absurd hd hdead
        · exact ⟨hin, hd⟩
      · rw [hplayer']
        refine and_congr_right fun _ => not_congr (and_congr_right fun _ => ⟨?_, ?_⟩)
        · rintro ⟨e', hin, hrest⟩
          exact ⟨e', List.mem_cons_of_mem _ hin, hrest⟩
        · rintro ⟨e', hin, hd, hrest⟩
          rcases List.mem_cons.mp hin with rfl | hin
          · exact absurd hd hdead
          · exact ⟨e', hin, hd, hrest⟩

/-- Each connection stands under its own net id, which is not negative. -/
def Keyed (g : Gate) : Prop :=
  ∀ (n : Int32) (c : ConnPtr), g.connMap[n]? = some c → (g.conn c).netId = n ∧ 0 ≤ n

/-- **What the heartbeat check does**: of the table, exactly the connections that are not
dead stay; of the players, those go whose id, not 0, a dead connection of their net id
carries; the dead connections are stopped. -/
theorem checkHeartBeat_spec (h : g.Keyed) (tmp : ℤ) :
    (∀ d, (g.checkHeartBeat tmp).conn d =
      if g.connMap[(g.conn d).netId]? = some d ∧ dead tmp (g.conn d) = true
      then (g.conn d).stop else g.conn d) ∧
    (∀ (n : Int32) d, (g.checkHeartBeat tmp).connMap[n]? = some d ↔
      g.connMap[n]? = some d ∧ ¬ dead tmp (g.conn d) = true) ∧
    (∀ (p : Int32) d, (g.checkHeartBeat tmp).playerMap[p]? = some d ↔
      g.playerMap[p]? = some d ∧
        ¬ (0 < p ∧ ∃ c, g.connMap[(g.conn d).netId]? = some c ∧ dead tmp (g.conn c) = true ∧
          (g.conn c).playerId = p)) := by
  have hlist : ∀ n c, (n, c) ∈ g.connMap.toList ↔ g.connMap[n]? = some c :=
    fun n c => Std.TreeMap.mem_toList_iff_getElem?_eq_some
  obtain ⟨hconn, hmap, hplayer⟩ := beat_fold tmp g.connMap.toList g
    (fun e he => by
      have hlook := (hlist e.1 e.2).mp he
      exact ⟨hlook, h e.1 e.2 hlook⟩)
    (distinct_toList g.connMap)
  refine ⟨fun d => ?_, fun n d => ?_, fun p d => ?_⟩
  · refine (hconn d).trans ?_
    congr 1
    rw [Bool.and_eq_true, List.any_eq_true, eq_iff_iff]
    refine and_congr_left fun _ => ⟨?_, ?_⟩
    · rintro ⟨e, he, hd⟩
      obtain rfl := of_decide_eq_true hd
      have hlook := (hlist e.1 e.2).mp he
      rw [(h e.1 e.2 hlook).1]
      exact hlook
    · intro hlook
      exact ⟨((g.conn d).netId, d), (hlist _ _).mpr hlook, decide_eq_true rfl⟩
  · refine (hmap n d).trans (and_congr_right fun hlook => not_congr ?_)
    exact ⟨fun hd => hd.2, fun hd => ⟨(hlist n d).mpr hlook, hd⟩⟩
  · refine (hplayer p d).trans (and_congr_right fun _ => not_congr (and_congr_right fun _ => ?_))
    refine ⟨?_, ?_⟩
    · rintro ⟨e, he, hd, hid, hnet⟩
      rw [hnet]
      exact ⟨e.2, (hlist e.1 e.2).mp he, hd, hid⟩
    · rintro ⟨c, hlook, hd, hid⟩
      exact ⟨((g.conn d).netId, c), (hlist _ _).mpr hlook, hd, hid, rfl⟩

/-! ## The invariant -/

/-- What holds of the tables in every state. -/
structure Tables (g : Gate) : Prop where
  /-- a connection stands under its own net id, which is not negative -/
  connEntry : ∀ {n : Int32} {c : ConnPtr}, g.connMap[n]? = some c →
    (g.conn c).netId = n ∧ 0 ≤ n ∧ c < g.next ∧ c ≠ g.nextConn
  /-- players have accepted connections -/
  playerEntry : ∀ {p : Int32} {c : ConnPtr}, g.playerMap[p]? = some c →
    0 ≤ p ∧ 0 ≤ (g.conn c).netId ∧ c < g.next ∧ c ≠ g.nextConn
  /-- the waiting connection exists -/
  nextConn_lt : g.nextConn < g.next
  /-- the next net id is in range -/
  holder : 0 ≤ g.netIdHolder ∧ g.netIdHolder < maxNetId

/-- The part of the invariant that the heartbeat check needs: every connection is under its own
net id. -/
theorem Tables.keyed (h : g.Tables) : g.Keyed := by
  intro n c hc
  obtain ⟨hnet, hpos, -⟩ := h.connEntry hc
  exact ⟨hnet, hpos⟩

/-- The invariant reads the tables and the ids, so it survives every step that keeps these. -/
theorem Tables.of_same (h : g.Tables) (hs : g.SameTables g') : g'.Tables where
  connEntry hc := by
    rw [hs.connMap] at hc
    obtain ⟨hnet, hpos, hlt, hne⟩ := h.connEntry hc
    refine ⟨?_, hpos, lt_of_lt_of_le hlt hs.next, ?_⟩
    · rw [(hs.ids _ hlt).1, hnet]
    · rw [hs.nextConn]
      exact hne
  playerEntry hc := by
    rw [hs.playerMap] at hc
    obtain ⟨hp, hpos, hlt, hne⟩ := h.playerEntry hc
    refine ⟨hp, ?_, lt_of_lt_of_le hlt hs.next, ?_⟩
    · rw [(hs.ids _ hlt).1]
      exact hpos
    · rw [hs.nextConn]
      exact hne
  nextConn_lt := by
    rw [hs.nextConn]
    exact lt_of_lt_of_le h.nextConn_lt hs.next
  holder := by
    rw [hs.netIdHolder]
    exact h.holder

/-- Fewer entries, same ids: the invariant stays. -/
theorem Tables.of_fewer (h : g.Tables)
    (hmap : ∀ {n : Int32} {c : ConnPtr}, g'.connMap[n]? = some c → g.connMap[n]? = some c)
    (hplayer : ∀ {p : Int32} {c : ConnPtr}, g'.playerMap[p]? = some c → g.playerMap[p]? = some c)
    (hids : ∀ d, (g'.conn d).netId = (g.conn d).netId)
    (hrest : g'.next = g.next ∧ g'.nextConn = g.nextConn ∧ g'.netIdHolder = g.netIdHolder) :
    g'.Tables := by
  obtain ⟨hnext, hwait, hholder⟩ := hrest
  refine ⟨fun hc => ?_, fun hc => ?_, ?_, ?_⟩
  · rw [hids, hnext, hwait]
    exact h.connEntry (hmap hc)
  · rw [hids, hnext, hwait]
    exact h.playerEntry (hplayer hc)
  · rw [hnext, hwait]
    exact h.nextConn_lt
  · rw [hholder]
    exact h.holder

/-- A kick stops one connection and leaves the others alone. -/
theorem conn_kickConnection (g : Gate) (c d : ConnPtr) :
    (g.kickConnection c).1.conn d = g.conn d ∨
      (g.kickConnection c).1.conn d = (g.conn d).stop := by
  by_cases h : (g.conn c).netId < 0 ∨ g.connMap[(g.conn c).netId]? = none
  · rw [kickConnection_none h]
    exact .inl rfl
  · obtain ⟨hpos, hsome⟩ := not_or.mp h
    obtain ⟨t, ht⟩ := Option.ne_none_iff_exists'.mp hsome
    obtain ⟨hconn, -⟩ := kickConnection_spec (Int32.not_lt.mp hpos) ht
    rw [hconn]
    split
    · rename_i heq
      subst heq
      exact .inr rfl
    · exact .inl rfl

/-- A kicked connection is stopped, but keeps its ids: whoever still points to it reads the old
ones. -/
theorem netId_kickConnection (g : Gate) (c d : ConnPtr) :
    ((g.kickConnection c).1.conn d).netId = (g.conn d).netId ∧
      ((g.kickConnection c).1.conn d).playerId = (g.conn d).playerId := by
  rcases g.conn_kickConnection c d with heq | heq
  · rw [heq]
    exact ⟨rfl, rfl⟩
  · rw [heq]
    exact ⟨rfl, rfl⟩

/-- And its last sign of life. -/
theorem heartBeat_kickConnection (g : Gate) (c d : ConnPtr) :
    ((g.kickConnection c).1.conn d).heartBeat = (g.conn d).heartBeat := by
  rcases g.conn_kickConnection c d with heq | heq
  · rw [heq]
  · rw [heq]
    rfl

/-- A kick takes entries out of the tables, and what is left of a well-formed table is one. -/
theorem Tables.kickConnection (h : g.Tables) (c : ConnPtr) : (g.kickConnection c).1.Tables := by
  by_cases hnone : (g.conn c).netId < 0 ∨ g.connMap[(g.conn c).netId]? = none
  · rw [kickConnection_none hnone]
    exact h
  · obtain ⟨hpos, hsome⟩ := not_or.mp hnone
    obtain ⟨t, ht⟩ := Option.ne_none_iff_exists'.mp hsome
    obtain ⟨-, hmap, hplayer, -⟩ := kickConnection_spec (Int32.not_lt.mp hpos) ht
    refine h.of_fewer (fun hc => ((hmap _ _).mp hc).1) (fun hc => ((hplayer _ _).mp hc).1)
      (fun d => (g.netId_kickConnection c d).1) ?_
    rw [kickConnection_frame]
    exact ⟨rfl, rfl, rfl⟩

/-- The check is a row of kicks, which leave all ids alone. -/
theorem ids_checkHeartBeat (h : g.Tables) (tmp : ℤ) (d : ConnPtr) :
    ((g.checkHeartBeat tmp).conn d).netId = (g.conn d).netId ∧
      ((g.checkHeartBeat tmp).conn d).playerId = (g.conn d).playerId := by
  obtain ⟨hconn, -⟩ := checkHeartBeat_spec h.keyed tmp
  rw [hconn]
  split <;> exact ⟨rfl, rfl⟩

/-- So it keeps the tables well formed. -/
theorem Tables.checkHeartBeat (h : g.Tables) (tmp : ℤ) : (g.checkHeartBeat tmp).Tables := by
  obtain ⟨-, hmap, hplayer⟩ := checkHeartBeat_spec h.keyed tmp
  refine h.of_fewer (fun hc => ((hmap _ _).mp hc).1) (fun hc => ((hplayer _ _).mp hc).1)
    (fun d => (ids_checkHeartBeat h tmp d).1) ?_
  have hframe := beat_frame tmp g.connMap.toList g
  change g.checkHeartBeat tmp = _ at hframe
  rw [hframe]
  exact ⟨rfl, rfl, rfl⟩

/-! ## Logins and accepts -/

/-- The state after a login that is taken up: the connection carries the player id, and
the player's entry leads to it unless there was one. -/
def loggedIn (g : Gate) (p : Int32) (c : ConnPtr) : Gate :=
  { g.modify c fun conn => (conn.setPlayerId p).setHeartBeat g.systemTime with
    playerMap := g.playerMap.insertIfNew p c }

/-- A login does nothing, for one of four reasons, or is taken up. -/
theorem onPlayerLogin_cases (g : Gate) (p n : Int32) :
    (g.onPlayerLogin p n = g ∧
      ((n < 0 ∨ p < 0) ∨ (∃ d, g.playerMap[p]? = some d ∧ (g.conn d).netId = n) ∨
        g.connMap[n]? = none)) ∨
    (0 ≤ n ∧ 0 ≤ p ∧ (∀ d, g.playerMap[p]? = some d → (g.conn d).netId ≠ n) ∧
      ∃ c, g.connMap[n]? = some c ∧ g.onPlayerLogin p n = g.loggedIn p c) := by
  rw [onPlayerLogin]
  by_cases hneg : n < 0 ∨ p < 0
  · rw [if_pos hneg]
    exact .inl ⟨rfl, .inl hneg⟩
  rw [if_neg hneg]
  obtain ⟨hn, hp⟩ := not_or.mp hneg
  by_cases honline : (g.playerMap[p]?.any fun c => (g.conn c).netId = n) = true
  · rw [if_pos honline]
    obtain ⟨d, hd, hnet⟩ := (Option.any_eq_true ..).mp honline
    exact .inl ⟨rfl, .inr (.inl ⟨d, hd, of_decide_eq_true hnet⟩)⟩
  rw [if_neg honline]
  rcases hlook : g.connMap[n]? with _ | c
  · exact .inl ⟨rfl, .inr (.inr rfl)⟩
  · refine .inr ⟨Int32.not_lt.mp hn, Int32.not_lt.mp hp, fun d hd hnet => ?_, c, rfl, rfl⟩
    exact honline ((Option.any_eq_true ..).mpr ⟨d, hd, decide_eq_true hnet⟩)

/-- A login gives its connection the player id and a new sign of life. -/
theorem conn_loggedIn (g : Gate) (p : Int32) (c d : ConnPtr) :
    (g.loggedIn p c).conn d =
      if d = c then ((g.conn c).setPlayerId p).setHeartBeat g.systemTime else g.conn d :=
  g.conn_modify c d fun conn => (conn.setPlayerId p).setHeartBeat g.systemTime

/-- No net id changes in it. -/
theorem ids_loggedIn (g : Gate) (p : Int32) (c d : ConnPtr) :
    ((g.loggedIn p c).conn d).netId = (g.conn d).netId ∧
      ((g.loggedIn p c).conn d).playerId = if d = c then p else (g.conn d).playerId := by
  rw [conn_loggedIn]
  by_cases hd : d = c
  · subst hd
    rw [if_pos rfl, if_pos rfl]
    exact ⟨rfl, rfl⟩
  · rw [if_neg hd, if_neg hd]
    exact ⟨rfl, rfl⟩

/-- `insert` leaves the entry of a player who is already there, so a second login does not take it
over. -/
theorem lookup_loggedIn (g : Gate) (p q : Int32) (c d : ConnPtr) :
    (g.loggedIn p c).playerMap[q]? = some d ↔
      g.playerMap[q]? = some d ∨ (q = p ∧ g.playerMap[q]? = none ∧ d = c) :=
  lookup_insertIfNew g.playerMap p q c d

/-- The connection that becomes a player is in the table of the net ids, as it was found there. -/
theorem Tables.onPlayerLogin (h : g.Tables) (p n : Int32) : (g.onPlayerLogin p n).Tables := by
  obtain ⟨heq, -⟩ | ⟨hn, hp, -, c, hc, heq⟩ := g.onPlayerLogin_cases p n
  · rw [heq]
    exact h
  obtain ⟨hnet, -, hlt, hne⟩ := h.connEntry hc
  rw [heq]
  refine ⟨fun {n d} hd => ?_, fun {q d} hd => ?_, h.nextConn_lt, h.holder⟩
  · rw [(g.ids_loggedIn p c d).1]
    exact h.connEntry hd
  · rw [(g.ids_loggedIn p c d).1]
    rcases (g.lookup_loggedIn p q c d).mp hd with hold | ⟨rfl, -, rfl⟩
    · exact h.playerEntry hold
    · exact ⟨hp, by rw [hnet]; exact hn, hlt, hne⟩

/-- The connections after a successful accept. -/
theorem conn_handleAccept (g : Gate) (now : ℤ) (d : ConnPtr) :
    (g.handleAccept .success now).conn d =
      if d = g.next then (TcpConnection.create now).setNetId 0
      else if d = g.nextConn then
        (({ g.conn g.nextConn with socket := ⟨true, []⟩ } : TcpConnection).setNetId
          g.netIdHolder).start
      else g.conn d := by
  refine (conn_create _ now 0 d).trans ?_
  congr 1
  refine (conn_modify _ g.nextConn d TcpConnection.start).trans ?_
  rw [conn_modify, conn_modify, if_pos rfl]
  split <;> rfl

/-- Lookups after a successful accept. -/
theorem handleAccept_spec (h : g.Tables) (now : ℤ) :
    let g' := g.handleAccept .success now
    (∀ n d, g'.connMap[n]? = some d ↔
      g.connMap[n]? = some d ∨ (n = g.netIdHolder ∧ g.connMap[n]? = none ∧ d = g.nextConn)) ∧
      g'.playerMap = g.playerMap ∧
      (∀ d < g.next, d ≠ g.nextConn → g'.conn d = g.conn d) ∧
      (g'.conn g.nextConn).netId = g.netIdHolder ∧
      g'.next = g.next + 1 ∧ g'.nextConn = g.next ∧
      g'.netIdHolder = (g.netIdHolder + 1) % maxNetId := by
  intro g'
  have hwait : g.nextConn ≠ g.next := Nat.ne_of_lt h.nextConn_lt
  refine ⟨fun n d => ?_, rfl, fun d hd hne => ?_, ?_, rfl, rfl, rfl⟩
  · exact lookup_insertIfNew g.connMap g.netIdHolder n g.nextConn d
  · rw [conn_handleAccept, if_neg (Nat.ne_of_lt hd), if_neg hne]
  · rw [conn_handleAccept, if_neg hwait, if_pos rfl, (keepsIds_start _).1]
    rfl

/-- The new entry is for the object that was waiting, which is in no table, under the net id that
it is given. -/
theorem Tables.handleAccept (h : g.Tables) (err : ErrorCode) (now : ℤ) :
    (g.handleAccept err now).Tables := by
  by_cases herr : err = .success
  · subst herr
    obtain ⟨hmap, hplayer, hconn, hnew, hnext, hwait, hholder⟩ := handleAccept_spec h now
    refine ⟨fun {n c} hc => ?_, fun {p c} hc => ?_, ?_, ?_⟩
    · rw [hnext, hwait]
      rcases (hmap n c).mp hc with hold | ⟨rfl, -, rfl⟩
      · obtain ⟨hnet, hpos, hlt, hne⟩ := h.connEntry hold
        rw [hconn c hlt hne]
        exact ⟨hnet, hpos, Nat.lt_succ_of_lt hlt, Nat.ne_of_lt hlt⟩
      · exact ⟨hnew, h.holder.1, Nat.lt_succ_of_lt h.nextConn_lt, Nat.ne_of_lt h.nextConn_lt⟩
    · rw [hplayer] at hc
      obtain ⟨hp, hpos, hlt, hne⟩ := h.playerEntry hc
      rw [hconn c hlt hne, hnext, hwait]
      exact ⟨hp, hpos, Nat.lt_succ_of_lt hlt, Nat.ne_of_lt hlt⟩
    · rw [hnext, hwait]
      exact Nat.lt_succ_self _
    · rw [hholder]
      exact counter_next h.holder
  · -- a failed accept closes the waiting connection and makes another
    have hsame := (g.sameTables_modify g.nextConn keepsIds_close).trans
      (sameTables_create (g.modify g.nextConn TcpConnection.close) now 0)
    have hmid := h.of_same hsame
    rw [Gate.handleAccept, if_pos herr]
    refine ⟨fun {n c} hc => ?_, fun {p c} hc => ?_, Nat.lt_succ_self _, hmid.holder⟩
    · obtain ⟨hnet, hpos, hlt, -⟩ := hmid.connEntry hc
      exact ⟨hnet, hpos, hlt, Nat.ne_of_lt (h.connEntry hc).2.2.1⟩
    · obtain ⟨hp, hpos, hlt, -⟩ := hmid.playerEntry hc
      exact ⟨hp, hpos, hlt, Nat.ne_of_lt (h.playerEntry hc).2.2.1⟩

/-- `sendToPlayer` finds nobody, or kicks a closed connection, or sends. -/
theorem sendToPlayer_cases (o : ByteOrder) (g : Gate) (msg : NetMessage) :
    (g.route msg.playerId msg.netId = none ∧ g.sendToPlayer o msg = g) ∨
    ∃ t, g.route msg.playerId msg.netId = some t ∧
      (((g.conn t).socket.isOpen = false ∧ g.sendToPlayer o msg = (g.kickConnection t).1) ∨
        ((g.conn t).socket.isOpen = true ∧
          g.sendToPlayer o msg = g.modify t fun conn => conn.sendSerialized o (copyOf msg))) := by
  rw [sendToPlayer]
  rcases g.route msg.playerId msg.netId with _ | t
  · exact .inl ⟨rfl, rfl⟩
  · refine .inr ⟨t, rfl, ?_⟩
    rcases hopen : (g.conn t).socket.isOpen with _ | _
    · exact .inl ⟨rfl, by simp [hopen]⟩
    · exact .inr ⟨rfl, by simp [hopen]⟩

theorem connMap_init (now : ℤ) (n : Int32) : (init now).connMap[n]? = none := by
  simp [init, create, connectToGameSvr, connectToAccountSvr, connect, modify]

theorem playerMap_init (now : ℤ) (p : Int32) : (init now).playerMap[p]? = none := by
  simp [init, create, connectToGameSvr, connectToAccountSvr, connect, modify]

/-- At the start both tables are empty. -/
theorem tables_init (now : ℤ) : (init now).Tables := by
  have hwait : (0 : ConnPtr) < 3 := by decide
  have hholder : (0 : Int32) ≤ 0 ∧ (0 : Int32) < maxNetId := by decide
  refine ⟨fun {n c} hc => ?_, fun {p c} hc => ?_, hwait, hholder⟩
  · rw [connMap_init] at hc
    cases hc
  · rw [playerMap_init] at hc
    cases hc

/-- The steps that touch neither the tables nor the ids of a connection. -/
theorem sameTables_step (o : ByteOrder) (g : Gate) (op : GateOp)
    (hop : op matches .connect _ _ | .sendToGameSvr _ | .sendToAccountSvr _ | .heard _ |
      .closed _ | .written _ _ _) : g.SameTables (g.step o op) := by
  cases op with
  | connect c err =>
    rw [step, handleConnect]
    split
    · exact g.sameTables_modify c keepsIds_close
    · exact g.sameTables_modify c keepsIds_start
  | sendToGameSvr msg => exact g.sameTables_modify _ (keepsIds_sendSerialized o _)
  | sendToAccountSvr msg => exact g.sameTables_modify _ (keepsIds_sendSerialized o _)
  | heard c => exact g.sameTables_modify c (keepsIds_setHeartBeat _)
  | closed c => exact g.sameTables_modify c keepsIds_close
  | written c err writeSome => exact g.sameTables_modify c (keepsIds_handleWrite err writeSome)
  | _ => cases hop

/-- **Every step keeps the invariant.** -/
theorem Tables.step (o : ByteOrder) (h : g.Tables) (op : GateOp) : (g.step o op).Tables := by
  cases op with
  | accept err now => exact h.handleAccept err now
  | login p n => exact h.onPlayerLogin p n
  | kick c => exact h.kickConnection c
  | checkHeartBeat tmp => exact h.checkHeartBeat tmp
  | update tmp resolved =>
    rw [Gate.step, update]
    split
    · have htime : ({ g with systemTime := tmp } : Gate).Tables :=
        ⟨h.connEntry, h.playerEntry, h.nextConn_lt, h.holder⟩
      exact (htime.of_same (sameTables_checkServerAlive _ tmp resolved)).checkHeartBeat tmp
    · exact h
  | sendToPlayer msg =>
    rw [Gate.step]
    obtain ⟨-, heq⟩ | ⟨t, -, ⟨-, heq⟩ | ⟨-, heq⟩⟩ := g.sendToPlayer_cases o msg
    · rw [heq]
      exact h
    · rw [heq]
      exact h.kickConnection t
    · rw [heq]
      exact h.of_same (g.sameTables_modify t (keepsIds_sendSerialized o _))
  | connect | sendToGameSvr | sendToAccountSvr | heard | closed | written =>
    exact h.of_same (g.sameTables_step o _ rfl)

/-- **Run**: every state that the gate can reach has well-formed tables, by induction over the
operations. -/
theorem tables_run (o : ByteOrder) (now : ℤ) (ops : List GateOp) :
    (runFrom (Gate.step o) (init now) ops).Tables := by
  have hall : Always (Gate.step o) Tables (init now) ops :=
    always_of_step (fun _ op h => h.step o op) (tables_init now) ops
  exact hall.last

end Gate

end MyServer
