import MyServer.GateTables

/-!
# The heartbeat check as a filter

`checkHeartBeat` iterates over `m_ConnMap` and erases from it on the way, through a lookup by
net id in `kickConnection`. `beatLoop` is that loop with its iterator: it steps on before
the kick, and a kick erases the entry it stood on and no other, so the iterator never
loses its entry and the loop sees each connection once (`beatLoop_eq`).

What is left is then exact (`Filtered`): the connections that were heard of in the last 180
seconds, with the count, the players and the stopped connections to match.
-/

namespace MyServer.Gate

variable {g : Gate} {tmp : ℤ}

/-- The loop of `checkHeartBeat`, with the key that its iterator stands on (`none` is
`end()`). An iterator whose entry is gone gives `none`, and so does a loop that is not
over when the fuel is. -/
def beatLoop (tmp : ℤ) : ℕ → Option Int32 → Gate → Option Gate
  | _, none, g => some g
  | 0, some _, _ => none
  | fuel + 1, some it, g => do
    let conn ← g.connMap[it]?
    -- `++it` comes before the kick
    let next := nextKey g.connMap it
    beatLoop tmp fuel next (if dead tmp (g.conn conn) then (g.kickConnection conn).1 else g)

/-! ## One round -/

/-- A round changes neither who is dead nor under which id a connection stands. -/
theorem beat_keeps (g : Gate) (e : Int32 × ConnPtr) (d : ConnPtr) :
    ((beat tmp g e).conn d).netId = (g.conn d).netId ∧
      dead tmp ((beat tmp g e).conn d) = dead tmp (g.conn d) := by
  rw [beat]
  split
  · refine ⟨(g.netId_kickConnection e.2 d).1, ?_⟩
    rw [dead, heartBeat_kickConnection, dead]
  · exact ⟨rfl, rfl⟩

/-- What a round does to the table and to the count. -/
theorem Keyed.beat_table (h : g.Keyed) (tmp : ℤ) {e : Int32 × ConnPtr}
    (he : g.connMap[e.1]? = some e.2) :
    (∀ n d, (beat tmp g e).connMap[n]? = some d ↔
        g.connMap[n]? = some d ∧ ¬ (n = e.1 ∧ dead tmp (g.conn e.2) = true)) ∧
      (beat tmp g e).connCount =
        g.connCount - if dead tmp (g.conn e.2) = true then 1 else 0 := by
  obtain ⟨hnet, hpos⟩ := h e.1 e.2 he
  rw [beat]
  split
  · rename_i hdead
    rw [← hnet] at hpos he
    obtain ⟨-, hmap, -, hcount⟩ := kickConnection_spec hpos he
    refine ⟨?_, hcount⟩
    intro n d
    rw [hmap, hnet]
    simp [hdead]
  · rename_i hdead
    simp [hdead]

theorem Keyed.beat (h : g.Keyed) {e : Int32 × ConnPtr} (he : g.connMap[e.1]? = some e.2) :
    (beat tmp g e).Keyed := by
  intro n d hd
  obtain ⟨hmap, -⟩ := h.beat_table tmp he
  rw [(beat_keeps g e d).1]
  exact h n d ((hmap n d).mp hd).1

/-- The iterator that stepped on before the round is still good after it. -/
theorem Keyed.iterates_beat (h : g.Keyed) {e : Int32 × ConnPtr} {L : List (Int32 × ConnPtr)}
    (hit : Iterates g.connMap (e :: L)) : Iterates (Gate.beat tmp g e).connMap L := by
  obtain ⟨hmap, -⟩ := h.beat_table tmp (hit.mem e List.mem_cons_self)
  apply hit.next
  · intro e' he' hlook
    refine (hmap _ _).mpr ⟨hlook, ?_⟩
    rintro ⟨heq, -⟩
    have hlt := hit.lt_of_mem he'
    rw [heq] at hlt
    exact compare_self_ne_lt _ hlt
  · intro n d hd
    exact ((hmap n d).mp hd).1

/-! ## The loop -/

/-- **The loop ends**, with every iterator in its map, and it has made one round for each
entry that the table had. -/
theorem beatLoop_eq (L : List (Int32 × ConnPtr)) :
    ∀ (g : Gate) (fuel : ℕ), g.Keyed → Iterates g.connMap L → L.length ≤ fuel →
      beatLoop tmp fuel (L.head?.map Prod.fst) g = some (L.foldl (beat tmp) g) := by
  induction L with
  | nil =>
    intro g fuel _ _ _
    rw [List.head?_nil, Option.map_none, beatLoop]
    rfl
  | cons e L ih =>
    intro g fuel h hit hfuel
    obtain ⟨fuel, rfl⟩ : ∃ k, fuel = k + 1 := Nat.exists_eq_succ_of_ne_zero (by
      rw [List.length_cons] at hfuel
      omega)
    have hlook := hit.mem e List.mem_cons_self
    rw [List.head?_cons, Option.map_some, beatLoop, hlook, hit.nextKey_eq]
    exact ih (beat tmp g e) fuel (h.beat hlook) (h.iterates_beat hit) (by simpa using hfuel)

/-- The count goes down by one for each dead connection. -/
theorem connCount_beats (L : List (Int32 × ConnPtr)) :
    ∀ g : Gate, g.Keyed → Iterates g.connMap L →
      (L.foldl (beat tmp) g).connCount =
        g.connCount - .ofNat (L.countP fun e => dead tmp (g.conn e.2)) := by
  induction L with
  | nil =>
    intro g _ _
    simp
  | cons e L ih =>
    intro g h hit
    have hlook := hit.mem e List.mem_cons_self
    obtain ⟨-, hcount⟩ := h.beat_table tmp hlook
    rw [List.foldl_cons, ih _ (h.beat hlook) (h.iterates_beat hit), hcount, List.countP_cons]
    simp only [(beat_keeps g e _).2]
    split
    · rw [Int32.ofNat_add, Int32.sub_sub, Int32.add_comm]
      rfl
    · simp

/-! ## The filter -/

/-- The connections of the table that were last heard of more than 180 whole seconds ago. -/
def removed (g : Gate) (tmp : ℤ) : List ConnPtr :=
  (g.connMap.toList.map Prod.snd).filter fun c => 180 < (tmp - (g.conn c).heartBeat).tdiv 1000000

/-- `g'` is `g` without the connections that were last heard of more than 180 whole seconds
ago. -/
structure Filtered (tmp : ℤ) (g g' : Gate) : Prop where
  /-- no connection is removed twice -/
  nodup : (g.removed tmp).Nodup
  /-- the table keeps the connections heard of in the last 180 seconds -/
  connMap : ∀ (n : Int32) c, g'.connMap[n]? = some c ↔
    g.connMap[n]? = some c ∧ (tmp - (g.conn c).heartBeat).tdiv 1000000 ≤ 180
  /-- the count goes down by as many as are removed -/
  connCount : g'.connCount = g.connCount - .ofNat (g.removed tmp).length
  /-- the removed connections are stopped, and no others -/
  conn : ∀ c, g'.conn c = if c ∈ g.removed tmp then (g.conn c).stop else g.conn c
  /-- the players that a removed connection carries go, where they lead to its net id -/
  playerMap : ∀ (p : Int32) c', g'.playerMap[p]? = some c' ↔
    g.playerMap[p]? = some c' ∧
      ¬ ∃ c ∈ g.removed tmp, (g.conn c).playerId = p ∧ 0 < p ∧
        (g.conn c').netId = (g.conn c).netId

theorem mem_removed {c : ConnPtr} :
    c ∈ g.removed tmp ↔ (∃ n : Int32, g.connMap[n]? = some c) ∧ dead tmp (g.conn c) = true := by
  rw [removed, List.mem_filter]
  refine and_congr ?_ (by rfl)
  rw [List.mem_map]
  refine ⟨?_, ?_⟩
  · rintro ⟨⟨n, c⟩, he, rfl⟩
    exact ⟨n, Std.TreeMap.mem_toList_iff_getElem?_eq_some.mp he⟩
  · rintro ⟨n, hn⟩
    exact ⟨(n, c), Std.TreeMap.mem_toList_iff_getElem?_eq_some.mpr hn, rfl⟩

theorem Keyed.nodup_removed (h : g.Keyed) : (g.removed tmp).Nodup := by
  refine List.Nodup.filter _ ?_
  rw [List.nodup_iff_pairwise_ne, List.pairwise_map]
  -- two entries for one connection would stand under one key
  refine (distinct_toList g.connMap).imp_of_mem ?_
  intro e e' he he' hne heq
  have hkey := (h e.1 e.2 (Std.TreeMap.mem_toList_iff_getElem?_eq_some.mp he)).1
  have hkey' := (h e'.1 e'.2 (Std.TreeMap.mem_toList_iff_getElem?_eq_some.mp he')).1
  rw [heq] at hkey
  exact hne (hkey.symm.trans hkey')

theorem Keyed.filtered (h : g.Keyed) (tmp : ℤ) : Filtered tmp g (g.checkHeartBeat tmp) := by
  obtain ⟨hconn, hmap, hplayer⟩ := checkHeartBeat_spec h tmp
  have hentry : ∀ c, (∃ n : Int32, g.connMap[n]? = some c) ↔
      g.connMap[(g.conn c).netId]? = some c := by
    intro c
    refine ⟨?_, fun hc => ⟨_, hc⟩⟩
    rintro ⟨n, hn⟩
    rw [(h n c hn).1]
    exact hn
  refine ⟨h.nodup_removed, ?_, ?_, ?_, ?_⟩
  · intro n c
    rw [hmap]
    simp [dead]
  · refine (connCount_beats g.connMap.toList g h (iterates_toList _)).trans ?_
    rw [removed, List.filter_map, List.length_map, ← List.countP_eq_length_filter]
    rfl
  · intro c
    rw [hconn]
    simp only [mem_removed, hentry]
  · intro p c'
    rw [hplayer]
    refine and_congr_right fun _ => not_congr ⟨?_, ?_⟩
    · rintro ⟨hp, c, hc, hdead, hid⟩
      exact ⟨c, mem_removed.mpr ⟨⟨_, hc⟩, hdead⟩, hid, hp, ((h _ c hc).1).symm⟩
    · rintro ⟨c, hc, hid, hp, hnet⟩
      obtain ⟨hin, hdead⟩ := mem_removed.mp hc
      rw [hnet]
      exact ⟨hp, c, (hentry c).mp hin, hdead, hid⟩

/-- **The heartbeat check is an exact filter**: in every state with the connections under
their own net ids, and at every time, the loop ends, it is `checkHeartBeat`, and what it
leaves is the gate without the connections last heard of more than 180 seconds ago. -/
theorem beatLoop_filters (h : g.Keyed) (tmp : ℤ) :
    beatLoop tmp g.connMap.size (firstKey g.connMap) g = some (g.checkHeartBeat tmp) ∧
      Filtered tmp g (g.checkHeartBeat tmp) := by
  refine ⟨?_, h.filtered tmp⟩
  refine beatLoop_eq g.connMap.toList g _ h (iterates_toList _) ?_
  rw [Std.TreeMap.length_toList]

/-- Two clients, of which the second logs in 100 seconds after the first. -/
def twoPlayers : Gate :=
  runFrom (Gate.step .little) (init 0)
    [.accept .success 0, .accept .success 0, .login 7 0, .update 100000000 true, .login 8 1]

/-- After 200 seconds the first one goes, and its player with it. -/
theorem beatLoop_filters_twoPlayers :
    (twoPlayers.Keyed ∧ twoPlayers.removed 200000000 = [0]) ∧
      (twoPlayers.playerMap.toList = [(7, 0), (8, 3)] ∧
        (twoPlayers.checkHeartBeat 200000000).playerMap.toList = [(8, 3)]) ∧
      beatLoop 200000000 twoPlayers.connMap.size (firstKey twoPlayers.connMap) twoPlayers =
        some (twoPlayers.checkHeartBeat 200000000) ∧
      Filtered 200000000 twoPlayers (twoPlayers.checkHeartBeat 200000000) := by
  have h : twoPlayers.Keyed := (tables_run .little 0 _).keyed
  exact ⟨⟨h, by decide +kernel⟩, ⟨by decide +kernel, by decide +kernel⟩,
    beatLoop_filters h 200000000⟩

end MyServer.Gate
