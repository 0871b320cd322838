import MyServer.JsonNormal
import Mathlib.Data.List.Sort
import Mathlib.Data.List.TakeWhile

/-!
# Form data (`request_parser.cpp`)

The parameters of a service request are segments `key=value` with `&` between them, in the URI of
a `GET` and in the body of anything else. `parse_content` makes members of them.

`split_string` and `get_kv` keep what `find` answers in an `int`. A position from 2^31 on does
not fit: it comes out negative, and as an argument of `substr` or `erase` it becomes a
`size_t` that is far too large. The two functions are modelled with these conversions
(`int` of 32 bits, `size_t` of 64); `substr` throws when it starts behind the end, and nothing
catches that (`Throws`).

While the positions fit (`Fits`), a form is decoded as one expects (`Decoded`): the last segment
for a key gives its value. They need not fit for that: a long segment does no harm when what it
swallows says nothing. `Decodable` is the exact condition for texts below 2^32 - 1 bytes, on
which no position comes round to -1 or to a small number again; `Recovers` is the one for texts of
any length.
-/

namespace MyServer.Http

/-- `kv[key] = value` on a `std::map` -/
def setKv (key value : List UInt8) (kv : List (List UInt8 × List UInt8)) :
    List (List UInt8 × List UInt8) :=
  (kv.filter fun e => e.1 ≠ key).orderedInsert (fun a b => a.1 ≤ b.1) (key, value)

/-- `c_str()` as JSON keeps it: up to the first NUL. -/
def cStr (t : List UInt8) : CString :=
  ⟨t.takeWhile fun c => c ≠ 0, fun h => by simpa using List.mem_takeWhile_imp h⟩

/-- `GET_METHOD`, `POST_METHOD` -/
inductive ContentType : Type where
  | getMethod | postMethod
  deriving DecidableEq

namespace Form

/-! ## The functions -/

/-- An `int` as a `size_t`. -/
def sizeT (n : Int32) : ℕ := (n.toInt % 18446744073709551616).toNat

/-- `string::npos` -/
def npos : ℕ := 18446744073709551615

/-- `int pos = str.find(sep)`; `npos` becomes -1. -/
def find (str : List UInt8) (sep : UInt8) : Int32 :=
  match str.findIdx? fun c => c = sep with
  | none => -1
  | some pos => .ofNat pos

/-- `str.substr(pos, npos)` -/
def substr (str : List UInt8) (pos : ℕ) : Option (List UInt8) :=
  if str.length < pos then none else some (str.drop pos)

/-- The loop of `split_string`, for a separator of one byte. It erases at least one byte in each
round, so as many rounds as there are bytes are enough (`splitString_eq_ite`). -/
def splitLoop (splitStr : UInt8) : ℕ → List UInt8 → List (List UInt8)
  | 0, oStr => [oStr]
  | rounds + 1, oStr =>
    let commaN := find oStr splitStr
    if commaN = -1 then [oStr]
    else
      oStr.take (sizeT commaN) :: splitLoop splitStr rounds (oStr.drop (sizeT (commaN + 1)))

/-- `split_string` -/
def splitString (oStr : List UInt8) (splitStr : UInt8) : List (List UInt8) :=
  splitLoop splitStr oStr.length oStr

/-- `get_kv`; `none` when `substr` throws. -/
def getKv (kv : List (List UInt8 × List UInt8)) (kvStr : List UInt8) (kvSep : UInt8) :
    Option (List (List UInt8 × List UInt8)) :=
  let pos := find kvStr kvSep
  if sizeT pos ≠ npos then do
    let value ← substr kvStr (sizeT (pos + 1))
    return setKv (kvStr.take (sizeT pos)) value kv
  else some kv

/-- `parse_content`: its result and the members of `jreq` after it, `none` when it throws. A null
value has no members yet. -/
def parseContent (type : ContentType) (content : List UInt8) (jreq : List (CString × Json)) :
    Option (ℤ × List (CString × Json)) :=
  let strToParse : Option (List UInt8) :=
    match type with
    | .getMethod => (content.findIdx? fun c => c = 63).map fun qmIdx => content.drop (qmIdx + 1)
    | .postMethod => some content
  match strToParse with
  | none => some (-1, jreq)
  | some strToParse => do
    let kv ← (splitString strToParse 38).foldlM (fun kv piece => getKv kv piece 61) []
    return (0, kv.foldl (fun jreq e => Json.insertMember (cStr e.1) (.str (cStr e.2)) jreq) jreq)

/-! ## Positions -/

/-- The least position that leaves no room for one more in an `int`. -/
def room : ℕ := 2147483647

/-- The number of values of an `int`: positions that are so far apart come out the same. -/
def turn : ℕ := 4294967296

/-- The least `size_t` that a negative `int` becomes. No text is so long. -/
def huge : ℕ := 18446744071562067968

/-- `comma_n + 1` is 0 for -1 only, so an erase that the loop gets to takes at least one byte. -/
theorem sizeT_ne_zero {n : Int32} (h : n ≠ -1) : sizeT (n + 1) ≠ 0 := by
  intro hzero
  have hlo := (n + 1).le_toInt
  have hhi := (n + 1).toInt_lt
  rw [sizeT] at hzero
  have hint : (n + 1).toInt = (0 : Int32).toInt := by
    rw [Int32.toInt_zero]
    omega
  have hsum : n + 1 = -1 + 1 := Int32.toInt_inj.mp hint
  exact h ((Int32.add_left_inj 1).mp hsum)

/-- The comparison with `npos` widens the `int` first, so -1 is the one position that it takes for
none. -/
theorem sizeT_eq_npos_iff {n : Int32} : sizeT n = npos ↔ n = -1 := by
  refine ⟨fun h => ?_, fun h => h ▸ rfl⟩
  have hlo := n.le_toInt
  have hhi := n.toInt_lt
  have hneg : (-1 : Int32).toInt = -1 := by decide
  rw [sizeT, npos] at h
  have hint : n.toInt = (-1 : Int32).toInt := by omega
  exact Int32.toInt_inj.mp hint

/-- A position that fits, and the one behind it. -/
theorem sizeT_ofNat {n : ℕ} (h : n < room) :
    sizeT (.ofNat n) = n ∧ sizeT (.ofNat n + 1) = n + 1 ∧ Int32.ofNat n ≠ -1 := by
  rw [room] at h
  have hn : (Int32.ofNat n).toInt = n := Int32.toInt_ofNat_of_lt (by omega)
  have hone : (1 : Int32) = Int32.ofNat 1 := rfl
  have hnext : (Int32.ofNat n + 1).toInt = n + 1 := by
    rw [hone, ← Int32.ofNat_add, Int32.toInt_ofNat_of_lt (by omega)]
    rfl
  refine ⟨?_, ?_, ?_⟩
  · rw [sizeT, hn]
    omega
  · rw [sizeT, hnext]
    omega
  · intro heq
    rw [heq] at hn
    have hneg : (-1 : Int32).toInt = -1 := by decide
    omega

/-- Only what a position is modulo 2^32 is left of it. -/
theorem ofNat_mod (n : ℕ) : Int32.ofNat n = .ofNat (n % turn) := by
  apply Int32.toInt_inj.mp
  rw [Int32.toInt_ofNat', Int32.toInt_ofNat', turn, Int32.size, Int.natCast_emod]
  exact (Int.emod_bmod _ _).symm

/-- A position that fits, perhaps after some turns. -/
theorem sizeT_near {n : ℕ} (h : n % turn < room) :
    sizeT (.ofNat n) = n % turn ∧ sizeT (.ofNat n + 1) = n % turn + 1 ∧ Int32.ofNat n ≠ -1 := by
  rw [ofNat_mod]
  exact sizeT_ofNat h

/-- A position of 2^31 or more comes out negative. -/
theorem toInt_ofNat_far {n : ℕ} (h : 2147483648 ≤ n) (hlt : n < 4294967296) :
    (Int32.ofNat n).toInt = n - 4294967296 := by
  rw [Int32.toInt_ofNat', Int32.size, Int.bmod_def]
  omega

/-- As a `size_t` a negative position is behind the end of every text. -/
theorem le_sizeT_far {n : ℕ} (h : 2147483648 ≤ n) (hlt : n < 4294967296) :
    huge ≤ sizeT (.ofNat n) := by
  have hn := toInt_ofNat_far h hlt
  rw [huge, sizeT, hn]
  omega

/-- A position that does not fit: the one behind it comes out far behind every end, and so does
the position itself, but for the last one that an `int` takes. -/
theorem sizeT_far {n : ℕ} (h : room ≤ n % turn) (hne : n % turn ≠ 4294967295) :
    huge ≤ sizeT (.ofNat n + 1) ∧ Int32.ofNat n ≠ -1 ∧
      (n % turn = room → sizeT (.ofNat n) = room) ∧
      (room < n % turn → huge ≤ sizeT (.ofNat n)) := by
  rw [ofNat_mod]
  have hlt : n % turn < 4294967296 := Nat.mod_lt n (by decide)
  generalize n % turn = r at *
  rw [room] at h ⊢
  have hnext : Int32.ofNat r + 1 = .ofNat (r + 1) := (Int32.ofNat_add r 1).symm
  have hneg : (-1 : Int32).toInt = -1 := by decide
  have hlast : r = 2147483647 → (Int32.ofNat r).toInt = r := fun heq =>
    Int32.toInt_ofNat_of_lt (by omega)
  refine ⟨?_, fun heq => ?_, fun heq => ?_, fun hroom => le_sizeT_far hroom hlt⟩
  · rw [hnext]
    exact le_sizeT_far (by omega) (by omega)
  · rcases Nat.eq_or_lt_of_le h with hroom | hroom
    · have hn := hlast hroom.symm
      rw [heq, hneg] at hn
      omega
    · have hn := toInt_ofNat_far hroom hlt
      rw [heq, hneg] at hn
      omega
  · rw [sizeT, hlast heq]
    omega

/-- The position that `find` answers without one, reached by another. -/
theorem ofNat_eq_neg_one_iff {n : ℕ} : Int32.ofNat n = -1 ↔ n % turn = 4294967295 := by
  refine ⟨fun h => ?_, fun h => ?_⟩
  · by_contra hne
    rcases Nat.lt_or_ge (n % turn) room with hnear | hfar
    · exact (sizeT_near hnear).2.2 h
    · exact (sizeT_far hfar hne).2.1 h
  · rw [ofNat_mod, h]
    rfl

theorem ne_nil_of_find {str : List UInt8} {sep : UInt8} (h : find str sep ≠ -1) : str ≠ [] := by
  rintro rfl
  exact h rfl

theorem findIdx_none {sep : UInt8} {str : List UInt8} (h : sep ∉ str) :
    str.findIdx? (fun c => c = sep) = none := by
  rw [List.findIdx?_eq_none_iff]
  intro c hc
  exact decide_eq_false fun heq => h (heq ▸ hc)

theorem findIdx_append {sep : UInt8} {k : List UInt8} (h : sep ∉ k) (v : List UInt8) :
    (k ++ sep :: v).findIdx? (fun c => c = sep) = some k.length := by
  rw [List.findIdx?_append, findIdx_none h, List.findIdx?_cons]
  simp

theorem find_none {sep : UInt8} {str : List UInt8} (h : sep ∉ str) : find str sep = -1 := by
  rw [find, findIdx_none h]

theorem find_append {sep : UInt8} {k : List UInt8} (h : sep ∉ k) (v : List UInt8) :
    find (k ++ sep :: v) sep = .ofNat k.length := by
  rw [find, findIdx_append h]

theorem drop_behind (k : List UInt8) (sep : UInt8) (v : List UInt8) :
    (k ++ sep :: v).drop (k.length + 1) = v := by
  rw [← List.drop_drop, List.drop_left]
  rfl

/-! ## The pieces -/

/-- The rounds that the loop has left do not matter, if there is one for each byte. -/
theorem splitLoop_eq {sep : UInt8} {m n : ℕ} {str : List UInt8} (hm : str.length ≤ m)
    (hn : str.length ≤ n) : splitLoop sep m str = splitLoop sep n str := by
  induction m generalizing n str with
  | zero =>
    obtain rfl : str = [] := List.length_eq_zero_iff.mp (Nat.le_zero.mp hm)
    cases n <;> rfl
  | succ m ih =>
    cases n with
    | zero =>
      obtain rfl : str = [] := List.length_eq_zero_iff.mp (Nat.le_zero.mp hn)
      rfl
    | succ n =>
      rw [splitLoop, splitLoop]
      by_cases hfind : find str sep = -1
      · rw [if_pos hfind, if_pos hfind]
      · have hpos := List.length_pos_iff.mpr (ne_nil_of_find hfind)
        have hsize : 0 < sizeT (find str sep + 1) := Nat.pos_of_ne_zero (sizeT_ne_zero hfind)
        have hdrop : (str.drop (sizeT (find str sep + 1))).length < str.length := by
          rw [List.length_drop]
          omega
        rw [if_neg hfind, if_neg hfind, ih (n := n) (by omega) (by omega)]

/-- **`split_string`, without a bound on the rounds.** -/
theorem splitString_eq_ite (str : List UInt8) (sep : UInt8) :
    splitString str sep =
      if find str sep = -1 then [str]
      else
        str.take (sizeT (find str sep)) ::
          splitString (str.drop (sizeT (find str sep + 1))) sep := by
  have hround : splitString str sep = splitLoop sep (str.length + 1) str :=
    splitLoop_eq (Nat.le_refl _) (Nat.le_succ _)
  have hrest : splitLoop sep str.length (str.drop (sizeT (find str sep + 1))) =
      splitString (str.drop (sizeT (find str sep + 1))) sep := by
    refine splitLoop_eq ?_ (Nat.le_refl _)
    rw [List.length_drop]
    omega
  rw [hround, splitLoop, hrest]

/-- Without a separator the text is one piece. -/
theorem splitString_none {sep : UInt8} {str : List UInt8} (h : sep ∉ str) :
    splitString str sep = [str] := by
  rw [splitString_eq_ite, if_pos (find_none h)]

/-- A separator whose position fits: the loop goes on behind it. -/
theorem splitString_near {sep : UInt8} {k : List UInt8} (h : sep ∉ k) (hlen : k.length < room)
    (v : List UInt8) : splitString (k ++ sep :: v) sep = k :: splitString v sep := by
  obtain ⟨hsize, hnext, hneg⟩ := sizeT_ofNat hlen
  rw [splitString_eq_ite, find_append h, if_neg hneg, hsize, hnext, List.take_left, drop_behind]

/-- A piece holds bytes of the text. -/
theorem mem_of_mem_splitString {sep c : UInt8} (str : List UInt8) {piece : List UInt8}
    (hpiece : piece ∈ splitString str sep) (hc : c ∈ piece) : c ∈ str := by
  rw [splitString_eq_ite] at hpiece
  split_ifs at hpiece with hfind
  · rw [List.mem_singleton] at hpiece
    exact hpiece ▸ hc
  · have hpos := List.length_pos_iff.mpr (ne_nil_of_find hfind)
    have hsize : 0 < sizeT (find str sep + 1) := Nat.pos_of_ne_zero (sizeT_ne_zero hfind)
    have hshort : (str.drop (sizeT (find str sep + 1))).length < str.length := by
      rw [List.length_drop]
      omega
    rcases List.mem_cons.mp hpiece with rfl | hpiece
    · exact List.mem_of_mem_take hc
    · exact List.mem_of_mem_drop (mem_of_mem_splitString _ hpiece hc)
termination_by str.length

/-! ## Segments -/

/-- The segments of a text, one by one: this is the recursion that all inductions over segments
follow. -/
theorem splitOn_append {sep : UInt8} {k : List UInt8} (h : sep ∉ k) (v : List UInt8) :
    (k ++ sep :: v).splitOn sep = k :: v.splitOn sep := by
  have hsplit : (k ++ sep :: v).splitOn sep = k.splitOn sep ++ v.splitOn sep :=
    List.splitOnP_append_cons k v (beq_self_eq_true sep)
  rw [hsplit, List.splitOn_eq_singleton h]
  rfl

/-- Induction over the segments of a text, from the last one. -/
@[elab_as_elim]
theorem segments_induct (sep : UInt8) {motive : List UInt8 → Prop}
    (last : ∀ str, sep ∉ str → motive str)
    (cons : ∀ k v, sep ∉ k → motive v → motive (k ++ sep :: v)) (str : List UInt8) :
    motive str := by
  by_cases hmem : sep ∈ str
  · obtain ⟨k, v, heq, hk⟩ := List.eq_append_cons_of_mem hmem
    have hshort : v.length < str.length := by
      rw [heq, List.length_append, List.length_cons]
      omega
    rw [heq]
    exact cons k v hk (segments_induct sep last cons v)
  · exact last str hmem
termination_by str.length

/-- The segments of a text hold its bytes but for the separators. -/
theorem exists_mem_splitOn_iff {sep c : UInt8} (str : List UInt8) :
    (∃ seg ∈ str.splitOn sep, c ∈ seg) ↔ c ∈ str ∧ c ≠ sep := by
  induction str using segments_induct sep with
  | last str hstr =>
    rw [List.splitOn_eq_singleton hstr]
    simp only [List.mem_singleton, exists_eq_left, iff_self_and]
    rintro hc rfl
    exact hstr hc
  | cons k v hk ih =>
    simp only [splitOn_append hk, List.mem_cons, exists_eq_or_imp, ih, List.mem_append]
    have hne : c ∈ k → c ≠ sep := by
      rintro hc rfl
      exact hk hc
    tauto

/-- The first separator of `seg` comes right behind `k`, and `v` behind it. -/
def Carries (seg k v : List UInt8) : Prop := seg = k ++ 61 :: v ∧ 61 ∉ k

/-- A segment carries one key. -/
theorem Carries.inj {seg k v k' v' : List UInt8} (h : Carries seg k v) (h' : Carries seg k' v') :
    k = k' ∧ v = v' := by
  obtain ⟨rfl, hk⟩ := h
  obtain ⟨heq, hk'⟩ := h'
  have hlen := findIdx_append hk v
  rw [heq, findIdx_append hk' v'] at hlen
  obtain ⟨rfl, htail⟩ := List.append_inj heq (Option.some.inj hlen).symm
  exact ⟨rfl, (List.cons.inj htail).2⟩

/-- It carries one exactly if it has a separator. -/
theorem carries_or (seg : List UInt8) : (∃ k v, Carries seg k v) ∨ 61 ∉ seg := by
  by_cases hmem : 61 ∈ seg
  · obtain ⟨k, v, heq, hk⟩ := List.eq_append_cons_of_mem hmem
    exact .inl ⟨k, v, heq, hk⟩
  · exact .inr hmem

theorem Carries.mem {seg k v : List UInt8} (h : Carries seg k v) : 61 ∈ seg := by
  rw [h.1]
  simp

/-- The separator takes one byte, so the key is shorter than its segment. -/
theorem Carries.length {seg k v : List UInt8} (h : Carries seg k v) :
    seg.length = k.length + (v.length + 1) := by
  rw [h.1, List.length_append, List.length_cons]

/-- What a segment says: its key gets its value. -/
def enter (kv : List (List UInt8 × List UInt8)) (seg : List UInt8) :
    List (List UInt8 × List UInt8) :=
  match seg.findIdx? fun c => c = 61 with
  | none => kv
  | some pos => setKv (seg.take pos) (seg.drop (pos + 1)) kv

theorem enter_carries {seg k v : List UInt8} (h : Carries seg k v)
    (kv : List (List UInt8 × List UInt8)) : enter kv seg = setKv k v kv := by
  obtain ⟨rfl, hk⟩ := h
  rw [enter, findIdx_append hk]
  dsimp only
  rw [List.take_left, drop_behind]

theorem enter_none {seg : List UInt8} (h : 61 ∉ seg) (kv : List (List UInt8 × List UInt8)) :
    enter kv seg = kv := by
  rw [enter, findIdx_none h]

/-! ## `get_kv` -/

theorem getKv_none {seg : List UInt8} (h : 61 ∉ seg) (kv : List (List UInt8 × List UInt8)) :
    getKv kv seg 61 = some kv := by
  rw [getKv, find_none h]
  rfl

/-- A separator whose position fits. -/
theorem getKv_near {seg k v : List UInt8} (h : Carries seg k v) (hlen : k.length < room)
    (kv : List (List UInt8 × List UInt8)) : getKv kv seg 61 = some (setKv k v kv) := by
  obtain ⟨rfl, hk⟩ := h
  obtain ⟨hsize, hnext, hneg⟩ := sizeT_ofNat hlen
  have hvalue : substr (k ++ 61 :: v) (k.length + 1) = some v := by
    rw [substr, if_neg (by simp), drop_behind]
  rw [getKv, find_append hk, if_pos (sizeT_eq_npos_iff.not.mpr hneg), hnext, hvalue, hsize,
    List.take_left]
  rfl

/-- One whose position does not: `substr` throws. -/
theorem getKv_far {seg k v : List UInt8} (h : Carries seg k v) (hlen : room ≤ k.length % turn)
    (hne : k.length % turn ≠ 4294967295) (hlt : seg.length < huge)
    (kv : List (List UInt8 × List UInt8)) : getKv kv seg 61 = none := by
  obtain ⟨hnext, hneg, -⟩ := sizeT_far hlen hne
  have hvalue : substr seg (sizeT (.ofNat k.length + 1)) = none := by
    rw [substr, if_pos (by omega)]
  have hfind : find seg 61 = .ofNat k.length := by rw [h.1, find_append h.2]
  rw [getKv, hfind, if_pos (sizeT_eq_npos_iff.not.mpr hneg), hvalue]
  rfl

/-- What `get_kv` can do without throwing: it takes the separator for none, or it cuts the piece
somewhere in front of where the positions end. -/
theorem getKv_cases {kv kv' : List (List UInt8 × List UInt8)} {piece : List UInt8}
    (hlt : piece.length < huge) (h : getKv kv piece 61 = some kv') :
    find piece 61 = -1 ∧ kv' = kv ∨
      ∃ r < room, kv' = setKv (piece.take r) (piece.drop (r + 1)) kv := by
  rcases carries_or piece with ⟨k, v, hk⟩ | hno
  · have hfind : find piece 61 = .ofNat k.length := by rw [hk.1, find_append hk.2]
    by_cases hround : k.length % turn = 4294967295
    · have hneg : find piece 61 = -1 := hfind.trans (ofNat_eq_neg_one_iff.mpr hround)
      rw [getKv, if_neg (not_not.mpr (sizeT_eq_npos_iff.mpr hneg))] at h
      exact .inl ⟨hneg, (Option.some.inj h).symm⟩
    · rcases Nat.lt_or_ge (k.length % turn) room with hnear | hfar
      · obtain ⟨hsize, hnext, hneg⟩ := sizeT_near hnear
        have hle : k.length % turn + 1 ≤ piece.length := by
          have hmod := Nat.mod_le k.length turn
          have := hk.length
          omega
        rw [getKv, hfind, if_pos (sizeT_eq_npos_iff.not.mpr hneg), hsize, hnext, substr,
          if_neg (Nat.not_lt.mpr hle)] at h
        exact .inr ⟨_, hnear, (Option.some.inj h).symm⟩
      · rw [getKv_far hk hfar hround hlt] at h
        cases h
  · rw [getKv_none hno] at h
    exact .inl ⟨find_none hno, (Option.some.inj h).symm⟩

/-- The key of the segment, if it has one, leaves room for one more position. -/
def KeyFits (seg : List UInt8) : Prop := ∀ k v, Carries seg k v → k.length < room

/-- A key that fits is entered as it should be. -/
theorem getKv_eq {seg : List UInt8} (h : KeyFits seg) (kv : List (List UInt8 × List UInt8)) :
    getKv kv seg 61 = some (enter kv seg) := by
  rcases carries_or seg with ⟨k, v, hk⟩ | hno
  · rw [getKv_near hk (h k v hk), enter_carries hk]
  · rw [getKv_none hno, enter_none hno]

/-- In a segment of less than 2^31 bytes every key does. -/
theorem keyFits_of_length {seg : List UInt8} (h : seg.length ≤ room) : KeyFits seg := by
  intro k v hk
  have := hk.length
  omega

/-! ## What throws -/

/-- `get_kv` throws on a piece: it has a separator, and `substr` would start behind the end. -/
def Overruns (piece : List UInt8) : Prop :=
  find piece 61 ≠ -1 ∧ piece.length < sizeT (find piece 61 + 1)

instance (piece : List UInt8) : Decidable (Overruns piece) := inferInstanceAs (Decidable (_ ∧ _))

/-- `parse_content` throws on a form: `get_kv` does, on one of the pieces. -/
def Throws (s : List UInt8) : Prop := ∃ piece ∈ splitString s 38, Overruns piece

instance (s : List UInt8) : Decidable (Throws s) :=
  inferInstanceAs (Decidable (∃ piece ∈ _, _))

/-- The map has no part in it: `get_kv` looks at its piece before it writes anything. -/
theorem getKv_eq_none_iff (kv : List (List UInt8 × List UInt8)) (piece : List UInt8) :
    getKv kv piece 61 = none ↔ Overruns piece := by
  rw [getKv, Overruns, substr]
  simp only [ne_eq, sizeT_eq_npos_iff]
  by_cases hfind : find piece 61 = -1
  · simp [hfind]
  · by_cases hlen : piece.length < sizeT (find piece 61 + 1)
    · simp [hfind, hlen]
    · simp [hfind, hlen]

/-- The loop over the pieces ends early at the first one that overruns, whatever the map is. -/
theorem foldlM_eq_none_iff (pieces : List (List UInt8)) (kv : List (List UInt8 × List UInt8)) :
    pieces.foldlM (fun kv piece => getKv kv piece 61) kv = none ↔
      ∃ piece ∈ pieces, Overruns piece := by
  induction pieces generalizing kv with
  | nil => simp
  | cons piece pieces ih =>
    rw [List.foldlM_cons]
    rcases hget : getKv kv piece 61 with _ | kv'
    · simpa using .inl ((getKv_eq_none_iff kv piece).mp hget)
    · have hnot : ¬ Overruns piece := by
        rw [← getKv_eq_none_iff kv, hget]
        exact Option.some_ne_none _
      simpa [hnot] using ih kv'

/-! ## The map -/

/-- A key that is put into its place among others is found there, and the others are found as
before; it must not be there yet, or the first of the two would be found. -/
theorem lookup_orderedInsert {key : List UInt8} (value k : List UInt8)
    {l : List (List UInt8 × List UInt8)} (h : ∀ e ∈ l, e.1 ≠ key) :
    (l.orderedInsert (fun a b => a.1 ≤ b.1) (key, value)).lookup k =
      if k = key then some value else l.lookup k := by
  induction l with
  | nil => rw [List.orderedInsert, Json.lookup_cons_ite]
  | cons e l ih =>
    obtain ⟨name, w⟩ := e
    obtain ⟨hname, hl⟩ := List.forall_mem_cons.mp h
    rw [List.orderedInsert]
    split_ifs with hle hk hk
    · rw [Json.lookup_cons_ite, if_pos hk]
    · rw [Json.lookup_cons_ite, if_neg hk]
    · rw [Json.lookup_cons_ite, if_neg (hk ▸ hname.symm), ih hl, if_pos hk]
    · rw [Json.lookup_cons_ite, Json.lookup_cons_ite, ih hl, if_neg hk]

/-- So the assignment to a map replaces the value of its key and keeps the others. -/
theorem lookup_setKv (key value k : List UInt8) (kv : List (List UInt8 × List UInt8)) :
    (setKv key value kv).lookup k = if k = key then some value else kv.lookup k := by
  have hkeys : ∀ e ∈ kv.filter fun e => e.1 ≠ key, e.1 ≠ key := by
    intro e he
    simpa using (List.mem_filter.mp he).2
  rw [setKv, lookup_orderedInsert value k hkeys, Json.lookup_filter_ne]
  split_ifs <;> rfl

/-- The map as `get_kv` fills it: one entry for each key, and no NULs. -/
structure Clean (kv : List (List UInt8 × List UInt8)) : Prop where
  /-- the keys are different -/
  keys : kv.Pairwise fun a b => a.1 ≠ b.1
  /-- keys and values are C strings -/
  noNul : ∀ e ∈ kv, 0 ∉ e.1 ∧ 0 ∉ e.2

theorem clean_nil : Clean [] := ⟨.nil, fun _ he => absurd he List.not_mem_nil⟩

/-- An assignment first takes the old entry out, and therefore leaves one for each key. -/
theorem Clean.setKv {kv : List (List UInt8 × List UInt8)} (h : Clean kv) {key value : List UInt8}
    (hkey : 0 ∉ key) (hvalue : 0 ∉ value) : Clean (setKv key value kv) := by
  have hperm := List.perm_orderedInsert (fun a b : List UInt8 × List UInt8 => a.1 ≤ b.1)
    (key, value) (kv.filter fun e => e.1 ≠ key)
  refine ⟨?_, ?_⟩
  · rw [Http.setKv, hperm.pairwise_iff fun h => h.symm, List.pairwise_cons]
    refine ⟨?_, h.keys.filter _⟩
    intro e he heq
    exact of_decide_eq_true (List.mem_filter.mp he).2 heq.symm
  · intro e he
    rcases List.mem_cons.mp (hperm.mem_iff.mp he) with rfl | he
    · exact ⟨hkey, hvalue⟩
    · exact h.noNul e (List.mem_filter.mp he).1

theorem Clean.lookup {kv : List (List UInt8 × List UInt8)} (h : Clean kv) {k v : List UInt8}
    (hv : kv.lookup k = some v) : 0 ∉ v := by
  obtain ⟨pre, post, rfl, -⟩ := List.lookup_eq_some_iff.mp hv
  exact (h.noNul (k, v) (List.mem_append_right _ List.mem_cons_self)).2

/-- The key and the value of a segment are parts of it, so they have no NUL if it has none. -/
theorem Clean.enter {kv : List (List UInt8 × List UInt8)} (h : Clean kv) {seg : List UInt8}
    (hseg : 0 ∉ seg) : Clean (enter kv seg) := by
  rcases carries_or seg with ⟨k, v, hk⟩ | hno
  · rw [enter_carries hk]
    rw [hk.1] at hseg
    simp only [List.mem_append, List.mem_cons, not_or] at hseg
    exact h.setKv hseg.1 hseg.2.2
  · rw [enter_none hno]
    exact h

/-- Whatever the position is, `get_kv` enters parts of its piece. -/
theorem Clean.getKv {kv kv' : List (List UInt8 × List UInt8)} (h : Clean kv) {piece : List UInt8}
    (hpiece : 0 ∉ piece) (hget : getKv kv piece 61 = some kv') : Clean kv' := by
  rw [Form.getKv, substr] at hget
  split_ifs at hget
  · cases hget
  · cases hget
    exact h.setKv (fun hc => hpiece (List.mem_of_mem_take hc))
      (fun hc => hpiece (List.mem_of_mem_drop hc))
  · cases hget
    exact h

/-- The pieces are parts of the text, so the whole loop keeps the map clean. -/
theorem Clean.foldlM {kv kv' : List (List UInt8 × List UInt8)} (h : Clean kv)
    {pieces : List (List UInt8)} (hpieces : ∀ piece ∈ pieces, 0 ∉ piece)
    (hfold : pieces.foldlM (fun kv piece => Form.getKv kv piece 61) kv = some kv') : Clean kv' := by
  induction pieces generalizing kv with
  | nil =>
    cases hfold
    exact h
  | cons piece pieces ih =>
    obtain ⟨hpiece, hrest⟩ := List.forall_mem_cons.mp hpieces
    rw [List.foldlM_cons] at hfold
    obtain ⟨kv₁, hget, hfold⟩ := Option.bind_eq_some_iff.mp hfold
    exact ih (h.getKv hpiece hget) hrest hfold

theorem lookup_enter {seg k v : List UInt8} (h : Carries seg k v)
    (kv : List (List UInt8 × List UInt8)) : (enter kv seg).lookup k = some v := by
  rw [enter_carries h, lookup_setKv, if_pos rfl]

theorem lookup_enter_other {seg k : List UInt8} (h : ∀ w, ¬ Carries seg k w)
    (kv : List (List UInt8 × List UInt8)) : (enter kv seg).lookup k = kv.lookup k := by
  rcases carries_or seg with ⟨k', v', h'⟩ | hno
  · rw [enter_carries h', lookup_setKv, if_neg]
    rintro rfl
    exact h v' h'
  · rw [enter_none hno]

/-- The map after all the segments. -/
def keyValues (segs : List (List UInt8)) (kv : List (List UInt8 × List UInt8)) :
    List (List UInt8 × List UInt8) :=
  segs.foldl enter kv

theorem keyValues_cons (seg : List UInt8) (segs : List (List UInt8))
    (kv : List (List UInt8 × List UInt8)) :
    keyValues (seg :: segs) kv = keyValues segs (enter kv seg) := rfl

/-- Segments that carry other keys leave a key alone. -/
theorem keyValues_other {segs : List (List UInt8)} {k : List UInt8}
    (h : ∀ seg ∈ segs, ∀ w, ¬ Carries seg k w) (kv : List (List UInt8 × List UInt8)) :
    (keyValues segs kv).lookup k = kv.lookup k := by
  induction segs generalizing kv with
  | nil => rfl
  | cons seg segs ih =>
    obtain ⟨hseg, hsegs⟩ := List.forall_mem_cons.mp h
    rw [keyValues, List.foldl_cons, ← keyValues, ih hsegs, lookup_enter_other hseg]

/-- **The last one counts**: what comes behind it does not touch its key, and it overwrites what
came before. -/
theorem keyValues_last {pre post : List (List UInt8)} {seg k v : List UInt8}
    (h : Carries seg k v) (hpost : ∀ seg' ∈ post, ∀ w, ¬ Carries seg' k w)
    (kv : List (List UInt8 × List UInt8)) :
    (keyValues (pre ++ seg :: post) kv).lookup k = some v := by
  rw [keyValues, List.foldl_append, List.foldl_cons, ← keyValues, keyValues_other hpost,
    lookup_enter h]

/-- A key that some segment carries has a last one. -/
theorem exists_last {segs : List (List UInt8)} {k : List UInt8}
    (h : ∃ seg ∈ segs, ∃ w, Carries seg k w) :
    ∃ pre seg post w, segs = pre ++ seg :: post ∧ Carries seg k w ∧
      ∀ seg' ∈ post, ∀ w, ¬ Carries seg' k w := by
  induction segs with
  | nil =>
    obtain ⟨seg, hseg, -⟩ := h
    cases hseg
  | cons seg segs ih =>
    by_cases hrest : ∃ seg' ∈ segs, ∃ w, Carries seg' k w
    · obtain ⟨pre, seg', post, w, rfl, hw, hpost⟩ := ih hrest
      exact ⟨seg :: pre, seg', post, w, rfl, hw, hpost⟩
    · push Not at hrest
      obtain ⟨seg', hseg', w, hw⟩ := h
      rcases List.mem_cons.mp hseg' with rfl | hmem
      · exact ⟨[], seg', segs, w, rfl, hw, hrest⟩
      · exact absurd hw (hrest seg' hmem w)

theorem Clean.keyValues {kv : List (List UInt8 × List UInt8)} (h : Clean kv)
    {segs : List (List UInt8)} (hsegs : ∀ seg ∈ segs, 0 ∉ seg) : Clean (keyValues segs kv) := by
  induction segs generalizing kv with
  | nil => exact h
  | cons seg segs ih =>
    obtain ⟨hseg, hsegs⟩ := List.forall_mem_cons.mp hsegs
    exact ih (h.enter hseg) hsegs

theorem keyValues_none {segs : List (List UInt8)} (h : ∀ seg ∈ segs, 61 ∉ seg)
    (kv : List (List UInt8 × List UInt8)) : keyValues segs kv = kv := by
  induction segs with
  | nil => rfl
  | cons seg segs ih =>
    obtain ⟨hseg, hsegs⟩ := List.forall_mem_cons.mp h
    rw [keyValues, List.foldl_cons, enter_none hseg]
    exact ih hsegs

/-- A text without NULs is kept whole; with one, JSON would keep the part in front of it, and two
keys could become one. -/
theorem cStr_eq {t : List UInt8} (h : 0 ∉ t) : cStr t = ⟨t, h⟩ := by
  apply Subtype.ext
  rw [cStr, List.takeWhile_eq_self_iff]
  intro c hc
  have hne : c ≠ 0 := fun heq => h (heq ▸ hc)
  exact decide_eq_true hne

/-- The copy of the map into the members. -/
def fill (kv : List (List UInt8 × List UInt8)) (jreq : List (CString × Json)) :
    List (CString × Json) :=
  kv.foldl (fun jreq e => Json.insertMember (cStr e.1) (.str (cStr e.2)) jreq) jreq

/-- What the members are after the copy: the map has one entry for each key, so the order of the
copying does not matter, and a key of the map hides the member that was there. -/
theorem lookup_fill {kv : List (List UInt8 × List UInt8)} (h : Clean kv)
    (jreq : List (CString × Json)) (k : CString) :
    (fill kv jreq).lookup k =
      ((kv.lookup k.val).map fun v => .str (cStr v)).or (jreq.lookup k) := by
  induction kv generalizing jreq with
  | nil => rfl
  | cons e kv ih =>
    obtain ⟨name, w⟩ := e
    obtain ⟨hname, hkeys⟩ := List.pairwise_cons.mp h.keys
    obtain ⟨⟨hnul, -⟩, hrest⟩ := List.forall_mem_cons.mp h.noNul
    rw [fill, List.foldl_cons, ← fill, ih ⟨hkeys, hrest⟩, Json.lookup_insertMember,
      Json.lookup_cons_ite, cStr_eq hnul]
    by_cases hk : k.val = name
    · -- no later entry has this key
      have hnone : kv.lookup k.val = none := by
        rw [List.lookup_eq_none_iff]
        intro e he
        rw [hk]
        simpa using hname e he
      have hkey : k = ⟨name, hnul⟩ := Subtype.ext hk
      rw [hnone, if_pos hk, if_pos hkey]
      rfl
    · have hkey : k ≠ ⟨name, hnul⟩ := fun heq => hk (congrArg Subtype.val heq)
      rw [if_neg hk, if_neg hkey]

/-- `parse_content` without its first branch: it splits, enters the pieces and copies the map. -/
theorem parseContent_post (s : List UInt8) (jreq : List (CString × Json)) :
    parseContent .postMethod s jreq =
      ((splitString s 38).foldlM (fun kv piece => getKv kv piece 61) []).map
        fun kv => (0, fill kv jreq) := by
  rw [parseContent]
  exact (Option.map_eq_bind ..).symm

/-- A `GET` takes what is behind the first question mark. -/
theorem parseContent_get {uri : List UInt8} (h : 63 ∉ uri) (s : List UInt8)
    (jreq : List (CString × Json)) :
    parseContent .getMethod (uri ++ 63 :: s) jreq = parseContent .postMethod s jreq := by
  rw [parseContent, parseContent, findIdx_append h, Option.map_some, drop_behind]

/-- **Which forms throw.** -/
theorem parseContent_eq_none_iff (s : List UInt8) (jreq : List (CString × Json)) :
    parseContent .postMethod s jreq = none ↔ Throws s := by
  rw [parseContent_post, Option.map_eq_none_iff]
  exact foldlM_eq_none_iff (splitString s 38) []

/-- On all others it returns 0. -/
theorem parseContent_cases (s : List UInt8) (jreq : List (CString × Json)) :
    Throws s ∧ parseContent .postMethod s jreq = none ∨
      ¬ Throws s ∧ ∃ jreq', parseContent .postMethod s jreq = some (0, jreq') := by
  have hiff := parseContent_eq_none_iff s jreq
  have hpost := parseContent_post s jreq
  rcases hfold : (splitString s 38).foldlM (fun kv piece => getKv kv piece 61) [] with _ | kv
  · rw [hfold] at hpost
    exact .inl ⟨hiff.mp hpost, hpost⟩
  · rw [hfold] at hpost
    refine .inr ⟨fun hthrows => ?_, _, hpost⟩
    cases hpost.symm.trans (hiff.mpr hthrows)

/-! ## What is decoded -/

/-- What `parse_content` makes of the form `s`. -/
structure Decodes (s : List UInt8) (jreq jreq' : List (CString × Json)) : Prop where
  /-- a key has the value of the last segment that carries it -/
  last : ∀ (k v : CString) (pre : List (List UInt8)) (seg : List UInt8) (post : List (List UInt8)),
    s.splitOn 38 = pre ++ seg :: post → Carries seg k.val v.val →
    (∀ seg' ∈ post, ∀ w, ¬ Carries seg' k.val w) → jreq'.lookup k = some (.str v)
  /-- the other members stay -/
  rest : ∀ k : CString, (∀ seg ∈ s.splitOn 38, ∀ w, ¬ Carries seg k.val w) →
    jreq'.lookup k = jreq.lookup k
  /-- pairs that were joined come back, the last one for each key -/
  pairs : ∀ kvs : List (CString × CString),
    (∀ e ∈ kvs, 38 ∉ e.1.val ∧ 61 ∉ e.1.val ∧ 38 ∉ e.2.val) →
    s = [38].intercalate (kvs.map fun e => e.1.val ++ 61 :: e.2.val) →
    ∀ k, jreq'.lookup k = ((kvs.reverse.lookup k).map Json.str).or (jreq.lookup k)

/-- The segments of joined pairs are the pairs. -/
theorem carries_of_pairs {kvs : List (CString × CString)}
    (h : ∀ e ∈ kvs, 38 ∉ e.1.val ∧ 61 ∉ e.1.val ∧ 38 ∉ e.2.val) {seg k w : List UInt8}
    (hseg : seg ∈ kvs.map fun e => e.1.val ++ 61 :: e.2.val) (hk : Carries seg k w) :
    ∃ e ∈ kvs, e.1.val = k := by
  obtain ⟨e, he, rfl⟩ := List.mem_map.mp hseg
  have hpair : Carries (e.1.val ++ 61 :: e.2.val) e.1.val e.2.val := ⟨rfl, (h e he).2.1⟩
  exact ⟨e, he, (hpair.inj hk).1⟩

/-- Joined pairs split into themselves, as neither keys nor values have the separator. -/
theorem splitOn_pairs {kvs : List (CString × CString)}
    (h : ∀ e ∈ kvs, 38 ∉ e.1.val ∧ 61 ∉ e.1.val ∧ 38 ∉ e.2.val) (hne : kvs ≠ []) :
    ([38].intercalate (kvs.map fun e => e.1.val ++ 61 :: e.2.val)).splitOn 38 =
      kvs.map fun e => e.1.val ++ 61 :: e.2.val := by
  refine List.splitOn_intercalate 38 ?_ (by simpa using hne)
  intro seg hseg
  obtain ⟨e, he, rfl⟩ := List.mem_map.mp hseg
  obtain ⟨hkey, -, hvalue⟩ := h e he
  simp [hkey, hvalue]

/-- A key that is in no pair is in no segment. -/
theorem not_carries_of_lookup {kvs : List (CString × CString)}
    (h : ∀ e ∈ kvs, 38 ∉ e.1.val ∧ 61 ∉ e.1.val ∧ 38 ∉ e.2.val) {k : CString}
    (hlook : kvs.reverse.lookup k = none) :
    ∀ seg ∈ ([38].intercalate (kvs.map fun e => e.1.val ++ 61 :: e.2.val)).splitOn 38,
      ∀ w, ¬ Carries seg k.val w := by
  intro seg hseg w hcarries
  by_cases hne : kvs = []
  · subst hne
    obtain rfl : seg = [] := by simpa using hseg
    simp [Carries] at hcarries
  · rw [splitOn_pairs h hne] at hseg
    obtain ⟨e, he, hkey⟩ := carries_of_pairs h hseg hcarries
    have hnone := List.lookup_eq_none_iff.mp hlook e (List.mem_reverse.mpr he)
    rw [Subtype.ext hkey] at hnone
    simp at hnone

/-- The last pair with a key is the last segment that carries it. -/
theorem exists_last_of_lookup {kvs : List (CString × CString)}
    (h : ∀ e ∈ kvs, 38 ∉ e.1.val ∧ 61 ∉ e.1.val ∧ 38 ∉ e.2.val) {k v : CString}
    (hlook : kvs.reverse.lookup k = some v) :
    ∃ pre seg post, ([38].intercalate (kvs.map fun e => e.1.val ++ 61 :: e.2.val)).splitOn 38 =
        pre ++ seg :: post ∧
      Carries seg k.val v.val ∧ ∀ seg' ∈ post, ∀ w, ¬ Carries seg' k.val w := by
  obtain ⟨after, before, heq, hafter⟩ := List.lookup_eq_some_iff.mp hlook
  have hkvs : kvs = before.reverse ++ (k, v) :: after.reverse := by
    rw [← List.reverse_reverse kvs, heq]
    simp
  have hmem : ∀ e ∈ after.reverse, e ∈ kvs := by
    intro e he
    rw [hkvs]
    exact List.mem_append_right _ (List.mem_cons_of_mem _ he)
  have hpair : (k, v) ∈ kvs := by
    rw [hkvs]
    exact List.mem_append_right _ List.mem_cons_self
  have hpieces : (kvs.map fun e => e.1.val ++ 61 :: e.2.val) =
      (before.reverse.map fun e => e.1.val ++ 61 :: e.2.val) ++
        (k.val ++ 61 :: v.val) :: after.reverse.map fun e => e.1.val ++ 61 :: e.2.val := by
    rw [hkvs, List.map_append]
    rfl
  refine ⟨_, _, _, (splitOn_pairs h (List.ne_nil_of_mem hpair)).trans hpieces,
    ⟨rfl, (h (k, v) hpair).2.1⟩, fun seg hseg w hcarries => ?_⟩
  obtain ⟨e, he, hkey⟩ := carries_of_pairs (fun e he => h e (hmem e he)) hseg hcarries
  have hne := hafter e (List.mem_reverse.mp he)
  rw [Subtype.ext hkey] at hne
  simp at hne

/-- **A form is decoded by its segments**: if the map has been filled segment by segment, the
members are what they should be. What remains is when `split_string` finds these segments. -/
theorem decodes_fill {s : List UInt8} (h0 : 0 ∉ s) (jreq : List (CString × Json)) :
    Decodes s jreq (fill (keyValues (s.splitOn 38) []) jreq) := by
  have hsegs : ∀ seg ∈ s.splitOn 38, 0 ∉ seg := by
    intro seg hseg hzero
    exact h0 ((exists_mem_splitOn_iff s).mp ⟨seg, hseg, hzero⟩).1
  have hclean : Clean (keyValues (s.splitOn 38) []) := clean_nil.keyValues hsegs
  have hlast : ∀ (k v : CString) (pre : List (List UInt8)) (seg : List UInt8)
      (post : List (List UInt8)), s.splitOn 38 = pre ++ seg :: post → Carries seg k.val v.val →
      (∀ seg' ∈ post, ∀ w, ¬ Carries seg' k.val w) →
      (fill (keyValues (s.splitOn 38) []) jreq).lookup k = some (.str v) := by
    intro k v pre seg post hsplit hseg hpost
    have hvalue : (keyValues (s.splitOn 38) []).lookup k.val = some v.val := by
      rw [hsplit]
      exact keyValues_last hseg hpost []
    rw [lookup_fill hclean, hvalue, Option.map_some, cStr_eq v.property]
    rfl
  have hrest : ∀ k : CString, (∀ seg ∈ s.splitOn 38, ∀ w, ¬ Carries seg k.val w) →
      (fill (keyValues (s.splitOn 38) []) jreq).lookup k = jreq.lookup k := by
    intro k hk
    rw [lookup_fill hclean, keyValues_other hk]
    rfl
  refine ⟨hlast, hrest, ?_⟩
  rintro kvs hkvs rfl k
  rcases hlook : kvs.reverse.lookup k with _ | v
  · exact hrest k (not_carries_of_lookup hkvs hlook)
  · obtain ⟨pre, seg, post, hsplit, hseg, hpost⟩ := exists_last_of_lookup hkvs hlook
    exact hlast k v pre seg post hsplit hseg hpost

/-- What a form gives is determined by the segments, key by key. -/
theorem Decodes.lookup_eq {s : List UInt8} (h0 : 0 ∉ s) {jreq a b : List (CString × Json)}
    (ha : Decodes s jreq a) (hb : Decodes s jreq b) (k : CString) : a.lookup k = b.lookup k := by
  by_cases hk : ∃ seg ∈ s.splitOn 38, ∃ w, Carries seg k.val w
  · obtain ⟨pre, seg, post, w, hsplit, hw, hpost⟩ := exists_last hk
    have hw0 : 0 ∉ w := by
      intro hzero
      have hseg : 0 ∈ seg := by
        rw [hw.1]
        simp [hzero]
      have hmem : seg ∈ s.splitOn 38 := by
        rw [hsplit]
        simp
      exact h0 ((exists_mem_splitOn_iff s).mp ⟨seg, hmem, hseg⟩).1
    rw [ha.last k ⟨w, hw0⟩ pre seg post hsplit hw hpost,
      hb.last k ⟨w, hw0⟩ pre seg post hsplit hw hpost]
  · push Not at hk
    rw [ha.rest k hk, hb.rest k hk]

/-- `Decodes` speaks of what is found under each key, so the order of the members has no part in
it. -/
theorem Decodes.congr {s : List UInt8} {jreq a b : List (CString × Json)} (ha : Decodes s jreq a)
    (h : ∀ k, b.lookup k = a.lookup k) : Decodes s jreq b := by
  refine ⟨fun k v pre seg post hsplit hseg hpost => ?_, fun k hk => ?_, fun kvs hkvs hs k => ?_⟩
  · rw [h, ha.last k v pre seg post hsplit hseg hpost]
  · rw [h, ha.rest k hk]
  · rw [h, ha.pairs kvs hkvs hs k]

/-! ## Which forms are decoded -/

/-- `parse_content` decodes the form `s`: as the body of a `POST`, and behind the question mark of a
`GET`, which is refused without one. -/
structure Decoded (s : List UInt8) (jreq : List (CString × Json)) : Prop where
  /-- it returns 0 and sets the keys of the segments -/
  post : ∃ jreq', parseContent .postMethod s jreq = some (0, jreq') ∧ Decodes s jreq jreq'
  /-- without a question mark it returns -1 and changes nothing -/
  refused : ∀ uri, 63 ∉ uri → parseContent .getMethod uri jreq = some (-1, jreq)
  /-- with one it does the same as for a `POST` -/
  get : ∀ uri, 63 ∉ uri → ∃ jreq',
    parseContent .getMethod (uri ++ 63 :: s) jreq = some (0, jreq') ∧ Decodes s jreq jreq'

/-- The `GET` half adds nothing: it is the same parse behind the question mark. -/
theorem decoded_iff {s : List UInt8} {jreq : List (CString × Json)} :
    Decoded s jreq ↔
      ∃ jreq', parseContent .postMethod s jreq = some (0, jreq') ∧ Decodes s jreq jreq' := by
  refine ⟨fun h => h.post, fun h => ⟨h, fun uri huri => ?_, fun uri huri => ?_⟩⟩
  · rw [parseContent, findIdx_none huri]
    rfl
  · rw [parseContent_get huri]
    exact h

/-- Two maps say the same. -/
def Agree (kv kv' : List (List UInt8 × List UInt8)) : Prop :=
  ∀ k : CString, kv.lookup k.val = kv'.lookup k.val

/-- The members show the values of a map. -/
theorem lookup_eq_of_map {a b : List (List UInt8 × List UInt8)} (ha : Clean a) (hb : Clean b)
    {k : List UInt8}
    (h : ((a.lookup k).map fun v => Json.str (cStr v)) = (b.lookup k).map fun v => .str (cStr v)) :
    a.lookup k = b.lookup k := by
  rcases hla : a.lookup k with _ | v <;> rcases hlb : b.lookup k with _ | w <;>
    rw [hla, hlb] at h
  · cases h
  · cases h
  · rw [Option.map_some, Option.map_some, cStr_eq (ha.lookup hla), cStr_eq (hb.lookup hlb)] at h
    injection h with h
    injection h with h
    injection h with h
    rw [h]

/-- A form is decoded when the pieces of `split_string` say the same as its segments. -/
theorem decoded_iff_agree {s : List UInt8} (h0 : 0 ∉ s) :
    (∀ jreq, Decoded s jreq) ↔
      ∃ kv, (splitString s 38).foldlM (fun kv piece => getKv kv piece 61) [] = some kv ∧
        Agree kv (keyValues (s.splitOn 38) []) := by
  have hclean : Clean (keyValues (s.splitOn 38) []) := by
    refine clean_nil.keyValues fun seg hseg hzero => ?_
    exact h0 ((exists_mem_splitOn_iff s).mp ⟨seg, hseg, hzero⟩).1
  have hpieces : ∀ piece ∈ splitString s 38, 0 ∉ piece := fun piece hpiece hzero =>
    h0 (mem_of_mem_splitString s hpiece hzero)
  refine ⟨fun h => ?_, ?_⟩
  · -- on an empty object the members are the map
    obtain ⟨jreq', hparse, hdecodes⟩ := (h []).post
    rw [parseContent_post] at hparse
    obtain ⟨kv, hfold, heq⟩ := Option.map_eq_some_iff.mp hparse
    obtain rfl : fill kv [] = jreq' := (Prod.mk.inj heq).2
    have hkv : Clean kv := clean_nil.foldlM hpieces hfold
    refine ⟨kv, hfold, fun k => ?_⟩
    have hsame := hdecodes.lookup_eq h0 (decodes_fill h0 []) k
    rw [lookup_fill hkv, lookup_fill hclean, List.lookup_nil, Option.or_none, Option.or_none]
      at hsame
    exact lookup_eq_of_map hkv hclean hsame
  · rintro ⟨kv, hfold, hagree⟩ jreq
    have hkv : Clean kv := clean_nil.foldlM hpieces hfold
    refine decoded_iff.mpr ⟨fill kv jreq, ?_, (decodes_fill h0 jreq).congr fun k => ?_⟩
    · rw [parseContent_post, hfold]
      rfl
    · rw [lookup_fill hkv, lookup_fill hclean, hagree k]

/-- All the positions that `find` answers leave room for one more in an `int`: the ends of
the segments but the last, and the separators in them. -/
def Fits (s : List UInt8) : Prop :=
  (∀ seg ∈ (s.splitOn 38).dropLast, seg.length < room) ∧ ∀ seg ∈ s.splitOn 38, KeyFits seg

/-- **While the positions fit, the loop splits at every separator.** -/
theorem splitString_eq {sep : UInt8} (str : List UInt8)
    (h : ∀ seg ∈ (str.splitOn sep).dropLast, seg.length < room) :
    splitString str sep = str.splitOn sep := by
  induction str using segments_induct sep with
  | last str hstr => rw [splitString_none hstr, List.splitOn_eq_singleton hstr]
  | cons k v hk ih =>
    have hne : v.splitOn sep ≠ [] := List.splitOnP_ne_nil _ _
    rw [splitOn_append hk, List.dropLast_cons_of_ne_nil hne] at h
    obtain ⟨hlen, hrest⟩ := List.forall_mem_cons.mp h
    rw [splitString_near hk hlen, splitOn_append hk, ih hrest]

/-- The loop over the segments. -/
theorem foldlM_getKv {segs : List (List UInt8)} (h : ∀ seg ∈ segs, KeyFits seg)
    (kv : List (List UInt8 × List UInt8)) :
    segs.foldlM (fun kv piece => getKv kv piece 61) kv = some (keyValues segs kv) := by
  induction segs generalizing kv with
  | nil => rfl
  | cons seg segs ih =>
    obtain ⟨hseg, hsegs⟩ := List.forall_mem_cons.mp h
    rw [List.foldlM_cons, getKv_eq hseg]
    exact ih hsegs _

/-- While the positions fit, the pieces are the segments and every key is entered. -/
theorem foldlM_splitString {s : List UInt8} (h : Fits s) :
    (splitString s 38).foldlM (fun kv piece => getKv kv piece 61) [] =
      some (keyValues (s.splitOn 38) []) := by
  rw [splitString_eq s h.1, foldlM_getKv h.2]

/-- Every form of less than 2^31 bytes fits. -/
theorem fits_of_length {s : List UInt8} (h : s.length ≤ room) : Fits s := by
  suffices hsegs : (∀ seg ∈ (s.splitOn 38).dropLast, seg.length < room) ∧
      ∀ seg ∈ s.splitOn 38, seg.length ≤ room from
    ⟨hsegs.1, fun seg hseg => keyFits_of_length (hsegs.2 seg hseg)⟩
  induction s using segments_induct 38 with
  | last s hs =>
    rw [List.splitOn_eq_singleton hs]
    exact ⟨by simp, by simpa using h⟩
  | cons k v hk ih =>
    have hne : v.splitOn 38 ≠ [] := List.splitOnP_ne_nil _ _
    rw [List.length_append, List.length_cons] at h
    obtain ⟨hends, hall⟩ := ih (by omega)
    rw [splitOn_append hk, List.dropLast_cons_of_ne_nil hne]
    exact ⟨List.forall_mem_cons.mpr ⟨by omega, hends⟩, List.forall_mem_cons.mpr ⟨by omega, hall⟩⟩

/-- Below 2^31 bytes all positions fit, so nothing throws. -/
theorem not_throws_of_length {s : List UInt8} (h : s.length ≤ room) : ¬ Throws s := by
  rw [← parseContent_eq_none_iff s [], parseContent_post, foldlM_splitString (fits_of_length h)]
  exact Option.some_ne_none _

/-- The exact condition below 2^32 - 1 bytes, on the segments that are left and the map so far.

A segment that is not the last one and is too long for its end to be found ends the loop. At
the very last position of an `int` the segment itself is still taken and all behind it is erased,
so what is behind must say nothing new; beyond it everything that is left is one piece, so that no
key may come any more. -/
def Decodable (kv : List (List UInt8 × List UInt8)) : List (List UInt8) → Prop
  | [] => True
  | [seg] => KeyFits seg
  | seg :: seg' :: segs =>
    (seg.length < room → Decodable (enter kv seg) (seg' :: segs)) ∧
      (seg.length = room → Agree (enter kv seg) (keyValues (seg' :: segs) (enter kv seg))) ∧
      (room < seg.length → ∀ x ∈ seg :: seg' :: segs, 61 ∉ x)

/-- The piece that is still cut off a segment whose end is not found: as much as is left of its
length in an `int`, and nothing when that comes out negative. -/
def cutOf (seg : List UInt8) : List UInt8 :=
  if seg.length % turn ≤ room then seg.take (seg.length % turn) else []

/-- The last piece: what the erase leaves of the text. Behind a cut the next position comes out as
-1, and behind the last position of an `int` everything is erased. -/
def restOf (seg text : List UInt8) : List UInt8 :=
  if seg.length % turn < room then text.drop (seg.length % turn + 1)
  else if seg.length % turn = room then [] else text

/-- The exact condition for texts of any length. From the first segment on whose end is not found,
what is cut off it must say as much as all the segments do, and in the rest `get_kv` must find
nothing: no separator, or one at a position that comes out as -1. -/
def Recovers (kv : List (List UInt8 × List UInt8)) : List (List UInt8) → Prop
  | [] => True
  | [seg] => KeyFits seg
  | seg :: seg' :: segs =>
    (seg.length < room → Recovers (enter kv seg) (seg' :: segs)) ∧
      (room ≤ seg.length → find (restOf seg ([38].intercalate (seg :: seg' :: segs))) 61 = -1 ∧
        Agree (enter kv (cutOf seg)) (keyValues (seg :: seg' :: segs) kv))

/-- `Decodable` on a segment with others behind it, in the form in which the induction uses it. -/
theorem decodable_cons {segs : List (List UInt8)} (hne : segs ≠ []) (seg : List UInt8)
    (kv : List (List UInt8 × List UInt8)) :
    Decodable kv (seg :: segs) ↔
      (seg.length < room → Decodable (enter kv seg) segs) ∧
        (seg.length = room → Agree (enter kv seg) (keyValues segs (enter kv seg))) ∧
        (room < seg.length → ∀ x ∈ seg :: segs, 61 ∉ x) := by
  cases segs with
  | nil => exact absurd rfl hne
  | cons seg' segs => rw [Decodable]

/-- `Recovers` on the first segment of a text. -/
theorem recovers_append {k : List UInt8} (hk : 38 ∉ k) (v : List UInt8)
    (kv : List (List UInt8 × List UInt8)) :
    Recovers kv ((k ++ 38 :: v).splitOn 38) ↔
      (k.length < room → Recovers (enter kv k) (v.splitOn 38)) ∧
        (room ≤ k.length → find (restOf k (k ++ 38 :: v)) 61 = -1 ∧
          Agree (enter kv (cutOf k)) (keyValues ((k ++ 38 :: v).splitOn 38) kv)) := by
  have htext : [38].intercalate (k :: v.splitOn 38) = k ++ 38 :: v := by
    rw [← splitOn_append hk, List.intercalate_splitOn]
  have hne : v.splitOn 38 ≠ [] := List.splitOnP_ne_nil _ _
  rw [splitOn_append hk]
  generalize v.splitOn 38 = segs at hne htext ⊢
  cases segs with
  | nil => exact absurd rfl hne
  | cons seg' segs => rw [Recovers, htext]

/-! ### From a long segment on -/

/-- **The pieces from a long segment on**: what is cut off it, and the rest. -/
theorem foldlM_far {k v : List UInt8} (hk : 38 ∉ k) (hlen : room ≤ k.length)
    (hlt : (k ++ 38 :: v).length < huge) (kv : List (List UInt8 × List UInt8)) :
    (splitString (k ++ 38 :: v) 38).foldlM (fun kv piece => getKv kv piece 61) kv =
      getKv (enter kv (cutOf k)) (restOf k (k ++ 38 :: v)) 61 := by
  have hempty : ∀ kv' : List (List UInt8 × List UInt8), getKv kv' [] 61 = some kv' :=
    getKv_none List.not_mem_nil
  have hdrop : ∀ n, huge ≤ n → splitString ((k ++ 38 :: v).drop n) 38 = [[]] := by
    intro n hn
    rw [List.drop_eq_nil_of_le (by omega)]
    rfl
  have hmod := Nat.mod_le k.length turn
  have hcut : ∀ n, n ≤ room → getKv kv (k.take n) 61 = some (enter kv (k.take n)) := by
    intro n hn
    refine getKv_eq (keyFits_of_length ?_) kv
    rw [List.length_take]
    omega
  rw [splitString_eq_ite, find_append hk]
  rcases Nat.lt_trichotomy (k.length % turn) room with hnear | hedge | hfar
  · -- the cut leaves a segment whose end comes out as -1
    obtain ⟨hsize, hnext, hneg⟩ := sizeT_near hnear
    have hbehind : k.length % turn + 1 ≤ k.length := by omega
    have hround : (k.drop (k.length % turn + 1)).length % turn = 4294967295 := by
      rw [List.length_drop]
      rw [turn] at hnear hbehind ⊢
      omega
    have hrest : (k ++ 38 :: v).drop (k.length % turn + 1) =
        k.drop (k.length % turn + 1) ++ 38 :: v := List.drop_append_of_le_length hbehind
    have hamp : 38 ∉ k.drop (k.length % turn + 1) := fun h => hk (List.mem_of_mem_drop h)
    have hlast : splitString (k.drop (k.length % turn + 1) ++ 38 :: v) 38 =
        [k.drop (k.length % turn + 1) ++ 38 :: v] := by
      rw [splitString_eq_ite, find_append hamp, if_pos (ofNat_eq_neg_one_iff.mpr hround)]
    rw [if_neg hneg, hsize, hnext, List.take_append_of_le_length hmod, hrest, hlast, cutOf,
      if_pos hnear.le, restOf, if_pos hnear, hrest, List.foldlM_cons, hcut _ hnear.le]
    simp
  · obtain ⟨hnext, hneg, hsize, -⟩ := sizeT_far hedge.ge (by rw [hedge]; decide)
    rw [if_neg hneg, hsize hedge, hdrop _ hnext, List.take_append_of_le_length hlen, cutOf,
      if_pos hedge.le, restOf, if_neg hedge.not_lt, if_pos hedge, hedge, List.foldlM_cons,
      hcut _ (Nat.le_refl _)]
    simp [hempty]
  · have hpieces : cutOf k = [] ∧ restOf k (k ++ 38 :: v) = k ++ 38 :: v :=
      ⟨if_neg hfar.not_ge, (if_neg hfar.not_gt).trans (if_neg hfar.ne')⟩
    rw [hpieces.1, hpieces.2, enter_none List.not_mem_nil]
    by_cases hround : k.length % turn = 4294967295
    · rw [if_pos (ofNat_eq_neg_one_iff.mpr hround)]
      simp
    · obtain ⟨hnext, hneg, -, hsize⟩ := sizeT_far hfar.le hround
      have htake : (k ++ 38 :: v).take (sizeT (.ofNat k.length)) = k ++ 38 :: v := by
        have hbig := hsize hfar
        exact List.take_of_length_le (by omega)
      rw [if_neg hneg, hdrop _ hnext, htake]
      simp [hempty]

/-- If the rest is not empty, it begins in the long segment and goes on behind it. -/
theorem restOf_cases {k v : List UInt8} (hlen : room ≤ k.length) :
    restOf k (k ++ 38 :: v) = [] ∨
      ∃ k', room < k'.length ∧ k' <:+ k ∧ restOf k (k ++ 38 :: v) = k' ++ 38 :: v := by
  rw [restOf]
  split_ifs with hnear hedge
  · have hbehind : k.length % turn + 1 ≤ k.length := by
      have hmod := Nat.mod_le k.length turn
      omega
    refine .inr ⟨k.drop (k.length % turn + 1), ?_, List.drop_suffix _ _,
      List.drop_append_of_le_length hbehind⟩
    rw [List.length_drop]
    rw [turn] at hnear hbehind ⊢
    rw [room] at *
    omega
  · exact .inl rfl
  · have hmod := Nat.mod_le k.length turn
    exact .inr ⟨k, by omega, List.suffix_refl k, rfl⟩

/-- The values of the map have no `&` in them. -/
def NoAmp (kv : List (List UInt8 × List UInt8)) : Prop :=
  ∀ k v, kv.lookup k = some v → 38 ∉ v

/-- Its keys are keys of segments whose ends were found. -/
def ShortKeys (kv : List (List UInt8 × List UInt8)) : Prop :=
  ∀ k v, kv.lookup k = some v → k.length < room

/-- What is found after a segment was entered: its value, or what was found before. -/
theorem lookup_enter_cases {kv : List (List UInt8 × List UInt8)} {seg k v : List UInt8}
    (h : (enter kv seg).lookup k = some v) : Carries seg k v ∨ kv.lookup k = some v := by
  by_cases hk : ∃ w, Carries seg k w
  · obtain ⟨w, hw⟩ := hk
    rw [lookup_enter hw] at h
    exact .inl (Option.some.inj h ▸ hw)
  · push Not at hk
    rw [lookup_enter_other hk] at h
    exact .inr h

theorem NoAmp.enter {kv : List (List UInt8 × List UInt8)} (h : NoAmp kv) {seg : List UInt8}
    (hseg : 38 ∉ seg) : NoAmp (enter kv seg) := by
  intro k v hv
  rcases lookup_enter_cases hv with hcarries | hold
  · rw [hcarries.1] at hseg
    exact fun hamp => hseg (by simp [hamp])
  · exact h k v hold

theorem NoAmp.keyValues {kv : List (List UInt8 × List UInt8)} (h : NoAmp kv)
    {segs : List (List UInt8)} (hsegs : ∀ seg ∈ segs, 38 ∉ seg) : NoAmp (keyValues segs kv) := by
  induction segs generalizing kv with
  | nil => exact h
  | cons seg segs ih =>
    obtain ⟨hseg, hsegs⟩ := List.forall_mem_cons.mp hsegs
    exact ih (h.enter hseg) hsegs

theorem ShortKeys.enter {kv : List (List UInt8 × List UInt8)} (h : ShortKeys kv)
    {seg : List UInt8} (hseg : seg.length < room) : ShortKeys (enter kv seg) := by
  intro k v hv
  rcases lookup_enter_cases hv with hcarries | hold
  · have := hcarries.length
    omega
  · exact h k v hold

/-- **The rest must say nothing**: the value that `get_kv` would take from it has the `&` behind
the long segment in it, and no value should have one. -/
theorem far_iff {k v : List UInt8} (h0 : 0 ∉ k ++ 38 :: v) (hlen : room ≤ k.length)
    (hlt : (k ++ 38 :: v).length < huge) {kv : List (List UInt8 × List UInt8)} (hkv : NoAmp kv)
    (kv₁ : List (List UInt8 × List UInt8)) :
    (∃ kv', getKv kv₁ (restOf k (k ++ 38 :: v)) 61 = some kv' ∧
        Agree kv' (keyValues ((k ++ 38 :: v).splitOn 38) kv)) ↔
      find (restOf k (k ++ 38 :: v)) 61 = -1 ∧
        Agree kv₁ (keyValues ((k ++ 38 :: v).splitOn 38) kv) := by
  have htrue : NoAmp (keyValues ((k ++ 38 :: v).splitOn 38) kv) := by
    refine hkv.keyValues fun seg hseg hamp => ?_
    exact ((exists_mem_splitOn_iff _).mp ⟨seg, hseg, hamp⟩).2 rfl
  refine ⟨?_, fun h => ⟨kv₁, ?_, h.2⟩⟩
  · rintro ⟨kv', hget, hagree⟩
    rcases restOf_cases (v := v) hlen with hnil | ⟨k', hlong, hsuffix, hrest⟩
    · rw [hnil, getKv_none List.not_mem_nil] at hget
      obtain rfl := Option.some.inj hget
      rw [hnil]
      exact ⟨find_none List.not_mem_nil, hagree⟩
    · have hshort : (k' ++ 38 :: v).length < huge := by
        have hle := hsuffix.length_le
        rw [List.length_append] at hlt ⊢
        omega
      rw [hrest] at hget ⊢
      rcases getKv_cases hshort hget with ⟨hfind, rfl⟩ | ⟨r, hr, rfl⟩
      · exact ⟨hfind, hagree⟩
      · have htake : (k' ++ 38 :: v).take r = k'.take r :=
          List.take_append_of_le_length (by omega)
        have hkey0 : 0 ∉ (k' ++ 38 :: v).take r := by
          rw [htake]
          exact fun hzero =>
            h0 (List.mem_append_left _ (hsuffix.subset (List.mem_of_mem_take hzero)))
        have hvalue := hagree ⟨(k' ++ 38 :: v).take r, hkey0⟩
        rw [lookup_setKv, if_pos rfl] at hvalue
        refine absurd ?_ (htrue _ _ hvalue.symm)
        rw [List.drop_append_of_le_length (by omega)]
        simp
  · rw [getKv, if_neg (not_not.mpr (sizeT_eq_npos_iff.mpr h.1))]

/-- A last segment is entered as it should be exactly if its key fits: no other segment has given
a value to a key that is so long. -/
theorem last_iff {seg : List UInt8} (h0 : 0 ∉ seg) (hlt : seg.length < huge)
    {kv : List (List UInt8 × List UInt8)} (hkv : ShortKeys kv) :
    (∃ kv', getKv kv seg 61 = some kv' ∧ Agree kv' (enter kv seg)) ↔ KeyFits seg := by
  refine ⟨?_, fun hfits => ⟨enter kv seg, getKv_eq hfits kv, fun _ => rfl⟩⟩
  rintro ⟨kv', hget, hagree⟩ key value hcarries
  by_contra hlong
  have hkey0 : 0 ∉ key := by
    intro hzero
    rw [hcarries.1] at h0
    exact h0 (List.mem_append_left _ hzero)
  have hvalue := hagree ⟨key, hkey0⟩
  rw [lookup_enter hcarries] at hvalue
  rcases getKv_cases hlt hget with ⟨-, rfl⟩ | ⟨r, hr, rfl⟩
  · exact hlong (hkv key value hvalue)
  · have hne : key ≠ seg.take r := by
      intro heq
      have hle := List.length_take_le r seg
      rw [← heq] at hle
      omega
    rw [lookup_setKv, if_neg hne] at hvalue
    exact hlong (hkv key value hvalue)

/-- **The pieces of a form say the same as its segments exactly if the loop recovers them.** -/
theorem foldlM_agree_iff {s : List UInt8} (h0 : 0 ∉ s) (hlt : s.length < huge)
    {kv : List (List UInt8 × List UInt8)} (hamp : NoAmp kv) (hshort : ShortKeys kv) :
    (∃ kv', (splitString s 38).foldlM (fun kv piece => getKv kv piece 61) kv = some kv' ∧
        Agree kv' (keyValues (s.splitOn 38) kv)) ↔
      Recovers kv (s.splitOn 38) := by
  induction s using segments_induct 38 generalizing kv with
  | last s hs =>
    rw [splitString_none hs, List.splitOn_eq_singleton hs, Recovers, ← last_iff h0 hlt hshort]
    simp [keyValues]
  | cons k v hk ih =>
    have hv0 : 0 ∉ v := fun hzero => h0 (by simp [hzero])
    have hvlt : v.length < huge := by
      rw [List.length_append, List.length_cons] at hlt
      omega
    rw [recovers_append hk]
    rcases Nat.lt_or_ge k.length room with hlen | hlen
    · -- the end is found: on with the rest
      rw [splitString_near hk hlen, List.foldlM_cons, getKv_eq (keyFits_of_length hlen.le),
        splitOn_append hk, keyValues_cons]
      simpa [hlen, hlen.not_ge] using ih hv0 hvlt (hamp.enter hk) (hshort.enter hlen)
    · rw [foldlM_far hk hlen hlt, far_iff h0 hlen hlt hamp]
      simp [hlen, hlen.not_gt]

/-! ### Below 2^32 - 1 bytes -/

/-- In a text of less than 2^32 - 1 bytes no position comes out as -1. -/
theorem find_eq_neg_one_iff {str : List UInt8} {sep : UInt8} (h : str.length < 4294967295) :
    find str sep = -1 ↔ sep ∉ str := by
  refine ⟨fun hfind hmem => ?_, find_none⟩
  obtain ⟨k, v, rfl, hk⟩ := List.eq_append_cons_of_mem hmem
  rw [List.length_append] at h
  rw [find_append hk, ofNat_eq_neg_one_iff, turn] at hfind
  omega

/-- There the condition is a simpler one: a long segment is cut off whole or not at all. -/
theorem recovers_iff_decodable {s : List UInt8} (hlt : s.length < 4294967295)
    (kv : List (List UInt8 × List UInt8)) :
    Recovers kv (s.splitOn 38) ↔ Decodable kv (s.splitOn 38) := by
  induction s using segments_induct 38 generalizing kv with
  | last s hs => rw [List.splitOn_eq_singleton hs, Recovers, Decodable]
  | cons k v hk ih =>
    have hne : v.splitOn 38 ≠ [] := List.splitOnP_ne_nil _ _
    have hsum := hlt
    rw [List.length_append, List.length_cons] at hsum
    have hmod : k.length % turn = k.length := Nat.mod_eq_of_lt (by rw [turn]; omega)
    have hdecodable := decodable_cons hne k kv
    rw [← splitOn_append hk] at hdecodable
    rw [recovers_append hk, hdecodable]
    rcases Nat.lt_trichotomy k.length room with hlen | hlen | hlen
    · simpa [hlen, hlen.ne, hlen.not_gt, hlen.not_ge] using ih (by omega) (enter kv k)
    · have hcut : cutOf k = k := by
        rw [cutOf, hmod, if_pos hlen.le, List.take_length]
      have hrest : restOf k (k ++ 38 :: v) = [] := by
        rw [restOf, hmod, if_neg hlen.not_lt, if_pos hlen]
      rw [hcut, hrest, splitOn_append hk, keyValues_cons]
      simp [hlen, find_none]
    · have hcut : cutOf k = [] := by rw [cutOf, hmod, if_neg hlen.not_ge]
      have hrest : restOf k (k ++ 38 :: v) = k ++ 38 :: v := by
        rw [restOf, hmod, if_neg hlen.not_gt, if_neg hlen.ne']
      have hsilent : find (k ++ 38 :: v) 61 = -1 ↔ ∀ x ∈ (k ++ 38 :: v).splitOn 38, 61 ∉ x := by
        have hiff : (∃ x ∈ (k ++ 38 :: v).splitOn 38, 61 ∈ x) ↔ _ := exists_mem_splitOn_iff _
        rw [find_eq_neg_one_iff hlt, ← not_iff_not, not_not]
        push Not
        rw [hiff]
        exact (and_iff_left (by decide)).symm
      rw [hcut, hrest, enter_none List.not_mem_nil, hsilent]
      refine ⟨fun h => ⟨fun hnear => absurd hnear hlen.not_gt, fun hedge => absurd hedge hlen.ne',
        fun _ => (h.2 hlen.le).1⟩, fun h => ⟨fun hnear => absurd hnear hlen.not_gt, fun _ => ?_⟩⟩
      have hall := h.2.2 hlen
      refine ⟨hall, fun key => ?_⟩
      rw [keyValues_none hall]

/-- **Form data**, for every NUL-free text: when the positions fit, however long it is, it is
decoded as it should be; among the texts below 2^32 - 1 bytes exactly the decodable ones are; and
at any length that a text can have, exactly those that the loop recovers. -/
theorem parseContent_decodes_iff {s : List UInt8} (h0 : 0 ∉ s) :
    (Fits s → ∀ jreq, Decoded s jreq) ∧
      (s.length < 4294967295 → ((∀ jreq, Decoded s jreq) ↔ Decodable [] (s.splitOn 38))) ∧
      (s.length < huge → ((∀ jreq, Decoded s jreq) ↔ Recovers [] (s.splitOn 38))) := by
  have hexact : s.length < huge → ((∀ jreq, Decoded s jreq) ↔ Recovers [] (s.splitOn 38)) := by
    intro hlt
    have hnil : ∀ k v, ¬ ([] : List (List UInt8 × List UInt8)).lookup k = some v := by
      intro k v hv
      rw [List.lookup_nil] at hv
      cases hv
    refine (decoded_iff_agree h0).trans (foldlM_agree_iff h0 hlt ?_ ?_)
    · exact fun k v hv => absurd hv (hnil k v)
    · exact fun k v hv => absurd hv (hnil k v)
  refine ⟨fun hfits => ?_, fun hlt => ?_, hexact⟩
  · exact (decoded_iff_agree h0).mpr ⟨_, foldlM_splitString hfits, fun _ => rfl⟩
  · have hhuge : s.length < huge := by
      rw [huge]
      omega
    exact (hexact hhuge).trans (recovers_iff_decodable hlt [])

/-- The form `a=1&a=2`. -/
def twice : List UInt8 := [97, 61, 49, 38, 97, 61, 50]

/-- A segment that is too long for its end to be found, and an empty one: it does not fit, but
there is nothing to be decoded. -/
theorem decodable_long {n : ℕ} (hn : room < n) (hlt : n < 4294967294) :
    0 ∉ List.replicate n (97 : UInt8) ++ [38] ∧
      (List.replicate n (97 : UInt8) ++ [38]).length < 4294967295 ∧
      ¬ Fits (List.replicate n 97 ++ [38]) ∧
      Decodable [] ((List.replicate n (97 : UInt8) ++ [38]).splitOn 38) := by
  have hamp : 38 ∉ List.replicate n (97 : UInt8) := by simp
  have hsplit : (List.replicate n (97 : UInt8) ++ [38]).splitOn 38 =
      [List.replicate n 97, []] := splitOn_append hamp []
  have hlen : (List.replicate n (97 : UInt8)).length = n := List.length_replicate
  refine ⟨by simp, ?_, fun hfits => ?_, ?_⟩
  · rw [List.length_append, hlen, List.length_singleton]
    omega
  · rw [Fits, hsplit] at hfits
    have hshort := hfits.1 (List.replicate n 97) List.mem_cons_self
    rw [hlen] at hshort
    omega
  · rw [hsplit, Decodable, hlen]
    refine ⟨fun h => ?_, fun h => ?_, fun _ => by simp⟩ <;> omega

/-- However long it is, there is nothing to be lost. -/
theorem recovers_long {n : ℕ} (hn : room ≤ n) (hlt : n + 1 < huge) :
    0 ∉ List.replicate n (97 : UInt8) ++ [38] ∧
      (List.replicate n (97 : UInt8) ++ [38]).length < huge ∧
      Recovers [] ((List.replicate n (97 : UInt8) ++ [38]).splitOn 38) := by
  have hamp : 38 ∉ List.replicate n (97 : UInt8) := by simp
  have hlen : (List.replicate n (97 : UInt8)).length = n := List.length_replicate
  have hcut : 61 ∉ cutOf (List.replicate n 97) := by
    rw [cutOf]
    split_ifs
    · exact fun h => absurd (List.mem_of_mem_take h) (by simp)
    · exact List.not_mem_nil
  have hrest : 61 ∉ restOf (List.replicate n 97) (List.replicate n 97 ++ [38]) := by
    rw [restOf]
    split_ifs
    · exact fun h => absurd (List.mem_of_mem_drop h) (by simp)
    · exact List.not_mem_nil
    · simp
  refine ⟨by simp, by simpa using hlt, (recovers_append hamp [] []).mpr ⟨fun h => ?_, fun _ => ?_⟩⟩
  · rw [hlen] at h
    omega
  · refine ⟨find_none hrest, fun key => ?_⟩
    rw [enter_none hcut, splitOn_append hamp]
    refine congrArg (List.lookup key.val) (keyValues_none ?_ []).symm
    simp

/-- The last value counts; and a long segment without a key does no harm, also where its end comes
out as -1. -/
theorem parseContent_decodes_long :
    (0 ∉ twice ∧ ∀ jreq, Decoded twice jreq) ∧
      (¬ Fits (List.replicate 2147483648 97 ++ [38]) ∧
        ∀ jreq, Decoded (List.replicate 2147483648 97 ++ [38]) jreq) ∧
      ∀ jreq, Decoded (List.replicate 4294967295 97 ++ [38]) jreq := by
  have htwice : 0 ∉ twice := by decide
  have hfits : Fits twice := fits_of_length (by decide)
  have hlong := decodable_long (n := 2147483648) (by decide) (by decide)
  have hround := recovers_long (n := 4294967295) (by decide) (by decide)
  -- the texts are not to be written out
  generalize List.replicate 2147483648 (97 : UInt8) ++ [38] = s at hlong ⊢
  generalize List.replicate 4294967295 (97 : UInt8) ++ [38] = t at hround ⊢
  obtain ⟨h0, hlt, hnot, hdecodable⟩ := hlong
  obtain ⟨ht0, htlt, hrecovers⟩ := hround
  exact ⟨⟨htwice, (parseContent_decodes_iff htwice).1 hfits⟩,
    ⟨hnot, ((parseContent_decodes_iff h0).2.1 hlt).mpr hdecodable⟩,
    ((parseContent_decodes_iff ht0).2.2 htlt).mpr hrecovers⟩

/-- A key whose end is too far. -/
theorem parseContent_far {n : ℕ} (hn : room ≤ n) (hlt : n < 4294967293) :
    0 ∉ List.replicate n (97 : UInt8) ++ [61, 98] ∧
      parseContent .postMethod (List.replicate n 97 ++ [61, 98]) [] = none := by
  have hkey : 61 ∉ List.replicate n (97 : UInt8) := by simp
  have hamp : 38 ∉ List.replicate n (97 : UInt8) ++ [61, 98] := by simp
  have hlen : (List.replicate n (97 : UInt8)).length = n := List.length_replicate
  have hcarries : Carries (List.replicate n 97 ++ [61, 98]) (List.replicate n 97) [98] :=
    ⟨rfl, hkey⟩
  have hall : (List.replicate n (97 : UInt8) ++ [61, 98]).length < huge := by
    rw [hcarries.length, hlen, List.length_singleton, huge]
    omega
  have hmod : (List.replicate n (97 : UInt8)).length % turn = n := by
    rw [hlen, turn]
    omega
  have hnone := getKv_far hcarries (hmod.symm ▸ hn) (by omega) hall []
  refine ⟨by simp, ?_⟩
  rw [parseContent_post, splitString_none hamp, List.foldlM_cons, hnone]
  rfl

/-- **A key of 2^31 bytes**: its position comes out negative, and `substr` throws. -/
theorem parseContent_throws_on_long_key :
    0 ∉ List.replicate 2147483648 (97 : UInt8) ++ [61, 98] ∧
      parseContent .postMethod (List.replicate 2147483648 97 ++ [61, 98]) [] = none := by
  exact parseContent_far (by decide) (by decide)

end Form

end MyServer.Http
