import MyServer.ReaderStandard
import MyServer.FuncHandler

/-!
# Written and read by jsoncpp

What `toStyledString` writes of a value, as it is or tightened, is read by `Json::Reader` as
the value again, with its members in order and its numbers in the kind the reader gives
them. The kinds are those of the standard reader (`reread`) but for one thing: the
reader stops counting digits one short of what 32 bits hold, so that an integer within ten of
either end comes back as a `double` (`demote`). A value is read back by the rules of JSON
just when it has no such integer (`demote_eq_self_iff`).

Of `sprintf` and `sscanf` it is assumed that a `double` is written with a point and in less than
32 bytes, that what is read of it is some `round` of it, and that integers of 32 bits are read as
they are (`DoubleText`). The reader itself needs less (`NumberText`): whatever writes a `double`,
the text has to be short and a number. So it also reads what another library has written.
-/

namespace MyServer

namespace Reader

/-! ## Integers that come back as `double`s -/

mutual

/-- The value with the integers next to the ends of 32 bits as `double`s. -/
def demote : Json → Json
  | .null => .null
  | .int n => if -2147483640 < n.toInt then .int n else .real n.toInt
  | .uint n => if n.toNat < 4294967290 then .uint n else .real n.toNat
  | .real q => .real q
  | .str s => .str s
  | .bool b => .bool b
  | .arr xs => .arr (demoteItems xs)
  | .obj ms => .obj (demoteMembers ms)

/-- `demote` on the elements of an array. -/
def demoteItems : List Json → List Json
  | [] => []
  | x :: xs => demote x :: demoteItems xs

/-- `demote` on the members of an object. -/
def demoteMembers : List (CString × Json) → List (CString × Json)
  | [] => []
  | (k, v) :: ms => (k, demote v) :: demoteMembers ms

end

mutual

/-- No integer stands within ten of the ends of 32 bits. -/
def Roomy : Json → Prop
  | .int n => -2147483640 < n.toInt
  | .uint n => n.toNat < 4294967290
  | .arr xs => RoomyItems xs
  | .obj ms => RoomyMembers ms
  | .null | .real _ | .str _ | .bool _ => True

/-- `Roomy` of the elements of an array. -/
def RoomyItems : List Json → Prop
  | [] => True
  | x :: xs => Roomy x ∧ RoomyItems xs

/-- `Roomy` of the members of an object. -/
def RoomyMembers : List (CString × Json) → Prop
  | [] => True
  | (_, v) :: ms => Roomy v ∧ RoomyMembers ms

end

mutual

/-- **A value is kept just when it is roomy.** -/
theorem demote_eq_self_iff : ∀ v : Json, demote v = v ↔ Roomy v
  | .null | .real _ | .str _ | .bool _ => ⟨fun _ => trivial, fun _ => rfl⟩
  | .int n => by
    rw [demote, Roomy]
    split_ifs with h <;> simp [h]
  | .uint n => by
    rw [demote, Roomy]
    split_ifs with h <;> simp [h]
  | .arr xs => by
    rw [demote, Roomy, Json.arr.injEq]
    exact demoteItems_eq_self_iff xs
  | .obj ms => by
    rw [demote, Roomy, Json.obj.injEq]
    exact demoteMembers_eq_self_iff ms

theorem demoteItems_eq_self_iff : ∀ xs : List Json, demoteItems xs = xs ↔ RoomyItems xs
  | [] => ⟨fun _ => trivial, fun _ => rfl⟩
  | x :: xs => by
    rw [demoteItems, RoomyItems, List.cons.injEq, demote_eq_self_iff x,
      demoteItems_eq_self_iff xs]

theorem demoteMembers_eq_self_iff : ∀ ms : List (CString × Json),
    demoteMembers ms = ms ↔ RoomyMembers ms
  | [] => ⟨fun _ => trivial, fun _ => rfl⟩
  | (k, v) :: ms => by
    rw [demoteMembers, RoomyMembers, List.cons.injEq, Prod.mk.injEq, demote_eq_self_iff v,
      demoteMembers_eq_self_iff ms]
    simp

end

theorem demoteMembers_eq (ms : List (CString × Json)) :
    demoteMembers ms = Json.mapValues demote ms := by
  induction ms with
  | nil => rfl
  | cons m ms ih =>
    obtain ⟨k, v⟩ := m
    rw [demoteMembers, ih, Json.mapValues_cons]

/-- Members are demoted one by one, also when they are put in order. -/
theorem demote_obj (ms : List (CString × Json)) :
    demote (.obj (Json.insertAll ms [])) = .obj (Json.insertAll (demoteMembers ms) []) := by
  rw [demote, demoteMembers_eq, demoteMembers_eq, Json.mapValues_insertAll]
  rfl

mutual

/-- A `double` in place of an integer is the same number. -/
theorem normal_demote : ∀ v : Json, (demote v).normal = v.normal
  | .null | .real _ | .str _ | .bool _ => rfl
  | .int n => by
    rw [demote]
    split_ifs
    · rfl
    · rw [Json.normal, Json.normal]
  | .uint n => by
    rw [demote]
    split_ifs
    · rfl
    · rw [Json.normal, Json.normal]
  | .arr xs => by rw [demote, Json.normal, Json.normal, normalItems_demoteItems xs]
  | .obj ms => by rw [demote, Json.normal, Json.normal, normalMembers_demoteMembers ms]

theorem normalItems_demoteItems : ∀ xs : List Json,
    Json.normalItems (demoteItems xs) = Json.normalItems xs
  | [] => rfl
  | x :: xs => by
    rw [demoteItems, Json.normalItems, Json.normalItems, normal_demote x,
      normalItems_demoteItems xs]

theorem normalMembers_demoteMembers : ∀ ms : List (CString × Json),
    Json.normalMembers (demoteMembers ms) = Json.normalMembers ms
  | [] => rfl
  | (k, v) :: ms => by
    rw [demoteMembers, Json.normalMembers, Json.normalMembers, normal_demote v,
      normalMembers_demoteMembers ms]

end

/-! ## Numbers -/

/-- What is assumed of the texts of numbers by whoever reads them: `realText` may be that of
another library, and `num` says what number is read of it. -/
structure NumberText (scan : List UInt8 → Option ℚ) (realText : ℚ → List UInt8)
    (num : ℚ → Json) : Prop where
  /-- a `double` is written as a number -/
  number : ∀ q, Number (realText q)
  /-- which fits the array of `decodeDouble` -/
  short : ∀ q, (realText q).length < 32
  /-- this is read of it -/
  value : ∀ q, standardNumber scan (realText q) = some (num q)
  /-- an integer among these is none next to the ends of 32 bits -/
  kept : ∀ q, demote (num q) = num q
  /-- an `int` is scanned as it is -/
  int : ∀ n : Int32, scan (Json.intToString n) = some (n.toInt : ℚ)
  /-- and so is an `unsigned int` -/
  uint : ∀ n : UInt32, scan (Json.uintToString n) = some (n.toNat : ℚ)

/-- What is assumed of the texts of numbers that jsoncpp writes. -/
structure DoubleText (scan : List UInt8 → Option ℚ) (realText : ℚ → List UInt8)
    (round : ℚ → ℚ) : Prop where
  /-- a `double` is written as a number -/
  number : ∀ q, Number (realText q)
  /-- with a point -/
  point : ∀ q, 46 ∈ realText q
  /-- in the buffer of `valueToString` -/
  short : ∀ q, (realText q).length < 32
  /-- this is read of it -/
  real : ∀ q, scan (realText q) = some (round q)
  /-- an `int` is read as it is -/
  int : ∀ n : Int32, scan (Json.intToString n) = some (n.toInt : ℚ)
  /-- and so is an `unsigned int` -/
  uint : ∀ n : UInt32, scan (Json.uintToString n) = some (n.toNat : ℚ)

theorem number_of_digits {n : ℕ} {ds : List UInt8} (h : Json.Digits n ds) :
    Number ds ∧ Number (45 :: ds) ∧ integral ds = some (n : ℤ) ∧
      integral (45 :: ds) = some (-(n : ℤ)) := by
  have hdigit : ∀ c : UInt8, Json.isDigit c = true → isNumberChar c = true ∧ c ≠ 45 :=
    Json.forall_byte (by decide +kernel)
  have hall : ∀ c ∈ ds, isNumberChar c = true := fun c hc => (hdigit c (h.digit c hc)).1
  have hdigits : ds.all Json.isDigit = true := List.all_eq_true.mpr h.digit
  obtain ⟨c, s, rfl⟩ := List.exists_cons_of_ne_nil h.ne_nil
  have hc := h.digit c (List.mem_cons_self ..)
  have hplus : ¬ peek (c :: s) = 45 := (hdigit c hc).2
  have hminus : peek (45 :: c :: s) = 45 := rfl
  refine ⟨⟨c, s, rfl, .inl hc, hall⟩, ⟨45, c :: s, rfl, .inr rfl, ?_⟩, ?_, ?_⟩
  · exact List.forall_mem_cons.mpr ⟨by decide, hall⟩
  · simp only [integral, hplus, decide_false, Bool.false_eq_true, if_false, hdigits, if_true,
      h.value_eq]
  · simp only [integral, hminus, decide_true, if_true, List.tail_cons, hdigits, h.value_eq]

/-- The text of an `int` is a sign and digits. -/
theorem intToString_cases (n : Int32) :
    Number (Json.intToString n) ∧ integral (Json.intToString n) = some n.toInt := by
  have hcond := Json.toInt_eq_toUInt32 n
  have hlt := n.toUInt32.toNat_lt
  rw [Json.intToString]
  split_ifs with hneg
  · rw [Int32.lt_iff_toInt_lt, Int32.toInt_zero] at hneg
    have hnat : ((-n).toUInt32.toNat : ℤ) = -n.toInt := by
      have hneg32 : (-n).toUInt32.toNat = (2 ^ 32 - n.toUInt32.toNat) % 2 ^ 32 :=
        BitVec.toNat_neg n.toBitVec
      split_ifs at hcond <;> omega
    obtain ⟨-, hnumber, -, hvalue⟩ := number_of_digits (Json.uintToString_digits (-n).toUInt32)
    rw [hnat, Int.neg_neg] at hvalue
    exact ⟨hnumber, hvalue⟩
  · rw [Int32.lt_iff_toInt_lt, Int32.toInt_zero] at hneg
    have hnat : (n.toUInt32.toNat : ℤ) = n.toInt := by
      split_ifs at hcond <;> omega
    obtain ⟨hnumber, -, hvalue, -⟩ := number_of_digits (Json.uintToString_digits n.toUInt32)
    rw [hnat] at hvalue
    exact ⟨hnumber, hvalue⟩

/-- A round of `uintToString` adds one digit. -/
theorem length_uintLoop (k value : ℕ) (current : List UInt8) :
    (Json.uintLoop k value current).length ≤ k + current.length := by
  induction k generalizing value current with
  | zero => exact Nat.le_add_left ..
  | succ k ih =>
    have hround := ih (value / 10) (.ofNat (value % 10 + 48) :: current)
    rw [Json.uintLoop]
    split_ifs
    · exact hround.trans (by rw [List.length_cons]; omega)
    · rw [List.length_cons]
      omega

theorem length_uintToString (n : UInt32) : (Json.uintToString n).length < 32 :=
  Nat.lt_of_le_of_lt (length_uintLoop 10 _ []) (by decide)

theorem length_intToString (n : Int32) : (Json.intToString n).length < 32 := by
  have hlt : ∀ n, (Json.uintToString n).length ≤ 10 := fun n => length_uintLoop 10 _ []
  rw [Json.intToString]
  split_ifs
  · exact Nat.lt_of_le_of_lt (Nat.succ_le_succ (hlt _)) (by decide)
  · exact length_uintToString _

variable {scan : List UInt8 → Option ℚ} {realText : ℚ → List UInt8} {num : ℚ → Json}
  {round : ℚ → ℚ}

theorem standardNumber_int {n : Int32} (hscan : scan (Json.intToString n) = some (n.toInt : ℚ)) :
    standardNumber scan (Json.intToString n) = some (demote (.int n)) := by
  have hlt := n.toInt_lt
  rw [standardNumber, (intToString_cases n).2,
    scanned_eq ((length_intToString n).trans (by decide)), hscan, demote]
  simp only
  by_cases hroom : -2147483640 < n.toInt
  · rw [if_pos ⟨hroom, by omega⟩, if_pos hroom, Json.ofInteger, if_pos ⟨by omega, hlt⟩,
      Int32.ofInt_toInt]
  · rw [if_neg (fun h => hroom h.1), if_neg hroom]
    rfl

theorem demote_demote_int (n : Int32) : demote (demote (.int n)) = demote (.int n) := by
  by_cases hroom : -2147483640 < n.toInt
  · rw [demote, if_pos hroom, demote, if_pos hroom]
  · rw [demote, if_neg hroom, demote]

theorem demote_ofInteger (n : UInt32) :
    demote (Json.ofInteger n.toNat) =
      if n.toNat < 4294967290 then Json.ofInteger n.toNat else .real n.toNat := by
  have hlt := n.toNat_lt
  by_cases hsmall : n.toNat < 2 ^ 31
  · have hroom : -2147483640 < (Int32.ofInt n.toNat).toInt := by
      rw [Int32.toInt_ofInt_of_le (by omega) (by omega)]
      omega
    rw [Json.ofInteger, if_pos (by omega), demote, if_pos hroom, if_pos (by omega)]
  · rw [Json.ofInteger, if_neg (by omega), if_pos (by omega), Int.toNat_natCast,
      UInt32.ofNat_toNat, demote]

theorem NumberText.standardNumber_uint (N : NumberText scan realText num) (n : UInt32) :
    standardNumber scan (Json.uintToString n) = some (demote (Json.ofInteger n.toNat)) := by
  obtain ⟨-, -, hvalue, -⟩ := number_of_digits (Json.uintToString_digits n)
  rw [standardNumber, hvalue, scanned_eq ((length_uintToString n).trans (by decide)), N.uint,
    demote_ofInteger]
  simp only
  by_cases hroom : n.toNat < 4294967290
  · rw [if_pos ⟨by omega, by omega⟩, if_pos hroom]
  · rw [if_neg (fun h => hroom (by omega)), if_neg hroom]
    rfl

/-- With a point it is no integer. -/
theorem integral_eq_none {text : List UInt8} (h : Number text) (hpoint : 46 ∈ text) :
    integral text = none := by
  refine if_neg fun hall => absurd (List.all_eq_true.mp hall 46 ?_) (by decide)
  split_ifs with hsign
  -- the point is not the sign
  · obtain ⟨c, s, rfl, -, -⟩ := h
    have hc : c = 45 := of_decide_eq_true hsign
    rw [hc, List.mem_cons] at hpoint
    exact hpoint.resolve_left (by decide)
  · exact hpoint

/-- With its point the text of a `double` is read as one. -/
theorem DoubleText.numberText (D : DoubleText scan realText round) :
    NumberText scan realText fun q => .real (round q) where
  number := D.number
  short := D.short
  value q := by
    rw [standardNumber, integral_eq_none (D.number q) (D.point q),
      scanned_eq ((D.short q).trans (by decide)), D.real]
    rfl
  kept _ := rfl
  int := D.int
  uint := D.uint

/-! ## Strings -/

/-- An escaped character is part of a literal. -/
theorem literal_escapeChar (c : UInt8) {raw : List UInt8} (hraw : Json.Literal raw) :
    Json.Literal (Json.escapeChar c ++ raw) := by
  by_cases hletter : c ∈ [34, 92, 8, 12, 10, 13, 9]
  · obtain ⟨e, -, hback, heq⟩ := Json.escapeChar_letter hletter
    rw [heq]
    exact .escape (by rw [hback]; rfl) hraw
  rw [Json.escapeChar_other hletter]
  split_ifs with hcontrol
  · have hhex : ∀ n < 16, (Json.hexValue (Json.hexDigit n)).isSome = true := by decide
    have hlt := UInt8.toNat_lt c
    exact .unicode (by decide) (by decide) (hhex _ (by omega)) (hhex _ (by omega)) hraw
  · simp only [List.mem_cons, not_or] at hletter
    exact .plain hletter.1 hletter.2.1 hraw

theorem literal_escape (s : List UInt8) : Json.Literal (Json.escape s) := by
  induction s with
  | nil => exact .nil
  | cons c s ih =>
    rw [Json.escape, List.flatMap_cons]
    exact literal_escapeChar c ih

/-- **A written string is decoded to itself.** -/
theorem decodeRaw_escape (s : CString) :
    ∃ t, decodeRaw (Json.escape s.val) = .ok t ∧ cString t = s :=
  decodeRaw_of_readString (literal_escape s.val) (Json.readString_escape s [])

/-! ## Layouts -/

theorem spaced_append {ts us : List Json.Token} {s t : List UInt8} (hs : Json.Spaced ts s)
    (ht : Json.Spaced us t) : Json.Spaced (ts ++ us) (s ++ t) := by
  induction hs with
  | nil => exact ht
  | space hc _ ih => exact .space hc ih
  | token x _ ih =>
    rw [List.append_assoc]
    exact .token x ih

theorem spaced_breaks {w : List UInt8} (hw : Breaks w) : Json.Spaced [] w := by
  induction w with
  | nil => exact .nil
  | cons c w ih =>
    obtain ⟨hc, hw⟩ := List.forall_mem_cons.mp hw
    refine .space ?_ (ih hw)
    rcases hc with rfl | rfl <;> decide

/-- A token between white space. -/
theorem spaced_token {w s : List UInt8} {ts : List Json.Token} (hw : Breaks w) (x : Json.Token)
    (hs : Json.Spaced ts s) : Json.Spaced (x :: ts) (w ++ (x.text ++ s)) :=
  spaced_append (spaced_breaks hw) (.token x hs)

theorem spaced_single (x : Json.Token) : Json.Spaced [x] x.text := by
  have h := Json.Spaced.token x .nil
  rwa [List.append_nil] at h

/-- What is said with the tokens of a part of a text. -/
def Shows (scan : List UInt8 → Option ℚ) (num : ℚ → Json) (ts : List Json.Token) :
    Json.Part → Prop
  | .value v => Says scan (.value (demote (Json.reread num v))) ts
  | .items xs => Says scan (.elements (demoteItems (Json.rereadItems num xs))) ts
  | .members ms => ∀ acc closable,
      Says scan (.members closable acc
        (Json.insertAll (demoteMembers (Json.rereadMembers num ms)) acc)) ts

/-- A short number is a token with a meaning. -/
theorem means_short {text : List UInt8} {v : Json} (hnumber : Number text)
    (hshort : text.length < 32) (hv : standardNumber scan text = some v) :
    Means scan (.word text) v :=
  .number hnumber (Nat.ne_of_lt hshort) (hshort.trans (by decide)) hv

theorem NumberText.shows_scalar (N : NumberText scan realText num) {v : Json}
    (hv : Json.Scalar v) :
    ∃ ts, Json.Spaced ts (Json.scalarText realText v) ∧ Shows scan num ts (.value v) := by
  cases v with
  | null => exact ⟨_, spaced_single (.word _), .scalar .nullName⟩
  | int n =>
    exact ⟨_, spaced_single (.word _), .scalar
      (means_short (intToString_cases n).1 (length_intToString n) (standardNumber_int (N.int n)))⟩
  | uint n =>
    have hnumber := (number_of_digits (Json.uintToString_digits n)).1
    exact ⟨_, spaced_single (.word _),
      .scalar (means_short hnumber (length_uintToString n) (N.standardNumber_uint n))⟩
  | real q =>
    refine ⟨_, spaced_single (.word _), ?_⟩
    rw [Shows, Json.reread, N.kept]
    exact .scalar (means_short (N.number q) (N.short q) (N.value q))
  | str s =>
    obtain ⟨t, hdecode, rfl⟩ := decodeRaw_escape s
    exact ⟨_, spaced_single (.literal _), .scalar (.string (literal_escape _) hdecode)⟩
  | bool b =>
    cases b with
    | true => exact ⟨_, spaced_single (.word _), .scalar .trueName⟩
    | false => exact ⟨_, spaced_single (.word _), .scalar .falseName⟩
  | arr xs =>
    obtain rfl : xs = [] := hv
    exact ⟨_, .token (.punct 91) (spaced_single (.punct 93)), .emptyArray⟩
  | obj ms =>
    obtain rfl : ms = [] := hv
    exact ⟨_, .token (.punct 123) (spaced_single (.punct 125)), .emptyObject⟩

/-- **A layout of a value says it.** -/
theorem NumberText.shows (N : NumberText scan realText num) {p : Json.Part} {t : List UInt8}
    (h : Json.Lays realText p t) : ∃ ts, Json.Spaced ts t ∧ Shows scan num ts p := by
  induction h with
  | scalar hv => exact N.shows_scalar hv
  | arr _ ih =>
    obtain ⟨ts, hspaced, hts⟩ := ih
    exact ⟨_, .token (.punct 91) hspaced, .array hts⟩
  | obj _ ih =>
    obtain ⟨ts, hspaced, hts⟩ := ih
    refine ⟨_, .token (.punct 123) hspaced, ?_⟩
    rw [Shows, Json.reread, demote_obj]
    exact .object (hts [] true)
  | lastItem h₁ h₂ _ ih =>
    obtain ⟨ts, hspaced, hts⟩ := ih
    exact ⟨_, spaced_append (spaced_append (spaced_breaks h₁) hspaced)
      (spaced_token h₂ (.punct 93) .nil), .lastElement hts⟩
  | item h₁ h₂ _ _ ih ihs =>
    obtain ⟨ts, hspaced, hts⟩ := ih
    obtain ⟨us, hspaced', hus⟩ := ihs
    exact ⟨_, spaced_append (spaced_append (spaced_breaks h₁) hspaced)
      (spaced_token h₂ (.punct 44) hspaced'), .element hts hus⟩
  | @lastMember w₁ w₂ w₃ w₄ t k v h₁ h₂ h₃ h₄ _ ih =>
    obtain ⟨ts, hspaced, hts⟩ := ih
    obtain ⟨s, hdecode, hk⟩ := decodeRaw_escape k
    refine ⟨_, spaced_token h₁ (.literal (Json.escape k.val)) (spaced_token h₂ (.punct 58)
      (spaced_append (spaced_append (spaced_breaks h₃) hspaced)
        (spaced_token h₄ (.punct 125) .nil))), fun acc closable => ?_⟩
    have hsays := @Says.lastMember scan closable _ s _ acc ts (literal_escape k.val) hdecode hts
    rw [hk] at hsays
    exact hsays
  | @member w₁ w₂ w₃ w₄ t u k v ms h₁ h₂ h₃ h₄ _ _ ih ihs =>
    obtain ⟨ts, hspaced, hts⟩ := ih
    obtain ⟨us, hspaced', hus⟩ := ihs
    obtain ⟨s, hdecode, hk⟩ := decodeRaw_escape k
    refine ⟨_, spaced_token h₁ (.literal (Json.escape k.val)) (spaced_token h₂ (.punct 58)
      (spaced_append (spaced_append (spaced_breaks h₃) hspaced)
        (spaced_token h₄ (.punct 44) hspaced'))), fun acc closable => ?_⟩
    refine .member (literal_escape k.val) hdecode hts ?_
    rw [hk]
    exact hus _ _

/-! ## Whole numbers -/

/-- A `sscanf` that stops at the point. -/
def wholeScan (text : List UInt8) : Option ℚ :=
  (integral (text.takeWhile (· ≠ 46))).map fun z => z

theorem wholeScan_eq {text : List UInt8} {z : ℤ} (hnumber : Number text)
    (h : integral text = some z) :
    wholeScan text = some (z : ℚ) ∧ wholeScan (text ++ [46, 48]) = some (z : ℚ) := by
  have hpoint : ∀ c ∈ text, decide (c ≠ 46) = true := by
    intro c hc
    refine decide_eq_true ?_
    rintro rfl
    rw [integral_eq_none hnumber hc] at h
    exact absurd h (by simp)
  have htake : (text ++ [46, 48]).takeWhile (· ≠ 46) = text := by
    rw [List.takeWhile_append_of_pos hpoint]
    exact List.append_nil text
  rw [wholeScan, wholeScan, htake, List.takeWhile_eq_self_iff.mpr hpoint, h]
  exact ⟨rfl, rfl⟩

theorem exists_wholeText (q : ℚ) :
    ∃ text, Json.wholeText q = text ++ [46, 48] ∧ Number text ∧ text.length ≤ 11 ∧
      integral text = some (Json.whole q) := by
  have hlen := length_uintLoop 10 (Json.whole q).natAbs []
  obtain ⟨hplus, hminus, hvalue, hneg⟩ := number_of_digits (Json.whole_digits q)
  rw [List.length_nil, Nat.add_zero] at hlen
  rw [Json.wholeText]
  generalize Json.uintLoop 10 (Json.whole q).natAbs [] = ds at *
  split_ifs with hsign
  · refine ⟨45 :: ds, rfl, hminus, Nat.succ_le_succ hlen, ?_⟩
    rw [hneg, show -((Json.whole q).natAbs : ℤ) = Json.whole q by omega]
  · refine ⟨ds, rfl, hplus, hlen.trans (by decide), ?_⟩
    rw [hvalue, show ((Json.whole q).natAbs : ℤ) = Json.whole q by omega]

/-- They meet the assumptions. -/
theorem doubleText_whole : DoubleText wholeScan Json.wholeText fun q => Json.whole q where
  number q := by
    obtain ⟨text, heq, ⟨c, s, rfl, hc, hall⟩, -⟩ := exists_wholeText q
    rw [heq]
    exact ⟨c, s ++ [46, 48], rfl, hc, List.forall_mem_append.mpr ⟨hall, by decide⟩⟩
  point q := by
    obtain ⟨text, heq, -⟩ := exists_wholeText q
    simp [heq]
  short q := by
    obtain ⟨text, heq, -, hlen, -⟩ := exists_wholeText q
    rw [heq, List.length_append]
    exact Nat.lt_of_le_of_lt (Nat.add_le_add_right hlen 2) (by decide)
  real q := by
    obtain ⟨text, heq, hnumber, -, hvalue⟩ := exists_wholeText q
    rw [heq]
    exact (wholeScan_eq hnumber hvalue).2
  int n := (wholeScan_eq (intToString_cases n).1 (intToString_cases n).2).1
  uint n := by
    obtain ⟨hnumber, -, hvalue, -⟩ := number_of_digits (Json.uintToString_digits n)
    have hscan := (wholeScan_eq hnumber hvalue).1
    rwa [Int.cast_natCast] at hscan

/-! ## Round trips -/

/-- The repository's JSON library. -/
def jsoncpp (scan : List UInt8 → Option ℚ) (realText : ℚ → List UInt8) : JsonLib where
  parse s :=
    match parse .all scan s .null with
    | some ⟨true, v, _⟩ => some v
    | _ => none
  toStyledString := Json.toStyledString realText

/-- What is accepted without an overrun is what `parse` gives. -/
theorem jsoncpp_parse {s : List UInt8} {v : Json}
    (h : ∃ r, parse .all scan s .null = some ⟨true, v, r⟩ ∧ r.overrun = false) :
    (jsoncpp scan realText).parse s = some v := by
  obtain ⟨r, h, -⟩ := h
  simp only [jsoncpp, h]

/-- A layout, with white space around it, is read as its value. -/
theorem NumberText.parse_lays (N : NumberText scan realText num) {v : Json}
    {w w' t : List UInt8} (hw : Breaks w) (hw' : Breaks w')
    (ht : Json.Lays realText (.value v) t) :
    ∃ r, parse .all scan (w ++ t ++ w') .null = some ⟨true, demote (Json.reread num v), r⟩ ∧
      r.overrun = false := by
  obtain ⟨ts, hspaced, hts⟩ := N.shows ht
  refine Says.parse hts ?_ .null
  have h := spaced_append (spaced_append (spaced_breaks hw) hspaced) (spaced_breaks hw')
  rwa [List.nil_append, List.append_nil] at h

/-- **A written value is read**, whoever has written its numbers. -/
theorem NumberText.parse_styled (N : NumberText scan realText num) (v : Json) :
    ∃ r, parse .all scan (Json.toStyledString realText v) .null =
        some ⟨true, demote (Json.reread num v), r⟩ ∧ r.overrun = false := by
  obtain ⟨w, t, hw, ht, heq⟩ := Json.lays_writeValue realText v [] 0
  rw [Json.toStyledString, heq, List.nil_append]
  exact N.parse_lays hw breaks_break ht

theorem NumberText.quiet (N : NumberText scan realText num) (q : ℚ) : Quiet (realText q) := by
  have hchar : ∀ c : UInt8, isNumberChar c = true → isBlank c = false ∧ c ≠ 34 :=
    Json.forall_byte (by decide +kernel)
  obtain ⟨-, -, -, -, hall⟩ := N.number q
  exact fun c hc => hchar c (hall c hc)

/-- **A written value is read when it was tightened**, as the squeezed value. -/
theorem NumberText.parse_tighten (N : NumberText scan realText num) (v : Json) :
    ∃ r, parse .all scan (tighten (Json.toStyledString realText v)) .null =
        some ⟨true, demote (Json.reread num (Json.squeezeJson false v)), r⟩ ∧
      r.overrun = false := by
  obtain ⟨w, t, w', hw, hw', ht, heq⟩ := Json.lays_tighten_toStyledString N.quiet v
  rw [heq]
  exact N.parse_lays hw hw' ht

/-- **Written and read**: a value comes back as JSON has it, but for integers next to the ends of
32 bits. -/
theorem jsoncpp_roundtrip (D : DoubleText scan realText round) (v : Json) :
    (jsoncpp scan realText).parse ((jsoncpp scan realText).toStyledString v) =
        some (demote (Json.reread (fun q => .real (round q)) v)) ∧
      (demote (Json.reread (fun q => .real (round q)) v) =
          Json.reread (fun q => .real (round q)) v ↔
        Roomy (Json.reread (fun q => .real (round q)) v)) :=
  ⟨jsoncpp_parse (D.numberText.parse_styled v), demote_eq_self_iff _⟩

/-- The smallest `int` comes back as a `double`. -/
theorem jsoncpp_roundtrip_smallest :
    DoubleText wholeScan Json.wholeText (fun q => Json.whole q) ∧
      (jsoncpp wholeScan Json.wholeText).parse
          ((jsoncpp wholeScan Json.wholeText).toStyledString (.int (-2147483648))) =
        some (demote (.int (-2147483648))) ∧
      (demote (.int (-2147483648)) = .int (-2147483648) ↔ Roomy (.int (-2147483648))) :=
  ⟨doubleText_whole, jsoncpp_roundtrip doubleText_whole (.int (-2147483648))⟩

end Reader

end MyServer
