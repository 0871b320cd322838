import MyServer.JsonWriter
import Mathlib.Data.Int.Order.Basic

/-!
# Reading standard JSON

`read` is a reader for standard JSON texts, with integers kept as `int` or `uint` where
they fit. It stands for `mongo::fromjson`, which reads the objects that the servers write in the
same way and takes more besides: results name what they assume of that function, and `read` meets
it. The reader of the JSON library is another one, with a model from its source.

The recursion is on fuel; `read` gives one unit more than the text has bytes. The lemmas
say what the reader makes of the pieces the writer produces: escaped strings
(`readChars_escape`), numbers (`readUnsigned_digits`) and the members of an object
(`ReadsMembers.step`, `ReadsMembers.last`).
-/

namespace MyServer

namespace Json

/-! ## The reader -/

/-- White space between tokens. -/
def isWs (c : UInt8) : Bool := c = 32 || c = 9 || c = 10 || c = 13

/-- Drop white space. -/
def skipWs (s : List UInt8) : List UInt8 := s.dropWhile isWs

/-- The text after the token `c`, if that comes next. -/
def expect (c : UInt8) (s : List UInt8) : Option (List UInt8) :=
  match skipWs s with
  | [] => none
  | d :: s => if d = c then some s else none

/-- The value of a hexadecimal digit. -/
def hexValue (c : UInt8) : Option ℕ :=
  if 48 ≤ c ∧ c ≤ 57 then some (c.toNat - 48)
  else if 65 ≤ c ∧ c ≤ 70 then some (c.toNat - 55)
  else if 97 ≤ c ∧ c ≤ 102 then some (c.toNat - 87)
  else none

/-- The value of four hexadecimal digits. -/
def hex4 (a b c d : UInt8) : Option ℕ := do
  return ((← hexValue a) * 16 + (← hexValue b)) * 256 + (← hexValue c) * 16 + (← hexValue d)

/-- The UTF-8 encoding of a code point. -/
def utf8 (n : ℕ) : List UInt8 :=
  if n < 0x80 then [.ofNat n]
  else if n < 0x800 then [.ofNat (0xC0 + n / 64), .ofNat (0x80 + n % 64)]
  else if n < 0x10000 then
    [.ofNat (0xE0 + n / 4096), .ofNat (0x80 + n / 64 % 64), .ofNat (0x80 + n % 64)]
  else
    [.ofNat (0xF0 + n / 262144), .ofNat (0x80 + n / 4096 % 64), .ofNat (0x80 + n / 64 % 64),
      .ofNat (0x80 + n % 64)]

/-- The character of a one-letter escape. -/
def unescape (c : UInt8) : Option UInt8 :=
  if c = 34 ∨ c = 92 ∨ c = 47 then some c
  else if c = 98 then some 8
  else if c = 102 then some 12
  else if c = 110 then some 10
  else if c = 114 then some 13
  else if c = 116 then some 9
  else none

/-- Put characters in front of what was read. -/
def prepend (cs : List UInt8) (r : Option (List UInt8 × List UInt8)) :
    Option (List UInt8 × List UInt8) := r.map fun p => (cs ++ p.1, p.2)

/-- The characters of a string up to its closing quote, and the rest. A code point above
`0xFFFF` comes as two escapes. -/
def readChars : List UInt8 → Option (List UInt8 × List UInt8)
  | [] => none
  | ch :: s =>
    if ch = 34 then some ([], s)
    else if ch = 92 then
      match s with
      | [] => none
      | e :: s =>
        if e = 117 then
          match s with
          | a :: b :: c :: d :: s =>
            match hex4 a b c d with
            | none => none
            | some n =>
              if 0xD800 ≤ n ∧ n < 0xDC00 then
                match s with
                | x :: y :: a :: b :: c :: d :: s =>
                  match hex4 a b c d with
                  | none => none
                  | some m =>
                    if x = 92 ∧ y = 117 ∧ 0xDC00 ≤ m ∧ m < 0xE000 then
                      prepend (utf8 (0x10000 + (n - 0xD800) * 1024 + (m - 0xDC00))) (readChars s)
                    else none
                | _ => none
              else if 0xDC00 ≤ n ∧ n < 0xE000 then none
              else prepend (utf8 n) (readChars s)
          | _ => none
        else
          match unescape e with
          | none => none
          | some ch => prepend [ch] (readChars s)
    else if ch < 32 then none
    else prepend [ch] (readChars s)

/-- A string after its opening quote. A NUL cannot be stored. -/
def readString (s : List UInt8) : Option (CString × List UInt8) :=
  match readChars s with
  | none => none
  | some (cs, s) => if h : 0 ∉ cs then some (⟨cs, h⟩, s) else none

/-- A decimal digit. -/
def isDigit (c : UInt8) : Bool := 48 ≤ c && c ≤ 57

/-- The value of a run of digits. -/
def digitsValue (ds : List UInt8) : ℕ := ds.foldl (fun n c => n * 10 + (c.toNat - 48)) 0

/-- The digits of a fraction, after its point; `none` when there is no fraction. -/
def readFraction : List UInt8 → Option (List UInt8) × List UInt8
  | [] => (none, [])
  | c :: s => if c = 46 then (some (s.takeWhile isDigit), s.dropWhile isDigit) else (none, c :: s)

/-- Drop a sign; true when it was a minus. -/
def readSign : List UInt8 → Bool × List UInt8
  | [] => (false, [])
  | c :: s => if c = 45 then (true, s) else if c = 43 then (false, s) else (false, c :: s)

/-- The exponent; `none` when there is none. -/
def readExponent : List UInt8 → Option ℤ × List UInt8
  | [] => (none, [])
  | c :: s =>
    if c = 101 ∨ c = 69 then
      let (negative, s) := readSign s
      let value : ℤ := digitsValue (s.takeWhile isDigit)
      (some (if negative then -value else value), s.dropWhile isDigit)
    else (none, c :: s)

/-- An integer, in the narrowest kind that holds it. -/
def ofInteger (z : ℤ) : Json :=
  if -2 ^ 31 ≤ z ∧ z < 2 ^ 31 then int (.ofInt z)
  else if 0 ≤ z ∧ z < 2 ^ 32 then uint (.ofNat z.toNat)
  else real z

/-- A number without its sign: no superfluous leading zero, and digits where there must
be some. -/
def readUnsigned (negative : Bool) (s : List UInt8) : Option (Json × List UInt8) :=
  let ds := s.takeWhile isDigit
  let s := s.dropWhile isDigit
  if ds.isEmpty || (ds.head? = some 48 && 1 < ds.length) then none
  else
    let (fraction, s) := readFraction s
    let (exponent, s) := readExponent s
    let sign : ℤ := if negative then -1 else 1
    match fraction, exponent with
    | none, none => some (ofInteger (sign * digitsValue ds), s)
    | fraction, exponent =>
      let fs := fraction.getD []
      if fraction = some [] then none
      else
        let mantissa : ℚ := (sign * digitsValue (ds ++ fs) : ℤ)
        let scale := exponent.getD 0 - fs.length
        some (real (if 0 ≤ scale then mantissa * 10 ^ scale.toNat
          else mantissa / 10 ^ (-scale).toNat), s)

/-- A number. -/
def readNumber : List UInt8 → Option (Json × List UInt8)
  | [] => none
  | c :: s => if c = 45 then readUnsigned true s else readUnsigned false (c :: s)

/-- The literals. -/
def readLiteral (s : List UInt8) : Option (Json × List UInt8) :=
  if [110, 117, 108, 108] <+: s then some (null, s.drop 4)
  else if [116, 114, 117, 101] <+: s then some (bool true, s.drop 4)
  else if [102, 97, 108, 115, 101] <+: s then some (bool false, s.drop 5)
  else none

mutual

/-- One value, and the rest. -/
def readValue : ℕ → List UInt8 → Option (Json × List UInt8)
  | 0, _ => none
  | n + 1, s =>
    match skipWs s with
    | [] => none
    | c :: s =>
      if c = 34 then (readString s).map fun p => (str p.1, p.2)
      else if c = 123 then
        match expect 125 s with
        | some s => some (obj [], s)
        | none => (readMembers n [] s).map fun p => (obj p.1, p.2)
      else if c = 91 then
        match expect 93 s with
        | some s => some (arr [], s)
        | none => (readItems n s).map fun p => (arr p.1, p.2)
      else if isDigit c || c = 45 then readNumber (c :: s)
      else readLiteral (c :: s)

/-- The members of an object, up to its closing brace. A later member of the same name
replaces an earlier one. -/
def readMembers : ℕ → List (CString × Json) → List UInt8 →
    Option (List (CString × Json) × List UInt8)
  | 0, _, _ => none
  | n + 1, ms, s =>
    match expect 34 s with
    | none => none
    | some s =>
      match readString s with
      | none => none
      | some (key, s) =>
        match expect 58 s with
        | none => none
        | some s =>
          match readValue n s with
          | none => none
          | some (v, s) =>
            match expect 44 s with
            | some s => readMembers n (insertMember key v ms) s
            | none => (expect 125 s).map fun s => (insertMember key v ms, s)

/-- The elements of an array, up to its closing bracket. -/
def readItems : ℕ → List UInt8 → Option (List Json × List UInt8)
  | 0, _ => none
  | n + 1, s =>
    match readValue n s with
    | none => none
    | some (v, s) =>
      match expect 44 s with
      | some s => (readItems n s).map fun p => (v :: p.1, p.2)
      | none => (expect 93 s).map fun s => ([v], s)

end

/-- A whole text: one value, with white space around it. -/
def read (s : List UInt8) : Option Json :=
  match readValue (s.length + 1) s with
  | some (v, rest) => if (skipWs rest).isEmpty then some v else none
  | none => none

/-! ## Strings -/

/-- A fact about bytes may be checked on the 256 numbers. -/
theorem forall_byte {P : UInt8 → Prop} (h : ∀ n < 256, P (.ofNat n)) (c : UInt8) : P c := by
  have hc := h c.toNat c.toNat_lt
  rwa [UInt8.ofNat_toNat] at hc

/-- The escape of a control character, digit by digit. -/
theorem hex4_control {c : UInt8} (hc : c < 32) :
    hex4 48 48 (hexDigit (c.toNat / 16)) (hexDigit (c.toNat % 16)) = some c.toNat := by
  have h : ∀ n < 32, hex4 48 48 (hexDigit (n / 16)) (hexDigit (n % 16)) = some n := by decide
  exact h c.toNat (UInt8.lt_iff_toNat_lt.mp hc)

/-- A control character is one byte in UTF-8. -/
theorem utf8_ascii {c : UInt8} (hc : c < 32) : utf8 c.toNat = [c] := by
  have hlt : c.toNat < 32 := UInt8.lt_iff_toNat_lt.mp hc
  rw [utf8, if_pos (by omega), UInt8.ofNat_toNat]

/-- An escape of one letter. -/
theorem readChars_letter {e c : UInt8} (he : e ≠ 117) (hc : unescape e = some c)
    (t : List UInt8) : readChars (92 :: e :: t) = prepend [c] (readChars t) := by
  rw [readChars.eq_def]
  simp only [show ¬ (92 : UInt8) = 34 by decide, if_false, if_true, he, hc]

/-- The characters the writer escapes with one letter, which the reader takes back. -/
theorem escapeChar_letter {c : UInt8} (h : c ∈ [34, 92, 8, 12, 10, 13, 9]) :
    ∃ e, e ≠ 117 ∧ unescape e = some c ∧ escapeChar c = [92, e] := by
  have hall : ∀ c ∈ ([34, 92, 8, 12, 10, 13, 9] : List UInt8),
      ∃ e ∈ ([34, 92, 98, 102, 110, 114, 116] : List UInt8),
        e ≠ 117 ∧ unescape e = some c ∧ escapeChar c = [92, e] := by decide
  obtain ⟨e, -, he⟩ := hall c h
  exact ⟨e, he⟩

/-- The other bytes: a control character is written as `\u00XX`, and the rest as they are. -/
theorem escapeChar_other {c : UInt8} (h : c ∉ [34, 92, 8, 12, 10, 13, 9]) :
    escapeChar c =
      if isControlCharacter c then
        [92, 117, 48, 48, hexDigit (c.toNat / 16), hexDigit (c.toNat % 16)]
      else [c] := by
  simp only [List.mem_cons, List.not_mem_nil, or_false, not_or] at h
  obtain ⟨h1, h2, h3, h4, h5, h6, h7⟩ := h
  rw [escapeChar, if_neg h1, if_neg h2, if_neg h3, if_neg h4, if_neg h5, if_neg h6, if_neg h7]

/-- The 0 byte does not occur in a C string, and the writer does not count it. -/
theorem isControlCharacter_iff {c : UInt8} (hc : c ≠ 0) : isControlCharacter c = true ↔ c < 32 := by
  rw [isControlCharacter, Bool.and_eq_true, decide_eq_true_eq, decide_eq_true_eq]
  refine ⟨fun h => ?_, fun h => ⟨UInt8.pos_iff_ne_zero.mpr hc, ?_⟩⟩
  · exact UInt8.lt_iff_toNat_lt.mpr (Nat.lt_succ_of_le (UInt8.le_iff_toNat_le.mp h.2))
  · exact UInt8.le_iff_toNat_le.mpr (Nat.le_of_lt_succ (UInt8.lt_iff_toNat_lt.mp h))

/-- The reader takes an escaped character for the character. -/
theorem readChars_escapeChar {c : UInt8} (hc : c ≠ 0) (t : List UInt8) :
    readChars (escapeChar c ++ t) = prepend [c] (readChars t) := by
  by_cases hletter : c ∈ [34, 92, 8, 12, 10, 13, 9]
  · obtain ⟨e, he, hback, heq⟩ := escapeChar_letter hletter
    rw [heq]
    exact readChars_letter he hback t
  rw [escapeChar_other hletter]
  split
  -- a control character: four digits, which stand for no surrogate
  · rename_i hcontrol
    have hlt := (isControlCharacter_iff hc).mp hcontrol
    have hnat : c.toNat < 32 := UInt8.lt_iff_toNat_lt.mp hlt
    simp only [List.cons_append, List.nil_append, readChars, hex4_control hlt, utf8_ascii hlt]
    rw [if_neg (by decide), if_pos trivial, if_pos trivial, if_neg (by omega), if_neg (by omega)]
  -- any other character stands for itself
  · rename_i hcontrol
    have hge : ¬ c < 32 := fun h => hcontrol ((isControlCharacter_iff hc).mpr h)
    simp only [List.mem_cons, not_or] at hletter
    obtain ⟨hquote, hslash, -⟩ := hletter
    rw [readChars.eq_def]
    simp only [List.singleton_append, hquote, hslash, hge, if_false]

/-- **An escaped string reads back as it was.** -/
theorem readChars_escape {s : List UInt8} (hs : 0 ∉ s) (rest : List UInt8) :
    readChars (escape s ++ 34 :: rest) = some (s, rest) := by
  induction s with
  | nil => rw [readChars.eq_def]; simp [escape]
  | cons c s ih =>
    rw [List.mem_cons, not_or] at hs
    rw [escape, List.flatMap_cons, List.append_assoc, readChars_escapeChar (Ne.symm hs.1),
      ← escape, ih hs.2]
    rfl

/-- **What the writer escapes, the reader takes back**, whatever comes behind the closing quote. -/
theorem readString_escape (s : CString) (rest : List UInt8) :
    readString (escape s.val ++ 34 :: rest) = some (s, rest) := by
  rw [readString, readChars_escape s.property]
  exact dif_pos s.property

/-! ## Numbers -/

/-- The digits of a number as the writer puts them: no leading zero, except for zero. -/
structure Digits (value : ℕ) (ds : List UInt8) : Prop where
  /-- only digits -/
  digit : ∀ c ∈ ds, isDigit c = true
  /-- they stand for the number -/
  value_eq : digitsValue ds = value
  /-- there are some -/
  ne_nil : ds ≠ []
  /-- no leading zero -/
  head_ne : value ≠ 0 → ds.head? ≠ some 48
  /-- zero is one digit -/
  zero : value = 0 → ds.length = 1

theorem digits_single {d : ℕ} (hd : d < 10) : Digits d [.ofNat (d + 48)] := by
  have h : ∀ d < 10, isDigit (.ofNat (d + 48)) = true ∧ digitsValue [.ofNat (d + 48)] = d ∧
      (d ≠ 0 → UInt8.ofNat (d + 48) ≠ 48) := by decide
  obtain ⟨hdigit, hvalue, hne⟩ := h d hd
  refine ⟨fun c hc => ?_, hvalue, List.cons_ne_nil _ _, fun h0 heq => ?_, fun _ => rfl⟩
  · rwa [List.mem_singleton.mp hc]
  · exact hne h0 (Option.some.inj heq)

/-- One more digit at the end. The value before it must not be 0: a number has no leading zeros. -/
theorem Digits.snoc {value d : ℕ} {ds : List UInt8} (h : Digits value ds) (hpos : value ≠ 0)
    (hd : d < 10) : Digits (value * 10 + d) (ds ++ [.ofNat (d + 48)]) := by
  have hlast := digits_single hd
  have hvalue : (UInt8.ofNat (d + 48)).toNat - 48 = d := by
    have := hlast.value_eq
    rw [digitsValue, List.foldl_cons, List.foldl_nil] at this
    omega
  refine ⟨fun c hc => ?_, ?_, by simp, fun _ => ?_, fun h0 => by omega⟩
  · rcases List.mem_append.mp hc with hc | hc
    · exact h.digit c hc
    · exact hlast.digit c hc
  · rw [digitsValue, List.foldl_append, ← digitsValue, h.value_eq, List.foldl_cons,
      List.foldl_nil, hvalue]
  · rw [List.head?_append_of_ne_nil _ h.ne_nil]
    exact h.head_ne hpos

/-- The loop of the writer puts the digits of the number in front of what is there. -/
theorem uintLoop_digits {k value : ℕ} (current : List UInt8) (hk : value < 10 ^ k) (hpos : 0 < k) :
    ∃ ds, uintLoop k value current = ds ++ current ∧ Digits value ds := by
  induction k generalizing value current with
  | zero => exact absurd hpos (Nat.lt_irrefl 0)
  | succ k ih =>
    simp only [uintLoop]
    split_ifs with hrest
    · have hlt : value / 10 < 10 ^ k := by
        rw [Nat.pow_succ] at hk
        omega
      have hk0 : 0 < k := by
        rcases Nat.eq_zero_or_pos k with rfl | hk0
        · rw [Nat.pow_zero] at hlt
          omega
        · exact hk0
      obtain ⟨ds, hds, hdigits⟩ := ih (.ofNat (value % 10 + 48) :: current) hlt hk0
      refine ⟨ds ++ [.ofNat (value % 10 + 48)], by rw [hds, List.append_assoc]; rfl, ?_⟩
      have := hdigits.snoc hrest (Nat.mod_lt value (by decide))
      rwa [show value / 10 * 10 + value % 10 = value by omega] at this
    · refine ⟨[.ofNat (value % 10 + 48)], rfl, ?_⟩
      have := digits_single (d := value % 10) (Nat.mod_lt value (by decide))
      rwa [show value % 10 = value by omega] at this ⊢

/-- Ten turns of the loop are enough for 32 bits. -/
theorem uintToString_digits (value : UInt32) : Digits value.toNat (uintToString value) := by
  have hlt : value.toNat < 10 ^ 10 := Nat.lt_trans value.toNat_lt (by decide)
  obtain ⟨ds, hds, hdigits⟩ := uintLoop_digits [] hlt (by decide)
  rw [uintToString, hds, List.append_nil]
  exact hdigits

/-- A 32-bit number is read as an `int` where that holds it, and as a `uint` otherwise. -/
theorem ofInteger_toNat (n : UInt32) :
    ofInteger n.toNat = int (.ofInt n.toNat) ∨ ofInteger n.toNat = uint n := by
  have hlt := n.toNat_lt
  by_cases hsmall : n.toNat < 2 ^ 31
  · exact .inl (by rw [ofInteger, if_pos (by omega)])
  · refine .inr ?_
    rw [ofInteger, if_neg (by omega), if_pos (by omega), Int.toNat_natCast, UInt32.ofNat_toNat]

/-- What may follow a number: nothing that would belong to it. -/
def Stop (rest : List UInt8) : Prop :=
  ∀ c ∈ rest.head?, isDigit c = false ∧ c ≠ 46 ∧ c ≠ 101 ∧ c ≠ 69

/-- The digits end where the number does. -/
theorem Digits.span {value : ℕ} {ds rest : List UInt8} (h : Digits value ds)
    (hrest : ∀ c ∈ rest.head?, isDigit c = false) :
    (ds ++ rest).takeWhile isDigit = ds ∧ (ds ++ rest).dropWhile isDigit = rest := by
  rw [List.takeWhile_append_of_pos h.digit, List.dropWhile_append_of_pos h.digit]
  cases rest with
  | nil => exact ⟨List.append_nil ds, rfl⟩
  | cons c rest =>
    have hc := hrest c rfl
    rw [List.takeWhile_cons_of_neg (by rw [hc]; decide),
      List.dropWhile_cons_of_neg (by rw [hc]; decide)]
    exact ⟨List.append_nil ds, rfl⟩

/-- No superfluous zero. -/
theorem Digits.leading {value : ℕ} {ds : List UInt8} (h : Digits value ds) :
    (ds.isEmpty || (decide (ds.head? = some 48) && decide (1 < ds.length))) = false := by
  rw [Bool.or_eq_false_iff, Bool.and_eq_false_iff, decide_eq_false_iff_not,
    decide_eq_false_iff_not, List.isEmpty_eq_false_iff]
  refine ⟨h.ne_nil, ?_⟩
  by_cases h0 : value = 0
  · exact .inr (by rw [h.zero h0]; decide)
  · exact .inl (h.head_ne h0)

theorem readExponent_stop {rest : List UInt8} (hrest : Stop rest) :
    readExponent rest = (none, rest) := by
  cases rest with
  | nil => rfl
  | cons c rest => rw [readExponent, if_neg (not_or.mpr (hrest c rfl).2.2)]

/-- **The digits of a number read back as the number.** -/
theorem readUnsigned_digits {value : ℕ} {ds rest : List UInt8} (h : Digits value ds)
    (negative : Bool) (hrest : Stop rest) :
    readUnsigned negative (ds ++ rest) =
      some (ofInteger ((if negative then -1 else 1) * value), rest) := by
  obtain ⟨htake, hdrop⟩ := h.span fun c hc => (hrest c hc).1
  have hfraction : readFraction rest = (none, rest) := by
    cases rest with
    | nil => rfl
    | cons c rest => rw [readFraction, if_neg (hrest c rfl).2.1]
  rw [readUnsigned, htake, hdrop]
  simp only [h.leading, Bool.false_eq_true, if_false, hfraction, readExponent_stop hrest,
    h.value_eq]

/-- With `.0` behind them they read back as a `double`. -/
theorem readUnsigned_whole {value : ℕ} {ds rest : List UInt8} (h : Digits value ds)
    (negative : Bool) (hrest : Stop rest) :
    readUnsigned negative (ds ++ 46 :: 48 :: rest) =
      some (real (((if negative then -1 else 1) * value : ℤ) : ℚ), rest) := by
  have hpoint : ∀ c ∈ (46 :: 48 :: rest).head?, isDigit c = false := by
    intro c hc
    obtain rfl : 46 = c := Option.some.inj hc
    decide
  obtain ⟨htake, hdrop⟩ := h.span hpoint
  have hzero : (48 :: rest).takeWhile isDigit = [48] ∧ (48 :: rest).dropWhile isDigit = rest :=
    (digits_single (show 0 < 10 by decide)).span fun c hc => (hrest c hc).1
  have hvalue : digitsValue (ds ++ [48]) = value * 10 := by
    rw [digitsValue, List.foldl_append, ← digitsValue, h.value_eq]
    rfl
  rw [readUnsigned, htake, hdrop]
  simp only [h.leading, Bool.false_eq_true, if_false, readFraction, if_true, hzero,
    readExponent_stop hrest, Option.getD_some, Option.getD_none, hvalue]
  have hscale : ¬ (0 : ℤ) ≤ 0 - ([48] : List UInt8).length := by decide
  have hone : (-(0 - (([48] : List UInt8).length : ℤ))).toNat = 1 := by decide
  have hcancel : ∀ z : ℤ, ((z * (value * 10 : ℕ) : ℤ) : ℚ) / 10 ^ 1 = ((z * value : ℤ) : ℚ) := by
    intro z
    rw [Int.natCast_mul, ← Int.mul_assoc, Rat.intCast_mul, Rat.pow_one]
    exact Rat.mul_div_cancel (by decide)
  rw [if_neg (by decide), if_neg hscale, hone, hcancel]

/-! ## White space and tokens -/

/-- Only white space. -/
def Blank (w : List UInt8) : Prop := ∀ c ∈ w, isWs c = true

theorem blank_nil : Blank [] := fun _ hc => absurd hc List.not_mem_nil

theorem Blank.cons {c : UInt8} {w : List UInt8} (hc : isWs c = true) (hw : Blank w) :
    Blank (c :: w) := List.forall_mem_cons.mpr ⟨hc, hw⟩

theorem skipWs_append {w : List UInt8} (hw : Blank w) (s : List UInt8) :
    skipWs (w ++ s) = skipWs s := List.dropWhile_append_of_pos hw

theorem skipWs_cons {c : UInt8} (hc : isWs c = false) (s : List UInt8) :
    skipWs (c :: s) = c :: s := List.dropWhile_cons_of_neg (by rw [hc]; decide)

theorem expect_append {w : List UInt8} (hw : Blank w) (c : UInt8) (s : List UInt8) :
    expect c (w ++ s) = expect c s := by rw [expect, skipWs_append hw, ← expect]

theorem expect_self {c : UInt8} (hc : isWs c = false) (s : List UInt8) :
    expect c (c :: s) = some s := by rw [expect, skipWs_cons hc]; exact if_pos rfl

theorem expect_ne {c d : UInt8} (hd : isWs d = false) (hne : d ≠ c) (s : List UInt8) :
    expect c (d :: s) = none := by rw [expect, skipWs_cons hd]; exact if_neg hne

/-- The next token is one thing only. -/
theorem expect_none_of_some {c d : UInt8} {s t : List UInt8} (h : expect d s = some t)
    (hne : d ≠ c) : expect c s = none := by
  rw [expect] at h ⊢
  split at h
  · exact absurd h (Option.some_ne_none _).symm
  · split_ifs at h with hd
    exact if_neg (hd ▸ hne)

theorem stop_token {c : UInt8} (hc : isDigit c = false ∧ c ≠ 46 ∧ c ≠ 101 ∧ c ≠ 69)
    (s : List UInt8) : Stop (c :: s) := by
  intro d hd
  obtain rfl := Option.some.inj hd
  exact hc

/-- White space, or a token that ends a number, may follow one. -/
theorem stop_append {w s : List UInt8} (hw : Blank w) (hs : Stop s) : Stop (w ++ s) := by
  cases w with
  | nil => exact hs
  | cons c w =>
    have h : ∀ c : UInt8, isWs c = true → isDigit c = false ∧ c ≠ 46 ∧ c ≠ 101 ∧ c ≠ 69 := by
      intro c hc
      simp only [isWs, Bool.or_eq_true, decide_eq_true_eq] at hc
      rcases hc with ((rfl | rfl) | rfl) | rfl <;> decide
    exact stop_token (h c (hw c (List.mem_cons_self ..))) (w ++ s)

/-! ## Texts of values -/

/-- `t` is a text of the value `v`: whatever follows it, the reader takes `v` from it.
The fuel it needs is at most the length of the text. -/
def Reads (t : List UInt8) (v : Json) : Prop :=
  ∀ n rest, t.length ≤ n → Stop rest → readValue n (t ++ rest) = some (v, rest)

/-- `t` is a text of members, up to the closing brace, that turns `ms` into `ms'`. -/
def ReadsMembers (ms : List (CString × Json)) (t : List UInt8) (ms' : List (CString × Json)) :
    Prop :=
  ∀ n rest, t.length ≤ n → readMembers n ms (t ++ rest) = some (ms', rest)

/-- White space in front of a value is skipped. -/
theorem Reads.of_blank {w t : List UInt8} {v : Json} (hw : Blank w) (h : Reads t v) :
    Reads (w ++ t) v := by
  intro n rest hn hrest
  have hlen : t.length ≤ n := by rw [List.length_append] at hn; omega
  have ht := h n rest hlen hrest
  cases n with
  | zero => exact absurd ht (by simp [readValue])
  | succ n =>
    rw [readValue] at ht ⊢
    rwa [List.append_assoc, skipWs_append hw]

/-- A string literal is read as the string. -/
theorem reads_str (s : CString) : Reads (valueToQuotedString s) (str s) := by
  intro n rest hn _
  rw [valueToQuotedString, List.length_cons] at hn
  cases n with
  | zero => exact absurd hn (by omega)
  | succ n =>
    rw [valueToQuotedString, List.cons_append, readValue, skipWs_cons (by decide),
      List.append_assoc, List.singleton_append]
    simp only [if_true, readString_escape, Option.map_some]

/-- What opens with a digit or a minus goes to `readNumber`. -/
theorem readValue_number {c : UInt8} (hc : isDigit c = true ∨ c = 45) (n : ℕ) (s : List UInt8) :
    readValue (n + 1) (c :: s) = readNumber (c :: s) := by
  have hne : ∀ d : UInt8, isDigit d = false → d ≠ 45 → c ≠ d := by
    rintro d hd hminus rfl
    rcases hc with hc | hc
    · rw [hc] at hd
      exact Bool.noConfusion hd
    · exact hminus hc
  have hws : isWs c = false := by
    rw [isWs, Bool.or_eq_false_iff, Bool.or_eq_false_iff, Bool.or_eq_false_iff]
    refine ⟨⟨⟨?_, ?_⟩, ?_⟩, ?_⟩ <;> exact decide_eq_false (hne _ (by decide) (by decide))
  have hnumber : (isDigit c || decide (c = 45)) = true := by
    rw [Bool.or_eq_true, decide_eq_true_eq]
    exact hc
  rw [readValue, skipWs_cons hws]
  simp only [hne 34 (by decide) (by decide), hne 123 (by decide) (by decide),
    hne 91 (by decide) (by decide), if_false, hnumber, if_true]

/-- A number without a sign. -/
theorem reads_unsigned {t : List UInt8} {v : Json} (hdigit : ∃ c ∈ t.head?, isDigit c = true)
    (h : ∀ rest, Stop rest → readUnsigned false (t ++ rest) = some (v, rest)) : Reads t v := by
  intro n rest hn hrest
  obtain ⟨c, hhead, hc⟩ := hdigit
  obtain ⟨t, rfl⟩ := List.head?_eq_some_iff.mp hhead
  have hminus : c ≠ 45 := by
    rintro rfl
    exact absurd hc (by decide)
  cases n with
  | zero => exact absurd hn (by rw [List.length_cons]; omega)
  | succ n =>
    have hread := h rest hrest
    rw [List.cons_append] at hread ⊢
    rw [readValue_number (.inl hc), readNumber, if_neg hminus, hread]

/-- A number with a minus sign. -/
theorem reads_signed {t : List UInt8} {v : Json}
    (h : ∀ rest, Stop rest → readUnsigned true (t ++ rest) = some (v, rest)) :
    Reads (45 :: t) v := by
  intro n rest hn hrest
  cases n with
  | zero => exact absurd hn (by rw [List.length_cons]; omega)
  | succ n =>
    rw [List.cons_append, readValue_number (.inr rfl), readNumber, if_pos rfl, h rest hrest]

theorem Digits.head {value : ℕ} {ds : List UInt8} (h : Digits value ds) (t : List UInt8) :
    ∃ c ∈ (ds ++ t).head?, isDigit c = true := by
  obtain ⟨c, ds, rfl⟩ := List.exists_cons_of_ne_nil h.ne_nil
  exact ⟨c, rfl, h.digit c (List.mem_cons_self ..)⟩

/-- A run of digits is an integer if what follows is neither a digit nor the rest of a `double`. -/
theorem reads_digits {value : ℕ} {ds : List UInt8} (h : Digits value ds) :
    Reads ds (ofInteger value) := by
  have hhead := h.head []
  rw [List.append_nil] at hhead
  refine reads_unsigned hhead fun rest hrest => ?_
  rw [readUnsigned_digits h false hrest, if_neg Bool.false_ne_true, Int.one_mul]

/-- The same behind a minus sign. -/
theorem reads_minus {value : ℕ} {ds : List UInt8} (h : Digits value ds) :
    Reads (45 :: ds) (ofInteger (-value)) := by
  refine reads_signed fun rest hrest => ?_
  rw [readUnsigned_digits h true hrest, if_pos rfl, Int.neg_mul, Int.one_mul]

/-- A whole number with `.0` behind it reads as a `double`. -/
theorem reads_whole {value : ℕ} {ds : List UInt8} (h : Digits value ds) :
    Reads (ds ++ [46, 48]) (real (value : ℤ)) ∧
      Reads (45 :: (ds ++ [46, 48])) (real (-value : ℤ)) := by
  refine ⟨reads_unsigned (h.head _) fun rest hrest => ?_, reads_signed fun rest hrest => ?_⟩
  · rw [List.append_assoc]
    simpa using readUnsigned_whole h false hrest
  · rw [List.append_assoc]
    simpa using readUnsigned_whole h true hrest

theorem reads_uint (n : UInt32) : Reads (uintToString n) (ofInteger n.toNat) :=
  reads_digits (uintToString_digits n)

/-- The writer negates a negative `int` by its bits, as an `unsigned`; this is what they stand
for. -/
theorem toInt_eq_toUInt32 (n : Int32) :
    n.toInt = if 2 * n.toUInt32.toNat < 2 ^ 32 then (n.toUInt32.toNat : ℤ)
      else n.toUInt32.toNat - 2 ^ 32 := BitVec.toInt_eq_toNat_cond n.toBitVec

/-- An `int` of either sign reads back as it was. -/
theorem reads_int (n : Int32) : Reads (intToString n) (int n) := by
  have hof : ofInteger n.toInt = int n := by
    rw [ofInteger, if_pos ⟨n.le_toInt, n.toInt_lt⟩, Int32.ofInt_toInt]
  have hcond := toInt_eq_toUInt32 n
  have hlt := n.toUInt32.toNat_lt
  rw [← hof, intToString]
  split_ifs with hneg
  · rw [Int32.lt_iff_toInt_lt, Int32.toInt_zero] at hneg
    have hnat : ((-n).toUInt32.toNat : ℤ) = -n.toInt := by
      have hneg32 : (-n).toUInt32.toNat = (2 ^ 32 - n.toUInt32.toNat) % 2 ^ 32 :=
        BitVec.toNat_neg n.toBitVec
      split_ifs at hcond <;> omega
    have := reads_minus (uintToString_digits (-n).toUInt32)
    rwa [hnat, Int.neg_neg] at this
  · rw [Int32.lt_iff_toInt_lt, Int32.toInt_zero] at hneg
    have hnat : (n.toUInt32.toNat : ℤ) = n.toInt := by
      split_ifs at hcond <;> omega
    have := reads_uint n.toUInt32
    rwa [hnat] at this

/-- One member, then a comma or the brace: the part the two rules below share. -/
theorem readMembers_member {w₁ w₂ w₃ vt t : List UInt8} {k : CString} {v : Json} {c : UInt8}
    (h₁ : Blank w₁) (h₂ : Blank w₂) (h₃ : Blank w₃) (hv : Reads vt v) (hc : c = 44 ∨ c = 125)
    (ms : List (CString × Json)) {n : ℕ} (hn : vt.length ≤ n) :
    readMembers (n + 1) ms (w₁ ++ (valueToQuotedString k ++ (w₂ ++ 58 :: (vt ++ (w₃ ++ c :: t))))) =
      match expect 44 (c :: t) with
      | some s => readMembers n (insertMember k v ms) s
      | none => (expect 125 (c :: t)).map fun s => (insertMember k v ms, s) := by
  have hstop : Stop (w₃ ++ c :: t) := by
    refine stop_append h₃ (stop_token ?_ t)
    rcases hc with rfl | rfl <;> decide
  rw [readMembers, expect_append h₁, valueToQuotedString, List.cons_append,
    expect_self (by decide), List.append_assoc, List.singleton_append]
  simp only [readString_escape, expect_append h₂, expect_self (show isWs 58 = false by decide),
    hv n _ hn hstop, expect_append h₃]

/-- **Step**: a member and a comma. -/
theorem ReadsMembers.step {w₁ w₂ w₃ vt t : List UInt8} {k : CString} {v : Json}
    {ms ms' : List (CString × Json)} (h₁ : Blank w₁) (h₂ : Blank w₂) (h₃ : Blank w₃)
    (hv : Reads vt v) (ht : ReadsMembers (insertMember k v ms) t ms') :
    ReadsMembers ms (w₁ ++ (valueToQuotedString k ++ (w₂ ++ 58 :: (vt ++ (w₃ ++ 44 :: t)))))
      ms' := by
  intro n rest hn
  simp only [List.length_append, List.length_cons] at hn
  cases n with
  | zero => exact absurd hn (by omega)
  | succ n =>
    simp only [List.append_assoc, List.cons_append]
    rw [readMembers_member h₁ h₂ h₃ hv (.inl rfl) ms (by omega), expect_self (by decide)]
    exact ht n rest (by omega)

/-- **End**: a member and the brace. -/
theorem ReadsMembers.last {w₁ w₂ w₃ vt : List UInt8} {k : CString} {v : Json}
    {ms : List (CString × Json)} (h₁ : Blank w₁) (h₂ : Blank w₂) (h₃ : Blank w₃)
    (hv : Reads vt v) :
    ReadsMembers ms (w₁ ++ (valueToQuotedString k ++ (w₂ ++ 58 :: (vt ++ (w₃ ++ [125])))))
      (insertMember k v ms) := by
  intro n rest hn
  simp only [List.length_append, List.length_cons] at hn
  cases n with
  | zero => exact absurd hn (by omega)
  | succ n =>
    simp only [List.append_assoc, List.cons_append, List.nil_append]
    rw [readMembers_member h₁ h₂ h₃ hv (.inr rfl) ms (by omega),
      expect_ne (by decide) (by decide), expect_self (by decide)]
    rfl

/-- **Objects**: the brace and the members. -/
theorem ReadsMembers.reads {t : List UInt8} {ms : List (CString × Json)}
    (h : ReadsMembers [] t ms) : Reads (123 :: t) (obj ms) := by
  intro n rest hn _
  rw [List.length_cons] at hn
  cases n with
  | zero => exact absurd hn (by omega)
  | succ n =>
    have ht := h n rest (by omega)
    -- the text opens with a quote, so the object is not taken for an empty one
    have hbrace : expect 125 (t ++ rest) = none := by
      cases n with
      | zero => exact absurd ht (by simp [readMembers])
      | succ n =>
        rw [readMembers] at ht
        rcases hquote : expect 34 (t ++ rest) with _ | s
        · rw [hquote] at ht
          exact absurd ht (Option.some_ne_none _).symm
        · exact expect_none_of_some hquote (by decide)
    rw [List.cons_append, readValue, skipWs_cons (by decide)]
    simp only [show ¬ (123 : UInt8) = 34 by decide, if_false, if_true, hbrace, ht, Option.map_some]

/-- **A text of a value, with white space behind it, reads as the value.** -/
theorem Reads.read {t w : List UInt8} {v : Json} (h : Reads t v) (hw : Blank w) :
    read (t ++ w) = some v := by
  have hstop : Stop w := by
    have := stop_append hw (s := []) (fun c hc => absurd hc (Option.not_mem_none c))
    rwa [List.append_nil] at this
  have hskip : skipWs w = [] := by
    rw [← List.append_nil w, skipWs_append hw]
    rfl
  rw [Json.read, h _ w (by rw [List.length_append]; omega) hstop]
  simp only [hskip, List.isEmpty_nil, if_true]

end Json

end MyServer
