import MyServer.Lexer
import Mathlib.Data.List.TakeWhile

/-!
# Numbers and strings of the JSON reader (`json_reader.cpp`)

What `Json::Reader` makes of the tokens that carry a value. `sscanf( buffer, "%lf" )` is a
parameter, `scan`: the `double` it finds, or none. A string is decoded character by
character; every error is recorded with the place in the string where it was met.

`decodeDouble` takes the length of the token for an `int` and copies what is no longer than 32
bytes to a `char[32]`, with a NUL behind it. With 32 bytes the NUL is written behind the array,
and from `2 ^ 31` bytes on the length can be negative, which `memcpy` takes for a huge one; the
state says so (`overrun`).
-/

namespace MyServer

namespace Reader

/-- `ErrorInfo` -/
structure ErrorInfo : Type where
  /-- `token_` -/
  token : Token
  /-- `message_` -/
  message : String
  /-- `extra_`, `none` for a null pointer -/
  extra : Option Location

/-- The members of a `Reader` that a document changes. -/
structure State : Type where
  /-- `current_` -/
  current : Location
  /-- `errors_` -/
  errors : List ErrorInfo
  /-- a byte has been written behind the end of an array -/
  overrun : Bool

/-- What the functions that read a value leave behind: what they return, the value at the
node on top of `nodes_`, and the state of the reader. -/
structure Outcome : Type where
  /-- the result of the call -/
  ok : Bool
  /-- `currentValue()` -/
  value : Json
  /-- the members of the reader -/
  state : State

/-- `addError`, which returns false -/
def State.addError (r : State) (v : Json) (info : ErrorInfo) : Outcome :=
  ⟨false, v, { r with errors := r.errors ++ [info] }⟩

/-! ## Numbers -/

/-- Whether `decodeNumber` takes the text for that of a `double`. -/
def isDouble (text : List UInt8) : Bool :=
  text.any (fun c => c = 46 || c = 101 || c = 69 || c = 43) || (text.drop 1).contains 45

/-- What the loop over the digits of an integer comes to. -/
inductive Figure : Type where
  /-- the integer -/
  | value (n : UInt32)
  /-- too many digits: `return decodeDouble( token )` -/
  | double
  /-- something that is not a digit -/
  | bad
  deriving DecidableEq

/-- The loop of `decodeNumber`. -/
def decodeDigits (threshold : UInt32) : UInt32 → List UInt8 → Figure
  | value, [] => .value value
  | value, c :: s =>
    if c < 48 ∨ c > 57 then .bad
    else if value ≥ threshold then .double
    else decodeDigits threshold (value * 10 + (c - 48).toUInt32) s

/-- `UInt( -Value::minInt )` or `Value::maxUInt`, by ten. -/
def threshold (isNegative : Bool) : UInt32 := (if isNegative then 2147483648 else 4294967295) / 10

/-- The first part of `decodeNumber`: whether there is a minus sign, and what the text is. -/
def figure (text : List UInt8) : Bool × Figure :=
  let isNegative := decide (peek text = 45)
  if isDouble text then (isNegative, .double)
  else (isNegative, decodeDigits (threshold isNegative) 0 (if isNegative then text.tail else text))

/-- The integer of a number without a point or an exponent. -/
def integer (isNegative : Bool) (value : UInt32) : Json :=
  if isNegative then .int (-value.toInt32)
  else if value ≤ 2147483647 then .int value.toInt32
  else .uint value

/-- `"'" + std::string( token.start_, token.end_ ) + "' is not a number."` -/
def notANumber (token : Token) : ErrorInfo where
  token := token
  message := "'" ++ String.ofList (token.text.map fun c => Char.ofNat c.toNat) ++
    "' is not a number."
  extra := none

/-- `int length = int(token.end_ - token.start_)` -/
def intLength (text : List UInt8) : Int32 := .ofInt text.length

/-- Whether `decodeDouble` writes behind its array of 32 bytes: the NUL, or all of `memcpy`. -/
def overflows (text : List UInt8) : Bool := intLength text = 32 || intLength text < 0

/-- The text that is given to `sscanf`: from the array, or all of it. -/
def scanned (text : List UInt8) : List UInt8 :=
  if intLength text ≤ 32 then text.take (intLength text).toInt.toNat else text

section

variable (scan : List UInt8 → Option ℚ)

/-- `decodeDouble` -/
def decodeDouble (token : Token) (v : Json) (r : State) : Outcome :=
  let r := { r with overrun := r.overrun || overflows token.text }
  match scan (scanned token.text) with
  | none => r.addError v (notANumber token)
  | some value => ⟨true, .real value, r⟩

/-- `decodeNumber` -/
def decodeNumber (token : Token) (v : Json) (r : State) : Outcome :=
  match figure token.text with
  | (isNegative, .value n) => ⟨true, integer isNegative n, r⟩
  | (_, .double) => decodeDouble scan token v r
  | (_, .bad) => r.addError v (notANumber token)

end

/-! ## Strings -/

/-- `codePointToUTF8` -/
def codePointToUTF8 (cp : UInt32) : List UInt8 :=
  if cp ≤ 0x7f then [cp.toUInt8]
  else if cp ≤ 0x7FF then
    [(cp >>> 6 &&& 0x1f ||| 0xC0).toUInt8, (cp &&& 0x3f ||| 0x80).toUInt8]
  else if cp ≤ 0xFFFF then
    [(cp >>> 12 &&& 0xf ||| 0xE0).toUInt8, (cp >>> 6 &&& 0x3f ||| 0x80).toUInt8,
      (cp &&& 0x3f ||| 0x80).toUInt8]
  else if cp ≤ 0x10FFFF then
    [(cp >>> 18 &&& 0x7 ||| 0xF0).toUInt8, (cp >>> 12 &&& 0x3f ||| 0x80).toUInt8,
      (cp >>> 6 &&& 0x3f ||| 0x80).toUInt8, (cp &&& 0x3f ||| 0x80).toUInt8]
  else []

/-- What is wrong with a string: the message, and what is left of it there, up to but
without its closing quote. -/
abbrev Mistake : Type := String × List UInt8

/-- The value of a hexadecimal digit. -/
def hexDigit (c : UInt8) : Option UInt32 :=
  if 48 ≤ c ∧ c ≤ 57 then some (c - 48).toUInt32
  else if 97 ≤ c ∧ c ≤ 102 then some ((c - 97).toUInt32 + 10)
  else if 65 ≤ c ∧ c ≤ 70 then some ((c - 65).toUInt32 + 10)
  else none

/-- The loop of `decodeUnicodeEscapeSequence`. -/
def hexLoop : ℕ → UInt32 → List UInt8 → Except Mistake (UInt32 × List UInt8)
  | 0, unicode, s => .ok (unicode, s)
  | n + 1, unicode, s =>
    match hexDigit (peek s) with
    | some d => hexLoop n (unicode * 16 + d) s.tail
    | none =>
      .error ("Bad unicode escape sequence in string: hexadecimal digit expected.", s.tail)

/-- `decodeUnicodeEscapeSequence` -/
def decodeUnicodeEscapeSequence (s : List UInt8) : Except Mistake (UInt32 × List UInt8) :=
  if s.length < 4 then .error ("Bad unicode escape sequence in string: four digits expected.", s)
  else hexLoop 4 0 s

/-- `decodeUnicodeCodePoint`. The second half of a pair is not checked to be one. -/
def decodeUnicodeCodePoint (s : List UInt8) : Except Mistake (UInt32 × List UInt8) :=
  match decodeUnicodeEscapeSequence s with
  | .error e => .error e
  | .ok (unicode, s) =>
    if 0xD800 ≤ unicode ∧ unicode ≤ 0xDBFF then
      if s.length < 6 then
        .error ("additional six characters expected to parse unicode surrogate pair.", s)
      else if peek s ≠ 92 then
        .error ("expecting another \\u token to begin the second half of a unicode surrogate pair",
          s.tail)
      else if peek s.tail ≠ 117 then
        .error ("expecting another \\u token to begin the second half of a unicode surrogate pair",
          s.tail.tail)
      else
        match decodeUnicodeEscapeSequence s.tail.tail with
        | .error e => .error e
        | .ok (surrogatePair, s) =>
          .ok (((unicode &&& 0x3FF) <<< 10) + 0x10000 + (surrogatePair &&& 0x3FF), s)
    else .ok (unicode, s)

/-- The character a backslash and a letter other than `u` stand for. -/
def escaped (escape : UInt8) : Option UInt8 :=
  if escape = 34 then some 34
  else if escape = 47 then some 47
  else if escape = 92 then some 92
  else if escape = 98 then some 8
  else if escape = 102 then some 12
  else if escape = 110 then some 10
  else if escape = 114 then some 13
  else if escape = 116 then some 9
  else none

/-- The loop of `decodeString`. Every turn takes a character, so the length of the string is
fuel enough. -/
def decodeLoop : ℕ → List UInt8 → List UInt8 → Except Mistake (List UInt8)
  | _, decoded, [] => .ok decoded
  | 0, decoded, _ :: _ => .ok decoded
  | n + 1, decoded, c :: s =>
    if c = 34 then .ok decoded
    else if c = 92 then
      match s with
      | [] => .error ("Empty escape sequence in string", [])
      | escape :: s =>
        if escape = 117 then
          match decodeUnicodeCodePoint s with
          | .error e => .error e
          | .ok (unicode, s) => decodeLoop n (decoded ++ codePointToUTF8 unicode) s
        else
          match escaped escape with
          | some ch => decodeLoop n (decoded ++ [ch]) s
          | none => .error ("Bad escape sequence in string", s)
    else decodeLoop n (decoded ++ [c]) s

/-- What is decoded of the characters between two quotes. -/
def decodeRaw (raw : List UInt8) : Except Mistake (List UInt8) := decodeLoop raw.length [] raw

/-- The characters of a string token between its quotes. -/
def Token.raw (token : Token) : List UInt8 := token.text.tail.dropLast

/-- An error in a string, at the place it was met. -/
def Token.mistake (token : Token) (e : Mistake) : ErrorInfo :=
  ⟨token, e.1, some (e.2 ++ token.start.drop (token.text.length - 1))⟩

theorem notMem_takeWhile (s : List UInt8) : 0 ∉ s.takeWhile (· ≠ 0) :=
  fun h => by simpa using List.mem_takeWhile_imp h

/-- `Value( const std::string &value )` and what is copied of it: up to the first NUL. -/
def cString (s : List UInt8) : CString := ⟨s.takeWhile (· ≠ 0), notMem_takeWhile s⟩

/-- `decodeString( token )` -/
def decodeString (token : Token) (v : Json) (r : State) : Outcome :=
  match decodeRaw token.raw with
  | .error e => r.addError v (token.mistake e)
  | .ok decoded => ⟨true, .str (cString decoded), r⟩

/-! ## What numbers are -/

/-- The number that digits add up to behind others. -/
def digitsFrom (n : ℕ) (ds : List UInt8) : ℕ := ds.foldl (fun n c => n * 10 + (c.toNat - 48)) n

theorem le_digitsFrom (ds : List UInt8) (n : ℕ) : n ≤ digitsFrom n ds := by
  induction ds generalizing n with
  | nil => exact Nat.le_refl n
  | cons d ds ih =>
    have hstep : n ≤ n * 10 + (d.toNat - 48) := by omega
    exact hstep.trans (ih _)

theorem toNat_digit {c : UInt8} (hc : Json.isDigit c = true) : 48 ≤ c.toNat ∧ c.toNat ≤ 57 := by
  rw [Json.isDigit, Bool.and_eq_true, decide_eq_true_eq, decide_eq_true_eq] at hc
  exact ⟨UInt8.le_iff_toNat_le.mp hc.1, UInt8.le_iff_toNat_le.mp hc.2⟩

/-- A digit more, while there is room for it. -/
theorem toNat_next {value : UInt32} {c : UInt8} (hvalue : value.toNat < 429496729)
    (hc : Json.isDigit c = true) :
    (value * 10 + (c - 48).toUInt32).toNat = value.toNat * 10 + (c.toNat - 48) := by
  obtain ⟨hlow, hhigh⟩ := toNat_digit hc
  have hsub : (c - 48).toNat = c.toNat - 48 :=
    UInt8.toNat_sub_of_le c 48 (UInt8.le_iff_toNat_le.mpr hlow)
  have hten : (10 : UInt32).toNat = 10 := rfl
  rw [UInt32.toNat_add, UInt32.toNat_mul, UInt8.toNat_toUInt32, hsub, hten]
  omega

/-- **The loop over digits**: the integer, unless all digits but the last make up the
threshold. -/
theorem decodeDigits_eq {threshold value : UInt32} (hsmall : threshold.toNat ≤ 429496729)
    {ds : List UInt8} (hds : ∀ c ∈ ds, Json.isDigit c = true) :
    decodeDigits threshold value ds =
      if ds = [] ∨ digitsFrom value.toNat ds / 10 < threshold.toNat then
        .value (.ofNat (digitsFrom value.toNat ds))
      else .double := by
  induction ds generalizing value with
  | nil => simp [decodeDigits, digitsFrom]
  | cons c ds ih =>
    obtain ⟨hc, hds⟩ := List.forall_mem_cons.mp hds
    obtain ⟨hlow, hhigh⟩ := toNat_digit hc
    have hdigit : ¬ (c < 48 ∨ c > 57) := by
      rw [gt_iff_lt, UInt8.lt_iff_toNat_lt, UInt8.lt_iff_toNat_lt]
      exact not_or.mpr ⟨Nat.not_lt.mpr hlow, Nat.not_lt.mpr hhigh⟩
    have hcons : digitsFrom value.toNat (c :: ds) =
      digitsFrom (value.toNat * 10 + (c.toNat - 48)) ds := rfl
    rw [decodeDigits, if_neg hdigit, hcons]
    by_cases hfull : value ≥ threshold
    · have hle : threshold.toNat ≤ value.toNat := UInt32.le_iff_toNat_le.mp hfull
      have hrest := le_digitsFrom ds (value.toNat * 10 + (c.toNat - 48))
      rw [if_pos hfull, if_neg]
      simp only [List.cons_ne_nil, false_or, Nat.not_lt]
      omega
    · have hlt : value.toNat < threshold.toNat :=
        Nat.not_le.mp (mt UInt32.le_iff_toNat_le.mpr hfull)
      rw [if_neg hfull, ih hds, toNat_next (by omega) hc]
      -- with no digit left the last one has just been read
      by_cases hnil : ds = []
      · subst hnil
        have hlast : digitsFrom (value.toNat * 10 + (c.toNat - 48)) [] / 10 < threshold.toNat := by
          change (value.toNat * 10 + (c.toNat - 48)) / 10 < threshold.toNat
          omega
        rw [if_pos (.inl rfl), if_pos (.inr hlast)]
      · simp only [hnil, List.cons_ne_nil, false_or]

/-- The integer a text stands for when it is made of digits, with a minus sign or without. -/
def integral (text : List UInt8) : Option ℤ :=
  let isNegative := decide (peek text = 45)
  let ds := if isNegative then text.tail else text
  if ds.all Json.isDigit then
    some (if isNegative then -Json.digitsValue ds else Json.digitsValue ds)
  else none

/-- What is read of a number: integers as such, short of ten from the ends of what 32 bits
hold, and all others as the `double`s that `sscanf` finds. -/
def standardNumber (scan : List UInt8 → Option ℚ) (text : List UInt8) : Option Json :=
  match integral text with
  | some z =>
    if -2147483640 < z ∧ z < 4294967290 then some (Json.ofInteger z)
    else (scan (scanned text)).map .real
  | none => (scan (scanned text)).map .real

/-- The value `decodeNumber` finds. -/
def numberValue (scan : List UInt8 → Option ℚ) (text : List UInt8) : Option Json :=
  match figure text with
  | (isNegative, .value n) => some (integer isNegative n)
  | (_, .double) => (scan (scanned text)).map .real
  | (_, .bad) => none

/-- Whether `decodeNumber` writes behind the array of `decodeDouble`. -/
def overruns (text : List UInt8) : Bool := decide ((figure text).2 = .double) && overflows text

/-- The state after a number. -/
def State.afterNumber (r : State) (text : List UInt8) : State :=
  { r with overrun := r.overrun || overruns text }

theorem toInt_intLength {text : List UInt8} (h : text.length < 2 ^ 31) :
    (intLength text).toInt = text.length :=
  Int32.toInt_ofInt_of_le (by omega) (by omega)

/-- Short of `2 ^ 31` bytes only a text of 32 goes beyond the array. -/
theorem overflows_iff {text : List UInt8} (h : text.length < 2 ^ 31) :
    overflows text = true ↔ text.length = 32 := by
  have hlength := toInt_intLength h
  rw [overflows, Bool.or_eq_true, decide_eq_true_eq, decide_eq_true_eq, ← Int32.toInt_inj,
    Int32.lt_iff_toInt_lt, hlength]
  change ((text.length : ℤ) = 32 ∨ (text.length : ℤ) < 0) ↔ _
  omega

/-- And all of a text is scanned. -/
theorem scanned_eq {text : List UInt8} (h : text.length < 2 ^ 31) : scanned text = text := by
  rw [scanned, toInt_intLength h, Int.toNat_natCast, List.take_length, ite_self]

theorem overruns_eq_false {text : List UInt8} (hlen : text.length ≠ 32)
    (h : text.length < 2 ^ 31) : overruns text = false := by
  rw [overruns, Bool.and_eq_false_iff, ← Bool.not_eq_true (overflows text), overflows_iff h]
  exact .inr hlen

theorem decodeNumber_eq (scan : List UInt8 → Option ℚ) (token : Token) (v : Json) (r : State) :
    decodeNumber scan token v r =
      match numberValue scan token.text with
      | some w => ⟨true, w, r.afterNumber token.text⟩
      | none => (r.afterNumber token.text).addError v (notANumber token) := by
  rw [decodeNumber, numberValue, State.afterNumber, overruns]
  rcases hfigure : figure token.text with ⟨isNegative, n | _ | _⟩
  · simp
  · simp only [decodeDouble, decide_true, Bool.true_and]
    cases scan (scanned token.text) <;> rfl
  · simp

/-- The integer that is stored for a number, in the narrowest kind. -/
theorem integer_eq {isNegative : Bool} {n : ℕ}
    (hn : n < if isNegative then 2147483640 else 4294967290) :
    integer isNegative (.ofNat n) = Json.ofInteger (if isNegative then -n else n : ℤ) := by
  have hsigned : (UInt32.ofNat n).toInt32 = .ofInt n := by
    apply Int32.toBitVec_inj.mp
    simp
  cases isNegative with
  | true =>
    simp only [if_true] at hn
    rw [integer, if_pos rfl, if_pos rfl, hsigned, Int32.neg_ofInt, Json.ofInteger,
      if_pos (by omega)]
  | false =>
    simp only [Bool.false_eq_true, if_false] at hn
    have hword : (UInt32.ofNat n).toNat = n := by
      rw [UInt32.toNat_ofNat']
      omega
    have hle : UInt32.ofNat n ≤ 2147483647 ↔ n ≤ 2147483647 := by
      rw [UInt32.le_iff_toNat_le, hword]
      rfl
    rw [integer, if_neg Bool.false_ne_true, if_neg Bool.false_ne_true, hsigned, Json.ofInteger]
    by_cases hsmall : n ≤ 2147483647
    · rw [if_pos (hle.mpr hsmall), if_pos (by omega)]
    · rw [if_neg (mt hle.mp hsmall), if_neg (by omega), if_pos (by omega), Int.toNat_natCast]

/-- Every digit but the last is below the threshold. -/
theorem toNat_threshold (isNegative : Bool) :
    (threshold isNegative).toNat = if isNegative then 214748364 else 429496729 := by
  cases isNegative <;> decide

theorem isDouble_digits {text ds : List UInt8} (h : text = ds ∨ text = 45 :: ds)
    (hds : ∀ c ∈ ds, Json.isDigit c = true) : isDouble text = false := by
  have hplain : ∀ c : UInt8, Json.isDigit c = true →
      (decide (c = 46) || decide (c = 101) || decide (c = 69) || decide (c = 43)) = false ∧
        c ≠ 45 := Json.forall_byte (by decide +kernel)
  have hany : ∀ c ∈ ds, ¬ (decide (c = 46) || decide (c = 101) || decide (c = 69) ||
      decide (c = 43)) = true := by
    intro c hc
    rw [(hplain c (hds c hc)).1]
    decide
  have hminus : 45 ∉ ds := fun h => (hplain 45 (hds 45 h)).2 rfl
  rw [isDouble, Bool.or_eq_false_iff, List.any_eq_false, List.contains_eq_mem,
    decide_eq_false_iff_not]
  rcases h with rfl | rfl
  · exact ⟨hany, fun hmem => hminus (List.mem_of_mem_drop hmem)⟩
  · exact ⟨List.forall_mem_cons.mpr ⟨by decide, hany⟩, hminus⟩

/-- What is not a digit, and not the sign in front, makes a number a `double`. -/
theorem isDouble_of_not_digits {text ds : List UInt8} (hne : text ≠ [])
    (h : (text = ds ∧ peek text ≠ 45) ∨ text = 45 :: ds)
    (htext : ∀ c ∈ text, isNumberChar c = true) (hds : ¬ ∀ c ∈ ds, Json.isDigit c = true) :
    isDouble text = true := by
  push Not at hds
  obtain ⟨c, hc, hnot⟩ := hds
  have hkinds : ∀ c : UInt8, isNumberChar c = true → Json.isDigit c ≠ true →
      (decide (c = 46) || decide (c = 101) || decide (c = 69) || decide (c = 43)) = true ∨
        c = 45 := Json.forall_byte (by decide +kernel)
  have hmem : c ∈ text := by
    rcases h with ⟨rfl, -⟩ | rfl
    · exact hc
    · exact List.mem_cons_of_mem 45 hc
  rw [isDouble, Bool.or_eq_true, List.any_eq_true, List.contains_eq_mem, decide_eq_true_eq]
  rcases hkinds c (htext c hmem) hnot with hpoint | rfl
  · exact .inl ⟨c, hmem, hpoint⟩
  · right
    rcases h with ⟨rfl, hplus⟩ | rfl
    -- without a sign in front the minus is a later one
    · obtain ⟨d, s, rfl⟩ := List.exists_cons_of_ne_nil hne
      have hfirst : d ≠ 45 := hplus
      exact (List.mem_cons.mp hc).resolve_left (Ne.symm hfirst)
    · exact hc

/-- **What `decodeNumber` finds**: a number token is an integer or a `double`, never bad. -/
theorem numberValue_eq (scan : List UInt8 → Option ℚ) {text : List UInt8} (hne : text ≠ [])
    (htext : ∀ c ∈ text, isNumberChar c = true) :
    numberValue scan text = standardNumber scan text := by
  rw [numberValue, standardNumber, integral, figure]
  generalize hsign : decide (peek text = 45) = isNegative
  generalize hdigits : (if isNegative then text.tail else text) = ds
  have hshape : (text = ds ∧ peek text ≠ 45) ∨ text = 45 :: ds := by
    obtain ⟨c, s, rfl⟩ := List.exists_cons_of_ne_nil hne
    subst hdigits
    cases isNegative with
    | true => exact .inr (by rw [← of_decide_eq_true hsign]; rfl)
    | false => exact .inl ⟨rfl, of_decide_eq_false hsign⟩
  by_cases hall : ∀ c ∈ ds, Json.isDigit c = true
  · have hplain := isDouble_digits (hshape.imp_left And.left) hall
    have hthreshold := toNat_threshold isNegative
    have hroom : (threshold isNegative).toNat ≤ 429496729 := by
      rw [hthreshold]
      split_ifs <;> omega
    have hloop : decodeDigits (threshold isNegative) 0 ds =
        if ds = [] ∨ Json.digitsValue ds / 10 < (threshold isNegative).toNat then
          .value (.ofNat (Json.digitsValue ds))
        else .double := decodeDigits_eq hroom hall
    simp only [hplain, Bool.false_eq_true, if_false, List.all_eq_true.mpr hall, if_true, hloop]
    by_cases hsmall : Json.digitsValue ds < if isNegative then 2147483640 else 4294967290
    · have hlt : Json.digitsValue ds / 10 < (threshold isNegative).toNat := by
        rw [hthreshold]
        split_ifs at hsmall ⊢ <;> omega
      rw [if_pos (.inr hlt), if_pos (by split_ifs at hsmall ⊢ <;> omega)]
      simp only [integer_eq hsmall]
    · have hge : ¬ Json.digitsValue ds / 10 < (threshold isNegative).toNat := by
        rw [hthreshold]
        split_ifs at hsmall ⊢ <;> omega
      have hcons : ds ≠ [] := by
        rintro rfl
        exact hsmall (by split_ifs <;> decide)
      rw [if_neg (not_or.mpr ⟨hcons, hge⟩), if_neg (by split_ifs at hsmall ⊢ <;> omega)]
  · have hdouble := isDouble_of_not_digits hne hshape htext hall
    have hnone : ds.all Json.isDigit = false := by
      rw [Bool.eq_false_iff, Ne, List.all_eq_true]
      exact hall
    simp only [hdouble, if_true, hnone, Bool.false_eq_true, if_false]

/-! ## What strings are -/

/-- A character with some of its bits masked out and the mark of its kind put in. -/
theorem toUInt8_mark {mask mark : UInt32} {k : ℕ} (hmask : mask.toNat = 2 ^ k - 1)
    (hmark : ∀ n < 2 ^ k, n ||| mark.toNat = mark.toNat + n) (cp : UInt32) :
    (cp &&& mask ||| mark).toUInt8 = .ofNat (mark.toNat + cp.toNat % 2 ^ k) := by
  apply UInt8.toNat_inj.mp
  rw [UInt32.toNat_toUInt8, UInt32.toNat_or, UInt32.toNat_and, hmask,
    Nat.and_two_pow_sub_one_eq_mod, hmark _ (Nat.mod_lt _ (Nat.two_pow_pos k)),
    UInt8.toNat_ofNat']

theorem codePointToUTF8_eq {cp : UInt32} (h : cp.toNat ≤ 0x10FFFF) :
    codePointToUTF8 cp = Json.utf8 cp.toNat := by
  have hsix : ∀ cp : UInt32, (cp &&& 0x3f ||| 0x80).toUInt8 = .ofNat (0x80 + cp.toNat % 64) :=
    toUInt8_mark (k := 6) rfl (by decide)
  have htwo : ∀ cp : UInt32, (cp &&& 0x1f ||| 0xC0).toUInt8 = .ofNat (0xC0 + cp.toNat % 32) :=
    toUInt8_mark (k := 5) rfl (by decide)
  have hthree : ∀ cp : UInt32, (cp &&& 0xf ||| 0xE0).toUInt8 = .ofNat (0xE0 + cp.toNat % 16) :=
    toUInt8_mark (k := 4) rfl (by decide)
  have hfour : ∀ cp : UInt32, (cp &&& 0x7 ||| 0xF0).toUInt8 = .ofNat (0xF0 + cp.toNat % 8) :=
    toUInt8_mark (k := 3) rfl (by decide)
  have h6 : (cp >>> 6).toNat = cp.toNat / 64 := by simp [Nat.shiftRight_eq_div_pow]
  have h12 : (cp >>> 12).toNat = cp.toNat / 4096 := by simp [Nat.shiftRight_eq_div_pow]
  have h18 : (cp >>> 18).toNat = cp.toNat / 262144 := by simp [Nat.shiftRight_eq_div_pow]
  have hsmall : cp.toUInt8 = .ofNat cp.toNat := by
    apply UInt8.toNat_inj.mp
    rw [UInt32.toNat_toUInt8, UInt8.toNat_ofNat']
  have hle : ∀ (k : ℕ) (n : UInt32), n.toNat + 1 = k → (cp ≤ n ↔ cp.toNat < k) := by
    intro k n hk
    rw [UInt32.le_iff_toNat_le, ← hk, Nat.lt_succ_iff]
  rw [codePointToUTF8, Json.utf8]
  simp only [hle 0x80 0x7f rfl, hle 0x800 0x7ff rfl, hle 0x10000 0xffff rfl,
    hle 0x110000 0x10ffff rfl, hsix, htwo, hthree, hfour, h6, h12, h18, hsmall]
  -- one byte, two, three or four
  by_cases h1 : cp.toNat < 0x80
  · rw [if_pos h1, if_pos h1]
  rw [if_neg h1, if_neg h1]
  by_cases h2 : cp.toNat < 0x800
  · rw [if_pos h2, if_pos h2, Nat.mod_eq_of_lt (by omega : cp.toNat / 64 < 32)]
  rw [if_neg h2, if_neg h2]
  by_cases h3 : cp.toNat < 0x10000
  · rw [if_pos h3, if_pos h3, Nat.mod_eq_of_lt (by omega : cp.toNat / 4096 < 16)]
  rw [if_neg h3, if_neg h3, if_pos (by omega), Nat.mod_eq_of_lt (by omega : cp.toNat / 262144 < 8)]

theorem hexDigit_of_hexValue {c : UInt8} {d : ℕ} (h : Json.hexValue c = some d) :
    hexDigit c = some (.ofNat d) ∧ d < 16 := by
  have hall : ∀ c : UInt8, ∀ d ∈ Json.hexValue c, hexDigit c = some (.ofNat d) ∧ d < 16 :=
    Json.forall_byte (by decide +kernel)
  exact hall c d h

/-- Four digits. -/
theorem decodeUnicodeEscapeSequence_of_hex4 {a b c d : UInt8} {n : ℕ}
    (h : Json.hex4 a b c d = some n) (s : List UInt8) :
    decodeUnicodeEscapeSequence (a :: b :: c :: d :: s) = .ok (.ofNat n, s) ∧ n < 0x10000 := by
  simp only [Json.hex4, Option.bind_eq_bind, Option.bind_eq_some_iff, Option.pure_def,
    Option.some.injEq] at h
  obtain ⟨w, hw, x, hx, y, hy, z, hz, hn⟩ := h
  obtain ⟨ha, hwlt⟩ := hexDigit_of_hexValue hw
  obtain ⟨hb, hxlt⟩ := hexDigit_of_hexValue hx
  obtain ⟨hc, hylt⟩ := hexDigit_of_hexValue hy
  obtain ⟨hd, hzlt⟩ := hexDigit_of_hexValue hz
  have hlen : ¬ (a :: b :: c :: d :: s).length < 4 := by simp only [List.length_cons]; omega
  rw [decodeUnicodeEscapeSequence, if_neg hlen]
  simp only [hexLoop, peek, List.tail_cons, ha, hb, hc, hd]
  refine ⟨?_, by omega⟩
  have hword : (((0 * 16 + UInt32.ofNat w) * 16 + .ofNat x) * 16 + .ofNat y) * 16 + .ofNat z =
      UInt32.ofNat n := by
    apply UInt32.toNat_inj.mp
    simp only [UInt32.toNat_add, UInt32.toNat_mul, UInt32.toNat_ofNat']
    have h16 : (16 : UInt32).toNat = 16 := rfl
    have h0 : (0 : UInt32).toNat = 0 := rfl
    rw [h16, h0]
    omega
  rw [hword]

/-- The second half of a pair behind its first. -/
theorem decodeUnicodeCodePoint_pair {a b c d a' b' c' d' : UInt8} {n m : ℕ}
    (h : Json.hex4 a b c d = some n) (h' : Json.hex4 a' b' c' d' = some m)
    (hn : 0xD800 ≤ n ∧ n < 0xDC00) (hm : 0xDC00 ≤ m ∧ m < 0xE000) (s : List UInt8) :
    ∃ cp : UInt32, cp.toNat = 0x10000 + (n - 0xD800) * 1024 + (m - 0xDC00) ∧
      decodeUnicodeCodePoint (a :: b :: c :: d :: 92 :: 117 :: a' :: b' :: c' :: d' :: s) =
        .ok (cp, s) := by
  obtain ⟨hfirst, hnlt⟩ :=
    decodeUnicodeEscapeSequence_of_hex4 h (92 :: 117 :: a' :: b' :: c' :: d' :: s)
  obtain ⟨hsecond, hmlt⟩ := decodeUnicodeEscapeSequence_of_hex4 h' s
  have hrange : 0xD800 ≤ UInt32.ofNat n ∧ UInt32.ofNat n ≤ 0xDBFF := by
    rw [UInt32.le_iff_toNat_le, UInt32.le_iff_toNat_le, UInt32.toNat_ofNat']
    have hlow : (0xD800 : UInt32).toNat = 0xD800 := rfl
    have hhigh : (0xDBFF : UInt32).toNat = 0xDBFF := rfl
    omega
  have hlen : ¬ (92 :: 117 :: a' :: b' :: c' :: d' :: s).length < 6 := by
    simp only [List.length_cons]
    omega
  refine ⟨((UInt32.ofNat n &&& 0x3FF) <<< 10) + 0x10000 + (UInt32.ofNat m &&& 0x3FF), ?_, ?_⟩
  · have hmask : (0x3FF : UInt32).toNat = 2 ^ 10 - 1 := rfl
    have hbase : (0x10000 : UInt32).toNat = 0x10000 := rfl
    have hten : (10 : UInt32).toNat % 32 = 10 := rfl
    simp only [UInt32.toNat_add, UInt32.toNat_shiftLeft, UInt32.toNat_and, UInt32.toNat_ofNat',
      hmask, Nat.and_two_pow_sub_one_eq_mod, hbase, hten, Nat.shiftLeft_eq]
    omega
  · rw [decodeUnicodeCodePoint, hfirst]
    simp only [hrange, and_self, if_true, hlen, if_false, peek, List.tail_cons, ne_eq,
      not_true_eq_false, hsecond]

/-- A code point on its own. -/
theorem decodeUnicodeCodePoint_single {a b c d : UInt8} {n : ℕ}
    (h : Json.hex4 a b c d = some n) (hn : ¬ (0xD800 ≤ n ∧ n < 0xDC00)) (s : List UInt8) :
    decodeUnicodeCodePoint (a :: b :: c :: d :: s) = .ok (.ofNat n, s) := by
  obtain ⟨hfirst, hnlt⟩ := decodeUnicodeEscapeSequence_of_hex4 h s
  have hrange : ¬ (0xD800 ≤ UInt32.ofNat n ∧ UInt32.ofNat n ≤ 0xDBFF) := by
    rw [UInt32.le_iff_toNat_le, UInt32.le_iff_toNat_le, UInt32.toNat_ofNat']
    have hlow : (0xD800 : UInt32).toNat = 0xD800 := rfl
    have hhigh : (0xDBFF : UInt32).toNat = 0xDBFF := rfl
    omega
  rw [decodeUnicodeCodePoint, hfirst]
  simp only [hrange, if_false]

theorem prepend_eq_some {cs ds rest : List UInt8} {x : Option (List UInt8 × List UInt8)}
    (h : Json.prepend cs x = some (ds, rest)) : ∃ es, x = some (es, rest) ∧ ds = cs ++ es := by
  obtain ⟨q, hx, hq⟩ := Option.map_eq_some_iff.mp h
  obtain ⟨hds, hrest⟩ := Prod.mk.inj hq
  exact ⟨q.1, by rw [hx, ← hrest], hds.symm⟩

theorem escaped_eq (e : UInt8) : escaped e = Json.unescape e := by
  revert e
  exact Json.forall_byte (by decide +kernel)

theorem not_isSome_unescape : ¬ (Json.unescape 117).isSome = true := by decide

/-- A literal that begins with a backslash and a `u` has four digits behind them. -/
theorem Literal.exists_of_append_eq {raw rest s : List UInt8} {a b c d : UInt8}
    (hraw : Json.Literal raw)
    (h : raw ++ 34 :: rest = 92 :: 117 :: a :: b :: c :: d :: s) :
    ∃ raw', raw = 92 :: 117 :: a :: b :: c :: d :: raw' ∧ s = raw' ++ 34 :: rest ∧
      Json.Literal raw' := by
  cases hraw with
  | nil => simp at h
  | plain hquote hslash _ =>
    obtain ⟨rfl, -⟩ := List.cons.inj h
    exact absurd rfl hslash
  | escape hc _ =>
    obtain ⟨-, h⟩ := List.cons.inj h
    obtain ⟨rfl, -⟩ := List.cons.inj h
    exact absurd hc not_isSome_unescape
  | @unicode a' b' c' d' raw' _ _ _ _ hraw' =>
    simp only [List.cons_append, List.cons.injEq, true_and] at h
    obtain ⟨rfl, rfl, rfl, rfl, h⟩ := h
    exact ⟨raw', rfl, h.symm, hraw'⟩

/-- **A literal that the standard reader reads is decoded to the same characters.** -/
theorem decodeLoop_of_readChars {n : ℕ} {raw cs rest rest' dec : List UInt8}
    (hn : raw.length ≤ n) (hraw : Json.Literal raw)
    (h : Json.readChars (raw ++ 34 :: rest) = some (cs, rest')) :
    decodeLoop n dec raw = .ok (dec ++ cs) := by
  induction n using Nat.strong_induction_on generalizing raw cs dec with
  | _ n ih =>
    rw [Json.readChars.eq_def] at h
    cases hraw with
    | nil =>
      obtain rfl : cs = [] := by simpa using (congrArg (Option.map Prod.fst) h).symm
      cases n <;> simp [decodeLoop]
    | @plain c raw hquote hslash hraw =>
      rw [List.length_cons] at hn
      obtain ⟨n, rfl⟩ : ∃ m, n = m + 1 := ⟨n - 1, by omega⟩
      simp only [List.cons_append, hquote, hslash, if_false] at h
      split_ifs at h
      obtain ⟨ds, hds, rfl⟩ := prepend_eq_some h
      simp only [decodeLoop, hquote, hslash, if_false]
      rw [ih n (by omega) (by omega) hraw hds, List.append_assoc]
    | @escape c raw hc hraw =>
      rw [List.length_cons, List.length_cons] at hn
      obtain ⟨n, rfl⟩ : ∃ m, n = m + 1 := ⟨n - 1, by omega⟩
      obtain ⟨ch, hch⟩ := Option.isSome_iff_exists.mp hc
      have hu : c ≠ 117 := by
        rintro rfl
        exact not_isSome_unescape hc
      simp only [List.cons_append, show ¬ (92 : UInt8) = 34 by decide, if_false, if_true, hu,
        hch] at h
      obtain ⟨ds, hds, rfl⟩ := prepend_eq_some h
      simp only [decodeLoop, show ¬ (92 : UInt8) = 34 by decide, if_false, if_true, hu, escaped_eq,
        hch]
      rw [ih n (by omega) (by omega) hraw hds, List.append_assoc]
    | @unicode x y z w raw hx hy hz hw hraw =>
      simp only [List.length_cons] at hn
      obtain ⟨n, rfl⟩ : ∃ m, n = m + 1 := ⟨n - 1, by omega⟩
      simp only [List.cons_append, show ¬ (92 : UInt8) = 34 by decide, if_false, if_true] at h
      rcases hhex : Json.hex4 x y z w with _ | k
      · simp [hhex] at h
      simp only [hhex] at h
      simp only [decodeLoop, show ¬ (92 : UInt8) = 34 by decide, if_false, if_true]
      split_ifs at h with hhigh hlow
      -- the first half of a pair, which the standard reader found the second half behind
      · split at h
        · rename_i x' y' a b c d s heq
          rcases hhex' : Json.hex4 a b c d with _ | m
          · simp [hhex'] at h
          simp only [hhex'] at h
          split_ifs at h with hpair
          obtain ⟨rfl, rfl, hm⟩ := hpair
          obtain ⟨raw, rfl, rfl, hraw⟩ := Literal.exists_of_append_eq hraw heq
          obtain ⟨ds, hds, hcs⟩ := prepend_eq_some h
          obtain ⟨cp, hcp, hdecode⟩ := decodeUnicodeCodePoint_pair hhex hhex' hhigh hm raw
          have hle : cp.toNat ≤ 0x10FFFF := by
            rw [hcp]
            omega
          simp only [List.length_cons] at hn
          simp only [hdecode, codePointToUTF8_eq hle, hcp]
          rw [ih n (by omega) (by omega) hraw hds, hcs, List.append_assoc]
        · exact absurd h (Option.some_ne_none _).symm
      · have hk := (decodeUnicodeEscapeSequence_of_hex4 hhex []).2
        obtain ⟨ds, hds, rfl⟩ := prepend_eq_some h
        have hword : (UInt32.ofNat k).toNat = k := by
          rw [UInt32.toNat_ofNat']
          omega
        rw [decodeUnicodeCodePoint_single hhex hhigh]
        have hle : (UInt32.ofNat k).toNat ≤ 0x10FFFF := by omega
        simp only [codePointToUTF8_eq hle, hword]
        rw [ih n (by omega) (by omega) hraw hds, List.append_assoc]

/-- What the standard reader reads between two quotes. -/
theorem decodeRaw_of_readChars {raw cs rest rest' : List UInt8} (hraw : Json.Literal raw)
    (h : Json.readChars (raw ++ 34 :: rest) = some (cs, rest')) : decodeRaw raw = .ok cs :=
  decodeLoop_of_readChars (Nat.le_refl _) hraw h

/-! ## Where mistakes are -/

/-- What is left lies within `s`. -/
def Within (s : List UInt8) : Except Mistake (UInt32 × List UInt8) → Prop
  | .error e => e.2 <:+ s
  | .ok p => p.2 <:+ s

theorem Within.trans {s t : List UInt8} {x : Except Mistake (UInt32 × List UInt8)}
    (h : Within t x) (hts : t <:+ s) : Within s x := by
  cases x with
  | error e => exact List.IsSuffix.trans h hts
  | ok p => exact List.IsSuffix.trans h hts

theorem hexLoop_within (n : ℕ) (unicode : UInt32) (s : List UInt8) :
    Within s (hexLoop n unicode s) := by
  induction n generalizing unicode s with
  | zero => exact List.suffix_rfl
  | succ n ih =>
    rw [hexLoop]
    split
    · exact (ih _ _).trans (List.tail_suffix s)
    · exact List.tail_suffix s

theorem decodeUnicodeEscapeSequence_within (s : List UInt8) :
    Within s (decodeUnicodeEscapeSequence s) := by
  rw [decodeUnicodeEscapeSequence]
  split_ifs
  · exact List.suffix_rfl
  · exact hexLoop_within 4 0 s

theorem decodeUnicodeCodePoint_within (s : List UInt8) : Within s (decodeUnicodeCodePoint s) := by
  have hfirst := decodeUnicodeEscapeSequence_within s
  rw [decodeUnicodeCodePoint]
  generalize decodeUnicodeEscapeSequence s = x at hfirst
  rcases x with e | ⟨unicode, t⟩
  · exact hfirst
  have ht : t <:+ s := hfirst
  have htail : t.tail.tail <:+ s := ((List.tail_suffix _).trans (List.tail_suffix t)).trans ht
  have hsecond := (decodeUnicodeEscapeSequence_within t.tail.tail).trans htail
  simp only
  split_ifs
  · rw [Within]
    exact ht
  · rw [Within]
    exact (List.tail_suffix t).trans ht
  · rw [Within]
    exact htail
  · generalize decodeUnicodeEscapeSequence t.tail.tail = y at hsecond
    rcases y with e | p
    · exact hsecond
    · rw [Within] at hsecond ⊢
      exact hsecond
  · rw [Within]
    exact ht

/-- **A mistake lies within the string.** -/
theorem decodeLoop_error {n : ℕ} {decoded s : List UInt8} {e : Mistake}
    (h : decodeLoop n decoded s = .error e) : e.2 <:+ s := by
  induction n generalizing decoded s with
  | zero => cases s <;> simp [decodeLoop] at h
  | succ n ih =>
    rcases s with _ | ⟨c, s⟩
    · simp [decodeLoop] at h
    have hcons : ∀ {t : List UInt8}, t <:+ s → t <:+ c :: s :=
      fun ht => ht.trans (List.suffix_cons c s)
    simp only [decodeLoop] at h
    split_ifs at h with hquote hslash
    · rcases s with _ | ⟨escape, s⟩
      · obtain rfl := Except.error.inj h
        exact List.nil_suffix
      have hrest : s <:+ escape :: s := List.suffix_cons escape s
      simp only at h
      split_ifs at h with hu
      · have hwithin := decodeUnicodeCodePoint_within s
        rcases hcp : decodeUnicodeCodePoint s with e' | ⟨unicode, t⟩
        · simp only [hcp] at h
          obtain rfl := Except.error.inj h
          rw [hcp] at hwithin
          exact hcons (List.IsSuffix.trans hwithin hrest)
        · simp only [hcp] at h
          rw [hcp] at hwithin
          exact hcons (((ih h).trans hwithin).trans hrest)
      · rcases hch : escaped escape with _ | ch
        · simp only [hch] at h
          obtain rfl := Except.error.inj h
          exact hcons hrest
        · simp only [hch] at h
          exact hcons ((ih h).trans hrest)
    · exact hcons (ih h)

end Reader

end MyServer
