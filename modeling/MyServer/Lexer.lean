import MyServer.JsonText

/-!
# The tokens of the JSON reader (`json/reader.h`, `json_reader.cpp`)

`Json::Reader` reads a document token by token. A `Location`, a pointer into the document, is
known here by what stands from it to `end_`; `document_.c_str()` puts a NUL behind that, which
is what `*current_` is at the end (`peek`). `readToken` reads one token, with the errors of
its string, comment or name turned into a token of type `tokenError`. The loops of the reader
that only read tokens, over comments or after an error, are `readUntil`.

What is proved here about tokens is all that the parser's proofs use: a token begins and
ends within what was left of the document (`readToken_start`, `readToken_stop`), and unless
the document is at its end it has a byte (`length_stop_lt`).
-/

namespace MyServer

namespace Reader

/-- A pointer into the document: the bytes from there to `end_`. -/
abbrev Location : Type := List UInt8

/-- `TokenType` -/
inductive TokenType : Type where
  | tokenEndOfStream
  | tokenObjectBegin
  | tokenObjectEnd
  | tokenArrayBegin
  | tokenArrayEnd
  | tokenString
  | tokenNumber
  | tokenTrue
  | tokenFalse
  | tokenNull
  | tokenArraySeparator
  | tokenMemberSeparator
  | tokenComment
  | tokenError
  deriving DecidableEq

/-- `Token` -/
structure Token : Type where
  /-- `type_` -/
  type : TokenType
  /-- `start_` -/
  start : Location
  /-- `end_` -/
  stop : Location
  deriving DecidableEq

/-- The bytes of a token, `std::string( token.start_, token.end_ )`. -/
def Token.text (t : Token) : List UInt8 := t.start.take (t.start.length - t.stop.length)

/-! ## Characters -/

/-- `*current_` -/
def peek : Location → UInt8
  | [] => 0
  | c :: _ => c

/-- `getNextChar` -/
def getNextChar : Location → UInt8 × Location
  | [] => (0, [])
  | c :: s => (c, s)

/-- `skipSpaces` -/
def skipSpaces : Location → Location
  | [] => []
  | c :: s => if c = 32 ∨ c = 9 ∨ c = 13 ∨ c = 10 then skipSpaces s else c :: s

/-- `match` -/
def matchPattern (pattern : List UInt8) (s : Location) : Bool × Location :=
  if pattern <+: s then (true, s.drop pattern.length) else (false, s)

/-- `readCStyleComment` -/
def readCStyleComment : Location → Bool × Location
  | [] => (false, [])
  | c :: s => if c = 42 ∧ peek s = 47 then (true, (getNextChar s).2) else readCStyleComment s

/-- `readCppStyleComment` -/
def readCppStyleComment : Location → Bool × Location
  | [] => (true, [])
  | c :: s => if c = 13 ∨ c = 10 then (true, s) else readCppStyleComment s

/-- `readComment`, without the collecting of comments. The character after the slash is
gone also when there is no comment. -/
def readComment (s : Location) : Bool × Location :=
  let (c, s) := getNextChar s
  if c = 42 then readCStyleComment s
  else if c = 47 then readCppStyleComment s
  else (false, s)

/-- What `readNumber` takes for a part of a number. -/
def isNumberChar (c : UInt8) : Bool :=
  (48 ≤ c && c ≤ 57) || c = 46 || c = 101 || c = 69 || c = 43 || c = 45

/-- `readNumber` -/
def readNumber : Location → Location
  | [] => []
  | c :: s => if isNumberChar c then readNumber s else c :: s

/-- `readString`: to the quote that no backslash stands before. -/
def readString : Location → Bool × Location
  | [] => (false, [])
  | c :: s =>
    if c = 92 then
      match s with
      | [] => (false, [])
      | _ :: s => readString s
    else if c = 34 then (true, s)
    else readString s

/-! ## Tokens -/

/-- The `switch` of `readToken`: the type of the token that begins with `c`, whether it is
well formed, and where it ends. -/
def scanToken (c : UInt8) (s : Location) : TokenType × Bool × Location :=
  if c = 123 then (.tokenObjectBegin, true, s)
  else if c = 125 then (.tokenObjectEnd, true, s)
  else if c = 91 then (.tokenArrayBegin, true, s)
  else if c = 93 then (.tokenArrayEnd, true, s)
  else if c = 34 then (.tokenString, readString s)
  else if c = 47 then (.tokenComment, readComment s)
  else if (48 ≤ c ∧ c ≤ 57) ∨ c = 45 then (.tokenNumber, true, readNumber s)
  else if c = 116 then (.tokenTrue, matchPattern [114, 117, 101] s)
  else if c = 102 then (.tokenFalse, matchPattern [97, 108, 115, 101] s)
  else if c = 110 then (.tokenNull, matchPattern [117, 108, 108] s)
  else if c = 44 then (.tokenArraySeparator, true, s)
  else if c = 58 then (.tokenMemberSeparator, true, s)
  else if c = 0 then (.tokenEndOfStream, true, s)
  else (.tokenError, false, s)

/-- `readToken`. It leaves `current_` at the end of the token. -/
def readToken (s : Location) : Token :=
  let start := skipSpaces s
  let (c, s) := getNextChar start
  let (type, ok, s) := scanToken c s
  ⟨if ok then type else .tokenError, start, s⟩

/-- Tokens are read until one has a type that `p` holds of. -/
def readUntil (p : TokenType → Bool) : ℕ → Location → Token
  | 0, s => readToken s
  | n + 1, s =>
    let token := readToken s
    if p token.type then token else readUntil p n token.stop

/-- `do readToken( token ); while ( token.type_ == tokenComment );` -/
def readPastComments (s : Location) : Token := readUntil (· ≠ .tokenComment) s.length s

/-! ## Where tokens are -/

theorem skipSpaces_suffix (s : Location) : skipSpaces s <:+ s := by
  induction s with
  | nil => exact List.suffix_rfl
  | cons c s ih =>
    rw [skipSpaces]
    split_ifs
    · exact ih.trans (List.suffix_cons c s)
    · exact List.suffix_rfl

theorem getNextChar_suffix (s : Location) : (getNextChar s).2 <:+ s := by
  cases s with
  | nil => exact List.suffix_rfl
  | cons c s => exact List.suffix_cons c s

theorem matchPattern_suffix (pattern : List UInt8) (s : Location) :
    (matchPattern pattern s).2 <:+ s := by
  rw [matchPattern]
  split_ifs
  · exact List.drop_suffix _ s
  · exact List.suffix_rfl

/-- A comment without an end runs to the end of the document. -/
theorem readCStyleComment_suffix (s : Location) : (readCStyleComment s).2 <:+ s := by
  induction s with
  | nil => exact List.suffix_rfl
  | cons c s ih =>
    rw [readCStyleComment]
    split_ifs
    · exact (getNextChar_suffix s).trans (List.suffix_cons c s)
    · exact ih.trans (List.suffix_cons c s)

theorem readCppStyleComment_suffix (s : Location) : (readCppStyleComment s).2 <:+ s := by
  induction s with
  | nil => exact List.suffix_rfl
  | cons c s ih =>
    rw [readCppStyleComment]
    split_ifs
    · exact List.suffix_cons c s
    · exact ih.trans (List.suffix_cons c s)

theorem readComment_suffix (s : Location) : (readComment s).2 <:+ s := by
  have hnext := getNextChar_suffix s
  simp only [readComment]
  split_ifs
  · exact (readCStyleComment_suffix _).trans hnext
  · exact (readCppStyleComment_suffix _).trans hnext
  · exact hnext

theorem readNumber_suffix (s : Location) : readNumber s <:+ s := by
  induction s with
  | nil => exact List.suffix_rfl
  | cons c s ih =>
    rw [readNumber]
    split_ifs
    · exact ih.trans (List.suffix_cons c s)
    · exact List.suffix_rfl

/-- So does a string without one. -/
theorem readString_suffix (s : Location) : (readString s).2 <:+ s := by
  fun_induction readString s with
  | case1 => exact List.suffix_rfl
  | case2 => exact List.nil_suffix
  | case3 d s ih => exact (ih.trans (List.suffix_cons _ _)).trans (List.suffix_cons _ _)
  | case4 s => exact List.suffix_cons _ _
  | case5 c s _ _ ih => exact ih.trans (List.suffix_cons _ _)

/-- What the `switch` can come to. -/
inductive Scans : UInt8 → Location → TokenType × Bool × Location → Prop
  | objectBegin {s : Location} : Scans 123 s (.tokenObjectBegin, true, s)
  | objectEnd {s : Location} : Scans 125 s (.tokenObjectEnd, true, s)
  | arrayBegin {s : Location} : Scans 91 s (.tokenArrayBegin, true, s)
  | arrayEnd {s : Location} : Scans 93 s (.tokenArrayEnd, true, s)
  | string {s : Location} : Scans 34 s (.tokenString, readString s)
  | comment {s : Location} : Scans 47 s (.tokenComment, readComment s)
  | number {c : UInt8} {s : Location} (hc : (48 ≤ c ∧ c ≤ 57) ∨ c = 45) :
      Scans c s (.tokenNumber, true, readNumber s)
  | trueName {s : Location} : Scans 116 s (.tokenTrue, matchPattern [114, 117, 101] s)
  | falseName {s : Location} : Scans 102 s (.tokenFalse, matchPattern [97, 108, 115, 101] s)
  | nullName {s : Location} : Scans 110 s (.tokenNull, matchPattern [117, 108, 108] s)
  | arraySeparator {s : Location} : Scans 44 s (.tokenArraySeparator, true, s)
  | memberSeparator {s : Location} : Scans 58 s (.tokenMemberSeparator, true, s)
  | endOfStream {s : Location} : Scans 0 s (.tokenEndOfStream, true, s)
  | stray {c : UInt8} {s : Location} : Scans c s (.tokenError, false, s)

/-- One case for each character a token can begin with. -/
theorem scans_scanToken (c : UInt8) (s : Location) : Scans c s (scanToken c s) := by
  have hcases : ∀ {b : Prop} [Decidable b] {x y : TokenType × Bool × Location},
      (b → Scans c s x) → Scans c s y → Scans c s (if b then x else y) := by
    intro b _ x y hx hy
    split_ifs with hb
    · exact hx hb
    · exact hy
  rw [scanToken]
  refine hcases (fun h => h ▸ .objectBegin) (hcases (fun h => h ▸ .objectEnd) ?_)
  refine hcases (fun h => h ▸ .arrayBegin) (hcases (fun h => h ▸ .arrayEnd) ?_)
  refine hcases (fun h => h ▸ .string) (hcases (fun h => h ▸ .comment) ?_)
  refine hcases (fun h => .number h) (hcases (fun h => h ▸ .trueName) ?_)
  refine hcases (fun h => h ▸ .falseName) (hcases (fun h => h ▸ .nullName) ?_)
  refine hcases (fun h => h ▸ .arraySeparator) (hcases (fun h => h ▸ .memberSeparator) ?_)
  exact hcases (fun h => h ▸ .endOfStream) .stray

/-- A token ends in what is left behind its first character. -/
theorem Scans.suffix {c : UInt8} {s : Location} {x : TokenType × Bool × Location}
    (h : Scans c s x) : x.2.2 <:+ s := by
  cases h with
  | string => exact readString_suffix s
  | comment => exact readComment_suffix s
  | number _ => exact readNumber_suffix s
  | trueName | falseName | nullName => exact matchPattern_suffix _ s
  | _ => exact List.suffix_rfl

/-- **What a token can be**, unless the document is at its end. -/
theorem readToken_cons {s u : Location} {c : UInt8} (h : skipSpaces s = c :: u) :
    ∃ x, Scans c u x ∧ readToken s = ⟨if x.2.1 then x.1 else .tokenError, c :: u, x.2.2⟩ :=
  ⟨scanToken c u, scans_scanToken c u, by rw [readToken, h]; rfl⟩

/-- At the end of the document there is the end of the stream, again and again. -/
theorem readToken_end {s : Location} (h : skipSpaces s = []) :
    readToken s = ⟨.tokenEndOfStream, [], []⟩ := by
  rw [readToken, h]
  rfl

theorem readToken_start (s : Location) : (readToken s).start = skipSpaces s := rfl

/-- **A token ends behind its start**, and has a byte unless the document is at its end. -/
theorem readToken_stop (s : Location) :
    (readToken s).stop <:+ (readToken s).start ∧
      (skipSpaces s ≠ [] → (readToken s).stop.length < (readToken s).start.length) := by
  rw [readToken_start]
  rcases hs : skipSpaces s with _ | ⟨c, u⟩
  · rw [readToken_end hs]
    exact ⟨List.suffix_rfl, fun h => absurd rfl h⟩
  · obtain ⟨x, hx, heq⟩ := readToken_cons hs
    have hsuffix := hx.suffix
    rw [heq]
    exact ⟨hsuffix.trans (List.suffix_cons c u), fun _ => Nat.lt_succ_of_le hsuffix.length_le⟩

theorem readToken_stop_suffix (s : Location) : (readToken s).stop <:+ s :=
  (readToken_stop s).1.trans (skipSpaces_suffix s)

/-- Each token uses up a byte, so the parser gets on. -/
theorem length_stop_lt {s : Location} (h : skipSpaces s ≠ []) :
    (readToken s).stop.length < s.length :=
  Nat.lt_of_lt_of_le ((readToken_stop s).2 h) (skipSpaces_suffix s).length_le

/-- Only the token for the end of the document has no byte. -/
theorem length_stop_lt_of_type {s : Location} (h : (readToken s).type ≠ .tokenEndOfStream) :
    (readToken s).stop.length < s.length := by
  refine length_stop_lt fun hend => h ?_
  rw [readToken_end hend]

/-- What a string token ends with. -/
theorem readString_eq_true {s t : Location} (h : readString s = (true, t)) :
    ∃ raw, s = raw ++ 34 :: t := by
  fun_induction readString s with
  | case1 => simp at h
  | case2 => simp at h
  | case3 d s ih =>
    obtain ⟨raw, rfl⟩ := ih h
    exact ⟨92 :: d :: raw, rfl⟩
  | case4 s =>
    obtain ⟨-, rfl⟩ := Prod.mk.inj h
    exact ⟨[], rfl⟩
  | case5 c s _ _ ih =>
    obtain ⟨raw, rfl⟩ := ih h
    exact ⟨c :: raw, rfl⟩

/-- **A string token** is a quote, the characters between, and a quote. -/
theorem readToken_string {s : Location} (h : (readToken s).type = .tokenString) :
    ∃ raw, (readToken s).start = 34 :: (raw ++ 34 :: (readToken s).stop) := by
  rcases hs : skipSpaces s with _ | ⟨c, u⟩
  · rw [readToken_end hs] at h
    exact absurd h (by simp)
  obtain ⟨x, hx, heq⟩ := readToken_cons hs
  rw [heq] at h ⊢
  cases hx with
  | string =>
    rcases hread : readString u with ⟨ok, t⟩
    rw [hread] at h
    cases ok with
    | false => simp at h
    | true =>
      obtain ⟨raw, rfl⟩ := readString_eq_true hread
      exact ⟨raw, rfl⟩
  | comment | trueName | falseName | nullName => split_ifs at h
  | _ => simp at h

theorem text_of_append {type : TokenType} {text stop : Location} :
    (Token.mk type (text ++ stop) stop).text = text := by
  rw [Token.text, List.length_append, Nat.add_sub_cancel, List.take_left]

/-- A number runs on over every character that can stand in one; `decodeNumber` looks at them
later. -/
theorem exists_readNumber (s : Location) :
    ∃ ds, s = ds ++ readNumber s ∧ ∀ c ∈ ds, isNumberChar c = true := by
  induction s with
  | nil => exact ⟨[], rfl, fun _ h => absurd h List.not_mem_nil⟩
  | cons c s ih =>
    rw [readNumber]
    split_ifs with hc
    · obtain ⟨ds, hds, hall⟩ := ih
      exact ⟨c :: ds, congrArg (c :: ·) hds, List.forall_mem_cons.mpr ⟨hc, hall⟩⟩
    · exact ⟨[], rfl, fun _ h => absurd h List.not_mem_nil⟩

/-- **A number token** is made of the characters of numbers. -/
theorem readToken_number {s : Location} (h : (readToken s).type = .tokenNumber) :
    (readToken s).text ≠ [] ∧ ∀ c ∈ (readToken s).text, isNumberChar c = true := by
  rcases hs : skipSpaces s with _ | ⟨c, u⟩
  · rw [readToken_end hs] at h
    exact absurd h (by simp)
  obtain ⟨x, hx, heq⟩ := readToken_cons hs
  rw [heq] at h ⊢
  cases hx with
  | number hc =>
    obtain ⟨ds, hds, hall⟩ := exists_readNumber u
    have htext : (Token.mk .tokenNumber (c :: u) (readNumber u)).text = c :: ds := by
      conv_lhs => rw [show c :: u = (c :: ds) ++ readNumber u from congrArg (c :: ·) hds]
      exact text_of_append
    have hfirst : isNumberChar c = true := by
      rw [isNumberChar]
      rcases hc with ⟨hlow, hhigh⟩ | rfl
      · simp [hlow, hhigh]
      · decide
    rw [if_pos rfl, htext]
    exact ⟨List.cons_ne_nil _ _, List.forall_mem_cons.mpr ⟨hfirst, hall⟩⟩
  | string | comment | trueName | falseName | nullName => split_ifs at h
  | _ => simp at h

/-! ## Loops over tokens -/

/-- With as much fuel as there are bytes the loop ends at a token it was to end at. -/
theorem readUntil_type {p : TokenType → Bool} (hp : p .tokenEndOfStream = true) {n : ℕ}
    {s : Location} (hn : s.length ≤ n) : p (readUntil p n s).type = true := by
  induction n generalizing s with
  | zero =>
    obtain rfl : s = [] := List.length_eq_zero_iff.mp (by omega)
    exact hp
  | succ n ih =>
    rw [readUntil]
    split_ifs with htoken
    · exact htoken
    -- a token that is passed over is not the end of the stream, so it has a byte
    · have htype : (readToken s).type ≠ .tokenEndOfStream := by
        intro hend
        exact htoken (hend ▸ hp)
      have hlt := length_stop_lt_of_type htype
      exact ih (by omega)

/-- The loop ends with a token of the document. -/
theorem exists_readUntil_eq (p : TokenType → Bool) (n : ℕ) (s : Location) :
    ∃ u, u <:+ s ∧ readUntil p n s = readToken u := by
  induction n generalizing s with
  | zero => exact ⟨s, List.suffix_rfl, rfl⟩
  | succ n ih =>
    rw [readUntil]
    split_ifs
    · exact ⟨s, List.suffix_rfl, rfl⟩
    · obtain ⟨u, hu, heq⟩ := ih (readToken s).stop
      exact ⟨u, hu.trans (readToken_stop_suffix s), heq⟩

theorem readUntil_stop_suffix (p : TokenType → Bool) (n : ℕ) (s : Location) :
    (readUntil p n s).stop <:+ s := by
  obtain ⟨u, hu, heq⟩ := exists_readUntil_eq p n s
  rw [heq]
  exact (readToken_stop_suffix u).trans hu

/-- More fuel than there are bytes changes nothing. -/
theorem readUntil_fuel {p : TokenType → Bool} (hp : p .tokenEndOfStream = true) {n m : ℕ}
    {s : Location} (hn : s.length ≤ n) (hm : s.length ≤ m) :
    readUntil p n s = readUntil p m s := by
  induction n generalizing m s with
  | zero =>
    obtain rfl : s = [] := List.length_eq_zero_iff.mp (by omega)
    cases m with
    | zero => rfl
    | succ m => exact (if_pos hp).symm
  | succ n ih =>
    rcases s with _ | ⟨c, u⟩
    · cases m with
      | zero => exact if_pos hp
      | succ m => exact (if_pos hp).trans (if_pos hp).symm
    obtain ⟨m, rfl⟩ : ∃ k, m = k + 1 := ⟨m - 1, by rw [List.length_cons] at hm; omega⟩
    rw [readUntil, readUntil]
    split_ifs with htoken
    · rfl
    · have hlt := length_stop_lt_of_type (s := c :: u) fun hend => htoken (hend ▸ hp)
      exact ih (by omega) (by omega)

/-- A comment is passed over. -/
theorem readPastComments_step (s : Location) :
    readPastComments s =
      if (readToken s).type = .tokenComment then readPastComments (readToken s).stop
      else readToken s := by
  have hp : decide (TokenType.tokenEndOfStream ≠ .tokenComment) = true := by decide
  rw [readPastComments, readPastComments,
    readUntil_fuel (m := s.length + 1) hp (Nat.le_refl _) (Nat.le_succ _), readUntil]
  by_cases hc : (readToken s).type = .tokenComment
  · have hlt := length_stop_lt_of_type (s := s) (by rw [hc]; decide)
    rw [if_neg (by simp [hc]), if_pos hc]
    exact readUntil_fuel hp (by omega) (Nat.le_refl _)
  · rw [if_pos (by simp [hc]), if_neg hc]

/-- The fuel is enough, since each comment uses up a byte. -/
theorem readPastComments_type (s : Location) : (readPastComments s).type ≠ .tokenComment :=
  of_decide_eq_true (readUntil_type (p := (· ≠ .tokenComment)) (by decide) (Nat.le_refl _))

end Reader

end MyServer
