import MyServer.Decoder

/-!
# The JSON reader (`json/reader.h`, `json_reader.cpp`)

`Json::Reader::parse`: a parser by recursive descent over the tokens, which records an error,
skips to where the object or array at hand seems to end, and returns false all the way up.
`nodes_` is the stack of the values that are being filled; here the value on top of it is
handed down and handed back, so that a failed parse leaves what had been read by then.

The recursion is on fuel. `parse` gives two units for each byte and one more, and that is
always enough (`calls_end`).

A parse succeeds without an error and fails with one, which lies in the document. Only strict
features add a second one, about the root (`parse_errors`).
-/

namespace MyServer

namespace Reader

/-- `Features` -/
structure Features : Type where
  /-- `allowComments_` -/
  allowComments : Bool
  /-- `strictRoot_` -/
  strictRoot : Bool

/-- `Features::all` -/
def Features.all : Features := ⟨true, false⟩

/-- `Features::strictMode` -/
def Features.strictMode : Features := ⟨false, true⟩

/-! ## The parser -/

/-- `recoverFromError`, which returns false -/
def State.recoverFromError (r : State) (v : Json) (skipUntilToken : TokenType) : Outcome :=
  let p : TokenType → Bool := fun type => type = skipUntilToken || type = .tokenEndOfStream
  ⟨false, v, { r with current := (readUntil p r.current.length r.current).stop }⟩

/-- `addErrorAndRecover` -/
def State.addErrorAndRecover (r : State) (v : Json) (message : String) (token : Token)
    (skipUntilToken : TokenType) : Outcome :=
  (r.addError v ⟨token, message, none⟩).state.recoverFromError v skipUntilToken

/-- The state after a token has been read. -/
def State.after (r : State) (token : Token) : State := { r with current := token.stop }

/-- A turn of the loop of `readObject`, up to the value of the member: the name of the member,
or the outcome of the whole function. `name` is the name of the member before. -/
def memberStart (name : List UInt8) (ms : List (CString × Json)) (r : State) :
    Except Outcome (List UInt8 × State) :=
  let tokenName := readPastComments r.current
  let r := r.after tokenName
  if tokenName.type = .tokenObjectEnd ∧ name = [] then .error ⟨true, .obj ms, r⟩
  else if tokenName.type ≠ .tokenString then
    .error (r.addErrorAndRecover (.obj ms) "Missing '\x7d' or object member name" tokenName
      .tokenObjectEnd)
  else
    match decodeRaw tokenName.raw with
    | .error e =>
      .error ((r.addError (.obj ms) (tokenName.mistake e)).state.recoverFromError (.obj ms)
        .tokenObjectEnd)
    | .ok name =>
      let colon := readToken r.current
      let r := r.after colon
      if colon.type ≠ .tokenMemberSeparator then
        .error (r.addErrorAndRecover (.obj ms) "Missing ':' after object member name" colon
          .tokenObjectEnd)
      else .ok (name, r)

/-- The rest of the turn, behind the value. Behind a comment any token passes for a comma. -/
def memberEnd (ms : List (CString × Json)) (r : State) : Except Outcome State :=
  let comma := readToken r.current
  let r := r.after comma
  if comma.type ≠ .tokenObjectEnd ∧ comma.type ≠ .tokenArraySeparator ∧
      comma.type ≠ .tokenComment then
    .error (r.addErrorAndRecover (.obj ms) "Missing ',' or '\x7d' in object declaration" comma
      .tokenObjectEnd)
  else
    let comma := if comma.type = .tokenComment then readPastComments r.current else comma
    let r := r.after comma
    if comma.type = .tokenObjectEnd then .error ⟨true, .obj ms, r⟩ else .ok r

/-- A turn of the loop of `readArray`, behind the value. No token has two types, so there is
never a bad one. -/
def itemEnd (items : List Json) (r : State) : Except Outcome State :=
  let token := readPastComments r.current
  let r := r.after token
  let badTokenType : Prop := token.type = .tokenArraySeparator ∧ token.type = .tokenArrayEnd
  if badTokenType then
    .error (r.addErrorAndRecover (.arr items) "Missing ',' or ']' in array declaration" token
      .tokenArrayEnd)
  else if token.type = .tokenArrayEnd then .error ⟨true, .arr items, r⟩
  else .ok r

section

variable (features : Features) (scan : List UInt8 → Option ℚ)

/-- `skipCommentTokens` -/
def skipCommentTokens (s : Location) : Token :=
  if features.allowComments then readPastComments s else readToken s

mutual

/-- `readValue`, with the value at the node -/
def readValue : ℕ → Json → State → Option Outcome
  | 0, _, _ => none
  | n + 1, v, r =>
    let token := skipCommentTokens features r.current
    let r := r.after token
    match token.type with
    | .tokenObjectBegin => readObject n [] [] r
    | .tokenArrayBegin =>
      -- the first part of `readArray`
      let r := { r with current := skipSpaces r.current }
      if peek r.current = 93 then some ⟨true, .arr [], r.after (readToken r.current)⟩
      else readArray n [] r
    | .tokenNumber => some (decodeNumber scan token v r)
    | .tokenString => some (decodeString token v r)
    | .tokenTrue => some ⟨true, .bool true, r⟩
    | .tokenFalse => some ⟨true, .bool false, r⟩
    | .tokenNull => some ⟨true, .null, r⟩
    | _ =>
      some (r.addError v ⟨token, "Syntax error: value, object or array expected.", none⟩)

/-- The loop of `readObject`: the name of the member before, and the members so far. -/
def readObject : ℕ → List UInt8 → List (CString × Json) → State → Option Outcome
  | 0, _, _, _ => none
  | n + 1, name, ms, r =>
    match memberStart name ms r with
    | .error o => some o
    | .ok (name, r) =>
      match readValue n (Json.find (cString name) ms) r with
      | none => none
      | some o =>
        let ms := Json.insertMember (cString name) o.value ms
        if o.ok then
          match memberEnd ms o.state with
          | .error o => some o
          | .ok r => readObject n name ms r
        else some (o.state.recoverFromError (.obj ms) .tokenObjectEnd)

/-- The loop of `readArray`: the elements so far. -/
def readArray : ℕ → List Json → State → Option Outcome
  | 0, _, _ => none
  | n + 1, items, r =>
    match readValue n .null r with
    | none => none
    | some o =>
      let items := items ++ [o.value]
      if o.ok then
        match itemEnd items o.state with
        | .error o => some o
        | .ok r => readArray n items r
      else some (o.state.recoverFromError (.arr items) .tokenArrayEnd)

end

/-- `isArray() || isObject()` -/
def isArrayOrObject : Json → Bool
  | .null | .arr _ | .obj _ => true
  | _ => false

/-- The error about a root that is neither an array nor an object. -/
def rootError (document : List UInt8) : ErrorInfo where
  token := ⟨.tokenError, document, []⟩
  message := "A valid JSON document must be either an array or an object value."
  extra := none

/-- `parse`, without the collecting of comments. One token behind the value is read, and not
looked at. -/
def parse (document : List UInt8) (root : Json) : Option Outcome :=
  match readValue features scan (2 * document.length + 1) root ⟨document, [], false⟩ with
  | none => none
  | some o =>
    let r := o.state.after (skipCommentTokens features o.state.current)
    if features.strictRoot && !isArrayOrObject o.value then
      some (r.addError o.value (rootError document))
    else some { o with state := r }

end

/-! ## Tokens of the document -/

/-- `t` is a token that is read of `s`, there or further on. -/
def Token.Of (s : Location) (t : Token) : Prop := ∃ u, u <:+ s ∧ t = readToken u

theorem of_readToken (s : Location) : (readToken s).Of s := ⟨s, List.suffix_rfl, rfl⟩

/-- Skipping comments goes forward only, so the token behind them is one of the text. -/
theorem of_readPastComments (s : Location) : (readPastComments s).Of s :=
  exists_readUntil_eq _ _ s

/-- With or without comments, the token lies in the text from here on. -/
theorem of_skipCommentTokens (features : Features) (s : Location) :
    (skipCommentTokens features s).Of s := by
  rw [skipCommentTokens]
  split_ifs
  · exact of_readPastComments s
  · exact of_readToken s

namespace Token.Of

variable {s u : Location} {t : Token}

/-- A token of a later part of the document is one of the document. -/
theorem mono (h : t.Of u) (hu : u <:+ s) : t.Of s := by
  obtain ⟨x, hx, rfl⟩ := h
  exact ⟨x, hx.trans hu, rfl⟩

/-- A token ends where it begins or behind that. -/
theorem stop_start (h : t.Of s) : t.stop <:+ t.start := by
  obtain ⟨u, -, rfl⟩ := h
  exact (readToken_stop u).1

/-- It begins in the text, behind the white space. -/
theorem start_suffix (h : t.Of s) : t.start <:+ s := by
  obtain ⟨u, hu, rfl⟩ := h
  exact (skipSpaces_suffix u).trans hu

theorem stop_suffix (h : t.Of s) : t.stop <:+ s := h.stop_start.trans h.start_suffix

/-- A token that is not the end of the stream takes at least one byte. This is what lets the parse
end. -/
theorem length_lt (h : t.Of s) (htype : t.type ≠ .tokenEndOfStream) :
    t.stop.length < s.length := by
  obtain ⟨u, hu, rfl⟩ := h
  exact Nat.lt_of_lt_of_le (length_stop_lt_of_type htype) hu.length_le

end Token.Of

/-! ## Errors in the document -/

/-- The error was met in `s`: so says its token, and its extra location is within the token. -/
structure ErrorInfo.In (s : Location) (e : ErrorInfo) : Prop where
  /-- the token is one of what was left of the document -/
  token : e.token.start <:+ s ∧ e.token.stop <:+ e.token.start
  /-- where to look for detail -/
  extra : ∀ x ∈ e.extra, x <:+ e.token.start ∧ e.token.stop <:+ x

/-- An error in a later part of the document lies in the document. -/
theorem ErrorInfo.In.mono {s u : Location} {e : ErrorInfo} (h : e.In u) (hu : u <:+ s) : e.In s :=
  ⟨⟨h.token.1.trans hu, h.token.2⟩, h.extra⟩

theorem Token.Of.error {s : Location} {t : Token} (h : t.Of s) (message : String) :
    (ErrorInfo.mk t message none).In s :=
  ⟨⟨h.start_suffix, h.stop_start⟩, fun _ hx => absurd hx (by simp)⟩

/-- The text of a string token. -/
theorem text_of_string {t : Token} {raw : List UInt8}
    (h : t.start = 34 :: (raw ++ 34 :: t.stop)) : t.text = 34 :: (raw ++ [34]) ∧ t.raw = raw := by
  have happend : t.start = (34 :: (raw ++ [34])) ++ t.stop := by simp [h]
  have htext : t.text = 34 :: (raw ++ [34]) := by
    rw [Token.text, happend, List.length_append, Nat.add_sub_cancel, List.take_left]
  exact ⟨htext, by rw [Token.raw, htext, List.tail_cons, List.dropLast_concat]⟩

/-- **A mistake in a string is met between its quotes.** -/
theorem Token.Of.mistake {s : Location} {t : Token} (h : t.Of s) (htype : t.type = .tokenString)
    {e : Mistake} (he : decodeRaw t.raw = .error e) : (t.mistake e).In s := by
  refine ⟨⟨h.start_suffix, h.stop_start⟩, fun x hx => ?_⟩
  obtain rfl := Option.some.inj hx
  obtain ⟨u, -, rfl⟩ := h
  obtain ⟨raw, hstart⟩ := readToken_string htype
  generalize readToken u = t at *
  obtain ⟨htext, hraw⟩ := text_of_string hstart
  have hquote : t.start.drop (t.text.length - 1) = 34 :: t.stop := by
    have happend : t.start = (34 :: raw) ++ 34 :: t.stop := hstart
    rw [htext, happend]
    exact List.drop_left' (by simp)
  obtain ⟨front, hfront⟩ : e.2 <:+ raw := hraw ▸ decodeLoop_error he
  rw [hquote]
  change _ <:+ t.start ∧ t.stop <:+ _
  refine ⟨⟨34 :: front, ?_⟩, ⟨e.2 ++ [34], by simp⟩⟩
  rw [hstart, ← hfront]
  simp

/-! ## What a call comes to -/

/-- A number that is too long for the array of `decodeDouble` is still to be read. -/
def State.LongNumber (r : State) : Prop :=
  ∃ t : Token, t.Of r.current ∧ t.type = .tokenNumber ∧ overflows t.text = true

/-- A long number that is still ahead was ahead before. -/
theorem State.LongNumber.mono {r r' : State} (h : r'.LongNumber)
    (hcurrent : r'.current <:+ r.current) : r.LongNumber := by
  obtain ⟨t, ht, htype, hlong⟩ := h
  exact ⟨t, ht.mono hcurrent, htype, hlong⟩

/-- The state `r'` is one after `r`, without a new error. -/
structure State.Later (r r' : State) : Prop where
  /-- no error -/
  errors : r'.errors = r.errors
  /-- it reads on -/
  current : r'.current <:+ r.current
  /-- what an overrun takes -/
  overrun : r'.overrun = true → r.overrun = true ∨ r.LongNumber
  /-- it is not undone -/
  kept : r.overrun = true → r'.overrun = true

/-- Parts of a parse that follow each other make up one. -/
theorem State.Later.trans {r r₁ r₂ : State} (h : r.Later r₁) (h' : r₁.Later r₂) : r.Later r₂ := by
  refine ⟨h'.errors.trans h.errors, h'.current.trans h.current, fun hover => ?_,
    fun hover => h'.kept (h.kept hover)⟩
  rcases h'.overrun hover with hover | hlong
  · exact h.overrun hover
  · exact .inr (hlong.mono h.current)

/-- Going behind a token is going forward. -/
theorem later_after {r : State} {t : Token} (ht : t.Of r.current) : r.Later (r.after t) :=
  ⟨rfl, ht.stop_suffix, .inl, id⟩

/-- What holds of a call from the state `r`: it reads on, without an error when it succeeds and
then at least one byte, and with one more error when it fails. -/
structure Post (r : State) (o : Outcome) : Prop where
  /-- it reads on -/
  current : o.state.current <:+ r.current
  /-- on success -/
  success : o.ok = true → o.state.errors = r.errors ∧
    o.state.current.length < r.current.length
  /-- on failure -/
  failure : o.ok = false → ∃ e, o.state.errors = r.errors ++ [e] ∧ e.In r.current
  /-- what an overrun takes -/
  overrun : o.state.overrun = true → r.overrun = true ∨ r.LongNumber
  /-- it is not undone -/
  kept : r.overrun = true → o.state.overrun = true

/-- After a success nothing was reported, so that the parse can go on as from the start. -/
theorem Post.later {r : State} {o : Outcome} (h : Post r o) (hok : o.ok = true) :
    r.Later o.state := ⟨(h.success hok).1, h.current, h.overrun, h.kept⟩

/-- A call from a later state. -/
theorem Post.of_later {r r' : State} {o : Outcome} (h : Post r' o) (hr : r.Later r') :
    Post r o := by
  refine ⟨h.current.trans hr.current, fun hok => ?_, fun hok => ?_, fun hover => ?_,
    fun hover => h.kept (hr.kept hover)⟩
  · obtain ⟨hsame, hlt⟩ := h.success hok
    exact ⟨hsame.trans hr.errors, Nat.lt_of_lt_of_le hlt hr.current.length_le⟩
  · obtain ⟨e, he, hin⟩ := h.failure hok
    exact ⟨e, hr.errors ▸ he, hin.mono hr.current⟩
  · rcases h.overrun hover with hover | hlong
    · exact hr.overrun hover
    · exact .inr (hlong.mono hr.current)

/-- A success, with a token read at the end. -/
theorem Post.of_success {r r' : State} {v : Json} {t : Token} (ht : t.Of r.current)
    (htype : t.type ≠ .tokenEndOfStream) (hr : r.Later r') (hcurrent : r'.current = t.stop) :
    Post r ⟨true, v, r'⟩ :=
  ⟨hr.current, fun _ => ⟨hr.errors, hcurrent ▸ ht.length_lt htype⟩, fun h => absurd h (by simp),
    hr.overrun, hr.kept⟩

/-- A closing token that was read ends its value without an error. -/
theorem Post.of_close {r : State} {v : Json} {t : Token} (ht : t.Of r.current)
    (htype : t.type ≠ .tokenEndOfStream) : Post r ⟨true, v, r.after t⟩ :=
  Post.of_success ht htype (later_after ht) rfl

/-- A failure with a new error. -/
theorem Post.of_error {r r' : State} {v : Json} {e : ErrorInfo} (hr : r.Later r')
    (he : e.In r.current) : Post r (r'.addError v e) :=
  ⟨hr.current, fun h => absurd h (by simp [State.addError]),
    fun _ => ⟨e, by rw [State.addError, hr.errors], he⟩, hr.overrun, hr.kept⟩

/-- After a failure tokens are skipped. -/
theorem Post.recover {r : State} {o : Outcome} (h : Post r o) (hok : o.ok = false) (v : Json)
    (skipUntilToken : TokenType) : Post r (o.state.recoverFromError v skipUntilToken) :=
  ⟨(readUntil_stop_suffix _ _ _).trans h.current,
    fun h => absurd h (by simp [State.recoverFromError]), fun _ => h.failure hok, h.overrun,
    h.kept⟩

/-- A failure reports its one error and skips ahead; nothing behind it is read as a value, so that
no second error follows. -/
theorem Post.of_addErrorAndRecover {r r' : State} {v : Json} {message : String} {t : Token}
    {skipUntilToken : TokenType} (hr : r.Later r') (ht : t.Of r.current) :
    Post r (r'.addErrorAndRecover v message t skipUntilToken) :=
  (Post.of_error (v := v) hr (ht.error message)).recover rfl v skipUntilToken

/-! ## The parts of a turn -/

/-- What the start of a turn of `readObject` can come to. -/
inductive MemberStart (name : List UInt8) (ms : List (CString × Json)) (r : State) :
    Except Outcome (List UInt8 × State) → Prop where
  /-- the brace, behind a name that is empty -/
  | close {t : Token} (ht : readPastComments r.current = t) (htype : t.type = .tokenObjectEnd)
    (hname : name = []) : MemberStart name ms r (.error ⟨true, .obj ms, r.after t⟩)
  /-- a name and a colon -/
  | member {t colon : Token} {name' : List UInt8} (ht : readPastComments r.current = t)
    (htype : t.type = .tokenString) (hname : decodeRaw t.raw = .ok name')
    (hcolon : readToken t.stop = colon) (hsep : colon.type = .tokenMemberSeparator) :
    MemberStart name ms r (.ok (name', r.after colon))
  /-- an error -/
  | fail {o : Outcome} (hok : o.ok = false) (hpost : Post r o) : MemberStart name ms r (.error o)

/-- The branches of `readObject` in front of a value, with the state that each one leaves. -/
theorem memberStart_cases (name : List UInt8) (ms : List (CString × Json)) (r : State) :
    MemberStart name ms r (memberStart name ms r) := by
  have hname := of_readPastComments r.current
  rw [memberStart]
  generalize ht : readPastComments r.current = t at hname ⊢
  have hlater := later_after hname
  have hcolon := of_readToken t.stop
  simp only
  by_cases hclose : t.type = .tokenObjectEnd ∧ name = []
  · rw [if_pos hclose]
    exact .close ht hclose.1 hclose.2
  rw [if_neg hclose]
  by_cases hstring : t.type ≠ .tokenString
  · rw [if_pos hstring]
    exact .fail rfl (Post.of_addErrorAndRecover hlater hname)
  rw [if_neg hstring]
  have htype : t.type = .tokenString := not_not.mp hstring
  rcases hdecode : decodeRaw t.raw with e | name'
  · have hmistake := hname.mistake htype hdecode
    exact .fail rfl ((Post.of_error (v := .obj ms) hlater hmistake).recover rfl _ _)
  have hplace : (r.after t).current = t.stop := rfl
  by_cases hsep : (readToken t.stop).type ≠ .tokenMemberSeparator
  · simp only [hplace, if_pos hsep]
    refine .fail rfl (Post.of_addErrorAndRecover (hlater.trans ?_) (hcolon.mono hlater.current))
    exact later_after hcolon
  · simp only [hplace, if_neg hsep]
    exact .member ht htype hdecode rfl (not_not.mp hsep)

/-- What its end can come to: the token behind the comments decides. -/
inductive MemberEnd (ms : List (CString × Json)) (r : State) : Except Outcome State → Prop where
  /-- the brace -/
  | close {t : Token} (ht : readPastComments r.current = t) (htype : t.type = .tokenObjectEnd) :
    MemberEnd ms r (.error ⟨true, .obj ms, r.after t⟩)
  /-- a comma, or any token behind a comment -/
  | next {t : Token} (ht : readPastComments r.current = t) (htype : t.type ≠ .tokenObjectEnd)
    (hfirst : (readToken r.current).type = .tokenArraySeparator ∨
      (readToken r.current).type = .tokenComment) : MemberEnd ms r (.ok (r.after t))
  /-- an error -/
  | fail {o : Outcome} (hok : o.ok = false) (hpost : Post r o) : MemberEnd ms r (.error o)

/-- The branches behind a value: a comma, the closing brace, or an error. -/
theorem memberEnd_cases (ms : List (CString × Json)) (r : State) :
    MemberEnd ms r (memberEnd ms r) := by
  have hcomma := of_readToken r.current
  have hstep := readPastComments_step r.current
  rw [memberEnd]
  by_cases hbad : (readToken r.current).type ≠ .tokenObjectEnd ∧
      (readToken r.current).type ≠ .tokenArraySeparator ∧
      (readToken r.current).type ≠ .tokenComment
  · simp only [if_pos hbad]
    exact .fail rfl (Post.of_addErrorAndRecover (later_after hcomma) hcomma)
  -- the token behind the comments, if there are any
  have hnext : (if (readToken r.current).type = .tokenComment then
      readPastComments (r.after (readToken r.current)).current else readToken r.current) =
      readPastComments r.current := hstep.symm
  simp only [if_neg hbad, hnext]
  by_cases hclose : (readPastComments r.current).type = .tokenObjectEnd
  · rw [if_pos hclose]
    exact .close rfl hclose
  · rw [if_neg hclose]
    refine .next rfl hclose ?_
    by_contra hnot
    rw [not_or] at hnot
    refine hbad ⟨fun h => hclose ?_, hnot⟩
    rw [hstep, if_neg hnot.2, h]

/-- What the end of a turn of `readArray` can come to. -/
inductive ItemEnd (items : List Json) (r : State) : Except Outcome State → Prop where
  /-- the bracket -/
  | close {t : Token} (ht : readPastComments r.current = t) (htype : t.type = .tokenArrayEnd) :
    ItemEnd items r (.error ⟨true, .arr items, r.after t⟩)
  /-- any other token -/
  | next {t : Token} (ht : readPastComments r.current = t) (htype : t.type ≠ .tokenArrayEnd) :
    ItemEnd items r (.ok (r.after t))

/-- The same for an array, where any token but the closing bracket passes for a comma. -/
theorem itemEnd_cases (items : List Json) (r : State) : ItemEnd items r (itemEnd items r) := by
  rw [itemEnd]
  generalize ht : readPastComments r.current = t
  have hgood : ¬ (t.type = .tokenArraySeparator ∧ t.type = .tokenArrayEnd) := by
    rintro ⟨hcomma, hclose⟩
    exact absurd (hcomma.symm.trans hclose) (by decide)
  simp only [if_neg hgood]
  by_cases hclose : t.type = .tokenArrayEnd
  · rw [if_pos hclose]
    exact .close ht hclose
  · rw [if_neg hclose]
    exact .next ht hclose

/-! ## All calls end -/

section

variable {features : Features} {scan : List UInt8 → Option ℚ}

/-- A number that does not scan is an error about its token; the flag for the write behind the
buffer is the one thing that can go wrong besides. -/
theorem decodeDouble_post {r : State} {t : Token} (v : Json) (ht : t.Of r.current)
    (htype : t.type = .tokenNumber) : Post r (decodeDouble scan t v (r.after t)) := by
  have hlater : r.Later { r.after t with
      overrun := (r.after t).overrun || overflows t.text } := by
    refine ⟨rfl, ht.stop_suffix, fun hover => ?_, fun hover => ?_⟩
    · exact ((Bool.or_eq_true _ _).mp hover).imp_right fun hlong => ⟨t, ht, htype, hlong⟩
    · exact (Bool.or_eq_true _ _).mpr (.inl hover)
  rw [decodeDouble]
  cases scan (scanned t.text) with
  | none => exact Post.of_error hlater (ht.error _)
  | some q => exact Post.of_success ht (by rw [htype]; decide) hlater rfl

/-- An integer that fits is taken, and every other number goes to `decodeDouble`. -/
theorem decodeNumber_post {r : State} {t : Token} (v : Json) (ht : t.Of r.current)
    (htype : t.type = .tokenNumber) : Post r (decodeNumber scan t v (r.after t)) := by
  rw [decodeNumber]
  rcases figure t.text with ⟨isNegative, n | _ | _⟩
  · exact Post.of_close ht (by rw [htype]; decide)
  · exact decodeDouble_post v ht htype
  · exact Post.of_error (later_after ht) (ht.error _)

/-- A bad escape is an error inside of the token. -/
theorem decodeString_post {r : State} {t : Token} (v : Json) (ht : t.Of r.current)
    (htype : t.type = .tokenString) : Post r (decodeString t v (r.after t)) := by
  rw [decodeString]
  rcases hdecode : decodeRaw t.raw with e | decoded
  · exact Post.of_error (later_after ht) (ht.mistake htype hdecode)
  · exact Post.of_close ht (by rw [htype]; decide)

/-- A call that ends, with its postcondition. -/
def Ends (r : State) (x : Option Outcome) : Prop := ∃ o, x = some o ∧ Post r o

/-- A part that ends after a part that went forward ends from the start of both. -/
theorem Ends.of_later {r r' : State} {x : Option Outcome} (h : Ends r' x) (hr : r.Later r') :
    Ends r x := by
  obtain ⟨o, ho, hpost⟩ := h
  exact ⟨o, ho, hpost.of_later hr⟩

theorem ends_some {r : State} {o : Outcome} (h : Post r o) : Ends r (some o) := ⟨o, rfl, h⟩

/-- **Step**: a value ends when objects and arrays do. -/
theorem readValue_ends {n : ℕ}
    (hobject : ∀ r : State, 2 * r.current.length + 2 ≤ n →
      Ends r (readObject features scan n [] [] r))
    (harray : ∀ r : State, 2 * r.current.length + 2 ≤ n → Ends r (readArray features scan n [] r))
    {r : State} (hn : 2 * r.current.length + 1 ≤ n + 1) (v : Json) :
    Ends r (readValue features scan (n + 1) v r) := by
  have ht := of_skipCommentTokens features r.current
  rw [readValue]
  generalize skipCommentTokens features r.current = t at ht ⊢
  have hlater := later_after ht
  have hlt : t.type ≠ .tokenEndOfStream → 2 * (r.after t).current.length + 2 ≤ n := by
    intro htype
    have := ht.length_lt htype
    change 2 * t.stop.length + 2 ≤ n
    omega
  simp only
  cases htype : t.type with
  | tokenObjectBegin => exact (hobject _ (hlt (by rw [htype]; decide))).of_later hlater
  | tokenArrayBegin =>
    have hskip := skipSpaces_suffix (r.after t).current
    simp only
    split_ifs with hclose
    · have hend := of_readToken (skipSpaces (r.after t).current)
      refine ends_some ⟨hend.stop_suffix.trans (hskip.trans hlater.current), fun _ => ⟨rfl, ?_⟩,
        fun h => absurd h (by simp), .inl, id⟩
      exact Nat.lt_of_le_of_lt (hend.stop_suffix.trans hskip).length_le
        (ht.length_lt (by rw [htype]; decide))
    · have hlen := hskip.length_le
      have hroom := hlt (by rw [htype]; decide)
      exact (harray _ (by simp only; omega)).of_later ⟨rfl, hskip.trans hlater.current, .inl, id⟩
  | tokenNumber => exact ends_some (decodeNumber_post v ht htype)
  | tokenString => exact ends_some (decodeString_post v ht htype)
  | tokenTrue | tokenFalse | tokenNull =>
    exact ends_some (Post.of_close ht (by rw [htype]; decide))
  | _ => exact ends_some (Post.of_error hlater (ht.error _))

/-- **Step**: an object ends when its members do, and the objects from further on. -/
theorem readObject_ends {n : ℕ}
    (hvalue : ∀ (v : Json) (r : State), 2 * r.current.length + 1 ≤ n →
      Ends r (readValue features scan n v r))
    (hobject : ∀ (name : List UInt8) (ms : List (CString × Json)) (r : State),
      2 * r.current.length + 2 ≤ n → Ends r (readObject features scan n name ms r))
    {r : State} (hn : 2 * r.current.length + 2 ≤ n + 1) (name : List UInt8)
    (ms : List (CString × Json)) : Ends r (readObject features scan (n + 1) name ms r) := by
  have hstart := memberStart_cases name ms r
  have hof := of_readPastComments r.current
  rw [readObject]
  generalize memberStart name ms r = x at hstart ⊢
  cases hstart with
  | close ht htype _ =>
    subst ht
    exact ends_some (Post.of_close hof (by rw [htype]; decide))
  | fail _ hpost => exact ends_some hpost
  | @member t colon name' ht htype _ hcolon hsep =>
    subst ht hcolon
    have hplace := of_readToken (readPastComments r.current).stop
    have hlater : r.Later (r.after (readToken (readPastComments r.current).stop)) :=
      (later_after hof).trans (later_after hplace)
    have hlt : (readToken (readPastComments r.current).stop).stop.length < r.current.length :=
      Nat.lt_of_le_of_lt hplace.stop_suffix.length_le (hof.length_lt (by rw [htype]; decide))
    generalize readToken (readPastComments r.current).stop = colon at hlater hlt ⊢
    obtain ⟨o, ho, hpost⟩ := hvalue (Json.find (cString name') ms) (r.after colon)
      (by change 2 * colon.stop.length + 1 ≤ n; omega)
    simp only [ho]
    cases hok : o.ok with
    | false =>
      rw [if_neg Bool.false_ne_true]
      exact ends_some ((hpost.of_later hlater).recover hok _ _)
    | true =>
      obtain ⟨-, hgone⟩ := hpost.success hok
      have hrest := hlater.trans (hpost.later hok)
      have hend := memberEnd_cases (Json.insertMember (cString name') o.value ms) o.state
      have hnext := of_readPastComments o.state.current
      rw [if_pos rfl]
      generalize memberEnd (Json.insertMember (cString name') o.value ms) o.state = x at hend ⊢
      cases hend with
      | close ht htype =>
        subst ht
        exact ends_some ((Post.of_close hnext (by rw [htype]; decide)).of_later hrest)
      | fail _ hpost => exact ends_some (hpost.of_later hrest)
      | next ht _ _ =>
        subst ht
        have hlen := hnext.stop_suffix.length_le
        refine (hobject _ _ _ ?_).of_later (hrest.trans (later_after hnext))
        change 2 * (readPastComments o.state.current).stop.length + 2 ≤ n
        change o.state.current.length < colon.stop.length at hgone
        omega

/-- **Step**: so does an array. -/
theorem readArray_ends {n : ℕ}
    (hvalue : ∀ (v : Json) (r : State), 2 * r.current.length + 1 ≤ n →
      Ends r (readValue features scan n v r))
    (harray : ∀ (items : List Json) (r : State), 2 * r.current.length + 2 ≤ n →
      Ends r (readArray features scan n items r))
    {r : State} (hn : 2 * r.current.length + 2 ≤ n + 1) (items : List Json) :
    Ends r (readArray features scan (n + 1) items r) := by
  obtain ⟨o, ho, hpost⟩ := hvalue .null r (by omega)
  rw [readArray, ho]
  simp only
  cases hok : o.ok with
  | false =>
    rw [if_neg Bool.false_ne_true]
    exact ends_some (hpost.recover hok _ _)
  | true =>
    obtain ⟨-, hgone⟩ := hpost.success hok
    have hrest := hpost.later hok
    have hend := itemEnd_cases (items ++ [o.value]) o.state
    have hnext := of_readPastComments o.state.current
    rw [if_pos rfl]
    generalize itemEnd (items ++ [o.value]) o.state = x at hend ⊢
    cases hend with
    | close ht htype =>
      subst ht
      exact ends_some ((Post.of_close hnext (by rw [htype]; decide)).of_later hrest)
    | next ht _ =>
      subst ht
      have hlen := hnext.stop_suffix.length_le
      refine (harray _ _ ?_).of_later (hrest.trans (later_after hnext))
      change 2 * (readPastComments o.state.current).stop.length + 2 ≤ n
      omega

/-- **All calls end**, with two units of fuel for each byte that is left. -/
theorem calls_end (features : Features) (scan : List UInt8 → Option ℚ) (n : ℕ) :
    (∀ (v : Json) (r : State), 2 * r.current.length + 1 ≤ n →
      Ends r (readValue features scan n v r)) ∧
    (∀ (name : List UInt8) (ms : List (CString × Json)) (r : State),
      2 * r.current.length + 2 ≤ n → Ends r (readObject features scan n name ms r)) ∧
    (∀ (items : List Json) (r : State), 2 * r.current.length + 2 ≤ n →
      Ends r (readArray features scan n items r)) := by
  induction n with
  | zero => exact ⟨fun _ _ h => absurd h (by omega), fun _ _ _ h => absurd h (by omega),
      fun _ _ h => absurd h (by omega)⟩
  | succ n ih =>
    obtain ⟨hvalue, hobject, harray⟩ := ih
    exact ⟨fun v r hn => readValue_ends (hobject [] []) (harray []) hn v,
      fun name ms r hn => readObject_ends hvalue hobject hn name ms,
      fun items r hn => readArray_ends hvalue harray hn items⟩

end

/-! ## Parses -/

/-- An array that overflows has met a number of 32 bytes, or of `2 ^ 31` and more. -/
theorem length_of_overflows {text : List UInt8} (h : overflows text = true) :
    text.length = 32 ∨ 2 ^ 31 ≤ text.length := by
  by_cases hlen : text.length < 2 ^ 31
  · exact .inl ((overflows_iff hlen).mp h)
  · exact .inr (Nat.not_lt.mp hlen)

/-- The error about the root has the whole document for its token. -/
theorem rootError_in (document : List UInt8) : (rootError document).In document :=
  ⟨⟨List.suffix_rfl, List.nil_suffix⟩, fun _ hx => absurd hx (by simp [rootError])⟩

/-- **Every parse ends, and its errors tell how**: it succeeds without one. Of the tokens there
is at most one error, as a failure is not recovered from but only skipped; behind it stands the
error about the root, just when the features are strict and the root is a scalar. Each error
lies in the document. The parse writes behind a buffer only on a number of 32 bytes, or of
`2 ^ 31` and more. -/
theorem parse_errors (features : Features) (scan : List UInt8 → Option ℚ) (document : List UInt8)
    (root : Json) :
    ∃ o, parse features scan document root = some o ∧ (o.ok = true ↔ o.state.errors = []) ∧
      (∃ es : List ErrorInfo, es.length ≤ 1 ∧ o.state.errors = es ++
        if features.strictRoot && !isArrayOrObject o.value then [rootError document] else []) ∧
      (∀ e ∈ o.state.errors, e.In document) ∧
      (o.state.overrun = true → ∃ t : Token, t.Of document ∧ t.type = .tokenNumber ∧
        (t.text.length = 32 ∨ 2 ^ 31 ≤ t.text.length)) := by
  obtain ⟨o, ho, hpost⟩ := (calls_end features scan (2 * document.length + 1)).1 root
    ⟨document, [], false⟩ (Nat.le_refl _)
  have herrors : (o.ok = true ↔ o.state.errors = []) ∧ o.state.errors.length ≤ 1 ∧
      ∀ e ∈ o.state.errors, e.In document := by
    cases hok : o.ok with
    | true => simp [(hpost.success hok).1]
    | false =>
      obtain ⟨e, hone, hin⟩ := hpost.failure hok
      rw [List.nil_append] at hone
      simp [hone, hin]
  obtain ⟨hiff, hone, hin⟩ := herrors
  have hover : o.state.overrun = true → ∃ t : Token, t.Of document ∧ t.type = .tokenNumber ∧
      (t.text.length = 32 ∨ 2 ^ 31 ≤ t.text.length) := by
    intro hover
    rcases hpost.overrun hover with hstart | ⟨t, ht, htype, hlong⟩
    · exact absurd hstart (by simp)
    · exact ⟨t, ht, htype, length_of_overflows hlong⟩
  rw [parse, ho]
  simp only
  by_cases hstrict : (features.strictRoot && !isArrayOrObject o.value) = true
  -- the root is a scalar, with strict features
  · rw [if_pos hstrict]
    refine ⟨_, rfl, by simp [State.addError], ⟨o.state.errors, hone, ?_⟩, fun e he => ?_, hover⟩
    · exact congrArg (o.state.errors ++ ·) (if_pos hstrict).symm
    · rcases List.mem_append.mp he with he | he
      · exact hin e he
      · obtain rfl := List.mem_singleton.mp he
        exact rootError_in document
  · rw [if_neg hstrict]
    refine ⟨_, rfl, hiff, ⟨o.state.errors, hone, ?_⟩, hin, hover⟩
    rw [if_neg hstrict, List.append_nil]
    rfl

/-! ## Positions in a document -/

/-- The loop of `getLocationLineAndColumn`, from `current` on: where the last line starts, and
how many lines were passed. -/
def lineLoop (location : Location) : Location → Location → ℕ → Location × ℕ
  | [], lastLineStart, line => (lastLineStart, line)
  | c :: s, lastLineStart, line =>
    if location.length < s.length + 1 then
      if c = 13 then
        match s with
        | [] => lineLoop location [] [] (line + 1)
        | d :: s =>
          if d = 10 then lineLoop location s s (line + 1)
          else lineLoop location (d :: s) (d :: s) (line + 1)
      else if c = 10 then lineLoop location s s (line + 1)
      else lineLoop location s lastLineStart line
    else (lastLineStart, line)

/-- `getLocationLineAndColumn`; both numbers are `int`s -/
def getLocationLineAndColumn (document location : Location) : Int32 × Int32 :=
  let (lastLineStart, line) := lineLoop location document document 0
  (.ofInt line + 1, .ofInt (lastLineStart.length - location.length) + 1)

/-- `"Line %d, Column %d"` -/
def locationText (document location : Location) : String :=
  let (line, column) := getLocationLineAndColumn document location
  "Line " ++ toString line ++ ", Column " ++ toString column

/-- `getFormatedErrorMessages` -/
def getFormatedErrorMessages (document : Location) (errors : List ErrorInfo) : String :=
  errors.foldl (fun formattedMessage error =>
    formattedMessage ++ "* " ++ locationText document error.token.start ++ "\n" ++
      "  " ++ error.message ++ "\n" ++
      match error.extra with
      | none => ""
      | some extra => "See " ++ locationText document extra ++ " for detail.\n") ""

/-- The loop only counts up, and while it counts nothing the line is the same. -/
theorem le_lineLoop (location current lastLineStart : Location) (line : ℕ) :
    line ≤ (lineLoop location current lastLineStart line).2 ∧
      ((lineLoop location current lastLineStart line).2 = line →
        (lineLoop location current lastLineStart line).1 = lastLineStart) := by
  fun_induction lineLoop location current lastLineStart line with
  | case1 => exact ⟨Nat.le_refl _, fun _ => rfl⟩
  | case2 lastLineStart line _ ih => exact ⟨by omega, fun h => absurd h (by omega)⟩
  | case3 lastLineStart line s _ ih => exact ⟨by omega, fun h => absurd h (by omega)⟩
  | case4 lastLineStart line d s _ _ ih => exact ⟨by omega, fun h => absurd h (by omega)⟩
  | case5 s lastLineStart line _ _ ih => exact ⟨by omega, fun h => absurd h (by omega)⟩
  | case6 c s lastLineStart line _ _ _ ih => exact ih
  | case7 => exact ⟨Nat.le_refl _, fun _ => rfl⟩

/-- A line that was passed had its end in the document. -/
theorem lineLoop_le (location current lastLineStart : Location) (line : ℕ) :
    (lineLoop location current lastLineStart line).2 ≤ line + current.length := by
  fun_induction lineLoop location current lastLineStart line with
  | case1 => exact Nat.le_refl _
  | case7 => exact Nat.le_add_right ..
  | case2 | case3 | case4 | case5 | case6 =>
    simp only [List.length_cons, List.length_nil] at *
    omega

/-- The loop for the place that comes first stops, and the other goes on. -/
theorem lineLoop_stop {location other : Location} {c : UInt8} {s lastLineStart : Location}
    {line : ℕ} (h : ¬ location.length < s.length + 1)
    (hline : (lineLoop location (c :: s) lastLineStart line).2 =
      (lineLoop other (c :: s) lastLineStart line).2) :
    (lineLoop location (c :: s) lastLineStart line).1 =
      (lineLoop other (c :: s) lastLineStart line).1 := by
  have hstop : lineLoop location (c :: s) lastLineStart line = (lastLineStart, line) := by
    rw [lineLoop.eq_def]
    exact if_neg h
  rw [hstop] at hline ⊢
  exact ((le_lineLoop other (c :: s) lastLineStart line).2 hline.symm).symm

/-- **Places on the same line have the same start of it.** -/
theorem lineLoop_start {l₁ l₂ current lastLineStart : Location} {line : ℕ}
    (hline : (lineLoop l₁ current lastLineStart line).2 =
      (lineLoop l₂ current lastLineStart line).2) :
    (lineLoop l₁ current lastLineStart line).1 = (lineLoop l₂ current lastLineStart line).1 := by
  induction hlen : current.length using Nat.strong_induction_on
    generalizing current lastLineStart line with
  | _ n ih =>
    subst hlen
    rcases current with _ | ⟨c, s⟩
    · rfl
    by_cases h₁ : l₁.length < s.length + 1
    · by_cases h₂ : l₂.length < s.length + 1
      -- both loops take the same turn
      · rw [lineLoop.eq_def l₁, lineLoop.eq_def l₂] at hline ⊢
        simp only [h₁, h₂, if_true] at hline ⊢
        split_ifs at hline ⊢ with hcr hlf
        · rcases s with _ | ⟨d, s⟩
          · rfl
          · simp only at hline ⊢
            split_ifs at hline ⊢
            · exact ih _ (by simp only [List.length_cons]; omega) hline rfl
            · exact ih _ (by simp only [List.length_cons]; omega) hline rfl
        · exact ih _ (by simp only [List.length_cons]; omega) hline rfl
        · exact ih _ (by simp only [List.length_cons]; omega) hline rfl
      · exact (lineLoop_stop h₂ hline.symm).symm
    · exact lineLoop_stop h₁ hline

/-- Counting in an `int` confuses no two numbers less than `2 ^ 32` apart. -/
theorem ofInt_add_one_inj {a b : ℤ} (h : Int32.ofInt a + 1 = Int32.ofInt b + 1)
    (hlt : |a - b| < 2 ^ 32) : a = b := by
  have hmod := congrArg Int32.toInt ((Int32.add_left_inj 1).mp h)
  rw [Int32.toInt_ofInt, Int32.toInt_ofInt, Int32.size, Int.bmod_def, Int.bmod_def] at hmod
  obtain ⟨hlow, hhigh⟩ := abs_lt.mp hlt
  split_ifs at hmod <;> omega

/-- **A position identifies a place in the document**, as long as its bytes can be counted in
an `int`: places on one line have the same start of it, and the column tells them apart. -/
theorem getLocationLineAndColumn_injective {document l₁ l₂ : Location}
    (hlen : document.length < 2 ^ 31 - 1) (h₁ : l₁ <:+ document) (h₂ : l₂ <:+ document)
    (h : getLocationLineAndColumn document l₁ = getLocationLineAndColumn document l₂) :
    l₁ = l₂ := by
  simp only [getLocationLineAndColumn, Prod.mk.injEq] at h
  obtain ⟨hline, hcolumn⟩ := h
  have hle₁ := lineLoop_le l₁ document document 0
  have hle₂ := lineLoop_le l₂ document document 0
  have hlines := ofInt_add_one_inj hline (abs_lt.mpr ⟨by omega, by omega⟩)
  have hstart : (lineLoop l₁ document document 0).1 = (lineLoop l₂ document document 0).1 :=
    lineLoop_start (by omega)
  have hlen₁ := h₁.length_le
  have hlen₂ := h₂.length_le
  rw [hstart] at hcolumn
  have hcolumns := ofInt_add_one_inj hcolumn (abs_lt.mpr ⟨by omega, by omega⟩)
  have hlen : l₁.length = l₂.length := by omega
  exact List.IsSuffix.eq_of_length (List.suffix_of_suffix_length_le h₁ h₂ (by omega)) hlen

/-- Behind a carriage return and a line feed the second line starts. -/
theorem getLocationLineAndColumn_injective_newline :
    getLocationLineAndColumn [97, 13, 10, 98] [98] = (2, 1) ∧
      (skipSpaces [32, 98] : Location) = [98] :=
  ⟨by decide, @getLocationLineAndColumn_injective [97, 13, 10, 98] (skipSpaces [32, 98]) [98]
    (by decide) (by decide) (by decide) (by decide)⟩

end Reader

end MyServer
