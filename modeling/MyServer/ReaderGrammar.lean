import MyServer.Reader

/-!
# The language of the JSON reader (`json_reader.cpp`)

What `Json::Reader` accepts, as a grammar over the tokens of the document. It differs from
JSON in the following, all of which the rules of `Accepts` say:

* comments may stand before a value, before the name of a member and behind a value, but not
  before a colon and not alone in an empty array;
* between the elements of an array any token but a closing bracket stands for the comma, and
  so does any token between two members behind a comment;
* a comma behind the last member is let pass if the name of that member is empty;
* a document goes on behind its value as it likes.

`parse_accepts_iff` says that a document is accepted, with a value, just when its tokens begin
with a phrase of the grammar for that value.
-/

namespace MyServer

namespace Reader

/-! ## The tokens of a document -/

/-- The tokens from a location on, with as much fuel as there are bytes. -/
def tokensFrom : ℕ → Location → List Token
  | 0, _ => []
  | n + 1, s =>
    if skipSpaces s = [] then [] else readToken s :: tokensFrom n (readToken s).stop

/-- The tokens from a location on to the end of the document. -/
def tokens (s : Location) : List Token := tokensFrom s.length s

theorem tokensFrom_eq {n : ℕ} {s : Location} (hn : s.length ≤ n) : tokensFrom n s = tokens s := by
  induction n using Nat.strong_induction_on generalizing s with
  | _ n ih =>
    rcases s with _ | ⟨c, u⟩
    · cases n <;> simp [tokens, tokensFrom, skipSpaces]
    obtain ⟨n, rfl⟩ : ∃ m, n = m + 1 := ⟨n - 1, by rw [List.length_cons] at hn; omega⟩
    rw [tokens, List.length_cons, tokensFrom, tokensFrom]
    split_ifs with hend
    · rfl
    · have hlt := length_stop_lt hend
      rw [List.length_cons] at hlt hn
      rw [ih n (by omega) (by omega), ih u.length (by omega) (by omega)]

theorem tokens_end {s : Location} (h : skipSpaces s = []) : tokens s = [] := by
  rw [← tokensFrom_eq (Nat.le_succ s.length), tokensFrom, if_pos h]

theorem tokens_next {s : Location} (h : skipSpaces s ≠ []) :
    tokens s = readToken s :: tokens (readToken s).stop := by
  have hlt := length_stop_lt h
  rw [← tokensFrom_eq (Nat.le_succ s.length), tokensFrom, if_neg h, tokensFrom_eq (by omega)]

/-- The first token of a document. -/
theorem tokens_eq_cons {s : Location} {t : Token} {ts : List Token} (h : tokens s = t :: ts) :
    readToken s = t ∧ tokens t.stop = ts := by
  by_cases hend : skipSpaces s = []
  · rw [tokens_end hend] at h
    exact absurd h (by simp)
  · rw [tokens_next hend] at h
    obtain ⟨rfl, rfl⟩ := List.cons.inj h
    exact ⟨rfl, rfl⟩

/-- What stands behind the last token. -/
def endToken : Token := ⟨.tokenEndOfStream, [], []⟩

/-- The next token, or the end. -/
theorem readToken_tokens (s : Location) :
    tokens s = readToken s :: tokens (readToken s).stop ∨
      (readToken s = endToken ∧ tokens s = []) := by
  by_cases hend : skipSpaces s = []
  · exact .inr ⟨readToken_end hend, tokens_end hend⟩
  · exact .inl (tokens_next hend)

/-! ## Comments -/

/-- Nothing but comments. -/
def Comments (cs : List Token) : Prop := ∀ t ∈ cs, t.type = .tokenComment

theorem comments_nil : Comments [] := fun _ h => absurd h List.not_mem_nil

theorem Comments.cons {t : Token} {cs : List Token} (ht : t.type = .tokenComment)
    (hcs : Comments cs) : Comments (t :: cs) := List.forall_mem_cons.mpr ⟨ht, hcs⟩

/-- The token behind the comments, or the end. -/
theorem readPastComments_tokens (s : Location) :
    ∃ cs, Comments cs ∧
      (tokens s = cs ++ readPastComments s :: tokens (readPastComments s).stop ∨
        (readPastComments s = endToken ∧ tokens s = cs)) := by
  induction hlen : s.length using Nat.strong_induction_on generalizing s with
  | _ n ih =>
    subst hlen
    rw [readPastComments_step]
    split_ifs with hc
    · have hlt := length_stop_lt_of_type (s := s) (by rw [hc]; decide)
      obtain ⟨cs, hcs, hnext⟩ := ih _ hlt (readToken s).stop rfl
      rcases readToken_tokens s with htokens | ⟨hend, -⟩
      · refine ⟨readToken s :: cs, hcs.cons hc, ?_⟩
        rcases hnext with hnext | ⟨hend, hnext⟩
        · exact .inl (by rw [htokens, hnext, List.cons_append])
        · exact .inr ⟨hend, by rw [htokens, hnext]⟩
      · exact absurd hc (by rw [hend]; decide)
    · exact ⟨[], comments_nil, readToken_tokens s⟩

/-- Comments and a token behind them. -/
theorem readPastComments_eq {s : Location} {cs us : List Token} {t : Token} (hcs : Comments cs)
    (ht : t.type ≠ .tokenComment) (h : tokens s = cs ++ t :: us) :
    readPastComments s = t ∧ tokens t.stop = us := by
  induction cs generalizing s with
  | nil =>
    obtain ⟨hread, hrest⟩ := tokens_eq_cons h
    rw [readPastComments_step, hread, if_neg ht]
    exact ⟨rfl, hrest⟩
  | cons c cs ih =>
    obtain ⟨hc, hcs⟩ := List.forall_mem_cons.mp hcs
    obtain ⟨hread, hrest⟩ := tokens_eq_cons h
    rw [readPastComments_step, hread, if_pos hc]
    exact ih hcs hrest

/-! ## The grammar -/

/-- A part of a document. -/
inductive Phrase : Type where
  /-- a value -/
  | value (v : Json)
  /-- the elements of an array, to its closing bracket -/
  | elements (vs : List Json)
  /-- members that turn `ms` into `ms'`, to the closing brace of their object; `closable` when
  the brace may come right away -/
  | members (closable : Bool) (ms ms' : List (CString × Json))

section

variable (features : Features) (scan : List UInt8 → Option ℚ) (safe : Bool)

/-- Comments before a value, if they are allowed. -/
def Leading (cs : List Token) : Prop := Comments cs ∧ (features.allowComments = false → cs = [])

/-- The scalar a token stands for. With `safe` the array of `decodeDouble` holds its text. -/
inductive Scalar : Token → Json → Prop where
  /-- a number -/
  | number {t : Token} {v : Json} (ht : t.type = .tokenNumber)
    (hv : standardNumber scan t.text = some v)
    (hsafe : safe = true → overruns t.text = false) : Scalar t v
  /-- a string -/
  | string {t : Token} {s : List UInt8} (ht : t.type = .tokenString)
    (hs : decodeRaw t.raw = .ok s) : Scalar t (.str (cString s))
  /-- `true` -/
  | trueName {t : Token} (ht : t.type = .tokenTrue) : Scalar t (.bool true)
  /-- `false` -/
  | falseName {t : Token} (ht : t.type = .tokenFalse) : Scalar t (.bool false)
  /-- `null` -/
  | nullName {t : Token} (ht : t.type = .tokenNull) : Scalar t .null

/-- The phrases of the reader; with `safe` those it reads without writing behind an array. -/
inductive Accepts : Phrase → List Token → Prop where
  /-- a scalar -/
  | scalar {cs : List Token} {t : Token} {v : Json} (hcs : Leading features cs)
    (ht : Scalar scan safe t v) : Accepts (.value v) (cs ++ [t])
  /-- an empty array -/
  | emptyArray {cs : List Token} {t u : Token} (hcs : Leading features cs)
    (ht : t.type = .tokenArrayBegin) (hu : u.type = .tokenArrayEnd) :
    Accepts (.value (.arr [])) (cs ++ [t, u])
  /-- an array -/
  | array {cs ts : List Token} {t : Token} {vs : List Json} (hcs : Leading features cs)
    (ht : t.type = .tokenArrayBegin) (hts : Accepts (.elements vs) ts) :
    Accepts (.value (.arr vs)) (cs ++ t :: ts)
  /-- the last element -/
  | lastElement {ts cs : List Token} {u : Token} {v : Json} (hts : Accepts (.value v) ts)
    (hcs : Comments cs) (hu : u.type = .tokenArrayEnd) :
    Accepts (.elements [v]) (ts ++ (cs ++ [u]))
  /-- an element and others, with any token between them -/
  | element {ts cs us : List Token} {u : Token} {v : Json} {vs : List Json}
    (hts : Accepts (.value v) ts) (hcs : Comments cs) (hu : u.type ≠ .tokenArrayEnd)
    (hcomment : u.type ≠ .tokenComment) (hus : Accepts (.elements vs) us) :
    Accepts (.elements (v :: vs)) (ts ++ (cs ++ u :: us))
  /-- an object -/
  | object {cs ts : List Token} {t : Token} {ms : List (CString × Json)}
    (hcs : Leading features cs) (ht : t.type = .tokenObjectBegin)
    (hts : Accepts (.members true [] ms) ts) : Accepts (.value (.obj ms)) (cs ++ t :: ts)
  /-- the brace, where it may come -/
  | close {cs : List Token} {t : Token} {ms : List (CString × Json)} (hcs : Comments cs)
    (ht : t.type = .tokenObjectEnd) : Accepts (.members true ms ms) (cs ++ [t])
  /-- the last member -/
  | lastMember {closable : Bool} {cs ts ds : List Token} {t colon u : Token} {s : List UInt8}
    {v : Json} {ms : List (CString × Json)} (hcs : Comments cs) (ht : t.type = .tokenString)
    (hs : decodeRaw t.raw = .ok s) (hcolon : colon.type = .tokenMemberSeparator)
    (hts : Accepts (.value v) ts) (hds : Comments ds) (hu : u.type = .tokenObjectEnd) :
    Accepts (.members closable ms (Json.insertMember (cString s) v ms))
      (cs ++ t :: colon :: (ts ++ (ds ++ [u])))
  /-- a member and others, with a comma between them, or behind comments any token -/
  | member {closable : Bool} {cs ts ds us : List Token} {t colon u : Token} {s : List UInt8}
    {v : Json} {ms ms' : List (CString × Json)} (hcs : Comments cs) (ht : t.type = .tokenString)
    (hs : decodeRaw t.raw = .ok s) (hcolon : colon.type = .tokenMemberSeparator)
    (hts : Accepts (.value v) ts) (hds : Comments ds) (hu : u.type ≠ .tokenObjectEnd)
    (hcomment : u.type ≠ .tokenComment) (hcomma : ds = [] → u.type = .tokenArraySeparator)
    (hus : Accepts (.members (decide (s = [])) (Json.insertMember (cString s) v ms) ms') us) :
    Accepts (.members closable ms ms') (cs ++ t :: colon :: (ts ++ (ds ++ u :: us)))

end

variable {features : Features} {scan : List UInt8 → Option ℚ} {safe : Bool}

/-- A phrase has a token. -/
theorem Accepts.ne_nil {p : Phrase} {ts : List Token} (h : Accepts features scan safe p ts) :
    ts ≠ [] := by
  cases h <;> simp

/-! ## What is accepted is a phrase -/

theorem skipSpaces_idem (s : Location) : skipSpaces (skipSpaces s) = skipSpaces s := by
  induction s with
  | nil => rfl
  | cons c s ih =>
    rw [skipSpaces]
    split_ifs with hc
    · exact ih
    · rw [skipSpaces, if_neg hc]

theorem readToken_skipSpaces (s : Location) : readToken (skipSpaces s) = readToken s := by
  rw [readToken, readToken, skipSpaces_idem]

theorem tokens_skipSpaces (s : Location) : tokens (skipSpaces s) = tokens s := by
  by_cases hend : skipSpaces s = []
  · rw [tokens_end hend, tokens_end ((skipSpaces_idem s).trans hend)]
  · have hsame : skipSpaces (skipSpaces s) ≠ [] := by rwa [skipSpaces_idem]
    rw [tokens_next hend, tokens_next hsame, readToken_skipSpaces]

theorem skipCommentTokens_tokens (features : Features) (s : Location) :
    ∃ cs, Leading features cs ∧
      (tokens s = cs ++ skipCommentTokens features s ::
          tokens (skipCommentTokens features s).stop ∨
        skipCommentTokens features s = endToken) := by
  rw [skipCommentTokens]
  split_ifs with hallow
  · obtain ⟨cs, hcs, hnext⟩ := readPastComments_tokens s
    refine ⟨cs, ⟨hcs, fun h => absurd h (by rw [hallow]; decide)⟩, hnext.imp_right And.left⟩
  · exact ⟨[], ⟨comments_nil, fun _ => rfl⟩, (readToken_tokens s).imp_right And.left⟩

/-- A bracket ahead is the token of a bracket. -/
theorem readToken_bracket {s : Location} (h : peek (skipSpaces s) = 93) :
    (readToken s).type = .tokenArrayEnd := by
  rcases hs : skipSpaces s with _ | ⟨c, u⟩
  · rw [hs] at h
    exact absurd h (by decide)
  · rw [hs] at h
    obtain rfl : c = 93 := h
    rw [readToken, hs]
    rfl

/-- With `safe` nothing was written behind an array. -/
def Outcome.Clean (safe : Bool) (o : Outcome) : Prop := safe = true → o.state.overrun = false

/-- What was read up to a state that is clean. -/
theorem Outcome.Clean.of_kept {o o₁ : Outcome} (h : o.Clean safe)
    (hkept : o₁.state.overrun = true → o.state.overrun = true) : o₁.Clean safe := by
  intro hsafe
  by_contra hover
  rw [Bool.not_eq_false] at hover
  exact absurd (hkept hover) (by rw [h hsafe]; decide)

/-- A number that is read is one of the grammar. -/
theorem decodeNumber_ok {s : Location} {t : Token} (hof : t.Of s) (ht : t.type = .tokenNumber)
    {v : Json} {r : State} (hok : (decodeNumber scan t v r).ok = true)
    (hclean : (decodeNumber scan t v r).Clean safe) :
    Scalar scan safe t (decodeNumber scan t v r).value ∧
      (decodeNumber scan t v r).state.current = r.current ∧
      (r.overrun = true → (decodeNumber scan t v r).state.overrun = true) := by
  obtain ⟨u, -, rfl⟩ := hof
  obtain ⟨hne, hall⟩ := readToken_number ht
  rw [decodeNumber_eq, numberValue_eq scan hne hall] at hok hclean ⊢
  rcases hv : standardNumber scan (readToken u).text with _ | w
  · rw [hv] at hok
    exact absurd hok (by simp [State.addError])
  · rw [hv] at hclean
    refine ⟨.number ht hv fun hsafe => ?_, rfl, fun hover => ?_⟩
    · exact (Bool.or_eq_false_iff.mp (hclean hsafe)).2
    · exact (Bool.or_eq_true _ _).mpr (.inl hover)

theorem decodeString_ok (scan : List UInt8 → Option ℚ) (safe : Bool) {t : Token}
    (ht : t.type = .tokenString) {v : Json} {r : State} (hok : (decodeString t v r).ok = true) :
    Scalar scan safe t (decodeString t v r).value ∧
      (decodeString t v r).state.current = r.current ∧
      (r.overrun = true → (decodeString t v r).state.overrun = true) := by
  rw [decodeString] at hok ⊢
  rcases hdecode : decodeRaw t.raw with e | s
  · rw [hdecode] at hok
    exact absurd hok (by simp [State.addError])
  · exact ⟨.string ht hdecode, rfl, id⟩

/-- What was read from `r` to `o` are the tokens of a phrase, and what was written behind an
array before is not undone. -/
def Spans (features : Features) (scan : List UInt8 → Option ℚ) (safe : Bool) (r : State)
    (o : Outcome) (p : Phrase) : Prop :=
  ∃ ts, Accepts features scan safe p ts ∧ tokens r.current = ts ++ tokens o.state.current ∧
    (r.overrun = true → o.state.overrun = true)

/-- **Step**: a value that is accepted. -/
theorem readValue_sound {n : ℕ}
    (hobject : ∀ r o, readObject features scan n [] [] r = some o → o.ok = true →
      o.Clean safe → ∃ ms, o.value = .obj ms ∧
        Spans features scan safe r o (.members true [] ms))
    (harray : ∀ r o, readArray features scan n [] r = some o → o.ok = true → o.Clean safe →
      ∃ vs, o.value = .arr vs ∧ Spans features scan safe r o (.elements vs))
    {v : Json} {r : State} {o : Outcome} (h : readValue features scan (n + 1) v r = some o)
    (hok : o.ok = true) (hclean : o.Clean safe) :
    Spans features scan safe r o (.value o.value) := by
  obtain ⟨cs, hcs, hnext⟩ := skipCommentTokens_tokens features r.current
  have hof := of_skipCommentTokens features r.current
  rw [readValue] at h
  generalize skipCommentTokens features r.current = t at h hnext hof
  simp only at h
  -- the end of the document is no value
  have htokens : t.type ≠ .tokenEndOfStream → tokens r.current = cs ++ t :: tokens t.stop := by
    intro htype
    refine hnext.resolve_right ?_
    rintro rfl
    exact htype rfl
  have hscalar : t.type ≠ .tokenEndOfStream → Scalar scan safe t o.value →
      o.state.current = t.stop → (r.overrun = true → o.state.overrun = true) →
      Spans features scan safe r o (.value o.value) := by
    intro htype hs hcurrent hkept
    refine ⟨cs ++ [t], .scalar hcs hs, ?_, hkept⟩
    rw [htokens htype, hcurrent, List.append_assoc]
    rfl
  cases htype : t.type with
  | tokenObjectBegin =>
    simp only [htype] at h
    obtain ⟨ms, hv, ts, hts, hspan, hkept⟩ := hobject _ _ h hok hclean
    refine ⟨cs ++ t :: ts, hv ▸ .object hcs htype hts, ?_, hkept⟩
    rw [htokens (by rw [htype]; decide), List.append_assoc]
    exact congrArg (fun us => cs ++ t :: us) hspan
  | tokenArrayBegin =>
    simp only [htype] at h
    by_cases hclose : peek (skipSpaces (r.after t).current) = 93
    · rw [if_pos hclose] at h
      obtain rfl := Option.some.inj h
      have hend := readToken_bracket hclose
      refine ⟨cs ++ [t, readToken t.stop], .emptyArray hcs htype hend, ?_, id⟩
      have hread : readToken (skipSpaces t.stop) = readToken t.stop := readToken_skipSpaces t.stop
      have hlast : tokens t.stop = readToken t.stop :: tokens (readToken t.stop).stop := by
        rcases readToken_tokens t.stop with hlast | ⟨hnil, -⟩
        · exact hlast
        · exact absurd hend (by change (readToken t.stop).type ≠ _; rw [hnil]; decide)
      rw [htokens (by rw [htype]; decide), hlast, List.append_assoc]
      change _ = cs ++ t :: readToken t.stop :: tokens (readToken (skipSpaces t.stop)).stop
      rw [hread]
    · rw [if_neg hclose] at h
      obtain ⟨vs, hv, ts, hts, hspan, hkept⟩ := harray _ _ h hok hclean
      refine ⟨cs ++ t :: ts, hv ▸ .array hcs htype hts, ?_, hkept⟩
      have hskip : tokens (skipSpaces t.stop) = ts ++ tokens o.state.current := hspan
      rw [tokens_skipSpaces] at hskip
      rw [htokens (by rw [htype]; decide), List.append_assoc, hskip]
      rfl
  | tokenNumber =>
    simp only [htype] at h
    obtain rfl := Option.some.inj h
    obtain ⟨hs, hcurrent, hkept⟩ := decodeNumber_ok hof htype hok hclean
    exact hscalar (by rw [htype]; decide) hs hcurrent hkept
  | tokenString =>
    simp only [htype] at h
    obtain rfl := Option.some.inj h
    obtain ⟨hs, hcurrent, hkept⟩ := decodeString_ok scan safe htype hok
    exact hscalar (by rw [htype]; decide) hs hcurrent hkept
  | tokenTrue =>
    simp only [htype] at h
    obtain rfl := Option.some.inj h
    exact hscalar (by rw [htype]; decide) (.trueName htype) rfl id
  | tokenFalse =>
    simp only [htype] at h
    obtain rfl := Option.some.inj h
    exact hscalar (by rw [htype]; decide) (.falseName htype) rfl id
  | tokenNull =>
    simp only [htype] at h
    obtain rfl := Option.some.inj h
    exact hscalar (by rw [htype]; decide) (.nullName htype) rfl id
  | _ =>
    simp only [htype] at h
    obtain rfl := Option.some.inj h
    exact absurd hok (by simp [State.addError])

/-- **Step**: an object that is accepted, from a member on. -/
theorem readObject_sound {n : ℕ}
    (hvalue : ∀ v r o, readValue features scan n v r = some o → o.ok = true → o.Clean safe →
      Spans features scan safe r o (.value o.value))
    (hobject : ∀ name ms r o, readObject features scan n name ms r = some o → o.ok = true →
      o.Clean safe → ∃ ms', o.value = .obj ms' ∧
        Spans features scan safe r o (.members (decide (name = [])) ms ms'))
    {name : List UInt8} {ms : List (CString × Json)} {r : State} {o : Outcome}
    (h : readObject features scan (n + 1) name ms r = some o) (hok : o.ok = true)
    (hclean : o.Clean safe) :
    ∃ ms', o.value = .obj ms' ∧
      Spans features scan safe r o (.members (decide (name = [])) ms ms') := by
  have hstart := memberStart_cases name ms r
  obtain ⟨cs, hcs, hnext⟩ := readPastComments_tokens r.current
  rw [readObject] at h
  generalize memberStart name ms r = x at h hstart
  cases hstart with
  | fail hfail _ =>
    obtain rfl := Option.some.inj h
    exact absurd hok (by rw [hfail]; decide)
  | @close t ht htype hname =>
    obtain rfl := Option.some.inj h
    rw [ht] at hnext
    refine ⟨ms, rfl, cs ++ [t], by simpa [hname] using Accepts.close hcs htype, ?_, id⟩
    rcases hnext with hnext | ⟨rfl, -⟩
    · rw [hnext, List.append_assoc]
      rfl
    · exact absurd htype (by decide)
  | @member t colon name' ht htype hname hcolon hsep =>
    -- the tokens of the name and the colon
    have htokens : tokens r.current = cs ++ t :: colon :: tokens colon.stop := by
      rw [ht] at hnext
      rcases hnext with hnext | ⟨rfl, -⟩
      · rw [hnext]
        rcases readToken_tokens t.stop with hread | ⟨hend, -⟩
        · rw [hread, hcolon]
        · exact absurd hsep (by rw [← hcolon, hend]; decide)
      · exact absurd htype (by decide)
    simp only at h
    rcases ho : readValue features scan n (Json.find (cString name') ms) (r.after colon) with _ | o₁
    · rw [ho] at h
      exact absurd h (by simp)
    simp only [ho] at h
    cases hok₁ : o₁.ok with
    | false =>
      rw [hok₁, if_neg Bool.false_ne_true] at h
      obtain rfl := Option.some.inj h
      exact absurd hok (by simp [State.recoverFromError])
    | true =>
      rw [hok₁, if_pos rfl] at h
      have hspan : o₁.Clean safe → ∃ ts, Accepts features scan safe (.value o₁.value) ts ∧
          tokens colon.stop = ts ++ tokens o₁.state.current ∧
          (r.overrun = true → o₁.state.overrun = true) := hvalue _ _ _ ho hok₁
      have hend := memberEnd_cases (Json.insertMember (cString name') o₁.value ms) o₁.state
      obtain ⟨ds, hds, hlast⟩ := readPastComments_tokens o₁.state.current
      generalize memberEnd (Json.insertMember (cString name') o₁.value ms) o₁.state = x at h hend
      cases hend with
      | fail hfail _ =>
        obtain rfl := Option.some.inj h
        exact absurd hok (by rw [hfail]; decide)
      | @close u hu hutype =>
        obtain rfl := Option.some.inj h
        rw [hu] at hlast
        obtain ⟨ts, hts, hspan, hkept⟩ := hspan hclean
        refine ⟨_, rfl, _, .lastMember hcs htype hname hsep hts hds hutype, ?_, hkept⟩
        rcases hlast with hlast | ⟨rfl, -⟩
        · rw [htokens, hspan, hlast]
          simp [State.after]
        · exact absurd hutype (by decide)
      | @next u hu hutype hfirst =>
        rw [hu] at hlast
        obtain ⟨ms', hv, us, hus, hrest, hlater⟩ := hobject _ _ _ _ h hok hclean
        have hrest' : tokens u.stop = us ++ tokens o.state.current := hrest
        -- the member was read before the others, so nothing had been overrun by then either
        obtain ⟨ts, hts, hspan, hkept⟩ := hspan (hclean.of_kept hlater)
        rcases hlast with hlast | ⟨rfl, -⟩
        · refine ⟨ms', hv, _, .member hcs htype hname hsep hts hds hutype
            (hu ▸ readPastComments_type _) ?_ hus, ?_, fun hover => hlater (hkept hover)⟩
          -- without comments the token is the comma that was looked for
          · rintro rfl
            obtain ⟨hread, -⟩ := tokens_eq_cons hlast
            rw [hread] at hfirst
            exact hfirst.resolve_right (hu ▸ readPastComments_type _)
          · rw [htokens, hspan, hlast, hrest']
            simp
        -- at the end of the document no member follows
        · exact absurd (List.append_eq_nil_iff.mp hrest'.symm).1 hus.ne_nil

/-- **Step**: an array that is accepted, from an element on. -/
theorem readArray_sound {n : ℕ}
    (hvalue : ∀ v r o, readValue features scan n v r = some o → o.ok = true → o.Clean safe →
      Spans features scan safe r o (.value o.value))
    (harray : ∀ items r o, readArray features scan n items r = some o → o.ok = true →
      o.Clean safe → ∃ vs, o.value = .arr (items ++ vs) ∧
        Spans features scan safe r o (.elements vs))
    {items : List Json} {r : State} {o : Outcome}
    (h : readArray features scan (n + 1) items r = some o) (hok : o.ok = true)
    (hclean : o.Clean safe) :
    ∃ vs, o.value = .arr (items ++ vs) ∧ Spans features scan safe r o (.elements vs) := by
  rw [readArray] at h
  rcases ho : readValue features scan n .null r with _ | o₁
  · rw [ho] at h
    exact absurd h (by simp)
  simp only [ho] at h
  cases hok₁ : o₁.ok with
  | false =>
    rw [hok₁, if_neg Bool.false_ne_true] at h
    obtain rfl := Option.some.inj h
    exact absurd hok (by simp [State.recoverFromError])
  | true =>
    rw [hok₁, if_pos rfl] at h
    have hend := itemEnd_cases (items ++ [o₁.value]) o₁.state
    obtain ⟨cs, hcs, hlast⟩ := readPastComments_tokens o₁.state.current
    generalize itemEnd (items ++ [o₁.value]) o₁.state = x at h hend
    cases hend with
    | @close u hu hutype =>
      obtain rfl := Option.some.inj h
      rw [hu] at hlast
      obtain ⟨ts, hts, hspan, hkept⟩ := hvalue _ _ _ ho hok₁ hclean
      refine ⟨[o₁.value], rfl, _, .lastElement hts hcs hutype, ?_, hkept⟩
      rcases hlast with hlast | ⟨rfl, -⟩
      · rw [hspan, hlast]
        simp [State.after]
      · exact absurd hutype (by decide)
    | @next u hu hutype =>
      rw [hu] at hlast
      obtain ⟨vs, hv, us, hus, hrest, hlater⟩ := harray _ _ _ h hok hclean
      have hrest' : tokens u.stop = us ++ tokens o.state.current := hrest
      obtain ⟨ts, hts, hspan, hkept⟩ := hvalue _ _ _ ho hok₁ (hclean.of_kept hlater)
      rcases hlast with hlast | ⟨rfl, -⟩
      · refine ⟨o₁.value :: vs, by rw [hv, List.append_assoc]; rfl, _,
          .element hts hcs hutype (hu ▸ readPastComments_type _) hus, ?_,
          fun hover => hlater (hkept hover)⟩
        rw [hspan, hlast, hrest']
        simp
      · exact absurd (List.append_eq_nil_iff.mp hrest'.symm).1 hus.ne_nil

/-- **What is accepted is a phrase.** -/
theorem accepted_sound (n : ℕ) :
    (∀ v r o, readValue features scan n v r = some o → o.ok = true → o.Clean safe →
      Spans features scan safe r o (.value o.value)) ∧
    (∀ name ms r o, readObject features scan n name ms r = some o → o.ok = true →
      o.Clean safe → ∃ ms', o.value = .obj ms' ∧
        Spans features scan safe r o (.members (decide (name = [])) ms ms')) ∧
    (∀ items r o, readArray features scan n items r = some o → o.ok = true → o.Clean safe →
      ∃ vs, o.value = .arr (items ++ vs) ∧ Spans features scan safe r o (.elements vs)) := by
  induction n with
  | zero =>
    exact ⟨fun _ _ _ h => absurd h (by simp [readValue]), fun _ _ _ _ h => absurd h
      (by simp [readObject]), fun _ _ _ h => absurd h (by simp [readArray])⟩
  | succ n ih =>
    obtain ⟨hvalue, hobject, harray⟩ := ih
    refine ⟨fun v r o => readValue_sound (hobject [] []) ?_, fun name ms r o =>
      readObject_sound hvalue hobject, fun items r o => readArray_sound hvalue harray⟩
    exact fun r o => by simpa using harray [] r o

/-! ## Phrases are accepted -/

theorem skipCommentTokens_eq {s : Location} {cs us : List Token} {t : Token}
    (hcs : Leading features cs) (ht : t.type ≠ .tokenComment) (h : tokens s = cs ++ t :: us) :
    skipCommentTokens features s = t ∧ tokens t.stop = us := by
  rw [skipCommentTokens]
  split_ifs with hallow
  · exact readPastComments_eq hcs.1 ht h
  · obtain rfl := hcs.2 (Bool.eq_false_iff.mpr hallow)
    exact tokens_eq_cons h

theorem memberStart_close {name : List UInt8} {ms : List (CString × Json)} {r : State} {t : Token}
    (ht : readPastComments r.current = t) (htype : t.type = .tokenObjectEnd) (hname : name = []) :
    memberStart name ms r = .error ⟨true, .obj ms, r.after t⟩ := by
  rw [memberStart, ht]
  exact if_pos ⟨htype, hname⟩

theorem memberStart_member {name name' : List UInt8} {ms : List (CString × Json)} {r : State}
    {t colon : Token} (ht : readPastComments r.current = t) (htype : t.type = .tokenString)
    (hname : decodeRaw t.raw = .ok name') (hcolon : readToken t.stop = colon)
    (hsep : colon.type = .tokenMemberSeparator) :
    memberStart name ms r = .ok (name', r.after colon) := by
  rw [memberStart, ht]
  simp [htype, hname, hcolon, hsep, State.after]

/-- The end of a turn, when it begins with a brace, a comma or a comment. -/
theorem memberEnd_eq {ms : List (CString × Json)} {r : State}
    (hfirst : (readToken r.current).type = .tokenObjectEnd ∨
      (readToken r.current).type = .tokenArraySeparator ∨
      (readToken r.current).type = .tokenComment) :
    memberEnd ms r =
      if (readPastComments r.current).type = .tokenObjectEnd then
        .error ⟨true, .obj ms, r.after (readPastComments r.current)⟩
      else .ok (r.after (readPastComments r.current)) := by
  have hgood : ¬ ((readToken r.current).type ≠ .tokenObjectEnd ∧
      (readToken r.current).type ≠ .tokenArraySeparator ∧
      (readToken r.current).type ≠ .tokenComment) := by
    rintro ⟨h₁, h₂, h₃⟩
    rcases hfirst with h | h | h
    · exact h₁ h
    · exact h₂ h
    · exact h₃ h
  have hplace : (r.after (readToken r.current)).current = (readToken r.current).stop := rfl
  rw [memberEnd]
  simp only [if_neg hgood, hplace, ← readPastComments_step r.current]
  rfl

theorem memberEnd_close {ms : List (CString × Json)} {r : State} {t : Token}
    (ht : readPastComments r.current = t) (htype : t.type = .tokenObjectEnd) :
    memberEnd ms r = .error ⟨true, .obj ms, r.after t⟩ := by
  have hstep := readPastComments_step r.current
  rw [memberEnd_eq, ht, if_pos htype]
  by_cases hc : (readToken r.current).type = .tokenComment
  · exact .inr (.inr hc)
  · rw [if_neg hc, ht] at hstep
    exact .inl (hstep ▸ htype)

theorem memberEnd_next {ms : List (CString × Json)} {r : State} {ds us : List Token} {u : Token}
    (hds : Comments ds) (hu : u.type ≠ .tokenObjectEnd) (hcomment : u.type ≠ .tokenComment)
    (hcomma : ds = [] → u.type = .tokenArraySeparator) (h : tokens r.current = ds ++ u :: us) :
    memberEnd ms r = .ok (r.after u) := by
  rw [memberEnd_eq, (readPastComments_eq hds hcomment h).1, if_neg hu]
  cases ds with
  | nil =>
    obtain ⟨hread, -⟩ := tokens_eq_cons h
    rw [hread]
    exact .inr (.inl (hcomma rfl))
  | cons d ds =>
    obtain ⟨hread, -⟩ := tokens_eq_cons h
    rw [hread]
    exact .inr (.inr (hds d (List.mem_cons_self ..)))

theorem itemEnd_close {items : List Json} {r : State} {t : Token}
    (ht : readPastComments r.current = t) (htype : t.type = .tokenArrayEnd) :
    itemEnd items r = .error ⟨true, .arr items, r.after t⟩ := by
  simp [itemEnd, ht, htype]

theorem itemEnd_next {items : List Json} {r : State} {t : Token}
    (ht : readPastComments r.current = t) (htype : t.type ≠ .tokenArrayEnd) :
    itemEnd items r = .ok (r.after t) := by
  simp [itemEnd, ht, htype]

/-- The scalar of a token is read. -/
theorem readValue_scalar {t : Token} {w : Json} (hw : Scalar scan safe t w) {n : ℕ} {v : Json}
    {r : State} (ht : skipCommentTokens features r.current = t) :
    ∃ r', readValue features scan (n + 1) v r = some ⟨true, w, r'⟩ ∧ r'.current = t.stop ∧
      (safe = true → r'.overrun = r.overrun) := by
  have hof := of_skipCommentTokens features r.current
  rw [readValue, ht]
  rw [ht] at hof
  cases hw with
  | number htype hv hsafe =>
    obtain ⟨u, -, rfl⟩ := hof
    obtain ⟨hne, hall⟩ := readToken_number htype
    simp only [htype]
    rw [decodeNumber_eq, numberValue_eq scan hne hall, hv]
    refine ⟨_, rfl, rfl, fun h => ?_⟩
    rw [State.afterNumber, hsafe h, Bool.or_false]
    rfl
  | string htype hs =>
    simp only [htype, decodeString, hs]
    exact ⟨_, rfl, rfl, fun _ => rfl⟩
  | trueName htype | falseName htype | nullName htype =>
    simp only [htype]
    exact ⟨_, rfl, rfl, fun _ => rfl⟩

/-- Reading a phrase, whatever follows it. -/
def Phrase.Reads (features : Features) (scan : List UInt8 → Option ℚ) (safe : Bool)
    (ts : List Token) : Phrase → Prop
  | .value v => ∀ (n : ℕ) (v₀ : Json) (r : State) (us : List Token),
      2 * r.current.length + 1 ≤ n → tokens r.current = ts ++ us →
      ∃ r', readValue features scan n v₀ r = some ⟨true, v, r'⟩ ∧ tokens r'.current = us ∧
        (safe = true → r'.overrun = r.overrun)
  | .elements vs => ∀ (n : ℕ) (items : List Json) (r : State) (us : List Token),
      2 * r.current.length + 2 ≤ n → tokens r.current = ts ++ us →
      ∃ r', readArray features scan n items r = some ⟨true, .arr (items ++ vs), r'⟩ ∧
        tokens r'.current = us ∧ (safe = true → r'.overrun = r.overrun)
  | .members closable ms ms' => ∀ (n : ℕ) (name : List UInt8) (r : State) (us : List Token),
      decide (name = []) = closable → 2 * r.current.length + 2 ≤ n →
      tokens r.current = ts ++ us →
      ∃ r', readObject features scan n name ms r = some ⟨true, .obj ms', r'⟩ ∧
        tokens r'.current = us ∧ (safe = true → r'.overrun = r.overrun)

/-- A value that is read takes at least a byte. -/
theorem length_lt_of_readValue {n : ℕ} {v w : Json} {r r' : State}
    (hn : 2 * r.current.length + 1 ≤ n)
    (h : readValue features scan n v r = some ⟨true, w, r'⟩) :
    r'.current.length < r.current.length := by
  obtain ⟨o, ho, hpost⟩ := (calls_end features scan n).1 v r hn
  obtain rfl := Option.some.inj (h.symm.trans ho)
  exact (hpost.success rfl).2

theorem length_stop_of_tokens {s : Location} {t : Token} {us : List Token}
    (h : tokens s = t :: us) : t.stop.length < s.length := by
  obtain ⟨rfl, -⟩ := tokens_eq_cons h
  refine length_stop_lt fun hend => ?_
  rw [tokens_end hend] at h
  exact absurd h (by simp)

theorem peek_of_bracket {s : Location} (h : (readToken s).type = .tokenArrayEnd) :
    peek (skipSpaces s) = 93 := by
  rcases hs : skipSpaces s with _ | ⟨c, u⟩
  · rw [readToken_end hs] at h
    exact absurd h (by simp)
  obtain ⟨x, hx, heq⟩ := readToken_cons hs
  rw [heq] at h
  cases hx with
  | arrayEnd => rfl
  | string | comment | trueName | falseName | nullName => split_ifs at h
  | _ => simp at h

/-- No phrase begins with a closing bracket. -/
theorem Accepts.head_type {p : Phrase} {ts : List Token} (h : Accepts features scan safe p ts) :
    ∃ t us, ts = t :: us ∧ t.type ≠ .tokenArrayEnd := by
  have hfirst : ∀ {cs us : List Token} {t : Token}, Comments cs → t.type ≠ .tokenArrayEnd →
      ∃ t' us', cs ++ t :: us = t' :: us' ∧ t'.type ≠ .tokenArrayEnd := by
    intro cs us t hcs ht
    cases cs with
    | nil => exact ⟨t, us, rfl, ht⟩
    | cons c cs =>
      refine ⟨c, cs ++ t :: us, rfl, ?_⟩
      rw [hcs c (List.mem_cons_self ..)]
      decide
  induction h with
  | scalar hcs ht =>
    refine hfirst hcs.1 ?_
    cases ht with
    | number h | string h | trueName h | falseName h | nullName h => rw [h]; decide
  | emptyArray hcs ht _ => exact hfirst hcs.1 (by rw [ht]; decide)
  | array hcs ht _ _ => exact hfirst hcs.1 (by rw [ht]; decide)
  | object hcs ht _ _ => exact hfirst hcs.1 (by rw [ht]; decide)
  | close hcs ht => exact hfirst hcs (by rw [ht]; decide)
  | lastMember hcs ht => exact hfirst hcs (by rw [ht]; decide)
  | member hcs ht => exact hfirst hcs (by rw [ht]; decide)
  | lastElement _ _ _ ih =>
    obtain ⟨t, us, rfl, ht⟩ := ih
    exact ⟨t, _, rfl, ht⟩
  | element _ _ _ _ _ ih _ =>
    obtain ⟨t, us, rfl, ht⟩ := ih
    exact ⟨t, _, rfl, ht⟩

/-- **Phrases are accepted.** -/
theorem Accepts.reads {p : Phrase} {ts : List Token} (h : Accepts features scan safe p ts) :
    p.Reads features scan safe ts := by
  induction h with
  | @scalar cs t v hcs ht =>
    intro n v₀ r us hn htokens
    rw [List.append_assoc] at htokens
    have htype : t.type ≠ .tokenComment := by
      cases ht with
      | number h | string h | trueName h | falseName h | nullName h => rw [h]; decide
    obtain ⟨hskip, hrest⟩ := skipCommentTokens_eq hcs htype htokens
    obtain ⟨n, rfl⟩ : ∃ m, n = m + 1 := ⟨n - 1, by omega⟩
    obtain ⟨r', hread, hcurrent, hsame⟩ := readValue_scalar ht (n := n) (v := v₀) hskip
    exact ⟨r', hread, hcurrent ▸ hrest, hsame⟩
  | @emptyArray cs t u hcs ht hu =>
    intro n v₀ r us hn htokens
    rw [List.append_assoc] at htokens
    obtain ⟨hskip, hrest⟩ := skipCommentTokens_eq hcs (by rw [ht]; decide) htokens
    obtain ⟨n, rfl⟩ : ∃ m, n = m + 1 := ⟨n - 1, by omega⟩
    obtain ⟨hread, hus⟩ := tokens_eq_cons hrest
    have hclose : peek (skipSpaces t.stop) = 93 := peek_of_bracket (by rw [hread, hu])
    have hplace : (r.after t).current = t.stop := rfl
    rw [readValue, hskip]
    simp only [ht, hplace, hclose, if_true, readToken_skipSpaces, hread]
    exact ⟨_, rfl, hus, fun _ => rfl⟩
  | @array cs ts t vs hcs ht hts ih =>
    intro n v₀ r us hn htokens
    obtain ⟨n, rfl⟩ : ∃ m, n = m + 1 := ⟨n - 1, by omega⟩
    rw [List.append_assoc] at htokens
    obtain ⟨hskip, hrest⟩ := skipCommentTokens_eq hcs (by rw [ht]; decide) htokens
    have hlt := (hskip ▸ of_skipCommentTokens features r.current : t.Of r.current).length_lt
      (by rw [ht]; decide)
    have hplace : (r.after t).current = t.stop := rfl
    have hopen : ¬ peek (skipSpaces t.stop) = 93 := by
      intro hclose
      obtain ⟨t', us', rfl, ht'⟩ := hts.head_type
      obtain ⟨hread, -⟩ := tokens_eq_cons hrest
      exact ht' (hread ▸ readToken_bracket hclose)
    have hlen := (skipSpaces_suffix t.stop).length_le
    obtain ⟨r', hread, hlast, hsame⟩ := ih n [] { r.after t with current := skipSpaces t.stop } us
      (by simp only; omega) (by rw [tokens_skipSpaces]; exact hrest)
    rw [readValue, hskip]
    simp only [ht, hplace, hopen, if_false, hread, List.nil_append]
    exact ⟨r', rfl, hlast, hsame⟩
  | @lastElement ts cs u v hts hcs hu ih =>
    intro n items r us hn htokens
    obtain ⟨n, rfl⟩ : ∃ m, n = m + 1 := ⟨n - 1, by omega⟩
    rw [List.append_assoc, List.append_assoc] at htokens
    obtain ⟨r₁, hread, hrest, hsame⟩ := ih n .null r _ (by omega) htokens
    obtain ⟨hpast, hus⟩ := readPastComments_eq hcs (by rw [hu]; decide) hrest
    rw [readArray, hread]
    simp only [if_true, itemEnd_close hpast hu]
    exact ⟨_, rfl, hus, hsame⟩
  | @element ts cs us u v vs hts hcs hu hcomment hus ih ihs =>
    intro n items r rest hn htokens
    obtain ⟨n, rfl⟩ : ∃ m, n = m + 1 := ⟨n - 1, by omega⟩
    rw [List.append_assoc, List.append_assoc] at htokens
    obtain ⟨r₁, hread, hrest, hsame⟩ := ih n .null r _ (by omega) htokens
    have hlt := length_lt_of_readValue (by omega) hread
    obtain ⟨hpast, hnext⟩ := readPastComments_eq hcs hcomment hrest
    have hlen : u.stop.length ≤ r₁.current.length :=
      hpast ▸ (of_readPastComments r₁.current).stop_suffix.length_le
    obtain ⟨r₂, hreads, hlast, hsame'⟩ := ihs n (items ++ [v]) (r₁.after u) rest
      (by change 2 * u.stop.length + 2 ≤ n; omega) hnext
    rw [readArray, hread]
    simp only [if_true, itemEnd_next hpast hu, hreads, List.append_assoc]
    exact ⟨r₂, rfl, hlast, fun h => (hsame' h).trans (hsame h)⟩
  | @object cs ts t ms hcs ht hts ih =>
    intro n v₀ r us hn htokens
    obtain ⟨n, rfl⟩ : ∃ m, n = m + 1 := ⟨n - 1, by omega⟩
    rw [List.append_assoc] at htokens
    obtain ⟨hskip, hrest⟩ := skipCommentTokens_eq hcs (by rw [ht]; decide) htokens
    have hlt := (hskip ▸ of_skipCommentTokens features r.current : t.Of r.current).length_lt
      (by rw [ht]; decide)
    obtain ⟨r', hread, hlast, hsame⟩ := ih n [] (r.after t) us rfl
      (by change 2 * t.stop.length + 2 ≤ n; omega) hrest
    rw [readValue, hskip]
    simp only [ht, hread]
    exact ⟨r', rfl, hlast, hsame⟩
  | @close cs t ms hcs ht =>
    intro n name r us hname hn htokens
    obtain ⟨n, rfl⟩ : ∃ m, n = m + 1 := ⟨n - 1, by omega⟩
    rw [List.append_assoc] at htokens
    obtain ⟨hpast, hus⟩ := readPastComments_eq hcs (by rw [ht]; decide) htokens
    rw [readObject, memberStart_close hpast ht (of_decide_eq_true hname)]
    exact ⟨_, rfl, hus, fun _ => rfl⟩
  | @lastMember closable cs ts ds t colon u s v ms hcs ht hs hcolon hts hds hu ih =>
    intro n name r us _ hn htokens
    obtain ⟨n, rfl⟩ : ∃ m, n = m + 1 := ⟨n - 1, by omega⟩
    simp only [List.append_assoc, List.cons_append] at htokens
    obtain ⟨hpast, hrest⟩ := readPastComments_eq hcs (by rw [ht]; decide) htokens
    obtain ⟨hread, hvalue⟩ := tokens_eq_cons hrest
    have hlt := length_stop_of_tokens hrest
    have hlen : t.stop.length ≤ r.current.length :=
      hpast ▸ (of_readPastComments r.current).stop_suffix.length_le
    obtain ⟨r₁, hreads, hlast, hsame⟩ := ih n (Json.find (cString s) ms) (r.after colon) _
      (by change 2 * colon.stop.length + 1 ≤ n; omega) hvalue
    obtain ⟨hpast', hus⟩ := readPastComments_eq hds (by rw [hu]; decide) hlast
    rw [readObject, memberStart_member hpast ht hs hread hcolon]
    simp only [hreads, if_true, memberEnd_close hpast' hu]
    exact ⟨_, rfl, hus, hsame⟩
  | @member closable cs ts ds us t colon u s v ms ms' hcs ht hs hcolon hts hds hu hcomment hcomma
      hus ih ihs =>
    intro n name r rest _ hn htokens
    obtain ⟨n, rfl⟩ : ∃ m, n = m + 1 := ⟨n - 1, by omega⟩
    simp only [List.append_assoc, List.cons_append] at htokens
    obtain ⟨hpast, hrest⟩ := readPastComments_eq hcs (by rw [ht]; decide) htokens
    obtain ⟨hread, hvalue⟩ := tokens_eq_cons hrest
    have hlt := length_stop_of_tokens hrest
    have hlen : t.stop.length ≤ r.current.length :=
      hpast ▸ (of_readPastComments r.current).stop_suffix.length_le
    have hroom : 2 * (r.after colon).current.length + 1 ≤ n := by
      change 2 * colon.stop.length + 1 ≤ n
      omega
    obtain ⟨r₁, hreads, hlast, hsame⟩ :=
      ih n (Json.find (cString s) ms) (r.after colon) _ hroom hvalue
    have hgone : r₁.current.length < colon.stop.length := length_lt_of_readValue hroom hreads
    obtain ⟨hpast', hnext⟩ := readPastComments_eq hds hcomment hlast
    have hlen' : u.stop.length ≤ r₁.current.length :=
      hpast' ▸ (of_readPastComments r₁.current).stop_suffix.length_le
    obtain ⟨r₂, hreads', hend, hsame'⟩ := ihs n s (r₁.after u) rest rfl
      (by change 2 * u.stop.length + 2 ≤ n; omega) hnext
    rw [readObject, memberStart_member hpast ht hs hread hcolon]
    simp only [hreads, if_true, memberEnd_next hds hu hcomment hcomma hlast, hreads']
    exact ⟨r₂, rfl, hend, fun h => (hsame' h).trans (hsame h)⟩

/-- A document whose tokens begin with a phrase is accepted. -/
theorem parse_of_accepts {document : List UInt8} {v : Json} {ts us : List Token}
    (hroot : features.strictRoot = true → isArrayOrObject v = true)
    (htokens : tokens document = ts ++ us) (hts : Accepts features scan safe (.value v) ts)
    (root : Json) :
    ∃ r, parse features scan document root = some ⟨true, v, r⟩ ∧
      (safe = true → r.overrun = false) := by
  have hstrict : ¬ (features.strictRoot && !isArrayOrObject v) = true := by
    rw [Bool.and_eq_true, Bool.not_eq_true']
    rintro ⟨hfeature, hv⟩
    rw [hroot hfeature] at hv
    exact absurd hv (by decide)
  obtain ⟨r, hread, -, hsame⟩ := hts.reads _ root ⟨document, [], false⟩ us (Nat.le_refl _) htokens
  rw [parse, hread]
  simp only [if_neg hstrict]
  exact ⟨_, rfl, hsame⟩

/-- The tokens of a document that is accepted begin with a phrase. -/
theorem accepts_of_parse {document : List UInt8} {root v : Json} {r : State}
    (h : parse features scan document root = some ⟨true, v, r⟩)
    (hclean : safe = true → r.overrun = false) :
    (features.strictRoot = true → isArrayOrObject v = true) ∧
      ∃ ts us, tokens document = ts ++ us ∧ Accepts features scan safe (.value v) ts := by
  rw [parse] at h
  rcases ho : readValue features scan (2 * document.length + 1) root ⟨document, [], false⟩
    with _ | o
  · rw [ho] at h
    exact absurd h (by simp)
  simp only [ho] at h
  split_ifs at h with hroot
  · exact absurd (congrArg Outcome.ok (Option.some.inj h)) (by simp [State.addError])
  · obtain ⟨hok, rfl, rfl⟩ := Outcome.mk.inj (Option.some.inj h)
    obtain ⟨ts, hts, hspan, -⟩ := (accepted_sound _).1 _ _ _ ho hok hclean
    refine ⟨fun hfeature => ?_, ts, _, hspan, hts⟩
    rw [hfeature, Bool.true_and, Bool.not_eq_true', Bool.not_eq_false] at hroot
    exact hroot

/-- **The language of the reader**: a document is accepted with a value just when its tokens
begin with a phrase for that value, which must be an array or an object if the features are
strict. With `safe` the same is said of what is accepted without writing behind an array: then
no number of the phrase is too long for `decodeDouble`. -/
theorem parse_accepts_iff (features : Features) (scan : List UInt8 → Option ℚ) (safe : Bool)
    (document : List UInt8) (root v : Json) :
    (∃ r, parse features scan document root = some ⟨true, v, r⟩ ∧
        (safe = true → r.overrun = false)) ↔
      (features.strictRoot = true → isArrayOrObject v = true) ∧
        ∃ ts us, tokens document = ts ++ us ∧ Accepts features scan safe (.value v) ts := by
  constructor
  · rintro ⟨r, h, hclean⟩
    exact accepts_of_parse h hclean
  · rintro ⟨hroot, ts, us, htokens, hts⟩
    exact parse_of_accepts hroot htokens hts root

end Reader

end MyServer
