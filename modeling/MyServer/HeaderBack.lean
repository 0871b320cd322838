import MyServer.RequestGrammar

/-!
# The last header (`request_parser.cpp`)

Four places of `consume` write through `headers.back()`, and none of them looks whether there
is a header: that depends on how their states are entered. In `consume` such a write to an
empty list does nothing. `consumeChecked` is the same automaton with no result there, where
the behaviour of the source is undefined.

`HeaderMove` says what one call can do to the state and the headers. All that follows about
the last header is proved over the moves, for callers that go on after a verdict too: inside
a header line there is a header and it has a name (`backReady_always`), so both automata
agree on every byte they are fed.
-/

namespace MyServer

namespace Http

/-! ## The checked automaton -/

/-- Change `headers.back()`, if there is one. -/
def Request.writeBack (req : Request) (f : Header → Header) : Option Request :=
  req.headers.getLast?.map fun h => { req with headers := req.headers.dropLast ++ [f h] }

/-- `request_parser::consume`; `none` when it takes `headers.back()` of an empty list. -/
def consumeChecked (L : LexicalCast) (p : Parse) (call : Call) :
    Option (Option Verdict × Parse) :=
  let input := call.input
  let c := charValue input
  let req := p.req
  match p.state with
  | .headerLineStart =>
    if input = 13 then some (none, ⟨.expectingNewline3, req⟩)
    else if req.headers ≠ [] ∧ (input = 32 ∨ input = 9) then some (none, ⟨.headerLws, req⟩)
    else if noToken c then some (some .invalid, p)
    else do
      let req ← (req.addHeader ⟨[], []⟩).writeBack fun h => { h with name := h.name ++ [input] }
      return (none, ⟨.headerName, req⟩)
  | .headerLws =>
    if input = 13 then some (none, ⟨.expectingNewline2, req⟩)
    else if input = 32 ∨ input = 9 then some (none, p)
    else if isCtl c then some (some .invalid, p)
    else do
      let req ← req.writeBack fun h => { h with value := h.value ++ [input] }
      return (none, ⟨.headerValue, req⟩)
  | .headerName =>
    if input = 58 then some (none, ⟨.spaceBeforeHeaderValue, req⟩)
    else if noToken c then some (some .invalid, p)
    else do
      let req ← req.writeBack fun h => { h with name := h.name ++ [input] }
      return (none, ⟨.headerName, req⟩)
  | .headerValue =>
    if input = 13 then some (none, ⟨.expectingNewline2, req⟩)
    else if isCtl c then some (some .invalid, p)
    else do
      let req ← req.writeBack fun h => { h with value := h.value ++ [input] }
      return (none, ⟨.headerValue, req⟩)
  -- no other state takes `headers.back()`
  | _ => some (consume L p call)

/-- The states inside a header line. -/
def headerStates : List ParserState :=
  [.headerLws, .headerName, .spaceBeforeHeaderValue, .headerValue, .expectingNewline2]

/-- The states that no transition leads to. -/
def unusedStates : List ParserState := [.uriStart, .expectingContentNewline1]

theorem Request.exists_addHeader {req : Request} (h : req.headers ≠ []) :
    ∃ (before : Request) (d : Header), req = before.addHeader d := by
  refine ⟨{ req with headers := req.headers.dropLast }, req.headers.getLast h, ?_⟩
  rw [addHeader, List.dropLast_append_getLast h]

theorem Request.writeBack_addHeader (req : Request) (d : Header) (f : Header → Header) :
    (req.addHeader d).writeBack f = some (req.addHeader (f d)) := by
  rw [writeBack, addHeader]
  simp only [List.getLast?_append, List.getLast?_singleton, Option.some_or, Option.map_some,
    List.dropLast_concat]
  rfl

theorem Request.writeBack_eq {req : Request} (h : req.headers ≠ []) (f : Header → Header) :
    req.writeBack f = some (req.modifyBack f) := by
  obtain ⟨before, d, rfl⟩ := exists_addHeader h
  rw [writeBack_addHeader, modifyBack_addHeader]

/-- With a header where one is written to, the checks make no difference. -/
theorem consumeChecked_eq (L : LexicalCast) {p : Parse} (call : Call)
    (h : p.state ∈ headerStates → p.req.headers ≠ []) :
    consumeChecked L p call = some (consume L p call) := by
  obtain ⟨st, req⟩ := p
  simp only at h
  cases st with
  | headerLineStart =>
    -- the header that is written to has just been pushed
    simp only [consumeChecked, consume, Request.writeBack_addHeader]
    split_ifs <;> rfl
  | headerLws | headerName | headerValue =>
    have hne : req.headers ≠ [] := h (by decide)
    simp only [consumeChecked, consume, Request.writeBack_eq hne]
    split_ifs <;> rfl
  | _ => rfl

-- without one, a byte of a value has nowhere to go
example (L : LexicalCast) (stack : Stack) :
    consumeChecked L ⟨.headerValue, .fresh⟩ ⟨97, stack⟩ = none := rfl

/-! ## Moves -/

/-- What one call can do to the state and the headers. -/
inductive HeaderMove : Parse → Parse → Prop where
  /-- the state and the headers stay -/
  | stay {st : ParserState} {req req' : Request} (hsame : req'.headers = req.headers) :
      HeaderMove ⟨st, req⟩ ⟨st, req'⟩
  /-- to a state outside of the header lines, one that is used -/
  | out {st st' : ParserState} {req req' : Request}
      (hout : st' ∉ headerStates ∧ st' ∉ unusedStates) (hsame : req'.headers = req.headers) :
      HeaderMove ⟨st, req⟩ ⟨st', req'⟩
  /-- a header line begins -/
  | begin {req : Request} (c : UInt8) :
      HeaderMove ⟨.headerLineStart, req⟩ ⟨.headerName, req.addHeader ⟨[c], []⟩⟩
  /-- a continuation line begins -/
  | fold {req : Request} (hne : req.headers ≠ []) :
      HeaderMove ⟨.headerLineStart, req⟩ ⟨.headerLws, req⟩
  /-- on inside a header line -/
  | on {st st' : ParserState} {req : Request} (hin : st ∈ headerStates ∧ st' ∈ headerStates) :
      HeaderMove ⟨st, req⟩ ⟨st', req⟩
  /-- a byte for the name or the value of the last header -/
  | write {st st' : ParserState} {req : Request} {f : Header → Header}
      (hin : st ∈ headerStates ∧ st' ∈ headerStates) (hname : ∀ h, h.name <+: (f h).name) :
      HeaderMove ⟨st, req⟩ ⟨st', req.modifyBack f⟩

theorem headerMove_expects {p : Parse} {input c : UInt8} {next : ParserState}
    (h : HeaderMove p ⟨next, p.req⟩) : HeaderMove p (expects p input c next).2 := by
  rw [expects]
  split_ifs
  · exact h
  · exact .stay rfl

theorem headerMove_consumeContent (L : LexicalCast) (p : Parse) (call : Call) :
    HeaderMove p (consumeContent L p call).2 := by
  obtain ⟨content, n, heq⟩ := consumeContent_frame L p call
  rw [heq]
  exact .stay rfl

/-- A call of `consume` is a move. -/
theorem headerMove_consume (L : LexicalCast) (p : Parse) (call : Call) :
    HeaderMove p (consume L p call).2 := by
  obtain ⟨st, req⟩ := p
  cases st with
  | httpVersionH | httpVersionT1 | httpVersionT2 | httpVersionP | expectingNewline1
  | expectingNewline2 => exact headerMove_expects (.out (by decide) rfl)
  | spaceBeforeHeaderValue => exact headerMove_expects (.on (by decide))
  | methodStart | method | uriStart | uri | httpVersionSlash | httpVersionMajorStart
  | httpVersionMajor | httpVersionMinorStart | httpVersionMinor | expectingNewline3 =>
    simp only [consume]
    split_ifs <;> first | exact .stay rfl | exact .out (by decide) rfl
  | headerLineStart =>
    simp only [consume]
    split_ifs with hcr hblank htoken
    · exact .out (by decide) rfl
    · exact .fold hblank.1
    · exact .stay rfl
    · exact .begin call.input
  | headerLws =>
    simp only [consume]
    split_ifs
    · exact .on (by decide)
    · exact .stay rfl
    · exact .stay rfl
    · exact .write (by decide) fun h => List.prefix_rfl
  | headerName =>
    simp only [consume]
    split_ifs
    · exact .on (by decide)
    · exact .stay rfl
    · exact .write (by decide) fun h => List.prefix_append h.name [call.input]
  | headerValue =>
    simp only [consume]
    split_ifs
    · exact .on (by decide)
    · exact .stay rfl
    · exact .write (by decide) fun h => List.prefix_rfl
  | httpPostContent => exact headerMove_consumeContent L _ call
  | expectingContentNewline1 => exact .stay rfl

/-! ## There is a last header, and it has a name -/

/-- A parser that may take `headers.back()` wherever its state does. -/
structure BackReady (p : Parse) : Prop where
  /-- inside a header line there is a header -/
  back : p.state ∈ headerStates → p.req.headers ≠ []
  /-- every header has a name -/
  named : ∀ h ∈ p.req.headers, h.name ≠ []
  /-- some transition leads to the state -/
  used : p.state ∉ unusedStates

theorem backReady_fresh : BackReady .fresh := ⟨by decide, by decide, by decide⟩

theorem not_unused_of_header : ∀ st ∈ headerStates, st ∉ unusedStates := by decide

section Step

variable {st st' : ParserState} {req req' : Request}

/-- The headers stay, so only the new state matters. -/
theorem BackReady.of_headers_eq (h : BackReady ⟨st, req⟩) (hsame : req'.headers = req.headers)
    (hback : st' ∈ headerStates → req.headers ≠ []) (hused : st' ∉ unusedStates) :
    BackReady ⟨st', req'⟩ := by
  refine ⟨?_, ?_, hused⟩
  · simpa only [hsame] using hback
  · simpa only [hsame] using h.named

/-- Behind headers with names there is one more. -/
theorem backReady_addHeader {d : Header} (hbefore : ∀ h ∈ req.headers, h.name ≠ [])
    (hd : d.name ≠ []) (hused : st ∉ unusedStates) : BackReady ⟨st, req.addHeader d⟩ where
  back _ := List.concat_ne_nil d req.headers
  named := List.forall_mem_append.mpr ⟨hbefore, List.forall_mem_singleton.mpr hd⟩
  used := hused

/-- **Step**: the moves keep a parser ready. -/
theorem BackReady.move {p p' : Parse} (h : BackReady p) (hm : HeaderMove p p') : BackReady p' := by
  cases hm with
  | stay hsame => exact h.of_headers_eq hsame h.back h.used
  | out hout hsame => exact h.of_headers_eq hsame (fun hin => absurd hin hout.1) hout.2
  | begin c => exact backReady_addHeader h.named (List.cons_ne_nil c []) (by decide)
  | fold hne => exact h.of_headers_eq rfl (fun _ => hne) (by decide)
  | on hin =>
    exact h.of_headers_eq rfl (fun _ => h.back hin.1) (not_unused_of_header _ hin.2)
  | @write st st' req f hin hname =>
    obtain ⟨before, d, rfl⟩ := Request.exists_addHeader (h.back hin.1)
    obtain ⟨hbefore, hlast⟩ := List.forall_mem_append.mp h.named
    have hd : d.name ≠ [] := hlast d (List.mem_singleton_self d)
    rw [Request.modifyBack_addHeader]
    exact backReady_addHeader hbefore ((hname d).ne_nil hd) (not_unused_of_header _ hin.2)

end Step

/-- **Run**: a parser that is new when the first byte comes is always ready. -/
theorem backReady_always (L : LexicalCast) (calls : List Call) :
    Always (nextState (consume L)) BackReady .fresh calls := by
  refine always_of_step ?_ backReady_fresh calls
  intro p call h
  exact h.move (headerMove_consume L p call)

/-- The parser that successive calls of `parse` leave is ready. -/
theorem backReady_parse (L : LexicalCast) (chunks : List (List Call)) :
    BackReady (parse L chunks).state := by
  rw [parse, scanChunks_eq]
  exact (backReady_always L chunks.flatten).scan

theorem BackReady.last {p : Parse} (h : BackReady p) (hst : p.state ∈ headerStates) :
    ∃ d, p.req.headers.getLast? = some d ∧ d.name ≠ [] := by
  obtain ⟨d, hd⟩ := Option.isSome_iff_exists.mp (List.getLast?_isSome.mpr (h.back hst))
  exact ⟨d, hd, h.named d (List.mem_of_getLast? hd)⟩

/-- **`headers.back()` is never taken of an empty list.** Whatever bytes a new parser is fed
with a new request, also after a verdict: inside a header line the list has a last header and
it has a name, the two unused states are never entered, and no call of `consume` is
undefined. -/
theorem back_always_defined (L : LexicalCast) (calls : List Call) :
    Always (nextState (consume L)) (fun p =>
        (p.state ∈ headerStates → ∃ d, p.req.headers.getLast? = some d ∧ d.name ≠ []) ∧
          p.state ≠ .uriStart ∧ p.state ≠ .expectingContentNewline1) .fresh calls ∧
      EachStep (nextState (consume L)) (fun p call =>
        consumeChecked L p call = some (consume L p call)) .fresh calls := by
  have hready := backReady_always L calls
  refine ⟨?_, ?_⟩
  · intro pre hpre
    have h := hready pre hpre
    exact ⟨h.last, by simpa [unusedStates] using h.used⟩
  · exact hready.eachStep fun p call h => consumeChecked_eq L call h.back

end Http

end MyServer
