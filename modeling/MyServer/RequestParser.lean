import MyServer.Json
import MyServer.Scanner
import MyServer.Tighten

/-!
# The HTTP request parser (`request_parser.hpp`, `request_parser.cpp`, `http_common.cpp`)

`consume` is the automaton of the source, one state of `enum state` after the other, on a
parser and the request it fills. A `boost::tribool` is an optional verdict: `none` is
`indeterminate`. A third way to end is an exception, which `lexical_cast` throws on a
text it does not take.

Two things `consume` reads are not determined by the source. The local `cont_len` of the
body state is not initialised, and `append(&input)` reads a C string from the address of
one `char`, so it also reads what lies behind it. Both are part of a `Call`, with the byte.
-/

namespace MyServer

namespace Http

/-! ## Requests -/

/-- `struct header` -/
structure Header : Type where
  /-- `name` -/
  name : List UInt8
  /-- `value` -/
  value : List UInt8
  deriving DecidableEq

/-- `struct request` -/
structure Request : Type where
  /-- `method` -/
  method : List UInt8
  /-- `uri` -/
  uri : List UInt8
  /-- `http_version_major` -/
  httpVersionMajor : Int32
  /-- `http_version_minor` -/
  httpVersionMinor : Int32
  /-- `headers` -/
  headers : List Header
  /-- `content` -/
  content : List UInt8
  /-- `content_len` -/
  contentLen : Int32
  deriving DecidableEq

/-- The numeric conversions of `boost::lexical_cast`; `none` when it throws. -/
structure LexicalCast : Type where
  /-- to `size_t`, of 64 bits -/
  toSize : List UInt8 → Option UInt64
  /-- to `int` -/
  toInt : List UInt8 → Option Int32

namespace Request

/-- A new request. The source leaves the numbers indeterminate; they are set before
anything reads them. -/
def fresh : Request := ⟨[], [], 0, 0, [], [], 0⟩

/-- Change `headers.back()`. -/
def modifyBack (req : Request) (f : Header → Header) : Request :=
  match req.headers.getLast? with
  | none => req
  | some h => { req with headers := req.headers.dropLast ++ [f h] }

/-- `"Content-Length"` -/
def contentLength : List UInt8 :=
  [67, 111, 110, 116, 101, 110, 116, 45, 76, 101, 110, 103, 116, 104]

/-- `get_content_length`: `cont_len` and the request afterwards, or `none` when the
conversion throws. Without such a header `cont_len` is left as it was. -/
def getContentLength (L : LexicalCast) (req : Request) (contLen : UInt64) :
    Option (UInt64 × Request) :=
  match req.headers.find? fun h => h.name = contentLength with
  | none => some (contLen, req)
  | some h =>
    match L.toSize h.value with
    | none => none
    | some n => some (n, { req with contentLen := .ofNat n.toNat })

end Request

/-! ## Character classes -/

/-- `is_char` -/
def isChar (c : ℤ) : Bool := decide (0 ≤ c ∧ c ≤ 127)

/-- `is_ctl` -/
def isCtl (c : ℤ) : Bool := decide (0 ≤ c ∧ c ≤ 31 ∨ c = 127)

/-- `is_tspecial` -/
def isTspecial (c : ℤ) : Bool :=
  [40, 41, 60, 62, 64, 44, 59, 58, 92, 34, 47, 91, 93, 63, 61, 123, 125, 32, 9].contains c

/-- `is_digit` -/
def isDigit (c : ℤ) : Bool := decide (48 ≤ c ∧ c ≤ 57)

/-- The test of the method and of header names: `!is_char || is_ctl || is_tspecial`. -/
def noToken (c : ℤ) : Bool := !isChar c || isCtl c || isTspecial c

/-! ## The automaton -/

/-- `enum state` -/
inductive ParserState : Type where
  | methodStart | method | uriStart | uri
  | httpVersionH | httpVersionT1 | httpVersionT2 | httpVersionP | httpVersionSlash
  | httpVersionMajorStart | httpVersionMajor | httpVersionMinorStart | httpVersionMinor
  | expectingNewline1 | headerLineStart | headerLws | headerName | spaceBeforeHeaderValue
  | headerValue | expectingNewline2 | expectingNewline3 | httpPostContent
  | expectingContentNewline1
  deriving DecidableEq

/-- How `consume` ends when it does not want more. -/
inductive Verdict : Type where
  /-- it returns true -/
  | complete : Verdict
  /-- it returns false -/
  | invalid : Verdict
  /-- `bad_lexical_cast` -/
  | threw : Verdict
  deriving DecidableEq

/-- What `consume` finds on the stack. -/
structure Stack : Type where
  /-- the initial contents of `cont_len` -/
  contLen : UInt64
  /-- the bytes behind `input`, up to a NUL -/
  behind : CString
  deriving DecidableEq

/-- One call of `consume`. -/
structure Call : Type where
  /-- `input` -/
  input : UInt8
  /-- the stack of the call -/
  stack : Stack
  deriving DecidableEq

/-- What `append(&input)` appends. -/
def Call.cString (call : Call) : List UInt8 :=
  if call.input = 0 then [] else call.input :: call.stack.behind.val

/-- A `request_parser` and the `request` it fills. -/
structure Parse : Type where
  /-- `state_` -/
  state : ParserState
  /-- the request -/
  req : Request
  deriving DecidableEq

/-- A new parser with a new request. -/
def Parse.fresh : Parse := ⟨.methodStart, .fresh⟩

/-- `"GET"` -/
def get : List UInt8 := [71, 69, 84]

/-- `"POST"` -/
def post : List UInt8 := [80, 79, 83, 84]

/-- Move on to a state if the byte is the expected one. -/
def expects (p : Parse) (input c : UInt8) (next : ParserState) : Option Verdict × Parse :=
  if input = c then (none, ⟨next, p.req⟩) else (some .invalid, p)

/-- `case http_post_content` -/
def consumeContent (L : LexicalCast) (p : Parse) (call : Call) : Option Verdict × Parse :=
  match p.req.getContentLength L call.stack.contLen with
  | none => (some .threw, p)
  | some (contLen, req) =>
    if req.content.length < contLen.toNat then
      let req := { req with content := req.content ++ call.cString }
      if req.content.length = contLen.toNat then (some .complete, ⟨p.state, req⟩)
      else (none, ⟨p.state, req⟩)
    -- there is no `break` here: the case falls through into the next one
    else (some (if call.input = 10 then .complete else .invalid), ⟨p.state, req⟩)

/-- `request_parser::consume` -/
def consume (L : LexicalCast) (p : Parse) (call : Call) : Option Verdict × Parse :=
  let input := call.input
  let c := charValue input
  let req := p.req
  match p.state with
  | .methodStart =>
    if noToken c then (some .invalid, p)
    else (none, ⟨.method, { req with method := req.method ++ [input] }⟩)
  | .method =>
    if input = 32 then (none, ⟨.uri, req⟩)
    else if noToken c then (some .invalid, p)
    else (none, ⟨.method, { req with method := req.method ++ [input] }⟩)
  | .uriStart =>
    if isCtl c then (some .invalid, p)
    else (none, ⟨.uri, { req with uri := req.uri ++ [input] }⟩)
  | .uri =>
    if input = 32 then (none, ⟨.httpVersionH, req⟩)
    else if isCtl c then (some .invalid, p)
    else (none, ⟨.uri, { req with uri := req.uri ++ [input] }⟩)
  | .httpVersionH => expects p input 72 .httpVersionT1
  | .httpVersionT1 => expects p input 84 .httpVersionT2
  | .httpVersionT2 => expects p input 84 .httpVersionP
  | .httpVersionP => expects p input 80 .httpVersionSlash
  | .httpVersionSlash =>
    if input = 47 then
      (none, ⟨.httpVersionMajorStart, { req with httpVersionMajor := 0, httpVersionMinor := 0 }⟩)
    else (some .invalid, p)
  | .httpVersionMajorStart =>
    if isDigit c then
      (none, ⟨.httpVersionMajor,
        { req with httpVersionMajor := req.httpVersionMajor * 10 + .ofInt c - 48 }⟩)
    else (some .invalid, p)
  | .httpVersionMajor =>
    if input = 46 then (none, ⟨.httpVersionMinorStart, req⟩)
    else if isDigit c then
      (none, ⟨.httpVersionMajor,
        { req with httpVersionMajor := req.httpVersionMajor * 10 + .ofInt c - 48 }⟩)
    else (some .invalid, p)
  | .httpVersionMinorStart =>
    if isDigit c then
      (none, ⟨.httpVersionMinor,
        { req with httpVersionMinor := req.httpVersionMinor * 10 + .ofInt c - 48 }⟩)
    else (some .invalid, p)
  | .httpVersionMinor =>
    if input = 13 then (none, ⟨.expectingNewline1, req⟩)
    else if isDigit c then
      (none, ⟨.httpVersionMinor,
        { req with httpVersionMinor := req.httpVersionMinor * 10 + .ofInt c - 48 }⟩)
    else (some .invalid, p)
  | .expectingNewline1 => expects p input 10 .headerLineStart
  | .headerLineStart =>
    if input = 13 then (none, ⟨.expectingNewline3, req⟩)
    else if req.headers ≠ [] ∧ (input = 32 ∨ input = 9) then (none, ⟨.headerLws, req⟩)
    else if noToken c then (some .invalid, p)
    else (none, ⟨.headerName, { req with headers := req.headers ++ [⟨[input], []⟩] }⟩)
  | .headerLws =>
    if input = 13 then (none, ⟨.expectingNewline2, req⟩)
    else if input = 32 ∨ input = 9 then (none, p)
    else if isCtl c then (some .invalid, p)
    else (none, ⟨.headerValue, req.modifyBack fun h => { h with value := h.value ++ [input] }⟩)
  | .headerName =>
    if input = 58 then (none, ⟨.spaceBeforeHeaderValue, req⟩)
    else if noToken c then (some .invalid, p)
    else (none, ⟨.headerName, req.modifyBack fun h => { h with name := h.name ++ [input] }⟩)
  | .spaceBeforeHeaderValue => expects p input 32 .headerValue
  | .headerValue =>
    if input = 13 then (none, ⟨.expectingNewline2, req⟩)
    else if isCtl c then (some .invalid, p)
    else (none, ⟨.headerValue, req.modifyBack fun h => { h with value := h.value ++ [input] }⟩)
  | .expectingNewline2 => expects p input 10 .headerLineStart
  | .expectingNewline3 =>
    if req.method = get then (some (if input = 10 then .complete else .invalid), p)
    else (none, ⟨.httpPostContent, req⟩)
  | .httpPostContent => consumeContent L p call
  | .expectingContentNewline1 => (some (if input = 10 then .complete else .invalid), p)

/-- Successive calls of `request_parser::parse` on a new parser, one for each piece, as
long as they return `indeterminate`. -/
def parse (L : LexicalCast) (chunks : List (List Call)) : Scan Parse Call Verdict :=
  scanChunks (consume L) .fresh chunks

/-- The bytes that are fed to the parser. -/
def bytes (calls : List Call) : List UInt8 := calls.map Call.input

end Http

end MyServer
