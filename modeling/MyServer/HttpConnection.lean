import MyServer.FormData
import MyServer.HttpForward

/-!
# The HTTP connection (`connection.cpp`, `request_parser.cpp`, `http_common.cpp`)

A connection feeds what it reads to its parser. When the request is complete it answers
with a file, or it takes the parameters of a service request out of the URI or the body
and hands them to the gate; when it is invalid it answers with a stock reply; otherwise it
reads on. `handleRead` is this, for one read.

Nothing in `handle_read` catches exceptions, and three things it calls throw: the conversion
of the content length, the file system and, on a key of 2^31 bytes, `parse_content`. `ReadEnd`
tells how a read ended, and `handled_iff` says for which bytes every read of a connection ends as
it should.
-/

namespace MyServer

namespace Http

/-- The bytes of a text in ASCII. -/
def ascii (s : String) : List UInt8 := s.toList.map fun c => .ofNat c.toNat

/-! ## Replies -/

/-- The values of `status_type` a connection uses. -/
inductive Status : Type where
  | ok | badRequest
  deriving DecidableEq

/-- `struct reply` -/
structure Reply : Type where
  /-- `status` -/
  status : Status
  /-- `headers` -/
  headers : List Header
  /-- `content` -/
  content : List UInt8

/-- `status_strings::to_buffer` -/
def Status.toBuffer : Status → List UInt8
  | ok => ascii "HTTP/1.0 200 OK\r\n"
  | badRequest => ascii "HTTP/1.0 400 Bad Request\r\n"

/-- `stock_replies::to_string` -/
def Status.toText : Status → List UInt8
  | ok => []
  | badRequest => ascii "\x7b\"msg\":[400, \"Bad Request\"]\x7d"

/-- `to_buffers`, one after the other -/
def Reply.toBuffers (rep : Reply) : List UInt8 :=
  rep.status.toBuffer ++ rep.headers.flatMap (fun h => h.name ++ [58, 32] ++ h.value ++ [13, 10]) ++
    [13, 10] ++ rep.content

/-- A header `Content-Length`. -/
def Header.ofLength (content : List UInt8) : Header :=
  ⟨Request.contentLength, Json.intToString (.ofNat content.length)⟩

/-- `stock_reply` -/
def Reply.stockReply (status : Status) : Reply :=
  ⟨status, [.ofLength status.toText, ⟨ascii "Content-Type", ascii "text/html"⟩], status.toText⟩

/-- The reply of `writeMsg`. -/
def Reply.ofMessage (msg : NetMessage) : Reply :=
  ⟨.ok, [.ofLength msg.message, ⟨ascii "Content-Type", ascii "application/json"⟩], msg.message⟩

/-- The reply of `writeResourceMsg`. -/
def Reply.ofResource (content : List UInt8) : Reply :=
  ⟨.ok, [.ofLength content, ⟨ascii "Content-Type", ascii "text/html"⟩,
    ⟨ascii "Server", ascii "http_server powered by Lynn"⟩], content⟩

/-! ## The connection -/

/-- What `exists` and `is_regular_file` say of a path. -/
inductive FileLookup : Type where
  /-- no regular file -/
  | absent : FileLookup
  /-- a regular file and its contents, if it can be opened -/
  | regular : Option (List UInt8) → FileLookup
  /-- `filesystem_error`, on a path the system does not take or may not look up -/
  | threw : FileLookup
  deriving DecidableEq

/-- The bytes up to the next line feed, which is taken out of the stream and dropped, and
what is left of the stream. -/
def takeLine : List UInt8 → List UInt8 × List UInt8
  | [] => ([], [])
  | c :: s => if c = 10 then ([], s) else (c :: (takeLine s).1, (takeLine s).2)

/-- `getline(ifs, line)`: it fails when there is nothing left to take. -/
def getline (s : List UInt8) : Option (List UInt8 × List UInt8) :=
  if s = [] then none else some (takeLine s)

/-- `while (getline(ifs, line)) content.append(line);`. A line takes at least one byte, so as many
rounds as there are bytes are enough (`appendLines_eq`). -/
def appendLines : ℕ → List UInt8 → List UInt8 → List UInt8
  | 0, content, _ => content
  | rounds + 1, content, s =>
    match getline s with
    | none => content
    | some (line, rest) => appendLines rounds (content ++ line) rest

/-- `loadJsonFile`: nothing when the file cannot be opened. -/
def loadJsonFile (file : Option (List UInt8)) : List UInt8 :=
  match file with
  | none => []
  | some s => appendLines s.length [] s

theorem length_takeLine (c : UInt8) (s : List UInt8) :
    (takeLine (c :: s)).2.length < (c :: s).length := by
  induction s generalizing c with
  | nil =>
    rw [takeLine]
    split_ifs <;> exact Nat.zero_lt_one
  | cons d s ih =>
    rw [takeLine]
    split_ifs
    · exact Nat.lt_succ_self _
    · exact Nat.lt_succ_of_lt (ih d)

/-- A line, and what is left behind its line feed. -/
theorem filter_takeLine (s : List UInt8) :
    s.filter (fun c => c ≠ 10) = (takeLine s).1 ++ (takeLine s).2.filter fun c => c ≠ 10 := by
  induction s with
  | nil => rfl
  | cons c s ih =>
    rw [takeLine]
    split_ifs with hc
    · rw [List.filter_cons_of_neg (by simp [hc]), List.nil_append]
    · rw [List.filter_cons_of_pos (by simp [hc]), ih, List.cons_append]

/-- The loop appends everything but the line feeds. -/
theorem appendLines_eq {n : ℕ} {s : List UInt8} (h : s.length ≤ n) (content : List UInt8) :
    appendLines n content s = content ++ s.filter fun c => c ≠ 10 := by
  induction n generalizing content s with
  | zero =>
    obtain rfl : s = [] := List.length_eq_zero_iff.mp (Nat.le_zero.mp h)
    exact (List.append_nil _).symm
  | succ n ih =>
    cases s with
    | nil => exact (List.append_nil _).symm
    | cons c s =>
      have hlt := length_takeLine c s
      have hround : appendLines (n + 1) content (c :: s) =
          appendLines n (content ++ (takeLine (c :: s)).1) (takeLine (c :: s)).2 := rfl
      rw [hround, ih (by omega), filter_takeLine (c :: s), List.append_assoc]

/-- What is loaded of a file is all of it but the line feeds. -/
theorem loadJsonFile_eq (s : List UInt8) :
    loadJsonFile (some s) = s.filter fun c => c ≠ 10 := appendLines_eq (Nat.le_refl _) []

/-- What a connection depends on. -/
structure Env : Type where
  /-- `boost::lexical_cast` -/
  cast : LexicalCast
  /-- jsoncpp -/
  json : JsonLib
  /-- the file system -/
  files : List UInt8 → FileLookup
  /-- `current_path()` -/
  currentPath : List UInt8

/-- The class `Connection`. -/
structure Connection : Type where
  /-- `m_nConnId` -/
  connId : Int32
  /-- `m_bReadInProgress` -/
  readInProgress : Bool
  /-- `m_RequestParser` and `m_Request` -/
  parse : Parse
  /-- every `m_Reply` that was given to `async_write`, oldest first -/
  replies : List Reply

/-- A new connection with its id. -/
def Connection.create (connId : Int32) : Connection := ⟨connId, false, .fresh, []⟩

/-- How `handle_read` ends. -/
inductive ReadEnd : Type where
  /-- it sends a reply -/
  | replied : ReadEnd
  /-- it hands the request to the gate and sends a reply -/
  | forwarded : ReadEnd
  /-- it waits for more bytes -/
  | rearmed : ReadEnd
  /-- the read failed, nothing is done -/
  | readFailed : ReadEnd
  /-- an exception leaves it -/
  | threw : ReadEnd
  deriving DecidableEq

/-- `is_service_command` -/
def isServiceCommand (uri : List UInt8) : Bool := (ascii "/service?").isPrefixOf uri

/-- `is_request_resource` -/
def isRequestResource (uri : List UInt8) : Bool := (ascii "/www/").isPrefixOf uri

/-- The path of a resource: `current_path() / uri`. The URI begins with a slash, so no
separator is put between them. -/
def Env.filePath (env : Env) (uri : List UInt8) : List UInt8 := env.currentPath ++ uri

namespace Connection

variable (env : Env)

/-- Answer. -/
def respond (c : Connection) (rep : Reply) : Connection := { c with replies := c.replies ++ [rep] }

/-- What `handle_read` does with a complete request. -/
def handleRequest (g : Gate) (c : Connection) : ReadEnd × Connection × Gate :=
  let req := c.parse.req
  if ¬ isServiceCommand req.uri then
    if ¬ isRequestResource req.uri then (.replied, c.respond (.stockReply .badRequest), g)
    else
      match env.files (env.filePath req.uri) with
      | .threw => (.threw, c, g)
      | .absent => (.replied, c.respond (.stockReply .badRequest), g)
      | .regular file => (.replied, c.respond (.ofResource (loadJsonFile file)), g)
  else
    let ret :=
      if req.method = get then Form.parseContent .getMethod req.uri []
      else Form.parseContent .postMethod req.content []
    match ret with
    | none => (.threw, c, g)
    | some (ret, jreq) =>
      if ret ≠ 0 then (.replied, c.respond (.stockReply .badRequest), g)
      else
        let jreq := Json.insertMember netIdKey (.int c.connId) jreq
        let g := g.onHttpReq env.cast env.json c.connId jreq
        let netMsg := NetMessage.blank.setMessage (ascii "\x7b\"status\":\"ok\"\x7d")
        (.forwarded, c.respond (.ofMessage netMsg), g)

/-- `handle_read`: `none` is a read that failed. -/
def handleRead (g : Gate) (c : Connection) (read : Option (List Call)) :
    ReadEnd × Connection × Gate :=
  let c := { c with readInProgress := false }
  match read with
  | none => (.readFailed, c, g)
  | some calls =>
    let result := scan (consume env.cast) c.parse calls
    let c := { c with parse := result.state }
    match result.verdict with
    | some .threw => (.threw, c, g)
    | some .complete => c.handleRequest env g
    | some .invalid => (.replied, c.respond (.stockReply .badRequest), g)
    | none => (.rearmed, c, g)

/-- The reads of a connection, one for each piece, as long as they wait for more. -/
def session (g : Gate) (c : Connection) : List (List Call) → List ReadEnd
  | [] => []
  | chunk :: chunks =>
    match c.handleRead env g (some chunk) with
    | (.rearmed, c, g) => .rearmed :: c.session g chunks
    | (e, _, _) => [e]

end Connection

/-! ## The conversion that throws -/

/-- What is assumed of `lexical_cast<size_t>`: it takes the unsigned decimals that are in
range, and throws on every other text. -/
def LexicalCast.Strict (L : LexicalCast) : Prop :=
  ∀ t, (∃ n, n < 2 ^ 64 ∧ Numeral n t) ↔ L.toSize t ≠ none

theorem strictCast_strict : strictCast.Strict := by
  intro t
  simp only [strictCast, Numeral]
  split_ifs with h
  · simp only [ne_eq, reduceCtorEq, not_false_eq_true, iff_true]
    exact ⟨_, h.2.2, h.1, h.2.1, rfl⟩
  · simp only [ne_eq, not_true_eq_false, iff_false]
    rintro ⟨n, hn, hne, hdigits, rfl⟩
    exact h ⟨hne, hdigits, hn⟩

variable {L : LexicalCast}

/-- Only the body state throws, when the content length cannot be converted. -/
theorem consume_threw {p p' : Parse} {call : Call} (h : consume L p call = (some .threw, p')) :
    p.state = .httpPostContent ∧ p.req.getContentLength L call.stack.contLen = none := by
  obtain ⟨st, req⟩ := p
  rcases state_of_consume h (by decide) with rfl | rfl | rfl
  · simp only [consume] at h
    split_ifs at h <;> cases h
  · refine ⟨rfl, ?_⟩
    have hcontent : consumeContent L ⟨.httpPostContent, req⟩ call = (some .threw, p') := h
    rw [consumeContent] at hcontent
    rcases hlen : req.getContentLength L call.stack.contLen with _ | ⟨n, req'⟩
    · rfl
    · simp only [hlen] at hcontent
      split_ifs at hcontent <;> cases hcontent
  · simp only [consume] at h
    split_ifs at h <;> cases h

/-- **Which bytes make the parser throw**: a head that is no `GET` and whose first
`Content-Length` cannot be converted, an empty line, and at least one byte more. -/
theorem parse_threw_iff (chunks : List (List Call)) :
    (parse L chunks).verdict = some .threw ↔
      ∃ (h : Head) (c : UInt8) (rest v : List UInt8), h.target.method ≠ get ∧
        bytes chunks.flatten = h.bytes ++ 13 :: c :: rest ∧ rest ≠ [] ∧
        h.contentLength = some v ∧ L.toSize v = none := by
  rw [parse, scanChunks_eq]
  refine ⟨fun hthrew => ?_, ?_⟩
  · rcases hscan : scan (consume L) .fresh chunks.flatten with ⟨w, p, rest⟩
    rw [hscan] at hthrew
    obtain rfl : w = some .threw := hthrew
    obtain ⟨pre, call, p₁, hcalls, hpre, hlast⟩ := exists_of_scan_some hscan
    -- the last call threw, so it was in the body of a head
    obtain ⟨hst, hnone⟩ := consume_threw hlast
    obtain ⟨h, c, before, body, content, n, hget, rfl, hbefore, rfl⟩ := exists_inBody hpre hst
    obtain ⟨v, hv, hsize⟩ := (getContentLength_eq_none_iff _).mp hnone
    refine ⟨h, c, bytes (body ++ call :: rest), v, hget, ?_, by simp [bytes], hv, hsize⟩
    rw [hcalls, List.append_assoc, bytes_beyond hbefore]
  · rintro ⟨h, c, rest, v, hget, hbytes, hrest, hv, hsize⟩
    obtain ⟨before, call, after, hcalls, hbefore⟩ := exists_beyond hbytes hrest
    have hthrew : consume L (h.inBody [] 0) call = (some .threw, h.inBody [] 0) :=
      consume_inBody_threw hv hsize
    rw [hcalls, (h.passes_crlf hget hbefore).scan_append, scan_cons_some hthrew]

/-! ## Reads that end as they should -/

/-- A reply was sent, the request was forwarded, or more bytes are waited for. -/
def ReadEnd.Handled (e : ReadEnd) : Prop := e = .replied ∨ e = .forwarded ∨ e = .rearmed

instance (e : ReadEnd) : Decidable e.Handled := inferInstanceAs (Decidable (_ ∨ _ ∨ _))

/-- The file system can be asked about the resource of a URI, if it is one. -/
def Env.Answers (env : Env) (uri : List UInt8) : Prop :=
  isServiceCommand uri = false → isRequestResource uri = true →
    env.files (env.filePath uri) ≠ .threw

/-- The parameters of a service request: in a `GET` what is behind the question mark of the URI,
otherwise the content. -/
def Request.parameters (req : Request) : List UInt8 :=
  if req.method = get then req.uri.drop (ascii "/service?").length else req.content

/-- `parse_content` does not throw on the parameters of a service request. Those of less than
2^31 bytes are always taken (`Form.not_throws_of_length`). -/
def Request.Takes (req : Request) : Prop :=
  isServiceCommand req.uri = true → ¬ Form.Throws req.parameters

/-- The question mark of a service request is the first one. -/
theorem Request.parseContent_eq {req : Request} (h : isServiceCommand req.uri = true)
    (jreq : List (CString × Json)) :
    (if req.method = get then Form.parseContent .getMethod req.uri jreq
      else Form.parseContent .postMethod req.content jreq) =
        Form.parseContent .postMethod req.parameters jreq := by
  rw [Request.parameters]
  split_ifs
  · obtain ⟨rest, hrest⟩ := List.isPrefixOf_iff_prefix.mp h
    have huri : req.uri = ascii "/service" ++ 63 :: rest := hrest.symm
    rw [huri, Form.parseContent_get (by decide)]
    rfl
  · rfl

/-- The reply of a service request. -/
def serviceReply : Reply :=
  .ofMessage (NetMessage.blank.setMessage (ascii "\x7b\"status\":\"ok\"\x7d"))

namespace Connection

variable {env : Env}

/-- A service request is forwarded, unless `parse_content` throws. -/
theorem handleRequest_service (env : Env) (g : Gate) {c : Connection}
    (h : isServiceCommand c.parse.req.uri = true) :
    Form.Throws c.parse.req.parameters ∧ c.handleRequest env g = (.threw, c, g) ∨
      ¬ Form.Throws c.parse.req.parameters ∧
        ∃ g', c.handleRequest env g = (.forwarded, c.respond serviceReply, g') := by
  have hparse := Request.parseContent_eq h []
  rcases Form.parseContent_cases c.parse.req.parameters [] with ⟨hthrows, heq⟩ | ⟨hnot, jreq, heq⟩
  · refine .inl ⟨hthrows, ?_⟩
    simp only [handleRequest, h, not_true_eq_false, if_false, hparse, heq]
  · have hforward : c.handleRequest env g = (.forwarded, c.respond serviceReply,
        g.onHttpReq env.cast env.json c.connId
          (Json.insertMember netIdKey (.int c.connId) jreq)) := by
      simp only [handleRequest, h, not_true_eq_false, if_false, hparse, heq, ne_eq]
      rfl
    exact .inr ⟨hnot, _, hforward⟩

/-- A complete request is the last one of its connection, and it is answered unless the
file system throws, or `parse_content`. -/
theorem handleRequest_handled_iff (env : Env) (g : Gate) (c : Connection) :
    (c.handleRequest env g).1 ≠ .rearmed ∧
      ((c.handleRequest env g).1.Handled ↔
        env.Answers c.parse.req.uri ∧ c.parse.req.Takes) := by
  by_cases hservice : isServiceCommand c.parse.req.uri = true
  · rcases handleRequest_service env g hservice with ⟨hthrows, heq⟩ | ⟨hnot, g', heq⟩
    · simp [heq, Env.Answers, Request.Takes, ReadEnd.Handled, hservice, hthrows]
    · simp [heq, Env.Answers, Request.Takes, ReadEnd.Handled, hservice, hnot]
  · simp only [Bool.not_eq_true] at hservice
    simp only [handleRequest, Env.Answers, Request.Takes, ReadEnd.Handled, hservice,
      Bool.false_eq_true, not_false_eq_true, if_true, forall_const, false_imp_iff, and_true]
    by_cases hresource : isRequestResource c.parse.req.uri = true
    · simp only [hresource, not_true_eq_false, if_false, forall_const]
      rcases env.files (env.filePath c.parse.req.uri) with _ | file | _ <;> simp
    · simp [hresource]

theorem session_cons_rearmed {g g' : Gate} {c c' : Connection} {chunk : List Call}
    (h : c.handleRead env g (some chunk) = (.rearmed, c', g')) (chunks : List (List Call)) :
    c.session env g (chunk :: chunks) = .rearmed :: c'.session env g' chunks := by
  rw [session, h]

theorem session_cons_last {g : Gate} {c : Connection} {chunk : List Call} {e : ReadEnd}
    (h : (c.handleRead env g (some chunk)).1 = e) (hne : e ≠ .rearmed) (chunks : List (List Call)) :
    c.session env g (chunk :: chunks) = [e] := by
  rcases hread : c.handleRead env g (some chunk) with ⟨e', c', g'⟩
  rw [hread] at h
  obtain rfl : e' = e := h
  rw [session, hread]
  cases e' with
  | rearmed => exact absurd rfl hne
  | replied | forwarded | readFailed | threw => rfl

/-- **The reads of a connection** end as they should when the parser does not throw, and
neither the file system nor `parse_content` throws on the request. -/
theorem session_handled_iff (g : Gate) (c : Connection) (chunks : List (List Call)) :
    (∀ e ∈ c.session env g chunks, e.Handled) ↔
      (scanChunks (consume env.cast) c.parse chunks).verdict ≠ some .threw ∧
        ((scanChunks (consume env.cast) c.parse chunks).verdict = some .complete →
          env.Answers (scanChunks (consume env.cast) c.parse chunks).state.req.uri ∧
            (scanChunks (consume env.cast) c.parse chunks).state.req.Takes) := by
  induction chunks generalizing g c with
  | nil => simp [session, scanChunks]
  | cons chunk chunks ih =>
    rcases hscan : scan (consume env.cast) c.parse chunk with ⟨_ | w, p, rest⟩
    · -- the parser wants more: the same connection reads the next piece
      have hread : c.handleRead env g (some chunk) =
          (.rearmed, { c with readInProgress := false, parse := p }, g) := by
        simp only [handleRead, hscan]
      have hhandled : ReadEnd.rearmed.Handled := .inr (.inr rfl)
      simp only [session_cons_rearmed hread, scanChunks, hscan, List.forall_mem_cons, hhandled,
        true_and]
      exact ih g { c with readInProgress := false, parse := p }
    · cases w with
      | complete =>
        have hread : c.handleRead env g (some chunk) =
            handleRequest env g { c with readInProgress := false, parse := p } := by
          simp only [handleRead, hscan]
        obtain ⟨hne, hiff⟩ := handleRequest_handled_iff env g
          { c with readInProgress := false, parse := p }
        rw [← hread] at hne hiff
        simp [session_cons_last rfl hne, scanChunks, hscan, hiff]
      | invalid =>
        have hread : (c.handleRead env g (some chunk)).1 = .replied := by
          simp only [handleRead, hscan]
        simp [session_cons_last hread, scanChunks, hscan, ReadEnd.Handled]
      | threw =>
        have hread : (c.handleRead env g (some chunk)).1 = .threw := by
          simp only [handleRead, hscan]
        simp [session_cons_last hread, scanChunks, hscan, ReadEnd.Handled]

end Connection

/-- **Hostile input.** However the bytes are cut into reads, no call of the parser throws
and every read of a new connection ends with a reply, a forwarded request or the next
read, if and only if the first `Content-Length` of a request with a body is an unsigned
decimal in range, the file system can be asked about the resource that is requested, and
`parse_content` takes the parameters of a service request. -/
theorem handled_iff (env : Env) (hcast : env.cast.Strict) (g : Gate) (connId : Int32)
    (chunks : List (List Call)) :
    ((parse env.cast chunks).verdict ≠ some .threw ∧
        ∀ e ∈ (Connection.create connId).session env g chunks, e.Handled) ↔
      (∀ (h : Head) (c : UInt8) (rest v : List UInt8), h.target.method ≠ get →
          bytes chunks.flatten = h.bytes ++ 13 :: c :: rest → rest ≠ [] →
          h.contentLength = some v → ∃ n, n < 2 ^ 64 ∧ Numeral n v) ∧
        ((parse env.cast chunks).verdict = some .complete →
          env.Answers (parse env.cast chunks).state.req.uri ∧
            (parse env.cast chunks).state.req.Takes) := by
  have hsession : (∀ e ∈ (Connection.create connId).session env g chunks, e.Handled) ↔
      (parse env.cast chunks).verdict ≠ some .threw ∧
        ((parse env.cast chunks).verdict = some .complete →
          env.Answers (parse env.cast chunks).state.req.uri ∧
            (parse env.cast chunks).state.req.Takes) :=
    Connection.session_handled_iff g (.create connId) chunks
  have hthrew : (parse env.cast chunks).verdict ≠ some .threw ↔
      ∀ (h : Head) (c : UInt8) (rest v : List UInt8), h.target.method ≠ get →
        bytes chunks.flatten = h.bytes ++ 13 :: c :: rest → rest ≠ [] →
        h.contentLength = some v → ∃ n, n < 2 ^ 64 ∧ Numeral n v := by
    rw [ne_eq, parse_threw_iff]
    simp only [hcast _, not_exists, not_and, ne_eq]
  rw [hsession, hthrew]
  tauto

/-- A connection without files. -/
def emptyEnv : Env := ⟨strictCast, plainJson, fun _ => .absent, []⟩

/-- A service request in two reads: it is forwarded, so its content length is a number. -/
theorem handled_service :
    (Connection.create 1).session emptyEnv (.init 0)
        [quietCalls (ascii "POST /service? HTTP/1.0\r\nContent-"),
          quietCalls (ascii "Length: 3\r\n\r\na=1")] = [.rearmed, .forwarded] ∧
      ∀ (h : Head) (c : UInt8) (rest v : List UInt8), h.target.method ≠ get →
        bytes [quietCalls (ascii "POST /service? HTTP/1.0\r\nContent-"),
          quietCalls (ascii "Length: 3\r\n\r\na=1")].flatten = h.bytes ++ 13 :: c :: rest →
        rest ≠ [] →
        h.contentLength = some v → ∃ n, n < 2 ^ 64 ∧ Numeral n v := by
  refine ⟨by decide +kernel, ((handled_iff emptyEnv strictCast_strict (.init 0) 1 _).mp ?_).1⟩
  exact ⟨by decide +kernel, by decide +kernel⟩

/-- A content length that is no number, and one byte of a body: the exception leaves
`handle_read`. -/
theorem handled_fails_on_length_x :
    strictCast.Strict ∧
      (parse strictCast
        [quietCalls (ascii "POST / HTTP/1.0\r\nContent-Length: x\r\n\r\na")]).verdict =
          some .threw ∧
      (Connection.create 1).session emptyEnv (.init 0)
        [quietCalls (ascii "POST / HTTP/1.0\r\nContent-Length: x\r\n\r\na")] = [.threw] := by
  refine ⟨strictCast_strict, by decide +kernel, by decide +kernel⟩

end Http

end MyServer
