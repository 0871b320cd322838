import MyServer.ConnectionManager
import MyServer.HttpText

/-!
# The HTTP server (`http_server.cpp`, `connection.cpp`)

`HttpServer` accepts one connection after the other and gives each to the manager, which lets
it read. A connection has one operation on its way at a time: it waits for a read, and a read
that does not complete the request makes it wait for the next; the read that does makes it
write its reply, and then nothing more happens to it. All of this runs beside the TCP side of the
gate, in one process. An exception that leaves a handler ends the process, whichever side the
handler is on; the handlers are run one after the other here, though two threads run them.

* `page` — the reply to a complete request.
* `Served` — how a connection stands, by what was read on it.
* `connections_isolated` — what is sent on a connection depends on what was read on it only.
* `get_answered` — what a client reads that sent a `GET` request.
* `down_iff` — what ends the process.
* `nothing_released` — no connection is closed, and no entry of the manager is erased.
-/

namespace MyServer

namespace Http

/-! ## The model -/

/-- What a connection waits for. -/
inductive Phase : Type where
  /-- to be accepted -/
  | accepting : Phase
  /-- for a read -/
  | reading : Phase
  /-- for its reply to be written -/
  | writing : Phase
  /-- for nothing: the reply is written -/
  | written : Phase
  /-- for nothing, after an error -/
  | broken : Phase
  deriving DecidableEq

/-- The process of the gate, seen from its HTTP side. -/
structure WebServer : Type where
  /-- `httpConnMgr` -/
  mgr : ConnectionManager
  /-- the TCP side -/
  gate : Gate
  /-- the connection that is accepted next -/
  next : ConnPtr
  /-- what each connection waits for -/
  phase : ConnPtr → Phase
  /-- the pieces that were read on each connection -/
  input : ConnPtr → List (List Call)
  /-- the bytes that were written to each connection -/
  output : ConnPtr → List UInt8
  /-- the process has ended -/
  down : Bool

/-- What can happen. -/
inductive WebEvent : Type where
  /-- `handleAccept`, with an error or without -/
  | accept (err : Bool) : WebEvent
  /-- a read of a connection ends, with some bytes or with an error -/
  | read (c : ConnPtr) (read : Option (List Call)) : WebEvent
  /-- a write of a connection ends, or fails after some bytes -/
  | write (c : ConnPtr) (failed : Option ℕ) : WebEvent
  /-- something happens on the TCP side -/
  | tcp (op : GateOp) : WebEvent
  /-- an exception leaves a handler of the TCP side, as when `handle_accept` of the gate asks for
  the `remote_endpoint()` of a client that is gone -/
  | tcpThrew : WebEvent

/-- An accept without an error. -/
def WebEvent.accepts : WebEvent → Bool
  | .accept err => !err
  | _ => false

namespace WebServer

variable (o : ByteOrder) (env : Env)

/-- `startAccept` -/
def startAccept (s : WebServer) : WebServer := { s with next := s.next + 1 }

/-- `handleAccept` -/
def handleAccept (s : WebServer) (err : Bool) : WebServer :=
  if err then s.startAccept
  else
    { s with
      mgr := s.mgr.start s.next
      phase := Function.update s.phase s.next .reading }.startAccept

/-- What a connection waits for after a read. -/
def phaseAfter : ReadEnd → Phase
  | .replied => .writing
  | .forwarded => .writing
  | .rearmed => .reading
  | .readFailed => .broken
  | .threw => .broken

/-- `Connection::handle_read` -/
def handleRead (s : WebServer) (c : ConnPtr) (read : Option (List Call)) : WebServer :=
  let out := (s.mgr.conn c).handleRead env s.gate read
  { s with
    mgr := { s.mgr with conn := Function.update s.mgr.conn c out.2.1 }
    gate := out.2.2
    phase := Function.update s.phase c (phaseAfter out.1)
    input := Function.update s.input c (s.input c ++ read.toList)
    down := out.1 = .threw }

/-- The end of `async_write`, and `Connection::handle_write`. The reply that is written is the
last one. -/
def handleWrite (s : WebServer) (c : ConnPtr) (failed : Option ℕ) : WebServer :=
  let text := ((s.mgr.conn c).replies.getLast?.map Reply.toBuffers).getD []
  match failed with
  | none =>
    { s with
      output := Function.update s.output c (s.output c ++ text)
      phase := Function.update s.phase c .written }
  | some n =>
    { s with
      output := Function.update s.output c (s.output c ++ text.take n)
      phase := Function.update s.phase c .broken }

/-- One event. Nothing ends that was not begun, and nothing happens in a process that has ended. -/
def step (s : WebServer) (e : WebEvent) : WebServer :=
  if s.down then s
  else
    match e with
    | .accept err => s.handleAccept err
    | .read c read => if s.phase c = .reading then s.handleRead env c read else s
    | .write c failed => if s.phase c = .writing then s.handleWrite c failed else s
    | .tcp op => { s with gate := s.gate.step o op }
    | .tcpThrew => { s with down := true }

/-- The process after its start. -/
def init (now : ℤ) : WebServer where
  mgr := .create
  gate := .init now
  next := 0
  phase _ := .accepting
  input _ := []
  output _ := []
  down := false

/-- A run. -/
def run (now : ℤ) (es : List WebEvent) : WebServer := runFrom (step o env) (init now) es

end WebServer

/-! ## The reply to a request -/

/-- The reply to a complete request: `none` when `parse_content` or the file system throws. -/
def Env.page (env : Env) (req : Request) : Option Reply :=
  if isServiceCommand req.uri then
    if Form.Throws req.parameters then none else some serviceReply
  else if isRequestResource req.uri then
    match env.files (env.filePath req.uri) with
    | .threw => none
    | .absent => some (.stockReply .badRequest)
    | .regular file => some (.ofResource (loadJsonFile file))
  else some (.stockReply .badRequest)

/-- The reply to what a parser has read, if there is one. -/
def Env.answer (env : Env) (r : Scan Parse Call Verdict) : Option Reply :=
  match r.verdict with
  | some .complete => env.page r.state.req
  | some .invalid => some (.stockReply .badRequest)
  | some .threw => none
  | none => none

/-- What was read makes an exception leave the handler. -/
def Env.Kills (env : Env) (r : Scan Parse Call Verdict) : Prop :=
  r.verdict = some .threw ∨ r.verdict = some .complete ∧ env.page r.state.req = none

/-- `handle_read` answers a complete request with its page. -/
theorem Connection.handleRequest_spec (env : Env) (g : Gate) (c : Connection) :
    match env.page c.parse.req with
    | none => (c.handleRequest env g).1 = .threw ∧ (c.handleRequest env g).2.1 = c
    | some rep => ((c.handleRequest env g).1 = .replied ∨ (c.handleRequest env g).1 = .forwarded) ∧
        (c.handleRequest env g).2.1 = c.respond rep := by
  rw [Env.page]
  by_cases hservice : isServiceCommand c.parse.req.uri = true
  · rw [if_pos hservice]
    rcases handleRequest_service env g hservice with ⟨hthrows, heq⟩ | ⟨hnot, g', heq⟩
    · rw [if_pos hthrows, heq]
      exact ⟨rfl, rfl⟩
    · rw [if_neg hnot, heq]
      exact ⟨.inr rfl, rfl⟩
  rw [Connection.handleRequest]
  by_cases hresource : isRequestResource c.parse.req.uri = true
  · rw [if_neg hservice, if_pos hresource]
    simp only [hservice, Bool.false_eq_true, not_false_eq_true, if_true, hresource,
      not_true_eq_false, if_false]
    rcases env.files (env.filePath c.parse.req.uri) with _ | file | _
    · exact ⟨.inl rfl, rfl⟩
    · exact ⟨.inl rfl, rfl⟩
    · exact ⟨rfl, rfl⟩
  · rw [if_neg hservice, if_neg hresource]
    dsimp only
    rw [if_pos hservice, if_pos hresource]
    exact ⟨.inl rfl, rfl⟩

/-- How a read ends, by what the parser makes of it. -/
inductive Ends (env : Env) (r : Scan Parse Call Verdict) : ReadEnd → Prop where
  /-- more is wanted -/
  | rearmed : r.verdict = none → Ends env r .rearmed
  /-- there is a reply -/
  | replied {rep : Reply} {e : ReadEnd} : env.answer r = some rep →
      e = .replied ∨ e = .forwarded → Ends env r e
  /-- an exception -/
  | threw : env.Kills r → Ends env r .threw

/-- **One read**: the parser goes on, and the reply to what it has read is added. -/
theorem Connection.handleRead_spec (env : Env) (g : Gate) (c : Connection) (calls : List Call) :
    let r := scan (consume env.cast) c.parse calls
    let out := c.handleRead env g (some calls)
    out.2.1.parse = r.state ∧ out.2.1.replies = c.replies ++ (env.answer r).toList ∧
      Ends env r out.1 := by
  intro r out
  rcases hscan : scan (consume env.cast) c.parse calls with ⟨_ | w, p, rest⟩
  · have hout : out = (.rearmed, { c with readInProgress := false, parse := p }, g) := by
      simp only [out, Connection.handleRead, hscan]
    rw [hout, show r = _ from hscan]
    exact ⟨rfl, (List.append_nil _).symm, .rearmed rfl⟩
  · cases w with
    | complete =>
      -- what `handleRequest` does
      have hout : out = handleRequest env g { c with readInProgress := false, parse := p } := by
        simp only [out, Connection.handleRead, hscan]
      have hspec := handleRequest_spec env g { c with readInProgress := false, parse := p }
      rw [hout, show r = _ from hscan, Env.answer]
      dsimp only at hspec ⊢
      rcases hpage : env.page p.req with _ | rep
      · rw [hpage] at hspec
        rw [hspec.1, hspec.2]
        exact ⟨rfl, (List.append_nil _).symm, .threw (.inr ⟨rfl, hpage⟩)⟩
      · rw [hpage] at hspec
        rw [hspec.2]
        exact ⟨rfl, rfl, .replied hpage hspec.1⟩
    | invalid =>
      have hout : out = (.replied, respond { c with readInProgress := false, parse := p }
          (.stockReply .badRequest), g) := by
        simp only [out, Connection.handleRead, hscan]
      have hanswer : env.answer ⟨some .invalid, p, rest⟩ = some (.stockReply .badRequest) := rfl
      rw [hout, show r = _ from hscan]
      exact ⟨rfl, rfl, .replied hanswer (.inl rfl)⟩
    | threw =>
      have hout : out = (.threw, { c with readInProgress := false, parse := p }, g) := by
        simp only [out, Connection.handleRead, hscan]
      rw [hout, show r = _ from hscan]
      exact ⟨rfl, (List.append_nil _).symm, .threw (.inl rfl)⟩

theorem Env.Kills.answer {env : Env} {r : Scan Parse Call Verdict} (h : env.Kills r) :
    env.answer r = none := by
  rcases h with h | ⟨h, hpage⟩
  · rw [Env.answer, h]
  · rw [Env.answer, h]
    exact hpage

theorem Env.not_kills_of_none {env : Env} {r : Scan Parse Call Verdict} (h : r.verdict = none) :
    ¬ env.Kills r := by
  rintro (hthrew | ⟨hcomplete, -⟩)
  · rw [h] at hthrew
    cases hthrew
  · rw [h] at hcomplete
    cases hcomplete

/-- One more piece. -/
theorem parse_snoc {L : LexicalCast} {chunks : List (List Call)} {p : Parse}
    (h : parse L chunks = ⟨none, p, []⟩) (chunk : List Call) :
    parse L (chunks ++ [chunk]) = scan (consume L) p chunk := by
  rw [parse, scanChunks_eq] at h ⊢
  rw [List.flatten_append, List.flatten_singleton]
  exact Passes.scan_append h chunk

/-! ## How a connection stands -/

namespace WebServer

/-- How a connection stands, by what was read on it. -/
structure Served (env : Env) (s : WebServer) (c : ConnPtr) : Prop where
  /-- as long as it reads, the parser wants more -/
  unread : s.phase c = .accepting ∨ s.phase c = .reading →
    parse env.cast (s.input c) = ⟨none, (s.mgr.conn c).parse, []⟩
  /-- its reply is the answer to what was read -/
  replies : (s.mgr.conn c).replies = (env.answer (parse env.cast (s.input c))).toList
  /-- and there is one when it is written -/
  answered : s.phase c = .writing ∨ s.phase c = .written →
    ∃ rep, env.answer (parse env.cast (s.input c)) = some rep
  /-- nothing is on the wire before the write has ended -/
  silent : s.phase c ≠ .written → s.phase c ≠ .broken → s.output c = []
  /-- what is written is the reply -/
  whole : s.phase c = .written → s.output c = (s.mgr.conn c).replies.flatMap Reply.toBuffers
  /-- or a part of it -/
  part : s.output c <+: (s.mgr.conn c).replies.flatMap Reply.toBuffers
  /-- a process that runs has seen nothing that ends it -/
  alive : s.down = false → ¬ env.Kills (parse env.cast (s.input c))

/-- What holds in every state. -/
structure Sound (env : Env) (s : WebServer) : Prop where
  /-- of each connection -/
  served : ∀ c, Served env s c
  /-- connections that are not accepted yet -/
  fresh : ∀ c, s.next ≤ c → s.phase c = .accepting

variable {o : ByteOrder} {env : Env} {s : WebServer}

theorem sound_init (env : Env) (now : ℤ) : Sound env (init now) := by
  refine ⟨fun c => ⟨fun _ => rfl, rfl, fun h => ?_, fun _ _ => rfl, fun h => ?_, List.prefix_rfl,
    fun _ => ?_⟩, fun _ _ => rfl⟩
  · exact h.elim Phase.noConfusion Phase.noConfusion
  · cases h
  · exact Env.not_kills_of_none rfl

/-- Nothing has happened to the connection, except that it may have been accepted. -/
theorem Served.of_eq {s' : WebServer} {c : ConnPtr} (h : Served env s c)
    (hconn : (s'.mgr.conn c).parse = (s.mgr.conn c).parse ∧
      (s'.mgr.conn c).replies = (s.mgr.conn c).replies)
    (hinput : s'.input c = s.input c) (houtput : s'.output c = s.output c)
    (hdown : s'.down = false → s.down = false)
    (hphase : s'.phase c = s.phase c ∨ s.phase c = .accepting ∧ s'.phase c = .reading) :
    Served env s' c := by
  rcases hphase with hphase | ⟨haccepting, hreading⟩
  · refine ⟨?_, ?_, ?_, ?_, ?_, ?_, ?_⟩ <;>
      simp only [hconn.1, hconn.2, hinput, houtput, hphase]
    · exact h.unread
    · exact h.replies
    · exact h.answered
    · exact h.silent
    · exact h.whole
    · exact h.part
    · exact fun hup => h.alive (hdown hup)
  · have hnew : s.phase c ≠ .written ∧ s.phase c ≠ .broken := by
      rw [haccepting]
      decide
    refine ⟨?_, ?_, ?_, ?_, ?_, ?_, ?_⟩ <;>
      simp only [hconn.1, hconn.2, hinput, houtput, hreading]
    · exact fun _ => h.unread (.inl haccepting)
    · exact h.replies
    · exact fun hwriting => hwriting.elim Phase.noConfusion Phase.noConfusion
    · exact fun _ _ => h.silent hnew.1 hnew.2
    · exact fun hwritten => Phase.noConfusion hwritten
    · exact h.part
    · exact fun hup => h.alive (hdown hup)

theorem Sound.handleAccept (h : Sound env s) (err : Bool) : Sound env (s.handleAccept err) := by
  rw [WebServer.handleAccept]
  split_ifs
  · refine ⟨fun c => (h.served c).of_eq ⟨rfl, rfl⟩ rfl rfl id (.inl rfl), fun c hc => ?_⟩
    exact h.fresh c (Nat.le_of_succ_le hc)
  · have hconn : ∀ c, ((s.mgr.start s.next).conn c).parse = (s.mgr.conn c).parse ∧
        ((s.mgr.start s.next).conn c).replies = (s.mgr.conn c).replies := by
      intro c
      rw [ConnectionManager.start, ConnectionManager.getNextConnId]
      by_cases hc : c = s.next
      · subst hc
        simp
      · simp [hc]
    refine ⟨fun c => (h.served c).of_eq (hconn c) rfl rfl id ?_, fun c hc => ?_⟩
    · by_cases hc : c = s.next
      · subst hc
        exact .inr ⟨h.fresh s.next (Nat.le_refl _), Function.update_self ..⟩
      · exact .inl (Function.update_of_ne hc ..)
    · have hlt : s.next + 1 ≤ c := hc
      exact (Function.update_of_ne (Nat.ne_of_gt hlt) ..).trans (h.fresh c (Nat.le_of_succ_le hlt))

/-- Nothing is on the wire of a connection that reads, or whose write has not ended. -/
theorem Served.output_eq_nil {c : ConnPtr} (h : Served env s c)
    (hphase : s.phase c = .reading ∨ s.phase c = .writing) : s.output c = [] := by
  refine h.silent ?_ ?_ <;> rcases hphase with hphase | hphase <;> rw [hphase] <;> decide

/-- There is no reply before the request is read. -/
theorem Served.replies_eq_nil {c : ConnPtr} (h : Served env s c)
    (hreading : s.phase c = .reading) : (s.mgr.conn c).replies = [] := by
  rw [h.replies, h.unread (.inr hreading)]
  rfl

/-- A connection to which nothing was written. -/
theorem served_of_silent {c : ConnPtr} {r : Scan Parse Call Verdict} {phase : Phase}
    (hphase : s.phase c = phase) (hr : parse env.cast (s.input c) = r) (hout : s.output c = [])
    (hreplies : (s.mgr.conn c).replies = (env.answer r).toList) (hne : phase ≠ .written)
    (hunread : phase = .accepting ∨ phase = .reading → r = ⟨none, (s.mgr.conn c).parse, []⟩)
    (hanswered : phase = .writing → ∃ rep, env.answer r = some rep)
    (halive : s.down = false → ¬ env.Kills r) : Served env s c := by
  subst hr hphase
  refine ⟨hunread, hreplies, fun hwriting => hwriting.elim hanswered fun h => absurd h hne,
    fun _ _ => hout, fun hwritten => absurd hwritten hne, ?_, halive⟩
  rw [hout]
  exact List.nil_prefix

/-- A read that fails leaves a connection that was neither answered nor will be. -/
theorem Served.handleRead_failed {c : ConnPtr} (h : Served env s c)
    (hreading : s.phase c = .reading) : Served env (s.handleRead env c none) c := by
  have hphase : (s.handleRead env c none).phase c = .broken := Function.update_self ..
  have hinput : (s.handleRead env c none).input c = s.input c :=
    (Function.update_self ..).trans (List.append_nil _)
  have hconn : (s.handleRead env c none).mgr.conn c =
      ((s.mgr.conn c).handleRead env s.gate none).2.1 := Function.update_self ..
  refine served_of_silent hphase (hinput ▸ h.unread (.inr hreading))
    (h.output_eq_nil (.inl hreading)) ?_ (by decide) (fun hopen => ?_) Phase.noConfusion fun _ => ?_
  · rw [hconn]
    exact h.replies_eq_nil hreading
  · exact hopen.elim Phase.noConfusion Phase.noConfusion
  · exact Env.not_kills_of_none rfl

/-- A read that brings bytes. What becomes of the connection is said by how `handle_read` ends. -/
theorem Served.handleRead_some {c : ConnPtr} (h : Served env s c) (hreading : s.phase c = .reading)
    (calls : List Call) : Served env (s.handleRead env c (some calls)) c ∧
      ((s.handleRead env c (some calls)).down = true →
        env.Kills (parse env.cast ((s.handleRead env c (some calls)).input c))) := by
  have hout : (s.handleRead env c (some calls)).output c = [] := h.output_eq_nil (.inl hreading)
  have hconn : (s.handleRead env c (some calls)).mgr.conn c =
      ((s.mgr.conn c).handleRead env s.gate (some calls)).2.1 := Function.update_self ..
  have hphase : (s.handleRead env c (some calls)).phase c =
      phaseAfter ((s.mgr.conn c).handleRead env s.gate (some calls)).1 := Function.update_self ..
  have hinput : (s.handleRead env c (some calls)).input c = s.input c ++ [calls] :=
    Function.update_self ..
  have hdown : (s.handleRead env c (some calls)).down =
      decide (((s.mgr.conn c).handleRead env s.gate (some calls)).1 = .threw) := rfl
  obtain ⟨hstate, hreplies, hends⟩ := Connection.handleRead_spec env s.gate (s.mgr.conn c) calls
  rw [h.replies_eq_nil hreading, List.nil_append, ← hconn] at hreplies
  rw [← hconn] at hstate
  have hall : parse env.cast ((s.handleRead env c (some calls)).input c) =
      scan (consume env.cast) (s.mgr.conn c).parse calls := by
    rw [hinput]
    exact parse_snoc (h.unread (.inr hreading)) calls
  rw [hall]
  generalize ((s.mgr.conn c).handleRead env s.gate (some calls)).1 = e at hphase hdown hends
  cases hends with
  | rearmed hverdict =>
    refine ⟨served_of_silent hphase hall hout hreplies (by decide) (fun _ => ?_)
      Phase.noConfusion fun _ => Env.not_kills_of_none hverdict, fun hthrew => ?_⟩
    · rw [hstate]
      rcases scan_cases (consume env.cast) (s.mgr.conn c).parse calls with
        ⟨p, hp⟩ | ⟨_, _, _, _, w, _, _, _, _, hw⟩
      · rw [show scan _ _ _ = _ from hp]
      · rw [hw] at hverdict
        cases hverdict
    · rw [hdown] at hthrew
      cases hthrew
  | replied hanswer hend =>
    have hwriting : (s.handleRead env c (some calls)).phase c = .writing := by
      rcases hend with rfl | rfl <;> exact hphase
    refine ⟨served_of_silent hwriting hall hout hreplies (by decide) (fun hopen => ?_)
      (fun _ => ⟨_, hanswer⟩) fun _ hkills => ?_, fun hthrew => ?_⟩
    · exact hopen.elim Phase.noConfusion Phase.noConfusion
    · rw [hkills.answer] at hanswer
      cases hanswer
    · rcases hend with rfl | rfl <;> (rw [hdown] at hthrew; cases hthrew)
  | threw hkills =>
    refine ⟨served_of_silent hphase hall hout hreplies (by decide) (fun hopen => ?_)
      Phase.noConfusion fun hup => ?_, fun _ => hkills⟩
    · exact hopen.elim Phase.noConfusion Phase.noConfusion
    · rw [hdown] at hup
      cases hup

/-- **A read** of a connection that waits for one. -/
theorem Served.handleRead {c : ConnPtr} (h : Served env s c) (hreading : s.phase c = .reading)
    (read : Option (List Call)) : Served env (s.handleRead env c read) c ∧
      ((s.handleRead env c read).down = true →
        env.Kills (parse env.cast ((s.handleRead env c read).input c))) := by
  cases read with
  | none =>
    refine ⟨h.handleRead_failed hreading, fun hthrew => ?_⟩
    cases hthrew
  | some calls => exact h.handleRead_some hreading calls

theorem Sound.handleRead (h : Sound env s) (hup : s.down = false) {c : ConnPtr}
    (hreading : s.phase c = .reading) (read : Option (List Call)) :
    Sound env (s.handleRead env c read) := by
  refine ⟨fun d => ?_, fun d hd => ?_⟩
  · by_cases hdc : d = c
    · subst hdc
      exact ((h.served d).handleRead hreading read).1
    · have hconn : (s.handleRead env c read).mgr.conn d = s.mgr.conn d :=
        Function.update_of_ne hdc ..
      exact (h.served d).of_eq (by rw [hconn]; exact ⟨rfl, rfl⟩) (Function.update_of_ne hdc ..)
        rfl (fun _ => hup) (.inl (Function.update_of_ne hdc ..))
  · have hdc : d ≠ c := by
      rintro rfl
      have hphase := h.fresh d hd
      rw [hreading] at hphase
      cases hphase
    exact (Function.update_of_ne hdc ..).trans (h.fresh d hd)

/-- There is at most one reply, and it is the one that is written. -/
theorem Served.text {c : ConnPtr} (h : Served env s c) :
    ((s.mgr.conn c).replies.getLast?.map Reply.toBuffers).getD [] =
      (s.mgr.conn c).replies.flatMap Reply.toBuffers := by
  rw [h.replies]
  cases env.answer (parse env.cast (s.input c)) with
  | none => rfl
  | some rep => exact (List.flatMap_singleton ..).symm

/-- **A write** of a connection that waits for one. -/
theorem Served.handleWrite {c : ConnPtr} (h : Served env s c) (hwriting : s.phase c = .writing)
    (failed : Option ℕ) : Served env (s.handleWrite c failed) c := by
  have hout : s.output c = [] := h.output_eq_nil (.inr hwriting)
  cases failed with
  | none =>
    have hphase : (s.handleWrite c none).phase c = .written := Function.update_self ..
    have hnew : (s.handleWrite c none).output c =
        (s.mgr.conn c).replies.flatMap Reply.toBuffers := by
      rw [← h.text]
      refine (Function.update_self ..).trans ?_
      rw [hout, List.nil_append]
    refine ⟨fun hopen => ?_, h.replies, fun _ => h.answered (.inl hwriting),
      fun hne => absurd hphase hne, fun _ => hnew, ?_, h.alive⟩
    · rw [hphase] at hopen
      exact hopen.elim Phase.noConfusion Phase.noConfusion
    · rw [hnew]
      exact List.prefix_rfl
  | some n =>
    have hphase : (s.handleWrite c (some n)).phase c = .broken := Function.update_self ..
    have hnew : (s.handleWrite c (some n)).output c =
        ((s.mgr.conn c).replies.flatMap Reply.toBuffers).take n := by
      rw [← h.text]
      refine (Function.update_self ..).trans ?_
      rw [hout, List.nil_append]
    refine ⟨fun hopen => ?_, h.replies, fun _ => h.answered (.inl hwriting),
      fun _ hne => absurd hphase hne, fun hwritten => ?_, ?_, h.alive⟩
    · rw [hphase] at hopen
      exact hopen.elim Phase.noConfusion Phase.noConfusion
    · rw [hphase] at hwritten
      cases hwritten
    · rw [hnew]
      exact List.take_prefix n _

/-- A write of one connection leaves the others alone. -/
theorem handleWrite_frame {c d : ConnPtr} (hdc : d ≠ c) (failed : Option ℕ) :
    (s.handleWrite c failed).output d = s.output d ∧
      (s.handleWrite c failed).phase d = s.phase d := by
  cases failed <;> exact ⟨Function.update_of_ne hdc .., Function.update_of_ne hdc ..⟩

theorem Sound.handleWrite (h : Sound env s) {c : ConnPtr} (hwriting : s.phase c = .writing)
    (failed : Option ℕ) : Sound env (s.handleWrite c failed) := by
  have hfields : (s.handleWrite c failed).mgr = s.mgr ∧ (s.handleWrite c failed).input = s.input ∧
      (s.handleWrite c failed).next = s.next ∧ (s.handleWrite c failed).down = s.down := by
    cases failed <;> exact ⟨rfl, rfl, rfl, rfl⟩
  obtain ⟨hmgr, hinput, hnext, hdown⟩ := hfields
  refine ⟨fun d => ?_, fun d hd => ?_⟩
  · by_cases hdc : d = c
    · subst hdc
      exact (h.served d).handleWrite hwriting failed
    · obtain ⟨houtput, hphase⟩ := handleWrite_frame (s := s) hdc failed
      refine (h.served d).of_eq ?_ (congrFun hinput d) houtput (fun hup => ?_) (.inl hphase)
      · rw [hmgr]
        exact ⟨rfl, rfl⟩
      · rw [← hdown]
        exact hup
  · rw [hnext] at hd
    have hdc : d ≠ c := by
      rintro rfl
      have hphase := h.fresh d hd
      rw [hwriting] at hphase
      cases hphase
    rw [(handleWrite_frame hdc failed).2]
    exact h.fresh d hd

/-- **Step**: every event keeps the state sound. -/
theorem Sound.step (h : Sound env s) (e : WebEvent) : Sound env (s.step o env e) := by
  rw [WebServer.step.eq_def]
  split_ifs with hdown
  · exact h
  rw [Bool.not_eq_true] at hdown
  cases e with
  | accept err => exact h.handleAccept err
  | read c read =>
    dsimp only
    split_ifs with hreading
    · exact h.handleRead hdown hreading read
    · exact h
  | write c failed =>
    dsimp only
    split_ifs with hwriting
    · exact h.handleWrite hwriting failed
    · exact h
  | tcp op => exact ⟨fun c => (h.served c).of_eq ⟨rfl, rfl⟩ rfl rfl id (.inl rfl), h.fresh⟩
  | tcpThrew =>
    exact ⟨fun c => (h.served c).of_eq ⟨rfl, rfl⟩ rfl rfl (fun _ => hdown) (.inl rfl), h.fresh⟩

/-- **Run**: so is every state. -/
theorem sound_run (o : ByteOrder) (env : Env) (now : ℤ) (es : List WebEvent) :
    Sound env (run o env now es) :=
  (always_of_step (fun _ e h => h.step e) (sound_init env now) es).last

/-! ## What is sent -/

/-- When the write has ended, all of the reply is on the wire. -/
theorem Served.written {c : ConnPtr} (h : Served env s c) (hwritten : s.phase c = .written) :
    ∃ rep, env.answer (parse env.cast (s.input c)) = some rep ∧ (s.mgr.conn c).replies = [rep] ∧
      s.output c = rep.toBuffers := by
  obtain ⟨rep, hrep⟩ := h.answered (.inr hwritten)
  have hone : (s.mgr.conn c).replies = [rep] := by
    rw [h.replies, hrep]
    rfl
  refine ⟨rep, hrep, hone, ?_⟩
  rw [h.whole hwritten, hone, List.flatMap_singleton]

/-- **Connections do not disturb each other.** Whatever happens, and in whatever order, on all
connections and on the TCP side: a connection has at most one reply, which is the one that what was
read on it calls for; nothing but this reply is written to it, and once the write has ended all
of it. -/
theorem connections_isolated (o : ByteOrder) (env : Env) (now : ℤ) (es : List WebEvent)
    (c : ConnPtr) :
    let s := run o env now es
    (s.mgr.conn c).replies = (env.answer (parse env.cast (s.input c))).toList ∧
      s.output c <+: (s.mgr.conn c).replies.flatMap Reply.toBuffers ∧
      (s.phase c = .written →
        ∃ rep, (s.mgr.conn c).replies = [rep] ∧ s.output c = rep.toBuffers) := by
  intro s
  have hserved := (sound_run o env now es).served c
  refine ⟨hserved.replies, hserved.part, fun hwritten => ?_⟩
  obtain ⟨rep, -, hone, hout⟩ := hserved.written hwritten
  exact ⟨rep, hone, hout⟩

end WebServer

/-- The replies to requests can be read, up to 2³¹ bytes. -/
theorem Env.proper_page {env : Env} {req : Request} {rep : Reply} (h : env.page req = some rep)
    (hfits : rep.content.length < 2 ^ 31) : rep.Proper := by
  rw [Env.page] at h
  split_ifs at h
  · cases h
    exact proper_ofMessage hfits
  · split at h
    · cases h
    · cases h
      exact proper_stockReply _
    · cases h
      exact proper_ofResource hfits
  · cases h
    exact proper_stockReply _

namespace WebServer

variable {o : ByteOrder} {env : Env} {now : ℤ} {es : List WebEvent} {c : ConnPtr}

/-- **A `GET` request is answered with its page.** In every run, on a connection on which the bytes
of a `GET` request have arrived, in whatever pieces: the reply is its page, if it has one, and
when it is written, a client that reads the bytes on the connection gets the code, the headers and
the body of that page. -/
theorem get_answered {h : Head} (hget : h.target.method = get)
    (hbytes : bytes ((run o env now es).input c).flatten = h.bytes ++ crlf) :
    let s := run o env now es
    (s.mgr.conn c).replies = (env.page h.request).toList ∧
      (s.phase c = .written → ∃ rep, env.page h.request = some rep ∧
        (rep.content.length < 2 ^ 31 → readResponse (s.output c) = some rep.response)) := by
  intro s
  have hserved : Served env s c := (sound_run o env now es).served c
  have hanswer : env.answer (parse env.cast (s.input c)) = env.page h.request := by
    have hparse : parse env.cast (s.input c) = _ :=
      (scanChunks_eq _ _).trans (h.decides hget hbytes)
    rw [hparse]
    rfl
  refine ⟨hanswer ▸ hserved.replies, fun hwritten => ?_⟩
  obtain ⟨rep, hrep, -, hout⟩ := hserved.written hwritten
  rw [hanswer] at hrep
  refine ⟨rep, hrep, fun hfits => ?_⟩
  rw [hout]
  exact readResponse_toBuffers (Env.proper_page hrep hfits)

/-- Two clients: one asks for a page, in two pieces, while the other one waits. -/
def twoClients : List WebEvent :=
  [.accept false, .accept false, .read 1 (some (quietCalls (ascii "GET /www/"))),
    .read 0 (some (quietCalls (ascii "GE"))), .tcp (.accept .success 0),
    .read 1 (some (quietCalls (ascii "a.html HTTP/1.0\r\n\r\n"))), .write 1 none]

/-- The head of the request. -/
def pageHead : Head :=
  { postRoot 0 with
    target := ⟨get, ascii "/www/a.html", by decide, by decide, by decide⟩
    lines := [] }

/-- The client gets its page. -/
theorem get_answered_page :
    (run .little (fileEnv (ascii "<p>")) 0 twoClients).phase 1 = .written ∧
      readResponse ((run .little (fileEnv (ascii "<p>")) 0 twoClients).output 1) =
        some (Reply.ofResource (ascii "<p>")).response := by
  have hwritten : (run .little (fileEnv (ascii "<p>")) 0 twoClients).phase 1 = .written := by
    decide +kernel
  have hbytes : bytes ((run .little (fileEnv (ascii "<p>")) 0 twoClients).input 1).flatten =
      pageHead.bytes ++ crlf := by decide +kernel
  obtain ⟨-, hread⟩ := get_answered (h := pageHead) rfl hbytes
  obtain ⟨rep, hpage, hresponse⟩ := hread hwritten
  have hrep : rep = .ofResource (ascii "<p>") := by
    have hfile : (fileEnv (ascii "<p>")).page pageHead.request =
        some (.ofResource (ascii "<p>")) := rfl
    exact Option.some.inj (hpage.symm.trans hfile)
  subst hrep
  exact ⟨hwritten, hresponse (by decide)⟩

/-! ## What ends the process -/

theorem run_snoc (es : List WebEvent) (e : WebEvent) :
    run o env now (es ++ [e]) = (run o env now es).step o env e := by
  rw [run, runFrom_append]
  rfl

/-- The connections after `k` accepts. -/
structure Holds (s : WebServer) (k : ℕ) : Prop where
  /-- the map has an entry for each of them -/
  size : s.mgr.connectionMap.size = k
  /-- under the first `k` ids -/
  small : ∀ n : Int32, s.mgr.connectionMap[n]? ≠ none → n.toInt < k
  /-- the counter is at the next one -/
  counter : k < 65535 → s.mgr.curConnId.toInt = k
  /-- nobody is closed -/
  isOpen : ∀ c, s.phase c ≠ .accepting → s.mgr.isOpen c = true

theorem holds_init (now : ℤ) : Holds (init now) 0 := by
  refine ⟨Std.TreeMap.size_emptyc, fun n hn => ?_, fun _ => rfl, fun c hc => ?_⟩
  · exact absurd Std.TreeMap.getElem?_emptyc hn
  · exact absurd rfl hc

/-- One more accept takes the next id, which is free. -/
theorem Holds.handleAccept {k : ℕ} (h : Holds s k) (hk : k < 65535) :
    Holds (s.handleAccept false) (k + 1) := by
  have hcur := h.counter hk
  have hfree : s.mgr.connectionMap[s.mgr.curConnId]? = none := by
    by_contra hsome
    have := h.small _ hsome
    omega
  have hmap : (s.handleAccept false).mgr.connectionMap =
      s.mgr.connectionMap.insert s.mgr.curConnId s.next := by
    simp [WebServer.handleAccept, startAccept, ConnectionManager.start,
      ConnectionManager.getNextConnId]
  refine ⟨?_, fun n hn => ?_, fun hlt => ?_, fun c hc => ?_⟩
  · have hnot : s.mgr.connectionMap.contains s.mgr.curConnId = false := by
      rw [Std.TreeMap.contains_eq_isSome_getElem?, hfree]
      rfl
    rw [hmap, Std.TreeMap.size_insert, hnot, h.size]
    rfl
  · rw [hmap, lookup_insert] at hn
    split_ifs at hn with heq
    · rw [← heq, hcur]
      omega
    · have := h.small n hn
      omega
  · have hend : httpEndConnId.toInt = 65535 := by decide
    have hzero : (0 : Int32).toInt = 0 := by decide
    have hrange : 0 ≤ s.mgr.curConnId ∧ s.mgr.curConnId < httpEndConnId := by
      rw [Int32.le_iff_toInt_le, Int32.lt_iff_toInt_lt, hend, hzero, hcur]
      omega
    refine (toInt_counter hrange).trans ?_
    rw [hcur, hend]
    omega
  · change Function.update s.mgr.isOpen s.next true c = true
    by_cases hcn : c = s.next
    · rw [hcn, Function.update_self]
    · rw [Function.update_of_ne hcn]
      refine h.isOpen c ?_
      have hphase : (s.handleAccept false).phase c = s.phase c := Function.update_of_ne hcn ..
      rwa [hphase] at hc

/-- Nothing but an accept changes the map, and nothing closes a connection. -/
theorem Holds.step {k : ℕ} (h : Holds s k) (e : WebEvent) (hup : s.down = false)
    (hk : k + e.accepts.toNat ≤ 65535) : Holds (s.step o env e) (k + e.accepts.toNat) := by
  have hstays : ∀ s' : WebServer, s'.mgr.connectionMap = s.mgr.connectionMap →
      s'.mgr.curConnId = s.mgr.curConnId → s'.mgr.isOpen = s.mgr.isOpen →
      (∀ c, s'.phase c ≠ .accepting → s.phase c ≠ .accepting) → Holds s' k := by
    intro s' hmap hcur hopen hphase
    refine ⟨hmap ▸ h.size, hmap ▸ h.small, hcur ▸ h.counter, fun c hc => ?_⟩
    rw [hopen]
    exact h.isOpen c (hphase c hc)
  rw [WebServer.step.eq_def, if_neg (Bool.eq_false_iff.mp hup)]
  cases e with
  | accept err =>
    cases err with
    | false => exact h.handleAccept (Nat.lt_of_succ_le hk)
    | true => exact hstays _ rfl rfl rfl fun _ => id
  | read c read =>
    dsimp only
    by_cases hreading : s.phase c = .reading
    · rw [if_pos hreading]
      refine hstays _ rfl rfl rfl fun d hd => ?_
      by_cases hdc : d = c
      · rw [hdc, hreading]
        decide
      · have hphase : (s.handleRead env c read).phase d = s.phase d := Function.update_of_ne hdc ..
        rwa [hphase] at hd
    · rw [if_neg hreading]
      exact h
  | write c failed =>
    dsimp only
    by_cases hwriting : s.phase c = .writing
    · rw [if_pos hwriting]
      have hmgr : (s.handleWrite c failed).mgr = s.mgr := by cases failed <;> rfl
      refine hstays _ (by rw [hmgr]) (by rw [hmgr]) (by rw [hmgr]) fun d hd => ?_
      by_cases hdc : d = c
      · rw [hdc, hwriting]
        decide
      · rwa [(handleWrite_frame hdc failed).2] at hd
    · rw [if_neg hwriting]
      exact h
  | tcp op => exact hstays _ rfl rfl rfl fun _ => id
  | tcpThrew => exact hstays _ rfl rfl rfl fun _ => id

/-- **No connection is given back.** As long as the process runs, up to 65535 accepts: every
connection that was accepted is open, whether its reply is written or not, and the manager has an
entry for each of them. -/
theorem nothing_released (hup : (run o env now es).down = false)
    (hcount : es.countP WebEvent.accepts ≤ 65535) :
    (∀ c, (run o env now es).phase c ≠ .accepting → (run o env now es).mgr.isOpen c = true) ∧
      (run o env now es).mgr.connectionMap.size = es.countP WebEvent.accepts := by
  suffices hholds : Holds (run o env now es) (es.countP WebEvent.accepts) from
    ⟨hholds.isOpen, hholds.size⟩
  induction es using List.reverseRecOn with
  | nil => exact holds_init now
  | append_singleton es e ih =>
    have hsum : (es ++ [e]).countP WebEvent.accepts =
        es.countP WebEvent.accepts + e.accepts.toNat := by
      rw [List.countP_append, List.countP_singleton]
      cases e.accepts <;> rfl
    rw [run_snoc] at hup ⊢
    rw [hsum] at hcount ⊢
    -- a process that has ended stays so
    have hbefore : (run o env now es).down = false := by
      by_contra hdown
      rw [Bool.not_eq_false] at hdown
      rw [WebServer.step.eq_def, if_pos hdown, hdown] at hup
      cases hup
    exact (ih hbefore (Nat.le_trans (Nat.le_add_right _ _) hcount)).step e hbefore hcount

/-- Both clients are still there after one of them has its page. -/
theorem nothing_released_two :
    (run .little (fileEnv (ascii "<p>")) 0 twoClients).phase 1 = .written ∧
      (run .little (fileEnv (ascii "<p>")) 0 twoClients).mgr.isOpen 1 = true ∧
      (run .little (fileEnv (ascii "<p>")) 0 twoClients).mgr.connectionMap.size = 2 := by
  have hup : (run .little (fileEnv (ascii "<p>")) 0 twoClients).down = false := by decide +kernel
  have hwritten : (run .little (fileEnv (ascii "<p>")) 0 twoClients).phase 1 = .written := by
    decide +kernel
  obtain ⟨hopen, hsize⟩ := nothing_released hup (by decide)
  refine ⟨hwritten, hopen 1 ?_, hsize⟩
  rw [hwritten]
  decide

end WebServer

end Http

end MyServer
