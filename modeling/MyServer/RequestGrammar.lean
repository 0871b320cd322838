import MyServer.JsonReader
import MyServer.RequestParser
import Mathlib.Data.List.TakeWhile

/-!
# The grammar of HTTP requests

What the parser takes, said without its states: a `Head` is a request line and header
lines, each with its continuation lines, and `Head.bytes` is its text. The two directions
are about the same description. A parser that is fed the text of a head comes to the
start of a header line with the request of the head (`Head.passes`). And whatever a
parser has passed, its state says what it was (`Reached`, `reached_of_passes`): a
complete head, or one that breaks off in a certain place.

For the method `GET` this settles which byte strings are requests (`get_grammar`).
-/

namespace MyServer

namespace Http

/-! ## Bytes -/

/-- A control byte. -/
def Control (c : UInt8) : Prop := c < 32 ∨ c = 127

/-- The special characters of the grammar, blank and tab among them. -/
def Tspecial (c : UInt8) : Prop :=
  c ∈ [40, 41, 60, 62, 64, 44, 59, 58, 92, 34, 47, 91, 93, 63, 61, 123, 125, 32, 9]

/-- A byte of a method or a header name: 7 bits, not a control byte and not special. -/
def Token (c : UInt8) : Prop := c < 128 ∧ ¬ Control c ∧ ¬ Tspecial c

/-- A decimal digit. -/
def Digit (c : UInt8) : Prop := 48 ≤ c ∧ c ≤ 57

/-- A blank or a tab. -/
def Lws (c : UInt8) : Prop := c = 32 ∨ c = 9

instance (c : UInt8) : Decidable (Control c) := inferInstanceAs (Decidable (_ ∨ _))

instance (c : UInt8) : Decidable (Tspecial c) := inferInstanceAs (Decidable (c ∈ _))

instance (c : UInt8) : Decidable (Token c) := inferInstanceAs (Decidable (_ ∧ _ ∧ _))

instance (c : UInt8) : Decidable (Digit c) := inferInstanceAs (Decidable (_ ∧ _))

instance (c : UInt8) : Decidable (Lws c) := inferInstanceAs (Decidable (_ ∨ _))

theorem isCtl_eq (c : UInt8) : isCtl (charValue c) = decide (Control c) :=
  Json.forall_byte (P := fun c => isCtl (charValue c) = decide (Control c)) (by decide +kernel) c

theorem noToken_eq (c : UInt8) : noToken (charValue c) = !decide (Token c) :=
  Json.forall_byte (P := fun c => noToken (charValue c) = !decide (Token c)) (by decide +kernel) c

theorem isDigit_eq (c : UInt8) : isDigit (charValue c) = decide (Digit c) :=
  Json.forall_byte (P := fun c => isDigit (charValue c) = decide (Digit c)) (by decide +kernel) c

/-- The bytes that end something are not part of it. -/
theorem Token.ne {c : UInt8} (h : Token c) : c ≠ 13 ∧ c ≠ 32 ∧ c ≠ 9 ∧ c ≠ 58 := by
  refine ⟨?_, ?_, ?_, ?_⟩ <;> (rintro rfl; exact absurd h (by decide))

theorem Digit.ne {c : UInt8} (h : Digit c) : c ≠ 13 ∧ c ≠ 46 := by
  refine ⟨?_, ?_⟩ <;> (rintro rfl; exact absurd h (by decide))

theorem ne_of_not_control {c : UInt8} (h : ¬ Control c) : c ≠ 13 := by
  rintro rfl
  exact h (by decide)

/-! ## Heads -/

/-- `CR LF` -/
def crlf : List UInt8 := [13, 10]

/-- The first half of a request line. -/
structure Target : Type where
  /-- the method -/
  method : List UInt8
  /-- the URI -/
  uri : List UInt8
  /-- there is a method -/
  method_ne : method ≠ []
  /-- it is a token -/
  token : ∀ c ∈ method, Token c
  /-- the URI has no blanks and no control bytes, and may be empty -/
  plain : ∀ c ∈ uri, c ≠ 32 ∧ ¬ Control c

/-- A continuation line. -/
structure Fold : Type where
  /-- what it begins with -/
  blanks : List UInt8
  /-- its text -/
  text : List UInt8
  /-- at least one blank -/
  blanks_ne : blanks ≠ []
  /-- blanks and tabs -/
  blank : ∀ c ∈ blanks, Lws c
  /-- the text has no control bytes -/
  plain : ∀ c ∈ text, ¬ Control c

/-- A header line with the continuation lines that follow it. -/
structure HeaderLine : Type where
  /-- the name -/
  name : List UInt8
  /-- the value on the first line -/
  value : List UInt8
  /-- the continuation lines -/
  folds : List Fold
  /-- there is a name -/
  name_ne : name ≠ []
  /-- it is a token -/
  token : ∀ c ∈ name, Token c
  /-- the value has no control bytes -/
  plain : ∀ c ∈ value, ¬ Control c

/-- A request line and header lines. -/
structure Head : Type where
  /-- method and URI -/
  target : Target
  /-- the major version -/
  major : List UInt8
  /-- the minor version -/
  minor : List UInt8
  /-- the header lines -/
  lines : List HeaderLine
  /-- there are digits -/
  major_ne : major ≠ []
  /-- and only digits -/
  major_digit : ∀ c ∈ major, Digit c
  /-- there are digits -/
  minor_ne : minor ≠ []
  /-- and only digits -/
  minor_digit : ∀ c ∈ minor, Digit c

/-- Method, blank, URI. -/
def Target.bytes (t : Target) : List UInt8 := t.method ++ 32 :: t.uri

/-- The request of a head with these parts. -/
def Request.ofHead (method uri : List UInt8) (major minor : Int32) (headers : List Header) :
    Request := ⟨method, uri, major, minor, headers, [], 0⟩

/-- The text of a continuation line. -/
def Fold.bytes (f : Fold) : List UInt8 := f.blanks ++ (f.text ++ crlf)

/-- What a continuation line adds to the value: its text without the blanks in front. -/
def Fold.value (f : Fold) : List UInt8 := f.text.dropWhile fun c => Lws c

/-- The text of a header line. -/
def HeaderLine.bytes (l : HeaderLine) : List UInt8 :=
  l.name ++ 58 :: 32 :: (l.value ++ (crlf ++ l.folds.flatMap Fold.bytes))

/-- The header of a header line. -/
def HeaderLine.header (l : HeaderLine) : Header := ⟨l.name, l.value ++ l.folds.flatMap Fold.value⟩

/-- The value of a version, in the arithmetic of `int`. -/
def versionValue (digits : List UInt8) : Int32 :=
  digits.foldl (fun n c => n * 10 + .ofInt (charValue c) - 48) 0

/-- `" HTTP/"` -/
def httpSlash : List UInt8 := [32, 72, 84, 84, 80, 47]

namespace Head

/-- The text of a head. -/
def bytes (h : Head) : List UInt8 :=
  h.target.bytes ++ (httpSlash ++ (h.major ++ 46 :: (h.minor ++ (crlf ++
    h.lines.flatMap HeaderLine.bytes))))

/-- The headers of a head. -/
def headers (h : Head) : List Header := h.lines.map HeaderLine.header

/-- The request a head stands for. -/
def request (h : Head) : Request :=
  .ofHead h.target.method h.target.uri (versionValue h.major) (versionValue h.minor) h.headers

/-- One more header line. -/
def addLine (h : Head) (l : HeaderLine) : Head := { h with lines := h.lines ++ [l] }

end Head

/-- One more header. -/
def Request.addHeader (req : Request) (h : Header) : Request :=
  { req with headers := req.headers ++ [h] }

theorem Request.modifyBack_addHeader (req : Request) (h : Header) (f : Header → Header) :
    (req.addHeader h).modifyBack f = req.addHeader (f h) := by
  rw [modifyBack, addHeader]
  simp only [List.getLast?_append, List.getLast?_singleton, Option.some_or, List.dropLast_concat]
  rfl

theorem Head.bytes_addLine (h : Head) (l : HeaderLine) :
    (h.addLine l).bytes = h.bytes ++ l.bytes := by
  simp only [bytes, addLine, List.flatMap_append, List.flatMap_singleton, List.append_assoc,
    List.cons_append]

theorem Head.request_addLine (h : Head) (l : HeaderLine) :
    (h.addLine l).request = h.request.addHeader l.header := by
  simp only [request, addLine, headers, List.map_append, List.map_singleton, Request.addHeader,
    Request.ofHead]

/-- One more continuation line. -/
def HeaderLine.addFold (l : HeaderLine) (f : Fold) : HeaderLine :=
  { l with folds := l.folds ++ [f] }

theorem HeaderLine.bytes_addFold (l : HeaderLine) (f : Fold) :
    (l.addFold f).bytes = l.bytes ++ f.bytes := by
  simp only [bytes, addFold, List.flatMap_append, List.flatMap_singleton, List.append_assoc,
    List.cons_append]

theorem HeaderLine.header_addFold (l : HeaderLine) (f : Fold) :
    (l.addFold f).header = ⟨l.name, l.header.value ++ f.value⟩ := by
  simp only [header, addFold, List.flatMap_append, List.flatMap_singleton, List.append_assoc]

theorem versionValue_snoc (ds : List UInt8) (c : UInt8) :
    versionValue (ds ++ [c]) = versionValue ds * 10 + .ofInt (charValue c) - 48 := by
  rw [versionValue, List.foldl_append, ← versionValue]
  rfl

/-! ## From the text to the request

The parser on the text of a head, piece by piece. -/

section Forward

variable {L : LexicalCast} {req : Request}

/-- The bytes `t` take the parser from `p` to `p'`. -/
abbrev Feeds (L : LexicalCast) (p : Parse) (t : List UInt8) (p' : Parse) : Prop :=
  PassesOver (consume L) Call.input p t p'

/-- A byte that only changes the state. -/
theorem Feeds.goto {p p' : Parse} {c : UInt8} {t : List UInt8} (next : ParserState)
    (h : ∀ call, call.input = c → consume L p call = (none, ⟨next, p.req⟩))
    (ht : Feeds L ⟨next, p.req⟩ t p') : Feeds L p (c :: t) p' := PassesOver.cons _ h ht

theorem Feeds.expects {p p' : Parse} {c : UInt8} {next : ParserState} {t : List UInt8}
    (h : ∀ call, consume L p call = Http.expects p call.input c next)
    (ht : Feeds L ⟨next, p.req⟩ t p') : Feeds L p (c :: t) p' := by
  refine Feeds.goto next (fun call hc => ?_) ht
  rw [h, Http.expects, if_pos hc]

/-- Method and URI. -/
theorem Target.feeds (t : Target) :
    Feeds L .fresh t.bytes ⟨.uri, .ofHead t.method t.uri 0 0 []⟩ := by
  have hmethod : Feeds L .fresh t.method ⟨.method, .ofHead t.method [] 0 0 []⟩ := by
    have htoken := t.token
    obtain ⟨c, m, hm⟩ := List.exists_cons_of_ne_nil t.method_ne
    rw [hm] at htoken ⊢
    refine PassesOver.cons ⟨.method, .ofHead [c] [] 0 0 []⟩ ?_ ?_
    · intro call hc
      have hfirst := htoken c (List.mem_cons_self ..)
      simp [consume, Parse.fresh, noToken_eq, hc, hfirst, Request.fresh, Request.ofHead]
    · refine passesOver_loop (fun pre => Parse.mk .method (.ofHead pre [] 0 0 [])) Token ?_
        (fun d hd => htoken d (List.mem_cons_of_mem c hd)) [c]
      intro pre call hd
      simp [consume, noToken_eq, hd, hd.ne.2.1, Request.ofHead]
  have huri : Feeds L ⟨.uri, .ofHead t.method [] 0 0 []⟩ t.uri
      ⟨.uri, .ofHead t.method t.uri 0 0 []⟩ := by
    refine passesOver_loop (fun pre => Parse.mk .uri (.ofHead t.method pre 0 0 []))
      (fun c => c ≠ 32 ∧ ¬ Control c) ?_ t.plain []
    intro pre call hd
    simp [consume, isCtl_eq, hd.1, hd.2, Request.ofHead]
  refine hmethod.trans (PassesOver.cons _ (fun call hc => ?_) huri)
  simp [consume, hc]

/-- The digits of a version number, in a pair of states that reads one. -/
theorem feeds_digits {start : Parse} (f : Int32 → Parse) {ds : List UInt8}
    (hfirst : ∀ call, Digit call.input →
      consume L start call = (none, f (versionValue [call.input])))
    (hnext : ∀ pre call, Digit call.input →
      consume L (f (versionValue pre)) call = (none, f (versionValue (pre ++ [call.input]))))
    (hne : ds ≠ []) (hds : ∀ c ∈ ds, Digit c) : Feeds L start ds (f (versionValue ds)) := by
  obtain ⟨c, ds, rfl⟩ := List.exists_cons_of_ne_nil hne
  refine PassesOver.cons (f (versionValue [c])) ?_ ?_
  · rintro call rfl
    exact hfirst call (hds call.input (List.mem_cons_self ..))
  · exact passesOver_loop (fun pre => f (versionValue pre)) Digit hnext
      (fun d hd => hds d (List.mem_cons_of_mem c hd)) [c]

/-- The digits of the major version. -/
theorem feeds_major {ds m u : List UInt8} (hne : ds ≠ []) (hds : ∀ c ∈ ds, Digit c) :
    Feeds L ⟨.httpVersionMajorStart, .ofHead m u 0 0 []⟩ ds
      ⟨.httpVersionMajor, .ofHead m u (versionValue ds) 0 []⟩ := by
  refine feeds_digits (fun n => ⟨.httpVersionMajor, .ofHead m u n 0 []⟩) ?_ ?_ hne hds
  · intro call hc
    simp [consume, isDigit_eq, hc, Request.ofHead, versionValue]
  · intro pre call hc
    simp [consume, isDigit_eq, hc, hc.ne.2, Request.ofHead, versionValue_snoc]

/-- The digits of the minor version. -/
theorem feeds_minor {ds m u : List UInt8} {n : Int32} (hne : ds ≠ []) (hds : ∀ c ∈ ds, Digit c) :
    Feeds L ⟨.httpVersionMinorStart, .ofHead m u n 0 []⟩ ds
      ⟨.httpVersionMinor, .ofHead m u n (versionValue ds) []⟩ := by
  refine feeds_digits (fun k => ⟨.httpVersionMinor, .ofHead m u n k []⟩) ?_ ?_ hne hds
  · intro call hc
    simp [consume, isDigit_eq, hc, Request.ofHead, versionValue]
  · intro pre call hc
    simp [consume, isDigit_eq, hc, hc.ne.1, Request.ofHead, versionValue_snoc]

/-- The end of a line inside the header section. -/
theorem feeds_crlf {p : Parse} (h : p.state = .headerValue ∨ p.state = .headerLws) :
    Feeds L p crlf ⟨.headerLineStart, p.req⟩ := by
  refine PassesOver.cons ⟨.expectingNewline2, p.req⟩ (fun call hc => ?_)
    (Feeds.expects (fun _ => rfl) (PassesOver.nil _))
  rcases h with h | h <;> simp [consume, h, hc]

/-- The rest of a value, up to the start of the next line. -/
theorem feeds_value {n u v : List UInt8} (hv : ∀ c ∈ v, ¬ Control c) :
    Feeds L ⟨.headerValue, req.addHeader ⟨n, u⟩⟩ (v ++ crlf)
      ⟨.headerLineStart, req.addHeader ⟨n, u ++ v⟩⟩ := by
  have hloop : Feeds L ⟨.headerValue, req.addHeader ⟨n, u⟩⟩ v
      ⟨.headerValue, req.addHeader ⟨n, u ++ v⟩⟩ := by
    refine passesOver_loop (fun pre => Parse.mk .headerValue (req.addHeader ⟨n, pre⟩))
      (fun c => ¬ Control c) ?_ hv u
    intro pre call hd
    simp [consume, isCtl_eq, hd, ne_of_not_control hd, Request.modifyBack_addHeader]
  exact hloop.trans (feeds_crlf (.inl rfl))

/-- A continuation line. -/
theorem Fold.feeds (f : Fold) (n u : List UInt8) :
    Feeds L ⟨.headerLineStart, req.addHeader ⟨n, u⟩⟩ f.bytes
      ⟨.headerLineStart, req.addHeader ⟨n, u ++ f.value⟩⟩ := by
  have hne : ∀ d, Lws d → d ≠ 13 := by
    rintro d (rfl | rfl) <;> decide
  have hheaders : (req.addHeader ⟨n, u⟩).headers ≠ [] :=
    List.append_ne_nil_of_right_ne_nil _ (List.cons_ne_nil _ _)
  have hlws : ∀ ws : List UInt8, (∀ d ∈ ws, Lws d) →
      Feeds L ⟨.headerLws, req.addHeader ⟨n, u⟩⟩ ws ⟨.headerLws, req.addHeader ⟨n, u⟩⟩ := by
    intro ws hws
    refine passesOver_loop (fun _ => Parse.mk .headerLws (req.addHeader ⟨n, u⟩)) Lws ?_ hws []
    intro pre call hd
    have hd' : call.input = 32 ∨ call.input = 9 := hd
    simp [consume, hd', hne _ hd]
  -- the blanks in front of the text are read together with those of the line
  have hsplit : f.text = f.text.takeWhile (fun d => Lws d) ++ f.value :=
    List.takeWhile_append_dropWhile.symm
  have hvalue : ∀ d ∈ f.value, ¬ Control d :=
    fun d hd => f.plain d (hsplit ▸ List.mem_append_right _ hd)
  have htext : Feeds L ⟨.headerLws, req.addHeader ⟨n, u⟩⟩ (f.value ++ crlf)
      ⟨.headerLineStart, req.addHeader ⟨n, u ++ f.value⟩⟩ := by
    rcases hv : f.value with _ | ⟨d, v⟩
    · rw [List.append_nil]
      exact feeds_crlf (.inr rfl)
    · rw [hv] at hvalue
      have hd : ¬ (d = 32 ∨ d = 9) := by
        have := List.head?_dropWhile_not (fun d => decide (Lws d)) f.text
        rw [show f.text.dropWhile (fun d => decide (Lws d)) = d :: v from hv] at this
        exact of_decide_eq_false this
      have hctl := hvalue d (List.mem_cons_self ..)
      have hrest : Feeds L ⟨.headerValue, req.addHeader ⟨n, u ++ [d]⟩⟩ (v ++ crlf)
          ⟨.headerLineStart, req.addHeader ⟨n, u ++ [d] ++ v⟩⟩ :=
        feeds_value fun e he => hvalue e (List.mem_cons_of_mem d he)
      rw [List.append_assoc, List.singleton_append] at hrest
      refine PassesOver.cons _ (fun call hc => ?_) hrest
      simp [consume, hc, hd, ne_of_not_control hctl, isCtl_eq, hctl, Request.modifyBack_addHeader]
  obtain ⟨c, bs, hbs⟩ := List.exists_cons_of_ne_nil f.blanks_ne
  have hblank := f.blank
  rw [hbs] at hblank
  rw [Fold.bytes, hbs, List.cons_append]
  refine PassesOver.cons ⟨.headerLws, req.addHeader ⟨n, u⟩⟩ ?_ ?_
  · intro call hc
    have hlc := hblank c (List.mem_cons_self ..)
    have hlc' : c = 32 ∨ c = 9 := hlc
    simp [consume, hc, hne c hlc, hlc', hheaders]
  · refine (hlws bs fun d hd => hblank d (List.mem_cons_of_mem c hd)).trans ?_
    rw [hsplit, List.append_assoc]
    exact (hlws _ fun d hd => by simpa using List.mem_takeWhile_imp hd).trans htext

theorem feeds_folds (fs : List Fold) (n u : List UInt8) :
    Feeds L ⟨.headerLineStart, req.addHeader ⟨n, u⟩⟩ (fs.flatMap Fold.bytes)
      ⟨.headerLineStart, req.addHeader ⟨n, u ++ fs.flatMap Fold.value⟩⟩ := by
  induction fs generalizing u with
  | nil =>
    rw [List.flatMap_nil, List.flatMap_nil, List.append_nil]
    exact PassesOver.nil _
  | cons f fs ih =>
    rw [List.flatMap_cons, List.flatMap_cons, ← List.append_assoc]
    exact (f.feeds n u).trans (ih (u ++ f.value))

/-- A header line with its continuation lines. -/
theorem HeaderLine.feeds (l : HeaderLine) :
    Feeds L ⟨.headerLineStart, req⟩ l.bytes ⟨.headerLineStart, req.addHeader l.header⟩ := by
  have hname : Feeds L ⟨.headerLineStart, req⟩ l.name
      ⟨.headerName, req.addHeader ⟨l.name, []⟩⟩ := by
    have htoken := l.token
    obtain ⟨c, n, hn⟩ := List.exists_cons_of_ne_nil l.name_ne
    rw [hn] at htoken ⊢
    refine PassesOver.cons ⟨.headerName, req.addHeader ⟨[c], []⟩⟩ ?_ ?_
    · intro call hc
      have hfirst := htoken c (List.mem_cons_self ..)
      simp [consume, hc, noToken_eq, hfirst, hfirst.ne, Request.addHeader]
    · refine passesOver_loop (fun pre => Parse.mk .headerName (req.addHeader ⟨pre, []⟩)) Token ?_
        (fun d hd => htoken d (List.mem_cons_of_mem c hd)) [c]
      intro pre call hd
      simp [consume, noToken_eq, hd, hd.ne, Request.modifyBack_addHeader]
  have hvalue : Feeds L ⟨.headerValue, req.addHeader ⟨l.name, []⟩⟩ (l.value ++ crlf)
      ⟨.headerLineStart, req.addHeader ⟨l.name, l.value⟩⟩ := feeds_value l.plain
  rw [HeaderLine.bytes]
  refine hname.trans (Feeds.goto .spaceBeforeHeaderValue (fun call hc => ?_) ?_)
  · simp [consume, hc]
  · refine Feeds.expects (fun _ => rfl) ?_
    rw [← List.append_assoc]
    exact hvalue.trans (feeds_folds l.folds l.name l.value)

theorem feeds_lines (ls : List HeaderLine) {m u : List UInt8} {a b : Int32} (hs : List Header) :
    Feeds L ⟨.headerLineStart, .ofHead m u a b hs⟩ (ls.flatMap HeaderLine.bytes)
      ⟨.headerLineStart, .ofHead m u a b (hs ++ ls.map HeaderLine.header)⟩ := by
  induction ls generalizing hs with
  | nil =>
    rw [List.flatMap_nil, List.map_nil, List.append_nil]
    exact PassesOver.nil _
  | cons l ls ih =>
    have hrest := ih (hs ++ [l.header])
    rw [List.append_assoc, List.singleton_append] at hrest
    exact l.feeds.trans hrest

/-- The request line up to the version. -/
theorem Target.feeds_slash (t : Target) :
    Feeds L .fresh (t.bytes ++ httpSlash)
      ⟨.httpVersionMajorStart, .ofHead t.method t.uri 0 0 []⟩ := by
  refine t.feeds.trans (Feeds.goto .httpVersionH (fun call hc => ?_) ?_)
  · simp [consume, hc]
  refine Feeds.expects (fun _ => rfl) (Feeds.expects (fun _ => rfl)
    (Feeds.expects (fun _ => rfl) (Feeds.expects (fun _ => rfl) ?_)))
  refine PassesOver.cons _ (fun call hc => ?_) (PassesOver.nil _)
  simp [consume, hc, Request.ofHead]

/-- **The text of a head leads to its request.** -/
theorem Head.feeds (h : Head) : Feeds L .fresh h.bytes ⟨.headerLineStart, h.request⟩ := by
  rw [Head.bytes, ← List.append_assoc]
  refine h.target.feeds_slash.trans ((feeds_major h.major_ne h.major_digit).trans
    (Feeds.goto .httpVersionMinorStart (fun call hc => ?_) ?_))
  · simp [consume, hc]
  refine (feeds_minor h.minor_ne h.minor_digit).trans
    (Feeds.goto .expectingNewline1 (fun call hc => ?_) ?_)
  · simp [consume, hc]
  exact Feeds.expects (fun _ => rfl) (feeds_lines h.lines [])

end Forward

/-! ## From the state to the text -/

/-- A header line that is not closed: the value of its first line, or of a continuation
line whose text has begun. -/
inductive OpenLine : List UInt8 → Header → Prop where
  | first {n v : List UInt8} (hne : n ≠ []) (htoken : ∀ c ∈ n, Token c)
      (hplain : ∀ c ∈ v, ¬ Control c) : OpenLine (n ++ 58 :: 32 :: v) ⟨n, v⟩
  | fold (l : HeaderLine) {bs v : List UInt8} {d : UInt8} (hne : bs ≠ []) (hblank : ∀ c ∈ bs, Lws c)
      (hd : ¬ Lws d) (hplain : ∀ c ∈ d :: v, ¬ Control c) :
      OpenLine (l.bytes ++ (bs ++ d :: v)) ⟨l.name, l.header.value ++ d :: v⟩

theorem OpenLine.push {o : List UInt8} {h : Header} (ho : OpenLine o h) {c : UInt8}
    (hc : ¬ Control c) : OpenLine (o ++ [c]) ⟨h.name, h.value ++ [c]⟩ := by
  have hsnoc : ∀ {v : List UInt8}, (∀ d ∈ v, ¬ Control d) → ∀ d ∈ v ++ [c], ¬ Control d :=
    fun hv => List.forall_mem_append.mpr ⟨hv, List.forall_mem_singleton.mpr hc⟩
  cases ho with
  | first hne htoken hplain =>
    rw [List.append_assoc, List.cons_append, List.cons_append]
    exact .first hne htoken (hsnoc hplain)
  | fold l hne hblank hd hplain =>
    rw [List.append_assoc, List.append_assoc, List.append_assoc, List.cons_append]
    exact .fold l hne hblank hd (hsnoc hplain)

theorem OpenLine.close {o : List UInt8} {h : Header} (ho : OpenLine o h) :
    ∃ l : HeaderLine, l.bytes = o ++ crlf ∧ l.header = h := by
  cases ho with
  | @first n v hne htoken hplain =>
    refine ⟨⟨n, v, [], hne, htoken, hplain⟩, ?_, ?_⟩
    · simp [HeaderLine.bytes]
    · simp [HeaderLine.header]
  | @fold l bs v d hne hblank hd hplain =>
    refine ⟨l.addFold ⟨bs, d :: v, hne, hblank, hplain⟩, ?_, ?_⟩
    · rw [HeaderLine.bytes_addFold, Fold.bytes]
      simp
    · rw [HeaderLine.header_addFold, Fold.value, List.dropWhile_cons_of_neg (by simpa using hd)]

/-- **What a parser has read**, by its state. -/
def Reached (L : LexicalCast) (calls : List Call) (p : Parse) : Prop :=
  match p.state with
  | .methodStart => calls = [] ∧ p.req = .fresh
  | .method =>
    ∃ m, m ≠ [] ∧ (∀ c ∈ m, Token c) ∧ bytes calls = m ∧ p.req = .ofHead m [] 0 0 []
  | .uri => ∃ t : Target, bytes calls = t.bytes ∧ p.req = .ofHead t.method t.uri 0 0 []
  | .httpVersionH => AtSlash 1
  | .httpVersionT1 => AtSlash 2
  | .httpVersionT2 => AtSlash 3
  | .httpVersionP => AtSlash 4
  | .httpVersionSlash => AtSlash 5
  | .httpVersionMajorStart => AtSlash 6
  | .httpVersionMajor => AtMajor []
  | .httpVersionMinorStart => AtMajor [46]
  | .httpVersionMinor =>
    ∃ h : Head, h.lines = [] ∧ bytes calls ++ crlf = h.bytes ∧ p.req = h.request
  | .expectingNewline1 =>
    ∃ h : Head, h.lines = [] ∧ bytes calls ++ [10] = h.bytes ∧ p.req = h.request
  | .headerLineStart => ∃ h : Head, bytes calls = h.bytes ∧ p.req = h.request
  | .headerName => AtName []
  | .spaceBeforeHeaderValue => AtName [58]
  | .headerValue =>
    ∃ (h : Head) (o : List UInt8) (d : Header), OpenLine o d ∧ bytes calls = h.bytes ++ o ∧
      p.req = h.request.addHeader d
  | .headerLws =>
    ∃ (h : Head) (l : HeaderLine) (bs : List UInt8), bs ≠ [] ∧ (∀ c ∈ bs, Lws c) ∧
      bytes calls = h.bytes ++ (l.bytes ++ bs) ∧ p.req = h.request.addHeader l.header
  | .expectingNewline2 =>
    ∃ (h : Head) (l : HeaderLine), bytes calls ++ [10] = h.bytes ++ l.bytes ∧
      p.req = h.request.addHeader l.header
  | .expectingNewline3 => ∃ h : Head, bytes calls = h.bytes ++ [13] ∧ p.req = h.request
  | .httpPostContent =>
    ∃ (h : Head) (before body : List Call) (c : UInt8), h.target.method ≠ get ∧
      calls = before ++ body ∧ bytes before = h.bytes ++ [13, c] ∧
      Passes (consume L) ⟨.httpPostContent, h.request⟩ body p
  | .uriStart | .expectingContentNewline1 => False
where
  /-- behind the URI, `k` bytes into `" HTTP/"` -/
  AtSlash (k : ℕ) : Prop :=
    ∃ t : Target, bytes calls = t.bytes ++ httpSlash.take k ∧
      p.req = .ofHead t.method t.uri 0 0 []
  /-- behind digits of the major version and `rest` -/
  AtMajor (rest : List UInt8) : Prop :=
    ∃ (t : Target) (ds : List UInt8), ds ≠ [] ∧ (∀ c ∈ ds, Digit c) ∧
      bytes calls = t.bytes ++ (httpSlash ++ (ds ++ rest)) ∧
      p.req = .ofHead t.method t.uri (versionValue ds) 0 []
  /-- behind the name of a header and `rest` -/
  AtName (rest : List UInt8) : Prop :=
    ∃ (h : Head) (n : List UInt8), n ≠ [] ∧ (∀ c ∈ n, Token c) ∧
      bytes calls = h.bytes ++ (n ++ rest) ∧ p.req = h.request.addHeader ⟨n, []⟩

theorem bytes_snoc (calls : List Call) (call : Call) :
    bytes (calls ++ [call]) = bytes calls ++ [call.input] := by
  rw [bytes, List.map_append]
  rfl

theorem expects_eq_none {p p' : Parse} {input c : UInt8} {next : ParserState}
    (h : expects p input c next = (none, p')) : input = c ∧ p' = ⟨next, p.req⟩ := by
  rw [expects] at h
  split_ifs at h with hc
  · exact ⟨hc, (Prod.mk.inj h).2.symm⟩
  · cases h

section Backward

variable {L : LexicalCast} {calls : List Call} {call : Call} {req : Request} {p' : Parse}

theorem token_snoc {m : List UInt8} (hm : ∀ c ∈ m, Token c) {c : UInt8}
    (hc : ¬ noToken (charValue c) = true) : ∀ d ∈ m ++ [c], Token d := by
  rw [noToken_eq, Bool.not_eq_true, Bool.not_eq_false', decide_eq_true_eq] at hc
  exact List.forall_mem_append.mpr ⟨hm, List.forall_mem_singleton.mpr hc⟩

theorem digit_snoc {m : List UInt8} (hm : ∀ c ∈ m, Digit c) {c : UInt8}
    (hc : isDigit (charValue c) = true) : ∀ d ∈ m ++ [c], Digit d := by
  rw [isDigit_eq, decide_eq_true_eq] at hc
  exact List.forall_mem_append.mpr ⟨hm, List.forall_mem_singleton.mpr hc⟩

/-- Method and URI. -/
theorem reached_target {st : ParserState} (hst : st = .methodStart ∨ st = .method ∨ st = .uri)
    (hr : Reached L calls ⟨st, req⟩) (h : consume L ⟨st, req⟩ call = (none, p')) :
    Reached L (calls ++ [call]) p' := by
  rcases hst with rfl | rfl | rfl
  · obtain ⟨rfl, rfl⟩ := hr
    simp only [consume] at h
    split_ifs at h with hc
    · cases h
    · obtain ⟨-, rfl⟩ := Prod.mk.inj h
      refine ⟨[call.input], List.cons_ne_nil _ _, ?_, rfl, rfl⟩
      exact token_snoc (m := []) (fun _ hm => absurd hm List.not_mem_nil) hc
  · obtain ⟨m, hne, hm, ht, rfl⟩ := hr
    simp only [consume] at h
    split_ifs at h with hblank hc
    · obtain ⟨-, rfl⟩ := Prod.mk.inj h
      refine ⟨⟨m, [], hne, hm, fun _ hc => absurd hc List.not_mem_nil⟩, ?_, rfl⟩
      rw [bytes_snoc, ht, hblank, Target.bytes]
    · cases h
    · obtain ⟨-, rfl⟩ := Prod.mk.inj h
      refine ⟨m ++ [call.input], by simp, token_snoc hm hc, ?_, rfl⟩
      rw [bytes_snoc, ht]
  · obtain ⟨t, ht, rfl⟩ := hr
    simp only [consume] at h
    split_ifs at h with hblank hc
    · obtain ⟨-, rfl⟩ := Prod.mk.inj h
      refine ⟨t, ?_, rfl⟩
      rw [bytes_snoc, ht, hblank]
      rfl
    · cases h
    · obtain ⟨-, rfl⟩ := Prod.mk.inj h
      rw [isCtl_eq, decide_eq_true_eq] at hc
      refine ⟨⟨t.method, t.uri ++ [call.input], t.method_ne, t.token, ?_⟩, ?_, rfl⟩
      · exact List.forall_mem_append.mpr ⟨t.plain, List.forall_mem_singleton.mpr ⟨hblank, hc⟩⟩
      · rw [bytes_snoc, ht, Target.bytes, Target.bytes, List.append_assoc, List.cons_append]

/-- One more byte of `" HTTP/"`. -/
theorem Reached.AtSlash.next {st st' : ParserState} {k : ℕ} {c : UInt8}
    (hr : Reached.AtSlash calls ⟨st, req⟩ k)
    (hk : httpSlash.take (k + 1) = httpSlash.take k ++ [c]) (hc : call.input = c) :
    Reached.AtSlash (calls ++ [call]) ⟨st', req⟩ (k + 1) := by
  obtain ⟨t, ht, hreq⟩ := hr
  refine ⟨t, ?_, hreq⟩
  rw [bytes_snoc, ht, hk, hc, List.append_assoc]

/-- The name of the protocol. -/
theorem reached_slash {st : ParserState}
    (hst : st = .httpVersionH ∨ st = .httpVersionT1 ∨ st = .httpVersionT2 ∨ st = .httpVersionP ∨
      st = .httpVersionSlash)
    (hr : Reached L calls ⟨st, req⟩) (h : consume L ⟨st, req⟩ call = (none, p')) :
    Reached L (calls ++ [call]) p' := by
  rcases hst with rfl | rfl | rfl | rfl | rfl
  · obtain ⟨hc, rfl⟩ := expects_eq_none h
    exact Reached.AtSlash.next hr rfl hc
  · obtain ⟨hc, rfl⟩ := expects_eq_none h
    exact Reached.AtSlash.next hr rfl hc
  · obtain ⟨hc, rfl⟩ := expects_eq_none h
    exact Reached.AtSlash.next hr rfl hc
  · obtain ⟨hc, rfl⟩ := expects_eq_none h
    exact Reached.AtSlash.next hr rfl hc
  · obtain ⟨t, -, rfl⟩ := id hr
    simp only [consume] at h
    split_ifs at h with hc
    · obtain ⟨-, rfl⟩ := Prod.mk.inj h
      exact Reached.AtSlash.next hr rfl hc
    · cases h

/-- The version numbers and the end of the request line. -/
theorem reached_version {st : ParserState}
    (hst : st = .httpVersionMajorStart ∨ st = .httpVersionMajor ∨ st = .httpVersionMinorStart ∨
      st = .httpVersionMinor ∨ st = .expectingNewline1)
    (hr : Reached L calls ⟨st, req⟩) (h : consume L ⟨st, req⟩ call = (none, p')) :
    Reached L (calls ++ [call]) p' := by
  rcases hst with rfl | rfl | rfl | rfl | rfl
  · obtain ⟨t, ht, rfl⟩ := hr
    simp only [consume] at h
    split_ifs at h with hc
    · obtain ⟨-, rfl⟩ := Prod.mk.inj h
      refine ⟨t, [call.input], List.cons_ne_nil _ _, ?_, ?_, rfl⟩
      · exact digit_snoc (m := []) (fun _ hm => absurd hm List.not_mem_nil) hc
      · rw [bytes_snoc, ht, List.append_nil, List.append_assoc]
        rfl
    · cases h
  · obtain ⟨t, ds, hne, hds, ht, rfl⟩ := hr
    rw [List.append_nil] at ht
    simp only [consume] at h
    split_ifs at h with hdot hc
    · obtain ⟨-, rfl⟩ := Prod.mk.inj h
      refine ⟨t, ds, hne, hds, ?_, rfl⟩
      rw [bytes_snoc, ht, hdot, List.append_assoc, List.append_assoc]
    · obtain ⟨-, rfl⟩ := Prod.mk.inj h
      refine ⟨t, ds ++ [call.input], by simp, digit_snoc hds hc, ?_, ?_⟩
      · rw [bytes_snoc, ht, List.append_nil, List.append_assoc, List.append_assoc]
      · rw [versionValue_snoc]
        rfl
    · cases h
  · obtain ⟨t, ds, hne, hds, ht, rfl⟩ := hr
    simp only [consume] at h
    split_ifs at h with hc
    · obtain ⟨-, rfl⟩ := Prod.mk.inj h
      refine ⟨⟨t, ds, [call.input], [], hne, hds, List.cons_ne_nil _ _, ?_⟩, rfl, ?_, rfl⟩
      · exact digit_snoc (m := []) (fun _ hm => absurd hm List.not_mem_nil) hc
      · rw [bytes_snoc, ht, Head.bytes]
        simp
    · cases h
  · obtain ⟨hd, hlines, ht, rfl⟩ := hr
    simp only [consume] at h
    split_ifs at h with hcr hc
    · obtain ⟨-, rfl⟩ := Prod.mk.inj h
      refine ⟨hd, hlines, ?_, rfl⟩
      rw [bytes_snoc, hcr, List.append_assoc, ← ht]
      rfl
    · obtain ⟨-, rfl⟩ := Prod.mk.inj h
      refine ⟨⟨hd.target, hd.major, hd.minor ++ [call.input], hd.lines, hd.major_ne,
        hd.major_digit, by simp, digit_snoc hd.minor_digit hc⟩, hlines, ?_, ?_⟩
      · -- the head ends with a line break that is still to come
        rw [Head.bytes, hlines] at ht ⊢
        have hcut : bytes calls ++ crlf =
            hd.target.bytes ++ (httpSlash ++ (hd.major ++ 46 :: hd.minor)) ++ crlf := by
          rw [ht]
          simp
        rw [bytes_snoc, List.append_cancel_right hcut]
        simp
      · simp only [Head.request, versionValue_snoc]
        rfl
    · cases h
  · obtain ⟨hd, -, ht, rfl⟩ := hr
    obtain ⟨hc, rfl⟩ := expects_eq_none h
    refine ⟨hd, ?_, rfl⟩
    rw [bytes_snoc, hc, ht]

/-- The start of a line, and the name of a header. -/
theorem reached_name {st : ParserState}
    (hst : st = .headerLineStart ∨ st = .headerName ∨ st = .spaceBeforeHeaderValue)
    (hr : Reached L calls ⟨st, req⟩) (h : consume L ⟨st, req⟩ call = (none, p')) :
    Reached L (calls ++ [call]) p' := by
  rcases hst with rfl | rfl | rfl
  · obtain ⟨hd, ht, rfl⟩ := hr
    simp only [consume] at h
    split_ifs at h with hcr hlws hc
    · obtain ⟨-, rfl⟩ := Prod.mk.inj h
      refine ⟨hd, ?_, rfl⟩
      rw [bytes_snoc, ht, hcr]
    · obtain ⟨-, rfl⟩ := Prod.mk.inj h
      -- the line that is continued is the last one
      obtain ⟨hheaders, hblank⟩ := hlws
      have hlines : hd.lines ≠ [] := by
        intro hnil
        apply hheaders
        rw [Head.request, Request.ofHead, Head.headers, hnil]
        rfl
      have hsplit :
          { hd with lines := hd.lines.dropLast }.addLine (hd.lines.getLast hlines) = hd := by
        rw [Head.addLine]
        simp only [List.dropLast_append_getLast hlines]
      refine ⟨{ hd with lines := hd.lines.dropLast }, hd.lines.getLast hlines, [call.input],
        List.cons_ne_nil _ _, List.forall_mem_singleton.mpr hblank, ?_, ?_⟩
      · rw [bytes_snoc, ht, ← List.append_assoc, ← Head.bytes_addLine, hsplit]
      · rw [← Head.request_addLine, hsplit]
    · cases h
    · obtain ⟨-, rfl⟩ := Prod.mk.inj h
      refine ⟨hd, [call.input], List.cons_ne_nil _ _, ?_, ?_, rfl⟩
      · exact token_snoc (m := []) (fun _ hm => absurd hm List.not_mem_nil) hc
      · rw [bytes_snoc, ht, List.append_nil]
  · obtain ⟨hd, n, hne, hn, ht, rfl⟩ := hr
    rw [List.append_nil] at ht
    simp only [consume] at h
    split_ifs at h with hcolon hc
    · obtain ⟨-, rfl⟩ := Prod.mk.inj h
      refine ⟨hd, n, hne, hn, ?_, rfl⟩
      rw [bytes_snoc, ht, hcolon, List.append_assoc]
    · cases h
    · obtain ⟨-, rfl⟩ := Prod.mk.inj h
      refine ⟨hd, n ++ [call.input], by simp, token_snoc hn hc, ?_, ?_⟩
      · rw [bytes_snoc, ht, List.append_nil, List.append_assoc]
      · rw [Request.modifyBack_addHeader]
  · obtain ⟨hd, n, hne, hn, ht, rfl⟩ := hr
    obtain ⟨hc, rfl⟩ := expects_eq_none h
    refine ⟨hd, n ++ 58 :: 32 :: [], ⟨n, []⟩, ?_, ?_, rfl⟩
    · exact .first hne hn fun _ hm => absurd hm List.not_mem_nil
    · rw [bytes_snoc, ht, hc]
      simp

/-- The value of a header. -/
theorem reached_value {st : ParserState}
    (hst : st = .headerValue ∨ st = .headerLws ∨ st = .expectingNewline2)
    (hr : Reached L calls ⟨st, req⟩) (h : consume L ⟨st, req⟩ call = (none, p')) :
    Reached L (calls ++ [call]) p' := by
  rcases hst with rfl | rfl | rfl
  · obtain ⟨hd, o, d, ho, ht, rfl⟩ := hr
    simp only [consume] at h
    split_ifs at h with hcr hc
    · obtain ⟨-, rfl⟩ := Prod.mk.inj h
      obtain ⟨l, hbytes, hheader⟩ := ho.close
      refine ⟨hd, l, ?_, by rw [hheader]⟩
      rw [bytes_snoc, ht, hcr, hbytes]
      simp [crlf]
    · cases h
    · obtain ⟨-, rfl⟩ := Prod.mk.inj h
      rw [isCtl_eq, decide_eq_true_eq] at hc
      refine ⟨hd, o ++ [call.input], ⟨d.name, d.value ++ [call.input]⟩, ho.push hc, ?_, ?_⟩
      · rw [bytes_snoc, ht, List.append_assoc]
      · rw [Request.modifyBack_addHeader]
  · obtain ⟨hd, l, bs, hne, hbs, ht, rfl⟩ := hr
    simp only [consume] at h
    split_ifs at h with hcr hblank hc
    · obtain ⟨-, rfl⟩ := Prod.mk.inj h
      refine ⟨hd, l.addFold ⟨bs, [], hne, hbs, fun _ hm => absurd hm List.not_mem_nil⟩, ?_, ?_⟩
      · rw [bytes_snoc, ht, hcr, HeaderLine.bytes_addFold, Fold.bytes]
        simp [crlf]
      · rw [HeaderLine.header_addFold, Fold.value, List.dropWhile_nil, List.append_nil]
        rfl
    · obtain ⟨-, rfl⟩ := Prod.mk.inj h
      refine ⟨hd, l, bs ++ [call.input], by simp, ?_, ?_, rfl⟩
      · exact List.forall_mem_append.mpr ⟨hbs, List.forall_mem_singleton.mpr hblank⟩
      · rw [bytes_snoc, ht, List.append_assoc, List.append_assoc]
    · cases h
    · obtain ⟨-, rfl⟩ := Prod.mk.inj h
      rw [isCtl_eq, decide_eq_true_eq] at hc
      refine ⟨hd, l.bytes ++ (bs ++ call.input :: []), ⟨l.name, l.header.value ++ [call.input]⟩,
        .fold l hne hbs hblank (List.forall_mem_singleton.mpr hc), ?_, ?_⟩
      · rw [bytes_snoc, ht, List.append_assoc, List.append_assoc]
      · rw [Request.modifyBack_addHeader]
        rfl
  · obtain ⟨hd, l, ht, rfl⟩ := hr
    obtain ⟨hc, rfl⟩ := expects_eq_none h
    refine ⟨hd.addLine l, ?_, ?_⟩
    · rw [bytes_snoc, hc, ht, Head.bytes_addLine]
    · rw [Head.request_addLine]

/-- The end of the header section, and the body. -/
theorem reached_content {st : ParserState} (hst : st = .expectingNewline3 ∨ st = .httpPostContent)
    (hr : Reached L calls ⟨st, req⟩) (h : consume L ⟨st, req⟩ call = (none, p')) :
    Reached L (calls ++ [call]) p' := by
  rcases hst with rfl | rfl
  · obtain ⟨hd, ht, rfl⟩ := hr
    simp only [consume] at h
    split_ifs at h with hget
    · cases h
    · cases h
    · obtain ⟨-, rfl⟩ := Prod.mk.inj h
      refine ⟨hd, calls ++ [call], [], call.input, hget, (List.append_nil _).symm, ?_, passes_nil _⟩
      rw [bytes_snoc, ht, List.append_assoc]
      rfl
  · obtain ⟨hd, before, body, c, hget, rfl, hbefore, hbody⟩ := hr
    have hstate : p'.state = .httpPostContent := by
      have h' : consumeContent L ⟨.httpPostContent, req⟩ call = (none, p') := h
      rw [consumeContent] at h'
      split at h'
      · cases h'
      · simp only at h'
        split_ifs at h' <;> first | cases h'; done | (obtain ⟨-, rfl⟩ := Prod.mk.inj h'; rfl)
    rw [Reached, hstate]
    exact ⟨hd, before, body ++ [call], c, hget, List.append_assoc .., hbefore, hbody.snoc h⟩

/-- **Step**: a byte that is passed keeps the description. -/
theorem reached_step {p : Parse} (hr : Reached L calls p) (h : consume L p call = (none, p')) :
    Reached L (calls ++ [call]) p' := by
  obtain ⟨st, req⟩ := p
  cases st with
  | methodStart => exact reached_target (.inl rfl) hr h
  | method => exact reached_target (.inr (.inl rfl)) hr h
  | uri => exact reached_target (.inr (.inr rfl)) hr h
  | httpVersionH => exact reached_slash (.inl rfl) hr h
  | httpVersionT1 => exact reached_slash (.inr (.inl rfl)) hr h
  | httpVersionT2 => exact reached_slash (.inr (.inr (.inl rfl))) hr h
  | httpVersionP => exact reached_slash (.inr (.inr (.inr (.inl rfl)))) hr h
  | httpVersionSlash => exact reached_slash (.inr (.inr (.inr (.inr rfl)))) hr h
  | httpVersionMajorStart => exact reached_version (.inl rfl) hr h
  | httpVersionMajor => exact reached_version (.inr (.inl rfl)) hr h
  | httpVersionMinorStart => exact reached_version (.inr (.inr (.inl rfl))) hr h
  | httpVersionMinor => exact reached_version (.inr (.inr (.inr (.inl rfl)))) hr h
  | expectingNewline1 => exact reached_version (.inr (.inr (.inr (.inr rfl)))) hr h
  | headerLineStart => exact reached_name (.inl rfl) hr h
  | headerName => exact reached_name (.inr (.inl rfl)) hr h
  | spaceBeforeHeaderValue => exact reached_name (.inr (.inr rfl)) hr h
  | headerValue => exact reached_value (.inl rfl) hr h
  | headerLws => exact reached_value (.inr (.inl rfl)) hr h
  | expectingNewline2 => exact reached_value (.inr (.inr rfl)) hr h
  | expectingNewline3 => exact reached_content (.inl rfl) hr h
  | httpPostContent => exact reached_content (.inr rfl) hr h
  | uriStart | expectingContentNewline1 => exact absurd hr id

/-- **Run**: what a parser has passed is what its state says. -/
theorem reached_of_passes {p : Parse} (h : Passes (consume L) .fresh calls p) :
    Reached L calls p := by
  have hstart : Reached L [] .fresh := ⟨rfl, rfl⟩
  exact h.invariant hstart fun _ _ _ _ hr hstep => reached_step hr hstep

/-! ## Which requests are complete -/

/-- The body state keeps everything but the content. -/
theorem consumeContent_frame (L : LexicalCast) (p : Parse) (call : Call) :
    ∃ content n, (consumeContent L p call).2 =
      ⟨p.state, { p.req with content := content, contentLen := n }⟩ := by
  rw [consumeContent]
  rcases hlen : p.req.getContentLength L call.stack.contLen with _ | ⟨n, req⟩
  · exact ⟨p.req.content, p.req.contentLen, rfl⟩
  · have hreq : ∃ k, req = { p.req with contentLen := k } := by
      rw [Request.getContentLength] at hlen
      split at hlen
      · obtain ⟨-, rfl⟩ := Prod.mk.inj (Option.some.inj hlen)
        exact ⟨p.req.contentLen, rfl⟩
      · split at hlen
        · cases hlen
        · obtain ⟨-, rfl⟩ := Prod.mk.inj (Option.some.inj hlen)
          exact ⟨_, rfl⟩
    obtain ⟨k, rfl⟩ := hreq
    simp only
    split_ifs <;> exact ⟨_, _, rfl⟩

/-- So does a whole body. -/
theorem passes_content_frame {req : Request} {body : List Call} {p : Parse}
    (h : Passes (consume L) ⟨.httpPostContent, req⟩ body p) :
    ∃ content n, p = ⟨.httpPostContent, { req with content := content, contentLen := n }⟩ := by
  refine h.invariant (I := fun _ p =>
    ∃ content n, p = ⟨.httpPostContent, { req with content := content, contentLen := n }⟩)
    ⟨req.content, req.contentLen, rfl⟩ ?_
  rintro pre p₁ call p₂ ⟨content, n, rfl⟩ hstep
  obtain ⟨content', n', heq⟩ := consumeContent_frame L
    ⟨.httpPostContent, { req with content := content, contentLen := n }⟩ call
  refine ⟨content', n', ?_⟩
  rw [← heq]
  exact (congrArg Prod.snd hstep).symm

/-- A body has the method of its head. -/
theorem Reached.method_ne_get {p : Parse} (hr : Reached L calls p)
    (hst : p.state = .httpPostContent) : p.req.method ≠ get := by
  rw [Reached, hst] at hr
  obtain ⟨h, before, body, c, hget, -, -, hbody⟩ := hr
  obtain ⟨content, n, rfl⟩ := passes_content_frame hbody
  exact hget

/-- Outside of three states the parser goes on or refuses. -/
theorem state_of_consume {p : Parse} {v : Verdict} (h : consume L p call = (some v, p'))
    (hv : v ≠ .invalid) : p.state = .expectingNewline3 ∨ p.state = .httpPostContent ∨
      p.state = .expectingContentNewline1 := by
  have hrefuse : ∀ {q q' : Parse},
      ((some .invalid, q) : Option Verdict × Parse) ≠ (some v, q') := by
    intro q q' heq
    exact hv (Option.some.inj (Prod.mk.inj heq).1).symm
  obtain ⟨st, req⟩ := p
  cases st with
  | expectingNewline3 => exact .inl rfl
  | httpPostContent => exact .inr (.inl rfl)
  | expectingContentNewline1 => exact .inr (.inr rfl)
  | httpVersionH | httpVersionT1 | httpVersionT2 | httpVersionP | expectingNewline1
  | spaceBeforeHeaderValue | expectingNewline2 =>
    simp only [consume, expects] at h
    split_ifs at h <;> first | exact absurd h hrefuse | cases h
  | methodStart | method | uriStart | uri | httpVersionSlash | httpVersionMajorStart
  | httpVersionMajor | httpVersionMinorStart | httpVersionMinor | headerLineStart | headerLws
  | headerName | headerValue =>
    simp only [consume] at h
    split_ifs at h <;> first | exact absurd h hrefuse | cases h

/-- Where the parser returns true. -/
theorem consume_complete {p : Parse} (h : consume L p call = (some .complete, p')) :
    (p.state = .expectingNewline3 ∧ p.req.method = get ∧ call.input = 10 ∧ p' = p) ∨
      (p.state = .httpPostContent ∧ consumeContent L p call = (some .complete, p')) ∨
      p.state = .expectingContentNewline1 := by
  obtain ⟨st, req⟩ := p
  rcases state_of_consume h (by decide) with rfl | rfl | rfl
  · simp only [consume] at h
    split_ifs at h with hget hlf
    · exact .inl ⟨rfl, hget, hlf, (Prod.mk.inj h).2.symm⟩
    · cases h
    · cases h
  · exact .inr (.inl ⟨rfl, h⟩)
  · exact .inr (.inr rfl)

/-- A head and the carriage return behind it. -/
theorem Head.passes_cr (h : Head) {c : UInt8} (hcalls : Http.bytes calls = h.bytes ++ [13, c]) :
    ∃ pre last, calls = pre ++ [last] ∧ last.input = c ∧
      Passes (consume L) .fresh pre ⟨.expectingNewline3, h.request⟩ := by
  obtain ⟨before, rest, rfl, hbefore, hrest⟩ := List.map_eq_append_iff.mp hcalls
  obtain ⟨cr, rest, rfl, hcr, hrest⟩ := List.map_eq_cons_iff.mp hrest
  obtain ⟨last, rest, rfl, hlast, hnil⟩ := List.map_eq_cons_iff.mp hrest
  obtain rfl := List.map_eq_nil_iff.mp hnil
  have hfirst : consume L ⟨.headerLineStart, h.request⟩ cr =
      (none, ⟨.expectingNewline3, h.request⟩) := by simp [consume, hcr]
  refine ⟨before ++ [cr], last, ?_, hlast, (h.feeds before hbefore).snoc hfirst⟩
  rw [List.append_assoc]
  rfl

/-- The blank line behind a head, when the method is `GET`. -/
theorem Head.decides (h : Head) (hget : h.target.method = get)
    (hcalls : Http.bytes calls = h.bytes ++ crlf) :
    Decides (consume L) .fresh calls .complete ⟨.expectingNewline3, h.request⟩ := by
  obtain ⟨pre, lf, rfl, hlf, hpre⟩ := h.passes_cr (L := L) hcalls
  have hmethod : h.request.method = get := hget
  refine hpre.decides ?_
  simp [consume, hmethod, hlf]

end Backward

/-- **The grammar of `GET` requests.** However the bytes are cut into pieces, the parser
returns true on the last of them, with the method `GET`, if and only if they are a head
with this method and an empty line; and then the request has the URI and the headers of
the head. -/
theorem get_grammar (L : LexicalCast) (chunks : List (List Call)) :
    ((∃ p, parse L chunks = ⟨some .complete, p, []⟩ ∧ p.req.method = get) ↔
        ∃ h : Head, h.target.method = get ∧ bytes chunks.flatten = h.bytes ++ crlf) ∧
      ∀ h : Head, h.target.method = get → bytes chunks.flatten = h.bytes ++ crlf →
        ∃ p, parse L chunks = ⟨some .complete, p, []⟩ ∧ p.req.method = get ∧
          p.req.uri = h.target.uri ∧ p.req.headers = h.headers := by
  have hforward : ∀ h : Head, h.target.method = get → bytes chunks.flatten = h.bytes ++ crlf →
      parse L chunks = ⟨some .complete, ⟨.expectingNewline3, h.request⟩, []⟩ := by
    intro h hget hbytes
    rw [parse, scanChunks_eq]
    exact h.decides hget hbytes
  refine ⟨⟨?_, ?_⟩, ?_⟩
  · rintro ⟨p, hparse, hmethod⟩
    rw [parse, scanChunks_eq] at hparse
    obtain ⟨pre, call, p₁, hcalls, hpre, hlast⟩ := exists_of_scan_some hparse
    have hreached := reached_of_passes hpre
    rcases consume_complete hlast with ⟨hst, hget, hlf, rfl⟩ | ⟨hst, hcontent⟩ | hst
    · rw [Reached, hst] at hreached
      obtain ⟨h, hbytes, hreq⟩ := hreached
      refine ⟨h, ?_, ?_⟩
      · rw [hreq] at hget
        exact hget
      · rw [hcalls, bytes_snoc, hbytes, hlf, List.append_assoc]
        rfl
    · -- the body belongs to a head with another method
      obtain ⟨content, n, heq⟩ := consumeContent_frame L p₁ call
      rw [hcontent] at heq
      obtain rfl := heq
      exact absurd hmethod (hreached.method_ne_get hst)
    · -- nothing leads to this state
      rw [Reached, hst] at hreached
      exact absurd hreached id
  · rintro ⟨h, hget, hbytes⟩
    exact ⟨_, hforward h hget hbytes, hget⟩
  · intro h hget hbytes
    exact ⟨_, hforward h hget hbytes, hget, rfl, rfl⟩

end Http

end MyServer
