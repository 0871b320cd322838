import MyServer.TextFiles
import MyServer.TightText

/-!
# Replies, as a client reads them (`http_common.cpp`)

`to_buffers` puts the status line, the headers and the content of a reply one after the other.
A client reads a line up to `CR LF`, the code in the status line, the headers up to an empty
line, and takes what follows for the body when `Content-Length` says as many bytes.

* `Header.Clean` — a header that is read as it was written.
* `Reply.Proper` — clean headers, and the right length.
* `readResponse_toBuffers` — a proper reply is read as it was meant, and the three kinds of
  replies of the connection are proper, up to 2³¹ bytes.
-/

namespace MyServer

namespace Http

/-! ## The client -/

/-- What a client reads. -/
structure Response : Type where
  /-- the status code -/
  code : ℕ
  /-- the headers -/
  headers : List Header
  /-- the body -/
  body : List UInt8
  deriving DecidableEq

/-- A line up to `CR LF`, and what follows. -/
def readLine : List UInt8 → Option (List UInt8 × List UInt8)
  | [] => none
  | [_] => none
  | c :: d :: rest =>
    if c = 13 ∧ d = 10 then some ([], rest)
    else (readLine (d :: rest)).map fun r => (c :: r.1, r.2)

/-- The code in a status line, behind `HTTP/`, the version and a blank. -/
def readCode (line : List UInt8) : Option ℕ :=
  match line with
  | 72 :: 84 :: 84 :: 80 :: 47 :: _ :: 46 :: _ :: 32 :: a :: b :: c :: 32 :: _ =>
    if ∀ d ∈ [a, b, c], Digit d then some (Json.digitsValue [a, b, c]) else none
  | _ => none

/-- A header line: the name up to the colon, the value behind it without the blanks in front. -/
def readHeader (line : List UInt8) : Option Header :=
  match line.dropWhile fun c => c ≠ 58 with
  | [] => none
  | _ :: value => some ⟨line.takeWhile fun c => c ≠ 58, value.dropWhile fun c => c = 32⟩

/-- At most `n` headers, up to an empty line. -/
def readHeaders : ℕ → List UInt8 → Option (List Header × List UInt8)
  | 0, _ => none
  | n + 1, s => do
    let (line, rest) ← readLine s
    if line = [] then return ([], rest)
    let header ← readHeader line
    let (headers, rest) ← readHeaders n rest
    return (header :: headers, rest)

/-- A response that ends with the bytes. -/
def readResponse (s : List UInt8) : Option Response := do
  let (line, rest) ← readLine s
  let code ← readCode line
  let (headers, body) ← readHeaders s.length rest
  let length ← headers.find? fun h => h.name = Request.contentLength
  if Numeral body.length length.value then return ⟨code, headers, body⟩ else none

/-! ## What is written is read -/

theorem readLine_append {line : List UInt8} (h : 13 ∉ line) (rest : List UInt8) :
    readLine (line ++ 13 :: 10 :: rest) = some (line, rest) := by
  induction line with
  | nil => rfl
  | cons c line ih =>
    rw [List.mem_cons, not_or] at h
    have hne : ∀ d : UInt8, ¬ (c = 13 ∧ d = 10) := fun _ hc => h.1 hc.1.symm
    have htail := ih h.2
    cases line with
    | nil =>
      rw [List.nil_append] at htail
      rw [List.cons_append, List.nil_append, readLine, if_neg (hne 13), htail]
      rfl
    | cons d line =>
      rw [List.cons_append] at htail
      rw [List.cons_append, List.cons_append, readLine, if_neg (hne d), htail]
      rfl

/-- The line of a header. -/
def Header.line (h : Header) : List UInt8 := h.name ++ 58 :: 32 :: h.value

/-- A header that can be read back. -/
structure Header.Clean (h : Header) : Prop where
  /-- the name has no colon -/
  colon : 58 ∉ h.name
  /-- the line has no carriage return -/
  cr : 13 ∉ h.line
  /-- the value does not begin with a blank -/
  blank : h.value.head? ≠ some 32

theorem Header.Clean.readHeader {h : Header} (hclean : h.Clean) :
    readHeader h.line = some h := by
  have hname : ∀ c ∈ h.name, decide (c ≠ 58) = true := by
    intro c hc
    exact decide_eq_true fun heq => hclean.colon (heq ▸ hc)
  have hdrop : h.line.dropWhile (fun c => c ≠ 58) = 58 :: 32 :: h.value := by
    rw [Header.line, List.dropWhile_append_of_pos hname]
    rfl
  have htake : h.line.takeWhile (fun c => c ≠ 58) = h.name := by
    rw [Header.line, List.takeWhile_append_of_pos hname]
    simp
  have hvalue : (32 :: h.value).dropWhile (fun c => c = 32) = h.value := by
    rcases hv : h.value with _ | ⟨c, value⟩
    · rfl
    · have hc : c ≠ 32 := by
        rintro rfl
        exact hclean.blank (by rw [hv]; rfl)
      simp [hc]
  rw [Http.readHeader, hdrop]
  dsimp only
  rw [hvalue, htake]

/-- The headers are read one after the other. -/
theorem readHeaders_append {hs : List Header} (hclean : ∀ h ∈ hs, h.Clean) (rest : List UInt8)
    {n : ℕ} (hn : hs.length < n) :
    readHeaders n (hs.flatMap (fun h => h.line ++ crlf) ++ (crlf ++ rest)) = some (hs, rest) := by
  induction hs generalizing n with
  | nil =>
    obtain ⟨n, rfl⟩ : ∃ m, n = m + 1 := ⟨n - 1, by omega⟩
    rfl
  | cons h hs ih =>
    obtain ⟨n, rfl⟩ : ∃ m, n = m + 1 := ⟨n - 1, by rw [List.length_cons] at hn; omega⟩
    have hhead := hclean h (List.mem_cons_self ..)
    have htail := ih (fun h' hh => hclean h' (List.mem_cons_of_mem h hh))
      (Nat.lt_of_succ_lt_succ hn)
    have hline : readLine ((h :: hs).flatMap (fun h => h.line ++ crlf) ++ (crlf ++ rest)) =
        some (h.line, hs.flatMap (fun h => h.line ++ crlf) ++ (crlf ++ rest)) := by
      rw [List.flatMap_cons, List.append_assoc, List.append_assoc]
      exact readLine_append hhead.cr _
    have hne : h.line ≠ [] := by
      rw [Header.line]
      exact List.append_ne_nil_of_right_ne_nil _ (List.cons_ne_nil _ _)
    rw [readHeaders, hline]
    simp only [Option.bind_eq_bind, Option.bind_some, hne, if_false, hhead.readHeader, htail]
    rfl

theorem length_le_lines (hs : List Header) :
    hs.length ≤ (hs.flatMap fun h => h.line ++ crlf).length := by
  induction hs with
  | nil => exact Nat.le_refl 0
  | cons h hs ih =>
    have hcrlf : crlf.length = 2 := rfl
    rw [List.flatMap_cons, List.length_append, List.length_append, List.length_cons, hcrlf]
    omega

/-- The code of a status. -/
def Status.code : Status → ℕ
  | ok => 200
  | badRequest => 400

/-- The status line, without its end. -/
theorem Status.toBuffer_spec (status : Status) :
    ∃ line, status.toBuffer = line ++ crlf ∧ 13 ∉ line ∧ readCode line = some status.code := by
  cases status with
  | ok => exact ⟨ascii "HTTP/1.0 200 OK", by decide, by decide, by decide⟩
  | badRequest => exact ⟨ascii "HTTP/1.0 400 Bad Request", by decide, by decide, by decide⟩

/-- What a reply means. -/
def Reply.response (rep : Reply) : Response := ⟨rep.status.code, rep.headers, rep.content⟩

/-- A reply that can be read back. -/
structure Reply.Proper (rep : Reply) : Prop where
  /-- its headers can -/
  clean : ∀ h ∈ rep.headers, h.Clean
  /-- the first `Content-Length` is the length of the content -/
  length : ∃ h, (rep.headers.find? fun h => h.name = Request.contentLength) = some h ∧
    Numeral rep.content.length h.value

/-- **A proper reply is read as it was meant.** -/
theorem readResponse_toBuffers {rep : Reply} (h : rep.Proper) :
    readResponse rep.toBuffers = some rep.response := by
  obtain ⟨line, hstatus, hcr, hcode⟩ := rep.status.toBuffer_spec
  obtain ⟨length, hfind, hnumeral⟩ := h.length
  have htext : rep.toBuffers =
      line ++ 13 :: 10 :: (rep.headers.flatMap (fun h => h.line ++ crlf) ++
        (crlf ++ rep.content)) := by
    simp only [Reply.toBuffers, hstatus, Header.line, crlf, List.append_assoc, List.cons_append,
      List.nil_append]
  have hcount : rep.headers.length < rep.toBuffers.length := by
    have hle := length_le_lines rep.headers
    rw [htext]
    simp only [List.length_append, List.length_cons]
    omega
  rw [readResponse, htext, readLine_append hcr, ← htext]
  simp only [Option.bind_eq_bind, Option.bind_some, hcode,
    readHeaders_append h.clean rep.content hcount, hfind, if_pos hnumeral]
  rfl

/-! ## The replies of the connection -/

theorem clean_ofLength (content : List UInt8) : (Header.ofLength content).Clean := by
  have hquiet := Json.quiet_intToString (.ofNat content.length)
  have hname : 58 ∉ Request.contentLength ∧ 13 ∉ Request.contentLength := by decide
  refine ⟨hname.1, ?_, fun hblank => ?_⟩
  · intro hmem
    rcases List.mem_append.mp hmem with hmem | hmem
    · exact hname.2 hmem
    · rcases List.mem_cons.mp hmem with hmem | hmem
      · exact absurd hmem (by decide)
      rcases List.mem_cons.mp hmem with hmem | hmem
      · exact absurd hmem (by decide)
      · exact Bool.noConfusion (hquiet 13 hmem).1
  · exact Bool.noConfusion (hquiet 32 (List.mem_of_head? hblank)).1

/-- A reply that begins with its length, with clean headers behind it. -/
theorem proper_of_length {status : Status} {headers : List Header} {content : List UInt8}
    (hclean : ∀ h ∈ headers, h.Clean) (hfits : content.length < 2 ^ 31) :
    Reply.Proper ⟨status, .ofLength content :: headers, content⟩ := by
  refine ⟨List.forall_mem_cons.mpr ⟨clean_ofLength content, hclean⟩, .ofLength content, ?_,
    (numeral_ofLength_iff content).mpr hfits⟩
  exact List.find?_cons_of_pos (decide_eq_true rfl)

theorem proper_stockReply (status : Status) : (Reply.stockReply status).Proper := by
  have hclean : Header.Clean ⟨ascii "Content-Type", ascii "text/html"⟩ :=
    ⟨by decide, by decide, by decide⟩
  refine proper_of_length (List.forall_mem_singleton.mpr hclean) ?_
  cases status <;> decide

theorem proper_ofMessage {msg : NetMessage} (hfits : msg.message.length < 2 ^ 31) :
    (Reply.ofMessage msg).Proper := by
  have hclean : Header.Clean ⟨ascii "Content-Type", ascii "application/json"⟩ :=
    ⟨by decide, by decide, by decide⟩
  exact proper_of_length (List.forall_mem_singleton.mpr hclean) hfits

theorem proper_ofResource {content : List UInt8} (hfits : content.length < 2 ^ 31) :
    (Reply.ofResource content).Proper := by
  have htype : Header.Clean ⟨ascii "Content-Type", ascii "text/html"⟩ :=
    ⟨by decide, by decide, by decide⟩
  have hserver : Header.Clean ⟨ascii "Server", ascii "http_server powered by Lynn"⟩ :=
    ⟨by decide, by decide, by decide⟩
  refine proper_of_length (fun h hh => ?_) hfits
  rcases List.mem_cons.mp hh with rfl | hh
  · exact htype
  · rw [List.mem_singleton.mp hh]
    exact hserver

end Http

end MyServer
