import MyServer.Resources

/-!
# Resources as text (`fileSystem.cpp`, `connection.cpp`)

A resource is opened as a text file and put together from its lines: `getline` takes a line
feed out of the stream and does not put it into the line, so what a connection sends is the file
without its line feeds (`loadJsonFile_eq`). On Windows the stream has changed the file before: it
ends at a `0x1A`, and a carriage return in front of a line feed is dropped.

`handleRead_serves_iff` says which files are sent as they are.
-/

namespace MyServer

namespace Http

/-! ## What the stream makes of a file -/

/-- A carriage return in front of a line feed is dropped. -/
def crlfToLf : List UInt8 → List UInt8
  | [] => []
  | c :: s => if c = 13 ∧ s.head? = some 10 then crlfToLf s else c :: crlfToLf s

/-- The bytes a stream in text mode gives of a file. -/
def Platform.text : Platform → List UInt8 → List UInt8
  | .posix, file => file
  | .windows, file => crlfToLf (file.takeWhile fun c => c ≠ 26)

theorem crlfToLf_of_notMem {s : List UInt8} (h : 10 ∉ s) : crlfToLf s = s := by
  induction s with
  | nil => rfl
  | cons c s ih =>
    rw [List.mem_cons, not_or] at h
    have hhead : s.head? ≠ some 10 := fun hs => h.2 (List.mem_of_head? hs)
    rw [crlfToLf, if_neg (fun hc => hhead hc.2), ih h.2]

/-- Which files come out of the loop as they are. -/
theorem loadJsonFile_text_eq_iff (plat : Platform) (file : List UInt8) :
    loadJsonFile (some (plat.text file)) = file ↔ 10 ∉ file ∧ (plat = .windows → 26 ∉ file) := by
  have hlf : loadJsonFile (some (plat.text file)) = file → 10 ∉ file := by
    intro h hmem
    rw [← h, loadJsonFile_eq, List.mem_filter] at hmem
    simp at hmem
  have hplain : ∀ s : List UInt8, 10 ∉ s → loadJsonFile (some s) = s := by
    intro s hs
    rw [loadJsonFile_eq]
    refine List.filter_eq_self.mpr fun c hc => decide_eq_true ?_
    rintro rfl
    exact hs hc
  by_cases hfile : 10 ∈ file
  · exact iff_of_false (fun h => hlf h hfile) fun h => h.1 hfile
  cases plat with
  | posix => exact iff_of_true (hplain file hfile) ⟨hfile, fun h => by cases h⟩
  | windows =>
    -- without line feeds the stream is the file up to the first `0x1A`
    have hsub : 10 ∉ file.takeWhile fun c => decide (c ≠ 26) :=
      fun h => hfile (List.takeWhile_subset _ h)
    rw [Platform.text, crlfToLf_of_notMem hsub, hplain _ hsub, List.takeWhile_eq_self_iff]
    refine ⟨fun h => ⟨hfile, fun _ hmem => ?_⟩, fun h c hc => decide_eq_true ?_⟩
    · exact absurd (h 26 hmem) (by decide)
    · rintro rfl
      exact h.2 rfl hc

/-! ## What is sent -/

/-- The text of an `int` is an unsigned decimal if it is not negative. -/
theorem numeral_intToString_iff (n : Int32) (k : ℕ) :
    Numeral k (Json.intToString n) ↔ n.toInt = k := by
  have hcond := Json.toInt_eq_toUInt32 n
  have hlt := n.toUInt32.toNat_lt
  rw [Json.intToString]
  split_ifs with hneg <;> rw [Int32.lt_iff_toInt_lt, Int32.toInt_zero] at hneg
  · -- a minus is no digit
    refine iff_of_false (fun h => ?_) (by omega)
    exact absurd (h.2.1 45 (List.mem_cons_self ..)) (by decide)
  · have hnat : (n.toUInt32.toNat : ℤ) = n.toInt := by
      split_ifs at hcond <;> omega
    have hdigits := Json.uintToString_digits n.toUInt32
    have hdigit : ∀ c ∈ Json.uintToString n.toUInt32, Digit c := by
      intro c hc
      have hc := hdigits.digit c hc
      rw [Json.isDigit, Bool.and_eq_true, decide_eq_true_eq, decide_eq_true_eq] at hc
      exact hc
    rw [Numeral, hdigits.value_eq, ← hnat]
    refine ⟨fun h => by rw [h.2.2], fun h => ⟨hdigits.ne_nil, hdigit, ?_⟩⟩
    exact_mod_cast h

/-- A length is announced in decimal exactly if an `int` holds it. -/
theorem numeral_ofLength_iff (content : List UInt8) :
    Numeral content.length (Header.ofLength content).value ↔ content.length < 2 ^ 31 := by
  rw [Header.ofLength, numeral_intToString_iff]
  refine ⟨fun h => ?_, Int32.toInt_ofNat_of_lt⟩
  have hlt := (Int32.ofNat content.length).toInt_lt
  rw [h] at hlt
  exact_mod_cast hlt

/-- The reply has the bytes of a file for its content, and one header that says how many
they are. -/
structure Reply.Carries (rep : Reply) (file : List UInt8) : Prop where
  /-- the bytes -/
  content : rep.content = file
  /-- the header `Content-Length` -/
  length : ∃ h, (rep.headers.filter fun h => h.name = Request.contentLength) = [h] ∧
    Numeral file.length h.value

theorem carries_ofResource_iff (plat : Platform) (file : List UInt8) :
    (Reply.ofResource (loadJsonFile (some (plat.text file)))).Carries file ↔
      10 ∉ file ∧ (plat = .windows → 26 ∉ file) ∧ file.length < 2 ^ 31 := by
  have hheader : ∀ content, ((Reply.ofResource content).headers.filter fun h =>
      h.name = Request.contentLength) = [.ofLength content] := by
    intro content
    have htype : ascii "Content-Type" ≠ Request.contentLength := by decide
    have hserver : ascii "Server" ≠ Request.contentLength := by decide
    simp [Reply.ofResource, Header.ofLength, htype, hserver]
  rw [← and_assoc, ← loadJsonFile_text_eq_iff]
  refine ⟨fun h => ?_, fun h => ⟨h.1, _, hheader _, ?_⟩⟩
  · have hcontent : loadJsonFile (some (plat.text file)) = file := h.content
    obtain ⟨header, hone, hnum⟩ := h.length
    rw [hheader, hcontent] at hone
    rw [← List.head_eq_of_cons_eq hone, numeral_ofLength_iff] at hnum
    exact ⟨hcontent, hnum⟩
  · rw [h.1, numeral_ofLength_iff]
    exact h.2

/-- **Which resources are sent as they are.** A read completes the request for a resource
that is a file which can be opened. The reply that is sent has the file's bytes and says
their number if and only if the file has no line feed, no `0x1A` on Windows, and fewer than
2³¹ bytes. -/
theorem handleRead_serves_iff (env : Env) (plat : Platform) (g : Gate) (c : Connection)
    {calls : List Call} {file : List UInt8}
    (hcomplete : (scan (consume env.cast) c.parse calls).verdict = some .complete)
    (huri : isRequestResource (scan (consume env.cast) c.parse calls).state.req.uri = true)
    (hfile : env.files (env.filePath (scan (consume env.cast) c.parse calls).state.req.uri) =
      .regular (some (plat.text file))) :
    (∃ rep, (c.handleRead env g (some calls)).2.1.replies = c.replies ++ [rep] ∧
        rep.Carries file) ↔
      10 ∉ file ∧ (plat = .windows → 26 ∉ file) ∧ file.length < 2 ^ 31 := by
  have hservice :
      isServiceCommand (scan (consume env.cast) c.parse calls).state.req.uri = false := by
    obtain ⟨rest, hrest⟩ := List.isPrefixOf_iff_prefix.mp huri
    rw [← hrest]
    rfl
  have hreplies : (c.handleRead env g (some calls)).2.1.replies =
      c.replies ++ [.ofResource (loadJsonFile (some (plat.text file)))] := by
    simp only [Connection.handleRead, hcomplete, Connection.handleRequest, hservice, huri, hfile]
    rfl
  rw [hreplies, ← carries_ofResource_iff]
  refine ⟨?_, fun h => ⟨_, rfl, h⟩⟩
  rintro ⟨rep, hrep, hcarries⟩
  rw [List.append_cancel_left_eq, List.cons.injEq] at hrep
  rw [hrep.1]
  exact hcarries

/-- A server with one file of its own -/
def fileEnv (file : List UInt8) : Env :=
  { leakyEnv with files := fun _ => .regular (some file) }

/-- The request for a page -/
def pageCalls : List Call := quietCalls (ascii "GET /www/a.html HTTP/1.0\r\n\r\n")

/-- A file of one line without an end. -/
theorem handleRead_serves_one_line :
    ∃ rep, ((Connection.create 1).handleRead (fileEnv (ascii "<p>")) (.init 0)
        (some pageCalls)).2.1.replies = [rep] ∧ rep.Carries (ascii "<p>") :=
  (handleRead_serves_iff (fileEnv (ascii "<p>")) .posix (.init 0) (.create 1) (by decide +kernel)
    (by decide +kernel) rfl).mpr (by decide)

/-- Two lines: they are sent as one, and the length is that of what is sent. -/
theorem handleRead_joins_lines :
    ((Connection.create 1).handleRead (fileEnv (ascii "a\nb\n")) (.init 0)
        (some pageCalls)).2.1.replies.map Reply.content = [ascii "ab"] ∧
      ((Connection.create 1).handleRead (fileEnv (ascii "a\nb\n")) (.init 0)
        (some pageCalls)).2.1.replies.map (fun rep => rep.headers.head?.map Header.value) =
        [some (ascii "2")] := by
  refine ⟨by decide +kernel, by decide +kernel⟩

end Http

end MyServer
