import MyServer.RequestGrammar
import Mathlib.Data.List.Forall2

/-!
# The body of a request

Behind the head of a request that is no `GET` the parser takes one byte without looking
at it, which should be the line feed of the empty line, and then collects the content.
At each byte it asks for the content length again, and appends the C string it finds at
the address of the byte.

So a body is collected as it is sent exactly when no byte of it is a NUL and a NUL lies
behind the byte in every call (`Quiet`). Three laws follow with their exact conditions:
which requests are taken as they should be (`post_complete_iff`), which of those that are
taken are requests (`post_sound_iff`), and for which the indeterminate `cont_len` does not
matter (`contLen_irrelevant_iff`).
-/

namespace MyServer

namespace Http

/-! ## The content length -/

/-- The value of the first header `Content-Length`. -/
def Head.contentLength (h : Head) : Option (List UInt8) :=
  (h.headers.find? fun d => d.name = Request.contentLength).map Header.value

/-- The number in the first header `Content-Length`. -/
def Head.Declares (L : LexicalCast) (h : Head) (n : UInt64) : Prop :=
  ∃ v, h.contentLength = some v ∧ L.toSize v = some n

/-- The parser in the body, with what it has collected. -/
def Head.inBody (h : Head) (content : List UInt8) (n : Int32) : Parse :=
  ⟨.httpPostContent, { h.request with content := content, contentLen := n }⟩

variable {L : LexicalCast} {h : Head} {n : UInt64} {content : List UInt8} {k : Int32} {call : Call}

theorem getContentLength_of_some {v : List UInt8} (hv : h.contentLength = some v)
    (contLen : UInt64) : (h.inBody content k).req.getContentLength L contLen =
      (L.toSize v).map fun n => (n, (h.inBody content (.ofNat n.toNat)).req) := by
  obtain ⟨d, hd, rfl⟩ := Option.map_eq_some_iff.mp hv
  have hfind : (h.inBody content k).req.headers.find?
      (fun d => decide (d.name = Request.contentLength)) = some d := hd
  rw [Request.getContentLength, hfind]
  simp only
  rcases L.toSize d.value with _ | n <;> rfl

theorem getContentLength_of_none (hnone : h.contentLength = none) (contLen : UInt64) :
    (h.inBody content k).req.getContentLength L contLen =
      some (contLen, (h.inBody content k).req) := by
  have hfind : (h.inBody content k).req.headers.find?
      (fun d => decide (d.name = Request.contentLength)) = none := Option.map_eq_none_iff.mp hnone
  rw [Request.getContentLength, hfind]

/-- The conversion throws when there is a content length that cannot be converted. -/
theorem getContentLength_eq_none_iff (contLen : UInt64) :
    (h.inBody content k).req.getContentLength L contLen = none ↔
      ∃ v, h.contentLength = some v ∧ L.toSize v = none := by
  rcases hv : h.contentLength with _ | v
  · simp [getContentLength_of_none hv]
  · simp [getContentLength_of_some hv]

theorem consume_eq_consumeContent (call : Call) :
    consume L (h.inBody content k) call = consumeContent L (h.inBody content k) call := rfl

/-- One byte of the body, once the length is known. -/
theorem consume_inBody {k' : Int32}
    (hlen : (h.inBody content k).req.getContentLength L call.stack.contLen =
      some (n, (h.inBody content k').req)) :
    consume L (h.inBody content k) call =
      if content.length < n.toNat then
        (if (content ++ call.cString).length = n.toNat then some .complete else none,
          h.inBody (content ++ call.cString) k')
      else (some (if call.input = 10 then .complete else .invalid), h.inBody content k') := by
  have hcontent : (h.inBody content k').req.content = content := rfl
  rw [consume_eq_consumeContent, consumeContent, hlen]
  simp only [hcontent]
  split_ifs <;> rfl

/-- One byte of the body, under a content length. -/
theorem Head.Declares.consume (hd : h.Declares L n) :
    consume L (h.inBody content k) call =
      if content.length < n.toNat then
        (if (content ++ call.cString).length = n.toNat then some .complete else none,
          h.inBody (content ++ call.cString) (.ofNat n.toNat))
      else (some (if call.input = 10 then .complete else .invalid),
        h.inBody content (.ofNat n.toNat)) := by
  obtain ⟨v, hv, hn⟩ := hd
  refine consume_inBody ?_
  rw [getContentLength_of_some hv, hn]
  rfl

/-- The empty line, or any byte in the place of its line feed. -/
theorem Head.passes_crlf (h : Head) (hget : h.target.method ≠ get) {before : List Call} {c : UInt8}
    (hbefore : Http.bytes before = h.bytes ++ [13, c]) :
    Passes (Http.consume L) .fresh before (h.inBody [] 0) := by
  obtain ⟨pre, last, rfl, -, hpre⟩ := h.passes_cr (L := L) hbefore
  have hmethod : h.request.method ≠ get := hget
  refine hpre.snoc ?_
  simp only [Http.consume, hmethod, if_false]
  rfl

/-- Bytes beyond the empty line. -/
theorem bytes_beyond {before : List Call} {c : UInt8} (hbefore : bytes before = h.bytes ++ [13, c])
    (after : List Call) : bytes (before ++ after) = h.bytes ++ 13 :: c :: bytes after := by
  rw [bytes, List.map_append, ← bytes, hbefore, List.append_assoc]
  rfl

/-- The first byte beyond the empty line. -/
theorem exists_beyond {α : Type} {f : α → UInt8} {s : List α} {c : UInt8} {rest : List UInt8}
    (hs : s.map f = h.bytes ++ 13 :: c :: rest) (hrest : rest ≠ []) :
    ∃ before x after, s = before ++ x :: after ∧ before.map f = h.bytes ++ [13, c] := by
  obtain ⟨y, rest, rfl⟩ := List.exists_cons_of_ne_nil hrest
  have hcut : s.map f = h.bytes ++ [13, c] ++ y :: rest := by
    rw [hs, List.append_assoc]
    rfl
  obtain ⟨before, after, rfl, hbefore, hafter⟩ := List.map_eq_append_iff.mp hcut
  obtain ⟨x, after, rfl, -, -⟩ := List.map_eq_cons_iff.mp hafter
  exact ⟨before, x, after, rfl, hbefore⟩

/-- A content length that cannot be converted makes every byte of the body throw. -/
theorem consume_inBody_threw {v : List UInt8} (hv : h.contentLength = some v)
    (hsize : L.toSize v = none) :
    consume L (h.inBody content k) call = (some .threw, h.inBody content k) := by
  rw [consume_eq_consumeContent, consumeContent,
    (getContentLength_eq_none_iff _).mpr ⟨v, hv, hsize⟩]

/-- Where a parser in the body has come from. -/
theorem exists_inBody {calls : List Call} {p : Parse} (hpass : Passes (consume L) .fresh calls p)
    (hst : p.state = .httpPostContent) :
    ∃ (h : Head) (c : UInt8) (before body : List Call) (content : List UInt8) (k : Int32),
      h.target.method ≠ get ∧ calls = before ++ body ∧ bytes before = h.bytes ++ [13, c] ∧
        p = h.inBody content k := by
  have hreached := reached_of_passes hpass
  rw [Reached, hst] at hreached
  obtain ⟨h, before, body, c, hget, hcalls, hbefore, hbody⟩ := hreached
  obtain ⟨content, n, rfl⟩ := passes_content_frame hbody
  exact ⟨h, c, before, body, content, n, hget, hcalls, hbefore, rfl⟩

/-! ## What is collected -/

/-- A call that appends its byte and nothing else. -/
def Call.Quiet (call : Call) : Prop := call.input ≠ 0 ∧ call.stack.behind.val = []

instance (call : Call) : Decidable call.Quiet := inferInstanceAs (Decidable (_ ∧ _))

theorem Call.Quiet.cString (hc : call.Quiet) : call.cString = [call.input] := by
  rw [Call.cString, if_neg hc.1, hc.2]

theorem Call.zero_notMem_cString (call : Call) : 0 ∉ call.cString := by
  rw [Call.cString]
  split_ifs with h0
  · exact List.not_mem_nil
  · rw [List.mem_cons, not_or]
    exact ⟨Ne.symm h0, call.stack.behind.property⟩

theorem length_le_flatMap_cString {body : List Call} (hbody : ∀ call ∈ body, call.input ≠ 0) :
    body.length ≤ (body.flatMap Call.cString).length := by
  induction body with
  | nil => exact Nat.le_refl _
  | cons call body ih =>
    obtain ⟨h0, hrest⟩ := List.forall_mem_cons.mp hbody
    have hle := ih hrest
    rw [List.flatMap_cons, List.length_append, Call.cString, if_neg h0, List.length_cons,
      List.length_cons]
    omega

/-- **The content is the body exactly when every call is quiet.** -/
theorem flatMap_cString_eq_iff {body : List Call} :
    body.flatMap Call.cString = bytes body ↔ ∀ call ∈ body, call.Quiet := by
  refine ⟨fun heq => ?_, fun hquiet => ?_⟩
  · have hzero : ∀ call ∈ body, call.input ≠ 0 := by
      intro call hcall h0
      have hmem : (0 : UInt8) ∈ bytes body := h0 ▸ List.mem_map_of_mem hcall
      rw [← heq] at hmem
      obtain ⟨call', -, hmem⟩ := List.mem_flatMap.mp hmem
      exact call'.zero_notMem_cString hmem
    induction body with
    | nil => exact fun _ hc => absurd hc List.not_mem_nil
    | cons call body ih =>
      obtain ⟨h0, hrest⟩ := List.forall_mem_cons.mp hzero
      have hlen := congrArg List.length heq
      have hle := length_le_flatMap_cString hrest
      have hnil : call.stack.behind.val = [] := by
        rw [bytes, List.flatMap_cons, List.length_append, Call.cString, if_neg h0, List.length_cons,
          List.length_map, List.length_cons] at hlen
        exact List.eq_nil_of_length_eq_zero (by omega)
      have hcall : call.Quiet := ⟨h0, hnil⟩
      rw [List.flatMap_cons, hcall.cString, bytes, List.map_cons, List.singleton_append,
        List.cons.injEq] at heq
      exact List.forall_mem_cons.mpr ⟨hcall, ih heq.2 hrest⟩
  · induction body with
    | nil => rfl
    | cons call body ih =>
      obtain ⟨hcall, hrest⟩ := List.forall_mem_cons.mp hquiet
      rw [List.flatMap_cons, hcall.cString, ih hrest]
      rfl

/-- A body that is passed: its C strings are collected, and they do not add up to the
content length. -/
theorem Head.Declares.passes (hd : h.Declares L n) {body : List Call} {p : Parse}
    (hpass : Passes (Http.consume L) (h.inBody [] 0) body p) :
    ∃ k, p = h.inBody (body.flatMap Call.cString) k ∧
      (body ≠ [] → (body.flatMap Call.cString).length ≠ n.toNat) := by
  refine hpass.invariant (I := fun body p => ∃ k, p = h.inBody (body.flatMap Call.cString) k ∧
    (body ≠ [] → (body.flatMap Call.cString).length ≠ n.toNat))
    ⟨0, rfl, fun hne => absurd rfl hne⟩ ?_
  rintro pre p₁ call p₂ ⟨k, rfl, -⟩ hstep
  rw [hd.consume] at hstep
  split_ifs at hstep with hlt heq
  · cases hstep
  · obtain ⟨-, rfl⟩ := Prod.mk.inj hstep
    refine ⟨.ofNat n.toNat, ?_, fun _ => ?_⟩
    · rw [List.flatMap_append, List.flatMap_singleton]
    · rwa [List.flatMap_append, List.flatMap_singleton]
  · cases hstep
  · cases hstep

/-- A quiet body that is not yet complete is passed. -/
theorem Head.Declares.passes_quiet (hd : h.Declares L n) {body : List Call}
    (hquiet : ∀ call ∈ body, call.Quiet) (hlt : body.length < n.toNat) :
    ∃ k, Passes (Http.consume L) (h.inBody [] 0) body (h.inBody (Http.bytes body) k) := by
  induction body using List.reverseRecOn with
  | nil => exact ⟨0, passes_nil _⟩
  | append_singleton body call ih =>
    rw [List.length_append, List.length_singleton] at hlt
    obtain ⟨hbody, hcall⟩ := List.forall_mem_append.mp hquiet
    obtain ⟨k, hpass⟩ := ih hbody (by omega)
    refine ⟨.ofNat n.toNat, hpass.snoc ?_⟩
    have hlen : (Http.bytes body).length = body.length := List.length_map ..
    rw [hd.consume, hlen, if_pos (by omega), (List.forall_mem_singleton.mp hcall).cString,
      List.length_append, hlen, List.length_singleton, if_neg (by omega), bytes_snoc]

/-- **A quiet body is complete at its last byte.** -/
theorem Head.Declares.decides_quiet (hd : h.Declares L n) {body : List Call}
    (hquiet : ∀ call ∈ body, call.Quiet) (hlen : body.length = n.toNat) (hne : body ≠ []) :
    ∃ k, Decides (Http.consume L) (h.inBody [] 0) body .complete
      (h.inBody (Http.bytes body) k) := by
  rcases List.eq_nil_or_concat' body with rfl | ⟨init, last, rfl⟩
  · exact absurd rfl hne
  obtain ⟨hinit, hlast⟩ := List.forall_mem_append.mp hquiet
  rw [List.length_append, List.length_singleton] at hlen
  obtain ⟨k, hpass⟩ := hd.passes_quiet hinit (by omega)
  refine ⟨.ofNat n.toNat, hpass.decides ?_⟩
  have hbytes : (Http.bytes init).length = init.length := List.length_map ..
  rw [hd.consume, hbytes, if_pos (by omega), (List.forall_mem_singleton.mp hlast).cString,
    List.length_append, hbytes, List.length_singleton, if_pos hlen, bytes_snoc]

/-- **Only a quiet body is complete at its last byte** and collected as it is. -/
theorem Head.Declares.quiet_of_decides (hd : h.Declares L n) {body : List Call} {p : Parse}
    (hdec : Decides (Http.consume L) (h.inBody [] 0) body .complete p)
    (hlen : body.length = n.toNat) (hcontent : p.req.content = Http.bytes body) :
    ∀ call ∈ body, call.Quiet := by
  obtain ⟨pre, call, p₁, rfl, hpre, hlast⟩ := exists_of_scan_some hdec
  obtain ⟨k, rfl, hne⟩ := hd.passes hpre
  refine flatMap_cString_eq_iff.mp ?_
  have hbytes : (Http.bytes (pre ++ [call])).length = n.toNat := by
    rw [← hlen, Http.bytes, List.length_map]
  rw [hd.consume] at hlast
  split_ifs at hlast with hlt heq hlf
  · obtain ⟨-, rfl⟩ := Prod.mk.inj hlast
    rw [← hcontent, List.flatMap_append, List.flatMap_singleton]
    rfl
  · cases hlast
  · -- the byte fell through: the content was there before it
    obtain ⟨-, rfl⟩ := Prod.mk.inj hlast
    have hsame : (pre.flatMap Call.cString).length = n.toNat := by
      rw [← hbytes, ← hcontent]
      rfl
    have hnil : pre = [] := by
      by_contra hpre
      exact hne hpre hsame
    rw [hnil] at hsame hlen
    rw [← hlen] at hsame
    exact absurd hsame (by simp)
  · cases hlast

/-- **A quiet body is complete when its length is the content length**, unless that is 0. -/
theorem Head.Declares.length_of_decides (hd : h.Declares L n) (hn : n ≠ 0) {body : List Call}
    {p : Parse} (hdec : Decides (Http.consume L) (h.inBody [] 0) body .complete p)
    (hquiet : ∀ call ∈ body, call.Quiet) :
    body.length = n.toNat ∧ p.req.content = Http.bytes body := by
  obtain ⟨pre, call, p₁, rfl, hpre, hlast⟩ := exists_of_scan_some hdec
  obtain ⟨hqpre, hqlast⟩ := List.forall_mem_append.mp hquiet
  have hpos : 0 < n.toNat := Nat.pos_of_ne_zero fun h0 => hn (UInt64.toNat_inj.mp h0)
  have hcollected : ∀ calls : List Call, (∀ call ∈ calls, call.Quiet) →
      (calls.flatMap Call.cString).length = calls.length := by
    intro calls hcalls
    rw [flatMap_cString_eq_iff.mpr hcalls, Http.bytes, List.length_map]
  -- the first `n` bytes of a longer body would have completed it
  have hshort : pre.length < n.toNat := by
    by_contra hge
    rw [← List.take_append_drop n.toNat pre] at hpre
    obtain ⟨p₂, htake, -⟩ := hpre.split
    obtain ⟨-, -, hne⟩ := hd.passes htake
    have hlen : (pre.take n.toNat).length = n.toNat := by
      rw [List.length_take]
      omega
    refine hne (List.length_pos_iff.mp (by omega)) ?_
    rw [hcollected _ fun c hc => hqpre c (List.mem_of_mem_take hc), hlen]
  obtain ⟨k, rfl, -⟩ := hd.passes hpre
  rw [hd.consume, hcollected pre hqpre, if_pos hshort] at hlast
  split_ifs at hlast with heq
  · obtain ⟨-, rfl⟩ := Prod.mk.inj hlast
    have hall :
        pre.flatMap Call.cString ++ call.cString = (pre ++ [call]).flatMap Call.cString := by
      rw [List.flatMap_append, List.flatMap_singleton]
    refine ⟨?_, ?_⟩
    · rw [← heq, hall, hcollected _ hquiet]
    · rw [← flatMap_cString_eq_iff.mpr hquiet, ← hall]
      rfl
  · cases hlast

/-! ## Complete requests -/

/-- What is assumed of `lexical_cast<size_t>`: it reads decimal numerals that are in range,
and throws on those that are not. -/
def LexicalCast.Decimal (L : LexicalCast) : Prop :=
  ∀ ds, ds ≠ [] → (∀ c ∈ ds, Digit c) →
    L.toSize ds =
      if Json.digitsValue ds < 2 ^ 64 then some (.ofNat (Json.digitsValue ds)) else none

/-- A decimal numeral of `n`. -/
def Numeral (n : ℕ) (ds : List UInt8) : Prop :=
  ds ≠ [] ∧ (∀ c ∈ ds, Digit c) ∧ Json.digitsValue ds = n

instance (n : ℕ) (ds : List UInt8) : Decidable (Numeral n ds) :=
  inferInstanceAs (Decidable (_ ∧ _ ∧ _))

/-- A conversion that takes unsigned decimals in range and nothing else. -/
def strictCast : LexicalCast where
  toSize t :=
    if t ≠ [] ∧ (∀ c ∈ t, Digit c) ∧ Json.digitsValue t < 2 ^ 64 then
      some (.ofNat (Json.digitsValue t))
    else none
  toInt t :=
    if t ≠ [] ∧ (∀ c ∈ t, Digit c) ∧ Json.digitsValue t < 2 ^ 31 then
      some (.ofNat (Json.digitsValue t))
    else none

theorem strictCast_decimal : strictCast.Decimal := by
  intro ds hne hds
  simp only [strictCast, hne, ne_eq, not_false_eq_true, true_and]
  by_cases hlt : Json.digitsValue ds < 2 ^ 64
  · rw [if_pos ⟨hds, hlt⟩, if_pos hlt]
  · rw [if_neg fun h => hlt h.2, if_neg hlt]

/-- However the calls are cut, the parser wants more before the last one and is complete
at it, with this content. -/
structure Completes (L : LexicalCast) (calls : List Call) (content : List UInt8) : Prop where
  /-- every proper prefix leaves it open -/
  more : ∀ chunks, chunks.flatten <+: calls → chunks.flatten ≠ calls →
    (parse L chunks).verdict = none
  /-- the last byte completes it -/
  last : ∀ chunks, chunks.flatten = calls →
    ∃ p, parse L chunks = ⟨some .complete, p, []⟩ ∧ p.req.content = content

/-- A run that is decided at its last symbol is open before it. -/
theorem completes_of_decides {calls : List Call} {p : Parse}
    (hdec : Decides (consume L) .fresh calls .complete p) : Completes L calls p.req.content := by
  refine ⟨fun chunks hpre hne => ?_, fun chunks heq => ⟨p, ?_, rfl⟩⟩
  · obtain ⟨init, last, p₁, rfl, hinit, -⟩ := exists_of_scan_some hdec
    rcases List.prefix_concat_iff.mp hpre with heq | hprefix
    · exact absurd heq hne
    · obtain ⟨rest, hrest⟩ := hprefix
      rw [← hrest] at hinit
      obtain ⟨p₂, hpass, -⟩ := hinit.split
      rw [parse, scanChunks_eq]
      exact congrArg Scan.verdict hpass
  · rw [parse, scanChunks_eq, heq]
    exact hdec

/-- **Which `POST` requests are taken.** A request with exactly one `Content-Length`, a
numeral of `n`, and a body of `n` bytes is open before its last byte and complete at it,
with the body as its content, if and only if the body is not empty, its length is a
`size_t`, no byte of it is a NUL, and a NUL lies behind the byte in each call. -/
theorem post_complete_iff (hL : L.Decimal) (h : Head) (hpost : h.target.method = post) {n : ℕ}
    {ds : List UInt8} (hds : Numeral n ds)
    (hone : h.headers.filter (fun d => d.name = Request.contentLength) =
      [⟨Request.contentLength, ds⟩])
    {before body : List Call} (hbefore : bytes before = h.bytes ++ crlf) (hbody : body.length = n) :
    Completes L (before ++ body) (bytes body) ↔
      0 < n ∧ n < 2 ^ 64 ∧ ∀ call ∈ body, call.input ≠ 0 ∧ call.stack.behind.val = [] := by
  have hget : h.target.method ≠ get := by
    rw [hpost]
    decide
  have hpass : Passes (consume L) .fresh before (h.inBody [] 0) := h.passes_crlf hget hbefore
  have hlength : h.contentLength = some ds := by
    rw [Head.contentLength, ← List.head?_filter, hone]
    rfl
  have hsize := hL ds hds.1 hds.2.1
  rw [hds.2.2] at hsize
  have hdeclares : n < 2 ^ 64 → h.Declares L (.ofNat n) ∧ (UInt64.ofNat n).toNat = n := by
    intro hlt
    rw [if_pos hlt] at hsize
    exact ⟨⟨ds, hlength, hsize⟩, UInt64.toNat_ofNat_of_lt' hlt⟩
  refine ⟨fun hc => ?_, ?_⟩
  · obtain ⟨p, hparse, hcontent⟩ := hc.last [before ++ body] (List.append_nil _)
    rw [parse, scanChunks_eq, List.flatten_singleton, hpass.scan_append] at hparse
    have hne : body ≠ [] := by
      rintro rfl
      exact absurd (congrArg Scan.verdict hparse) (Option.some_ne_none _).symm
    have hlt : n < 2 ^ 64 := by
      -- otherwise the first byte of the body makes the conversion throw
      by_contra hge
      obtain ⟨call, rest, rfl⟩ := List.exists_cons_of_ne_nil hne
      rw [if_neg hge] at hsize
      rw [scan_cons_some (consume_inBody_threw hlength hsize)] at hparse
      exact absurd (Option.some.inj (congrArg Scan.verdict hparse)) (by decide)
    obtain ⟨hd, hn⟩ := hdeclares hlt
    refine ⟨hbody ▸ List.length_pos_iff.mpr hne, hlt, ?_⟩
    exact hd.quiet_of_decides hparse (hbody.trans hn.symm) hcontent
  · rintro ⟨hpos, hlt, hquiet⟩
    obtain ⟨hd, hn⟩ := hdeclares hlt
    have hne : body ≠ [] := List.length_pos_iff.mp (hbody ▸ hpos)
    obtain ⟨k, hdec⟩ := hd.decides_quiet hquiet (hbody.trans hn.symm) hne
    exact completes_of_decides ((hpass.scan_append body).trans hdec)

/-- `"POST / HTTP/1.0"` and a header `Content-Length` of one digit. -/
def postRoot (d : Fin 10) : Head where
  target := ⟨post, [47], by decide, by decide, by decide⟩
  major := [49]
  minor := [48]
  lines := [⟨Request.contentLength, [48 + .ofNat d], [], by decide, by decide,
    by revert d; decide⟩]
  major_ne := by decide
  major_digit := by decide
  minor_ne := by decide
  minor_digit := by decide

/-- Calls with a NUL behind each byte. -/
def quietCalls (t : List UInt8) : List Call := t.map fun c => ⟨c, ⟨0, .empty⟩⟩

theorem bytes_quietCalls (t : List UInt8) : bytes (quietCalls t) = t := by
  rw [bytes, quietCalls, List.map_map]
  exact List.map_id t

/-- A body of two bytes is taken. -/
theorem post_complete_two :
    Completes strictCast (quietCalls ((postRoot 2).bytes ++ crlf) ++ quietCalls [97, 98])
      [97, 98] := by
  have hds : Numeral 2 [50] := by decide
  exact (post_complete_iff strictCast_decimal (postRoot 2) rfl hds (by decide) (bytes_quietCalls _)
    rfl).mpr ⟨by decide, by decide, by decide⟩

/-- An empty body is not: the parser goes on waiting for a byte. -/
theorem post_empty_open :
    strictCast.Decimal ∧ (postRoot 0).target.method = post ∧ Numeral 0 [48] ∧
      (postRoot 0).headers.filter (fun d => d.name = Request.contentLength) =
        [⟨Request.contentLength, [48]⟩] ∧
      ¬ Completes strictCast (quietCalls ((postRoot 0).bytes ++ crlf)) [] := by
  refine ⟨strictCast_decimal, rfl, by decide, by decide, fun hc => ?_⟩
  obtain ⟨p, hparse, -⟩ := hc.last [_] (List.flatten_singleton)
  have hpass : Passes (consume strictCast) .fresh (quietCalls ((postRoot 0).bytes ++ crlf)) _ :=
    (postRoot 0).passes_crlf (by decide) (bytes_quietCalls _)
  rw [parse, scanChunks_eq, List.flatten_singleton] at hparse
  exact absurd (congrArg Scan.verdict (hpass.symm.trans hparse)) (Option.some_ne_none _).symm

/-! ## Requests that are taken -/

/-- A request that is complete and no `GET`, cut behind the empty line. -/
theorem decides_body {calls before body : List Call} {p : Parse}
    (hdec : Decides (consume L) .fresh calls .complete p) (hmethod : p.req.method ≠ get)
    (hcalls : calls = before ++ body) (hbefore : bytes before = h.bytes ++ crlf) :
    Decides (consume L) (h.inBody [] 0) body .complete p := by
  have hget : h.target.method ≠ get := by
    intro hget
    obtain ⟨init, last, p₁, rfl, hinit, hlast⟩ := exists_of_scan_some (h.decides hget hbefore)
    rw [Decides, hcalls, List.append_assoc, hinit.scan_append, List.singleton_append,
      scan_cons_some hlast, Scan.mk.injEq] at hdec
    exact hmethod (hdec.2.1 ▸ hget)
  rw [Decides, hcalls, (h.passes_crlf hget hbefore).scan_append] at hdec
  exact hdec

/-- **Which requests that are taken are requests.** When the parser is complete at the last
byte and the method is not `GET`, the bytes are a head, an empty line and as many bytes of
content as the first `Content-Length` says, if and only if they are a head and an empty
line, the first `Content-Length` is a number other than 0, no byte behind them is a NUL,
and a NUL lies behind the byte in each of these calls. -/
theorem post_sound_iff {chunks : List (List Call)} {p : Parse}
    (hparse : parse L chunks = ⟨some .complete, p, []⟩) (hmethod : p.req.method ≠ get) :
    (∃ (h : Head) (n : UInt64) (before body : List Call), chunks.flatten = before ++ body ∧
        bytes before = h.bytes ++ crlf ∧ h.Declares L n ∧ body.length = n.toNat ∧
        p.req.content = bytes body) ↔
      ∃ (h : Head) (n : UInt64) (before body : List Call), chunks.flatten = before ++ body ∧
        bytes before = h.bytes ++ crlf ∧ h.Declares L n ∧ n ≠ 0 ∧
        ∀ call ∈ body, call.input ≠ 0 ∧ call.stack.behind.val = [] := by
  rw [parse, scanChunks_eq] at hparse
  refine ⟨?_, ?_⟩
  · rintro ⟨h, n, before, body, hcalls, hbefore, hd, hlen, hcontent⟩
    have hdec := decides_body hparse hmethod hcalls hbefore
    refine ⟨h, n, before, body, hcalls, hbefore, hd, ?_, hd.quiet_of_decides hdec hlen hcontent⟩
    rintro rfl
    obtain rfl : body = [] := List.eq_nil_of_length_eq_zero hlen
    exact absurd (congrArg Scan.verdict hdec) (Option.some_ne_none _).symm
  · rintro ⟨h, n, before, body, hcalls, hbefore, hd, hne, hquiet⟩
    have hdec := decides_body hparse hmethod hcalls hbefore
    obtain ⟨hlen, hcontent⟩ := hd.length_of_decides hne hdec hquiet
    exact ⟨h, n, before, body, hcalls, hbefore, hd, hlen, hcontent⟩

/-- A request with a body of one byte is taken and is one. -/
theorem post_sound_one :
    ∃ p, parse strictCast [quietCalls ((postRoot 1).bytes ++ crlf ++ [88])] =
        ⟨some .complete, p, []⟩ ∧ p.req.method ≠ get ∧
      ∃ (h : Head) (n : UInt64) (before body : List Call),
        [quietCalls ((postRoot 1).bytes ++ crlf ++ [88])].flatten = before ++ body ∧
        bytes before = h.bytes ++ crlf ∧ h.Declares strictCast n ∧ body.length = n.toNat ∧
        p.req.content = bytes body := by
  have hpass : Passes (consume strictCast) .fresh (quietCalls ((postRoot 1).bytes ++ crlf)) _ :=
    (postRoot 1).passes_crlf (by decide) (bytes_quietCalls _)
  have hd : (postRoot 1).Declares strictCast 1 := ⟨[49], by decide, by decide⟩
  have hquiet : ∀ call ∈ quietCalls [88], call.Quiet := by decide
  obtain ⟨k, hdec⟩ := hd.decides_quiet hquiet rfl (by decide)
  have hparse : parse strictCast [quietCalls ((postRoot 1).bytes ++ crlf ++ [88])] =
      ⟨some .complete, (postRoot 1).inBody [88] k, []⟩ := by
    rw [parse, scanChunks_eq, List.flatten_singleton, quietCalls, List.map_append]
    exact (hpass.scan_append _).trans hdec
  have hmethod : post ≠ get := by decide
  refine ⟨_, hparse, hmethod, (post_sound_iff hparse hmethod).mpr ?_⟩
  exact ⟨postRoot 1, 1, quietCalls ((postRoot 1).bytes ++ crlf), quietCalls [88], rfl,
    bytes_quietCalls _, hd, by decide, by decide⟩

/-- A line feed behind a request with the content length 0 is taken, and is no body. -/
theorem post_line_feed_taken :
    ∃ p, parse strictCast [quietCalls ((postRoot 0).bytes ++ crlf ++ [10])] =
        ⟨some .complete, p, []⟩ ∧ p.req.method ≠ get ∧
      ¬ ∃ (h : Head) (n : UInt64) (before body : List Call),
        [quietCalls ((postRoot 0).bytes ++ crlf ++ [10])].flatten = before ++ body ∧
        bytes before = h.bytes ++ crlf ∧ h.Declares strictCast n ∧ body.length = n.toNat ∧
        p.req.content = bytes body := by
  have hpass : Passes (consume strictCast) .fresh (quietCalls ((postRoot 0).bytes ++ crlf)) _ :=
    (postRoot 0).passes_crlf (by decide) (bytes_quietCalls _)
  have hd : (postRoot 0).Declares strictCast 0 := ⟨[48], by decide, by decide⟩
  have hdec : Decides (consume strictCast) .fresh (quietCalls ((postRoot 0).bytes ++ crlf ++ [10]))
      .complete ((postRoot 0).inBody [] 0) := by
    rw [quietCalls, List.map_append]
    exact hpass.decides hd.consume
  have hmethod : ((postRoot 0).inBody [] 0).req.method ≠ get := by decide
  refine ⟨(postRoot 0).inBody [] 0, ?_, hmethod, ?_⟩
  · rw [parse, scanChunks_eq, List.flatten_singleton]
    exact hdec
  · rintro ⟨h, n, before, body, hcalls, hbefore, -, -, hcontent⟩
    rw [List.flatten_singleton] at hcalls
    obtain rfl : body = [] := List.map_eq_nil_iff.mp hcontent.symm
    -- then the parser would have been complete without a byte of a body
    exact absurd (congrArg Scan.verdict (decides_body hdec hmethod hcalls hbefore))
      (Option.some_ne_none _).symm

/-! ## The indeterminate length -/

/-- What two calls have in common that differ in the initial contents of `cont_len` only. -/
def Call.seen (call : Call) : UInt8 × CString := (call.input, call.stack.behind)

/-- Outside the body only the byte matters. -/
theorem consume_congr {p : Parse} (hst : p.state ≠ .httpPostContent) {a b : Call}
    (hab : a.input = b.input) : consume L p a = consume L p b := by
  obtain ⟨st, req⟩ := p
  cases st with
  | httpPostContent => exact absurd rfl hst
  | _ => simp only [consume, hab]

/-- In the body of a request with a content length, `cont_len` does not. -/
theorem consume_congr_of_length {v : List UInt8} (hv : h.contentLength = some v) {a b : Call}
    (hab : a.seen = b.seen) :
    consume L (h.inBody content k) a = consume L (h.inBody content k) b := by
  obtain ⟨hinput, hbehind⟩ := Prod.mk.inj hab
  have hcString : a.cString = b.cString := by rw [Call.cString, Call.cString, hinput, hbehind]
  rw [consume_eq_consumeContent, consume_eq_consumeContent, consumeContent, consumeContent,
    getContentLength_of_some hv, getContentLength_of_some hv, hcString, hinput]

/-- The call that finds `n` in `cont_len`. -/
def Call.withContLen (n : UInt64) (x : UInt8 × CString) : Call := ⟨x.1, ⟨n, x.2⟩⟩

theorem map_seen_withContLen (n : UInt64) (s : List (UInt8 × CString)) :
    (s.map (Call.withContLen n)).map Call.seen = s := by
  rw [List.map_map]
  exact List.map_id s

/-- Without one it does: from 0 to 1 or 2 the first byte of the body changes its verdict. -/
theorem exists_contLen_ne (hnone : h.contentLength = none) (x : UInt8 × CString) :
    ∃ n : UInt64, (consume L (h.inBody [] 0) (.withContLen 0 x)).1 ≠
      (consume L (h.inBody [] 0) (.withContLen n x)).1 := by
  have hconsume : ∀ n : UInt64, n ≠ 0 → (Call.withContLen n x).cString.length ≠ n.toNat →
      (consume L (h.inBody [] 0) (.withContLen n x)).1 = none := by
    intro n hn hlen
    have hpos : 0 < n.toNat := Nat.pos_of_ne_zero fun h0 => hn (UInt64.toNat_inj.mp h0)
    rw [consume_inBody (getContentLength_of_none hnone n), List.length_nil, if_pos hpos,
      List.nil_append, if_neg hlen]
  have hzero : (consume L (h.inBody [] 0) (.withContLen 0 x)).1 ≠ none := by
    rw [consume_inBody (getContentLength_of_none hnone 0), List.length_nil,
      if_neg (by decide : ¬ 0 < (0 : UInt64).toNat)]
    exact Option.some_ne_none _
  -- a C string of length 1 would complete a length of 1 but not of 2
  by_cases hone : (Call.withContLen 1 x).cString.length = 1
  · refine ⟨2, ?_⟩
    have htwo : (Call.withContLen 2 x).cString.length = 1 := hone
    rw [hconsume 2 (by decide) (by rw [htwo]; decide)]
    exact hzero
  · refine ⟨1, ?_⟩
    rw [hconsume 1 (by decide) hone]
    exact hzero

/-- What the parser says to the first byte of a body. -/
theorem verdict_first (hget : h.target.method ≠ get) {before : List (UInt8 × CString)} {c : UInt8}
    (hbefore : before.map Prod.fst = h.bytes ++ [13, c]) (x : UInt8 × CString)
    (after : List (UInt8 × CString)) (n : UInt64) :
    (scan (consume L) .fresh
        (((before ++ x :: after).map (Call.withContLen n)).take (before.length + 1))).verdict =
      (consume L (h.inBody [] 0) (.withContLen n x)).1 := by
  have htake : ((before ++ x :: after).map (Call.withContLen n)).take (before.length + 1) =
      before.map (Call.withContLen n) ++ [.withContLen n x] := by
    rw [← List.map_take, List.take_length_add_append, List.map_append]
    rfl
  have hbytes : bytes (before.map (Call.withContLen n)) = h.bytes ++ [13, c] := by
    rw [← hbefore, bytes, List.map_map]
    rfl
  rw [htake, (h.passes_crlf hget hbytes).scan_append, scan]
  rcases consume L (h.inBody [] 0) (.withContLen n x) with ⟨_ | w, p⟩ <;> rfl

/-- **When `cont_len` does not matter.** Two runs over the same bytes that differ only in
the initial contents of `cont_len` return the same at every byte and build the same
request, if and only if the bytes do not go beyond the empty line of a request that is no
`GET` and has no header `Content-Length`. -/
theorem contLen_irrelevant_iff (L : LexicalCast) (s : List (UInt8 × CString)) :
    (∀ calls₁ calls₂ : List Call, calls₁.map Call.seen = s → calls₂.map Call.seen = s →
        ∀ k, (parse L [calls₁.take k]).verdict = (parse L [calls₂.take k]).verdict ∧
          (parse L [calls₁.take k]).state = (parse L [calls₂.take k]).state) ↔
      ∀ (h : Head) (c : UInt8) (rest : List UInt8), h.target.method ≠ get →
        s.map Prod.fst = h.bytes ++ 13 :: c :: rest → rest ≠ [] → h.contentLength ≠ none := by
  simp only [parse, scanChunks_eq, List.flatten_singleton]
  refine ⟨fun hsame h c rest hget hs hrest hnone => ?_, fun hlen calls₁ calls₂ h₁ h₂ k => ?_⟩
  · obtain ⟨before, x, after, rfl, hbefore⟩ := exists_beyond hs hrest
    obtain ⟨n, hn⟩ := exists_contLen_ne (L := L) hnone x
    have hfirst := (hsame _ _ (map_seen_withContLen 0 _) (map_seen_withContLen n _)
      (before.length + 1)).1
    rw [verdict_first hget hbefore, verdict_first hget hbefore] at hfirst
    exact hn hfirst
  · have hrel : List.Forall₂ (fun a b => Call.seen a = Call.seen b) (calls₁.take k)
        (calls₂.take k) := by
      refine List.forall₂_take k (List.forall₂_map_right_iff.mp (List.forall₂_map_left_iff.mp ?_))
      rw [h₁, h₂, List.forall₂_eq_eq_eq]
    refine scan_agree hrel fun pre a b p hpre hpass hab => ?_
    by_cases hst : p.state = .httpPostContent
    · -- the bytes have gone beyond the empty line, so there is a content length
      obtain ⟨h, c, before, body, content, n, hget, rfl, hbefore, rfl⟩ := exists_inBody hpass hst
      obtain ⟨rest, rfl⟩ := hpre.trans (List.take_prefix k calls₁)
      have hs : s.map Prod.fst = h.bytes ++ 13 :: c :: bytes (body ++ a :: rest) := by
        rw [← bytes_beyond hbefore, ← h₁, List.map_map, bytes]
        simp only [List.append_assoc, List.singleton_append]
        rfl
      obtain ⟨v, hv⟩ := Option.ne_none_iff_exists'.mp (hlen h c _ hget hs (by simp [bytes]))
      exact consume_congr_of_length hv hab
    · exact consume_congr hst (congrArg Prod.fst hab)

/-- `"POST / HTTP/1.0"`, an empty line and `"X"`: with a `cont_len` of 0 the last byte is
refused, with 1 it completes the request. -/
theorem contLen_decides_without_length :
    ∃ calls₁ calls₂ : List Call, calls₁.map Call.seen = calls₂.map Call.seen ∧
      (parse strictCast [calls₁]).verdict ≠ (parse strictCast [calls₂]).verdict := by
  let text : List UInt8 :=
    [80, 79, 83, 84, 32, 47, 32, 72, 84, 84, 80, 47, 49, 46, 48, 13, 10, 13, 10, 88]
  exact ⟨text.map fun c => .withContLen 0 (c, .empty), text.map fun c => .withContLen 1 (c, .empty),
    by decide, by decide +kernel⟩

end Http

end MyServer
