import MyServer.JsonReader
import MyServer.Tighten
import Mathlib.Algebra.Group.Nat.Even

/-!
# What tightening leaves of a written object

The database layer writes a JSON object with `toStyledString`, runs the text through
`tighten` and hands it to the database, which reads it as JSON. This module computes what
is read, for objects whose members are integers and strings (`read_tighten`).

The white space of the writer does not matter to the reader, whether it is dropped or
kept. The strings do: `tighten` takes the quotes inside a string, which the writer
escapes, for the ends of strings. So after an odd number of quotes it drops blanks that
belong to the string (`squeeze`), and a string with an odd number of quotes inverts the
flag for the rest of the text (`flagAfter`).
-/

namespace MyServer

/-! ## The flag -/

/-- The flag after a text: flipped at each quote. -/
def flagAfter (inString : Bool) (s : List UInt8) : Bool :=
  s.foldl (fun f c => if c = 34 then !f else f) inString

@[simp] theorem flagAfter_nil (f : Bool) : flagAfter f [] = f := rfl

@[simp] theorem flagAfter_cons (f : Bool) (c : UInt8) (s : List UInt8) :
    flagAfter f (c :: s) = flagAfter (if c = 34 then !f else f) s := rfl

/-- The flag counts quotes, so it can be carried over from one part of a text to the next. -/
@[simp] theorem flagAfter_append (f : Bool) (s t : List UInt8) :
    flagAfter f (s ++ t) = flagAfter (flagAfter f s) t := List.foldl_append ..

/-- Turned over at the start, it is turned over at the end: each quote turns it once in either
case. -/
theorem flagAfter_not (f : Bool) (s : List UInt8) : flagAfter (!f) s = !flagAfter f s := by
  induction s generalizing f with
  | nil => rfl
  | cons c s ih =>
    rw [flagAfter_cons, flagAfter_cons]
    split_ifs
    · exact ih (!f)
    · exact ih f

/-- `tighten` works from left to right with one flag, so a text in two parts is tightened in two
parts. -/
theorem tightenFrom_append (f : Bool) (s t : List UInt8) :
    tightenFrom f (s ++ t) = tightenFrom f s ++ tightenFrom (flagAfter f s) t := by
  induction s generalizing f with
  | nil => rfl
  | cons c s ih =>
    rw [List.cons_append, tightenFrom, tightenFrom, flagAfter_cons]
    split_ifs with hblank hquote hquote
    -- a blank is no quote
    · subst hquote
      exact absurd hblank (by cases f <;> decide)
    · exact ih f
    · exact congrArg (c :: ·) (ih (!f))
    · exact congrArg (c :: ·) (ih f)

/-- What is left of a text keeps the flag it had, so it is left alone the next time. -/
theorem tightenFrom_tightenFrom (f : Bool) (s : List UInt8) :
    tightenFrom f (tightenFrom f s) = tightenFrom f s := by
  induction s generalizing f with
  | nil => rfl
  | cons c s ih =>
    rw [tightenFrom]
    split_ifs with hblank hquote
    · exact ih f
    · rw [tightenFrom, if_neg hblank, if_pos hquote, ih]
    · rw [tightenFrom, if_neg hblank, if_neg hquote, ih]

/-- What is left has nothing that goes: the quotes are all kept, so the flag is the same the
second time. -/
theorem tighten_tighten (s : List UInt8) : tighten (tighten s) = tighten s :=
  tightenFrom_tightenFrom false s

/-- A text without white space and quotes. -/
def Quiet (s : List UInt8) : Prop := ∀ c ∈ s, isBlank c = false ∧ c ≠ 34

/-- Without quotes and white space there is nothing to take away and nothing to count. -/
theorem Quiet.tightenFrom {s : List UInt8} (h : Quiet s) (f : Bool) :
    tightenFrom f s = s ∧ flagAfter f s = f := by
  induction s with
  | nil => exact ⟨rfl, rfl⟩
  | cons c s ih =>
    obtain ⟨hblank, hquote⟩ := h c (List.mem_cons_self ..)
    obtain ⟨htext, hflag⟩ := ih fun d hd => h d (List.mem_cons_of_mem c hd)
    rw [MyServer.tightenFrom, flagAfter_cons, hblank, if_neg hquote, hflag, htext]
    exact ⟨rfl, rfl⟩

/-- White space under a flag. -/
def kept (f : Bool) (w : List UInt8) : List UInt8 := if f then w else []

/-- The white space the writer uses: line breaks and blanks. -/
def Breaks (w : List UInt8) : Prop := ∀ c ∈ w, c = 10 ∨ c = 32

theorem breaks_nil : Breaks [] := fun _ hc => absurd hc List.not_mem_nil

theorem Breaks.cons {c : UInt8} {w : List UInt8} (hc : c = 10 ∨ c = 32) (hw : Breaks w) :
    Breaks (c :: w) := List.forall_mem_cons.mpr ⟨hc, hw⟩

theorem breaks_blank : Breaks [32] := breaks_nil.cons (.inr rfl)

theorem breaks_line : Breaks [10, 32, 32, 32] :=
  ((breaks_blank.cons (.inr rfl)).cons (.inr rfl)).cons (.inl rfl)

theorem breaks_break : Breaks [10] := breaks_nil.cons (.inl rfl)

/-- They go when the flag is off; the flag stays. -/
theorem tightenFrom_blanks {w : List UInt8} (hw : Breaks w) (f : Bool) :
    tightenFrom f w = kept f w ∧ flagAfter f w = f := by
  induction w with
  | nil => cases f <;> exact ⟨rfl, rfl⟩
  | cons c w ih =>
    obtain ⟨htext, hflag⟩ := ih fun d hd => hw d (List.mem_cons_of_mem c hd)
    have hc : isBlank c = true ∧ c ≠ 34 := by
      rcases hw c (List.mem_cons_self ..) with rfl | rfl <;> decide
    rw [tightenFrom, flagAfter_cons, hc.1, if_neg hc.2, hflag, htext]
    cases f <;> exact ⟨rfl, rfl⟩

namespace Json

/-- What is left of white space is white space. -/
theorem blank_kept {w : List UInt8} (hw : Breaks w) (f : Bool) : Blank (kept f w) := by
  cases f with
  | false => exact blank_nil
  | true =>
    intro c hc
    rcases hw c hc with rfl | rfl <;> decide

end Json

/-! ## Strings -/

/-- What is left of a string: without the blanks met while the flag is off. -/
def squeeze : Bool → List UInt8 → List UInt8
  | _, [] => []
  | f, c :: s =>
    if c = 32 ∧ f = false then squeeze f s else c :: squeeze (if c = 34 then !f else f) s

/-- A string can only lose blanks. -/
theorem squeeze_sublist (f : Bool) (s : List UInt8) : List.Sublist (squeeze f s) s := by
  induction s generalizing f with
  | nil => exact List.Sublist.slnil
  | cons c s ih =>
    rw [squeeze]
    split_ifs with h1 h2
    · exact (ih f).cons c
    · exact (ih (!f)).cons_cons c
    · exact (ih f).cons_cons c

/-- `squeeze` on C strings. -/
def CString.squeeze (f : Bool) (s : CString) : CString :=
  ⟨MyServer.squeeze f s.val, fun h => s.property ((squeeze_sublist f s.val).subset h)⟩

/-! ### Which strings survive -/

/-- As for a text: the flag is carried over. -/
theorem squeeze_append (f : Bool) (s t : List UInt8) :
    squeeze f (s ++ t) = squeeze f s ++ squeeze (flagAfter f s) t := by
  induction s generalizing f with
  | nil => rfl
  | cons c s ih =>
    rw [List.cons_append, squeeze, squeeze, flagAfter_cons]
    split_ifs with hblank hquote hquote
    · exact absurd (hquote ▸ hblank.1) (by decide)
    · exact ih f
    · exact congrArg (c :: ·) (ih (!f))
    · exact congrArg (c :: ·) (ih f)

/-- A string survives if the flag is on at each of its blanks. -/
theorem squeeze_eq_self_iff {f : Bool} {s : List UInt8} :
    squeeze f s = s ↔ ∀ pre post, s = pre ++ 32 :: post → flagAfter f pre = true := by
  induction s generalizing f with
  | nil => exact iff_of_true rfl fun pre post h => absurd h (by simp)
  | cons c s ih =>
    rw [squeeze]
    by_cases hdrop : c = 32 ∧ f = false
    · obtain ⟨rfl, rfl⟩ := hdrop
      rw [if_pos ⟨rfl, rfl⟩]
      refine iff_of_false ?_ ?_
      · intro heq
        have hle := (squeeze_sublist false s).length_le
        rw [heq, List.length_cons] at hle
        exact Nat.not_succ_le_self _ hle
      · intro hall
        exact Bool.noConfusion (hall [] s rfl)
    · rw [if_neg hdrop, List.cons.injEq, and_iff_right rfl, ih]
      refine ⟨?_, ?_⟩
      · intro hall pre post heq
        cases pre with
        | nil =>
          have hc : c = 32 := (List.cons.inj heq).1
          exact (Bool.not_eq_false f).mp fun hf => hdrop ⟨hc, hf⟩
        | cons d pre =>
          obtain ⟨rfl, htail⟩ := List.cons.inj heq
          exact hall pre post htail
      · intro hall pre post heq
        exact hall (c :: pre) post (by rw [heq]; rfl)

/-- From a flag that is on, it is on after an even number of quotes. -/
theorem flagAfter_eq_true_iff (s : List UInt8) :
    flagAfter true s = true ↔ Even (s.count 34) := by
  induction s with
  | nil => exact iff_of_true rfl (by simp)
  | cons c s ih =>
    rw [flagAfter_cons]
    split_ifs with hquote
    · rw [hquote, List.count_cons_self, flagAfter_not, Nat.even_add_one, ← ih, Bool.not_eq_true',
        Bool.not_eq_true]
    · rw [List.count_cons_of_ne hquote, ih]

/-- Only quotes turn the flag. -/
theorem flagAfter_of_noQuote {s : List UInt8} (h : 34 ∉ s) (f : Bool) : flagAfter f s = f := by
  induction s with
  | nil => rfl
  | cons c s ih =>
    rw [List.mem_cons, not_or] at h
    rw [flagAfter_cons, if_neg (Ne.symm h.1), ih h.2]

/-- A string without quotes survives. -/
theorem squeeze_of_noQuote {s : List UInt8} (h : 34 ∉ s) : squeeze true s = s := by
  refine squeeze_eq_self_iff.mpr fun pre post heq => flagAfter_of_noQuote (fun hmem => h ?_) true
  rw [heq]
  exact List.mem_append_left _ hmem

/-- Nor does one without blanks lose any. -/
theorem CString.squeeze_of_noBlank {k : CString} (h : 32 ∉ k.val) (f : Bool) : k.squeeze f = k := by
  refine Subtype.ext (squeeze_eq_self_iff.mpr fun pre post heq => ?_)
  exact absurd (heq ▸ List.mem_append_right pre (List.mem_cons_self ..)) h

/-- Quotes are never dropped. -/
theorem quote_mem_squeeze {f : Bool} {s : List UInt8} (h : 34 ∈ s) : 34 ∈ squeeze f s := by
  induction s generalizing f with
  | nil => exact absurd h List.not_mem_nil
  | cons c s ih =>
    rw [squeeze]
    rcases List.mem_cons.mp h with rfl | h
    · rw [if_neg fun hc => absurd hc.1 (by decide)]
      exact List.mem_cons_self ..
    · split_ifs
      · exact ih h
      · exact List.mem_cons_of_mem c (ih h)
      · exact List.mem_cons_of_mem c (ih h)

/-- **A string without quotes is the only one that becomes it.** -/
theorem squeeze_inj_of_noQuote {s t : List UInt8} (hs : 34 ∉ s)
    (h : squeeze true t = squeeze true s) : t = s := by
  rw [squeeze_of_noQuote hs] at h
  have ht : 34 ∉ t := fun hmem => hs (h ▸ quote_mem_squeeze hmem)
  rwa [squeeze_of_noQuote ht] at h

/-- **A string with a quote is not**: a blank behind its first quote goes. -/
theorem exists_squeeze_eq {s : CString} (hs : 34 ∈ s.val) :
    ∃ t : CString, t ≠ s ∧ t.squeeze true = s.squeeze true := by
  obtain ⟨pre, post, heq, hpre⟩ := List.eq_append_cons_of_mem hs
  have hzero : 0 ∉ pre ++ 34 :: 32 :: post := by
    have h0 := s.property
    rw [heq] at h0
    simp only [List.mem_append, List.mem_cons, not_or] at h0 ⊢
    exact ⟨h0.1, h0.2.1, by decide, h0.2.2⟩
  refine ⟨⟨pre ++ 34 :: 32 :: post, hzero⟩, ?_, Subtype.ext ?_⟩
  · intro h
    have hlen := congrArg (fun t : CString => t.val.length) h
    simp only [heq, List.length_append, List.length_cons] at hlen
    omega
  · rw [CString.squeeze, CString.squeeze]
    simp only [heq, squeeze_append, flagAfter_of_noQuote hpre]
    rfl

/-! ### The text of a string -/

/-- One character: a blank under the flag goes, and only a quote flips the flag. -/
theorem tightenFrom_escapeChar (f : Bool) (c : UInt8) :
    tightenFrom f (Json.escapeChar c) =
        (if c = 32 ∧ f = false then [] else Json.escapeChar c) ∧
      flagAfter f (Json.escapeChar c) = if c = 34 then !f else f := by
  refine Json.forall_byte (P := fun c => ∀ f, tightenFrom f (Json.escapeChar c) =
        (if c = 32 ∧ f = false then [] else Json.escapeChar c) ∧
      flagAfter f (Json.escapeChar c) = if c = 34 then !f else f) ?_ c f
  decide +kernel

/-- **Tightening an escaped string squeezes the string.** -/
theorem tightenFrom_escape (f : Bool) (s : List UInt8) :
    tightenFrom f (Json.escape s) = Json.escape (squeeze f s) ∧
      flagAfter f (Json.escape s) = flagAfter f s := by
  induction s generalizing f with
  | nil => exact ⟨rfl, rfl⟩
  | cons c s ih =>
    obtain ⟨htext, hflag⟩ := tightenFrom_escapeChar f c
    obtain ⟨ihtext, ihflag⟩ := ih (if c = 34 then !f else f)
    rw [Json.escape, List.flatMap_cons, ← Json.escape, tightenFrom_append, flagAfter_append, htext,
      hflag, ihtext, ihflag, squeeze]
    refine ⟨?_, rfl⟩
    split_ifs with hblank hquote
    · exact absurd (hquote ▸ hblank.1) (by decide)
    · rfl
    · rw [Json.escape, Json.escape, List.flatMap_cons]
    · rw [Json.escape, Json.escape, List.flatMap_cons]

/-- **A string literal is tightened to a literal.** The writer puts a backslash in front of a
quote, but `tighten` counts the quote all the same; so the literal of the squeezed string comes
out, and the flag is off by the quotes in the string. -/
theorem tightenFrom_quoted (f : Bool) (s : CString) :
    tightenFrom f (Json.valueToQuotedString s) = Json.valueToQuotedString (s.squeeze !f) ∧
      flagAfter f (Json.valueToQuotedString s) = flagAfter f s.val := by
  obtain ⟨htext, hflag⟩ := tightenFrom_escape (!f) s.val
  have hquote : ∀ g, tightenFrom g [34] = [34] := by decide
  rw [Json.valueToQuotedString, ← List.singleton_append, tightenFrom_append, flagAfter_append,
    hquote, flagAfter_cons, if_pos rfl, flagAfter_nil, tightenFrom_append, flagAfter_append,
    htext, hflag, hquote, flagAfter_not]
  refine ⟨rfl, ?_⟩
  rw [flagAfter_cons, if_pos rfl, flagAfter_nil, Bool.not_not]

namespace Json

/-! ## Values -/

/-- The values considered here: integers and strings. -/
def Flat : Json → Prop
  | int _ => True
  | uint _ => True
  | str _ => True
  | _ => False

/-- What is read of a value whose text was tightened. -/
def squeezeValue (f : Bool) : Json → Json
  | str s => str (s.squeeze !f)
  | uint n => ofInteger n.toNat
  | v => v

/-- The flag after the text of a value. -/
def flagValue (f : Bool) : Json → Bool
  | str s => flagAfter f s.val
  | _ => f

/-- A run of digits is quiet. -/
theorem quiet_of_isDigit {ds : List UInt8} (h : ∀ c ∈ ds, isDigit c = true) : Quiet ds := by
  have hall : ∀ c : UInt8, isDigit c = true → isBlank c = false ∧ c ≠ 34 :=
    forall_byte (by decide +kernel)
  exact fun c hc => hall c (h c hc)

theorem Digits.quiet {value : ℕ} {ds : List UInt8} (h : Digits value ds) : Quiet ds :=
  quiet_of_isDigit h.digit

/-- A number is written with digits and a sign. -/
theorem quiet_intToString (n : Int32) : Quiet (intToString n) := by
  rw [intToString]
  split_ifs
  · intro c hc
    rcases List.mem_cons.mp hc with rfl | hc
    · decide
    · exact (uintToString_digits _).quiet c hc
  · exact (uintToString_digits _).quiet

/-- **Tightening the text of a value.** -/
theorem tightenFrom_scalarText (realText : ℚ → List UInt8) {v : Json} (hv : Flat v) (f : Bool) :
    Reads (tightenFrom f (scalarText realText v)) (squeezeValue f v) ∧
      flagAfter f (scalarText realText v) = flagValue f v := by
  cases v with
  | int n =>
    obtain ⟨htext, hflag⟩ := (quiet_intToString n).tightenFrom f
    rw [scalarText, htext, hflag]
    exact ⟨reads_int n, rfl⟩
  | uint n =>
    obtain ⟨htext, hflag⟩ := (uintToString_digits n).quiet.tightenFrom f
    rw [scalarText, htext, hflag]
    exact ⟨reads_uint n, rfl⟩
  | str s =>
    obtain ⟨htext, hflag⟩ := tightenFrom_quoted f s
    rw [scalarText, htext, hflag]
    exact ⟨reads_str _, rfl⟩
  | null | real _ | bool _ | arr _ | obj _ => exact absurd hv id

/-! ## The styled text of a flat object -/

/-- The document ends in something the writer does not take for white space. -/
def Closed (document : List UInt8) : Prop := ∃ c, document.getLast? = some c ∧ c ≠ 32 ∧ c ≠ 10

/-- Only the last byte matters for being closed. -/
theorem Closed.append {t : List UInt8} (h : Closed t) (document : List UInt8) :
    Closed (document ++ t) := by
  obtain ⟨c, hlast, hc⟩ := h
  exact ⟨c, by rw [List.getLast?_append, hlast]; rfl, hc⟩

/-- Behind a closed text the writer always begins a new line. -/
theorem Closed.writeIndent {document : List UInt8} (h : Closed document) (ind : ℕ) :
    writeIndent document ind = document ++ 10 :: List.replicate ind 32 := by
  obtain ⟨c, hlast, hblank, hbreak⟩ := h
  rw [Json.writeIndent, hlast]
  simp only [hblank, hbreak, if_false]

/-- A text without white space ends in a byte that is none. -/
theorem closed_of_quiet {s : List UInt8} (hne : s ≠ []) (h : Quiet s) : Closed s := by
  have hlast := (h _ (List.getLast_mem hne)).1
  refine ⟨s.getLast hne, List.getLast?_eq_some_getLast hne, ?_, ?_⟩
  · exact fun heq => absurd (heq ▸ hlast) (by decide)
  · exact fun heq => absurd (heq ▸ hlast) (by decide)

/-- So does every scalar: a literal ends in a quote, and the others are quiet. -/
theorem closed_scalarText (realText : ℚ → List UInt8) {v : Json} (hv : Flat v) :
    Closed (scalarText realText v) := by
  cases v with
  | int n =>
    refine closed_of_quiet ?_ (quiet_intToString n)
    rw [scalarText, intToString]
    split_ifs
    · exact List.cons_ne_nil _ _
    · exact (uintToString_digits _).ne_nil
  | uint n => exact closed_of_quiet (uintToString_digits n).ne_nil (uintToString_digits n).quiet
  | str s => exact Closed.append (t := [34]) ⟨34, rfl, by decide, by decide⟩ (34 :: escape s.val)
  | null | real _ | bool _ | arr _ | obj _ => exact absurd hv id

/-- The members of an object up to its closing brace, in an order of white space that the
styled writer and the database share: `line` before a member, `close` before the brace. -/
def membersText (line close : List UInt8) (text : Json → List UInt8) :
    List (CString × Json) → List UInt8
  | [] => close ++ [125]
  | (k, v) :: ms =>
    line ++ (valueToQuotedString k ++ ([32] ++ 58 :: (([32] ++ text v) ++
      (separated [] ms ++ membersText line close text ms))))

/-- The members as the styled writer sets them, one to a line. -/
def styledMembers (realText : ℚ → List UInt8) : List (CString × Json) → List UInt8 :=
  membersText [10, 32, 32, 32] [10] (scalarText realText)

/-- The members of a flat object are written line by line, each behind an indent of three blanks. -/
theorem writeMembers_flat (realText : ℚ → List UInt8) {ms : List (CString × Json)}
    (hms : ∀ m ∈ ms, Flat m.2) {document : List UInt8} (hdoc : Closed document) :
    writeWithIndent (writeMembers realText document 3 ms) 0 [125] =
      document ++ styledMembers realText ms := by
  induction ms generalizing document with
  | nil => rw [writeMembers, writeWithIndent, hdoc.writeIndent, List.append_assoc]; rfl
  | cons m ms ih =>
    obtain ⟨k, v⟩ := m
    have hv : Flat v := hms (k, v) (List.mem_cons_self ..)
    have hvalue : ∀ d, writeValue realText d 3 v = d ++ scalarText realText v := by
      intro d
      cases v with
      | int _ | uint _ | str _ => rw [writeValue]; all_goals exact fun _ h => nomatch h
      | null | real _ | bool _ | arr _ | obj _ => exact absurd hv id
    have hclosed : ∀ d, Closed (separated (d ++ scalarText realText v) ms) := by
      intro d
      rw [separated]
      split_ifs
      · exact (closed_scalarText realText hv).append d
      · exact Closed.append (t := [44]) ⟨44, rfl, by decide, by decide⟩ _
    have hseparated : ∀ d, separated d ms = d ++ separated [] ms := by
      intro d
      rw [separated, separated]
      split_ifs
      · exact (List.append_nil d).symm
      · rfl
    rw [writeMembers, hvalue, ih (fun m hm => hms m (List.mem_cons_of_mem _ hm)) (hclosed _),
      hseparated, writeWithIndent, hdoc.writeIndent, styledMembers, membersText]
    simp only [List.append_assoc, List.cons_append, List.nil_append, List.replicate]

/-- **The styled text of a flat object.** -/
theorem toStyledString_flat (realText : ℚ → List UInt8) {ms : List (CString × Json)}
    (hne : ms ≠ []) (hms : ∀ m ∈ ms, Flat m.2) :
    toStyledString realText (obj ms) = 123 :: (styledMembers realText ms ++ [10]) := by
  have hempty : ms.isEmpty = false := List.isEmpty_eq_false_iff.mpr hne
  have hopen : Closed [123] := ⟨123, rfl, by decide, by decide⟩
  rw [toStyledString, writeValue, hempty, if_neg Bool.false_ne_true]
  have hbrace : writeWithIndent [] 0 [123] = [123] := rfl
  simp only [hbrace, Nat.zero_add, writeMembers_flat realText hms hopen]
  rfl

/-! ## Reading it back -/

/-- The members of a list, put into an object one after the other. -/
def insertAll (ms acc : List (CString × Json)) : List (CString × Json) :=
  ms.foldl (fun acc m => insertMember m.1 m.2 acc) acc

/-- The members that are read of a tightened text. -/
def squeezeMembers : Bool → List (CString × Json) → List (CString × Json)
  | _, [] => []
  | f, (k, v) :: ms =>
    (k.squeeze !f, squeezeValue (flagAfter f k.val) v) ::
      squeezeMembers (flagValue (flagAfter f k.val) v) ms

/-- The tightened members are read back with their names and strings squeezed, by induction over
the members; the flag at the start says whether the first name keeps its blanks. -/
theorem readsMembers_tighten (realText : ℚ → List UInt8) {ms : List (CString × Json)}
    (hne : ms ≠ []) (hms : ∀ m ∈ ms, Flat m.2) (f : Bool) (acc : List (CString × Json)) :
    ReadsMembers acc (tightenFrom f (styledMembers realText ms))
      (insertAll (squeezeMembers f ms) acc) := by
  induction ms generalizing f acc with
  | nil => exact absurd rfl hne
  | cons m ms ih =>
    obtain ⟨k, v⟩ := m
    have hv : Flat v := hms (k, v) (List.mem_cons_self ..)
    obtain ⟨hlineText, hlineFlag⟩ := tightenFrom_blanks breaks_line f
    obtain ⟨hkeyText, hkeyFlag⟩ := tightenFrom_quoted f k
    obtain ⟨hblankText, hblankFlag⟩ := tightenFrom_blanks breaks_blank (flagAfter f k.val)
    obtain ⟨hvalue, hvalueFlag⟩ := tightenFrom_scalarText realText hv (flagAfter f k.val)
    have hcolon : ∀ g t, tightenFrom g (58 :: t) = 58 :: tightenFrom g t := by
      intro g t
      cases g <;> rfl
    rw [styledMembers, membersText, ← styledMembers, tightenFrom_append, hlineText, hlineFlag,
      tightenFrom_append, hkeyText, hkeyFlag, tightenFrom_append, hblankText, hblankFlag, hcolon,
      tightenFrom_append, tightenFrom_append, flagAfter_append, hblankText, hblankFlag, hvalueFlag]
    have hread := hvalue.of_blank (blank_kept breaks_blank (flagAfter f k.val))
    have h₁ := blank_kept breaks_line f
    have h₂ := blank_kept breaks_blank (flagAfter f k.val)
    cases ms with
    | nil =>
      have hend : ∀ g, tightenFrom g (separated [] ([] : List (CString × Json)) ++
          styledMembers realText []) = kept g [10] ++ [125] := by
        intro g
        cases g <;> rfl
      rw [hend]
      exact ReadsMembers.last h₁ h₂ (blank_kept breaks_break _) hread
    | cons m ms =>
      have hcomma : ∀ g, tightenFrom g
          (separated [] (m :: ms) ++ styledMembers realText (m :: ms)) =
          [] ++ 44 :: tightenFrom g (styledMembers realText (m :: ms)) := by
        intro g
        cases g <;> rfl
      rw [hcomma]
      refine ReadsMembers.step h₁ h₂ blank_nil hread ?_
      exact ih (List.cons_ne_nil _ _) (fun m hm => hms m (List.mem_cons_of_mem _ hm)) _ _

/-- **What is read of a tightened object.** -/
theorem read_tighten (realText : ℚ → List UInt8) {ms : List (CString × Json)}
    (hne : ms ≠ []) (hms : ∀ m ∈ ms, Flat m.2) :
    read (tighten (toStyledString realText (obj ms))) =
      some (obj (insertAll (squeezeMembers false ms) [])) := by
  have hbrace : ∀ t, tightenFrom false (123 :: t) = 123 :: tightenFrom false t := fun _ => rfl
  rw [toStyledString_flat realText hne hms, tighten, hbrace, tightenFrom_append,
    (tightenFrom_blanks breaks_break _).1, ← List.cons_append]
  exact (readsMembers_tighten realText hne hms false []).reads.read (blank_kept breaks_break _)

end Json

end MyServer
