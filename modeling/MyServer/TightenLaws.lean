import MyServer.JsonText
import MyServer.PlayerMgr

/-!
# What tightening does to a text

Two laws of `tighten`. On every byte string it drops exactly the white space that an even
number of double quotes precedes, so a second pass changes nothing (`tighten_exact`).

On a JSON text the white space to drop is the one between tokens. The grammar is given as
rules: `Literal` for what stands between the quotes of a string, `Spells` for the tokens of a
value and `Spaced` for the tokens of a text with white space around them. `Place` is the
machine that knows where a literal begins and ends, escapes included; `tighten` follows
another one, which takes an escaped quote for the end of a literal. The two agree on the
white space that goes exactly when each blank inside a literal has an odd number of quotes
before it (`tighten_preserves_iff`).
-/

namespace MyServer

/-! ## Every byte string -/

/-- A white space byte: tab, line feed, vertical tab, form feed, carriage return, space. -/
def whiteSpace : List UInt8 := [9, 10, 11, 12, 13, 32]

theorem isBlank_iff (c : UInt8) : isBlank c = true ↔ c ∈ whiteSpace :=
  Json.forall_byte (P := fun c => isBlank c = true ↔ c ∈ whiteSpace) (by decide +kernel) c

theorem flagAfter_false_iff (s : List UInt8) : flagAfter false s = false ↔ Even (s.count 34) := by
  rw [← flagAfter_eq_true_iff, ← Bool.not_true, flagAfter_not, Bool.not_eq_eq_eq_not, Bool.not_not]

/-- The flag is on after an odd number of quotes. -/
theorem flagAfter_true_iff (s : List UInt8) : flagAfter false s = true ↔ Odd (s.count 34) := by
  rw [← Nat.not_even_iff_odd, ← flagAfter_false_iff, Bool.not_eq_false]

/-- The loop over a text, by the positions of its bytes. -/
theorem tightenFrom_filter (pre s : List UInt8) :
    tightenFrom (flagAfter false pre) s =
      ((s.zipIdx pre.length).filter fun e =>
        ¬ (e.1 ∈ whiteSpace ∧ Even (((pre ++ s).take e.2).count 34))).map Prod.fst := by
  induction s generalizing pre with
  | nil => rfl
  | cons c s ih =>
    have hrest := ih (pre ++ [c])
    rw [flagAfter_append, List.length_append, List.append_assoc, List.singleton_append] at hrest
    have hdrop : (isBlank c && flagAfter false pre == false) = true ↔
        c ∈ whiteSpace ∧ Even (((pre ++ c :: s).take pre.length).count 34) := by
      rw [Bool.and_eq_true, isBlank_iff, beq_iff_eq, flagAfter_false_iff, List.take_left]
    rw [tightenFrom, List.zipIdx_cons, List.filter_cons]
    by_cases h : (isBlank c && flagAfter false pre == false) = true
    · have hquote : c ≠ 34 := by
        rintro rfl
        exact absurd (hdrop.mp h).1 (by decide)
      rw [if_pos h, if_neg (by simpa using hdrop.mp h)]
      rw [flagAfter_cons, if_neg hquote] at hrest
      exact hrest
    · rw [if_neg h]
      refine (congrArg (c :: ·) hrest).trans ?_
      rw [if_pos (decide_eq_true (mt hdrop.mpr h))]
      rfl

/-- `saveJson2` tightens twice; the texts it stores and queries are those of one pass. -/
theorem MongoMgr.saveJson2_eq (J : JsonLib) (M : MongoLib) (env : Env) (col : List Document)
    (query obj : Json) :
    saveJson2 J M env col query obj =
      saveJson M env col (J.toStyledString query) (J.toStyledString obj) := by
  rw [saveJson2, saveJson, saveJson, tighten_tighten, tighten_tighten]

theorem MongoMgr.findJson_eq (J : JsonLib) (M : MongoLib) (env : Env) (col : List Document)
    (query : Json) :
    findJson J M env col query = findText J M env col (J.toStyledString query) := by
  rw [findJson, findText, findText, tighten_tighten]

/-- **Tightening, exactly**: on every byte string it drops the white space that an even
number of quotes precedes; it is idempotent; and where the database layer tightens twice,
the text that is stored or queried is that of one pass. -/
theorem tighten_exact (s : List UInt8) :
    tighten (tighten s) = tighten s ∧
      tighten s = (s.zipIdx.filter fun e =>
        ¬ (e.1 ∈ whiteSpace ∧ Even ((s.take e.2).count 34))).map Prod.fst ∧
      (∀ (J : JsonLib) (M : MongoLib) (env : Env) (col : List Document) (query obj : Json),
        MongoMgr.saveJson2 J M env col query obj =
            MongoMgr.saveJson M env col (J.toStyledString query) (J.toStyledString obj) ∧
          MongoMgr.findJson J M env col query =
            MongoMgr.findText J M env col (J.toStyledString query)) := by
  refine ⟨tighten_tighten s, tightenFrom_filter [] s, ?_⟩
  intro J M env col query obj
  exact ⟨MongoMgr.saveJson2_eq J M env col query obj, MongoMgr.findJson_eq J M env col query⟩

namespace Json

/-! ## JSON texts -/

/-- `t` is the text `s` without some of the white space outside its literals. -/
inductive Strips : Place → List UInt8 → List UInt8 → Prop
  | nil (p : Place) : Strips p [] []
  | keep {p : Place} {c : UInt8} {s t : List UInt8} :
      Strips (p.next c) s t → Strips p (c :: s) (c :: t)
  | drop {c : UInt8} {s t : List UInt8} (hc : isBlank c = true) :
      Strips .outside s t → Strips .outside (c :: s) t

namespace Strips

variable {p : Place} {s t w : List UInt8}

/-- What stands in a literal is kept. -/
theorem held (hw : Held p w) (h : Strips p (w ++ s) t) :
    ∃ t', t = w ++ t' ∧ Strips (p.after w) s t' := by
  induction w generalizing p t with
  | nil => exact ⟨t, rfl, h⟩
  | cons c w ih =>
    obtain ⟨hp, hw⟩ := hw
    cases h with
    | keep h =>
      obtain ⟨t', rfl, hrest⟩ := ih hw h
      exact ⟨t', rfl, hrest⟩
    | drop hc h => exact absurd rfl hp

/-- What has no white space is kept. -/
theorem quiet (hw : Quiet w) (h : Strips .outside (w ++ s) t) :
    ∃ t', t = w ++ t' ∧ Strips .outside s t' := by
  induction w generalizing t with
  | nil => exact ⟨t, rfl, h⟩
  | cons c w ih =>
    obtain ⟨⟨hblank, hquote⟩, hw⟩ := List.forall_mem_cons.mp hw
    cases h with
    | keep h =>
      have hnext : Place.outside.next c = .outside := if_neg hquote
      rw [hnext] at h
      obtain ⟨t', rfl, hrest⟩ := ih hw h
      exact ⟨t', rfl, hrest⟩
    | drop hc h =>
      rw [hblank] at hc
      cases hc

/-- A token is kept. -/
theorem token {x : Token} (hx : x.WellFormed) (h : Strips .outside (x.text ++ s) t) :
    ∃ t', t = x.text ++ t' ∧ Strips .outside s t' := by
  cases x with
  | punct c => exact h.quiet (List.forall_mem_singleton.mpr hx)
  | word text => exact h.quiet hx
  | literal raw =>
    obtain ⟨hafter, hheld, -⟩ := Literal.stays hx
    have hend : Place.inside.after (raw ++ [34]) = .outside := by
      rw [Place.after_append, hafter]
      rfl
    have hclosed : Held .inside (raw ++ [34]) := by
      rw [held_append, hafter]
      exact ⟨hheld, by simp, trivial⟩
    cases h with
    | keep h =>
      obtain ⟨t', rfl, hrest⟩ := held hclosed h
      rw [hend] at hrest
      exact ⟨t', rfl, hrest⟩
    | drop hc h => exact absurd hc (by decide)

/-- The tokens of a text stay. -/
theorem spaced {ts : List Token} (hs : Spaced ts s) (hts : ∀ x ∈ ts, x.WellFormed)
    (h : Strips .outside s t) : Spaced ts t := by
  induction hs generalizing t with
  | nil =>
    cases h
    exact .nil
  | @space c ts s hc _ ih =>
    cases h with
    | keep h =>
      rw [next_of_isWs hc] at h
      exact .space hc (ih hts h)
    | drop _ h => exact ih hts h
  | token x _ ih =>
    obtain ⟨hx, hts⟩ := List.forall_mem_cons.mp hts
    obtain ⟨t', rfl, hrest⟩ := token hx h
    exact .token x (ih hts hrest)

/-- So a text denotes what it did. -/
theorem denotes {v : Tree} (hs : Denotes s v) (h : Strips .outside s t) : Denotes t v := by
  obtain ⟨ts, hv, hs⟩ := hs
  exact ⟨ts, hv, h.spaced hs hv.wellFormed⟩

end Strips

/-! ## Which white space goes -/

/-- How many bytes of a text stand in literals, closing quotes included. -/
def literalBytes : Place → List UInt8 → ℕ
  | _, [] => 0
  | p, c :: s => (if p = .outside then 0 else 1) + literalBytes (p.next c) s

/-- The flag is on at each white space byte that stands in a literal. -/
def Guarded : Place → Bool → List UInt8 → Prop
  | _, _, [] => True
  | p, f, c :: s =>
    (isBlank c = true → p ≠ .outside → f = true) ∧
      Guarded (p.next c) (if c = 34 then !f else f) s

theorem guarded_iff {p : Place} {f : Bool} {s : List UInt8} :
    Guarded p f s ↔ ∀ t c u, s = t ++ c :: u → isBlank c = true → p.after t ≠ .outside →
      flagAfter f t = true := by
  induction s generalizing p f with
  | nil => simp [Guarded]
  | cons d s ih =>
    rw [Guarded, ih]
    refine ⟨?_, ?_⟩
    · rintro ⟨hhead, htail⟩ t c u heq
      cases t with
      | nil =>
        obtain ⟨rfl, -⟩ := List.cons.inj heq
        exact hhead
      | cons e t =>
        obtain ⟨rfl, hrest⟩ := List.cons.inj heq
        exact htail t c u hrest
    · intro hall
      refine ⟨hall [] d s rfl, ?_⟩
      rintro t c u rfl
      exact hall (d :: t) c u rfl

theorem ne_of_isBlank {c : UInt8} (hc : isBlank c = true) : c ≠ 34 ∧ c ≠ 92 := by
  have hall : ∀ c ∈ whiteSpace, c ≠ 34 ∧ c ≠ 92 := by decide
  exact hall c ((isBlank_iff c).mp hc)

/-- A blank leaves the machine where it is. -/
theorem next_of_isBlank {p : Place} {c : UInt8} (hc : isBlank c = true) (hp : p ≠ .escaped) :
    p.next c = p := by
  obtain ⟨hquote, hslash⟩ := ne_of_isBlank hc
  cases p with
  | outside => exact if_neg hquote
  | inside => exact (if_neg hquote).trans (if_neg hslash)
  | escaped => exact absurd rfl hp

theorem Strips.literalBytes_eq {p : Place} {s t : List UInt8} (h : Strips p s t) :
    literalBytes p t = literalBytes p s := by
  induction h with
  | nil => rfl
  | keep _ ih => rw [literalBytes, literalBytes, ih]
  | drop hc _ ih =>
    rw [literalBytes, next_of_isBlank hc (by simp), if_pos rfl, Nat.zero_add, ih]

/-- Tightening drops bytes of literals where the flag is off at one of their blanks, and
only there. -/
theorem literalBytes_tightenFrom {p : Place} {s : List UInt8} (hs : Tame p s) (f : Bool) :
    literalBytes p (tightenFrom f s) ≤ literalBytes p s ∧
      (literalBytes p (tightenFrom f s) = literalBytes p s → Guarded p f s) := by
  induction s generalizing p f with
  | nil => exact ⟨le_rfl, fun _ => trivial⟩
  | cons c s ih =>
    obtain ⟨hc, hs⟩ := hs
    obtain ⟨hle, hguarded⟩ := ih hs (if c = 34 then !f else f)
    rw [tightenFrom, Guarded]
    by_cases hdrop : (isBlank c && f == false) = true
    · obtain ⟨hblank, hf⟩ := Bool.and_eq_true_iff.mp hdrop
      have hnext : p.next c = p := by
        refine next_of_isBlank hblank ?_
        rintro rfl
        rw [hc rfl] at hblank
        cases hblank
      obtain ⟨hquote, -⟩ := ne_of_isBlank hblank
      rw [if_pos hdrop, literalBytes, hnext]
      rw [hnext, if_neg hquote] at hle hguarded
      rw [if_neg hquote]
      refine ⟨by omega, ?_⟩
      intro heq
      have hp : p = .outside := by
        by_contra hp
        rw [if_neg hp] at heq
        omega
      rw [if_pos hp, Nat.zero_add] at heq
      exact ⟨fun _ hout => absurd hp hout, hguarded heq⟩
    · rw [if_neg hdrop, literalBytes, literalBytes]
      refine ⟨by omega, ?_⟩
      intro heq
      refine ⟨fun hblank _ => ?_, hguarded (by omega)⟩
      simpa [hblank] using hdrop

theorem strips_tightenFrom {p : Place} {f : Bool} {s : List UInt8} (h : Guarded p f s) :
    Strips p s (tightenFrom f s) := by
  induction s generalizing p f with
  | nil => exact .nil p
  | cons c s ih =>
    obtain ⟨hc, hs⟩ := h
    rw [tightenFrom]
    by_cases hdrop : (isBlank c && f == false) = true
    · obtain ⟨hblank, hf⟩ := Bool.and_eq_true_iff.mp hdrop
      have hout : p = .outside := by
        by_contra hp
        rw [hc hblank hp] at hf
        cases hf
      subst hout
      obtain ⟨hquote, -⟩ := ne_of_isBlank hblank
      rw [next_of_isBlank hblank (by simp), if_neg hquote] at hs
      rw [if_pos hdrop]
      exact .drop hblank (ih hs)
    · rw [if_neg hdrop]
      exact .keep (ih hs)

/-- **When tightening preserves a JSON text**: it keeps every byte of the string literals,
drops nothing but white space between tokens and leaves a text for the same value, exactly
when every white space byte in a literal has an odd number of quotes before it. -/
theorem tighten_preserves_iff {s : List UInt8} {v : Tree} (h : Denotes s v) :
    (Strips .outside s (tighten s) ∧ Denotes (tighten s) v) ↔
      ∀ t c u, s = t ++ c :: u → c ∈ whiteSpace → Place.outside.after t ≠ .outside →
        Odd (t.count 34) := by
  have hiff : Guarded .outside false s ↔
      ∀ t c u, s = t ++ c :: u → c ∈ whiteSpace → Place.outside.after t ≠ .outside →
        Odd (t.count 34) := by
    rw [guarded_iff]
    simp only [isBlank_iff, flagAfter_true_iff]
  rw [← hiff]
  refine ⟨?_, ?_⟩
  · rintro ⟨hstrips, -⟩
    obtain ⟨ts, hv, hs⟩ := h
    exact (literalBytes_tightenFrom (hs.tame hv.wellFormed) false).2 hstrips.literalBytes_eq
  · intro hguarded
    have hstrips : Strips .outside s (tighten s) := strips_tightenFrom hguarded
    exact ⟨hstrips, hstrips.denotes h⟩

/-- The text `[1, "a b"]`. -/
def arrayText : List UInt8 := [91, 49, 44, 32, 34, 97, 32, 98, 34, 93]

/-- The white space goes, the blank in the literal stays. -/
theorem tighten_preserves_array :
    Denotes arrayText (.arr [.num [49], .str [97, 32, 98]]) ∧
      ((Strips .outside arrayText (tighten arrayText) ∧
          Denotes (tighten arrayText) (.arr [.num [49], .str [97, 32, 98]])) ↔
        ∀ t c u, arrayText = t ++ c :: u → c ∈ whiteSpace → Place.outside.after t ≠ .outside →
          Odd (t.count 34)) := by
  have hnum : Numeral ([] ++ [49] ++ [] ++ []) :=
    .mk (.inl rfl) (.inr ⟨49, [], rfl, rfl, by decide, by simp [AllDigits]⟩) (.inl rfl) (.inl rfl)
  have hstr : Literal [97, 32, 98] :=
    .plain (by decide) (by decide) (.plain (by decide) (by decide)
      (.plain (by decide) (by decide) .nil))
  have harr := Spells.arr (.element (.num hnum) (.lastElement (.str hstr)))
  have hspaced := Spaced.token (.punct 91) (.token (.word [49]) (.token (.punct 44)
    (.space (c := 32) rfl (.token (.literal [97, 32, 98]) (.token (.punct 93) .nil)))))
  have h : Denotes arrayText (.arr [.num [49], .str [97, 32, 98]]) := ⟨_, harr, hspaced⟩
  exact ⟨h, tighten_preserves_iff h⟩

/-- The text `"\" a"`. -/
def escapedText : List UInt8 := [34, 92, 34, 32, 97, 34]

/-- **An escaped quote ends the literal for `tighten`**: the blank behind it goes, and another
string is read. -/
theorem tighten_loses_literal_blank :
    Denotes escapedText (.str [92, 34, 32, 97]) ∧
      tighten escapedText = [34, 92, 34, 97, 34] ∧
      ¬ Strips .outside escapedText (tighten escapedText) ∧
      read escapedText = some (.str ⟨[34, 32, 97], by decide⟩) ∧
      read (tighten escapedText) = some (.str ⟨[34, 97], by decide⟩) := by
  have hstr : Literal [92, 34, 32, 97] :=
    .escape rfl (.plain (by decide) (by decide) (.plain (by decide) (by decide) .nil))
  refine ⟨⟨_, .str hstr, .token (.literal [92, 34, 32, 97]) .nil⟩, rfl, ?_, ?_, ?_⟩
  · intro h
    exact absurd h.literalBytes_eq (by decide)
  · decide +kernel
  · decide +kernel

end Json

end MyServer
