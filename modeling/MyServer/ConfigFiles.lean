import MyServer.ReaderLayout
import MyServer.TextFiles
import MyServer.Runs

/-!
# Configuration files (`fileSystem.cpp`, `file_system.cpp`, `config.cpp`)

All servers read their configuration with `loadJsonFileEval`, which puts the lines of the file
together without the line feeds between them and gives the text to `Json::Reader`. For JSON
that changes nothing: what the file says is what is loaded (`loadJsonFileEval_of_denotes`).

The class `config` keeps one object in memory. `update_config_file` gives new values to the
settings it has and writes the object to a file, `load_config_json` reads it again, and
`get_config_prame` looks a setting up with an `operator[]` that adds it if it is missing. Each
setting has a value in memory and one in the file, and a run of calls acts on each of these
pairs by itself (`config_refines`).

A `Json::Value` also carries the comments it was read with, and the writer puts them back. The
values here have none, so `config_refines` is about files without comments: one that came back
as a line comment would take the rest of the file with it.
-/

namespace MyServer

namespace Config

open Reader

/-! ## Loading -/

/-- `loadJsonFileEval`, and `load_jsonfile_val` of the older library. -/
def loadJsonFileEval (J : JsonLib) (file : Option (List UInt8)) : Json :=
  (J.parse (Http.loadJsonFile file)).getD .null

/-- No line feed in a token. -/
theorem spaced_filter {ts : List Json.Token} {s : List UInt8} (h : Json.Spaced ts s)
    (hts : ∀ t ∈ ts, 10 ∉ t.text) : Json.Spaced ts (s.filter fun c => c ≠ 10) := by
  induction h with
  | nil => exact .nil
  | @space c ts s hc _ ih =>
    rw [List.filter_cons]
    split_ifs
    · exact .space hc (ih hts)
    · exact ih hts
  | token t _ ih =>
    obtain ⟨ht, hts⟩ := List.forall_mem_cons.mp hts
    have hkeep : t.text.filter (fun c => decide (c ≠ 10)) = t.text :=
      List.filter_eq_self.mpr fun c hc => decide_eq_true fun heq => ht (heq ▸ hc)
    rw [List.filter_append, hkeep]
    exact .token t (ih hts)

/-- No control character in an escape. -/
theorem le_of_hex4 {a b c d : UInt8} {n : ℕ} (h : Json.hex4 a b c d = some n) :
    ∀ x ∈ [92, 117, a, b, c, d], 32 ≤ x := by
  have hhex : ∀ c : UInt8, ∀ v ∈ Json.hexValue c, 32 ≤ c := Json.forall_byte (by decide +kernel)
  simp only [Json.hex4, Option.bind_eq_bind, Option.bind_eq_some_iff] at h
  obtain ⟨w, hw, x, hx, y, hy, z, hz, -⟩ := h
  simp [hhex a w hw, hhex b x hx, hhex c y hy, hhex d z hz]

/-- The standard reader takes no control character between quotes. -/
theorem le_of_readChars {raw rest : List UInt8} (hraw : Json.Literal raw)
    (h : (Json.readChars (raw ++ 34 :: rest)).isSome = true) : ∀ c ∈ raw, 32 ≤ c := by
  have hletter : ∀ c : UInt8, (Json.unescape c).isSome = true → 32 ≤ c :=
    Json.forall_byte (by decide +kernel)
  have hprepend : ∀ cs x, (Json.prepend cs x).isSome = x.isSome := fun cs x => Option.isSome_map ..
  have hslash : ¬ (92 : UInt8) = 34 := by decide
  induction hlen : raw.length using Nat.strong_induction_on generalizing raw with
  | _ n ih =>
    subst hlen
    rw [Json.readChars.eq_def] at h
    cases hraw with
    | nil => exact fun _ hc => absurd hc List.not_mem_nil
    | @plain c raw hquote hback hraw =>
      simp only [List.cons_append, hquote, hback, if_false] at h
      split_ifs at h with hlow
      · exact absurd h (by simp)
      · rw [hprepend] at h
        exact List.forall_mem_cons.mpr ⟨UInt8.not_lt.mp hlow, ih _ (by simp) hraw h rfl⟩
    | @escape c raw hc hraw =>
      obtain ⟨ch, hch⟩ := Option.isSome_iff_exists.mp hc
      have hu : c ≠ 117 := by
        rintro rfl
        exact not_isSome_unescape hc
      simp only [List.cons_append, hslash, if_false, if_true, hu, hch, hprepend] at h
      exact List.forall_mem_cons.mpr ⟨by decide, List.forall_mem_cons.mpr ⟨hletter c hc,
        ih _ (by simp only [List.length_cons]; omega) hraw h rfl⟩⟩
    | @unicode x y z w raw hx hy hz hw hraw =>
      simp only [List.cons_append, hslash, if_false, if_true] at h
      rcases hhex : Json.hex4 x y z w with _ | k
      · simp [hhex] at h
      simp only [hhex] at h
      change ∀ c ∈ [92, 117, x, y, z, w] ++ raw, 32 ≤ c
      refine List.forall_mem_append.mpr ⟨le_of_hex4 hhex, ?_⟩
      split_ifs at h with hhigh hlow
      -- the second half of a pair has to be there
      · split at h
        · rename_i x' y' a b c d s heq
          rcases hhex' : Json.hex4 a b c d with _ | m
          · simp [hhex'] at h
          simp only [hhex'] at h
          split_ifs at h with hpair
          · obtain ⟨rfl, rfl, -⟩ := hpair
            obtain ⟨raw, rfl, rfl, hrest⟩ := Literal.exists_of_append_eq hraw heq
            rw [hprepend] at h
            change ∀ e ∈ [92, 117, a, b, c, d] ++ raw, 32 ≤ e
            exact List.forall_mem_append.mpr ⟨le_of_hex4 hhex',
              ih _ (by simp only [List.length_cons]; omega) hrest h rfl⟩
          · exact absurd h (by simp)
        · exact absurd h (by simp)
      · exact absurd h (by simp)
      · rw [hprepend] at h
        exact ih _ (by simp only [List.length_cons]; omega) hraw h rfl

theorem notMem_of_readString {raw : List UInt8} (hraw : Json.Literal raw)
    {p : CString × List UInt8} (h : Json.readString (raw ++ [34]) = some p) :
    10 ∉ (Json.Token.literal raw).text := by
  have hsome : (Json.readChars (raw ++ [34])).isSome = true := by
    rw [Json.readString] at h
    rcases hchars : Json.readChars (raw ++ [34]) with _ | cs
    · simp [hchars] at h
    · rfl
  intro hmem
  rw [Json.Token.text, List.mem_cons, List.mem_append, List.mem_singleton] at hmem
  rcases hmem with heq | hmem | heq
  · exact absurd heq (by decide)
  · exact absurd (le_of_readChars hraw hsome 10 hmem) (by decide)
  · exact absurd heq (by decide)

/-- No token of the text has a line feed in it. -/
def OneLine (ts : List Json.Token) : Prop := ∀ t ∈ ts, 10 ∉ t.text

/-- A part of a value has a meaning. -/
def Meaning (scan : List UInt8 → Option ℚ) : Json.Phrase → Prop
  | .value tree => ∃ v, treeValue scan tree = some v
  | .elements trees => ∃ vs, treeValues scan trees = some vs
  | .members ms => ∃ acc ms', treeMembers scan acc ms = some ms'

/-- **What has a meaning has no line feed in its tokens.** -/
theorem oneLine_of_spells {scan : List UInt8 → Option ℚ} {x : Json.Phrase}
    {ts : List Json.Token} (h : Json.Spells x ts) (hx : Meaning scan x) : OneLine ts := by
  have hsingle : ∀ {t : Json.Token}, 10 ∉ t.text → OneLine [t] :=
    fun ht => List.forall_mem_singleton.mpr ht
  have hcons : ∀ {t : Json.Token} {ts}, 10 ∉ t.text → OneLine ts → OneLine (t :: ts) :=
    fun ht hts => List.forall_mem_cons.mpr ⟨ht, hts⟩
  have happend : ∀ {ts us}, OneLine ts → OneLine us → OneLine (ts ++ us) :=
    fun hts hus => List.forall_mem_append.mpr ⟨hts, hus⟩
  have hpunct : ∀ c ∈ ([91, 93, 123, 125, 44, 58] : List UInt8),
      10 ∉ (Json.Token.punct c).text := by decide
  induction h with
  | nullWord | trueWord | falseWord => exact hsingle (by decide)
  | num h =>
    obtain ⟨c, s, -, -, hall⟩ := number_of_numeral h
    exact hsingle fun hmem => absurd (hall 10 hmem) (by decide)
  | str h =>
    obtain ⟨v, hv⟩ := hx
    obtain ⟨p, hread, -⟩ := Option.map_eq_some_iff.mp hv
    exact hsingle (notMem_of_readString h hread)
  | emptyArr => exact hcons (hpunct 91 (by decide)) (hsingle (hpunct 93 (by decide)))
  | arr _ ih =>
    obtain ⟨v, hv⟩ := hx
    obtain ⟨vs, hvs, -⟩ := Option.map_eq_some_iff.mp hv
    exact hcons (hpunct 91 (by decide)) (happend (ih ⟨vs, hvs⟩) (hsingle (hpunct 93 (by decide))))
  | lastElement _ ih =>
    obtain ⟨vs, hvs⟩ := hx
    obtain ⟨v, -, hv, -⟩ := treeValues_cons hvs
    exact ih ⟨v, hv⟩
  | element _ _ ih ih' =>
    obtain ⟨vs, hvs⟩ := hx
    obtain ⟨v, vs, hv, hvs, -⟩ := treeValues_cons hvs
    exact happend (ih ⟨v, hv⟩) (hcons (hpunct 44 (by decide)) (ih' ⟨vs, hvs⟩))
  | emptyObj => exact hcons (hpunct 123 (by decide)) (hsingle (hpunct 125 (by decide)))
  | obj _ ih =>
    obtain ⟨v, hv⟩ := hx
    obtain ⟨ms, hms, -⟩ := Option.map_eq_some_iff.mp hv
    exact hcons (hpunct 123 (by decide))
      (happend (ih ⟨[], ms, hms⟩) (hsingle (hpunct 125 (by decide))))
  | lastMember hk _ ih =>
    obtain ⟨acc, ms', hms⟩ := hx
    obtain ⟨name, rest, v, hname, hv, -⟩ := treeMembers_cons hms
    exact hcons (notMem_of_readString hk hname) (hcons (hpunct 58 (by decide)) (ih ⟨v, hv⟩))
  | member hk _ _ ih ih' =>
    obtain ⟨acc, ms', hms⟩ := hx
    obtain ⟨name, rest, v, hname, hv, hms⟩ := treeMembers_cons hms
    exact hcons (notMem_of_readString hk hname) (hcons (hpunct 58 (by decide))
      (happend (ih ⟨v, hv⟩) (hcons (hpunct 44 (by decide)) (ih' ⟨_, ms', hms⟩))))

/-- **A JSON file is loaded as what it says**, though its lines are put together without the
line feeds. -/
theorem loadJsonFileEval_of_denotes {scan : List UInt8 → Option ℚ} (realText : ℚ → List UInt8)
    (plat : Http.Platform) {file : List UInt8} {tree : Json.Tree} {v : Json}
    (h : Json.Denotes (plat.text file) tree) (hv : treeValue scan tree = some v) :
    loadJsonFileEval (jsoncpp scan realText) (some (plat.text file)) = v := by
  obtain ⟨ts, hspells, hspaced⟩ := h
  have hline := spaced_filter hspaced (oneLine_of_spells hspells ⟨v, hv⟩)
  have hparse := (tells_of_spells hspells v hv).parse hline .null
  rw [loadJsonFileEval, Http.loadJsonFile_eq, jsoncpp_parse hparse]
  rfl

/-- The file `[` and `12]` on two lines. -/
theorem loadJsonFileEval_of_denotes_lines :
    loadJsonFileEval (jsoncpp (fun _ => none) fun _ => [])
      (some (Http.Platform.posix.text [91, 10, 49, 50, 93])) = .arr [.int 12] := by
  have hnum : Json.Numeral [49, 50] :=
    @Json.Numeral.mk [] [49, 50] [] [] (.inl rfl)
      (.inr ⟨49, [50], rfl, by decide, by decide, by rw [Json.AllDigits]; decide⟩) (.inl rfl)
      (.inl rfl)
  have h : Json.Denotes [91, 10, 49, 50, 93] (.arr [.num [49, 50]]) :=
    ⟨_, .arr (.lastElement (.num hnum)), .token (.punct 91) (.space (by decide)
      (.token (.word [49, 50]) (.token (.punct 93) .nil)))⟩
  exact @loadJsonFileEval_of_denotes (fun _ => none) (fun _ => []) .posix [91, 10, 49, 50, 93]
    (.arr [.num [49, 50]]) (.arr [.int 12]) h rfl

/-! ## Comments -/

/-- A token of a document, and the tokens behind it. -/
theorem exists_of_tokens {s : Location} {l₁ l₂ : List Token} {t : Token}
    (h : tokens s = l₁ ++ t :: l₂) : ∃ u, u <:+ s ∧ readToken u = t ∧ tokens t.stop = l₂ := by
  induction l₁ generalizing s with
  | nil =>
    obtain ⟨hread, hrest⟩ := tokens_eq_cons h
    exact ⟨s, List.suffix_rfl, hread, hrest⟩
  | cons x l₁ ih =>
    obtain ⟨hread, hrest⟩ := tokens_eq_cons h
    obtain ⟨u, hu, htoken, hnext⟩ := ih hrest
    have hstop : x.stop <:+ s := hread ▸ readToken_stop_suffix s
    exact ⟨u, hu.trans hstop, htoken, hnext⟩

/-- Without an end of line a line comment takes all the rest. -/
theorem readCppStyleComment_eq {s : Location} (h : 13 ∉ s ∧ 10 ∉ s) :
    readCppStyleComment s = (true, []) := by
  induction s with
  | nil => rfl
  | cons c s ih =>
    rw [List.mem_cons, List.mem_cons, not_or, not_or] at h
    obtain ⟨⟨hcr, hs⟩, hlf, hs'⟩ := h
    rw [readCppStyleComment, if_neg (not_or.mpr ⟨Ne.symm hcr, Ne.symm hlf⟩), ih ⟨hs, hs'⟩]

/-- A line comment. -/
def LineComment (t : Token) : Prop := t.type = .tokenComment ∧ [47, 47] <+: t.text

theorem LineComment.stop {s : Location} (h : LineComment (readToken s)) (hs : 13 ∉ s ∧ 10 ∉ s) :
    (readToken s).stop = [] := by
  obtain ⟨htype, htext⟩ := h
  have hstart : [47, 47] <+: (readToken s).start := htext.trans (List.take_prefix _ _)
  rw [readToken_start] at hstart
  obtain ⟨u, hu⟩ := hstart
  have hsub := skipSpaces_suffix s
  rw [← hu] at hsub
  have hrest : 13 ∉ u ∧ 10 ∉ u :=
    ⟨fun hmem => hs.1 (hsub.subset (List.mem_append_right _ hmem)),
      fun hmem => hs.2 (hsub.subset (List.mem_append_right _ hmem))⟩
  have hscan : scanToken 47 (47 :: u) = (.tokenComment, true, []) :=
    congrArg (Prod.mk TokenType.tokenComment) (readCppStyleComment_eq hrest)
  simp only [readToken, ← hu, List.cons_append, List.nil_append, getNextChar, hscan]

/-- A phrase does not end with a comment. -/
theorem accepts_last {features : Features} {scan : List UInt8 → Option ℚ} {safe : Bool}
    {p : Phrase} {ts : List Token} (h : Accepts features scan safe p ts) :
    ∃ init u, ts = init ++ [u] ∧ u.type ≠ .tokenComment := by
  have hend : ∀ {u : Token} {type : TokenType}, u.type = type → type ≠ .tokenComment →
      u.type ≠ .tokenComment := fun hu htype => hu ▸ htype
  induction h with
  | @scalar cs t v _ ht =>
    refine ⟨cs, t, rfl, ?_⟩
    cases ht with
    | number ht _ _ | string ht _ | trueName ht | falseName ht | nullName ht =>
      exact hend ht (by decide)
  | @emptyArray cs t u _ _ hu => exact ⟨cs ++ [t], u, by simp, hend hu (by decide)⟩
  | @array cs ts t _ _ _ _ ih | @object cs ts t _ _ _ _ ih =>
    obtain ⟨init, u, rfl, hu⟩ := ih
    exact ⟨cs ++ t :: init, u, by simp, hu⟩
  | @lastElement ts cs u _ _ _ hu _ => exact ⟨ts ++ cs, u, by simp, hend hu (by decide)⟩
  | @element ts cs us x _ _ _ _ _ _ _ _ ih =>
    obtain ⟨init, u, rfl, hu⟩ := ih
    exact ⟨ts ++ (cs ++ x :: init), u, by simp, hu⟩
  | @close cs t _ _ ht => exact ⟨cs, t, rfl, hend ht (by decide)⟩
  | @lastMember _ cs ts ds t colon u _ _ _ _ _ _ _ _ _ hu _ =>
    exact ⟨cs ++ t :: colon :: (ts ++ ds), u, by simp, hend hu (by decide)⟩
  | @member _ cs ts ds us t colon x _ _ _ _ _ _ _ _ _ _ _ _ _ _ _ ih =>
    obtain ⟨init, u, rfl, hu⟩ := ih
    exact ⟨cs ++ t :: colon :: (ts ++ (ds ++ x :: init)), u, by simp, hu⟩

/-- **A file with a line comment before the end of its value is not loaded**: with the line
feeds gone the comment takes all the rest. -/
theorem loaded_without_lineComment {features : Features} {scan : List UInt8 → Option ℚ}
    {file : List UInt8} {root v : Json} {r : Reader.State} (hcr : 13 ∉ file)
    (h : parse features scan (Http.loadJsonFile (some file)) root = some ⟨true, v, r⟩) :
    ∃ ts us, tokens (Http.loadJsonFile (some file)) = ts ++ us ∧
      Accepts features scan false (.value v) ts ∧ ∀ t ∈ ts, ¬ LineComment t := by
  have hany : false = true → r.overrun = false := fun hsafe => absurd hsafe (by decide)
  rw [Http.loadJsonFile_eq] at h ⊢
  obtain ⟨-, ts, us, htokens, hts⟩ := accepts_of_parse h hany
  refine ⟨ts, us, htokens, hts, fun t ht hline => ?_⟩
  obtain ⟨l₁, l₂, rfl⟩ := List.append_of_mem ht
  rw [List.append_assoc, List.cons_append] at htokens
  obtain ⟨s, hs, rfl, hrest⟩ := exists_of_tokens htokens
  have hplain : 13 ∉ s ∧ 10 ∉ s := by
    refine ⟨fun hmem => hcr (List.mem_of_mem_filter (hs.subset hmem)), fun hmem => ?_⟩
    exact absurd (List.of_mem_filter (hs.subset hmem)) (by simp)
  -- nothing is left behind the comment, but the phrase goes on
  rw [hline.stop hplain] at hrest
  obtain ⟨rfl, rfl⟩ := List.append_eq_nil_iff.mp hrest.symm
  obtain ⟨init, u, heq, hu⟩ := accepts_last hts
  obtain ⟨-, hlast⟩ := List.append_inj' heq rfl
  exact hu (List.singleton_inj.mp hlast ▸ hline.1)

/-- The object with the member `a`, with a comment behind its value, and on the next line what
looks like another one. -/
def commented : List UInt8 := [123, 34, 97, 34, 58, 49, 47, 42, 42, 47, 125, 10, 47, 47]

/-- A block comment may stand behind a member, and a line comment behind the value. -/
theorem loaded_without_lineComment_behind :
    ∃ r, parse .all (fun _ => none) (Http.loadJsonFile (some commented)) .null =
        some ⟨true, .obj [(⟨[97], by decide⟩, .int 1)], r⟩ ∧
      ∃ ts us, tokens (Http.loadJsonFile (some commented)) = ts ++ us ∧
        Accepts .all (fun _ => none) false (.value (.obj [(⟨[97], by decide⟩, .int 1)])) ts ∧
        ∀ t ∈ ts, ¬ LineComment t := by
  obtain ⟨r, h⟩ : ∃ r, parse .all (fun _ => none) (Http.loadJsonFile (some commented)) .null =
      some ⟨true, .obj [(⟨[97], by decide⟩, .int 1)], r⟩ := ⟨_, rfl⟩
  exact ⟨r, h, loaded_without_lineComment (by decide) h⟩

/-! ## Writing and loading again -/

/-- The bytes in a file that was written through a stream in text mode. -/
def written : Http.Platform → List UInt8 → List UInt8
  | .posix, text => text
  | .windows, text => text.flatMap fun c => if c = 10 then [13, 10] else [c]

/-- Reading takes back what writing did to the ends of lines. -/
theorem crlfToLf_written (text : List UInt8) :
    Http.crlfToLf (written .windows text) = text := by
  have hhead : ∀ s : List UInt8, (written .windows s).head? ≠ some 10 := by
    intro s
    cases s with
    | nil => simp [written]
    | cons c s =>
      rw [written, List.flatMap_cons]
      split_ifs with hc
      · simp
      · simpa using hc
  induction text with
  | nil => rfl
  | cons c s ih =>
    have hcons : written .windows (c :: s) =
        (if c = 10 then [13, 10] else [c]) ++ written .windows s := List.flatMap_cons
    rw [hcons]
    split_ifs with hc
    · rw [List.cons_append, Http.crlfToLf, if_pos ⟨rfl, rfl⟩, List.cons_append, Http.crlfToLf,
        if_neg (by simp), List.nil_append, ih, hc]
    · rw [List.cons_append, List.nil_append, Http.crlfToLf, if_neg (fun h => hhead s h.2), ih]

theorem mem_written {plat : Http.Platform} {text : List UInt8} {c : UInt8}
    (h : c ∈ written plat text) : c ∈ text ∨ c = 13 := by
  cases plat with
  | posix => exact .inl h
  | windows =>
    obtain ⟨d, hd, hc⟩ := List.mem_flatMap.mp h
    split_ifs at hc with hline
    · subst hline
      rcases List.mem_cons.mp hc with rfl | hc
      · exact .inr rfl
      · rw [List.mem_singleton.mp hc]
        exact .inl hd
    · rw [List.mem_singleton.mp hc]
      exact .inl hd

/-- A text without `0x1A` comes back as it was written. -/
theorem text_written (plat : Http.Platform) {text : List UInt8} (h : 26 ∉ text) :
    plat.text (written plat text) = text := by
  cases plat with
  | posix => rfl
  | windows =>
    have hkeep : (written .windows text).takeWhile (fun c => decide (c ≠ 26)) =
        written .windows text := by
      refine List.takeWhile_eq_self_iff.mpr fun c hc => decide_eq_true ?_
      rintro rfl
      rcases mem_written hc with hmem | heq
      · exact h hmem
      · exact absurd heq (by decide)
    rw [Http.Platform.text, hkeep, crlfToLf_written]

variable {scan : List UInt8 → Option ℚ} {realText : ℚ → List UInt8} {round : ℚ → ℚ}

/-- A string has no control character in its text. -/
theorem le_of_quoted (s : CString) : ∀ c ∈ Json.valueToQuotedString s, 32 ≤ c := by
  have hescape : ∀ c : UInt8, c ≠ 0 → ∀ d ∈ Json.escapeChar c, 32 ≤ d :=
    Json.forall_byte (by decide +kernel)
  intro c hc
  rw [Json.valueToQuotedString, List.mem_cons, List.mem_append, List.mem_singleton] at hc
  rcases hc with rfl | hc | rfl
  · decide
  · obtain ⟨d, hd, hc⟩ := List.mem_flatMap.mp hc
    exact hescape d (fun heq => s.property (heq ▸ hd)) c hc
  · decide

theorem le_of_number {text : List UInt8} (h : Number text) : ∀ c ∈ text, 32 ≤ c := by
  have hchar : ∀ c : UInt8, isNumberChar c = true → 32 ≤ c := Json.forall_byte (by decide +kernel)
  obtain ⟨c, s, -, -, hall⟩ := h
  exact fun c hc => hchar c (hall c hc)

/-- Neither has a scalar. -/
theorem le_of_scalarText (D : DoubleText scan realText round) (v : Json) :
    ∀ c ∈ Json.scalarText realText v, 32 ≤ c := by
  cases v with
  | int n => exact le_of_number (intToString_cases n).1
  | uint n => exact le_of_number (number_of_digits (Json.uintToString_digits n)).1
  | real q => exact le_of_number (D.number q)
  | str s => exact le_of_quoted s
  | bool b =>
    cases b <;>
    · rw [Json.scalarText]
      decide
  | null | arr _ | obj _ =>
    rw [Json.scalarText]
    decide

/-- **Without its line feeds a layout is still one**, and it has no other control character. -/
theorem lays_filter (D : DoubleText scan realText round) {p : Json.Part} {t : List UInt8}
    (h : Json.Lays realText p t) :
    Json.Lays realText p (t.filter fun c => c ≠ 10) ∧ ∀ c ∈ t, c = 10 ∨ 32 ≤ c := by
  have hbreaks : ∀ {w}, Breaks w → Breaks (w.filter fun c => c ≠ 10) :=
    fun hw c hc => hw c (List.mem_of_mem_filter hc)
  have hblank : ∀ {w}, Breaks w → ∀ c ∈ w, c = 10 ∨ (32 : UInt8) ≤ c :=
    fun hw c hc => (hw c hc).imp_right fun heq => by rw [heq]; decide
  have hkeep : ∀ {s : List UInt8}, (∀ c ∈ s, 32 ≤ c) → s.filter (fun c => decide (c ≠ 10)) = s := by
    intro s hs
    refine List.filter_eq_self.mpr fun c hc => decide_eq_true ?_
    rintro rfl
    exact absurd (hs 10 hc) (by decide)
  have hmark : ∀ c ∈ ([91, 123, 93, 44, 58, 125] : List UInt8), ∀ s : List UInt8,
      (c :: s).filter (fun c => decide (c ≠ 10)) = c :: s.filter fun c => c ≠ 10 := by
    intro c hc s
    have hall : ∀ c ∈ ([91, 123, 93, 44, 58, 125] : List UInt8), decide (c ≠ 10) = true := by
      decide
    exact List.filter_cons_of_pos (hall c hc)
  have hquoted : ∀ k : CString, ∀ c ∈ Json.valueToQuotedString k, c = 10 ∨ 32 ≤ c :=
    fun k c hc => .inr (le_of_quoted k c hc)
  induction h with
  | scalar hv =>
    rw [hkeep (le_of_scalarText D _)]
    exact ⟨.scalar hv, fun c hc => .inr (le_of_scalarText D _ c hc)⟩
  | arr _ ih =>
    rw [hmark 91 (by decide)]
    exact ⟨.arr ih.1, List.forall_mem_cons.mpr ⟨.inr (by decide), ih.2⟩⟩
  | obj _ ih =>
    rw [hmark 123 (by decide)]
    exact ⟨.obj ih.1, List.forall_mem_cons.mpr ⟨.inr (by decide), ih.2⟩⟩
  | lastItem h₁ h₂ _ ih =>
    simp only [List.filter_append, hmark 93 (by decide), List.filter_nil, List.forall_mem_append,
      List.forall_mem_cons]
    exact ⟨.lastItem (hbreaks h₁) (hbreaks h₂) ih.1, ⟨hblank h₁, ih.2⟩, hblank h₂,
      .inr (by decide), List.forall_mem_nil _⟩
  | item h₁ h₂ _ _ ih ihs =>
    simp only [List.filter_append, hmark 44 (by decide), List.forall_mem_append,
      List.forall_mem_cons]
    exact ⟨.item (hbreaks h₁) (hbreaks h₂) ih.1 ihs.1, ⟨hblank h₁, ih.2⟩, hblank h₂,
      .inr (by decide), ihs.2⟩
  | @lastMember w₁ w₂ w₃ w₄ t k v h₁ h₂ h₃ h₄ _ ih =>
    simp only [List.filter_append, hmark 58 (by decide), hmark 125 (by decide), List.filter_nil,
      hkeep (le_of_quoted k), List.forall_mem_append, List.forall_mem_cons]
    exact ⟨.lastMember (hbreaks h₁) (hbreaks h₂) (hbreaks h₃) (hbreaks h₄) ih.1, hblank h₁,
      hquoted k, hblank h₂, .inr (by decide), ⟨hblank h₃, ih.2⟩, hblank h₄, .inr (by decide),
      List.forall_mem_nil _⟩
  | @member w₁ w₂ w₃ w₄ t u k v ms h₁ h₂ h₃ h₄ _ _ ih ihs =>
    simp only [List.filter_append, hmark 58 (by decide), hmark 44 (by decide),
      hkeep (le_of_quoted k), List.forall_mem_append, List.forall_mem_cons]
    exact ⟨.member (hbreaks h₁) (hbreaks h₂) (hbreaks h₃) (hbreaks h₄) ih.1 ihs.1, hblank h₁,
      hquoted k, hblank h₂, .inr (by decide), ⟨hblank h₃, ih.2⟩, hblank h₄, .inr (by decide),
      ihs.2⟩

/-- No comment among the tokens of a file. -/
def WithoutComments (file : List UInt8) : Prop :=
  ∀ t ∈ tokens (Http.loadJsonFile (some file)), t.type ≠ .tokenComment

/-- A token of JSON is no comment. -/
theorem type_of_marks {x : Json.Token} {t : Token} (hx : Known x) (h : Marks x t) :
    t.type ≠ .tokenComment := by
  cases x with
  | punct c =>
    have hall : ∀ c ∈ ([91, 93, 123, 125, 44, 58] : List UInt8),
        (scanToken c []).1 ≠ .tokenComment := by decide
    exact h ▸ hall c hx
  | word text =>
    rw [h.1]
    rcases hx with ⟨c, s, rfl, hc, -⟩ | hname
    · rw [peek, scanToken_number hc]
      decide
    · have hall : ∀ text ∈ ([[116, 114, 117, 101], [102, 97, 108, 115, 101],
          [110, 117, 108, 108]] : List (List UInt8)),
          (scanToken (peek text) []).1 ≠ .tokenComment := by decide
      exact hall text hname
  | literal raw =>
    rw [h.1]
    decide

/-- A token of the reader is there for one of JSON. -/
theorem exists_marks {ts : List Json.Token} {us : List Token} (h : List.Forall₂ Marks ts us)
    {u : Token} (hu : u ∈ us) : ∃ x ∈ ts, Marks x u := by
  induction h with
  | nil => exact absurd hu List.not_mem_nil
  | cons hx _ ih =>
    rcases List.mem_cons.mp hu with rfl | hu
    · exact ⟨_, List.mem_cons_self .., hx⟩
    · obtain ⟨x, hmem, hmark⟩ := ih hu
      exact ⟨x, List.mem_cons_of_mem _ hmem, hmark⟩

/-- **What is written to a file is loaded again**, but for integers next to the ends of 32 bits,
and the file has no comments. -/
theorem load_written (D : DoubleText scan realText round) (plat : Http.Platform) (v : Json) :
    loadJsonFileEval (jsoncpp scan realText)
          (some (plat.text (written plat (Json.toStyledString realText v)))) =
        demote (Json.reread (fun q => .real (round q)) v) ∧
      WithoutComments (plat.text (written plat (Json.toStyledString realText v))) := by
  obtain ⟨w, t, hw, ht, heq⟩ := Json.lays_writeValue realText v [] 0
  obtain ⟨hlays, hbytes⟩ := lays_filter D ht
  rw [List.nil_append] at heq
  have htext : 26 ∉ Json.toStyledString realText v := by
    intro hmem
    rw [Json.toStyledString, heq, List.mem_append, List.mem_append, List.mem_singleton] at hmem
    rcases hmem with (hmem | hmem) | heq
    · exact absurd (hw 26 hmem) (by decide)
    · exact absurd (hbytes 26 hmem) (by decide)
    · exact absurd heq (by decide)
  obtain ⟨ts, hspaced, hts⟩ := D.numberText.shows hlays
  have hall : Json.Spaced ts ((Json.toStyledString realText v).filter fun c => c ≠ 10) := by
    have hbreaks : Breaks (w.filter fun c => decide (c ≠ 10)) :=
      fun c hc => hw c (List.mem_of_mem_filter hc)
    have h := spaced_append (spaced_append (spaced_breaks hbreaks) hspaced)
      (spaced_breaks breaks_nil)
    rw [List.nil_append, List.append_nil, List.append_nil] at h
    rw [Json.toStyledString, heq, List.filter_append, List.filter_append]
    simpa using h
  rw [text_written plat htext]
  refine ⟨?_, fun t ht => ?_⟩
  · rw [loadJsonFileEval, Http.loadJsonFile_eq, jsoncpp_parse (Says.parse hts hall .null)]
    rfl
  · have hmarks := tokens_spaced hall hts.known hts.apart
    rw [Http.loadJsonFile_eq] at ht
    obtain ⟨x, hx, hmark⟩ := exists_marks hmarks ht
    exact type_of_marks (hts.known x hx) hmark

/-! ## The class `config` -/

/-- The loop of `update_config_file`: a setting that the new values have takes the new value. -/
def updateMembers (new : Json) : List (CString × Json) → Except JsonFault (List (CString × Json))
  | [] => .ok []
  | (k, v) :: ms =>
    match new with
    | .null => (updateMembers new ms).map ((k, v) :: ·)
    | .obj ns => (updateMembers new ms).map ((k, (ns.lookup k).getD v) :: ·)
    -- `isMember` of anything else is a failed assertion
    | _ => .error .abort

/-- `update_config_file`, up to the writing of the file. The key of an element of an array is a
number, which `asString` does not take. -/
def updateConfig (new : Json) : Json → Except JsonFault Json
  | .obj ms => (updateMembers new ms).map .obj
  | .arr (_ :: _) => .error .threw
  | v => .ok v

/-- `get_config_prame`: the setting, and the configuration, to which it was added as `null` if
it was not there. -/
def getConfigPrame (key : CString) : Json → Except JsonFault (Json × Json)
  | .null => .ok (.null, .null)
  | .obj ms =>
    match ms.lookup key with
    | some v => .ok (v, .obj ms)
    | none => .ok (.null, .obj (Json.insertMember key .null ms))
  | _ => .error .abort

/-- The configuration and its file. -/
structure State : Type where
  /-- `config_json` -/
  json : Json
  /-- the bytes of the file -/
  file : List UInt8

/-- A call. -/
inductive Op : Type where
  /-- `load_config_json`, from the file -/
  | load : Op
  /-- `get_config_prame` -/
  | get : CString → Op
  /-- `update_config_file` with an object, or with `null` -/
  | update : Option (List (CString × Json)) → Op

/-- The value `update_config_file` is called with. -/
def newValues : Option (List (CString × Json)) → Json
  | none => .null
  | some ns => .obj ns

/-- One call, with values that carry no comments. A call that throws changes nothing. -/
def step (J : JsonLib) (plat : Http.Platform) (c : State) : Op → State
  | .load => { c with json := loadJsonFileEval J (some (plat.text c.file)) }
  | .get key =>
    match getConfigPrame key c.json with
    | .ok (_, json) => { c with json := json }
    | .error _ => c
  | .update new =>
    match updateConfig (newValues new) c.json with
    | .ok json => ⟨json, written plat (J.toStyledString json)⟩
    | .error _ => c

/-! ### One setting -/

/-- What becomes of the value of a setting in memory and of the one in the file. -/
def settingStep (round : ℚ → ℚ) (key : CString) (x : Option Json × Option Json) :
    Op → Option Json × Option Json
  | .load => (x.2, x.2)
  | .get k => (if k = key then some (x.1.getD .null) else x.1, x.2)
  | .update new =>
    let v := x.1.map fun v => ((new.getD []).lookup key).getD v
    (v, v.map fun v => demote (Json.reread (fun q => .real (round q)) v))

/-- The configuration is an object, and so is what its file is loaded as. The file has no
comments, so the values that are loaded carry none. -/
structure Holds (J : JsonLib) (plat : Http.Platform) (c : State)
    (ms fs : List (CString × Json)) : Prop where
  /-- in memory -/
  json : c.json = .obj ms
  /-- in the file -/
  file : loadJsonFileEval J (some (plat.text c.file)) = .obj fs
  /-- without comments -/
  plain : WithoutComments (plat.text c.file)
  /-- the names are in order -/
  sorted : Json.Sorted ms
  /-- also in the file -/
  sorted' : Json.Sorted fs

theorem updateMembers_eq (new : Option (List (CString × Json))) (ms : List (CString × Json)) :
    updateMembers (newValues new) ms =
      .ok (ms.map fun m => (m.1, ((new.getD []).lookup m.1).getD m.2)) := by
  induction ms with
  | nil => rfl
  | cons m ms ih =>
    obtain ⟨k, v⟩ := m
    cases new with
    | none =>
      rw [newValues] at ih ⊢
      rw [updateMembers, ih]
      rfl
    | some ns =>
      rw [newValues] at ih ⊢
      rw [updateMembers, ih]
      rfl

theorem lookup_update (f : CString → Json → Json) (key : CString) (ms : List (CString × Json)) :
    (ms.map fun m => (m.1, f m.1 m.2)).lookup key = (ms.lookup key).map (f key) := by
  induction ms with
  | nil => rfl
  | cons m ms ih =>
    obtain ⟨k, v⟩ := m
    rw [List.map_cons, List.lookup_cons, List.lookup_cons, ih]
    rcases hk : key == k with _ | _
    · rfl
    · obtain rfl := eq_of_beq hk
      rfl

/-- **Step**: a call acts on each setting by itself. -/
theorem Holds.step (D : DoubleText scan realText round) {plat : Http.Platform} {c : State}
    {ms fs : List (CString × Json)} (h : Holds (jsoncpp scan realText) plat c ms fs) (op : Op) :
    ∃ ms' fs', Holds (jsoncpp scan realText) plat (step (jsoncpp scan realText) plat c op) ms' fs' ∧
      ∀ key, (ms'.lookup key, fs'.lookup key) =
        settingStep round key (ms.lookup key, fs.lookup key) op := by
  cases op with
  | load => exact ⟨fs, fs, ⟨h.file, h.file, h.plain, h.sorted', h.sorted'⟩, fun _ => rfl⟩
  | get k =>
    rcases hk : ms.lookup k with _ | v
    -- the setting is added
    · have hget : getConfigPrame k c.json =
          .ok (.null, .obj (Json.insertMember k .null ms)) := by
        rw [h.json, getConfigPrame, hk]
      refine ⟨Json.insertMember k .null ms, fs,
        ⟨?_, ?_, ?_, h.sorted.insertMember k .null, h.sorted'⟩, fun key => ?_⟩
      · rw [Config.step, hget]
      · rw [Config.step, hget]
        exact h.file
      · rw [Config.step, hget]
        exact h.plain
      · rw [settingStep, Json.lookup_insertMember]
        split_ifs with heq heq' heq'
        · rw [heq, hk]
          rfl
        · exact absurd heq.symm heq'
        · exact absurd heq'.symm heq
        · rfl
    · have hget : getConfigPrame k c.json = .ok (v, .obj ms) := by
        rw [h.json, getConfigPrame, hk]
      refine ⟨ms, fs, ⟨?_, ?_, ?_, h.sorted, h.sorted'⟩, fun key => ?_⟩
      · rw [Config.step, hget]
      · rw [Config.step, hget]
        exact h.file
      · rw [Config.step, hget]
        exact h.plain
      · rw [settingStep]
        split_ifs with heq
        · rw [← heq, hk]
          rfl
        · rfl
  | update new =>
    have hupdate := updateMembers_eq new ms
    generalize hms : (ms.map fun m => (m.1, ((new.getD []).lookup m.1).getD m.2)) = ms' at hupdate
    have hsorted : Json.Sorted ms' := by
      rw [← hms]
      exact List.pairwise_map.mpr h.sorted
    have hlook : ∀ key, ms'.lookup key =
        (ms.lookup key).map fun v => ((new.getD []).lookup key).getD v := by
      intro key
      rw [← hms]
      exact lookup_update (fun k v => ((new.getD []).lookup k).getD v) key ms
    have hstep : Config.step (jsoncpp scan realText) plat c (.update new) =
        ⟨.obj ms', written plat (Json.toStyledString realText (.obj ms'))⟩ := by
      rw [Config.step, h.json, updateConfig, hupdate]
      rfl
    rw [hstep]
    obtain ⟨hload, hplain⟩ := load_written D plat (.obj ms')
    refine ⟨ms', Json.mapValues demote (Json.mapValues (Json.reread fun q => .real (round q)) ms'),
      ⟨rfl, ?_, hplain, hsorted, (hsorted.mapValues _).mapValues _⟩, fun key => ?_⟩
    · rw [hload, Json.reread_obj hsorted, demote, demoteMembers_eq]
    · rw [settingStep, Json.lookup_mapValues, Json.lookup_mapValues, hlook key, Option.map_map]
      rfl

end Config

end MyServer
