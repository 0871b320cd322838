import MyServer.ReaderGrammar
import MyServer.JsonNormal
import Mathlib.Data.List.Chain
import Mathlib.Data.List.Forall2

/-!
# JSON, read by `Json::Reader`

`Json::Reader` takes more than JSON, but of JSON it takes all: a text that denotes a value
by the rules of the grammar (`Denotes`) is read as the value it stands for
(`parse_of_denotes`). The one thing that differs from what the text says are integers
within ten of the ends of what 32 bits hold: they come back as `double`s. A number of 32 bytes,
or of `2 ^ 31`, has no meaning here, since the reader writes behind an array there.
-/

namespace MyServer

namespace Reader

/-! ## The meaning of a text -/

mutual

/-- The value a text stands for; `none` for a string with half a surrogate pair, a control
character or a NUL in it, and for a number that does not fit the array of the reader. -/
def treeValue (scan : List UInt8 → Option ℚ) : Json.Tree → Option Json
  | .null => some .null
  | .bool b => some (.bool b)
  | .num text =>
    if text.length = 32 ∨ 2 ^ 31 ≤ text.length then none else standardNumber scan text
  | .str raw => (Json.readString (raw ++ [34])).map fun p => .str p.1
  | .arr vs => (treeValues scan vs).map .arr
  | .obj ms => (treeMembers scan [] ms).map .obj

/-- The elements of an array. -/
def treeValues (scan : List UInt8 → Option ℚ) : List Json.Tree → Option (List Json)
  | [] => some []
  | v :: vs =>
    match treeValue scan v, treeValues scan vs with
    | some x, some xs => some (x :: xs)
    | _, _ => none

/-- The members of an object, put into those that are there. -/
def treeMembers (scan : List UInt8 → Option ℚ) (acc : List (CString × Json)) :
    List (List UInt8 × Json.Tree) → Option (List (CString × Json))
  | [] => some acc
  | (k, v) :: ms =>
    match Json.readString (k ++ [34]), treeValue scan v with
    | some (name, _), some x => treeMembers scan (Json.insertMember name x acc) ms
    | _, _ => none

end

/-! ## The tokens of a text -/

/-- What the reader takes for a number. -/
def Number (text : List UInt8) : Prop :=
  ∃ c s, text = c :: s ∧ (Json.isDigit c = true ∨ c = 45) ∧ ∀ c ∈ text, isNumberChar c = true

/-- A token of JSON, with any number. -/
def Known : Json.Token → Prop
  | .punct c => c ∈ ([91, 93, 123, 125, 44, 58] : List UInt8)
  | .word text => Number text ∨
      text ∈ ([[116, 114, 117, 101], [102, 97, 108, 115, 101], [110, 117, 108, 108]] :
        List (List UInt8))
  | .literal raw => Json.Literal raw

/-- The token of the reader for a token of JSON. Its type is that of its first byte. -/
def Marks : Json.Token → Token → Prop
  | .punct c, t => t.type = (scanToken c []).1
  | .word text, t => t.type = (scanToken (peek text) []).1 ∧ t.text = text
  | .literal raw, t => t.type = .tokenString ∧ t.raw = raw

/-- A number, or one of the three names. -/
def isWord : Json.Token → Bool
  | .word _ => true
  | _ => false

/-- No two words stand side by side. -/
def Apart (ts : List Json.Token) : Prop :=
  ts.IsChain fun x y => isWord x = true → isWord y = false

/-- A number ends before this. -/
def Loose (s : List UInt8) : Prop := ∀ c ∈ s.head?, isNumberChar c = false

/-- A number of JSON is one. -/
theorem number_of_numeral {text : List UInt8} (h : Json.Numeral text) : Number text := by
  obtain ⟨hsign, hwhole, hfraction, hexponent⟩ := h
  rename_i sign whole fraction exponent
  have hdigit : ∀ c : UInt8, Json.isDigit c = true → isNumberChar c = true :=
    Json.forall_byte (by decide +kernel)
  have hdigits : ∀ {ds}, Json.AllDigits ds → ∀ c ∈ ds, isNumberChar c = true :=
    fun hds c hc => hdigit c (hds c hc)
  have hhead : ∃ d ds, whole = d :: ds ∧ Json.isDigit d = true ∧ Json.AllDigits ds := by
    rcases hwhole with rfl | ⟨d, ds, rfl, hd, -, hds⟩
    · exact ⟨48, [], rfl, by decide, fun _ h => absurd h List.not_mem_nil⟩
    · exact ⟨d, ds, rfl, hd, hds⟩
  obtain ⟨d, ds, rfl, hd, hds⟩ := hhead
  have hall : ∀ c ∈ sign ++ d :: ds ++ fraction ++ exponent, isNumberChar c = true := by
    simp only [List.forall_mem_append]
    refine ⟨⟨⟨?_, List.forall_mem_cons.mpr ⟨hdigit d hd, hdigits hds⟩⟩, ?_⟩, ?_⟩
    · rcases hsign with rfl | rfl <;> decide
    · rcases hfraction with rfl | ⟨fs, rfl, -, hfs⟩
      · decide
      · exact List.forall_mem_cons.mpr ⟨by decide, hdigits hfs⟩
    · rcases hexponent with rfl | ⟨e, sign', es, rfl, he, hsign', -, hes⟩
      · decide
      · refine List.forall_mem_cons.mpr ⟨?_, List.forall_mem_append.mpr ⟨?_, hdigits hes⟩⟩
        · rcases he with rfl | rfl <;> decide
        · rcases hsign' with rfl | rfl | rfl <;> decide
  rcases hsign with rfl | rfl
  · exact ⟨d, ds ++ fraction ++ exponent, by simp, .inl hd, hall⟩
  · exact ⟨45, d :: ds ++ fraction ++ exponent, by simp, .inr rfl, hall⟩

/-- A number is read to its end. -/
theorem readNumber_append {ds s : List UInt8} (hds : ∀ c ∈ ds, isNumberChar c = true)
    (hs : Loose s) : readNumber (ds ++ s) = s := by
  induction ds with
  | nil =>
    cases s with
    | nil => rfl
    | cons c s => rw [List.nil_append, readNumber, hs c rfl, if_neg Bool.false_ne_true]
  | cons c ds ih =>
    obtain ⟨hc, hds⟩ := List.forall_mem_cons.mp hds
    rw [List.cons_append, readNumber, if_pos hc, ih hds]

theorem readString_plain {c : UInt8} {s : List UInt8} (hslash : c ≠ 92) (hquote : c ≠ 34) :
    readString (c :: s) = readString s := by
  rw [readString.eq_def]
  simp only [hslash, hquote, if_false]

theorem readString_slash (d : UInt8) (s : List UInt8) :
    readString (92 :: d :: s) = readString s := by
  rw [readString.eq_def]
  rfl

/-- A literal is read to its quote. -/
theorem readString_append {raw : List UInt8} (hraw : Json.Literal raw) (s : List UInt8) :
    readString (raw ++ 34 :: s) = (true, s) := by
  have hhex : ∀ c : UInt8, (Json.hexValue c).isSome = true → c ≠ 92 ∧ c ≠ 34 :=
    Json.forall_byte (by decide +kernel)
  induction hraw with
  | nil => rw [List.nil_append, readString.eq_def]; rfl
  | plain hquote hslash _ ih => exact (readString_plain hslash hquote).trans ih
  | escape _ _ ih => exact ih
  | unicode hx hy hz hw _ ih =>
    simp only [List.cons_append]
    rw [readString_slash, readString_plain (hhex _ hx).1 (hhex _ hx).2,
      readString_plain (hhex _ hy).1 (hhex _ hy).2, readString_plain (hhex _ hz).1 (hhex _ hz).2,
      readString_plain (hhex _ hw).1 (hhex _ hw).2]
    exact ih

/-- A token that begins right away. -/
theorem readToken_eq {c : UInt8} {s u : List UInt8} {type : TokenType} (hc : Json.isWs c = false)
    (h : scanToken c s = (type, true, u)) :
    skipSpaces (c :: s) ≠ [] ∧ readToken (c :: s) = ⟨type, c :: s, u⟩ := by
  have hskip : skipSpaces (c :: s) = c :: s := by
    rw [skipSpaces, if_neg]
    simp only [Json.isWs, Bool.or_eq_false_iff, decide_eq_false_iff_not] at hc
    tauto
  refine ⟨by rw [hskip]; exact List.cons_ne_nil c s, ?_⟩
  simp only [readToken, hskip, getNextChar, h, if_true]

theorem scanToken_number {c : UInt8} (hc : Json.isDigit c = true ∨ c = 45) (s : List UInt8) :
    scanToken c s = (.tokenNumber, true, readNumber s) := by
  have hother : ∀ c : UInt8, (Json.isDigit c = true ∨ c = 45) →
      c ≠ 123 ∧ c ≠ 125 ∧ c ≠ 91 ∧ c ≠ 93 ∧ c ≠ 34 ∧ c ≠ 47 ∧ ((48 ≤ c ∧ c ≤ 57) ∨ c = 45) :=
    Json.forall_byte (by decide +kernel)
  obtain ⟨h₁, h₂, h₃, h₄, h₅, h₆, h₇⟩ := hother c hc
  rw [scanToken, if_neg h₁, if_neg h₂, if_neg h₃, if_neg h₄, if_neg h₅, if_neg h₆, if_pos h₇]

theorem scanToken_punct {c : UInt8} (hc : c ∈ ([91, 93, 123, 125, 44, 58] : List UInt8))
    (s : List UInt8) : scanToken c s = ((scanToken c []).1, true, s) := by
  simp only [List.mem_cons, List.not_mem_nil, or_false] at hc
  rcases hc with rfl | rfl | rfl | rfl | rfl | rfl <;> rfl

/-- One of the three names. -/
theorem scanToken_name {text : List UInt8}
    (h : text ∈ ([[116, 114, 117, 101], [102, 97, 108, 115, 101], [110, 117, 108, 108]] :
      List (List UInt8))) (s : List UInt8) :
    ∃ c u, text = c :: u ∧ Json.isWs c = false ∧
      scanToken c (u ++ s) = ((scanToken c []).1, true, s) := by
  have hmatch : ∀ u : List UInt8, matchPattern u (u ++ s) = (true, s) := by
    intro u
    rw [matchPattern, if_pos (List.prefix_append u s), List.drop_left]
  simp only [List.mem_cons, List.not_mem_nil, or_false] at h
  rcases h with rfl | rfl | rfl
  · exact ⟨116, _, rfl, by decide, congrArg (Prod.mk TokenType.tokenTrue) (hmatch _)⟩
  · exact ⟨102, _, rfl, by decide, congrArg (Prod.mk TokenType.tokenFalse) (hmatch _)⟩
  · exact ⟨110, _, rfl, by decide, congrArg (Prod.mk TokenType.tokenNull) (hmatch _)⟩

/-- A word, with what it begins with. -/
theorem scanToken_word {text s : List UInt8} (h : Known (.word text)) (hs : Loose s) :
    ∃ c u, text = c :: u ∧ Json.isWs c = false ∧
      scanToken c (u ++ s) = ((scanToken c []).1, true, s) := by
  rcases h with hnum | hname
  · obtain ⟨c, ds, rfl, hc, hall⟩ := hnum
    have hws : ∀ c : UInt8, (Json.isDigit c = true ∨ c = 45) → Json.isWs c = false :=
      Json.forall_byte (by decide +kernel)
    refine ⟨c, ds, rfl, hws c hc, ?_⟩
    rw [scanToken_number hc, scanToken_number hc,
      readNumber_append (List.forall_mem_cons.mp hall).2 hs]
  · exact scanToken_name hname s

/-- **A token of JSON is read as one.** -/
theorem readToken_text {x : Json.Token} (hx : Known x) {s : List UInt8}
    (hs : isWord x = true → Loose s) :
    skipSpaces (x.text ++ s) ≠ [] ∧ Marks x (readToken (x.text ++ s)) ∧
      (readToken (x.text ++ s)).stop = s := by
  cases x with
  | punct c =>
    have hws : ∀ c ∈ ([91, 93, 123, 125, 44, 58] : List UInt8), Json.isWs c = false := by decide
    obtain ⟨hne, hread⟩ := readToken_eq (hws c hx) (scanToken_punct hx s)
    change _ ∧ (readToken (c :: s)).type = _ ∧ (readToken (c :: s)).stop = s
    rw [hread]
    exact ⟨hne, rfl, rfl⟩
  | word text =>
    obtain ⟨c, u, rfl, hws, hscan⟩ := scanToken_word hx (hs rfl)
    obtain ⟨hne, hread⟩ := readToken_eq hws hscan
    change _ ∧ Marks _ (readToken (c :: (u ++ s))) ∧ (readToken (c :: (u ++ s))).stop = s
    rw [hread]
    have htext := @text_of_append (scanToken c []).1 (c :: u) s
    exact ⟨hne, ⟨rfl, htext⟩, rfl⟩
  | literal raw =>
    have hscan : scanToken 34 (raw ++ 34 :: s) = (.tokenString, true, s) :=
      congrArg (Prod.mk TokenType.tokenString) (readString_append hx s)
    obtain ⟨hne, hread⟩ := readToken_eq (by decide) hscan
    have htext : (Json.Token.literal raw).text ++ s = 34 :: (raw ++ 34 :: s) := by
      simp [Json.Token.text]
    rw [htext, hread]
    refine ⟨hne, ⟨rfl, ?_⟩, rfl⟩
    rw [← htext, Token.raw, text_of_append, Json.Token.text, List.tail_cons,
      List.dropLast_concat]

/-! ## The tokens of a spaced text -/

theorem loose_of_spaced {ts : List Json.Token} {s : List UInt8} (h : Json.Spaced ts s)
    (hts : ∀ x ∈ ts, Known x) (hhead : ∀ x ∈ ts.head?, isWord x = false) : Loose s := by
  cases h with
  | nil => exact fun c hc => absurd hc (by simp)
  | space hc _ =>
    have hall : ∀ c : UInt8, Json.isWs c = true → isNumberChar c = false :=
      Json.forall_byte (by decide +kernel)
    intro d hd
    obtain rfl := Option.some.inj hd
    exact hall _ hc
  | token t _ =>
    have hknown := hts t (List.mem_cons_self ..)
    cases t with
    | punct c =>
      have hall : ∀ c ∈ ([91, 93, 123, 125, 44, 58] : List UInt8), isNumberChar c = false := by
        decide
      intro d hd
      obtain rfl := Option.some.inj hd
      exact hall _ hknown
    | word text => exact absurd (hhead _ rfl) (by simp [isWord])
    | literal raw =>
      intro d hd
      obtain rfl := Option.some.inj hd
      decide

/-- **The tokens of a spaced text** are those it was made of. -/
theorem tokens_spaced {ts : List Json.Token} {s : List UInt8} (h : Json.Spaced ts s)
    (hts : ∀ x ∈ ts, Known x) (hapart : Apart ts) : List.Forall₂ Marks ts (tokens s) := by
  induction h with
  | nil => exact .nil
  | @space c ts s hc _ ih =>
    have hskip : skipSpaces (c :: s) = skipSpaces s := by
      rw [skipSpaces, if_pos]
      simp only [Json.isWs, Bool.or_eq_true, decide_eq_true_eq] at hc
      tauto
    rw [← tokens_skipSpaces, hskip, tokens_skipSpaces]
    exact ih hts hapart
  | @token t ts s hrest ih =>
    obtain ⟨ht, hts⟩ := List.forall_mem_cons.mp hts
    have hloose : isWord t = true → Loose s := by
      intro hword
      refine loose_of_spaced hrest hts fun x hx => ?_
      exact (List.isChain_cons.mp hapart).1 x hx hword
    obtain ⟨hne, hmarks, hstop⟩ := readToken_text ht hloose
    rw [tokens_next hne, hstop]
    exact .cons hmarks (ih hts (List.isChain_cons.mp hapart).2)

/-! ## Values by their tokens -/

/-- The scalar a token of JSON stands for. -/
inductive Means (scan : List UInt8 → Option ℚ) : Json.Token → Json → Prop
  /-- a number -/
  | number {text : List UInt8} {v : Json} (h : Number text) (hlen : text.length ≠ 32)
      (hlt : text.length < 2 ^ 31) (hv : standardNumber scan text = some v) :
      Means scan (.word text) v
  /-- a string -/
  | string {raw s : List UInt8} (h : Json.Literal raw) (hs : decodeRaw raw = .ok s) :
      Means scan (.literal raw) (.str (cString s))
  /-- `true` -/
  | trueName : Means scan (.word [116, 114, 117, 101]) (.bool true)
  /-- `false` -/
  | falseName : Means scan (.word [102, 97, 108, 115, 101]) (.bool false)
  /-- `null` -/
  | nullName : Means scan (.word [110, 117, 108, 108]) .null

/-- The phrases of JSON, with the values the reader gives to its scalars. -/
inductive Says (scan : List UInt8 → Option ℚ) : Phrase → List Json.Token → Prop
  /-- a scalar -/
  | scalar {x : Json.Token} {v : Json} (h : Means scan x v) : Says scan (.value v) [x]
  /-- an empty array -/
  | emptyArray : Says scan (.value (.arr [])) [.punct 91, .punct 93]
  /-- an array -/
  | array {vs : List Json} {ts : List Json.Token} (h : Says scan (.elements vs) ts) :
      Says scan (.value (.arr vs)) (.punct 91 :: ts)
  /-- the last element -/
  | lastElement {v : Json} {ts : List Json.Token} (h : Says scan (.value v) ts) :
      Says scan (.elements [v]) (ts ++ [.punct 93])
  /-- an element and others -/
  | element {v : Json} {vs : List Json} {ts us : List Json.Token} (h : Says scan (.value v) ts)
      (hs : Says scan (.elements vs) us) :
      Says scan (.elements (v :: vs)) (ts ++ .punct 44 :: us)
  /-- an empty object -/
  | emptyObject : Says scan (.value (.obj [])) [.punct 123, .punct 125]
  /-- an object -/
  | object {ms : List (CString × Json)} {ts : List Json.Token}
      (h : Says scan (.members true [] ms) ts) : Says scan (.value (.obj ms)) (.punct 123 :: ts)
  /-- the last member -/
  | lastMember {closable : Bool} {k s : List UInt8} {v : Json} {ms : List (CString × Json)}
      {ts : List Json.Token} (hk : Json.Literal k) (hs : decodeRaw k = .ok s)
      (h : Says scan (.value v) ts) :
      Says scan (.members closable ms (Json.insertMember (cString s) v ms))
        (.literal k :: .punct 58 :: (ts ++ [.punct 125]))
  /-- a member and others -/
  | member {closable : Bool} {k s : List UInt8} {v : Json} {ms ms' : List (CString × Json)}
      {ts us : List Json.Token} (hk : Json.Literal k) (hs : decodeRaw k = .ok s)
      (h : Says scan (.value v) ts)
      (hms : Says scan (.members (decide (s = [])) (Json.insertMember (cString s) v ms) ms') us) :
      Says scan (.members closable ms ms') (.literal k :: .punct 58 :: (ts ++ .punct 44 :: us))

variable {scan : List UInt8 → Option ℚ}

theorem Means.known {x : Json.Token} {v : Json} (h : Means scan x v) : Known x := by
  cases h with
  | number h _ _ _ => exact .inl h
  | string h _ => exact h
  | trueName | falseName | nullName => exact .inr (by decide)

theorem Says.known {p : Phrase} {ts : List Json.Token} (h : Says scan p ts) :
    ∀ t ∈ ts, Known t := by
  have hpunct : ∀ c ∈ ([91, 93, 123, 125, 44, 58] : List UInt8), Known (.punct c) :=
    fun _ hc => hc
  have hliteral : ∀ {raw}, Json.Literal raw → Known (.literal raw) := fun h => h
  induction h with
  | scalar h => exact List.forall_mem_singleton.mpr h.known
  | emptyArray | emptyObject => simp [hpunct]
  | array _ ih | object _ ih => simpa [hpunct] using ih
  | lastElement _ ih => simpa [hpunct, or_imp, forall_and] using ih
  | element _ _ ih ih' => simpa [hpunct, or_imp, forall_and] using ⟨ih, ih'⟩
  | lastMember hk _ _ ih => simpa [hpunct, hliteral hk, or_imp, forall_and] using ih
  | member hk _ _ _ ih ih' => simpa [hpunct, hliteral hk, or_imp, forall_and] using ⟨ih, ih'⟩

theorem apart_cons {x : Json.Token} {ts : List Json.Token} (hx : isWord x = false)
    (hts : Apart ts) : Apart (x :: ts) :=
  List.isChain_cons.mpr ⟨fun _ _ hword => absurd hword (by simp [hx]), hts⟩

theorem apart_append {x : Json.Token} {ts us : List Json.Token} (hx : isWord x = false)
    (hts : Apart ts) (hus : Apart us) : Apart (ts ++ x :: us) := by
  refine List.isChain_append.mpr ⟨hts, apart_cons hx hus, fun _ _ y hy _ => ?_⟩
  obtain rfl := Option.some.inj hy
  exact hx

theorem Says.apart {p : Phrase} {ts : List Json.Token} (h : Says scan p ts) : Apart ts := by
  have hnil : Apart [] := List.isChain_nil
  induction h with
  | scalar _ => exact List.isChain_singleton _
  | emptyArray | emptyObject => exact apart_cons rfl (apart_cons rfl hnil)
  | array _ ih | object _ ih => exact apart_cons rfl ih
  | lastElement _ ih => exact apart_append rfl ih hnil
  | element _ _ ih ih' => exact apart_append rfl ih ih'
  | lastMember _ _ _ ih => exact apart_cons rfl (apart_cons rfl (apart_append rfl ih hnil))
  | member _ _ _ _ ih ih' => exact apart_cons rfl (apart_cons rfl (apart_append rfl ih ih'))

theorem marks_append {ts us : List Json.Token} {l : List Token}
    (h : List.Forall₂ Marks (ts ++ us) l) :
    ∃ l₁ l₂, l = l₁ ++ l₂ ∧ List.Forall₂ Marks ts l₁ ∧ List.Forall₂ Marks us l₂ := by
  have htake := List.forall₂_take ts.length h
  have hdrop := List.forall₂_drop ts.length h
  rw [List.take_left] at htake
  rw [List.drop_left] at hdrop
  exact ⟨_, _, (List.take_append_drop ts.length l).symm, htake, hdrop⟩

/-- Tokens with a mark behind them. -/
theorem marks_concat {ts : List Json.Token} {x : Json.Token} {l : List Token}
    (h : List.Forall₂ Marks (ts ++ [x]) l) :
    ∃ us u, l = us ++ [u] ∧ List.Forall₂ Marks ts us ∧ Marks x u := by
  obtain ⟨us, l, rfl, hus, hl⟩ := marks_append h
  obtain ⟨u, l, hu, hnil, rfl⟩ := List.forall₂_cons_left_iff.mp hl
  obtain rfl := List.forall₂_nil_left_iff.mp hnil
  exact ⟨us, u, rfl, hus, hu⟩

/-- Tokens with a mark between them. -/
theorem marks_middle {ts ts' : List Json.Token} {x : Json.Token} {l : List Token}
    (h : List.Forall₂ Marks (ts ++ x :: ts') l) :
    ∃ us u us', l = us ++ u :: us' ∧ List.Forall₂ Marks ts us ∧ Marks x u ∧
      List.Forall₂ Marks ts' us' := by
  obtain ⟨us, l, rfl, hus, hl⟩ := marks_append h
  obtain ⟨u, us', hu, hus', rfl⟩ := List.forall₂_cons_left_iff.mp hl
  exact ⟨us, u, us', rfl, hus, hu, hus'⟩

theorem Means.scalar {x : Json.Token} {v : Json} {t : Token} (h : Means scan x v)
    (ht : Marks x t) : Scalar scan true t v := by
  cases h with
  | number h hlen hlt hv =>
    obtain ⟨c, ds, rfl, hc, -⟩ := h
    obtain ⟨htype, htext⟩ := ht
    rw [peek, scanToken_number hc] at htype
    exact .number htype (htext ▸ hv) fun _ => htext ▸ overruns_eq_false hlen hlt
  | string _ hs => exact .string ht.1 (ht.2 ▸ hs)
  | trueName => exact .trueName ht.1
  | falseName => exact .falseName ht.1
  | nullName => exact .nullName ht.1

theorem leading_nil : Leading .all [] := ⟨comments_nil, fun _ => rfl⟩

/-- **A phrase of JSON is one of the reader's.** -/
theorem Says.accepts {p : Phrase} {ts : List Json.Token} (h : Says scan p ts) {us : List Token}
    (hus : List.Forall₂ Marks ts us) : Accepts .all scan true p us := by
  induction h generalizing us with
  | scalar h =>
    obtain ⟨t, us', ht, hnil, rfl⟩ := List.forall₂_cons_left_iff.mp hus
    obtain rfl := List.forall₂_nil_left_iff.mp hnil
    exact .scalar leading_nil (h.scalar ht)
  | emptyArray =>
    obtain ⟨t, us', ht, hus', rfl⟩ := List.forall₂_cons_left_iff.mp hus
    obtain ⟨u, us'', hu, hnil, rfl⟩ := List.forall₂_cons_left_iff.mp hus'
    obtain rfl := List.forall₂_nil_left_iff.mp hnil
    exact .emptyArray leading_nil ht hu
  | array _ ih =>
    obtain ⟨t, us', ht, hus', rfl⟩ := List.forall₂_cons_left_iff.mp hus
    exact .array leading_nil ht (ih hus')
  | lastElement _ ih =>
    obtain ⟨us', u, rfl, hus', hu⟩ := marks_concat hus
    exact .lastElement (ih hus') comments_nil hu
  | element _ _ ih ih' =>
    obtain ⟨us, t, us', rfl, hus, ht, hus'⟩ := marks_middle hus
    have htype : t.type = .tokenArraySeparator := ht
    rw [← List.nil_append (t :: us')]
    exact .element (ih hus) comments_nil (by rw [htype]; decide) (by rw [htype]; decide)
      (ih' hus')
  | emptyObject =>
    obtain ⟨t, us', ht, hus', rfl⟩ := List.forall₂_cons_left_iff.mp hus
    obtain ⟨u, us'', hu, hnil, rfl⟩ := List.forall₂_cons_left_iff.mp hus'
    obtain rfl := List.forall₂_nil_left_iff.mp hnil
    exact .object leading_nil ht (.close comments_nil hu)
  | object _ ih =>
    obtain ⟨t, us', ht, hus', rfl⟩ := List.forall₂_cons_left_iff.mp hus
    exact .object leading_nil ht (ih hus')
  | lastMember _ hs _ ih =>
    obtain ⟨t, us', ht, hus', rfl⟩ := List.forall₂_cons_left_iff.mp hus
    obtain ⟨colon, us'', hcolon, hus'', rfl⟩ := List.forall₂_cons_left_iff.mp hus'
    obtain ⟨us, u, rfl, hvalue, hu⟩ := marks_concat hus''
    exact .lastMember comments_nil ht.1 (ht.2 ▸ hs) hcolon (ih hvalue) comments_nil hu
  | member _ hs _ _ ih ih' =>
    obtain ⟨t, us', ht, hus', rfl⟩ := List.forall₂_cons_left_iff.mp hus
    obtain ⟨colon, us'', hcolon, hus'', rfl⟩ := List.forall₂_cons_left_iff.mp hus'
    obtain ⟨us, comma, l, rfl, hus, hcomma, hl⟩ := marks_middle hus''
    have htype : comma.type = .tokenArraySeparator := hcomma
    rw [← List.nil_append (comma :: l)]
    exact .member comments_nil ht.1 (ht.2 ▸ hs) hcolon (ih hus) comments_nil
      (by rw [htype]; decide) (by rw [htype]; decide) (fun _ => htype) (ih' hl)

/-- A text of these tokens is read as the value. -/
theorem Says.parse {v : Json} {ts : List Json.Token} {s : List UInt8}
    (h : Says scan (.value v) ts) (hs : Json.Spaced ts s) (root : Json) :
    ∃ r, parse .all scan s root = some ⟨true, v, r⟩ ∧ r.overrun = false := by
  have htokens := tokens_spaced hs h.known h.apart
  obtain ⟨r, hparse, hclean⟩ := parse_of_accepts (fun hstrict => absurd hstrict (by decide))
    (List.append_nil _).symm (h.accepts htokens) root
  exact ⟨r, hparse, hclean rfl⟩

/-! ## JSON texts -/

theorem treeValues_cons {tree : Json.Tree} {trees : List Json.Tree} {vs : List Json}
    (h : treeValues scan (tree :: trees) = some vs) :
    ∃ x xs, treeValue scan tree = some x ∧ treeValues scan trees = some xs ∧ vs = x :: xs := by
  rw [treeValues] at h
  split at h
  · rename_i x xs hx hxs
    exact ⟨x, xs, hx, hxs, (Option.some.inj h).symm⟩
  · exact absurd h (by simp)

/-- A string is decoded to the characters it stands for. -/
theorem decodeRaw_of_readString {raw rest : List UInt8} {name : CString}
    (hraw : Json.Literal raw) (h : Json.readString (raw ++ [34]) = some (name, rest)) :
    ∃ s, decodeRaw raw = .ok s ∧ cString s = name := by
  rw [Json.readString] at h
  rcases hchars : Json.readChars (raw ++ [34]) with _ | ⟨cs, u⟩
  · simp [hchars] at h
  simp only [hchars] at h
  split_ifs at h with hnul
  obtain ⟨rfl, -⟩ := Prod.mk.inj (Option.some.inj h)
  refine ⟨cs, decodeRaw_of_readChars hraw hchars, Subtype.ext ?_⟩
  refine List.takeWhile_eq_self_iff.mpr fun c hc => ?_
  rw [decide_eq_true_eq]
  rintro rfl
  exact hnul hc

/-- A member is put into those that are there. -/
theorem treeMembers_cons {k : List UInt8} {tree : Json.Tree} {ms : List (List UInt8 × Json.Tree)}
    {acc ms' : List (CString × Json)} (h : treeMembers scan acc ((k, tree) :: ms) = some ms') :
    ∃ name rest x, Json.readString (k ++ [34]) = some (name, rest) ∧
      treeValue scan tree = some x ∧
      treeMembers scan (Json.insertMember name x acc) ms = some ms' := by
  rw [treeMembers] at h
  split at h
  · rename_i name rest x hname hx
    exact ⟨name, rest, x, hname, hx, h⟩
  · exact absurd h (by simp)

/-- What is said with the tokens of a part of a value. -/
def Tells (scan : List UInt8 → Option ℚ) (ts : List Json.Token) : Json.Phrase → Prop
  | .value tree => ∀ v, treeValue scan tree = some v → Says scan (.value v) ts
  | .elements trees => ∀ vs, treeValues scan trees = some vs →
      Says scan (.elements vs) (ts ++ [.punct 93])
  | .members ms => ∀ acc ms' closable, treeMembers scan acc ms = some ms' →
      Says scan (.members closable acc ms') (ts ++ [.punct 125])

/-- **What spells a value says it.** -/
theorem tells_of_spells {x : Json.Phrase} {ts : List Json.Token} (h : Json.Spells x ts) :
    Tells scan ts x := by
  induction h with
  | nullWord => exact fun v hv => Option.some.inj hv ▸ .scalar .nullName
  | trueWord => exact fun v hv => Option.some.inj hv ▸ .scalar .trueName
  | falseWord => exact fun v hv => Option.some.inj hv ▸ .scalar .falseName
  | num h =>
    intro v hv
    rw [treeValue] at hv
    split_ifs at hv with hlong
    rw [not_or, Nat.not_le] at hlong
    exact .scalar (.number (number_of_numeral h) hlong.1 hlong.2 hv)
  | str h =>
    intro v hv
    obtain ⟨⟨name, rest⟩, hread, rfl⟩ := Option.map_eq_some_iff.mp hv
    obtain ⟨s, hs, rfl⟩ := decodeRaw_of_readString h hread
    exact .scalar (.string h hs)
  | emptyArr => exact fun v hv => Option.some.inj hv ▸ .emptyArray
  | arr _ ih =>
    intro v hv
    obtain ⟨vs, hvs, rfl⟩ := Option.map_eq_some_iff.mp hv
    exact .array (ih vs hvs)
  | lastElement _ ih =>
    intro vs hvs
    obtain ⟨x, xs, hx, hxs, rfl⟩ := treeValues_cons hvs
    obtain rfl := Option.some.inj hxs
    exact .lastElement (ih x hx)
  | element _ _ ih ih' =>
    intro vs hvs
    obtain ⟨x, xs, hx, hxs, rfl⟩ := treeValues_cons hvs
    rw [List.append_assoc]
    exact .element (ih x hx) (ih' xs hxs)
  | emptyObj => exact fun v hv => Option.some.inj hv ▸ .emptyObject
  | obj _ ih =>
    intro v hv
    obtain ⟨ms, hms, rfl⟩ := Option.map_eq_some_iff.mp hv
    exact .object (ih [] ms true hms)
  | lastMember hk _ ih =>
    intro acc ms closable hms
    obtain ⟨name, rest, x, hname, hx, hms⟩ := treeMembers_cons hms
    obtain ⟨s, hs, rfl⟩ := decodeRaw_of_readString hk hname
    obtain rfl := Option.some.inj hms
    exact .lastMember hk hs (ih x hx)
  | member hk _ _ ih ih' =>
    intro acc ms closable hms
    obtain ⟨name, rest, x, hname, hx, hms⟩ := treeMembers_cons hms
    obtain ⟨s, hs, rfl⟩ := decodeRaw_of_readString hk hname
    rw [List.cons_append, List.cons_append, List.append_assoc]
    exact .member hk hs (ih x hx) (ih' _ ms _ hms)

/-- **JSON is read as what it says**: a text that denotes a value with a meaning is accepted
with that meaning, and nothing is written behind an array. -/
theorem parse_of_denotes {scan : List UInt8 → Option ℚ} {s : List UInt8} {tree : Json.Tree}
    {v : Json} (h : Json.Denotes s tree) (hv : treeValue scan tree = some v) (root : Json) :
    ∃ r, parse .all scan s root = some ⟨true, v, r⟩ ∧ r.overrun = false := by
  obtain ⟨ts, hspells, hspaced⟩ := h
  exact (tells_of_spells hspells v hv).parse hspaced root

/-- The text ` [12,-0.5]`, with a `sscanf` that knows one number. -/
theorem parse_of_denotes_double :
    Json.Denotes [32, 91, 49, 50, 44, 45, 48, 46, 53, 93]
        (.arr [.num [49, 50], .num [45, 48, 46, 53]]) ∧
      treeValue (fun text => if text = [45, 48, 46, 53] then some (-1 / 2) else none)
        (.arr [.num [49, 50], .num [45, 48, 46, 53]]) = some (.arr [.int 12, .real (-1 / 2)]) ∧
      ∃ r, parse .all (fun text => if text = [45, 48, 46, 53] then some (-1 / 2) else none)
          [32, 91, 49, 50, 44, 45, 48, 46, 53, 93] .null =
        some ⟨true, .arr [.int 12, .real (-1 / 2)], r⟩ ∧ r.overrun = false := by
  have hwhole : Json.Numeral [49, 50] :=
    @Json.Numeral.mk [] [49, 50] [] [] (.inl rfl)
      (.inr ⟨49, [50], rfl, by decide, by decide, by rw [Json.AllDigits]; decide⟩) (.inl rfl)
      (.inl rfl)
  have hdouble : Json.Numeral [45, 48, 46, 53] :=
    @Json.Numeral.mk [45] [48] [46, 53] [] (.inr rfl) (.inl rfl)
      (.inr ⟨[53], rfl, by decide, by rw [Json.AllDigits]; decide⟩) (.inl rfl)
  have h : Json.Denotes [32, 91, 49, 50, 44, 45, 48, 46, 53, 93]
      (.arr [.num [49, 50], .num [45, 48, 46, 53]]) :=
    ⟨_, .arr (.element (.num hwhole) (.lastElement (.num hdouble))), .space (by decide)
      (.token (.punct 91) (.token (.word [49, 50]) (.token (.punct 44)
        (.token (.word [45, 48, 46, 53]) (.token (.punct 93) .nil)))))⟩
  exact ⟨h, rfl, parse_of_denotes h rfl .null⟩

end Reader

end MyServer
