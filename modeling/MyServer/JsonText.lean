import MyServer.TightText

/-!
# JSON texts

The grammar of JSON as rules: `Literal` for what stands between the quotes of a string,
`Numeral` for a number, `Spells` for the tokens of a value, and `Spaced` for a text, which is
tokens with white space around them. Bytes that are neither a quote nor a backslash may
stand in a literal as they are, control characters included.

`Place` is the machine that knows of each byte of a text whether it stands in a literal: a
quote begins and ends one, unless it stands behind the backslash of an escape.
-/

namespace MyServer

namespace Json

/-- A JSON value, with its numbers and strings by their texts and its members as they come. -/
inductive Tree : Type
  | null
  | bool (b : Bool)
  | num (text : List UInt8)
  | str (text : List UInt8)
  | arr (vs : List Tree)
  | obj (ms : List (List UInt8 × Tree))

/-- A run of digits. -/
def AllDigits (ds : List UInt8) : Prop := ∀ c ∈ ds, isDigit c = true

/-- A number: a sign, the digits before the point without a leading zero, a fraction and an
exponent. -/
inductive Numeral : List UInt8 → Prop
  | mk {sign whole fraction exponent : List UInt8}
      (hsign : sign = [] ∨ sign = [45])
      (hwhole : whole = [48] ∨
        ∃ d ds, whole = d :: ds ∧ isDigit d = true ∧ d ≠ 48 ∧ AllDigits ds)
      (hfraction : fraction = [] ∨ ∃ ds, fraction = 46 :: ds ∧ ds ≠ [] ∧ AllDigits ds)
      (hexponent : exponent = [] ∨ ∃ e sign ds, exponent = e :: (sign ++ ds) ∧
        (e = 101 ∨ e = 69) ∧ (sign = [] ∨ sign = [43] ∨ sign = [45]) ∧ ds ≠ [] ∧ AllDigits ds) :
      Numeral (sign ++ whole ++ fraction ++ exponent)

/-- What stands between the quotes of a string. -/
inductive Literal : List UInt8 → Prop
  | nil : Literal []
  | plain {c : UInt8} {raw : List UInt8} (hquote : c ≠ 34) (hslash : c ≠ 92) :
      Literal raw → Literal (c :: raw)
  | escape {c : UInt8} {raw : List UInt8} (hc : (unescape c).isSome = true) :
      Literal raw → Literal (92 :: c :: raw)
  | unicode {x y z w : UInt8} {raw : List UInt8} (hx : (hexValue x).isSome = true)
      (hy : (hexValue y).isSome = true) (hz : (hexValue z).isSome = true)
      (hw : (hexValue w).isSome = true) :
      Literal raw → Literal (92 :: 117 :: x :: y :: z :: w :: raw)

/-- A token. -/
inductive Token : Type
  /-- a bracket, a brace, a comma or a colon -/
  | punct (c : UInt8)
  /-- a number, or one of the three names -/
  | word (text : List UInt8)
  /-- a string -/
  | literal (raw : List UInt8)

/-- The text of a token. -/
def Token.text : Token → List UInt8
  | punct c => [c]
  | word text => text
  | literal raw => 34 :: (raw ++ [34])

/-- A part of a value: a value, the elements of an array or the members of an object. -/
inductive Phrase : Type
  | value (v : Tree)
  | elements (vs : List Tree)
  | members (ms : List (List UInt8 × Tree))

/-- The tokens of a value. -/
inductive Spells : Phrase → List Token → Prop
  | nullWord : Spells (.value .null) [.word [110, 117, 108, 108]]
  | trueWord : Spells (.value (.bool true)) [.word [116, 114, 117, 101]]
  | falseWord : Spells (.value (.bool false)) [.word [102, 97, 108, 115, 101]]
  | num {text : List UInt8} (h : Numeral text) : Spells (.value (.num text)) [.word text]
  | str {raw : List UInt8} (h : Literal raw) : Spells (.value (.str raw)) [.literal raw]
  | emptyArr : Spells (.value (.arr [])) [.punct 91, .punct 93]
  | arr {vs : List Tree} {ts : List Token} : Spells (.elements vs) ts →
      Spells (.value (.arr vs)) (.punct 91 :: (ts ++ [.punct 93]))
  | lastElement {v : Tree} {ts : List Token} : Spells (.value v) ts → Spells (.elements [v]) ts
  | element {v : Tree} {vs : List Tree} {ts us : List Token} : Spells (.value v) ts →
      Spells (.elements vs) us → Spells (.elements (v :: vs)) (ts ++ .punct 44 :: us)
  | emptyObj : Spells (.value (.obj [])) [.punct 123, .punct 125]
  | obj {ms : List (List UInt8 × Tree)} {ts : List Token} : Spells (.members ms) ts →
      Spells (.value (.obj ms)) (.punct 123 :: (ts ++ [.punct 125]))
  | lastMember {k : List UInt8} {v : Tree} {ts : List Token} (hk : Literal k) :
      Spells (.value v) ts → Spells (.members [(k, v)]) (.literal k :: .punct 58 :: ts)
  | member {k : List UInt8} {v : Tree} {ms : List (List UInt8 × Tree)} {ts us : List Token}
      (hk : Literal k) : Spells (.value v) ts → Spells (.members ms) us →
      Spells (.members ((k, v) :: ms)) (.literal k :: .punct 58 :: (ts ++ .punct 44 :: us))

/-- The tokens of a text, with white space before, between and after them. -/
inductive Spaced : List Token → List UInt8 → Prop
  | nil : Spaced [] []
  | space {c : UInt8} {ts : List Token} {s : List UInt8} (hc : isWs c = true) :
      Spaced ts s → Spaced ts (c :: s)
  | token (t : Token) {ts : List Token} {s : List UInt8} :
      Spaced ts s → Spaced (t :: ts) (t.text ++ s)

/-- The text `s` denotes the value `v`. -/
def Denotes (s : List UInt8) (v : Tree) : Prop := ∃ ts, Spells (.value v) ts ∧ Spaced ts s

/-! ## Where literals are -/

/-- Where a byte of a text stands. -/
inductive Place : Type
  /-- between string literals -/
  | outside
  /-- in a literal -/
  | inside
  /-- in a literal, behind the backslash of an escape -/
  | escaped
  deriving DecidableEq

/-- The place of the byte after `c`. -/
def Place.next : Place → UInt8 → Place
  | outside, c => if c = 34 then inside else outside
  | inside, c => if c = 34 then outside else if c = 92 then escaped else inside
  | escaped, _ => inside

/-- The place after a text. -/
def Place.after (p : Place) (s : List UInt8) : Place := s.foldl next p

@[simp] theorem Place.after_nil (p : Place) : p.after [] = p := rfl

@[simp] theorem Place.after_cons (p : Place) (c : UInt8) (s : List UInt8) :
    p.after (c :: s) = (p.next c).after s := rfl

@[simp] theorem Place.after_append (p : Place) (s t : List UInt8) :
    p.after (s ++ t) = (p.after s).after t := List.foldl_append ..

/-! ## What tokens are made of -/

theorem Numeral.quiet {text : List UInt8} (h : Numeral text) : Quiet text := by
  obtain ⟨hsign, hwhole, hfraction, hexponent⟩ := h
  have happend : ∀ {s t : List UInt8}, Quiet s → Quiet t → Quiet (s ++ t) := by
    intro s t hs ht
    exact List.forall_mem_append.mpr ⟨hs, ht⟩
  have hcons : ∀ {c : UInt8} {s : List UInt8}, (isBlank c = false ∧ c ≠ 34) → Quiet s →
      Quiet (c :: s) := by
    intro c s hc hs
    exact List.forall_mem_cons.mpr ⟨hc, hs⟩
  have hnil : Quiet [] := fun _ hc => absurd hc List.not_mem_nil
  refine happend (happend (happend ?_ ?_) ?_) ?_
  · rcases hsign with rfl | rfl
    · exact hnil
    · exact hcons (by decide) hnil
  · rcases hwhole with rfl | ⟨d, ds, rfl, hd, -, hds⟩
    · exact hcons (by decide) hnil
    · exact quiet_of_isDigit (List.forall_mem_cons.mpr ⟨hd, hds⟩)
  · rcases hfraction with rfl | ⟨ds, rfl, -, hds⟩
    · exact hnil
    · exact hcons (by decide) (quiet_of_isDigit hds)
  · rcases hexponent with rfl | ⟨e, sign, ds, rfl, he, hsign, -, hds⟩
    · exact hnil
    · refine hcons ?_ (happend ?_ (quiet_of_isDigit hds))
      · rcases he with rfl | rfl <;> decide
      · rcases hsign with rfl | rfl | rfl
        · exact hnil
        · exact hcons (by decide) hnil
        · exact hcons (by decide) hnil

/-- A token as a value has it. -/
def Token.WellFormed : Token → Prop
  | punct c => isBlank c = false ∧ c ≠ 34
  | word text => Quiet text
  | literal raw => Literal raw

theorem Spells.wellFormed {x : Phrase} {ts : List Token} (h : Spells x ts) :
    ∀ t ∈ ts, t.WellFormed := by
  have hpunct : ∀ c : UInt8, c ∈ [91, 93, 123, 125, 44, 58] → (Token.punct c).WellFormed := by
    intro c hc
    have hall : ∀ c ∈ ([91, 93, 123, 125, 44, 58] : List UInt8), isBlank c = false ∧ c ≠ 34 := by
      decide
    exact hall c hc
  have hliteral : ∀ {raw}, Literal raw → (Token.literal raw).WellFormed := fun h => h
  induction h with
  | nullWord | trueWord | falseWord =>
    intro t ht
    obtain rfl := List.mem_singleton.mp ht
    rw [Token.WellFormed, Quiet]
    decide
  | num h =>
    intro t ht
    obtain rfl := List.mem_singleton.mp ht
    exact h.quiet
  | str h => simp [hliteral h]
  | emptyArr | emptyObj => simp [hpunct]
  | arr _ ih | obj _ ih => simpa [hpunct, or_imp, forall_and] using ih
  | lastElement _ ih => exact ih
  | element _ _ ih ih' => simpa [hpunct, or_imp, forall_and] using ⟨ih, ih'⟩
  | lastMember hk _ ih => simpa [hpunct, hliteral hk] using ih
  | member hk _ _ ih ih' => simpa [hpunct, hliteral hk, or_imp, forall_and] using ⟨ih, ih'⟩

/-! ## What stands in a literal -/

/-- The whole text stands in literals. -/
def Held : Place → List UInt8 → Prop
  | _, [] => True
  | p, c :: s => p ≠ .outside ∧ Held (p.next c) s

/-- No white space stands behind the backslash of an escape. -/
def Tame : Place → List UInt8 → Prop
  | _, [] => True
  | p, c :: s => (p = .escaped → isBlank c = false) ∧ Tame (p.next c) s

theorem held_append {p : Place} {s t : List UInt8} :
    Held p (s ++ t) ↔ Held p s ∧ Held (p.after s) t := by
  induction s generalizing p with
  | nil => simp [Held]
  | cons c s ih => simp [Held, ih, and_assoc]

theorem tame_append {p : Place} {s t : List UInt8} :
    Tame p (s ++ t) ↔ Tame p s ∧ Tame (p.after s) t := by
  induction s generalizing p with
  | nil => simp [Tame]
  | cons c s ih => simp [Tame, ih, and_assoc]

/-- **A literal is one**: the machine stays inside to its end. -/
theorem Literal.stays {raw : List UInt8} (h : Literal raw) :
    Place.inside.after raw = .inside ∧ Held .inside raw ∧ Tame .inside raw := by
  have hescape : ∀ c : UInt8, (unescape c).isSome = true → isBlank c = false :=
    forall_byte (by decide +kernel)
  have hhex : ∀ c : UInt8, (hexValue c).isSome = true → Place.inside.next c = .inside :=
    forall_byte (by decide +kernel)
  induction h with
  | nil => simp [Held, Tame]
  | plain hquote hslash _ ih =>
    have hnext : Place.inside.next _ = .inside := (if_neg hquote).trans (if_neg hslash)
    simpa [Held, Tame, hnext] using ih
  | escape hc _ ih =>
    have hslash : Place.inside.next 92 = .escaped := rfl
    have hback : ∀ c, Place.escaped.next c = .inside := fun _ => rfl
    simpa [Held, Tame, hslash, hback, hescape _ hc] using ih
  | unicode hx hy hz hw _ ih =>
    have hslash : Place.inside.next 92 = .escaped := rfl
    have hback : ∀ c, Place.escaped.next c = .inside := fun _ => rfl
    have hu : isBlank 117 = false := by decide
    simpa [Held, Tame, hslash, hback, hu, hhex _ hx, hhex _ hy, hhex _ hz, hhex _ hw] using ih

/-- A quiet text between literals. -/
theorem outside_of_quiet {w : List UInt8} (h : Quiet w) :
    Place.outside.after w = .outside ∧ Tame .outside w := by
  induction w with
  | nil => exact ⟨rfl, trivial⟩
  | cons c w ih =>
    obtain ⟨hc, hw⟩ := List.forall_mem_cons.mp h
    have hnext : Place.outside.next c = .outside := if_neg hc.2
    obtain ⟨hafter, htame⟩ := ih hw
    simp [Tame, hnext, hafter, htame]

/-- After a token the machine is outside again. -/
theorem Token.WellFormed.outside {t : Token} (h : t.WellFormed) :
    Place.outside.after t.text = .outside ∧ Tame .outside t.text := by
  cases t with
  | punct c => exact outside_of_quiet (List.forall_mem_singleton.mpr h)
  | word text => exact outside_of_quiet h
  | literal raw =>
    have hquote : Place.outside.next 34 = .inside := rfl
    have hend : Place.inside.next 34 = .outside := rfl
    obtain ⟨hafter, -, htame⟩ := Literal.stays h
    simp [Token.text, Tame, tame_append, hquote, hend, hafter, htame]

/-- White space between tokens. -/
theorem next_of_isWs {c : UInt8} (hc : isWs c = true) : Place.outside.next c = .outside := by
  have hall : ∀ c : UInt8, isWs c = true → c ≠ 34 := forall_byte (by decide +kernel)
  exact if_neg (hall c hc)

theorem Spaced.tame {ts : List Token} {s : List UInt8} (h : Spaced ts s)
    (hts : ∀ t ∈ ts, t.WellFormed) : Tame .outside s := by
  induction h with
  | nil => trivial
  | space hc _ ih =>
    refine ⟨fun hp => absurd hp (by simp), ?_⟩
    rw [next_of_isWs hc]
    exact ih hts
  | token t _ ih =>
    obtain ⟨ht, hts⟩ := List.forall_mem_cons.mp hts
    rw [tame_append, ht.outside.1]
    exact ⟨ht.outside.2, ih hts⟩

end Json

end MyServer
