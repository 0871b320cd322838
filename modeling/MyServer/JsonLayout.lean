import MyServer.TightText

/-!
# Texts of nested values

The writer, the reader and `tighten` on values of every shape. A text *lays out* a value
(`Lays`) when it is made of the texts of its scalars, of brackets, braces, colons and
commas, with white space between them as one likes. Three facts follow one another: the
styled writer lays out its value (`lays_toStyledString`), `tighten` turns a layout of a
value into a layout of the squeezed value (`Lays.tighten`), and whoever reads a layout gets
the value (`Lays.reads`), with its members in order and its numbers in the kind the reader
gives them (`reread`).

So what is read of a written value, tightened or not, is known for all values
(`read_toStyledString`, `read_tighten_toStyledString`). Of the text of a `double` it is
assumed that it has no white space, and that some function `num` says what number is read of
it (`RealText`).
-/

namespace MyServer

namespace Json

/-! ## What is read of a value -/

mutual

/-- The value that is read of a text of this value: integers in the narrowest kind, for each
`double` what `num` says, members in order. -/
def reread (num : ℚ → Json) : Json → Json
  | null => null
  | int n => int n
  | uint n => ofInteger n.toNat
  | real q => num q
  | str s => str s
  | bool b => bool b
  | arr xs => arr (rereadItems num xs)
  | obj ms => obj (insertAll (rereadMembers num ms) [])

/-- `reread` on the elements of an array. -/
def rereadItems (num : ℚ → Json) : List Json → List Json
  | [] => []
  | x :: xs => reread num x :: rereadItems num xs

/-- `reread` on the members of an object. -/
def rereadMembers (num : ℚ → Json) : List (CString × Json) → List (CString × Json)
  | [] => []
  | (k, v) :: ms => (k, reread num v) :: rereadMembers num ms

end

mutual

/-- The flag after the text of a value. -/
def flagJson (f : Bool) : Json → Bool
  | str s => flagAfter f s.val
  | arr xs => flagItems f xs
  | obj ms => flagMembers f ms
  | null | int _ | uint _ | real _ | bool _ => f

/-- `flagJson` on the elements of an array, one after the other. -/
def flagItems (f : Bool) : List Json → Bool
  | [] => f
  | x :: xs => flagItems (flagJson f x) xs

/-- `flagJson` on the names and values of an object. -/
def flagMembers (f : Bool) : List (CString × Json) → Bool
  | [] => f
  | (k, v) :: ms => flagMembers (flagJson (flagAfter f k.val) v) ms

end

mutual

/-- What `tighten` leaves of a value: each string squeezed under the flag it is met with. -/
def squeezeJson (f : Bool) : Json → Json
  | str s => str (s.squeeze !f)
  | arr xs => arr (squeezeItems f xs)
  | obj ms => obj (squeezeObject f ms)
  | null => null
  | int n => int n
  | uint n => uint n
  | real q => real q
  | bool b => bool b

/-- `squeezeJson` on the elements of an array. -/
def squeezeItems (f : Bool) : List Json → List Json
  | [] => []
  | x :: xs => squeezeJson f x :: squeezeItems (flagJson f x) xs

/-- `squeezeJson` on the names and values of an object. -/
def squeezeObject (f : Bool) : List (CString × Json) → List (CString × Json)
  | [] => []
  | (k, v) :: ms =>
    (k.squeeze !f, squeezeJson (flagAfter f k.val) v) ::
      squeezeObject (flagJson (flagAfter f k.val) v) ms

end

/-! ## Layouts -/

/-- What is assumed of the text of a `double`. -/
structure RealText (realText : ℚ → List UInt8) (num : ℚ → Json) : Prop where
  /-- no white space and no quotes -/
  quiet : ∀ q, Quiet (realText q)
  /-- this is read of it -/
  reads : ∀ q, Reads (realText q) (num q)

/-- A value the writer has a text for: no elements and no members. -/
def Scalar : Json → Prop
  | arr xs => xs = []
  | obj ms => ms = []
  | _ => True

/-- A part of a text: a value, or the elements of an array or the members of an object up
to the bracket or brace behind them. -/
inductive Part : Type where
  /-- a value -/
  | value : Json → Part
  /-- the elements of an array -/
  | items : List Json → Part
  /-- the members of an object -/
  | members : List (CString × Json) → Part

/-- A text lays out a part. -/
inductive Lays (realText : ℚ → List UInt8) : Part → List UInt8 → Prop where
  /-- a scalar -/
  | scalar {v : Json} (hv : Scalar v) : Lays realText (.value v) (scalarText realText v)
  /-- an array -/
  | arr {xs : List Json} {t : List UInt8} (h : Lays realText (.items xs) t) :
    Lays realText (.value (.arr xs)) (91 :: t)
  /-- an object -/
  | obj {ms : List (CString × Json)} {t : List UInt8} (h : Lays realText (.members ms) t) :
    Lays realText (.value (.obj ms)) (123 :: t)
  /-- the last element -/
  | lastItem {w₁ w₂ t : List UInt8} {x : Json} (h₁ : Breaks w₁) (h₂ : Breaks w₂)
    (hx : Lays realText (.value x) t) : Lays realText (.items [x]) ((w₁ ++ t) ++ (w₂ ++ [93]))
  /-- an element and a comma -/
  | item {w₁ w₂ t u : List UInt8} {x : Json} {xs : List Json} (h₁ : Breaks w₁) (h₂ : Breaks w₂)
    (hx : Lays realText (.value x) t) (hxs : Lays realText (.items xs) u) :
    Lays realText (.items (x :: xs)) ((w₁ ++ t) ++ (w₂ ++ 44 :: u))
  /-- the last member -/
  | lastMember {w₁ w₂ w₃ w₄ t : List UInt8} {k : CString} {v : Json} (h₁ : Breaks w₁)
    (h₂ : Breaks w₂) (h₃ : Breaks w₃) (h₄ : Breaks w₄) (hv : Lays realText (.value v) t) :
    Lays realText (.members [(k, v)])
      (w₁ ++ (valueToQuotedString k ++ (w₂ ++ 58 :: ((w₃ ++ t) ++ (w₄ ++ [125])))))
  /-- a member and a comma -/
  | member {w₁ w₂ w₃ w₄ t u : List UInt8} {k : CString} {v : Json} {ms : List (CString × Json)}
    (h₁ : Breaks w₁) (h₂ : Breaks w₂) (h₃ : Breaks w₃) (h₄ : Breaks w₄)
    (hv : Lays realText (.value v) t) (hms : Lays realText (.members ms) u) :
    Lays realText (.members ((k, v) :: ms))
      (w₁ ++ (valueToQuotedString k ++ (w₂ ++ 58 :: ((w₃ ++ t) ++ (w₄ ++ 44 :: u)))))

/-! ## Reading a layout -/

/-- `t` is a text of elements, up to the closing bracket. -/
def ReadsItems (t : List UInt8) (xs : List Json) : Prop :=
  ∀ n rest, t.length ≤ n → readItems n (t ++ rest) = some (xs, rest)

theorem stop_of_blank {w t : List UInt8} {c : UInt8} (hw : Blank w) (hc : c = 44 ∨ c = 93) :
    Stop (w ++ c :: t) := by
  refine stop_append hw (stop_token ?_ t)
  rcases hc with rfl | rfl <;> decide

/-- **Step**: an element and a comma. -/
theorem ReadsItems.step {t w u : List UInt8} {x : Json} {xs : List Json} (hx : Reads t x)
    (hw : Blank w) (hxs : ReadsItems u xs) : ReadsItems (t ++ (w ++ 44 :: u)) (x :: xs) := by
  intro n rest hn
  simp only [List.length_append, List.length_cons] at hn
  cases n with
  | zero => exact absurd hn (by omega)
  | succ n =>
    simp only [List.append_assoc, List.cons_append]
    rw [readItems, hx n _ (by omega) (stop_of_blank hw (.inl rfl))]
    simp only [expect_append hw, expect_self (show isWs 44 = false by decide),
      hxs n rest (by omega), Option.map_some]

/-- **End**: an element and the bracket. -/
theorem ReadsItems.last {t w : List UInt8} {x : Json} (hx : Reads t x) (hw : Blank w) :
    ReadsItems (t ++ (w ++ [93])) [x] := by
  intro n rest hn
  simp only [List.length_append, List.length_cons] at hn
  cases n with
  | zero => exact absurd hn (by omega)
  | succ n =>
    simp only [List.append_assoc, List.cons_append, List.nil_append]
    rw [readItems, hx n _ (by omega) (stop_of_blank hw (.inr rfl))]
    simp only [expect_append hw, expect_ne (show isWs 93 = false by decide)
      (show (93 : UInt8) ≠ 44 by decide), expect_self (show isWs 93 = false by decide),
      Option.map_some]

/-- No value begins with a bracket that closes. -/
theorem readValue_of_expect {s u : List UInt8} (h : expect 93 s = some u) (n : ℕ) :
    readValue n s = none := by
  cases n with
  | zero => rfl
  | succ n =>
    rw [expect] at h
    rw [readValue]
    split at h
    · exact absurd h (Option.some_ne_none u).symm
    · rename_i c s' hskip
      split_ifs at h with hc
      subst hc
      simp [readLiteral, isDigit]

/-- **Arrays**: the bracket and the elements. -/
theorem ReadsItems.reads {t : List UInt8} {xs : List Json} (h : ReadsItems t xs) :
    Reads (91 :: t) (arr xs) := by
  intro n rest hn _
  rw [List.length_cons] at hn
  cases n with
  | zero => exact absurd hn (by omega)
  | succ n =>
    have ht := h n rest (by omega)
    -- with the closing bracket right behind it there would be no element to read
    have hbracket : expect 93 (t ++ rest) = none := by
      rcases hclose : expect 93 (t ++ rest) with _ | u
      · rfl
      · cases n with
        | zero => exact absurd ht (by simp [readItems])
        | succ n =>
          rw [readItems, readValue_of_expect hclose] at ht
          exact absurd ht (Option.some_ne_none _).symm
    rw [List.cons_append, readValue, skipWs_cons (by decide)]
    simp only [show ¬ (91 : UInt8) = 34 by decide, show ¬ (91 : UInt8) = 123 by decide, if_false,
      if_true, hbracket, ht, Option.map_some]

/-- A scalar without a number or a string reads as it is. -/
theorem reads_word {t : List UInt8} {v : Json} (hne : t ≠ [])
    (h : ∀ n rest, readValue (n + 1) (t ++ rest) = some (v, rest)) : Reads t v := by
  intro n rest hn _
  have hpos := List.length_pos_iff.mpr hne
  cases n with
  | zero => exact absurd hn (by omega)
  | succ n => exact h n rest

theorem reads_scalar {realText : ℚ → List UInt8} {num : ℚ → Json} (R : RealText realText num)
    {v : Json} (hv : Scalar v) : Reads (scalarText realText v) (reread num v) := by
  cases v with
  | int n => exact reads_int n
  | uint n => exact reads_uint n
  | real q => exact R.reads q
  | str s => exact reads_str s
  | null =>
    refine reads_word (List.cons_ne_nil _ _) fun n rest => ?_
    simp [scalarText, readValue, skipWs, isWs, isDigit, readLiteral, reread]
  | bool b =>
    cases b <;> refine reads_word (List.cons_ne_nil _ _) fun n rest => ?_ <;>
      simp [scalarText, readValue, skipWs, isWs, isDigit, readLiteral, reread]
  | arr xs =>
    obtain rfl : xs = [] := hv
    refine reads_word (List.cons_ne_nil _ _) fun n rest => ?_
    simp [scalarText, readValue, skipWs, isWs, expect, reread, rereadItems]
  | obj ms =>
    obtain rfl : ms = [] := hv
    refine reads_word (List.cons_ne_nil _ _) fun n rest => ?_
    simp [scalarText, readValue, skipWs, isWs, expect, reread, rereadMembers, insertAll]

/-- What reading a part of a text gives. -/
def Part.Reads (num : ℚ → Json) (t : List UInt8) : Part → Prop
  | .value v => Json.Reads t (reread num v)
  | .items xs => ReadsItems t (rereadItems num xs)
  | .members ms => ∀ acc, ReadsMembers acc t (insertAll (rereadMembers num ms) acc)

theorem blank_of_breaks {w : List UInt8} (hw : Breaks w) : Blank w := blank_kept hw true

/-- **A layout reads as its value.** -/
theorem Lays.reads {realText : ℚ → List UInt8} {num : ℚ → Json} (R : RealText realText num)
    {p : Part} {t : List UInt8} (h : Lays realText p t) : p.Reads num t := by
  induction h with
  | scalar hv => exact reads_scalar R hv
  | arr _ ih => exact ReadsItems.reads ih
  | obj _ ih => exact ReadsMembers.reads (ih [])
  | lastItem h₁ h₂ _ ih =>
    exact ReadsItems.last (Reads.of_blank (blank_of_breaks h₁) ih) (blank_of_breaks h₂)
  | item h₁ h₂ _ _ ih ihs =>
    exact ReadsItems.step (Reads.of_blank (blank_of_breaks h₁) ih) (blank_of_breaks h₂) ihs
  | lastMember h₁ h₂ h₃ h₄ _ ih =>
    intro acc
    exact ReadsMembers.last (blank_of_breaks h₁) (blank_of_breaks h₂) (blank_of_breaks h₄)
      (Reads.of_blank (blank_of_breaks h₃) ih)
  | member h₁ h₂ h₃ h₄ _ _ ih ihs =>
    intro acc
    exact ReadsMembers.step (blank_of_breaks h₁) (blank_of_breaks h₂) (blank_of_breaks h₄)
      (Reads.of_blank (blank_of_breaks h₃) ih) (ihs _)

/-! ## Tightening a layout -/

/-- What `tighten` leaves of a part. -/
def Part.squeeze (f : Bool) : Part → Part
  | .value v => .value (squeezeJson f v)
  | .items xs => .items (squeezeItems f xs)
  | .members ms => .members (squeezeObject f ms)

/-- The flag after a part. -/
def Part.flag (f : Bool) : Part → Bool
  | .value v => flagJson f v
  | .items xs => flagItems f xs
  | .members ms => flagMembers f ms

theorem breaks_kept {w : List UInt8} (hw : Breaks w) (f : Bool) : Breaks (kept f w) := by
  cases f with
  | false => exact breaks_nil
  | true => exact hw

/-- A bracket, a brace, a colon or a comma stays. -/
theorem tightenFrom_token {c : UInt8} (hblank : isBlank c = false) (hquote : c ≠ 34) (f : Bool)
    (t : List UInt8) :
    tightenFrom f (c :: t) = c :: tightenFrom f t ∧ flagAfter f (c :: t) = flagAfter f t := by
  rw [tightenFrom, flagAfter_cons, hblank, if_neg hquote]
  exact ⟨rfl, rfl⟩

theorem lays_tighten_scalar {realText : ℚ → List UInt8} (hreal : ∀ q, Quiet (realText q))
    {v : Json} (hv : Scalar v) (f : Bool) :
    Lays realText (.value (squeezeJson f v)) (tightenFrom f (scalarText realText v)) ∧
      flagAfter f (scalarText realText v) = flagJson f v := by
  have hquiet : ∀ {v : Json}, Scalar v → squeezeJson f v = v → flagJson f v = f →
      Quiet (scalarText realText v) → Lays realText (.value (squeezeJson f v))
        (tightenFrom f (scalarText realText v)) ∧
        flagAfter f (scalarText realText v) = flagJson f v := by
    intro v hv hsame hflag hq
    obtain ⟨htext, hafter⟩ := hq.tightenFrom f
    rw [hsame, hflag, htext, hafter]
    exact ⟨.scalar hv, rfl⟩
  have hwords : ∀ t ∈ ([[110, 117, 108, 108], [116, 114, 117, 101], [102, 97, 108, 115, 101],
      [91, 93], [123, 125]] : List (List UInt8)), Quiet t := by
    unfold Quiet
    decide
  cases v with
  | str s =>
    obtain ⟨htext, hflag⟩ := tightenFrom_quoted f s
    simp only [scalarText, htext, hflag, squeezeJson, flagJson, and_true]
    exact Lays.scalar (v := .str (s.squeeze !f)) trivial
  | int n => exact hquiet hv rfl rfl (quiet_intToString n)
  | uint n => exact hquiet hv rfl rfl (uintToString_digits n).quiet
  | real q => exact hquiet hv rfl rfl (hreal q)
  | null => exact hquiet hv rfl rfl (hwords _ (by simp [scalarText]))
  | bool b =>
    refine hquiet hv rfl rfl (hwords _ ?_)
    cases b <;> simp [scalarText]
  | arr xs =>
    obtain rfl : xs = [] := hv
    exact hquiet rfl rfl rfl (hwords _ (by simp [scalarText]))
  | obj ms =>
    obtain rfl : ms = [] := hv
    exact hquiet rfl rfl rfl (hwords _ (by simp [scalarText]))

/-- **`tighten` turns a layout of a value into a layout of the squeezed value.** -/
theorem Lays.tighten {realText : ℚ → List UInt8} (hreal : ∀ q, Quiet (realText q))
    {p : Part} {t : List UInt8} (h : Lays realText p t) (f : Bool) :
    Lays realText (p.squeeze f) (tightenFrom f t) ∧ flagAfter f t = p.flag f := by
  have htoken : ∀ c ∈ ([91, 123, 93, 44, 58, 125] : List UInt8), ∀ (f : Bool) (t : List UInt8),
      tightenFrom f (c :: t) = c :: tightenFrom f t ∧ flagAfter f (c :: t) = flagAfter f t := by
    intro c hc
    have hquiet : ∀ c ∈ ([91, 123, 93, 44, 58, 125] : List UInt8), isBlank c = false ∧ c ≠ 34 := by
      decide
    exact tightenFrom_token (hquiet c hc).1 (hquiet c hc).2
  have hopen := htoken 91 (by decide)
  have hbrace := htoken 123 (by decide)
  have hclose := htoken 93 (by decide)
  have hcomma := htoken 44 (by decide)
  have hcolon := htoken 58 (by decide)
  have hend := htoken 125 (by decide)
  -- the flag passes through the parts from left to right
  induction h generalizing f with
  | scalar hv => exact lays_tighten_scalar hreal hv f
  | arr _ ih =>
    rw [(hopen f _).1, (hopen f _).2]
    exact ⟨.arr (ih f).1, (ih f).2⟩
  | obj _ ih =>
    rw [(hbrace f _).1, (hbrace f _).2]
    exact ⟨.obj (ih f).1, (ih f).2⟩
  | @lastItem w₁ w₂ t x h₁ h₂ _ ih =>
    obtain ⟨hx, hflag⟩ := ih f
    simp only [Part.flag, Part.squeeze] at hx hflag ⊢
    simp only [tightenFrom_append, flagAfter_append, tightenFrom_blanks h₁, tightenFrom_blanks h₂,
      hflag, hclose, flagItems, squeezeItems]
    exact ⟨.lastItem (breaks_kept h₁ f) (breaks_kept h₂ _) hx, rfl⟩
  | @item w₁ w₂ t u x xs h₁ h₂ _ _ ih ihs =>
    obtain ⟨hx, hflag⟩ := ih f
    obtain ⟨hxs, hflags⟩ := ihs (flagJson f x)
    simp only [Part.flag, Part.squeeze] at hx hflag hxs hflags ⊢
    simp only [tightenFrom_append, flagAfter_append, tightenFrom_blanks h₁, tightenFrom_blanks h₂,
      hflag, hcomma, hflags, flagItems, squeezeItems]
    exact ⟨.item (breaks_kept h₁ f) (breaks_kept h₂ _) hx hxs, trivial⟩
  | @lastMember w₁ w₂ w₃ w₄ t k v h₁ h₂ h₃ h₄ _ ih =>
    obtain ⟨hv, hflag⟩ := ih (flagAfter f k.val)
    simp only [Part.flag, Part.squeeze] at hv hflag ⊢
    simp only [tightenFrom_append, flagAfter_append, tightenFrom_blanks h₁, tightenFrom_blanks h₂,
      tightenFrom_blanks h₃, tightenFrom_blanks h₄, tightenFrom_quoted, hcolon, hflag, hend,
      flagMembers, squeezeObject]
    refine ⟨?_, rfl⟩
    exact .lastMember (breaks_kept h₁ f) (breaks_kept h₂ _) (breaks_kept h₃ _) (breaks_kept h₄ _) hv
  | @member w₁ w₂ w₃ w₄ t u k v ms h₁ h₂ h₃ h₄ _ _ ih ihs =>
    obtain ⟨hv, hflag⟩ := ih (flagAfter f k.val)
    obtain ⟨hms, hflags⟩ := ihs (flagJson (flagAfter f k.val) v)
    simp only [Part.flag, Part.squeeze] at hv hflag hms hflags ⊢
    simp only [tightenFrom_append, flagAfter_append, tightenFrom_blanks h₁, tightenFrom_blanks h₂,
      tightenFrom_blanks h₃, tightenFrom_blanks h₄, tightenFrom_quoted, hcolon, hflag, hcomma,
      hflags, flagMembers, squeezeObject]
    refine ⟨?_, trivial⟩
    exact .member (breaks_kept h₁ f) (breaks_kept h₂ _) (breaks_kept h₃ _) (breaks_kept h₄ _) hv hms

/-! ## The writer lays out its value -/

variable (realText : ℚ → List UInt8)

theorem breaks_append {w₁ w₂ : List UInt8} (h₁ : Breaks w₁) (h₂ : Breaks w₂) : Breaks (w₁ ++ w₂) :=
  List.forall_mem_append.mpr ⟨h₁, h₂⟩

/-- Whatever the document ends with, an indentation adds white space. -/
theorem writeIndent_breaks (document : List UInt8) (ind : ℕ) :
    ∃ w, Breaks w ∧ writeIndent document ind = document ++ w := by
  have hblanks : Breaks (List.replicate ind 32) := by
    intro c hc
    exact .inr (List.eq_of_mem_replicate hc)
  rw [writeIndent]
  split
  · exact ⟨_, hblanks, rfl⟩
  · split_ifs
    · exact ⟨[], breaks_nil, (List.append_nil document).symm⟩
    · exact ⟨_, hblanks, rfl⟩
    · exact ⟨_, hblanks.cons (.inl rfl), rfl⟩

/-- A token on a line of its own. -/
theorem writeWithIndent_breaks (document : List UInt8) (ind : ℕ) (t : List UInt8) :
    ∃ w, Breaks w ∧ writeWithIndent document ind t = document ++ (w ++ t) := by
  obtain ⟨w, hw, heq⟩ := writeIndent_breaks document ind
  exact ⟨w, hw, by rw [writeWithIndent, heq, List.append_assoc]⟩

/-- Elements that are written on one line. -/
theorem lays_intercalate {xs : List Json} (hne : xs ≠ []) (hxs : ∀ x ∈ xs, Scalar x) :
    Lays realText (.items xs)
      ([32] ++ List.intercalate [44, 32] (xs.map (scalarText realText)) ++ [32, 93]) := by
  induction xs with
  | nil => exact absurd rfl hne
  | cons x xs ih =>
    obtain ⟨hx, hrest⟩ := List.forall_mem_cons.mp hxs
    have hscalar : Lays realText (.value x) (scalarText realText x) := .scalar hx
    cases xs with
    | nil => simpa [List.intercalate] using Lays.lastItem breaks_blank breaks_blank hscalar
    | cons y ys =>
      have htail := ih (List.cons_ne_nil _ _) hrest
      simpa [List.intercalate] using Lays.item breaks_blank breaks_nil hscalar htail

variable {realText}

/-- One turn of a loop over elements: an element has been written, and `finish` writes the
others and the bracket. -/
theorem lays_items_cons (finish : List UInt8 → List UInt8) {x : Json} {xs : List Json}
    {document w t : List UInt8} (hw : Breaks w) (hx : Lays realText (.value x) t)
    (hnil : xs = [] → ∀ d, ∃ w', Breaks w' ∧ finish d = d ++ (w' ++ [93]))
    (hcons : xs ≠ [] → ∀ d, ∃ u, Lays realText (.items xs) u ∧ finish d = d ++ u) :
    ∃ u, Lays realText (.items (x :: xs)) u ∧
      finish (separated (document ++ (w ++ t)) xs) = document ++ u := by
  cases xs with
  | nil =>
    obtain ⟨w', hw', heq⟩ := hnil rfl (document ++ (w ++ t))
    refine ⟨_, .lastItem hw hw' hx, ?_⟩
    simp only [separated, List.isEmpty_nil, if_true, heq, List.append_assoc]
  | cons y ys =>
    obtain ⟨u, hu, heq⟩ := hcons (List.cons_ne_nil _ _) (document ++ (w ++ t) ++ [44])
    refine ⟨_, .item hw breaks_nil hx hu, ?_⟩
    rw [separated, List.isEmpty_cons, if_neg Bool.false_ne_true, heq]
    simp only [List.append_assoc, List.nil_append, List.cons_append]

variable (realText)

/-- Elements that are written one to a line, from their texts. -/
theorem lays_writeTexts {xs : List Json} (hne : xs ≠ []) (hxs : ∀ x ∈ xs, Scalar x)
    (document : List UInt8) (ind ind' : ℕ) :
    ∃ t, Lays realText (.items xs) t ∧
      writeWithIndent (writeTexts document ind' (xs.map (scalarText realText))) ind [93] =
        document ++ t := by
  induction xs generalizing document with
  | nil => exact absurd rfl hne
  | cons x xs ih =>
    obtain ⟨hx, hrest⟩ := List.forall_mem_cons.mp hxs
    obtain ⟨w, hw, hline⟩ := writeWithIndent_breaks document ind' (scalarText realText x)
    have hscalar : Lays realText (.value x) (scalarText realText x) := .scalar hx
    rw [List.map_cons, writeTexts, hline]
    have hsep : ∀ d, separated d (xs.map (scalarText realText)) = separated d xs := by
      intro d
      rw [separated, separated, List.isEmpty_map]
    rw [hsep]
    refine lays_items_cons
      (fun d => writeWithIndent (writeTexts d ind' (xs.map (scalarText realText))) ind [93])
      hw hscalar ?_ ?_
    · rintro rfl d
      exact writeWithIndent_breaks d ind [93]
    · exact fun hne d => ih hne hrest d

/-- An array that is not nested has scalars for elements. -/
theorem scalar_of_not_isNested {xs : List Json} (h : isNested xs = false) :
    ∀ x ∈ xs, Scalar x := by
  intro x hx
  rw [isNested, Bool.or_eq_false_iff, List.any_eq_false] at h
  have hsize := h.2 x hx
  cases x with
  | arr ys =>
    rw [Scalar]
    by_contra hne
    exact hsize (decide_eq_true (List.length_pos_iff.mpr hne))
  | obj ms =>
    rw [Scalar]
    by_contra hne
    exact hsize (decide_eq_true (List.length_pos_iff.mpr hne))
  | null | int _ | uint _ | real _ | str _ | bool _ => trivial

mutual

/-- **A written value is laid out**, with white space in front of it. -/
theorem lays_writeValue : ∀ (v : Json) (document : List UInt8) (ind : ℕ),
    ∃ w t, Breaks w ∧ Lays realText (.value v) t ∧
      writeValue realText document ind v = document ++ (w ++ t)
  | .arr xs, document, ind => by
    rw [writeValue]
    by_cases hempty : xs = []
    · subst hempty
      exact ⟨[], _, breaks_nil, .scalar rfl, rfl⟩
    rw [if_neg (by simpa using hempty)]
    obtain ⟨w, hw, hline⟩ := writeWithIndent_breaks document ind [91]
    -- one element to a line, for nested or long arrays, or all on one line
    by_cases hnested : isNested xs = true
    · obtain ⟨t, ht, htext⟩ := lays_writeItems xs (document ++ (w ++ [91])) ind (ind + 3) hempty
      refine ⟨w, 91 :: t, hw, .arr ht, ?_⟩
      simp only [hnested, if_true, hline, htext, List.append_assoc, List.singleton_append]
    have hscalar := scalar_of_not_isNested (Bool.not_eq_true _ ▸ hnested)
    by_cases hlong : 74 ≤ lineLength (xs.map (scalarText realText))
    · obtain ⟨t, ht, htext⟩ := lays_writeTexts realText hempty hscalar (document ++ (w ++ [91])) ind
        (ind + 3)
      refine ⟨w, 91 :: t, hw, .arr ht, ?_⟩
      simp only [hnested, hlong, Bool.false_eq_true, if_false, if_true, hline, htext,
        List.append_assoc, List.singleton_append]
    · refine ⟨[], _, breaks_nil, .arr (lays_intercalate realText hempty hscalar), ?_⟩
      simp only [hnested, hlong, Bool.false_eq_true, if_false, List.append_assoc, List.cons_append,
        List.nil_append]
  | .obj ms, document, ind => by
    rw [writeValue]
    by_cases hempty : ms = []
    · subst hempty
      exact ⟨[], _, breaks_nil, .scalar rfl, rfl⟩
    rw [if_neg (by simpa using hempty)]
    obtain ⟨w, hw, hline⟩ := writeWithIndent_breaks document ind [123]
    obtain ⟨t, ht, htext⟩ := lays_writeMembers ms (document ++ (w ++ [123])) ind (ind + 3) hempty
    refine ⟨w, 123 :: t, hw, .obj ht, ?_⟩
    simp only [hline, htext, List.append_assoc, List.singleton_append]
  | .null, _, _ => ⟨[], _, breaks_nil, .scalar trivial, rfl⟩
  | .int _, _, _ => ⟨[], _, breaks_nil, .scalar trivial, rfl⟩
  | .uint _, _, _ => ⟨[], _, breaks_nil, .scalar trivial, rfl⟩
  | .real _, _, _ => ⟨[], _, breaks_nil, .scalar trivial, rfl⟩
  | .str _, _, _ => ⟨[], _, breaks_nil, .scalar trivial, rfl⟩
  | .bool _, _, _ => ⟨[], _, breaks_nil, .scalar trivial, rfl⟩

/-- So are the elements of an array, one to a line. -/
theorem lays_writeItems : ∀ (xs : List Json) (document : List UInt8) (ind ind' : ℕ), xs ≠ [] →
    ∃ t, Lays realText (.items xs) t ∧
      writeWithIndent (writeItems realText document ind' xs) ind [93] = document ++ t
  | [], _, _, _, hne => absurd rfl hne
  | x :: xs, document, ind, ind', _ => by
    obtain ⟨w, hw, hindent⟩ := writeIndent_breaks document ind'
    obtain ⟨w', t, hw', hx, hvalue⟩ := lays_writeValue x (document ++ w) ind'
    have hdoc : document ++ w ++ (w' ++ t) = document ++ ((w ++ w') ++ t) := by
      simp only [List.append_assoc]
    rw [writeItems, hindent, hvalue, hdoc]
    refine lays_items_cons (fun d => writeWithIndent (writeItems realText d ind' xs) ind [93])
      (breaks_append hw hw') hx ?_ ?_
    · rintro rfl d
      exact writeWithIndent_breaks d ind [93]
    · exact fun hne d => lays_writeItems xs d ind ind' hne

/-- And the members of an object. -/
theorem lays_writeMembers : ∀ (ms : List (CString × Json)) (document : List UInt8) (ind ind' : ℕ),
    ms ≠ [] →
    ∃ t, Lays realText (.members ms) t ∧
      writeWithIndent (writeMembers realText document ind' ms) ind [125] = document ++ t
  | [], _, _, _, hne => absurd rfl hne
  | (k, v) :: ms, document, ind, ind', _ => by
    obtain ⟨w, hw, hline⟩ := writeWithIndent_breaks document ind' (valueToQuotedString k)
    obtain ⟨w', t, hw', hv, hvalue⟩ :=
      lays_writeValue v (document ++ (w ++ valueToQuotedString k) ++ [32, 58, 32]) ind'
    rw [writeMembers, hline, hvalue]
    cases ms with
    | nil =>
      obtain ⟨w₂, hw₂, hclose⟩ := writeWithIndent_breaks
        (document ++ (w ++ valueToQuotedString k) ++ [32, 58, 32] ++ (w' ++ t)) ind [125]
      refine ⟨_, .lastMember hw breaks_blank (breaks_append breaks_blank hw') hw₂ hv, ?_⟩
      rw [separated, List.isEmpty_nil, if_pos rfl, writeMembers, hclose]
      simp only [List.append_assoc, List.cons_append, List.nil_append]
    | cons m ms =>
      obtain ⟨u, hu, hrest⟩ := lays_writeMembers (m :: ms)
        (document ++ (w ++ valueToQuotedString k) ++ [32, 58, 32] ++ (w' ++ t) ++ [44]) ind ind'
        (List.cons_ne_nil _ _)
      refine ⟨_, .member hw breaks_blank (breaks_append breaks_blank hw') breaks_nil hv hu, ?_⟩
      rw [separated, List.isEmpty_cons, if_neg Bool.false_ne_true, hrest]
      simp only [List.append_assoc, List.cons_append, List.nil_append]

end

/-! ## Written and read -/

variable {realText} {num : ℚ → Json}

/-- **A styled text reads as its value.** -/
theorem read_toStyledString (R : RealText realText num) (v : Json) :
    read (toStyledString realText v) = some (reread num v) := by
  obtain ⟨w, t, hw, ht, heq⟩ := lays_writeValue realText v [] 0
  have hreads : Reads (w ++ t) (reread num v) := (ht.reads R).of_blank (blank_of_breaks hw)
  rw [toStyledString, heq]
  exact hreads.read (blank_of_breaks breaks_break)

/-- A tightened text is a layout of the squeezed value, with white space around it. -/
theorem lays_tighten_toStyledString (hreal : ∀ q, Quiet (realText q)) (v : Json) :
    ∃ w t w', Breaks w ∧ Breaks w' ∧ Lays realText (.value (squeezeJson false v)) t ∧
      tighten (toStyledString realText v) = w ++ t ++ w' := by
  obtain ⟨w, t, hw, ht, heq⟩ := lays_writeValue realText v [] 0
  refine ⟨kept false w, tightenFrom false t, kept (flagAfter false (w ++ t)) [10],
    breaks_kept hw false, breaks_kept breaks_break _, (ht.tighten hreal false).1, ?_⟩
  rw [toStyledString, heq, MyServer.tighten, List.nil_append, tightenFrom_append,
    tightenFrom_append, (tightenFrom_blanks hw false).1, (tightenFrom_blanks hw false).2,
    (tightenFrom_blanks breaks_break _).1]

/-- **A tightened text reads as the squeezed value.** -/
theorem read_tighten_toStyledString (R : RealText realText num) (v : Json) :
    read (tighten (toStyledString realText v)) = some (reread num (squeezeJson false v)) := by
  obtain ⟨w, t, w', hw, hw', ht, heq⟩ := lays_tighten_toStyledString R.quiet v
  have hreads : Reads (w ++ t) (reread num (squeezeJson false v)) :=
    (ht.reads R).of_blank (blank_of_breaks hw)
  rw [heq]
  exact hreads.read (blank_of_breaks hw')

/-! ## Whole numbers -/

/-- The whole part of a number, if it is an `int`, and zero otherwise. -/
def whole (q : ℚ) : ℤ := if -2 ^ 31 ≤ q.floor ∧ q.floor < 2 ^ 31 then q.floor else 0

/-- A text of `double`s: the whole part and `.0`. -/
def wholeText (q : ℚ) : List UInt8 :=
  let text := uintLoop 10 (whole q).natAbs [] ++ [46, 48]
  if whole q < 0 then 45 :: text else text

theorem whole_range (q : ℚ) : -2 ^ 31 ≤ whole q ∧ whole q < 2 ^ 31 := by
  rw [whole]
  split_ifs with h
  · exact h
  · decide

theorem whole_toInt (n : Int32) : whole (n.toInt : ℚ) = n.toInt := by
  rw [whole, Rat.floor_intCast, if_pos ⟨n.le_toInt, n.toInt_lt⟩]

/-- The digits of the whole part. -/
theorem whole_digits (q : ℚ) : Digits (whole q).natAbs (uintLoop 10 (whole q).natAbs []) := by
  have hlt : (whole q).natAbs < 10 ^ 10 := by
    have hrange := whole_range q
    omega
  obtain ⟨ds, htext, hds⟩ := uintLoop_digits [] hlt (Nat.succ_pos 9)
  rwa [htext, List.append_nil]

/-- It meets the assumptions. -/
theorem realText_whole : RealText wholeText fun q => .real (whole q) := by
  refine ⟨fun q => ?_, fun q => ?_⟩
  · have hquiet : Quiet (uintLoop 10 (whole q).natAbs [] ++ [46, 48]) :=
      List.forall_mem_append.mpr ⟨(whole_digits q).quiet, by decide⟩
    rw [wholeText]
    split_ifs
    · exact List.forall_mem_cons.mpr ⟨by decide, hquiet⟩
    · exact hquiet
  · obtain ⟨hplus, hminus⟩ := reads_whole (whole_digits q)
    rw [wholeText]
    split_ifs with hneg
    · rwa [show -((whole q).natAbs : ℤ) = whole q by omega] at hminus
    · rwa [show ((whole q).natAbs : ℤ) = whole q by omega] at hplus

end Json

end MyServer
