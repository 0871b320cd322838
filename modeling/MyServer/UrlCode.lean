import MyServer.JsonReader

/-!
# URL coding (`http_common.cpp`)

`UrlEncode` copies letters, digits and four marks, writes a blank as a plus and every other
byte as a percent sign with two hexadecimal digits. `UrlDecode` walks over a text with an
index that an escape moves on by three; it asserts that both digits are there and that they
are letters or digits. A failed assertion is `none`.

What `UrlEncode` writes is of the form `Encoded`, and `UrlDecode` takes it back, whatever the
bytes (`urlDecode_urlEncode`). But it takes more than hexadecimal digits: `urlDecode_exact_iff`
says for which texts it does what the digits say.
-/

namespace MyServer.Http

/-! ## The functions -/

/-- `isalnum`, in the C locale. -/
def isalnum (c : UInt8) : Bool :=
  (48 ≤ c && c ≤ 57) || (65 ≤ c && c ≤ 90) || (97 ≤ c && c ≤ 122)

/-- `ToHex` -/
def toHex (x : UInt8) : UInt8 := if 9 < x then x + 55 else x + 48

/-- `FromHex`, which takes every letter for a digit. -/
def fromHex (x : UInt8) : Option UInt8 :=
  if 65 ≤ x ∧ x ≤ 90 then some (x - 65 + 10)
  else if 97 ≤ x ∧ x ≤ 122 then some (x - 97 + 10)
  else if 48 ≤ x ∧ x ≤ 57 then some (x - 48)
  else none

/-- What `UrlEncode` appends for one byte. -/
def encodeChar (c : UInt8) : List UInt8 :=
  if isalnum c || c = 45 || c = 95 || c = 46 || c = 126 then [c]
  else if c = 32 then [43]
  else [37, toHex (c >>> 4), toHex (c % 16)]

/-- `UrlEncode` -/
def urlEncode (str : List UInt8) : List UInt8 := str.flatMap encodeChar

/-- The loop of `UrlDecode` from index `i`: what it still appends. -/
def urlDecodeFrom (str : List UInt8) (i : ℕ) : Option (List UInt8) :=
  if h : i < str.length then
    if str[i] = 43 then (urlDecodeFrom str (i + 1)).map (32 :: ·)
    else if str[i] = 37 then
      -- the assertion; both `++i` come after it
      if hdigits : i + 2 < str.length then do
        let high ← fromHex str[i + 1]
        let low ← fromHex str[i + 2]
        let rest ← urlDecodeFrom str (i + 3)
        return (high * 16 + low) :: rest
      else none
    else (urlDecodeFrom str (i + 1)).map (str[i] :: ·)
  else some []
termination_by str.length - i

/-- `UrlDecode` -/
def urlDecode (str : List UInt8) : Option (List UInt8) := urlDecodeFrom str 0

/-! ## What is written -/

/-- An upper-case hexadecimal digit. -/
def isUpperHex (c : UInt8) : Bool := (48 ≤ c && c ≤ 57) || (65 ≤ c && c ≤ 70)

/-- Letters, digits, `-`, `_`, `.`, `~`, `+`, and percent signs with two digits. -/
inductive Encoded : List UInt8 → Prop
  | nil : Encoded []
  | char {c : UInt8} {s : List UInt8} (hc : isalnum c = true ∨ c ∈ [45, 95, 46, 126, 43]) :
      Encoded s → Encoded (c :: s)
  | escape {x y : UInt8} {s : List UInt8} (hx : isUpperHex x = true) (hy : isUpperHex y = true) :
      Encoded s → Encoded (37 :: x :: y :: s)

/-- The three forms of a byte. -/
theorem encodeChar_cases (c : UInt8) :
    (encodeChar c = [c] ∧ (isalnum c = true ∨ c ∈ [45, 95, 46, 126, 43]) ∧ c ≠ 43 ∧ c ≠ 37) ∨
      (encodeChar c = [43] ∧ c = 32) ∨
      (encodeChar c = [37, toHex (c >>> 4), toHex (c % 16)] ∧
        isUpperHex (toHex (c >>> 4)) = true ∧ isUpperHex (toHex (c % 16)) = true) := by
  refine Json.forall_byte (P := fun c => (encodeChar c = [c] ∧
      (isalnum c = true ∨ c ∈ [45, 95, 46, 126, 43]) ∧ c ≠ 43 ∧ c ≠ 37) ∨
    (encodeChar c = [43] ∧ c = 32) ∨ (encodeChar c = [37, toHex (c >>> 4), toHex (c % 16)] ∧
      isUpperHex (toHex (c >>> 4)) = true ∧ isUpperHex (toHex (c % 16)) = true)) ?_ c
  decide +kernel

theorem encoded_urlEncode (s : List UInt8) : Encoded (urlEncode s) := by
  induction s with
  | nil => exact .nil
  | cons c s ih =>
    rw [urlEncode, List.flatMap_cons, ← urlEncode]
    rcases encodeChar_cases c with ⟨heq, hc, -⟩ | ⟨heq, -⟩ | ⟨heq, hx, hy⟩
    · rw [heq]
      exact .char hc ih
    · rw [heq]
      exact .char (.inr (by decide)) ih
    · rw [heq]
      exact .escape hx hy ih

/-! ## The loop, byte by byte

What the loop still does depends only on the bytes from the index on. -/

theorem urlDecodeFrom_cons (c : UInt8) (str : List UInt8) (i : ℕ) :
    urlDecodeFrom (c :: str) (i + 1) = urlDecodeFrom str i := by
  induction i using urlDecodeFrom.induct str with
  | case1 i h hplus ih =>
    rw [urlDecodeFrom.eq_1 str i, urlDecodeFrom.eq_1 (c :: str) (i + 1)]
    simp [h, hplus, ih]
  | case2 i h hplus hpercent hdigits ih =>
    have hdigits' : i + 1 + 2 < str.length + 1 := by omega
    rw [urlDecodeFrom.eq_1 str i, urlDecodeFrom.eq_1 (c :: str) (i + 1)]
    simp [h, hpercent, hdigits, hdigits', ih]
  | case3 i h hplus hpercent hdigits =>
    have hdigits' : ¬ i + 1 + 2 < str.length + 1 := by omega
    rw [urlDecodeFrom.eq_1 str i, urlDecodeFrom.eq_1 (c :: str) (i + 1)]
    simp [h, hpercent, hdigits, hdigits']
  | case4 i h hplus hpercent ih =>
    rw [urlDecodeFrom.eq_1 str i, urlDecodeFrom.eq_1 (c :: str) (i + 1)]
    simp [h, hplus, hpercent, ih]
  | case5 i h =>
    rw [urlDecodeFrom.eq_1 str i, urlDecodeFrom.eq_1 (c :: str) (i + 1)]
    simp [h]

@[simp] theorem urlDecode_nil : urlDecode [] = some [] := by
  rw [urlDecode, urlDecodeFrom]
  rfl

@[simp] theorem urlDecode_plus (s : List UInt8) :
    urlDecode (43 :: s) = (urlDecode s).map (32 :: ·) := by
  rw [urlDecode, urlDecodeFrom]
  simp [urlDecodeFrom_cons, urlDecode]

theorem urlDecode_char {c : UInt8} (hplus : c ≠ 43) (hpercent : c ≠ 37) (s : List UInt8) :
    urlDecode (c :: s) = (urlDecode s).map (c :: ·) := by
  rw [urlDecode, urlDecodeFrom]
  simp [hplus, hpercent, urlDecodeFrom_cons, urlDecode]

theorem urlDecode_escape (x y : UInt8) (s : List UInt8) :
    urlDecode (37 :: x :: y :: s) = (fromHex x).bind fun high => (fromHex y).bind fun low =>
      (urlDecode s).map ((high * 16 + low) :: ·) := by
  rw [urlDecode, urlDecodeFrom]
  simp [urlDecodeFrom_cons, urlDecode, Option.map_eq_bind]

/-- A percent sign near the end. -/
theorem urlDecode_cut {s : List UInt8} (h : s.length < 2) : urlDecode (37 :: s) = none := by
  have hcut : ¬ 2 < s.length + 1 := by omega
  rw [urlDecode, urlDecodeFrom]
  simp [hcut]

/-! ## The round trip -/

/-- The digits of a byte give the byte. -/
theorem fromHex_toHex (c : UInt8) :
    ∃ high low, fromHex (toHex (c >>> 4)) = some high ∧ fromHex (toHex (c % 16)) = some low ∧
      high * 16 + low = c := by
  refine ⟨c >>> 4, c % 16, ?_⟩
  refine Json.forall_byte (P := fun c => fromHex (toHex (c >>> 4)) = some (c >>> 4) ∧
    fromHex (toHex (c % 16)) = some (c % 16) ∧ (c >>> 4) * 16 + c % 16 = c) ?_ c
  decide +kernel

/-- Decoding one byte. -/
theorem urlDecode_encodeChar (c : UInt8) (rest : List UInt8) :
    urlDecode (encodeChar c ++ rest) = (urlDecode rest).map (c :: ·) := by
  rcases encodeChar_cases c with ⟨heq, -, hplus, hpercent⟩ | ⟨heq, rfl⟩ | ⟨heq, -⟩
  · rw [heq]
    exact urlDecode_char hplus hpercent rest
  · rw [heq]
    exact urlDecode_plus rest
  · obtain ⟨high, low, hhigh, hlow, hbyte⟩ := fromHex_toHex c
    rw [heq]
    refine (urlDecode_escape _ _ rest).trans ?_
    rw [hhigh, hlow, Option.bind_some, Option.bind_some, hbyte]

/-- **URL coding is a round trip**: for every byte string, what is written is well formed, and
it is read back without a failed assertion; so no two strings are written alike. -/
theorem urlDecode_urlEncode :
    (∀ s, Encoded (urlEncode s) ∧ urlDecode (urlEncode s) = some s) ∧
      Function.Injective urlEncode := by
  have hround : ∀ s, urlDecode (urlEncode s) = some s := by
    intro s
    induction s with
    | nil => exact urlDecode_nil
    | cons c s ih =>
      rw [urlEncode, List.flatMap_cons, ← urlEncode, urlDecode_encodeChar, ih]
      rfl
  refine ⟨fun s => ⟨encoded_urlEncode s, hround s⟩, ?_⟩
  intro s t heq
  apply Option.some_injective
  rw [← hround s, ← hround t, heq]

/-! ## Which texts are decoded -/

/-- The value of what `FromHex` takes for a digit. -/
def letterDigit (c : UInt8) : Option ℕ := (fromHex c).map UInt8.toNat

/-- The numbers that the bytes and escapes of a text stand for, from left to right, when
every percent sign is followed by two digits. -/
inductive Denotes (digit : UInt8 → Option ℕ) : List UInt8 → List ℕ → Prop
  | nil : Denotes digit [] []
  | plus {s : List UInt8} {ns : List ℕ} : Denotes digit s ns → Denotes digit (43 :: s) (32 :: ns)
  | escape {x y : UInt8} {high low : ℕ} {s : List UInt8} {ns : List ℕ}
      (hx : digit x = some high) (hy : digit y = some low) :
      Denotes digit s ns → Denotes digit (37 :: x :: y :: s) ((16 * high + low) :: ns)
  | char {c : UInt8} {s : List UInt8} {ns : List ℕ} (hplus : c ≠ 43) (hpercent : c ≠ 37) :
      Denotes digit s ns → Denotes digit (c :: s) (c.toNat :: ns)

/-- Every percent sign that is met is followed by two digits. -/
def Escaped (digit : UInt8 → Option ℕ) (s : List UInt8) : Prop := ∃ ns, Denotes digit s ns

/-- The hexadecimal digits are among what `FromHex` takes, with the same values. -/
theorem letterDigit_of_hexValue {c : UInt8} {d : ℕ} (h : Json.hexValue c = some d) :
    letterDigit c = some d ∧ d < 16 := by
  have hall : ∀ c, ∀ d ∈ Json.hexValue c, letterDigit c = some d ∧ d < 16 :=
    Json.forall_byte (by decide +kernel)
  exact hall c d h

theorem Denotes.letters {s : List UInt8} {ns : List ℕ} (h : Denotes Json.hexValue s ns) :
    Denotes letterDigit s ns ∧ ∀ n ∈ ns, n < 256 := by
  induction h with
  | nil => exact ⟨.nil, fun n hn => absurd hn List.not_mem_nil⟩
  | plus _ ih => exact ⟨.plus ih.1, List.forall_mem_cons.mpr ⟨by decide, ih.2⟩⟩
  | escape hx hy _ ih =>
    obtain ⟨hx', hhigh⟩ := letterDigit_of_hexValue hx
    obtain ⟨hy', hlow⟩ := letterDigit_of_hexValue hy
    exact ⟨.escape hx' hy' ih.1, List.forall_mem_cons.mpr ⟨by omega, ih.2⟩⟩
  | @char c _ _ hplus hpercent _ ih =>
    exact ⟨.char hplus hpercent ih.1, List.forall_mem_cons.mpr ⟨c.toNat_lt, ih.2⟩⟩

/-- Where `FromHex` takes every digit, each escape gives its number cut to a byte. -/
theorem Denotes.urlDecode_eq {s : List UInt8} {ns : List ℕ} (h : Denotes letterDigit s ns) :
    urlDecode s = some (ns.map UInt8.ofNat) := by
  induction h with
  | nil => exact urlDecode_nil
  | plus _ ih =>
    rw [urlDecode_plus, ih]
    rfl
  | escape hx hy _ ih =>
    obtain ⟨high, hhigh, rfl⟩ := Option.map_eq_some_iff.mp hx
    obtain ⟨low, hlow, rfl⟩ := Option.map_eq_some_iff.mp hy
    rw [urlDecode_escape, hhigh, hlow, ih]
    simp [UInt8.mul_comm]
  | char hplus hpercent _ ih =>
    rw [urlDecode_char hplus hpercent, ih]
    simp

/-- A text that is decoded has letters or digits behind every percent sign that is met. -/
theorem escaped_of_urlDecode (s : List UInt8) (h : urlDecode s ≠ none) : Escaped letterDigit s := by
  induction hn : s.length using Nat.strong_induction_on generalizing s with
  | _ n ih =>
    rcases s with _ | ⟨c, s⟩
    · exact ⟨[], .nil⟩
    · have hlen : s.length < n := by rw [← hn]; exact Nat.lt_succ_self _
      by_cases hplus : c = 43
      · subst hplus
        rw [urlDecode_plus, ne_eq, Option.map_eq_none_iff] at h
        obtain ⟨ns, hns⟩ := ih _ hlen s h rfl
        exact ⟨_, .plus hns⟩
      by_cases hpercent : c = 37
      · subst hpercent
        rcases s with _ | ⟨x, _ | ⟨y, s⟩⟩
        · exact absurd (urlDecode_cut (by simp)) h
        · exact absurd (urlDecode_cut (by simp)) h
        · rw [urlDecode_escape] at h
          rcases hx : fromHex x with _ | high
          · rw [hx] at h
            exact absurd rfl h
          rcases hy : fromHex y with _ | low
          · rw [hx, hy] at h
            exact absurd rfl h
          rw [hx, hy, Option.bind_some, Option.bind_some, ne_eq, Option.map_eq_none_iff] at h
          have hlen' : s.length < n := by
            rw [List.length_cons, List.length_cons] at hlen
            omega
          obtain ⟨ns, hns⟩ := ih _ hlen' s h rfl
          exact ⟨_, .escape (congrArg _ hx) (congrArg _ hy) hns⟩
      · rw [urlDecode_char hplus hpercent, ne_eq, Option.map_eq_none_iff] at h
        obtain ⟨ns, hns⟩ := ih _ hlen s h rfl
        exact ⟨_, .char hplus hpercent hns⟩

/-- `UrlDecode` takes a text exactly when each percent sign has two hexadecimal digits, and
then each escape gives the byte its digits denote. -/
structure HexExact (s : List UInt8) : Prop where
  /-- no assertion fails exactly on these texts -/
  accepts : urlDecode s ≠ none ↔ Escaped Json.hexValue s
  /-- the bytes are the numbers, none of them cut -/
  value : ∀ ns, Denotes Json.hexValue s ns →
    ∃ t, urlDecode s = some t ∧ t.map UInt8.toNat = ns

/-- **Which texts are decoded by their hexadecimal digits**: those that have no escapes with
other letters, or that fail an assertion anyway. -/
theorem urlDecode_exact_iff (s : List UInt8) :
    HexExact s ↔ (Escaped letterDigit s → Escaped Json.hexValue s) := by
  refine ⟨fun h hletters => ?_, fun h => ⟨⟨fun hs => h (escaped_of_urlDecode s hs), ?_⟩, ?_⟩⟩
  · obtain ⟨ns, hns⟩ := hletters
    refine h.accepts.mp ?_
    rw [hns.urlDecode_eq]
    exact Option.some_ne_none _
  · rintro ⟨ns, hns⟩
    rw [hns.letters.1.urlDecode_eq]
    exact Option.some_ne_none _
  · intro ns hns
    obtain ⟨hletters, hlt⟩ := hns.letters
    refine ⟨_, hletters.urlDecode_eq, ?_⟩
    rw [List.map_map]
    refine (List.map_congr_left fun n hn => ?_).trans (List.map_id ns)
    exact UInt8.toNat_ofNat_of_lt (hlt n hn)

/-- In `%GG` both letters are taken for digits of 16, and what they denote is cut to 16. -/
theorem urlDecode_takes_letters :
    urlDecode [37, 71, 71] = some [16] ∧ ¬ Escaped Json.hexValue [37, 71, 71] := by
  have hletters : Denotes letterDigit [37, 71, 71] [16 * 16 + 16] := .escape rfl rfl .nil
  refine ⟨hletters.urlDecode_eq, ?_⟩
  rintro ⟨ns, hns⟩
  cases hns with
  | escape hx hy _ => cases hx
  | char _ hpercent _ => exact hpercent rfl

end MyServer.Http
