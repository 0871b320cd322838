import MyServer.PostBody

/-!
# HTTP version numbers (`request_parser.cpp`)

Four states of the parser read the two version numbers, digit by digit, and nothing bounds
how many digits there are. `majorDigits` and `minorDigits` are the digits, taken from the
bytes alone, and `computed` is what one call of `consume` computes for the numbers:
`n * 10 + input - '0'` from left to right.

The stored numbers are those of the digits exactly as long as the digits stay below `2 ^ 31`.
No operation overflows exactly as long as they stay below `2 ^ 31 - 48`, since the digit is
added before `'0'` is taken off (`versions_exact_iff`).
-/

namespace MyServer

namespace Http

open Json (digitsValue)

/-! ## The digits of a request line -/

/-- What stands behind the second blank and the five bytes `HTTP/`. -/
def versionText (bs : List UInt8) : List UInt8 :=
  (((bs.dropWhile fun c => c ≠ 32).drop 1).dropWhile fun c => c ≠ 32).drop 6

/-- The digits of the major version. -/
def majorDigits (bs : List UInt8) : List UInt8 := (versionText bs).takeWhile fun c => Digit c

/-- The digits of the minor version. -/
def minorDigits (bs : List UInt8) : List UInt8 :=
  (((versionText bs).dropWhile fun c => Digit c).drop 1).takeWhile fun c => Digit c

theorem versionText_eq (t : Target) (s : List UInt8) :
    versionText (t.bytes ++ (httpSlash ++ s)) = s := by
  have hmethod : ∀ c ∈ t.method, decide (c ≠ 32) = true := by
    intro c hc
    simpa using (t.token c hc).ne.2.1
  have huri : ∀ c ∈ t.uri, decide (c ≠ 32) = true := by
    intro c hc
    simpa using (t.plain c hc).1
  simp only [versionText, Target.bytes, httpSlash, List.append_assoc, List.cons_append,
    List.nil_append]
  rw [List.dropWhile_append_of_pos hmethod, List.dropWhile_cons_of_neg (by simp), List.drop_one,
    List.tail_cons, List.dropWhile_append_of_pos huri, List.dropWhile_cons_of_neg (by simp)]
  rfl

/-- A request line up to some of its version numbers: the digits that were read. -/
inductive ReadVersion : List UInt8 → List UInt8 → List UInt8 → Prop
  | major (t : Target) {ds : List UInt8} (hds : ∀ c ∈ ds, Digit c) :
      ReadVersion (t.bytes ++ (httpSlash ++ ds)) ds []
  | minor (t : Target) {major minor : List UInt8} (rest : List UInt8) (hne : major ≠ [])
      (hmajor : ∀ c ∈ major, Digit c) (hminor : ∀ c ∈ minor, Digit c)
      (hrest : ∀ c ∈ rest.head?, ¬ Digit c) :
      ReadVersion (t.bytes ++ (httpSlash ++ (major ++ 46 :: (minor ++ rest)))) major minor

/-- Digits in front of something that is none. -/
theorem takeWhile_digits {ds : List UInt8} (hds : ∀ c ∈ ds, Digit c) (rest : List UInt8)
    (hrest : ∀ c ∈ rest.head?, ¬ Digit c) :
    (ds ++ rest).takeWhile (fun c => Digit c) = ds ∧
      (ds ++ rest).dropWhile (fun c => Digit c) = rest := by
  have hall : ∀ c ∈ ds, decide (Digit c) = true := by simpa using hds
  rw [List.takeWhile_append_of_pos hall, List.dropWhile_append_of_pos hall]
  cases rest with
  | nil => simp
  | cons c rest =>
    have hc : decide (Digit c) = false := by simpa using hrest c rfl
    simp [hc]

theorem ReadVersion.digits {bs major minor : List UInt8} (h : ReadVersion bs major minor) :
    majorDigits bs = major ∧ minorDigits bs = minor := by
  rw [majorDigits, minorDigits]
  cases h with
  | major t hds =>
    obtain ⟨htake, hdrop⟩ := takeWhile_digits hds [] (by simp)
    rw [List.append_nil] at htake hdrop
    rw [versionText_eq, htake, hdrop]
    exact ⟨rfl, rfl⟩
  | @minor t major minor rest _ hmajor hminor hrest =>
    obtain ⟨htake, hdrop⟩ := takeWhile_digits hmajor (46 :: (minor ++ rest)) (by simp [Digit])
    rw [versionText_eq, htake, hdrop, List.drop_one, List.tail_cons]
    exact ⟨rfl, (takeWhile_digits hminor rest hrest).1⟩

theorem ReadVersion.digit {bs major minor : List UInt8} (h : ReadVersion bs major minor) :
    (∀ c ∈ major, Digit c) ∧ ∀ c ∈ minor, Digit c := by
  cases h with
  | major t hds => exact ⟨hds, by simp⟩
  | minor t rest hne hmajor hminor hrest => exact ⟨hmajor, hminor⟩

/-! ## The values of digits -/

theorem digitsValue_snoc (ds : List UInt8) (c : UInt8) :
    digitsValue (ds ++ [c]) = digitsValue ds * 10 + (c.toNat - 48) := by
  rw [digitsValue, List.foldl_append]
  rfl

theorem charValue_of_digit {c : UInt8} (hc : Digit c) :
    charValue c = c.toNat ∧ 48 ≤ c.toNat ∧ c.toNat ≤ 57 := by
  have hall : ∀ c, Digit c → charValue c = c.toNat ∧ 48 ≤ c.toNat ∧ c.toNat ≤ 57 :=
    Json.forall_byte (by decide +kernel)
  exact hall c hc

/-- The arithmetic of `int` keeps the value up to multiples of `2 ^ 32`. -/
theorem versionValue_eq {ds : List UInt8} (hds : ∀ c ∈ ds, Digit c) :
    versionValue ds = .ofInt (digitsValue ds) := by
  induction ds using List.reverseRecOn with
  | nil => rfl
  | append_singleton ds c ih =>
    obtain ⟨hds, hc⟩ := List.forall_mem_append.mp hds
    obtain ⟨hchar, hlo, -⟩ := charValue_of_digit (List.forall_mem_singleton.mp hc)
    have hval : ((digitsValue (ds ++ [c]) : ℕ) : ℤ) = digitsValue ds * 10 + charValue c - 48 := by
      rw [digitsValue_snoc, hchar]
      omega
    rw [versionValue_snoc, ih hds, hval, Int32.ofInt_sub, Int32.ofInt_add, Int32.ofInt_mul]
    rfl

theorem toInt_versionValue_iff {ds : List UInt8} (hds : ∀ c ∈ ds, Digit c) :
    (versionValue ds).toInt = digitsValue ds ↔ digitsValue ds < 2 ^ 31 := by
  have hsize : Int32.size = 2 ^ 32 := rfl
  rw [versionValue_eq hds, Int32.toInt_ofInt, Int.bmod_def, hsize]
  omega

/-! ## What is computed -/

/-- The values of `n * 10 + input - '0'`, from left to right, for a digit. -/
def digitSteps (n : Int32) (input : UInt8) : List ℤ :=
  let c := charValue input
  if isDigit c then [n.toInt * 10, n.toInt * 10 + c, n.toInt * 10 + c - 48] else []

/-- The values that a call of `consume` computes for the version numbers. -/
def computed (p : Parse) (call : Call) : List ℤ :=
  match p.state with
  | .httpVersionSlash => if call.input = 47 then [0] else []
  | .httpVersionMajorStart | .httpVersionMajor => digitSteps p.req.httpVersionMajor call.input
  | .httpVersionMinorStart | .httpVersionMinor => digitSteps p.req.httpVersionMinor call.input
  | _ => []

/-- As long as the digits before were small enough, the steps of one more digit fit exactly
if it leaves room for `'0'`. -/
theorem digitSteps_fit_iff {ds : List UInt8} (hds : ∀ c ∈ ds, Digit c)
    (hsmall : digitsValue ds < 2 ^ 31) {c : UInt8} (hc : Digit c) :
    (∀ x ∈ digitSteps (versionValue ds) c, -2 ^ 31 ≤ x ∧ x < 2 ^ 31) ↔
      digitsValue (ds ++ [c]) < 2 ^ 31 - 48 := by
  obtain ⟨hchar, hlo, hhi⟩ := charValue_of_digit hc
  rw [digitSteps, (toInt_versionValue_iff hds).mpr hsmall, hchar, digitsValue_snoc]
  have hdigit : isDigit (c.toNat : ℤ) = true := by
    rw [← hchar, isDigit_eq]
    exact decide_eq_true hc
  simp only [hdigit, if_true, List.forall_mem_cons]
  simp only [List.not_mem_nil, false_imp_iff, implies_true, and_true]
  omega

/-! ## At every step -/

/-- The states behind `HTTP/`, where the numbers have been set. -/
def ParserState.versioned : ParserState → Bool
  | .methodStart | .method | .uriStart | .uri | .httpVersionH | .httpVersionT1 | .httpVersionT2
  | .httpVersionP | .httpVersionSlash => false
  | _ => true

/-- `P` holds, of the bytes read so far and the request, at every step of a new parser with
the numbers set. -/
def AtVersions (L : LexicalCast) (calls : List Call) (P : List UInt8 → Request → Prop) : Prop :=
  ∀ pre p, pre <+: calls → Passes (consume L) .fresh pre p → p.state.versioned = true →
    P (bytes pre) p.req

/-- The stored numbers are those of the digits. -/
def Stored (bs : List UInt8) (req : Request) : Prop :=
  req.httpVersionMajor.toInt = digitsValue (majorDigits bs) ∧
    req.httpVersionMinor.toInt = digitsValue (minorDigits bs)

/-- Both numbers are below a bound. -/
def Below (bound : ℕ) (bs : List UInt8) (_ : Request) : Prop :=
  digitsValue (majorDigits bs) < bound ∧ digitsValue (minorDigits bs) < bound

/-- Every value that a new parser computes for the numbers fits in an `int`. -/
def NoOverflow (L : LexicalCast) (calls : List Call) : Prop :=
  ∀ pre call p, pre ++ [call] <+: calls → Passes (consume L) .fresh pre p →
    ∀ x ∈ computed p call, -2 ^ 31 ≤ x ∧ x < 2 ^ 31

variable {L : LexicalCast} {calls : List Call} {p : Parse}

/-- In the states of the major version. -/
theorem Reached.major (hr : Reached L calls p)
    (hst : p.state = .httpVersionMajorStart ∨ p.state = .httpVersionMajor) :
    ∃ (t : Target) (ds : List UInt8), (∀ c ∈ ds, Digit c) ∧
      bytes calls = t.bytes ++ (httpSlash ++ ds) ∧
      p.req = .ofHead t.method t.uri (versionValue ds) 0 [] := by
  rcases hst with hst | hst <;> rw [Reached, hst] at hr
  · obtain ⟨t, hbytes, hreq⟩ := hr
    exact ⟨t, [], by simp, hbytes, hreq⟩
  · obtain ⟨t, ds, -, hds, hbytes, hreq⟩ := hr
    rw [List.append_nil] at hbytes
    exact ⟨t, ds, hds, hbytes, hreq⟩

/-- In the states of the minor version. -/
theorem Reached.minor (hr : Reached L calls p)
    (hst : p.state = .httpVersionMinorStart ∨ p.state = .httpVersionMinor) :
    ∃ (t : Target) (ds es : List UInt8), ds ≠ [] ∧ (∀ c ∈ ds, Digit c) ∧ (∀ c ∈ es, Digit c) ∧
      bytes calls = t.bytes ++ (httpSlash ++ (ds ++ 46 :: es)) ∧
      p.req = .ofHead t.method t.uri (versionValue ds) (versionValue es) [] := by
  rcases hst with hst | hst <;> rw [Reached, hst] at hr
  · obtain ⟨t, ds, hne, hds, hbytes, hreq⟩ := hr
    exact ⟨t, ds, [], hne, hds, by simp, hbytes, hreq⟩
  · obtain ⟨h, hlines, hbytes, hreq⟩ := hr
    refine ⟨h.target, h.major, h.minor, h.major_ne, h.major_digit, h.minor_digit, ?_, ?_⟩
    · refine List.append_cancel_right (Eq.trans hbytes ?_)
      rw [Head.bytes, hlines]
      simp
    · rw [hreq, Head.request, Head.headers, hlines]
      rfl

/-- The numbers of a request are those of the digits that were read. -/
def HasVersion (bs : List UInt8) (req : Request) : Prop :=
  ∃ major minor, ReadVersion bs major minor ∧ req.httpVersionMajor = versionValue major ∧
    req.httpVersionMinor = versionValue minor

/-- Behind the request line a head says what the numbers are. -/
theorem Head.hasVersion (h : Head) {bs : List UInt8} (s : List UInt8) {req : Request}
    (hbs : bs = h.bytes ++ s) (hmajor : req.httpVersionMajor = versionValue h.major)
    (hminor : req.httpVersionMinor = versionValue h.minor) : HasVersion bs req := by
  refine ⟨h.major, h.minor, ?_, hmajor, hminor⟩
  have hbytes : bs = h.target.bytes ++ (httpSlash ++ (h.major ++ 46 :: (h.minor ++
      (13 :: (10 :: (h.lines.flatMap HeaderLine.bytes ++ s)))))) := by
    simp [hbs, Head.bytes, crlf]
  rw [hbytes]
  exact .minor h.target _ h.major_ne h.major_digit h.minor_digit (by simp [Digit])

/-- **What the numbers are**, in every state that has them. -/
theorem Reached.hasVersion (hr : Reached L calls p) (hst : p.state.versioned = true) :
    HasVersion (bytes calls) p.req := by
  obtain ⟨st, req⟩ := p
  cases st with
  | methodStart | method | uriStart | uri | httpVersionH | httpVersionT1 | httpVersionT2
  | httpVersionP | httpVersionSlash => cases hst
  | expectingContentNewline1 => exact hr.elim
  | httpVersionMajorStart | httpVersionMajor =>
    obtain ⟨t, ds, hds, hbytes, rfl⟩ := hr.major (by simp)
    rw [hbytes]
    exact ⟨ds, [], .major t hds, rfl, rfl⟩
  | httpVersionMinorStart | httpVersionMinor =>
    obtain ⟨t, ds, es, hne, hds, hes, hbytes, rfl⟩ := hr.minor (by simp)
    have hread := ReadVersion.minor t [] hne hds hes (by simp)
    rw [List.append_nil, ← hbytes] at hread
    exact ⟨ds, es, hread, rfl, rfl⟩
  | expectingNewline1 =>
    obtain ⟨h, hlines, hbytes, rfl⟩ := hr
    refine ⟨h.major, h.minor, ?_, rfl, rfl⟩
    have hcr : bytes calls =
        h.target.bytes ++ (httpSlash ++ (h.major ++ 46 :: (h.minor ++ [13]))) := by
      refine List.append_cancel_right (Eq.trans hbytes ?_)
      rw [Head.bytes, hlines]
      simp [crlf]
    rw [hcr]
    exact .minor h.target _ h.major_ne h.major_digit h.minor_digit (by simp [Digit])
  | headerLineStart =>
    obtain ⟨h, hbytes, rfl⟩ := hr
    exact h.hasVersion [] (by rw [hbytes, List.append_nil]) rfl rfl
  | headerName | spaceBeforeHeaderValue =>
    obtain ⟨h, n, -, -, hbytes, rfl⟩ := hr
    exact h.hasVersion _ hbytes rfl rfl
  | headerValue =>
    obtain ⟨h, o, d, -, hbytes, rfl⟩ := hr
    exact h.hasVersion _ hbytes rfl rfl
  | headerLws =>
    obtain ⟨h, l, bs, -, -, hbytes, rfl⟩ := hr
    exact h.hasVersion _ hbytes rfl rfl
  | expectingNewline2 =>
    obtain ⟨h, l, hbytes, rfl⟩ := hr
    have hcr : bytes calls = h.bytes ++ l.bytes.dropLast := by
      have hlast : (bytes calls ++ [10]).dropLast = bytes calls := List.dropLast_concat
      rw [← hlast, hbytes]
      exact List.dropLast_append_of_ne_nil (by simp [HeaderLine.bytes])
    exact h.hasVersion _ hcr rfl rfl
  | expectingNewline3 =>
    obtain ⟨h, hbytes, rfl⟩ := hr
    exact h.hasVersion _ hbytes rfl rfl
  | httpPostContent =>
    obtain ⟨h, before, body, c, -, rfl, hbytes, hbody⟩ := hr
    obtain ⟨content, n, heq⟩ := passes_content_frame hbody
    obtain ⟨-, rfl⟩ := Parse.mk.inj heq
    refine h.hasVersion ([13, c] ++ bytes body) ?_ rfl rfl
    rw [bytes, List.map_append, ← List.append_assoc, ← hbytes]
    rfl

/-- The stored numbers are right exactly when those of the digits are small enough. -/
theorem HasVersion.stored_iff {bs : List UInt8} {req : Request} (h : HasVersion bs req) :
    Stored bs req ↔ Below (2 ^ 31) bs req := by
  obtain ⟨major, minor, hread, hmajor, hminor⟩ := h
  obtain ⟨hds, hes⟩ := hread.digit
  rw [Stored, Below, hread.digits.1, hread.digits.2, hmajor, hminor]
  exact and_congr (toInt_versionValue_iff hds) (toInt_versionValue_iff hes)

/-! ## Overflow -/

/-- Any digits of the major version are read. -/
theorem Target.feeds_major (t : Target) {ds : List UInt8} (hds : ∀ c ∈ ds, Digit c) :
    ∃ st, (st = .httpVersionMajorStart ∨ st = .httpVersionMajor) ∧
      Feeds L .fresh (t.bytes ++ (httpSlash ++ ds))
        ⟨st, .ofHead t.method t.uri (versionValue ds) 0 []⟩ := by
  rw [← List.append_assoc]
  by_cases hne : ds = []
  · subst hne
    rw [List.append_nil]
    exact ⟨_, .inl rfl, t.feeds_slash⟩
  · exact ⟨_, .inr rfl, t.feeds_slash.trans (Http.feeds_major hne hds)⟩

/-- Any digits of the minor version are read. -/
theorem Target.feeds_minor (t : Target) {ds es : List UInt8} (hne : ds ≠ [])
    (hds : ∀ c ∈ ds, Digit c) (hes : ∀ c ∈ es, Digit c) :
    ∃ st, (st = .httpVersionMinorStart ∨ st = .httpVersionMinor) ∧
      Feeds L .fresh (t.bytes ++ (httpSlash ++ (ds ++ 46 :: es)))
        ⟨st, .ofHead t.method t.uri (versionValue ds) (versionValue es) []⟩ := by
  have hdot : Feeds L .fresh (t.bytes ++ (httpSlash ++ (ds ++ [46])))
      ⟨.httpVersionMinorStart, .ofHead t.method t.uri (versionValue ds) 0 []⟩ := by
    rw [← List.append_assoc]
    refine t.feeds_slash.trans ((Http.feeds_major hne hds).trans ?_)
    refine Feeds.goto .httpVersionMinorStart (fun call hc => ?_) (PassesOver.nil _)
    simp [consume, hc]
  by_cases hnil : es = []
  · subst hnil
    exact ⟨_, .inl rfl, hdot⟩
  · refine ⟨_, .inr rfl, ?_⟩
    have hall := hdot.trans (Http.feeds_minor hnil hes)
    simpa using hall

/-- Where digits are read at a place and no step overflows, their value leaves room for
`'0'`. The induction is on the digits: the value before is what the next step starts from. -/
theorem below_of_noOverflow (h : NoOverflow L calls) (place : List UInt8)
    (hread : ∀ ds, (∀ c ∈ ds, Digit c) → ∀ pre, bytes pre = place ++ ds →
      ∃ p, Passes (consume L) .fresh pre p ∧
        ∀ call, computed p call = digitSteps (versionValue ds) call.input)
    {ds : List UInt8} (hds : ∀ c ∈ ds, Digit c) (hcalls : place ++ ds <+: bytes calls) :
    digitsValue ds < 2 ^ 31 - 48 := by
  induction ds using List.reverseRecOn with
  | nil => decide
  | append_singleton ds c ih =>
    obtain ⟨hinit, hc⟩ := List.forall_mem_append.mp hds
    rw [← List.append_assoc] at hcalls
    have hbefore := ih hinit ((List.prefix_append _ _).trans hcalls)
    obtain ⟨rest, hrest⟩ := hcalls
    rw [List.append_assoc] at hrest
    obtain ⟨pre, tail, rfl, hpre, htail⟩ := List.map_eq_append_iff.mp hrest.symm
    obtain ⟨call, tail, rfl, rfl, -⟩ := List.map_eq_cons_iff.mp htail
    obtain ⟨p, hpass, hsteps⟩ := hread ds hinit pre hpre
    have hstep : pre ++ [call] <+: pre ++ call :: tail := by simp
    rw [← digitSteps_fit_iff hinit (by omega) (List.forall_mem_singleton.mp hc), ← hsteps]
    exact h pre call p hstep hpass

theorem NoOverflow.major (h : NoOverflow L calls) (t : Target) {ds : List UInt8}
    (hds : ∀ c ∈ ds, Digit c) (hcalls : t.bytes ++ (httpSlash ++ ds) <+: bytes calls) :
    digitsValue ds < 2 ^ 31 - 48 := by
  rw [← List.append_assoc] at hcalls
  apply below_of_noOverflow h (t.bytes ++ httpSlash) _ hds hcalls
  intro ds hds pre hpre
  rw [List.append_assoc] at hpre
  obtain ⟨st, hst, hfeeds⟩ := t.feeds_major (L := L) hds
  refine ⟨_, hfeeds pre hpre, fun call => ?_⟩
  rcases hst with rfl | rfl <;> rfl

theorem NoOverflow.minor (h : NoOverflow L calls) (t : Target) {ds es : List UInt8} (hne : ds ≠ [])
    (hds : ∀ c ∈ ds, Digit c) (hes : ∀ c ∈ es, Digit c)
    (hcalls : t.bytes ++ (httpSlash ++ (ds ++ 46 :: es)) <+: bytes calls) :
    digitsValue es < 2 ^ 31 - 48 := by
  have hplace : ∀ es, t.bytes ++ (httpSlash ++ (ds ++ 46 :: es)) =
      t.bytes ++ (httpSlash ++ (ds ++ [46])) ++ es := by simp
  rw [hplace] at hcalls
  apply below_of_noOverflow h (t.bytes ++ (httpSlash ++ (ds ++ [46]))) _ hes hcalls
  intro es hes pre hpre
  rw [← hplace] at hpre
  obtain ⟨st, hst, hfeeds⟩ := t.feeds_minor (L := L) hne hds hes
  refine ⟨_, hfeeds pre hpre, fun call => ?_⟩
  rcases hst with rfl | rfl <;> rfl

/-- Where no step overflows, both numbers leave room for `'0'` at every step. -/
theorem NoOverflow.below (h : NoOverflow L calls) :
    AtVersions L calls (Below (2 ^ 31 - 48)) := by
  rintro pre p hpre hpass hst
  obtain ⟨major, minor, hread, -⟩ := (reached_of_passes hpass).hasVersion hst
  rw [Below, hread.digits.1, hread.digits.2]
  have hcalls : bytes pre <+: bytes calls := hpre.map _
  generalize bytes pre = bs at hread hcalls
  cases hread with
  | major t hds => exact ⟨h.major t hds hcalls, by decide⟩
  | @minor t major minor rest hne hds hes hrest =>
    refine ⟨h.major t hds (.trans ?_ hcalls), h.minor t hne hds hes (.trans ?_ hcalls)⟩
    · simp
    · simp

/-- The steps of a digit fit if the value with it leaves room for `'0'`. -/
theorem digitSteps_fit {ds : List UInt8} (hds : ∀ c ∈ ds, Digit c) {c : UInt8}
    (hsmall : (∀ d ∈ ds ++ [c], Digit d) → digitsValue (ds ++ [c]) < 2 ^ 31 - 48) :
    ∀ x ∈ digitSteps (versionValue ds) c, -2 ^ 31 ≤ x ∧ x < 2 ^ 31 := by
  by_cases hc : Digit c
  · have hnext := hsmall (List.forall_mem_append.mpr ⟨hds, List.forall_mem_singleton.mpr hc⟩)
    have hbefore : digitsValue ds < 2 ^ 31 := by
      rw [digitsValue_snoc] at hnext
      omega
    exact (digitSteps_fit_iff hds hbefore hc).mpr hnext
  · simp [digitSteps, isDigit_eq, hc]

section Fit

variable {pre : List Call} {call : Call} (h : AtVersions L calls (Below (2 ^ 31 - 48)))
  (hpre : pre ++ [call] <+: calls) (hr : Reached L pre p)

include h hpre hr

theorem computed_fit_major (hst : p.state = .httpVersionMajorStart ∨ p.state = .httpVersionMajor) :
    ∀ x ∈ computed p call, -2 ^ 31 ≤ x ∧ x < 2 ^ 31 := by
  obtain ⟨t, ds, hds, hbytes, hreq⟩ := hr.major hst
  have hcomputed : computed p call = digitSteps (versionValue ds) call.input := by
    rcases hst with hst | hst <;> simp [computed, hst, hreq, Request.ofHead]
  rw [hcomputed]
  apply digitSteps_fit hds
  intro hsnoc
  have hnext : bytes (pre ++ [call]) = t.bytes ++ (httpSlash ++ (ds ++ [call.input])) := by
    rw [bytes_snoc, hbytes]
    simp
  obtain ⟨st, hst, hfeeds⟩ := t.feeds_major (L := L) hsnoc
  have hbelow := (h _ _ hpre (hfeeds _ hnext) (by rcases hst with rfl | rfl <;> rfl)).1
  rwa [hnext, (ReadVersion.major t hsnoc).digits.1] at hbelow

theorem computed_fit_minor (hst : p.state = .httpVersionMinorStart ∨ p.state = .httpVersionMinor) :
    ∀ x ∈ computed p call, -2 ^ 31 ≤ x ∧ x < 2 ^ 31 := by
  obtain ⟨t, ds, es, hne, hds, hes, hbytes, hreq⟩ := hr.minor hst
  have hcomputed : computed p call = digitSteps (versionValue es) call.input := by
    rcases hst with hst | hst <;> simp [computed, hst, hreq, Request.ofHead]
  rw [hcomputed]
  apply digitSteps_fit hes
  intro hsnoc
  have hnext : bytes (pre ++ [call]) =
      t.bytes ++ (httpSlash ++ (ds ++ 46 :: (es ++ [call.input]))) := by
    rw [bytes_snoc, hbytes]
    simp
  obtain ⟨st, hst, hfeeds⟩ := t.feeds_minor (L := L) hne hds hsnoc
  have hbelow := (h _ _ hpre (hfeeds _ hnext) (by rcases hst with rfl | rfl <;> rfl)).2
  have hread := ReadVersion.minor t [] hne hds hsnoc (by simp)
  rw [List.append_nil] at hread
  rwa [hnext, hread.digits.2] at hbelow

end Fit

/-- In the states that read no digit at most a zero is stored. -/
theorem computed_eq_zero {call : Call}
    (hmajor : ¬ (p.state = .httpVersionMajorStart ∨ p.state = .httpVersionMajor))
    (hminor : ¬ (p.state = .httpVersionMinorStart ∨ p.state = .httpVersionMinor)) :
    ∀ x ∈ computed p call, x = 0 := by
  intro x hx
  rw [computed] at hx
  split at hx
  · split_ifs at hx
    · exact List.mem_singleton.mp hx
    · exact absurd hx List.not_mem_nil
  · rename_i hst
    exact absurd (.inl hst) hmajor
  · rename_i hst
    exact absurd (.inr hst) hmajor
  · rename_i hst
    exact absurd (.inl hst) hminor
  · rename_i hst
    exact absurd (.inr hst) hminor
  · exact absurd hx List.not_mem_nil

/-- Numbers that leave room for `'0'` at every step make no step overflow. -/
theorem noOverflow_of_below (h : AtVersions L calls (Below (2 ^ 31 - 48))) :
    NoOverflow L calls := by
  intro pre call p hpre hpass
  have hr := reached_of_passes hpass
  by_cases hmajor : p.state = .httpVersionMajorStart ∨ p.state = .httpVersionMajor
  · exact computed_fit_major h hpre hr hmajor
  by_cases hminor : p.state = .httpVersionMinorStart ∨ p.state = .httpVersionMinor
  · exact computed_fit_minor h hpre hr hminor
  · intro x hx
    rw [computed_eq_zero hmajor hminor x hx]
    decide

/-- **Version numbers.** For every bytes that are fed to a new parser: at every step the
stored numbers are those of the digits read so far and no value that was computed for them
leaves the range of an `int`, if and only if the numbers of the digits stay below
`2 ^ 31 - 48`; the stored numbers alone are right if and only if they stay below `2 ^ 31`. -/
theorem versions_exact_iff (L : LexicalCast) (calls : List Call) :
    (AtVersions L calls Stored ∧ NoOverflow L calls ↔
        AtVersions L calls (Below (2 ^ 31 - 48))) ∧
      (AtVersions L calls Stored ↔ AtVersions L calls (Below (2 ^ 31))) := by
  have hstored : AtVersions L calls Stored ↔ AtVersions L calls (Below (2 ^ 31)) := by
    refine forall_congr' fun pre => forall_congr' fun p => ?_
    refine imp_congr_right fun _ => forall_congr' fun hpass => forall_congr' fun hst => ?_
    exact ((reached_of_passes hpass).hasVersion hst).stored_iff
  refine ⟨⟨fun h => h.2.below, fun h => ⟨hstored.mpr ?_, noOverflow_of_below h⟩⟩, hstored⟩
  intro pre p hpre hpass hst
  obtain ⟨hmajor, hminor⟩ := h pre p hpre hpass hst
  exact ⟨by omega, by omega⟩

/-- `"GET / HTTP/2147483648"` -/
def hugeVersion : List UInt8 :=
  [71, 69, 84, 32, 47, 32, 72, 84, 84, 80, 47, 50, 49, 52, 55, 52, 56, 51, 54, 52, 56]

/-- The version `2 ^ 31` is stored as `-2 ^ 31`. -/
theorem version_wraps :
    let run := parse strictCast [quietCalls hugeVersion]
    run.verdict = none ∧ run.state.state = .httpVersionMajor ∧
      run.state.req.httpVersionMajor.toInt = -2 ^ 31 ∧
      digitsValue (majorDigits hugeVersion) = 2 ^ 31 := by
  decide +kernel

end Http

end MyServer
