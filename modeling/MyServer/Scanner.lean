import MyServer.Runs
import Mathlib.Data.List.Induction

/-!
# Scanners

A scanner reads one symbol at a time. After each symbol it either wants more (`none`) or
gives a verdict (`some`), and then it stops. `scan` runs one over a list; `scanChunks`
runs it over the pieces of a list, call by call, which makes no difference
(`scanChunks_eq`).

Two judgments describe a run: `Passes`, all symbols were read and more are wanted, and
`Decides`, the last symbol gave the verdict. Passing runs compose (`Passes.trans`), a
state the scanner stays in is passed symbol by symbol (`passesOver_loop`), and what holds
at the start and is kept by every symbol that is passed holds after every passing run
(`Passes.invariant`).

A caller need not stop at a verdict. `nextState` is the machine of one that goes on; what
always holds along its runs holds of the state a scan leaves (`Always.scan`).
-/

namespace MyServer

universe u v w

variable {σ : Type u} {α : Type v} {β : Type*} {ω : Type w} (step : σ → α → Option ω × σ)

/-- What a run came to. -/
structure Scan (σ : Type u) (α : Type v) (ω : Type w) : Type (max u v w) where
  /-- the verdict, if there is one -/
  verdict : Option ω
  /-- the state it left -/
  state : σ
  /-- the symbols it did not read -/
  rest : List α

/-- Read a list of symbols, up to the verdict. -/
def scan (s : σ) : List α → Scan σ α ω
  | [] => ⟨none, s, []⟩
  | a :: as =>
    match step s a with
    | (none, s) => scan s as
    | (some w, s) => ⟨some w, s, as⟩

/-- Read the pieces of a list one after the other, up to the verdict. -/
def scanChunks (s : σ) : List (List α) → Scan σ α ω
  | [] => ⟨none, s, []⟩
  | c :: cs =>
    match scan step s c with
    | ⟨none, s, _⟩ => scanChunks s cs
    | ⟨some w, s, rest⟩ => ⟨some w, s, rest ++ cs.flatten⟩

/-- All symbols are read and more are wanted. -/
def Passes (s : σ) (as : List α) (s' : σ) : Prop := scan step s as = ⟨none, s', []⟩

/-- The last symbol gives the verdict. -/
def Decides (s : σ) (as : List α) (w : ω) (s' : σ) : Prop := scan step s as = ⟨some w, s', []⟩

variable {step} {s s₁ s' : σ} {a : α} {as bs : List α} {w : ω}

/-! ## One symbol -/

/-- An undecided input hands over to the next state. -/
theorem scan_cons_none (h : step s a = (none, s₁)) : scan step s (a :: as) = scan step s₁ as := by
  rw [scan, h]

/-- A verdict ends the scan, and what is behind the input that gave it is left. -/
theorem scan_cons_some (h : step s a = (some w, s₁)) :
    scan step s (a :: as) = ⟨some w, s₁, as⟩ := by rw [scan, h]

@[simp] theorem passes_nil (s : σ) : Passes step s [] s := rfl

theorem Passes.cons (h : step s a = (none, s₁)) (has : Passes step s₁ as s') :
    Passes step s (a :: as) s' := (scan_cons_none h).trans has

theorem passes_single (h : step s a = (none, s')) : Passes step s [a] s' :=
  Passes.cons h (passes_nil s')

/-! ## Composition -/

/-- What passes can be cut off in front: the scan of the rest starts in the state that was
reached. All reasoning about pieces of a stream goes through this. -/
theorem Passes.scan_append (h : Passes step s as s') (bs : List α) :
    scan step s (as ++ bs) = scan step s' bs := by
  induction as generalizing s with
  | nil =>
    obtain rfl : s = s' := congrArg Scan.state h
    rfl
  | cons a as ih =>
    rw [Passes, scan] at h
    rw [List.cons_append, scan]
    rcases hstep : step s a with ⟨v, s₁⟩
    rw [hstep] at h
    cases v with
    | none => exact ih h
    | some w => exact absurd (congrArg Scan.verdict h) (Option.some_ne_none w)

/-- Parts that pass one after the other pass as a whole. -/
theorem Passes.trans (h : Passes step s as s₁) (h' : Passes step s₁ bs s') :
    Passes step s (as ++ bs) s' := (h.scan_append bs).trans h'

theorem Passes.snoc (h : Passes step s as s₁) (ha : step s₁ a = (none, s')) :
    Passes step s (as ++ [a]) s' := h.trans (passes_single ha)

/-- The input that is decided on is the last one that is looked at. -/
theorem Passes.decides (h : Passes step s as s₁) (ha : step s₁ a = (some w, s')) :
    Decides step s (as ++ [a]) w s' := (h.scan_append [a]).trans (scan_cons_some ha)

/-! ## Symbols seen through a view

A scanner that looks only at a part of its symbols passes all lists that show the same. -/

/-- Whatever symbols show `bs`, they are passed. -/
def PassesOver (step : σ → α → Option ω × σ) (view : α → β) (s : σ) (bs : List β) (s' : σ) : Prop :=
  ∀ as : List α, as.map view = bs → Passes step s as s'

variable {view : α → β} {b : β} {xs ys : List β}

theorem PassesOver.nil (s : σ) : PassesOver step view s [] s := by
  intro as has
  rw [List.map_eq_nil_iff.mp has]
  exact passes_nil s

/-- To pass over a text whatever the hidden parts of the inputs are, its first letter has to lead
to one state for all of them. -/
theorem PassesOver.cons (s₁ : σ) (h : ∀ a, view a = b → step s a = (none, s₁))
    (hxs : PassesOver step view s₁ xs s') : PassesOver step view s (b :: xs) s' := by
  intro as has
  obtain ⟨a, as, rfl, ha, has⟩ := List.map_eq_cons_iff.mp has
  exact Passes.cons (h a ha) (hxs as has)

/-- The states in between do not depend on the hidden parts, so the two halves can be put
together. -/
theorem PassesOver.trans (h : PassesOver step view s xs s₁) (h' : PassesOver step view s₁ ys s') :
    PassesOver step view s (xs ++ ys) s' := by
  intro as has
  obtain ⟨as₁, as₂, rfl, h₁, h₂⟩ := List.map_eq_append_iff.mp has
  exact (h as₁ h₁).trans (h' as₂ h₂)

/-- A loop: from the state `loop pre` every symbol of a kind leads to the same state with
what it shows behind `pre`. -/
theorem passesOver_loop (loop : List β → σ) (stay : β → Prop)
    (hstep : ∀ pre a, stay (view a) → step (loop pre) a = (none, loop (pre ++ [view a])))
    (hxs : ∀ b ∈ xs, stay b) (pre : List β) :
    PassesOver step view (loop pre) xs (loop (pre ++ xs)) := by
  induction xs generalizing pre with
  | nil => rw [List.append_nil]; exact PassesOver.nil _
  | cons b xs ih =>
    have htail := ih (fun c hc => hxs c (List.mem_cons_of_mem b hc)) (pre ++ [b])
    rw [List.append_assoc, List.singleton_append] at htail
    refine PassesOver.cons (loop (pre ++ [b])) ?_ htail
    rintro a rfl
    exact hstep pre a (hxs _ (List.mem_cons_self ..))

/-! ## Inversion -/

/-- A run either passes, or passes up to the symbol that gives the verdict. -/
theorem scan_cases (step : σ → α → Option ω × σ) (s : σ) (as : List α) :
    (∃ s', Passes step s as s') ∨
      ∃ pre a rest s₁ w s', as = pre ++ a :: rest ∧ Passes step s pre s₁ ∧
        step s₁ a = (some w, s') ∧ scan step s as = ⟨some w, s', rest⟩ := by
  induction as generalizing s with
  | nil => exact .inl ⟨s, passes_nil s⟩
  | cons a as ih =>
    rcases hstep : step s a with ⟨_ | w, s₁⟩
    · rcases ih s₁ with ⟨s', h⟩ | ⟨pre, b, rest, s₂, w, s', rfl, hpre, hb, hscan⟩
      · exact .inl ⟨s', Passes.cons hstep h⟩
      · refine .inr ⟨a :: pre, b, rest, s₂, w, s', rfl, Passes.cons hstep hpre, hb, ?_⟩
        rw [scan_cons_none hstep, hscan]
    · exact .inr ⟨[], a, as, s, w, s₁, rfl, passes_nil s, hstep, scan_cons_some hstep⟩

/-- The symbols up to a verdict. -/
theorem exists_of_scan_some {rest : List α} (h : scan step s as = ⟨some w, s', rest⟩) :
    ∃ pre a s₁, as = pre ++ a :: rest ∧ Passes step s pre s₁ ∧ step s₁ a = (some w, s') := by
  rcases scan_cases step s as with ⟨s₂, hpass⟩ | ⟨pre, a, rest', s₁, w', s₂, heq, hpre,
    ha, hscan⟩
  · exact absurd (congrArg Scan.verdict (h.symm.trans hpass)) (Option.some_ne_none w)
  · rw [hscan, Scan.mk.injEq, Option.some.injEq] at h
    obtain ⟨rfl, rfl, rfl⟩ := h
    exact ⟨pre, a, s₁, heq, hpre, ha⟩

/-- A prefix of a passing run passes. -/
theorem Passes.split (h : Passes step s (as ++ bs) s') :
    ∃ s₁, Passes step s as s₁ ∧ Passes step s₁ bs s' := by
  rcases scan_cases step s as with ⟨s₁, has⟩ | ⟨pre, a, rest, s₁, w, s₂, rfl, hpre, ha, -⟩
  · exact ⟨s₁, has, (has.scan_append bs).symm.trans h⟩
  · rw [Passes, List.append_assoc, hpre.scan_append, List.cons_append, scan_cons_some ha] at h
    exact absurd (congrArg Scan.verdict h) (Option.some_ne_none w)

/-- **Invariant rule**: what holds before the first symbol, and is kept by every symbol
that is passed, holds of what was read and the state it led to. -/
theorem Passes.invariant {I : List α → σ → Prop} (h0 : I [] s)
    (hstep : ∀ pre s₁ a s₂, I pre s₁ → step s₁ a = (none, s₂) → I (pre ++ [a]) s₂)
    (h : Passes step s as s') : I as s' := by
  induction as using List.reverseRecOn generalizing s' with
  | nil =>
    obtain rfl : s = s' := congrArg Scan.state h
    exact h0
  | append_singleton as a ih =>
    obtain ⟨s₁, has, ha⟩ := h.split
    rcases hs : step s₁ a with ⟨_ | w, s₂⟩
    · obtain rfl : s₂ = s' := congrArg Scan.state ((scan_cons_none hs).symm.trans ha)
      exact hstep as s₁ a s₂ (ih has) hs
    · exact absurd (congrArg Scan.verdict ((scan_cons_some hs).symm.trans ha))
        (Option.some_ne_none w)

/-- Two runs whose symbols the scanner does not tell apart, in the states it comes to, agree. -/
theorem scan_agree {r : α → α → Prop} (hrel : List.Forall₂ r as bs)
    (hstep : ∀ pre a b s₁, pre ++ [a] <+: as → Passes step s pre s₁ → r a b →
      step s₁ a = step s₁ b) :
    (scan step s as).verdict = (scan step s bs).verdict ∧
      (scan step s as).state = (scan step s bs).state := by
  induction hrel generalizing s with
  | nil => exact ⟨rfl, rfl⟩
  | @cons a b as bs hab hrest ih =>
    have hfirst := hstep [] a b s (List.prefix_append [a] as) (passes_nil s) hab
    rcases ha : step s a with ⟨_ | w, s₁⟩
    · rw [scan_cons_none ha, scan_cons_none (hfirst.symm.trans ha)]
      refine ih fun pre x y s₂ hpre hpass hxy => ?_
      exact hstep (a :: pre) x y s₂ (List.cons_prefix_cons.mpr ⟨rfl, hpre⟩)
        (Passes.cons ha hpass) hxy
    · rw [scan_cons_some ha, scan_cons_some (hfirst.symm.trans ha)]
      exact ⟨rfl, rfl⟩

/-! ## Runs that go on after a verdict -/

/-- The state after one symbol, whatever the verdict. -/
def nextState (step : σ → α → Option ω × σ) (s : σ) (a : α) : σ := (step s a).2

/-- A scan is a run over the inputs up to the verdict; invariants of runs therefore speak of
scans. -/
theorem exists_runFrom_eq_scan (step : σ → α → Option ω × σ) (s : σ) (as : List α) :
    ∃ pre, pre <+: as ∧ (scan step s as).state = runFrom (nextState step) s pre := by
  induction as generalizing s with
  | nil => exact ⟨[], List.prefix_rfl, rfl⟩
  | cons a as ih =>
    rcases hstep : step s a with ⟨_ | w, s₁⟩
    · obtain ⟨pre, hpre, hstate⟩ := ih s₁
      refine ⟨a :: pre, List.cons_prefix_cons.mpr ⟨rfl, hpre⟩, ?_⟩
      rw [scan_cons_none hstep, hstate, runFrom_cons, nextState, hstep]
    · refine ⟨[a], List.prefix_append [a] as, ?_⟩
      rw [scan_cons_some hstep, runFrom_cons, nextState, hstep, runFrom_nil]

/-- An invariant of the steps holds in the state a scan ends in, wherever it stops. -/
theorem Always.scan {P : σ → Prop} (h : Always (nextState step) P s as) :
    P (scan step s as).state := by
  obtain ⟨pre, hpre, hstate⟩ := exists_runFrom_eq_scan step s as
  rw [hstate]
  exact h pre hpre

/-! ## Pieces -/

/-- **The cuts do not matter.** -/
theorem scanChunks_eq (s : σ) (cs : List (List α)) :
    scanChunks step s cs = scan step s cs.flatten := by
  induction cs generalizing s with
  | nil => rfl
  | cons c cs ih =>
    rw [scanChunks, List.flatten_cons]
    rcases scan_cases step s c with ⟨s', hc⟩ | ⟨pre, a, rest, s₁, w, s', rfl, hpre, ha,
      hscan⟩
    · rw [hc.scan_append, show scan step s c = _ from hc]
      exact ih s'
    · rw [hscan, List.append_assoc, hpre.scan_append, List.cons_append, scan_cons_some ha]

end MyServer
