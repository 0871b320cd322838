import Mathlib.Data.List.Infix

/-!
# Runs of a deterministic machine

A machine is a function `step : σ → ε → σ`; a run feeds it a list of events.
`Always P` says that `P` holds in every state a run goes through, the first one
included, and `EachStep Q` that every step of the run is taken from a state that
allows it. The two rules everything else uses: an invariant that the allowed
steps keep holds throughout (`always_of_eachStep`), and when a step keeps the
invariant *exactly* if it is allowed, the two notions agree
(`always_iff_eachStep`). A function that takes the steps of one machine to those of
another carries all of this over (`always_map`, `eachStep_map`).
-/

namespace MyServer

universe u v

variable {σ : Type u} {ε : Type v} (step : σ → ε → σ)

/-- The state after the events `es`. -/
def runFrom (s : σ) (es : List ε) : σ := es.foldl step s

/-- `P` holds in every state the run goes through. -/
def Always (P : σ → Prop) (s : σ) (es : List ε) : Prop :=
  ∀ pre, pre <+: es → P (runFrom step s pre)

/-- `Q` holds of every step of the run: of the event and the state it meets. -/
def EachStep (Q : σ → ε → Prop) : σ → List ε → Prop
  | _, [] => True
  | s, e :: es => Q s e ∧ EachStep Q (step s e) es

variable {step}

@[simp] theorem runFrom_nil (s : σ) : runFrom step s [] = s := rfl

@[simp] theorem runFrom_cons (s : σ) (e : ε) (es : List ε) :
    runFrom step s (e :: es) = runFrom step (step s e) es := rfl

/-- A run can be cut anywhere and resumed from the state it has reached. -/
theorem runFrom_append (s : σ) (es es' : List ε) :
    runFrom step s (es ++ es') = runFrom step (runFrom step s es) es' := List.foldl_append

@[simp] theorem eachStep_nil (Q : σ → ε → Prop) (s : σ) : EachStep step Q s [] := trivial

@[simp] theorem eachStep_cons {Q : σ → ε → Prop} {s : σ} {e : ε} {es : List ε} :
    EachStep step Q s (e :: es) ↔ Q s e ∧ EachStep step Q (step s e) es := Iff.rfl

/-- The whole list of events is a prefix of itself, so an invariant of all prefixes holds at the
end. -/
theorem Always.last {P : σ → Prop} {s : σ} {es : List ε} (h : Always step P s es) :
    P (runFrom step s es) := h es List.prefix_rfl

/-- Without events there is only the initial state to look at. -/
theorem always_nil {P : σ → Prop} {s : σ} : Always step P s [] ↔ P s := by
  refine ⟨?_, ?_⟩
  · exact fun h => h.last
  · intro h pre hpre
    rw [List.prefix_nil.mp hpre]
    exact h

/-- An invariant along a run is one of the first state and one along the rest; this is the form in
which inductions over runs use it. -/
theorem always_cons {P : σ → Prop} {s : σ} {e : ε} {es : List ε} :
    Always step P s (e :: es) ↔ P s ∧ Always step P (step s e) es := by
  refine ⟨?_, ?_⟩
  · intro h
    refine ⟨h [] (List.nil_prefix), fun pre hpre => ?_⟩
    exact h (e :: pre) (List.cons_prefix_cons.mpr ⟨rfl, hpre⟩)
  · rintro ⟨h, hes⟩ pre hpre
    cases pre with
    | nil => exact h
    | cons e' pre =>
      obtain ⟨rfl, htail⟩ := List.cons_prefix_cons.mp hpre
      exact hes pre htail

/-- **Invariant rule**: what the allowed steps keep holds throughout a run of
allowed steps. -/
theorem always_of_eachStep {P : σ → Prop} {Q : σ → ε → Prop}
    (hstep : ∀ s e, P s → Q s e → P (step s e)) :
    ∀ {s : σ} {es : List ε}, P s → EachStep step Q s es → Always step P s es := by
  intro s es
  induction es generalizing s with
  | nil => exact fun h _ => always_nil.mpr h
  | cons e es ih =>
    rintro h ⟨hq, hes⟩
    exact always_cons.mpr ⟨h, ih (hstep s e h hq) hes⟩

/-- A property of all states and events holds of every step. -/
theorem eachStep_of_forall {Q : σ → ε → Prop} (h : ∀ s e, Q s e) (s : σ) (es : List ε) :
    EachStep step Q s es := by
  induction es generalizing s with
  | nil => trivial
  | cons e es ih => exact ⟨h s e, ih _⟩

/-- The invariant rule when every step is allowed. -/
theorem always_of_step {P : σ → Prop} (hstep : ∀ s e, P s → P (step s e)) {s : σ} (h : P s)
    (es : List ε) : Always step P s es :=
  always_of_eachStep (fun s e hs _ => hstep s e hs) h (eachStep_of_forall (fun _ _ => trivial) s es)

/-- What holds of the steps from states with `P`, holds of every step of a run where `P`
always does. -/
theorem Always.eachStep {P : σ → Prop} {Q : σ → ε → Prop} (hstep : ∀ s e, P s → Q s e) {s : σ}
    {es : List ε} (h : Always step P s es) : EachStep step Q s es := by
  induction es generalizing s with
  | nil => trivial
  | cons e es ih =>
    obtain ⟨hs, hes⟩ := always_cons.mp h
    exact ⟨hstep s e hs, ih hes⟩

/-- What the steps keep as long as `P` holds, holds as long as `P` does. -/
theorem always_of_always {I P : σ → Prop}
    (hinv : ∀ s e, I s → P s → P (step s e) → I (step s e)) {s : σ} {es : List ε} (hI : I s)
    (hP : Always step P s es) : Always step I s es := by
  induction es generalizing s with
  | nil => exact always_nil.mpr hI
  | cons e es ih =>
    obtain ⟨hs, hes⟩ := always_cons.mp hP
    have hnext : P (step s e) := hes [] List.nil_prefix
    exact always_cons.mpr ⟨hI, ih (hinv s e hI hs hnext) hes⟩

/-- **Exactness rule**: over states that satisfy a background invariant `I`, if a
step keeps `P` and does what `K` says exactly when it is allowed, then `P` holds
throughout a run and `K` of all its steps exactly when they are all allowed. The steps
that keep `P` have to keep `I`. -/
theorem always_and_eachStep_iff {I P : σ → Prop} {K Q : σ → ε → Prop}
    (hinv : ∀ s e, I s → P s → P (step s e) → I (step s e))
    (hstep : ∀ s e, I s → P s → (P (step s e) ∧ K s e ↔ Q s e)) :
    ∀ {s : σ} {es : List ε}, I s → P s →
      (Always step P s es ∧ EachStep step K s es ↔ EachStep step Q s es) := by
  intro s es
  induction es generalizing s with
  | nil => exact fun _ h => ⟨fun _ => trivial, fun _ => ⟨always_nil.mpr h, trivial⟩⟩
  | cons e es ih =>
    intro hI hP
    rw [always_cons, eachStep_cons, eachStep_cons]
    refine ⟨?_, ?_⟩
    · rintro ⟨⟨-, hes⟩, hk, hks⟩
      have hnext : P (step s e) := hes [] List.nil_prefix
      have htail := ih (hinv s e hI hP hnext) hnext
      exact ⟨(hstep s e hI hP).mp ⟨hnext, hk⟩, htail.mp ⟨hes, hks⟩⟩
    · rintro ⟨hq, hqs⟩
      obtain ⟨hnext, hk⟩ := (hstep s e hI hP).mpr hq
      obtain ⟨hes, hks⟩ := (ih (hinv s e hI hP hnext) hnext).mpr hqs
      exact ⟨⟨hP, hes⟩, hk, hks⟩

/-- The exactness rule for an invariant alone. -/
theorem always_iff_eachStep_of_kept {I P : σ → Prop} {Q : σ → ε → Prop}
    (hinv : ∀ s e, I s → P s → P (step s e) → I (step s e))
    (hstep : ∀ s e, I s → P s → (P (step s e) ↔ Q s e)) {s : σ} {es : List ε} (hI : I s)
    (hP : P s) : Always step P s es ↔ EachStep step Q s es := by
  have hall : EachStep step (fun _ _ => True) s es := eachStep_of_forall (fun _ _ => trivial) s es
  refine (and_iff_left hall).symm.trans (always_and_eachStep_iff hinv ?_ hI hP)
  exact fun s e hs hp => (and_iff_left trivial).trans (hstep s e hs hp)

/-- The same, when every step keeps the background invariant. -/
theorem always_iff_eachStep {I P : σ → Prop} {Q : σ → ε → Prop}
    (hinv : ∀ s e, I s → I (step s e))
    (hstep : ∀ s e, I s → P s → (P (step s e) ↔ Q s e)) {s : σ} {es : List ε} (hI : I s)
    (hP : P s) : Always step P s es ↔ EachStep step Q s es :=
  always_iff_eachStep_of_kept (fun s e hs _ _ => hinv s e hs) hstep hI hP

/-- Two properties of steps that agree over a background invariant agree over runs. -/
theorem eachStep_congr {I : σ → Prop} {K Q : σ → ε → Prop} (hinv : ∀ s e, I s → I (step s e))
    (h : ∀ s e, I s → (K s e ↔ Q s e)) {s : σ} (hs : I s) (es : List ε) :
    EachStep step K s es ↔ EachStep step Q s es := by
  induction es generalizing s with
  | nil => exact Iff.rfl
  | cons e es ih =>
    rw [eachStep_cons, eachStep_cons, h s e hs, ih (hinv s e hs)]

/-! ## Simulation by a function

Where `f` takes every step of one machine to a step of another, it takes runs to runs. -/

variable {τ : Type*} {step' : τ → ε → τ} {f : σ → τ}

/-- A simulation by a function: when it commutes with one step, it commutes with whole runs. -/
theorem runFrom_map (h : ∀ s e, step' (f s) e = f (step s e)) (s : σ) (es : List ε) :
    runFrom step' (f s) es = f (runFrom step s es) := by
  induction es generalizing s with
  | nil => rfl
  | cons e es ih => rw [runFrom_cons, runFrom_cons, h, ih]

/-- An invariant of the image can then be read on the run it is the image of. -/
theorem always_map (h : ∀ s e, step' (f s) e = f (step s e)) {P : τ → Prop} {s : σ} {es : List ε} :
    Always step' P (f s) es ↔ Always step (fun s => P (f s)) s es := by
  refine forall_congr' fun pre => imp_congr_right fun _ => ?_
  rw [runFrom_map h]

/-- And so can a condition on its steps, as the events are the same. -/
theorem eachStep_map (h : ∀ s e, step' (f s) e = f (step s e)) {Q : τ → ε → Prop} {s : σ}
    {es : List ε} : EachStep step' Q (f s) es ↔ EachStep step (fun s e => Q (f s) e) s es := by
  induction es generalizing s with
  | nil => exact Iff.rfl
  | cons e es ih => rw [eachStep_cons, eachStep_cons, h, ih]

/-! ## Causes

Where a fact comes from: a fact that does not hold at first was brought about by an event of
the run, and what that event needed was brought about before it. -/

/-- Some event of the run is as `Q` says, of it and of the events before it. -/
def Caused (Q : List ε → ε → Prop) (es : List ε) : Prop :=
  ∃ pre e, pre ++ [e] <+: es ∧ Q pre e

/-- What an event has brought about stays so when the run goes on, because the event is in the
longer run as well. -/
theorem Caused.extend {Q : List ε → ε → Prop} {es es' : List ε} (h : Caused Q es)
    (hpre : es <+: es') : Caused Q es' := by
  obtain ⟨pre, e, hle, hq⟩ := h
  exact ⟨pre, e, hle.trans hpre, hq⟩

/-- A cause may be described more weakly. -/
theorem Caused.imp {Q Q' : List ε → ε → Prop} {es : List ε} (h : Caused Q es)
    (himp : ∀ pre e, Q pre e → Q' pre e) : Caused Q' es := by
  obtain ⟨pre, e, hle, hq⟩ := h
  exact ⟨pre, e, hle, himp pre e hq⟩

/-- **Causation rule**: what does not hold at first, and is brought about by no step but
those with `Q`, was caused by a `Q` when it holds. -/
theorem caused_of_step {P : σ → Prop} {Q : List ε → ε → Prop} {s : σ} (hfirst : ¬ P s)
    (hstep : ∀ pre e, P (step (runFrom step s pre) e) → P (runFrom step s pre) ∨ Q pre e)
    (es : List ε) (h : P (runFrom step s es)) : Caused Q es := by
  induction es using List.reverseRecOn with
  | nil => exact absurd h hfirst
  | append_singleton es e ih =>
    rw [runFrom_append] at h
    rcases hstep es e h with hold | hq
    · exact (ih hold).extend (List.prefix_append es [e])
    · exact ⟨es, e, List.prefix_rfl, hq⟩

end MyServer
