import Mathlib.Logic.Relation

/-!
# Runs of a deterministic step function

A component is given by a state type, an event type and a step function; every choice the
environment makes is part of the event. A run is a list of events folded from a start state.
`Along` states that a predicate on a state and the next event holds at every step of a run. The
rules below turn a lemma about one step into a statement about every run: `inv_run` carries an
invariant under a condition on the steps, `along_mono` derives one step predicate from another, and
`along_iff` shows two step predicates equivalent along runs when they agree at every state that
satisfies the invariant.
-/

namespace Throne.Lib.Runs

universe u v

variable {σ : Type u} {ε : Type v}

section

variable (step : σ → ε → σ)

/-- The state after the events `es`. -/
def run (s : σ) (es : List ε) : σ := es.foldl step s

@[simp] theorem run_nil (s : σ) : run step s [] = s := rfl

@[simp] theorem run_cons (s : σ) (e : ε) (es : List ε) :
    run step s (e :: es) = run step (step s e) es := rfl

theorem run_append (s : σ) (es fs : List ε) : run step s (es ++ fs) = run step (run step s es) fs := List.foldl_append

end

/-- `P` holds at every step of the run of `es` from `s`: of the state before the step and of the
event taken there. -/
def Along (step : σ → ε → σ) (P : σ → ε → Prop) : σ → List ε → Prop
  | _, [] => True
  | s, e :: es => P s e ∧ Along step P (step s e) es

instance Along.decide (step : σ → ε → σ) (P : σ → ε → Prop) [∀ s e, Decidable (P s e)] : ∀ (s : σ) (es : List ε), Decidable (Along step P s es)
  | _, [] => isTrue trivial
  | s, e :: es =>
    haveI := Along.decide step P (step s e) es
    inferInstanceAs (Decidable (P s e ∧ Along step P (step s e) es))

section Rules

variable {step : σ → ε → σ} {P Q : σ → ε → Prop} {Inv : σ → Prop}

@[simp] theorem along_nil (s : σ) : Along step P s [] := trivial

@[simp] theorem along_cons (s : σ) (e : ε) (es : List ε) :
    Along step P s (e :: es) ↔ P s e ∧ Along step P (step s e) es := Iff.rfl

theorem along_append (s : σ) (es fs : List ε) : Along step P s (es ++ fs) ↔ Along step P s es ∧ Along step P (run step s es) fs := by
  induction es generalizing s with
  | nil => simp
  | cons e es ih => simp [ih, and_assoc]

theorem along_and (s : σ) (es : List ε) : Along step (fun s e => P s e ∧ Q s e) s es ↔ Along step P s es ∧ Along step Q s es := by
  induction es generalizing s with
  | nil => simp
  | cons e es ih =>
    rw [along_cons, along_cons, along_cons, ih]
    exact and_and_and_comm

/-- A condition on the events alone. -/
theorem along_of_forall {C : ε → Prop} (es : List ε) (s : σ) (h : ∀ e ∈ es, C e) : Along step (fun _ e => C e) s es := by
  induction es generalizing s with
  | nil => exact trivial
  | cons e es ih =>
    exact ⟨h e List.mem_cons_self, ih (step s e) fun e' he' => h e' (List.mem_cons_of_mem e he')⟩

/-- An invariant kept by the steps that meet `P` holds after every run whose steps meet `P`. -/
theorem inv_run (hstep : ∀ s e, Inv s → P s e → Inv (step s e)) : ∀ (es : List ε) (s : σ), Inv s → Along step P s es → Inv (run step s es) := by
  intro es
  induction es with
  | nil => exact fun _ hs _ => hs
  | cons e es ih =>
    intro s hs h
    exact ih _ (hstep s e hs h.1) h.2

/-- An invariant kept by every step holds after every run. -/
theorem inv_run_all (hstep : ∀ s e, Inv s → Inv (step s e)) : ∀ (es : List ε) (s : σ), Inv s → Inv (run step s es) := by
  intro es
  induction es with
  | nil => exact fun _ hs => hs
  | cons e es ih =>
    intro s hs
    exact ih _ (hstep s e hs)

/-- A step predicate that follows from `P` at every state of an invariant follows from `P` along
every run. -/
theorem along_mono (hstep : ∀ s e, Inv s → P s e → Inv (step s e)) (hPQ : ∀ s e, Inv s → P s e → Q s e) :
    ∀ (es : List ε) (s : σ), Inv s → Along step P s es → Along step Q s es := by
  intro es
  induction es with
  | nil => exact fun _ _ _ => trivial
  | cons e es ih =>
    intro s hs h
    exact ⟨hPQ s e hs h.1, ih _ (hstep s e hs h.1) h.2⟩

/-- Two step predicates that agree at every state of an invariant agree along every run. The
invariant has to survive only the steps that meet them. -/
theorem along_iff (hstep : ∀ s e, Inv s → P s e → Inv (step s e)) (hPQ : ∀ s e, Inv s → (P s e ↔ Q s e)) :
    ∀ (es : List ε) (s : σ), Inv s → (Along step P s es ↔ Along step Q s es) := by
  intro es
  induction es with
  | nil => exact fun _ _ => Iff.rfl
  | cons e es ih =>
    intro s hs
    constructor
    · rintro ⟨h, hes⟩
      exact ⟨(hPQ s e hs).1 h, (ih _ (hstep s e hs h)).1 hes⟩
    · rintro ⟨h, hes⟩
      have hP := (hPQ s e hs).2 h
      exact ⟨hP, (ih _ (hstep s e hs hP)).2 hes⟩

end Rules

end Throne.Lib.Runs
