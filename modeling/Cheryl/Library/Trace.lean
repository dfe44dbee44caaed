/-!
# Labelled traces

A system is a step relation `step : σ → ι → σ → Prop` between states, labelled by inputs. A
`Trace` is a finite run, with its labels in order. The induction over a run is done once, here:
`Trace.invariant` for a property of the state, `Trace.history` for a property that also looks at
the labels seen so far.
-/

namespace Cheryl.Library

variable {σ ι : Type}

/-- `Trace step s es t`: from `s`, the inputs `es` lead to `t`. -/
inductive Trace (step : σ → ι → σ → Prop) (s : σ) : List ι → σ → Prop
  | nil : Trace step s [] s
  | snoc {es : List ι} {t u : σ} {e : ι} :
      Trace step s es t → step t e u → Trace step s (es ++ [e]) u

namespace Trace

variable {step step' : σ → ι → σ → Prop} {s t u : σ} {es fs : List ι}

/-! ## Induction over a run

The labels are kept in order, so that a claim can look back at what has happened; the last step is taken off
in the induction. For most claims the state is enough. -/

/-- What holds initially and is kept by every step holds after every run. -/
theorem invariant {I : σ → Prop} (h : Trace step s es t) (init : I s)
    (keep : ∀ {t e u}, I t → step t e u → I u) : I t := by
  induction h with
  | nil => exact init
  | snoc _ hstep ih => exact keep ih hstep

/-- The same, for a property of the state and of the inputs that led to it. -/
theorem history {I : List ι → σ → Prop} (h : Trace step s es t) (init : I [] s)
    (keep : ∀ {es t e u}, I es t → step t e u → I (es ++ [e]) u) : I es t := by
  induction h with
  | nil => exact init
  | snoc _ hstep ih => exact keep ih hstep

/-! ## Other step relations

A run under conditions is a run without them, and a condition that follows from an invariant need not be
asked of the steps. -/

/-- A run of a stronger step relation is a run of the weaker one. -/
theorem mono (h : Trace step s es t) (sub : ∀ {t e u}, step t e u → step' t e u) :
    Trace step' s es t := by
  induction h with
  | nil => exact .nil
  | snoc _ hstep ih => exact .snoc ih (sub hstep)

/-- The same, where the weaker step also relies on an invariant. -/
theorem mono_of_invariant {I : σ → Prop} (h : Trace step s es t) (init : I s)
    (keep : ∀ {t e u}, I t → step t e u → I u)
    (sub : ∀ {t e u}, I t → step t e u → step' t e u) : Trace step' s es t := by
  induction h with
  | nil => exact .nil
  | snoc hrun hstep ih => exact .snoc ih (sub (hrun.invariant init keep) hstep)

theorem append (h : Trace step s es t) (h' : Trace step t fs u) : Trace step s (es ++ fs) u := by
  induction h' with
  | nil => simpa using h
  | snoc _ hstep ih => rw [← List.append_assoc]; exact .snoc ih hstep

end Trace

end Cheryl.Library
