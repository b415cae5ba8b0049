import Mathlib.Tactic

/-!
# Traces of a labelled transition system

A system is a relation `step s e s'` between a state, an event and the next state.
`Trace step s es s'` says that the events `es` lead from `s` to `s'`.  Every prefix of a trace is a
trace, so a statement about the last state of every trace is a statement about every state reached.
The rules are the invariant rule, which a condition on the steps may restrict (`Restrict`), and the
composition of traces.
-/

namespace TransitionTrace

variable {σ ε : Type*}

/-- The events `es` lead from the state `s` to the last state. -/
inductive Trace (step : σ → ε → σ → Prop) (s : σ) : List ε → σ → Prop
  | nil : Trace step s [] s
  | snoc {es : List ε} {e : ε} {s₁ s₂ : σ} :
      Trace step s es s₁ → step s₁ e s₂ → Trace step s (es ++ [e]) s₂

/-- A step restricted to the states and events that satisfy `cond`. -/
def Restrict (cond : σ → ε → Prop) (step : σ → ε → σ → Prop) : σ → ε → σ → Prop :=
  fun s e s' => cond s e ∧ step s e s'

variable {step : σ → ε → σ → Prop} {s s' : σ} {es : List ε}

/-- The invariant rule: what holds at the start and is kept by every step holds in every state
reached. -/
theorem Trace.invariant (htrace : Trace step s es s') (inv : σ → Prop) (hinit : inv s)
    (hstep : ∀ a e b, inv a → step a e b → inv b) : inv s' := by
  induction htrace with
  | nil => exact hinit
  | snoc _ hs ih => exact hstep _ _ _ ih hs

/-- Two traces in a row. -/
lemma Trace.append {es' : List ε} {s'' : σ} (h : Trace step s es s') (h' : Trace step s' es' s'') :
    Trace step s (es ++ es') s'' := by
  induction h' with
  | nil => simpa using h
  | snoc _ hs ih => rw [← List.append_assoc]; exact .snoc ih hs

/-- A single step is a trace. -/
lemma Trace.single {e : ε} (h : step s e s') : Trace step s [e] s' := by
  rw [← List.nil_append [e]]
  exact .snoc .nil h

/-- A step in front of a trace. -/
lemma Trace.cons {e : ε} {s₁ : σ} (h : step s e s₁) (h' : Trace step s₁ es s') :
    Trace step s (e :: es) s' :=
  (Trace.single h).append h'

end TransitionTrace
