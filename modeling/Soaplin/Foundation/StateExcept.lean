import Mathlib.Tactic

/-!
# Calls with a state that may stop

A call in `StateT σ (Except ε)` maps a state to a result and a new state, or stops with an error.
The equations compute the primitive calls on a given state and resolve a sequence of two calls by
what the first one does.  `Returns m s q` is total correctness: from `s` the call `m` returns, in a
state that satisfies `q`.
-/

namespace StateExcept

variable {σ ε α β : Type}

/-! ### Computing calls -/

@[simp] lemma get_bind (f : σ → StateT σ (Except ε) β) (s : σ) :
    ((get : StateT σ (Except ε) σ) >>= f) s = f s s := rfl

@[simp] lemma pure_apply (a : α) (s : σ) : (pure a : StateT σ (Except ε) α) s = .ok (a, s) := rfl

@[simp] lemma set_apply (s s' : σ) : (set s' : StateT σ (Except ε) PUnit) s = .ok (.unit, s') := rfl

@[simp] lemma modify_apply (f : σ → σ) (s : σ) :
    (modify f : StateT σ (Except ε) PUnit) s = .ok (.unit, f s) := rfl

@[simp] lemma throw_apply (e : ε) (s : σ) :
    (throw e : StateT σ (Except ε) α) s = .error e := rfl

variable {m : StateT σ (Except ε) α} {f : α → StateT σ (Except ε) β} {s s' : σ} {a : α} {e : ε}

/-- A sequence goes on with the second call when the first one returns. -/
lemma bind_of_ok (h : m s = .ok (a, s')) : (m >>= f) s = f a s' := by
  change (m s >>= fun p => f p.1 p.2) = f a s'
  rw [h]
  rfl

/-- A sequence stops when the first call stops. -/
lemma bind_of_error (h : m s = .error e) : (m >>= f) s = .error e := by
  change (m s >>= fun p => f p.1 p.2) = .error e
  rw [h]
  rfl

/-! ### Total correctness -/

/-- From the state `s` the call `m` returns, in a state that satisfies `q`. -/
def Returns (m : StateT σ (Except ε) α) (s : σ) (q : σ → Prop) : Prop :=
  ∃ a s', m s = .ok (a, s') ∧ q s'

variable {q r : σ → Prop}

/-- A weaker condition on the state reached. -/
lemma Returns.mono (h : Returns m s q) (himp : ∀ t, q t → r t) : Returns m s r := by
  obtain ⟨a, t, hrun, ht⟩ := h
  exact ⟨a, t, hrun, himp t ht⟩

/-- The rule for two calls in a row. -/
lemma Returns.bind (h : Returns m s q) (hnext : ∀ a t, q t → Returns (f a) t r) :
    Returns (m >>= f) s r := by
  obtain ⟨a, t, hrun, ht⟩ := h
  obtain ⟨b, u, hrun', hu⟩ := hnext a t ht
  exact ⟨b, u, by rw [bind_of_ok hrun, hrun'], hu⟩

/-- The state in which a call returns satisfies the condition. -/
lemma Returns.of_eq (h : Returns m s q) (hrun : m s = .ok (a, s')) : q s' := by
  obtain ⟨b, t, hrun', ht⟩ := h
  rw [hrun] at hrun'
  cases hrun'
  exact ht

/-- Two conditions hold of the same state. -/
lemma Returns.and (h : Returns m s q) (h' : Returns m s r) : ∃ t, q t ∧ r t := by
  obtain ⟨a, t, hrun, ht⟩ := h
  exact ⟨t, ht, h'.of_eq hrun⟩

/-- A call that returns in `t` and only there. -/
lemma returns_of_eq {t : σ} (h : m s = .ok (a, t)) (hq : q t) : Returns m s q :=
  ⟨a, t, h, hq⟩

/-- A sequence whose first call stops does not return. -/
lemma not_returns_of_error (h : m s = .error e) : ¬ Returns m s q := by
  rintro ⟨a, t, hrun, -⟩
  rw [h] at hrun
  cases hrun

/-- A sequence does not return when its first call does not. -/
lemma not_returns_bind_left (h : ¬ Returns m s fun _ => True) : ¬ Returns (m >>= f) s q := by
  cases hm : m s with
  | error e => exact not_returns_of_error (bind_of_error hm)
  | ok p => exact absurd (returns_of_eq (a := p.1) (t := p.2) hm trivial) h

/-- A sequence does not return when its second call does not, wherever the first one ends. -/
lemma not_returns_bind (hm : Returns m s r) (h : ∀ a t, r t → ¬ Returns (f a) t q) :
    ¬ Returns (m >>= f) s q := by
  rintro ⟨b, u, hrun, hu⟩
  obtain ⟨a, t, hrun', ht⟩ := hm
  rw [bind_of_ok hrun'] at hrun
  exact h a t ht ⟨b, u, hrun, hu⟩

/-! ### Partial correctness -/

/-- If from the state `s` the call `m` returns, it does so in a state that satisfies `q`, and if it
stops, with an error that satisfies `E`. -/
def Meets (m : StateT σ (Except ε) α) (s : σ) (q : σ → Prop) (E : ε → Prop) : Prop :=
  (∀ a t, m s = .ok (a, t) → q t) ∧ ∀ e, m s = .error e → E e

variable {E : ε → Prop}

/-- A call that returns in `t`. -/
lemma meets_of_ok (h : m s = .ok (a, s')) (hq : q s') : Meets m s q E := by
  refine ⟨fun b t hrun => ?_, fun e hrun => ?_⟩
  · rw [h] at hrun
    cases hrun
    exact hq
  · rw [h] at hrun
    cases hrun

/-- A call that stops. -/
lemma meets_of_error (h : m s = .error e) (hE : E e) : Meets m s q E := by
  refine ⟨fun b t hrun => ?_, fun x hrun => ?_⟩
  · rw [h] at hrun
    cases hrun
  · rw [h] at hrun
    cases hrun
    exact hE

/-- The rule for two calls in a row. -/
lemma Meets.bind (h : Meets m s q E) (hnext : ∀ a t, q t → Meets (f a) t r E) :
    Meets (m >>= f) s r E := by
  cases hm : m s with
  | error e =>
    have hrun := bind_of_error (f := f) hm
    exact meets_of_error hrun (h.2 e hm)
  | ok p =>
    have hrest := hnext p.1 p.2 (h.1 p.1 p.2 hm)
    rw [Meets, bind_of_ok (f := f) hm]
    exact hrest

end StateExcept
