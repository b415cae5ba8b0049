import Mathlib.Tactic

/-!
# Scanners of a prefix

A scanner reads a prefix of its input and returns a result and the input that is left, or gives up.
`Reads p lang` says exactly what a scanner reads: `lang a w rest` holds when the word `w` in front of
`rest` is read with the result `a`.  That `rest` matters is what makes a loop greedy.  Scanners in a
row read the words of the two languages in a row (`Reads.bind`), where the second word is a part of
what follows the first.
-/

namespace PrefixScanner

variable {α β γ σ : Type}

/-- A scanner of inputs over `β` with results in `α`. -/
abbrev Scanner (β α : Type) := StateT (List β) Option α

/-- The scanner reads the words of the language, each in front of what it may be in front of. -/
def Reads (p : Scanner β α) (lang : α → List β → List β → Prop) : Prop :=
  ∀ input a rest, p input = some (a, rest) ↔ ∃ w, lang a w rest ∧ input = w ++ rest

variable {p : Scanner β α} {f : α → Scanner β γ} {lang lang' : α → List β → List β → Prop}
  {langF : α → γ → List β → List β → Prop} {a : α} {input w rest : List β}

/-- A scanner reads each word of its language. -/
lemma Reads.complete (hp : Reads p lang) (hw : lang a w rest) : p (w ++ rest) = some (a, rest) :=
  (hp _ _ _).mpr ⟨w, hw, rfl⟩

/-- What a scanner has read is a word. -/
lemma Reads.sound (hp : Reads p lang) (h : p input = some (a, rest)) :
    ∃ w, lang a w rest ∧ input = w ++ rest :=
  (hp _ _ _).mp h

/-- The language may be described in another way. -/
lemma Reads.congr (hp : Reads p lang) (h : ∀ a w rest, lang a w rest ↔ lang' a w rest) :
    Reads p lang' := by
  intro input a rest
  rw [hp input a rest]
  exact exists_congr fun w => and_congr_left fun _ => h a w rest

/-- The scanner that reads nothing. -/
lemma reads_pure (a : α) : Reads (pure a : Scanner β α) fun b w _ => b = a ∧ w = [] := by
  intro input b rest
  constructor
  · intro h
    cases h
    exact ⟨[], ⟨rfl, rfl⟩, rfl⟩
  · rintro ⟨w, ⟨rfl, rfl⟩, rfl⟩
    rfl

/-- The value of two scanners in a row. -/
lemma bind_apply (p : Scanner β α) (f : α → Scanner β γ) (input : List β) :
    (p >>= f) input = (p input).bind fun r => f r.1 r.2 := rfl

/-- Two scanners in a row. -/
lemma Reads.bind (hp : Reads p lang) (hf : ∀ a, Reads (f a) (langF a)) :
    Reads (p >>= f) fun c w rest =>
      ∃ a u v, lang a u (v ++ rest) ∧ langF a c v rest ∧ w = u ++ v := by
  intro input c rest
  rw [bind_apply]
  constructor
  · intro h
    obtain ⟨⟨a, mid⟩, hread, hnext⟩ := Option.bind_eq_some_iff.mp h
    obtain ⟨v, hv, rfl⟩ := (hf a).sound hnext
    obtain ⟨u, hu, rfl⟩ := hp.sound hread
    exact ⟨u ++ v, ⟨a, u, v, hu, hv, rfl⟩, (List.append_assoc _ _ _).symm⟩
  · rintro ⟨w, ⟨a, u, v, hu, hv, rfl⟩, rfl⟩
    rw [List.append_assoc, hp.complete hu]
    exact (hf a).complete hv

/-! ### One symbol -/

/-- Reads one symbol, which decides the result. -/
def symbol (f : β → Option α) : Scanner β α
  | [] => none
  | b :: rest => (f b).map (·, rest)

/-- A scanner of one symbol. -/
lemma reads_symbol (f : β → Option α) :
    Reads (symbol f) fun a w _ => ∃ b, w = [b] ∧ f b = some a := by
  intro input a rest
  constructor
  · intro h
    cases input with
    | nil => cases h
    | cons b input =>
      obtain ⟨a', ha, heq⟩ := Option.map_eq_some_iff.mp h
      cases heq
      exact ⟨[b], ⟨b, rfl, ha⟩, rfl⟩
  · rintro ⟨w, ⟨b, rfl, hb⟩, rfl⟩
    exact Option.map_eq_some_iff.mpr ⟨a, hb, rfl⟩

/-! ### Greedy loops -/

/-- Reads symbols as long as the state accepts the next one; gives up at the end of the input. -/
def scanWhile (accept : σ → β → Option σ) : σ → Scanner β σ
  | _, [] => none
  | s, b :: rest =>
    match accept s b with
    | some s' => scanWhile accept s' rest
    | none => some (s, b :: rest)

/-- The input goes on with a symbol of the set. -/
def Starts (S : β → Prop) (rest : List β) : Prop := ∃ b tail, rest = b :: tail ∧ S b

lemma Starts.cons {S : β → Prop} {b : β} (hb : S b) (tail : List β) : Starts S (b :: tail) :=
  ⟨b, tail, rfl, hb⟩

lemma Starts.mono {S T : β → Prop} (h : Starts S rest) (himp : ∀ b, S b → T b) : Starts T rest := by
  obtain ⟨b, tail, rfl, hb⟩ := h
  exact ⟨b, tail, rfl, himp b hb⟩

lemma starts_cons {S : β → Prop} {b : β} {tail : List β} : Starts S (b :: tail) ↔ S b := by
  constructor
  · rintro ⟨c, tail', heq, hc⟩
    cases heq
    exact hc
  · exact fun hb => .cons hb tail

/-- A loop over the symbols of a set reads the words over the set, up to a symbol that is not in the
set. -/
lemma reads_scanWhile {accept : σ → β → Option σ} {S : β → Prop} {g : σ → β → σ}
    (haccept : ∀ s b, S b → accept s b = some (g s b)) (hreject : ∀ s b, ¬ S b → accept s b = none)
    (s : σ) : Reads (scanWhile accept s) fun t w rest =>
      (∀ b ∈ w, S b) ∧ t = w.foldl g s ∧ Starts (¬ S ·) rest := by
  intro input t rest
  constructor
  · intro h
    induction input generalizing s with
    | nil => cases h
    | cons b input ih =>
      by_cases hb : S b
      · rw [scanWhile, haccept s b hb] at h
        obtain ⟨w, ⟨hw, ht, hrest⟩, rfl⟩ := ih (g s b) h
        refine ⟨b :: w, ⟨?_, ht, hrest⟩, rfl⟩
        intro c hc
        rcases List.mem_cons.mp hc with rfl | hc
        · exact hb
        · exact hw c hc
      · rw [scanWhile, hreject s b hb] at h
        cases h
        exact ⟨[], ⟨by simp, rfl, ⟨b, input, rfl, hb⟩⟩, rfl⟩
  · rintro ⟨w, ⟨hw, rfl, ⟨b, tail, rfl, hb⟩⟩, rfl⟩
    induction w generalizing s with
    | nil =>
      change scanWhile accept s (b :: tail) = _
      rw [scanWhile, hreject s b hb]
      rfl
    | cons c w ih =>
      change scanWhile accept s (c :: (w ++ b :: tail)) = _
      rw [scanWhile, haccept s c (hw c List.mem_cons_self)]
      exact ih (g s c) fun d hd => hw d (List.mem_cons_of_mem c hd)

end PrefixScanner
