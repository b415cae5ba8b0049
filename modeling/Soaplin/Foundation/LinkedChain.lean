import Mathlib.Tactic

/-!
# Singly linked lists through a successor function

A successor function `next` on addresses, with `0` as the null address, threads lists through a
memory.  `Path next p l q` says that following `next` from `p` visits exactly the addresses of `l`
and arrives at `q`; `Chain next p l` is a path that ends at null, that is, the list whose head
pointer is `p`.  Since `next` is a function, a chain has no repeated address (`Chain.nodup`) and is
determined by its head (`Chain.unique`).  The last part describes what an assignment to one link
does to a chain.
-/

namespace LinkedChain

variable {α : Type*} [Zero α]

/-- Following `next` from `p` visits the nodes of `l` and arrives at `q`. -/
def Path (next : α → α) : α → List α → α → Prop
  | p, [], q => p = q
  | p, a :: l, q => p = a ∧ a ≠ 0 ∧ Path next (next a) l q

/-- The null-terminated list with head pointer `p`. -/
def Chain (next : α → α) (p : α) (l : List α) : Prop := Path next p l 0

variable {next next' : α → α} {p q a : α} {l l₁ l₂ : List α}

@[simp] lemma path_nil : Path next p [] q ↔ p = q := Iff.rfl

@[simp] lemma path_cons : Path next p (a :: l) q ↔ p = a ∧ a ≠ 0 ∧ Path next (next a) l q := Iff.rfl

@[simp] lemma chain_nil : Chain next p [] ↔ p = 0 := Iff.rfl

@[simp] lemma chain_cons : Chain next p (a :: l) ↔ p = a ∧ a ≠ 0 ∧ Chain next (next a) l := Iff.rfl

/-- A path along a concatenation passes through a middle node. -/
lemma path_append : Path next p (l₁ ++ l₂) q ↔ ∃ m, Path next p l₁ m ∧ Path next m l₂ q := by
  induction l₁ generalizing p with
  | nil => simp
  | cons b l₁ ih => simp [ih, and_assoc]

/-- A chain splits at any of its nodes. -/
lemma chain_split : Chain next p (l₁ ++ a :: l₂) ↔
    Path next p l₁ a ∧ a ≠ 0 ∧ Chain next (next a) l₂ := by
  constructor
  · intro h
    obtain ⟨m, h₁, rfl, h₂, h₃⟩ := path_append.mp h
    exact ⟨h₁, h₂, h₃⟩
  · rintro ⟨h₁, h₂, h₃⟩
    exact path_append.mpr ⟨a, h₁, rfl, h₂, h₃⟩

/-- The nodes of a path are not null. -/
lemma Path.ne_zero (h : Path next p l q) (ha : a ∈ l) : a ≠ 0 := by
  induction l generalizing p with
  | nil => cases ha
  | cons b l ih =>
    obtain ⟨rfl, hb, hl⟩ := h
    rcases List.mem_cons.mp ha with rfl | ha
    · exact hb
    · exact ih hl ha

/-- The head pointer of a nonempty chain is its first node. -/
lemma Chain.mem_of_ne_zero (h : Chain next p l) (hp : p ≠ 0) : p ∈ l := by
  cases l with
  | nil => exact absurd h hp
  | cons b l => rw [h.1]; exact List.mem_cons_self

/-- A path only depends on the links of its nodes. -/
lemma Path.congr (h : Path next p l q) (hnext : ∀ b ∈ l, next' b = next b) :
    Path next' p l q := by
  induction l generalizing p with
  | nil => exact h
  | cons b l ih =>
    obtain ⟨rfl, hb, hl⟩ := h
    refine ⟨rfl, hb, ?_⟩
    rw [hnext p List.mem_cons_self]
    exact ih hl fun c hc => hnext c (List.mem_cons_of_mem _ hc)

/-- A chain only depends on the links of its nodes. -/
lemma Chain.congr (h : Chain next p l) (hnext : ∀ b ∈ l, next' b = next b) : Chain next' p l :=
  Path.congr h hnext

/-- A chain is determined by its head pointer. -/
theorem Chain.unique (h₁ : Chain next p l₁) (h₂ : Chain next p l₂) : l₁ = l₂ := by
  induction l₁ generalizing p l₂ with
  | nil =>
    cases l₂ with
    | nil => rfl
    | cons b l₂ => exact absurd (h₂.1.symm.trans h₁) h₂.2.1
  | cons a l₁ ih =>
    cases l₂ with
    | nil => exact absurd (h₁.1.symm.trans h₂) h₁.2.1
    | cons b l₂ =>
      obtain ⟨rfl, -, ht₁⟩ := h₁
      obtain ⟨rfl, -, ht₂⟩ := h₂
      rw [ih ht₁ ht₂]

/-- A null-terminated list visits no node twice. -/
theorem Chain.nodup (h : Chain next p l) : l.Nodup := by
  induction l generalizing p with
  | nil => exact List.nodup_nil
  | cons a l ih =>
    obtain ⟨rfl, hp, hl⟩ := h
    refine List.nodup_cons.mpr ⟨fun hmem => ?_, ih hl⟩
    obtain ⟨l₁, l₂, rfl⟩ := List.append_of_mem hmem
    -- the suffix that starts at the second visit would be the whole list
    have hsuffix : Chain next p (p :: l₂) := ⟨rfl, hp, (chain_split.mp hl).2.2⟩
    have hwhole : Chain next p (p :: (l₁ ++ p :: l₂)) := ⟨rfl, hp, hl⟩
    have hlen := congrArg List.length (hsuffix.unique hwhole)
    simp at hlen
    omega

/-- A path from the head of a chain does not come back to it. -/
lemma Chain.eq_nil_of_cycle (h : Chain next p l) (hpath : Path next p l₁ p) : l₁ = [] := by
  have hlonger : Chain next p (l₁ ++ l) := path_append.mpr ⟨p, hpath, h⟩
  have hlen := congrArg List.length (hlonger.unique h)
  rw [List.length_append] at hlen
  exact List.eq_nil_of_length_eq_zero (by omega)

/-- What a path from the head of a chain arrives at is a node of the chain, or null. -/
lemma Chain.mem_of_path (h : Chain next p l) (hpath : Path next p l₁ q) (hq : q ≠ 0) : q ∈ l := by
  induction l₁ generalizing p l with
  | nil =>
    obtain rfl : p = q := hpath
    exact h.mem_of_ne_zero hq
  | cons b l₁ ih =>
    obtain ⟨rfl, hp, hrest⟩ := hpath
    cases l with
    | nil => exact absurd h hp
    | cons c l =>
      obtain ⟨rfl, -, htail⟩ := h
      exact List.mem_cons_of_mem _ (ih htail hrest)

/-- A set that contains the head of a path and is closed under links contains every node of it. -/
lemma Path.subset {s : List α} (h : Path next p l q) (hp : p = 0 ∨ p ∈ s)
    (hclosed : ∀ b ∈ s, next b = 0 ∨ next b ∈ s) : l ⊆ s := by
  induction l generalizing p with
  | nil => exact List.nil_subset s
  | cons b l ih =>
    obtain ⟨rfl, hb, hl⟩ := h
    have hps := hp.resolve_left hb
    exact List.cons_subset.mpr ⟨hps, ih hl (hclosed p hps)⟩

/-! ### Assigning one link -/

variable [DecidableEq α]

/-- Assigning the link of a node outside a path does not change the path. -/
lemma Path.update {b : α} (h : Path next p l q) (ha : a ∉ l) :
    Path (Function.update next a b) p l q :=
  h.congr fun c hc => Function.update_of_ne (by rintro rfl; exact ha hc) _ _

/-- Assigning the link of a node outside a chain does not change the chain. -/
lemma Chain.update {b : α} (h : Chain next p l) (ha : a ∉ l) :
    Chain (Function.update next a b) p l :=
  Path.update h ha

/-- Redirecting the link of a chain's node `a` keeps the nodes up to `a` and replaces the rest by
the chain of the new target. -/
theorem Chain.redirect {b : α} (h : Chain next p (l₁ ++ a :: l₂))
    (hb : Chain (Function.update next a b) b l) :
    Chain (Function.update next a b) p (l₁ ++ a :: l) := by
  have hnodup := h.nodup
  obtain ⟨h₁, ha, -⟩ := chain_split.mp h
  refine chain_split.mpr ⟨h₁.update ?_, ha, ?_⟩
  · exact fun hmem => (List.disjoint_of_nodup_append hnodup) hmem List.mem_cons_self
  · rwa [Function.update_self]

end LinkedChain
