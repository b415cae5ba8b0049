import Mathlib.Tactic

/-!
# Forests of radix tables

A table has an entry for every index; an entry of an inner table is empty or refers to a child
table, and the tables at depth `depth` hold the values.  `m : α → ι → β` gives the entries of every
table.  Several trees may share subtrees: a labelling names for every table in use one tree that
owns it and its path in that tree, and `heir o p i o'` says that an entry `i` of a table at path `p`
of the tree `o` may refer to a table of the tree `o'`.

A lookup only descends to labelled tables (`Labelled.follow_label`).  The two changes are the
linking of an empty fresh table below an absent entry (`Link`) and a store into a table of the last
level (`LeafStore`).  `Ensure` is a descent that links what is missing; its effect on every lookup,
its frame and its monotonicity are the theorems of the last section but one.
-/

namespace RadixForest

variable {α β ι ο : Type*}

/-- How the entries of inner tables refer to child tables. -/
structure Encoding (α β : Type*) where
  /-- The empty entry. -/
  zero : β
  /-- The entry that refers to a table. -/
  link : α → β
  /-- The table an entry refers to. -/
  child : β → Option α
  /-- The empty entry refers to no table. -/
  child_zero : child zero = none

variable (enc : Encoding α β)

/-- The table reached from the table `a` along the indices `p`. -/
def follow (m : α → ι → β) : α → List ι → Option α
  | a, [] => some a
  | a, i :: p => (enc.child (m a i)).bind fun c => follow m c p

/-- The value found at index `i` of the table reached along `p`. -/
def lookup (m : α → ι → β) (a : α) (p : List ι) (i : ι) : Option β :=
  (follow enc m a p).map fun t => m t i

variable {enc} {m m' : α → ι → β} {a b c t : α} {o o' : ο} {p q r : List ι} {i j : ι} {v : β}
  {depth : ℕ}

@[simp] lemma follow_nil : follow enc m a [] = some a := rfl

/-- A descent through a present entry. -/
lemma follow_cons_of_child (h : enc.child (m a i) = some c) :
    follow enc m a (i :: p) = follow enc m c p := by
  simp [follow, h]

/-- A descent ends at an absent entry. -/
lemma follow_cons_of_absent (h : enc.child (m a i) = none) : follow enc m a (i :: p) = none := by
  simp [follow, h]

/-- A lookup through a present entry. -/
lemma lookup_cons_of_child (h : enc.child (m a i) = some c) :
    lookup enc m a (i :: p) j = lookup enc m c p j := by
  rw [lookup, lookup, follow_cons_of_child h]

/-- A lookup ends at an absent entry. -/
lemma lookup_cons_of_absent (h : enc.child (m a i) = none) :
    lookup enc m a (i :: p) j = none := by
  rw [lookup, follow_cons_of_absent h, Option.map_none]

/-- A lookup finds the entry of the table it reaches. -/
lemma lookup_of_follow (h : follow enc m a p = some t) : lookup enc m a p i = some (m t i) := by
  rw [lookup, h, Option.map_some]

/-! ### Labellings -/

/-- The owner and the path of every table in use. -/
abbrev Labels (α ο ι : Type*) := α → Option (ο × List ι)

/-- The entries of labelled inner tables are empty or refer to labelled tables, one index further
down and owned by an heir. -/
def Labelled (enc : Encoding α β) (heir : ο → List ι → ι → ο → Prop) (depth : ℕ) (m : α → ι → β)
    (lab : Labels α ο ι) : Prop :=
  ∀ a o p, lab a = some (o, p) → p.length < depth → ∀ i,
    m a i = enc.zero ∨ ∃ c o', m a i = enc.link c ∧ enc.child (enc.link c) = some c ∧
      lab c = some (o', p ++ [i]) ∧ heir o p i o'

variable {heir : ο → List ι → ι → ο → Prop} {lab lab' : Labels α ο ι}

namespace Labelled

/-- An entry of a labelled inner table that refers to a table is the link to it, and the table is
labelled. -/
lemma of_child (h : Labelled enc heir depth m lab) (ha : lab a = some (o, p))
    (hp : p.length < depth) (hi : enc.child (m a i) = some c) :
    m a i = enc.link c ∧ ∃ o', lab c = some (o', p ++ [i]) ∧ heir o p i o' := by
  rcases h a o p ha hp i with hz | ⟨d, o', hm, hd, hlab, hheir⟩
  · rw [hz, enc.child_zero] at hi
    cases hi
  · rw [hm, hd] at hi
    cases hi
    exact ⟨hm, o', hlab, hheir⟩

/-- A table reached from a labelled table is labelled with the path to it, and has every property of
owners and paths that the start has and that heirs inherit. -/
lemma follow_label (h : Labelled enc heir depth m lab) {Q : ο → List ι → Prop}
    (hQ : ∀ o p i o', Q o p → heir o p i o' → Q o' (p ++ [i])) (ha : lab a = some (o, p))
    (hstart : Q o p) (hlen : p.length + q.length ≤ depth) (ht : follow enc m a q = some t) :
    ∃ o', lab t = some (o', p ++ q) ∧ Q o' (p ++ q) := by
  induction q generalizing a o p with
  | nil =>
    cases ht
    exact ⟨o, by rwa [List.append_nil], by rwa [List.append_nil]⟩
  | cons i q ih =>
    rw [List.length_cons] at hlen
    obtain ⟨c, hc, hct⟩ := Option.bind_eq_some_iff.mp ht
    obtain ⟨-, o₁, hlab, hheir⟩ := h.of_child ha (by omega) hc
    have hstep := ih hlab (hQ o p i o₁ hstart hheir)
      (by rw [List.length_append, List.length_singleton]; omega) hct
    rwa [List.append_assoc, List.singleton_append] at hstep

/-- Two forests that agree on the inner tables a descent visits lead to the same table. -/
lemma follow_congr (h : Labelled enc heir depth m lab) {Q : ο → List ι → Prop}
    (hQ : ∀ o p i o', Q o p → heir o p i o' → Q o' (p ++ [i]))
    (hagree : ∀ b o p i, lab b = some (o, p) → Q o p → p.length < depth → m' b i = m b i)
    (ha : lab a = some (o, p)) (hstart : Q o p) (hlen : p.length + q.length ≤ depth) :
    follow enc m' a q = follow enc m a q := by
  induction q generalizing a o p with
  | nil => rfl
  | cons i q ih =>
    rw [List.length_cons] at hlen
    have heq := hagree a o p i ha hstart (by omega)
    cases hc : enc.child (m a i) with
    | none => rw [follow_cons_of_absent hc, follow_cons_of_absent (by rw [heq, hc])]
    | some c =>
      obtain ⟨-, o₁, hlab, hheir⟩ := h.of_child ha (by omega) hc
      rw [follow_cons_of_child hc, follow_cons_of_child (by rw [heq, hc])]
      exact ih hlab (hQ o p i o₁ hstart hheir)
        (by rw [List.length_append, List.length_singleton]; omega)

/-- Two forests that agree on all tables a lookup visits give the same value. -/
theorem lookup_congr (h : Labelled enc heir depth m lab) {Q : ο → List ι → Prop}
    (hQ : ∀ o p i o', Q o p → heir o p i o' → Q o' (p ++ [i]))
    (hagree : ∀ b o p i, lab b = some (o, p) → Q o p → m' b i = m b i)
    (ha : lab a = some (o, p)) (hstart : Q o p) (hlen : p.length + q.length ≤ depth) :
    lookup enc m' a q j = lookup enc m a q j := by
  rw [lookup, lookup, h.follow_congr hQ (fun b o p i hb hQb _ => hagree b o p i hb hQb) ha hstart
    hlen]
  refine Option.map_congr fun t ht => ?_
  obtain ⟨o', hlab, hQt⟩ := h.follow_label hQ ha hstart hlen ht
  exact hagree t o' _ j hlab hQt

end Labelled

/-! ### Linking a fresh table -/

/-- `m'` is `m` with the fresh empty table `c` linked below the absent entry `i` of the table
`a`. -/
structure Link (enc : Encoding α β) (lab : Labels α ο ι) (m m' : α → ι → β) (a : α) (i : ι)
    (c : α) : Prop where
  /-- The entry refers to no table. -/
  absent : enc.child (m a i) = none
  /-- The new table is not in use. -/
  fresh : lab c = none
  /-- The link to the new table can be followed. -/
  child_link : enc.child (enc.link c) = some c
  /-- The entry becomes a link. -/
  linked : m' a i = enc.link c
  /-- The new table is empty. -/
  cleared : ∀ j, m' c j = enc.zero
  /-- No other entry of a table in use changes. -/
  frame : ∀ b j, lab b ≠ none → b ≠ a ∨ j ≠ i → m' b j = m b j

namespace Link

variable [DecidableEq α]

/-- A table in use stays labelled as it is. -/
lemma label_of_ne (h : Link enc lab m m' a i c) {x : Option (ο × List ι)} {y : ο × List ι}
    (hb : lab b = some y) : Function.update lab c x b = some y := by
  have hbc : b ≠ c := by
    rintro rfl
    rw [h.fresh] at hb
    cases hb
  rw [Function.update_of_ne hbc, hb]

/-- Linking a fresh table keeps the labelling. -/
lemma labelled (h : Link enc lab m m' a i c) (hlab : Labelled enc heir depth m lab)
    (ha : lab a = some (o, p)) (hheir : heir o p i o) :
    Labelled enc heir depth m' (Function.update lab c (some (o, p ++ [i]))) := by
  intro b o₁ q hb hq j
  by_cases hbc : b = c
  · subst hbc
    exact .inl (h.cleared j)
  · rw [Function.update_of_ne hbc] at hb
    by_cases hbi : b = a ∧ j = i
    · obtain ⟨rfl, rfl⟩ := hbi
      rw [ha] at hb
      cases hb
      exact .inr ⟨c, o, h.linked, h.child_link, Function.update_self _ _ _, hheir⟩
    · rw [h.frame b j (by rw [hb]; exact Option.some_ne_none _) (by tauto)]
      refine (hlab b o₁ q hb hq j).imp id ?_
      rintro ⟨d, o', hm, hd, hdlab, hdheir⟩
      exact ⟨d, o', hm, hd, h.label_of_ne hdlab, hdheir⟩

omit [DecidableEq α] in
/-- A present entry of an inner table in use stays as it is. -/
lemma entry_eq (h : Link enc lab m m' a i c) (hb : lab b ≠ none) {d : α}
    (hd : enc.child (m b j) = some d) : m' b j = m b j := by
  by_cases hbi : b = a ∧ j = i
  · obtain ⟨rfl, rfl⟩ := hbi
    rw [h.absent] at hd
    cases hd
  · exact h.frame b j hb (by tauto)

omit [DecidableEq α] in
/-- A lookup finds the same after the linking, unless it found nothing and now ends in the new
table. -/
lemma lookup_eq (h : Link enc lab m m' a i c) (hlab : Labelled enc heir depth m lab)
    (ha : lab a = some (o', p)) (hp : p.length < depth) (hb : lab b = some (o, r))
    (hlen : r.length + q.length = depth) :
    lookup enc m' b q j = lookup enc m b q j ∨
      (lookup enc m b q j = none ∧ lookup enc m' b q j = some enc.zero) := by
  induction q generalizing b o r with
  | nil =>
    -- the last table is not the one that gets the link, which is an inner one
    refine .inl ?_
    have hne : b ≠ a := by
      rintro rfl
      rw [ha] at hb
      cases hb
      simp only [List.length_nil] at hlen
      omega
    rw [lookup_of_follow follow_nil, lookup_of_follow follow_nil,
      h.frame b j (by rw [hb]; exact Option.some_ne_none _) (.inl hne)]
  | cons k q ih =>
    rw [List.length_cons] at hlen
    have hin : lab b ≠ none := by rw [hb]; exact Option.some_ne_none _
    cases hc : enc.child (m b k) with
    | some d =>
      obtain ⟨-, o₁, hd, -⟩ := hlab.of_child hb (by omega) hc
      rw [lookup_cons_of_child hc, lookup_cons_of_child (by rw [h.entry_eq hin hc, hc])]
      exact ih hd (by rw [List.length_append, List.length_singleton]; omega)
    | none =>
      rw [lookup_cons_of_absent hc]
      by_cases hbi : b = a ∧ k = i
      · obtain ⟨rfl, rfl⟩ := hbi
        rw [lookup_cons_of_child (by rw [h.linked, h.child_link])]
        cases q with
        | nil => exact .inr ⟨rfl, by rw [lookup_of_follow follow_nil, h.cleared]⟩
        | cons l q =>
          exact .inl (lookup_cons_of_absent (by rw [h.cleared, enc.child_zero]))
      · exact .inl (lookup_cons_of_absent (by rw [h.frame b k hin (by tauto), hc]))

end Link

/-! ### Descending with links -/

/-- A descent from the table `a` along a path that links a fresh table below every absent entry;
it ends at the table `t`, with the labels `lab'` and the entries `m'`. -/
inductive Ensure [DecidableEq α] (enc : Encoding α β) :
    Labels α ο ι → (α → ι → β) → α → List ι → Labels α ο ι → (α → ι → β) → α → Prop
  | nil {lab : Labels α ο ι} {m : α → ι → β} {a : α} : Ensure enc lab m a [] lab m a
  | present {lab lab' : Labels α ο ι} {m m' : α → ι → β} {a c t : α} {i : ι} {p : List ι}
      (hchild : enc.child (m a i) = some c) (hrest : Ensure enc lab m c p lab' m' t) :
      Ensure enc lab m a (i :: p) lab' m' t
  | link {lab lab' : Labels α ο ι} {m m₁ m' : α → ι → β} {a c t : α} {i : ι} {p : List ι}
      {o : ο} {q : List ι} (hlab : lab a = some (o, q)) (hlink : Link enc lab m m₁ a i c)
      (hrest : Ensure enc (Function.update lab c (some (o, q ++ [i]))) m₁ c p lab' m' t) :
      Ensure enc lab m a (i :: p) lab' m' t

namespace Ensure

variable [DecidableEq α]

/-- A descent keeps the labels of the tables in use. -/
lemma label_of_label (h : Ensure enc lab m a p lab' m' t) {x : ο × List ι}
    (hb : lab b = some x) : lab' b = some x := by
  induction h with
  | nil => exact hb
  | present _ _ ih => exact ih hb
  | link _ hlink _ ih => exact ih (hlink.label_of_ne hb)

/-- A descent that starts at a labelled table keeps the labelling. -/
lemma labelled (h : Ensure enc lab m a p lab' m' t) (hlab : Labelled enc heir depth m lab)
    (hheir : ∀ o p i, heir o p i o) (ha : lab a = some (o, q)) (hlen : q.length + p.length ≤ depth) :
    Labelled enc heir depth m' lab' := by
  induction h generalizing o q with
  | nil => exact hlab
  | @present lab lab' m m' a c t i p hchild hrest ih =>
    rw [List.length_cons] at hlen
    obtain ⟨-, o₁, hc, -⟩ := hlab.of_child ha (by omega) hchild
    exact ih hlab hc (by rw [List.length_append, List.length_singleton]; omega)
  | @link lab lab' m m₁ m' a c t i p o₁ q₁ ha₁ hlink hrest ih =>
    rw [ha] at ha₁
    cases ha₁
    rw [List.length_cons] at hlen
    exact ih (hlink.labelled hlab ha (hheir o₁ q₁ i)) (Function.update_self _ _ _)
      (by rw [List.length_append, List.length_singleton]; omega)

/-- Present entries of tables in use stay as they are. -/
lemma entry_eq (h : Ensure enc lab m a p lab' m' t) (hb : lab b ≠ none)
    {d : α} (hd : enc.child (m b j) = some d) : m' b j = m b j := by
  induction h with
  | nil => rfl
  | present _ _ ih => exact ih hb hd
  | @link lab lab' m m₁ m' a c t i p o q ha hlink hrest ih =>
    have hm : m₁ b j = m b j := hlink.entry_eq hb hd
    obtain ⟨x, hx⟩ := Option.ne_none_iff_exists'.mp hb
    rw [ih (by rw [hlink.label_of_ne hx]; exact Option.some_ne_none _) (by rw [hm, hd]), hm]

/-- Tables that could be reached stay where they were. -/
lemma follow_mono (h : Ensure enc lab m a p lab' m' t) (hlab : Labelled enc heir depth m lab)
    (hb : lab b = some (o', r)) {s : List ι} (hlen : r.length + s.length ≤ depth)
    (hfollow : follow enc m b s = some c) : follow enc m' b s = some c := by
  induction s generalizing b o' r with
  | nil => exact hfollow
  | cons i s ih =>
    rw [List.length_cons] at hlen
    obtain ⟨d, hd, hdc⟩ := Option.bind_eq_some_iff.mp hfollow
    obtain ⟨-, o₁, hlab₁, -⟩ := hlab.of_child hb (by omega) hd
    have heq := h.entry_eq (by rw [hb]; exact Option.some_ne_none _) hd
    rw [follow_cons_of_child (by rw [heq, hd])]
    exact ih hlab₁ (by rw [List.length_append, List.length_singleton]; omega) hdc

/-- The descent leads along its path in the forest it leaves behind. -/
lemma follow_eq (h : Ensure enc lab m a p lab' m' t) (hlab : Labelled enc heir depth m lab)
    (hheir : ∀ o p i, heir o p i o) (ha : lab a = some (o, q))
    (hlen : q.length + p.length ≤ depth) : follow enc m' a p = some t := by
  induction h generalizing o q with
  | nil => rfl
  | @present lab lab' m m' a c t i p hchild hrest ih =>
    rw [List.length_cons] at hlen
    obtain ⟨-, o₁, hc, -⟩ := hlab.of_child ha (by omega) hchild
    have hin : lab a ≠ none := by rw [ha]; exact Option.some_ne_none _
    rw [follow_cons_of_child (by rw [hrest.entry_eq hin hchild, hchild])]
    exact ih hlab hc (by rw [List.length_append, List.length_singleton]; omega)
  | @link lab lab' m m₁ m' a c t i p o₁ q₁ ha₁ hlink hrest ih =>
    rw [ha] at ha₁
    cases ha₁
    rw [List.length_cons] at hlen
    have hchild : enc.child (m₁ a i) = some c := by rw [hlink.linked, hlink.child_link]
    have hin : Function.update lab c (some (o₁, q₁ ++ [i])) a ≠ none := by
      rw [hlink.label_of_ne ha]
      exact Option.some_ne_none _
    rw [follow_cons_of_child (by rw [hrest.entry_eq hin hchild, hchild])]
    exact ih (hlink.labelled hlab ha (hheir o₁ q₁ i)) (Function.update_self _ _ _)
      (by rw [List.length_append, List.length_singleton]; omega)

/-- A lookup finds the same after the descent, unless it found nothing and now ends in a table that
is empty. -/
theorem lookup_eq (h : Ensure enc lab m a p lab' m' t) (hlab : Labelled enc heir depth m lab)
    (hheir : ∀ o p i, heir o p i o) (ha : lab a = some (o, q)) (hlen : q.length + p.length ≤ depth)
    (hb : lab b = some (o', r)) {s : List ι} (hs : r.length + s.length = depth) :
    lookup enc m' b s j = lookup enc m b s j ∨
      (lookup enc m b s j = none ∧ lookup enc m' b s j = some enc.zero) := by
  induction h generalizing o q with
  | nil => exact .inl rfl
  | @present lab lab' m m' a c t i p hchild hrest ih =>
    rw [List.length_cons] at hlen
    obtain ⟨-, o₁, hc, -⟩ := hlab.of_child ha (by omega) hchild
    exact ih hlab hc (by rw [List.length_append, List.length_singleton]; omega) hb
  | @link lab lab' m m₁ m' a c t i p o₁ q₁ ha₁ hlink hrest ih =>
    rw [ha] at ha₁
    cases ha₁
    rw [List.length_cons] at hlen
    have hfirst : lookup enc m₁ b s j = lookup enc m b s j ∨
        (lookup enc m b s j = none ∧ lookup enc m₁ b s j = some enc.zero) :=
      hlink.lookup_eq hlab ha (by omega) hb hs
    have hrest' := ih (hlink.labelled hlab ha (hheir o₁ q₁ i)) (Function.update_self _ _ _)
      (by rw [List.length_append, List.length_singleton]; omega) (hlink.label_of_ne hb)
    rcases hfirst with heq | ⟨hnone, hzero⟩
    · rwa [heq] at hrest'
    · rcases hrest' with heq | ⟨hnone', -⟩
      · exact .inr ⟨hnone, heq.trans hzero⟩
      · rw [hzero] at hnone'
        cases hnone'

/-- The descent only changes entries on its path, in tables that have every property of owners and
paths that the start has and that heirs inherit along the path. -/
theorem frame (h : Ensure enc lab m a p lab' m' t) (hlab : Labelled enc heir depth m lab)
    (hheir : ∀ o p i, heir o p i o) (ha : lab a = some (o, q)) (hlen : q.length + p.length ≤ depth)
    {Q : ο → List ι → Prop} (hstart : Q o q)
    (hQ : ∀ o r i o', Q o r → r ++ [i] <+: q ++ p → heir o r i o' → Q o' (r ++ [i]))
    (hb : lab b = some (o', r)) (hne : m' b j ≠ m b j) : Q o' r ∧ r ++ [j] <+: q ++ p := by
  induction h generalizing o q with
  | nil => exact absurd rfl hne
  | @present lab lab' m m' a c t i p hchild hrest ih =>
    rw [List.length_cons] at hlen
    obtain ⟨-, o₁, hc, hheir₁⟩ := hlab.of_child ha (by omega) hchild
    have happ : q ++ [i] ++ p = q ++ i :: p := by simp
    have hstep := ih hlab hc (by rw [List.length_append, List.length_singleton]; omega)
      (hQ o q i o₁ hstart ⟨p, happ⟩ hheir₁) (by rwa [happ]) hb hne
    rwa [happ] at hstep
  | @link lab lab' m m₁ m' a c t i p o₁ q₁ ha₁ hlink hrest ih =>
    rw [ha] at ha₁
    cases ha₁
    rw [List.length_cons] at hlen
    have happ : q₁ ++ [i] ++ p = q₁ ++ i :: p := by simp
    by_cases hbi : b = a ∧ j = i
    · obtain ⟨rfl, rfl⟩ := hbi
      rw [ha] at hb
      cases hb
      exact ⟨hstart, p, happ⟩
    · have heq : m₁ b j = m b j :=
        hlink.frame b j (by rw [hb]; exact Option.some_ne_none _) (by tauto)
      have hstep := ih (hlink.labelled hlab ha (hheir o₁ q₁ i)) (Function.update_self _ _ _)
        (by rw [List.length_append, List.length_singleton]; omega)
        (hQ o₁ q₁ i o₁ hstart ⟨p, happ⟩ (hheir o₁ q₁ i)) (by rwa [happ]) (hlink.label_of_ne hb)
        (by rwa [heq])
      rwa [happ] at hstep

end Ensure

/-! ### Storing a value -/

/-- `m'` is `m` with the value `v` at index `i` of the table `t`. -/
structure LeafStore (lab : Labels α ο ι) (m m' : α → ι → β) (t : α) (i : ι) (v : β) : Prop where
  /-- The entry becomes the value. -/
  stored : m' t i = v
  /-- No other entry of a table in use changes. -/
  frame : ∀ b j, lab b ≠ none → b ≠ t ∨ j ≠ i → m' b j = m b j

namespace LeafStore

/-- The entries of a labelled inner table are not touched by a store into the last level. -/
lemma inner_eq (h : LeafStore lab m m' t i v) (ht : lab t = some (o, p)) (hp : p.length = depth)
    (hb : lab b = some (o', r)) (hr : r.length < depth) (j : ι) : m' b j = m b j := by
  refine h.frame b j (by rw [hb]; exact Option.some_ne_none _) (.inl ?_)
  rintro rfl
  rw [ht] at hb
  cases hb
  omega

/-- A store into the last level keeps the labelling. -/
lemma labelled (h : LeafStore lab m m' t i v) (hlab : Labelled enc heir depth m lab)
    (ht : lab t = some (o, p)) (hp : p.length = depth) : Labelled enc heir depth m' lab := by
  intro b o₁ r hb hr j
  rw [h.inner_eq ht hp hb hr j]
  exact hlab b o₁ r hb hr j

/-- A store into the last level does not change which tables are reached. -/
lemma follow_eq (h : LeafStore lab m m' t i v) (hlab : Labelled enc heir depth m lab)
    (ht : lab t = some (o, p)) (hp : p.length = depth) (hb : lab b = some (o', r))
    (hlen : r.length + q.length ≤ depth) : follow enc m' b q = follow enc m b q :=
  hlab.follow_congr (Q := fun _ _ => True) (fun _ _ _ _ _ _ => trivial)
    (fun _ _ _ i hb _ hp' => h.inner_eq ht hp hb hp' i) hb trivial hlen

/-- A store into the last level changes the lookups that end in its entry, and no others. -/
theorem lookup_eq [DecidableEq α] [DecidableEq ι] (h : LeafStore lab m m' t i v)
    (hlab : Labelled enc heir depth m lab) (ht : lab t = some (o, p)) (hp : p.length = depth)
    (hb : lab b = some (o', r)) (hlen : r.length + q.length = depth) :
    lookup enc m' b q j =
      if follow enc m b q = some t ∧ j = i then some v else lookup enc m b q j := by
  rw [lookup, lookup, h.follow_eq hlab ht hp hb hlen.le]
  cases hd : follow enc m b q with
  | none => simp
  | some d =>
    obtain ⟨o₁, hd', -⟩ := hlab.follow_label (Q := fun _ _ => True)
      (fun _ _ _ _ _ _ => trivial) hb trivial hlen.le hd
    split_ifs with hti
    · obtain ⟨hdt, rfl⟩ := hti
      cases hdt
      rw [Option.map_some, h.stored]
    · refine congrArg some (h.frame d j (by rw [hd']; exact Option.some_ne_none _) ?_)
      rw [Option.some.injEq] at hti
      tauto

end LeafStore

end RadixForest
