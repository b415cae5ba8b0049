import Soaplin.Sched.ThreadLists

/-!
# What `schedule` looks at

The loops of `schedule` follow the `next` pointers of the threads that are `DEAD`.  `Searches u p t`
says that the search in the state `u` comes to the pointer `t` in the list of the process `p`.  The
lists need not end: `SearchLists u l tl e` only says where the list of each process leads to behind
the threads `tl p`.  As long as the processes that are skipped have lists that end at `NULL`, the
search stays on the threads `tl p` (`Searches.mem`); otherwise it goes where they lead to
(`Searches.end_of`).
-/

namespace Soaplin

open LinkedChain RoundRobin

/-- The search of `schedule` in the state `u` comes to the thread pointer `t` in the list of the
process `p`. -/
inductive Searches (u : Sched) : Ptr → Ptr → Prop
  /-- It starts with the process after the current one. -/
  | first : Searches u (nextProcess u) (u.procs (nextProcess u)).threads
  /-- It follows the `next` pointer of a thread that is `DEAD`. -/
  | thread {p t : Ptr} (h : Searches u p t) (h0 : t ≠ 0) (hdead : ¬ Live u t) :
      Searches u p (u.threads t).next
  /-- At the end of a list it goes on with the next process. -/
  | process {p : Ptr} (h : Searches u p 0) :
      Searches u (nextProcess { u with schedCurrentProcess := p })
        (u.procs (nextProcess { u with schedCurrentProcess := p })).threads

/-- The search reads the `next` pointer of `t`. -/
def FollowsNext (u : Sched) (t : Ptr) : Prop := ∃ p, Searches u p t ∧ t ≠ 0 ∧ ¬ Live u t

variable {u u' : Sched} {l : List Ptr} {tl : Ptr → List Ptr} {e : Ptr → Ptr} {fuel inner : ℕ}
  {p q r t : Ptr} {a b ts : List Ptr}

/-! ### The loops -/

/-- The inner loop stays on the search, and ends at `NULL` or at a thread that is not `DEAD`. -/
lemma Searches.scanThreads (h : Searches u p t) (hscan : scanThreads u fuel t = some r) :
    Searches u p r ∧ (r ≠ 0 → Live u r) := by
  induction fuel generalizing t with
  | zero => cases hscan
  | succ fuel ih =>
    rw [Soaplin.scanThreads] at hscan
    split_ifs at hscan with h0 hdead
    · obtain rfl := Option.some.inj hscan
      exact ⟨h0 ▸ h, fun hne => absurd rfl hne⟩
    · exact ih (h.thread h0 (not_not.mpr hdead)) hscan
    · obtain rfl := Option.some.inj hscan
      exact ⟨h, fun _ => hdead⟩

/-- The outer loop, entered where the search comes to a process. -/
lemma chooseThread_searches_aux
    (hstart : Searches u (nextProcess { u with schedCurrentProcess := p, schedCurrentThread := r })
      (u.procs (nextProcess { u with schedCurrentProcess := p, schedCurrentThread := r })).threads)
    (h : chooseThread fuel inner { u with schedCurrentProcess := p, schedCurrentThread := r } =
      some u') :
    ∃ q t, Searches u q t ∧ t ≠ 0 ∧ Live u t ∧ u' = { u with
      schedCurrentProcess := q
      schedCurrentThread := t
      threads := Function.update u.threads t { u.threads t with status := .running } } := by
  induction fuel generalizing p r with
  | zero => cases h
  | succ fuel ih =>
    rw [chooseThread] at h
    dsimp only at h
    generalize nextProcess { u with schedCurrentProcess := p, schedCurrentThread := r } = q at *
    rw [scanThreads_setCurrent] at h
    cases hscan : Soaplin.scanThreads u inner (u.procs q).threads with
    | none =>
      rw [hscan] at h
      cases h
    | some t =>
      rw [hscan] at h
      obtain ⟨hsearch, hlive⟩ := hstart.scanThreads hscan
      dsimp only at h
      split_ifs at h with ht
      · exact ⟨q, t, hsearch, ht, hlive ht, (Option.some.inj h).symm⟩
      · rw [not_not.mp ht] at hsearch
        exact ih (p := q) (r := 0) hsearch.process h

/-- The outer loop makes a thread current that the search has come to and that is not `DEAD`. -/
lemma chooseThread_searches (h : chooseThread fuel inner u = some u') :
    ∃ q t, Searches u q t ∧ t ≠ 0 ∧ Live u t ∧ u' = { u with
      schedCurrentProcess := q
      schedCurrentThread := t
      threads := Function.update u.threads t { u.threads t with status := .running } } :=
  chooseThread_searches_aux (p := u.schedCurrentProcess) (r := u.schedCurrentThread) .first h

/-! ### Lists with an end -/

/-- The process list is `l`, and the thread list of the process `p` leads along `tl p` to `e p`. -/
structure SearchLists (u : Sched) (l : List Ptr) (tl : Ptr → List Ptr) (e : Ptr → Ptr) : Prop where
  procs : Chain (processNext u) u.schedProcessesList l
  threads : ∀ p ∈ l, Path (threadNext u) (u.procs p).threads (tl p) (e p)
  current : u.schedCurrentProcess ∈ l

/-- The process after one of the list, in cyclic order. -/
lemma SearchLists.nextProcess_eq (h : SearchLists u l tl e) (hp : p ∈ l)
    (hnext : cyclicAfter l p = q :: b) : nextProcess { u with schedCurrentProcess := p } = q :=
  Soaplin.nextProcess_eq (u := { u with schedCurrentProcess := p }) h.procs hp hnext

/-- Behind threads that are `DEAD` the search comes to where they lead to. -/
lemma Searches.along (h : Searches u p t) (hpath : Path (threadNext u) t ts r)
    (hdead : ∀ x ∈ ts, ¬ Live u x) : Searches u p r := by
  induction ts generalizing t with
  | nil =>
    obtain rfl : t = r := hpath
    exact h
  | cons x ts ih =>
    obtain ⟨rfl, h0, hrest⟩ := hpath
    exact ih (h.thread h0 (hdead t List.mem_cons_self)) hrest
      fun y hy => hdead y (List.mem_cons_of_mem _ hy)

/-- The search comes to a process if it skips the ones before it. -/
lemma SearchLists.searches (h : SearchLists u l tl e)
    (hcyc : cyclicAfter l u.schedCurrentProcess = a ++ p :: b)
    (hskip : ∀ q ∈ a, e q = 0 ∧ ∀ x ∈ tl q, ¬ Live u x) : Searches u p (u.procs p).threads := by
  induction a using List.reverseRecOn generalizing p b with
  | nil =>
    have hnext : nextProcess u = p := h.nextProcess_eq h.current hcyc
    rw [← hnext]
    exact .first
  | append_singleton a q ih =>
    rw [List.append_assoc, List.singleton_append] at hcyc
    have hq : q ∈ l := by
      have hmem : q ∈ cyclicAfter l u.schedCurrentProcess := by simp [hcyc]
      exact mem_cyclicAfter.mp hmem
    have hcome := ih hcyc fun x hx => hskip x (List.mem_append_left _ hx)
    obtain ⟨hend, hdead⟩ := hskip q (by simp)
    have hpath := h.threads q hq
    rw [hend] at hpath
    have hnext : nextProcess { u with schedCurrentProcess := q } = p := by
      refine h.nextProcess_eq hq (b := b ++ (a ++ [q])) ?_
      rw [cyclicAfter_of_append h.procs.nodup hcyc, List.cons_append]
    have hstep := (hcome.along hpath hdead).process
    rwa [hnext] at hstep

/-- If the threads of a process are skipped too, the search comes to where they lead to. -/
lemma SearchLists.searches_end (h : SearchLists u l tl e)
    (hcyc : cyclicAfter l u.schedCurrentProcess = a ++ p :: b)
    (hskip : ∀ q ∈ a, e q = 0 ∧ ∀ x ∈ tl q, ¬ Live u x) (hdead : ∀ x ∈ tl p, ¬ Live u x) :
    Searches u p (e p) := by
  have hp : p ∈ l := by
    have hmem : p ∈ cyclicAfter l u.schedCurrentProcess := by simp [hcyc]
    exact mem_cyclicAfter.mp hmem
  exact (h.searches hcyc hskip).along (h.threads p hp) hdead

/-- The search has come to the process `p`, which is `q` or one before it, and behind the threads
`x`, which are `DEAD`, to the pointer `t`. -/
structure SearchPosition (u : Sched) (tl : Ptr → List Ptr) (e : Ptr → Ptr) (a : List Ptr)
    (q p t : Ptr) (a₂ x y : List Ptr) : Prop where
  procs : ∃ a₁, a ++ [q] = a₁ ++ p :: a₂
  threads : tl p = x ++ y
  dead : ∀ r ∈ x, ¬ Live u r
  path : Path (threadNext u) t y (e p)

/-- The last process is `q`, and the ones before it are those of `a`. -/
lemma SearchPosition.last_or_mem {a₂ x y : List Ptr} (h : SearchPosition u tl e a q p t a₂ x y) :
    a₂ = [] ∧ p = q ∨ p ∈ a ∧ a₂ ≠ [] := by
  obtain ⟨a₁, heq⟩ := h.procs
  rcases List.eq_nil_or_concat a₂ with rfl | ⟨a₂', z, rfl⟩
  · obtain ⟨-, hq⟩ := List.append_inj' heq rfl
    exact Or.inl ⟨rfl, (List.cons.inj hq).1.symm⟩
  · rw [List.concat_eq_append, ← List.cons_append, ← List.append_assoc] at heq
    obtain ⟨ha, -⟩ := List.append_inj' heq rfl
    exact Or.inr ⟨by simp [ha], by simp⟩

/-- When the lists before `q` end at `NULL` and `q` has a thread that is not `DEAD`, a pointer that
is not `NULL` is the next one of the threads. -/
lemma SearchPosition.exists_cons {a₂ x y : List Ptr} (h : SearchPosition u tl e a q p t a₂ x y)
    (hend : ∀ x ∈ a, e x = 0) (hlive : ∃ x ∈ tl q, Live u x) (h0 : t ≠ 0) :
    ∃ y', y = t :: y' ∧ Path (threadNext u) (u.threads t).next y' (e p) := by
  cases y with
  | nil =>
    -- the threads of the process are all behind, so it is one of those that are skipped
    have hstop : t = e p := h.path
    rcases h.last_or_mem with ⟨-, rfl⟩ | ⟨hpa, -⟩
    · obtain ⟨r, hr, hrlive⟩ := hlive
      rw [h.threads, List.append_nil] at hr
      exact absurd hrlive (h.dead r hr)
    · exact absurd (hstop.trans (hend p hpa)) h0
  | cons r y =>
    obtain ⟨rfl, -, hrest⟩ := h.path
    exact ⟨y, rfl, hrest⟩

/-- Under these conditions the search does not get behind the threads of `q`. -/
lemma SearchLists.position (h : SearchLists u l tl e)
    (hcyc : cyclicAfter l u.schedCurrentProcess = a ++ q :: b) (hend : ∀ x ∈ a, e x = 0)
    (hlive : ∃ x ∈ tl q, Live u x) (hs : Searches u p t) :
    ∃ a₂ x y, SearchPosition u tl e a q p t a₂ x y := by
  have hcyc' : ∀ a₁ r a₂, a ++ [q] = a₁ ++ r :: a₂ →
      cyclicAfter l u.schedCurrentProcess = a₁ ++ r :: (a₂ ++ b) := by
    intro a₁ r a₂ heq
    rw [hcyc, List.append_cons, heq, List.append_assoc, List.cons_append]
  have hmem : ∀ a₁ r a₂, a ++ [q] = a₁ ++ r :: a₂ → r ∈ l := by
    intro a₁ r a₂ heq
    rw [← mem_cyclicAfter (x := u.schedCurrentProcess), hcyc' a₁ r a₂ heq]
    simp
  induction hs with
  | first =>
    obtain ⟨r, a₂, heq⟩ := List.exists_cons_of_ne_nil (List.append_ne_nil_of_right_ne_nil a
      (List.cons_ne_nil q []))
    have hnext : nextProcess u = r := h.nextProcess_eq h.current (hcyc' [] r a₂ heq)
    rw [hnext]
    exact ⟨a₂, [], tl r, ⟨[], heq⟩, rfl, by simp, h.threads r (hmem [] r a₂ heq)⟩
  | @thread p t _ h0 hdead ih =>
    obtain ⟨a₂, x, y, hpos⟩ := ih
    obtain ⟨y, rfl, hrest⟩ := hpos.exists_cons hend hlive h0
    refine ⟨a₂, x ++ [t], y, hpos.procs, by rw [hpos.threads, List.append_cons], ?_, hrest⟩
    intro r hr
    rcases List.mem_append.mp hr with hr | hr
    · exact hpos.dead r hr
    · rwa [List.mem_singleton.mp hr]
  | @process p _ ih =>
    obtain ⟨a₂, x, y, hpos⟩ := ih
    have hy : y = [] := by
      cases y with
      | nil => rfl
      | cons r y => exact absurd hpos.path.1.symm hpos.path.2.1
    rcases hpos.last_or_mem with ⟨-, rfl⟩ | ⟨-, hne⟩
    · obtain ⟨r, hr, hrlive⟩ := hlive
      rw [hpos.threads, hy, List.append_nil] at hr
      exact absurd hrlive (hpos.dead r hr)
    · obtain ⟨r, a₂', rfl⟩ := List.exists_cons_of_ne_nil hne
      obtain ⟨a₁, heq⟩ := hpos.procs
      have heq' : a ++ [q] = (a₁ ++ [p]) ++ r :: a₂' := by rw [heq, List.append_cons]
      have hnext : nextProcess { u with schedCurrentProcess := p } = r := by
        refine h.nextProcess_eq (hmem _ _ _ heq) (b := a₂' ++ b ++ (a₁ ++ [p])) ?_
        rw [cyclicAfter_of_append h.procs.nodup (hcyc' _ _ _ heq), List.cons_append,
          List.cons_append]
      rw [hnext]
      exact ⟨a₂', [], tl r, ⟨_, heq'⟩, rfl, by simp, h.threads r (hmem _ _ _ heq')⟩

/-- Then it comes to no threads but those of the lists. -/
lemma SearchLists.mem (h : SearchLists u l tl e)
    (hcyc : cyclicAfter l u.schedCurrentProcess = a ++ q :: b) (hend : ∀ x ∈ a, e x = 0)
    (hlive : ∃ x ∈ tl q, Live u x) (hs : Searches u p t) (h0 : t ≠ 0) : p ∈ l ∧ t ∈ tl p := by
  obtain ⟨a₂, x, y, hpos⟩ := h.position hcyc hend hlive hs
  obtain ⟨a₁, heq⟩ := hpos.procs
  obtain ⟨y, rfl, -⟩ := hpos.exists_cons hend hlive h0
  refine ⟨?_, ?_⟩
  · rw [← mem_cyclicAfter (x := u.schedCurrentProcess), hcyc, List.append_cons, heq]
    simp
  · rw [hpos.threads]
    simp

/-- Behind threads that are `DEAD` the inner loop is where they lead to. -/
lemma scanThreads_along (hpath : Path (threadNext u) t ts r) (hdead : ∀ x ∈ ts, ¬ Live u x) :
    scanThreads u (ts.length + fuel) t = scanThreads u fuel r := by
  induction ts generalizing t with
  | nil =>
    obtain rfl : t = r := hpath
    rw [List.length_nil, Nat.zero_add]
  | cons x ts ih =>
    obtain ⟨rfl, h0, hrest⟩ := hpath
    have hx : (u.threads t).status = .dead := not_not.mp (hdead t List.mem_cons_self)
    rw [List.length_cons, Nat.add_right_comm, scanThreads, if_neg h0, if_pos hx]
    exact ih hrest fun y hy => hdead y (List.mem_cons_of_mem _ hy)

/-- A list whose threads are all `DEAD` is skipped if it ends at `NULL`; a thread that is not `DEAD`
at its end is found. -/
lemma SearchLists.scanThreads_end (h : SearchLists u l tl e) (hp : p ∈ l)
    (hdead : ∀ x ∈ tl p, ¬ Live u x) (hend : e p = 0 ∨ Live u (e p)) :
    scanThreads u (enoughFuel l tl) (u.procs p).threads = some (e p) := by
  have hlen : (tl p).length < enoughFuel l tl := length_lt_enoughFuel hp
  obtain ⟨k, hk⟩ := Nat.exists_eq_add_of_lt hlen
  rw [hk, Nat.add_assoc, scanThreads_along (h.threads p hp) hdead, scanThreads]
  split_ifs with h0 hx
  · rw [h0]
  · exact absurd hx (hend.resolve_left h0)
  · rfl

/-- The search finds a thread that is not `DEAD` at the end of a list, if it comes there. -/
lemma SearchLists.chooseThread_end (h : SearchLists u l tl e)
    (hcyc : cyclicAfter l u.schedCurrentProcess = a ++ p :: b)
    (hskip : ∀ q ∈ a, e q = 0 ∧ ∀ x ∈ tl q, ¬ Live u x) (hdead : ∀ x ∈ tl p, ¬ Live u x)
    (h0 : e p ≠ 0) (hlive : Live u (e p)) :
    ∃ fuel inner u', chooseThread fuel inner u = some u' ∧ u'.schedCurrentThread = e p := by
  have hmem : ∀ q ∈ a ++ p :: b, q ∈ l := fun q hq => by
    rw [← hcyc] at hq
    exact mem_cyclicAfter.mp hq
  refine ⟨a.length + 1, enoughFuel l tl, _, chooseThread_of_scans h.procs h.current hcyc
    (fun q hq => ?_) (h.scanThreads_end (hmem p (by simp)) hdead (Or.inr hlive)) h0 (Nat.lt_succ_self _), rfl⟩
  obtain ⟨hend, hq'⟩ := hskip q hq
  have hscan := h.scanThreads_end (hmem q (List.mem_append_left _ hq)) hq' (Or.inl hend)
  rwa [hend] at hscan

end Soaplin
