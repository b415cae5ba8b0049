import Soaplin.Sched.Stores
import Soaplin.Sched.Search
import Soaplin.Sched.RunningThread
import Soaplin.Sched.Fairness

/-!
# `sched_new_thread`, store by store

`sched_new_thread` links the new thread into the list of its process before it has written its
fields. Here its stores are steps of their own, with calls of `schedule` between them: the thread
that executes it may be preempted, and goes on when it is current again.  `newThread_tickSafe_iff`
says when a call of `schedule` in the middle does no harm, and `newThread_not_tickSafe` is one that
does.
-/

namespace Soaplin

open LinkedChain RoundRobin TransitionTrace Word64

/-! ### Runs -/

/-- The fields of the context without which a thread is not complete. -/
def ThreadStore.IsContext (st : ThreadStore) : Prop :=
  st = .rip ∨ st = .cs ∨ st = .ss ∨ st = .rsp ∨ st = .rflags

instance : DecidablePred ThreadStore.IsContext := fun _ => inferInstanceAs (Decidable (_ ∨ _))

/-- A state in the middle of a call of `sched_new_thread`, with the stores that are still to come.
-/
structure Creation where
  sched : Sched
  pending : List ThreadStore

/-- The state right after the allocation of the record. -/
def Creation.start (c : NewThreadCall) (s : Sched) : Creation :=
  ⟨s.setThread c.alloc.ptr c.alloc.junk, newThreadStores⟩

/-- What happens in the middle of a call. -/
inductive CreationOp
  | store
  | tick (sf : Stackframe)

/-- One step: the next store, when the thread `creator` that executes the call is current, or a call
of `schedule` by the timer. -/
inductive CreationStep (c : NewThreadCall) (creator : Ptr) : Creation → CreationOp → Creation → Prop
  | store {h : Creation} {fuel : ℕ} {st : ThreadStore} {rest : List ThreadStore} {s : Sched}
      (hcurrent : h.sched.schedCurrentThread = creator) (hpending : h.pending = st :: rest)
      (hexec : st.exec fuel c h.sched = some s) : CreationStep c creator h .store ⟨s, rest⟩
  | tick {h : Creation} {fuel inner : ℕ} {sf sf' : Stackframe} {s : Sched}
      (hcall : schedule fuel inner h.sched sf = some (s, sf')) :
      CreationStep c creator h (.tick sf) { h with sched := s }

/-- The new thread is in the list of its process. -/
def Creation.Linked (h : Creation) : Prop := .link ∉ h.pending

/-- The `next` pointer of the new thread is initialised. -/
def Creation.NextSet (h : Creation) : Prop := .next ∉ h.pending

/-- The context of the new thread is complete. -/
def Creation.ContextSet (h : Creation) : Prop := ∀ st ∈ h.pending, ¬ st.IsContext

instance (h : Creation) : Decidable h.Linked := inferInstanceAs (Decidable (_ ∉ _))

instance (h : Creation) : Decidable h.ContextSet := inferInstanceAs (Decidable (∀ _ ∈ _, _))

/-- A call of `schedule` in this state does not follow the `next` pointer of the new thread before
it is initialised, and does not install its context before it is complete. -/
structure TickSafe (c : NewThreadCall) (h : Creation) : Prop where
  next : ¬ h.NextSet → ∀ sf, ¬ FollowsNext (saveContext h.sched sf) c.alloc.ptr
  context : ¬ h.ContextSet → ∀ sf fuel inner r, schedule fuel inner h.sched sf = some r →
    r.1.schedCurrentThread ≠ c.alloc.ptr

/-- With the thread lists `tl`, a call of `schedule` in the state `s` finds no thread to run in the
process `proc` and in those between the current one and `proc`. -/
def SearchPasses (s : Sched) (l : List Ptr) (tl : Ptr → List Ptr) (proc : Ptr) : Prop :=
  ∃ a b, cyclicAfter l s.schedCurrentProcess = a ++ proc :: b ∧
    ∀ q ∈ a ++ [proc], ¬ HasRunnable s tl q

/-- The new thread is not in its list yet, or its context is complete, or a call of `schedule` finds
another thread before it comes to the end of the list. -/
def Shielded (l : List Ptr) (tl : Ptr → List Ptr) (c : NewThreadCall) (h : Creation) : Prop :=
  ¬ h.Linked ∨ h.ContextSet ∨ ¬ SearchPasses h.sched l tl c.proc

/-- The condition on a step: the timer comes only when the new thread is shielded. -/
def ShieldedTick (l : List Ptr) (tl : Ptr → List Ptr) (c : NewThreadCall) (h : Creation) :
    CreationOp → Prop
  | .store => True
  | .tick _ => Shielded l tl c h

/-- The call creates a thread in a process of the list, on a record that is not in use. -/
structure FreshThread (l : List Ptr) (tl : Ptr → List Ptr) (c : NewThreadCall) : Prop where
  proc : c.proc ∈ l
  ne_zero : c.alloc.ptr ≠ 0
  fresh : ∀ p ∈ l, c.alloc.ptr ∉ tl p

variable {s s' u u' : Sched} {l : List Ptr} {tl : Ptr → List Ptr} {e : Ptr → Ptr}
  {c : NewThreadCall} {h h' : Creation} {fuel inner n : ℕ} {p q r t creator : Ptr} {a b ts : List Ptr} {sf : Stackframe}
  {st : ThreadStore} {ops : List CreationOp}

/-! ### The lists under the stores -/

/-- Assigning the record of a thread outside the lists keeps them. -/
lemma SearchLists.setThread (h : SearchLists u l tl e) (ht : ∀ p ∈ l, t ∉ tl p) (r : SchedThread)
    (n : ℕ) : SearchLists { u.setThread t r with nextThreadId := n } l tl e := by
  refine ⟨h.procs, fun p hp => ?_, h.current⟩
  have hpath := (h.threads p hp).update (b := r.next) (ht p hp)
  rw [← threadNext_setThread] at hpath
  exact hpath

/-- Making a thread current keeps the lists. -/
lemma SearchLists.choose (h : SearchLists u l tl e) (hq : q ∈ l) (t : Ptr) :
    SearchLists { u with
      schedCurrentProcess := q
      schedCurrentThread := t
      threads := Function.update u.threads t { u.threads t with status := .running } } l tl e := by
  have hnext : threadNext (u.setThread t { u.threads t with status := .running }) = threadNext u :=
    threadNext_setThread_of_eq rfl
  refine ⟨h.procs, fun p hp => ?_, hq⟩
  have hpath := h.threads p hp
  rw [← hnext] at hpath
  exact hpath

/-- Saving the frame keeps the lists. -/
lemma SearchLists.saveContext (h : SearchLists u l tl e) (sf : Stackframe) :
    SearchLists (Soaplin.saveContext u sf) l tl e := by
  refine ⟨h.procs, fun p hp => ?_, h.current⟩
  rw [threadNext_saveContext]
  exact h.threads p hp

/-- Linking the new thread lets the list of its process lead to it. -/
lemma SearchLists.link (h : SearchLists u l tl fun _ => 0) (hp : p ∈ l)
    (hdisj : ∀ p ∈ l, ∀ q ∈ l, p ≠ q → List.Disjoint (tl p) (tl q))
    (hlink : linkThread fuel u p t = some u') :
    SearchLists u' l tl (fun q => if q = p then t else 0) ∧
      u'.schedCurrentProcess = u.schedCurrentProcess ∧
      u'.schedCurrentThread = u.schedCurrentThread := by
  have hchain : Chain (threadNext u) (u.procs p).threads (tl p) := h.threads p hp
  have hlast := linkedLast_of_link hchain hlink
  generalize hxs : tl p = xs at hchain hlast
  cases hlast with
  | first =>
    refine ⟨⟨?_, fun q hq => ?_, h.current⟩, rfl, rfl⟩
    · have hnext : processNext (u.setProc p { u.procs p with threads := t }) = processNext u :=
        processNext_setProc_of_eq rfl
      rw [hnext]
      exact h.procs
    · by_cases hqp : q = p
      · subst hqp
        rw [hxs, if_pos rfl]
        simp
      · rw [if_neg hqp]
        have hsame : ((u.setProc p { u.procs p with threads := t }).procs q).threads =
            (u.procs q).threads := by
          simp [hqp]
        rw [hsame]
        exact h.threads q hq
  | behind xs last =>
    refine ⟨⟨h.procs, fun q hq => ?_, h.current⟩, rfl, rfl⟩
    rw [threadNext_setThread]
    by_cases hqp : q = p
    · subst hqp
      have hnotin : last ∉ xs := by
        have hnodup := hchain.nodup
        exact fun hmem => List.disjoint_of_nodup_append hnodup hmem List.mem_cons_self
      obtain ⟨hpath, h0, -⟩ := chain_split.mp hchain
      rw [hxs, if_pos rfl]
      exact path_append.mpr ⟨last, hpath.update hnotin, rfl, h0, Function.update_self ..⟩
    · rw [if_neg hqp]
      refine (h.threads q hq).update fun hmem => ?_
      refine hdisj q hq p hp hqp hmem ?_
      rw [hxs]
      simp

/-! ### The invariant -/

/-- What is pending is the rest of the stores: the status is written before the `next` pointer, and
this before the context. -/
lemma pending_of_suffix {sts : List ThreadStore} (h : sts <:+ newThreadStores) :
    (.status ∈ sts → .next ∈ sts) ∧ (.next ∈ sts → ∃ st ∈ sts, st.IsContext) := by
  have hall : ∀ sts ∈ newThreadStores.tails,
      (.status ∈ sts → .next ∈ sts) ∧ (.next ∈ sts → ∃ st ∈ sts, st.IsContext) := by decide
  exact hall sts ((List.mem_tails ..).mpr h)

/-- Where the thread list of a process leads to: the new thread, once it is linked, or `NULL`. -/
def listEnd (c : NewThreadCall) (h : Creation) (p : Ptr) : Ptr :=
  if p = c.proc ∧ h.Linked then c.alloc.ptr else 0

/-- The invariant while the context of the new thread is not complete: the lists are the old ones up
to the new thread, which is not current. -/
structure CreationInv (l : List Ptr) (tl : Ptr → List Ptr) (c : NewThreadCall) (h : Creation) :
    Prop where
  lists : SearchLists h.sched l tl (listEnd c h)
  disjoint : ∀ p ∈ l, ∀ q ∈ l, p ≠ q → List.Disjoint (tl p) (tl q)
  currentThread : h.sched.schedCurrentThread ∈ tl h.sched.schedCurrentProcess
  status : .status ∉ h.pending → (h.sched.threads c.alloc.ptr).status = .ready

/-- The invariant holds at the start. -/
lemma creationInv_start (hs : SchedLists s l tl) (hfresh : FreshThread l tl c) :
    CreationInv l tl c (.start c s) := by
  have hend : listEnd c (.start c s) = fun _ => 0 := by
    funext p
    have hlinked : ¬ (Creation.start c s).Linked := by
      simp [Creation.Linked, Creation.start, newThreadStores]
    rw [listEnd, if_neg fun hp => hlinked hp.2]
  refine ⟨?_, hs.disjoint, hs.currentThread, fun hstatus => absurd ?_ hstatus⟩
  · rw [hend]
    have hlists : SearchLists s l tl fun _ => 0 := ⟨hs.procs, hs.threads, hs.current⟩
    exact hlists.setThread hfresh.fresh c.alloc.junk s.nextThreadId
  · simp [Creation.start, newThreadStores]

/-- A store keeps the invariant. -/
lemma CreationInv.store (hinv : CreationInv l tl c h) (hfresh : FreshThread l tl c)
    {rest : List ThreadStore} (hsuffix : h.pending <:+ newThreadStores)
    (hpending : h.pending = st :: rest) (hexec : st.exec fuel c h.sched = some s) :
    CreationInv l tl c ⟨s, rest⟩ := by
  rw [hpending] at hsuffix
  by_cases hlink : st = .link
  · -- the new thread comes into its list
    subst hlink
    have hrest : rest = newThreadStores.tail :=
      (List.cons.inj (eq_newThreadStores hsuffix List.mem_cons_self)).2
    have hbefore : listEnd c h = fun _ => 0 := by
      funext p
      rw [listEnd, if_neg fun hp => hp.2 (by rw [hpending]; exact List.mem_cons_self)]
    have hlists := hinv.lists
    rw [hbefore] at hlists
    obtain ⟨hlists', hproc, hthread⟩ := hlists.link hfresh.proc hinv.disjoint hexec
    refine ⟨?_, hinv.disjoint, ?_, fun hstatus => ?_⟩
    · have hnot : ThreadStore.link ∉ newThreadStores.tail := by decide
      rw [← hrest] at hnot
      have hlinked : Creation.Linked ⟨s, rest⟩ := hnot
      have hafter : listEnd c ⟨s, rest⟩ = fun q => if q = c.proc then c.alloc.ptr else 0 := by
        funext p
        simp [listEnd, hlinked]
      rw [hafter]
      exact hlists'
    · rw [hproc, hthread]
      exact hinv.currentThread
    · have hmem : ThreadStore.status ∈ newThreadStores.tail := by decide
      rw [← hrest] at hmem
      exact absurd hmem hstatus
  · obtain ⟨r, n, rfl, hr⟩ := ThreadStore.exec_of_ne_link hlink hexec
    have hend : listEnd c ⟨{ h.sched.setThread c.alloc.ptr r with nextThreadId := n }, rest⟩ =
        listEnd c h := by
      have hlinked : Creation.Linked
          ⟨{ h.sched.setThread c.alloc.ptr r with nextThreadId := n }, rest⟩ ↔ h.Linked := by
        simp [Creation.Linked, hpending, Ne.symm hlink]
      funext p
      simp only [listEnd, hlinked]
    refine ⟨?_, hinv.disjoint, hinv.currentThread, fun hstatus => ?_⟩
    · rw [hend]
      exact hinv.lists.setThread hfresh.fresh r n
    · have hnew : (({ h.sched.setThread c.alloc.ptr r with nextThreadId := n } : Sched).threads
          c.alloc.ptr).status = r.status := by simp
      rw [hnew, hr.status]
      split_ifs with hst
      · rfl
      · refine hinv.status ?_
        rw [hpending]
        exact fun hmem => (List.mem_cons.mp hmem).elim (fun heq => hst heq.symm) hstatus

/-- While the new thread is shielded, the search stays on the old threads. -/
lemma CreationInv.search_mem (hinv : CreationInv l tl c h) (hshield : Shielded l tl c h)
    (hctx : ¬ h.ContextSet) (hsearch : Searches (saveContext h.sched sf) p t) (h0 : t ≠ 0) :
    p ∈ l ∧ t ∈ tl p := by
  -- the first process with a thread to run; the current one is a candidate
  have hcand : h.sched.schedCurrentProcess ∈ cyclicAfter l h.sched.schedCurrentProcess :=
    mem_cyclicAfter.mpr hinv.lists.current
  have hhas : HasRunnable h.sched tl h.sched.schedCurrentProcess :=
    ⟨_, hinv.currentThread, .inl rfl⟩
  obtain ⟨q, hq⟩ := Option.isSome_iff_exists.mp
    (List.find?_isSome (p := fun p => decide (HasRunnable h.sched tl p)) |>.mpr
      ⟨_, hcand, decide_eq_true hhas⟩)
  obtain ⟨hpos, a, b, hcyc, hskip⟩ := List.find?_eq_some_iff_append.mp hq
  obtain ⟨r, hr, hrun⟩ := of_decide_eq_true hpos
  have hend : ∀ x ∈ a, listEnd c h x = 0 := by
    intro x hx
    rw [listEnd, if_neg]
    rintro ⟨rfl, hlinked⟩
    rcases hshield with hnot | hset | hpass
    · exact hnot hlinked
    · exact hctx hset
    · -- the process of the new thread would be one of those that are skipped
      obtain ⟨a₁, a₂, rfl⟩ := List.append_of_mem hx
      refine hpass ⟨a₁, a₂ ++ q :: b, by rw [hcyc, List.append_assoc, List.cons_append],
        fun y hy => ?_⟩
      have hya : y ∈ a₁ ++ c.proc :: a₂ := by
        rw [List.append_cons]
        exact List.mem_append_left _ hy
      simpa using hskip y hya
  exact (hinv.lists.saveContext sf).mem hcyc hend
    ⟨r, hr, (live_saveContext h.sched sf r).mpr hrun⟩ hsearch h0

/-- A call of `schedule` keeps the invariant while the new thread is shielded. -/
lemma CreationInv.tick (hinv : CreationInv l tl c h) (hfresh : FreshThread l tl c)
    (hshield : Shielded l tl c h) (hctx : ¬ h.ContextSet) {sf' : Stackframe}
    (hcall : schedule fuel inner h.sched sf = some (s, sf')) :
    CreationInv l tl c { h with sched := s } := by
  obtain ⟨v, hv, heq⟩ := Option.map_eq_some_iff.mp hcall
  obtain ⟨rfl, -⟩ := Prod.mk.inj heq
  obtain ⟨q, t, hsearch, h0, -, rfl⟩ := chooseThread_searches hv
  obtain ⟨hq, ht⟩ := hinv.search_mem hshield hctx hsearch h0
  refine ⟨(hinv.lists.saveContext sf).choose hq t, hinv.disjoint, ht, fun hstatus => ?_⟩
  have hne : c.alloc.ptr ≠ t := by
    rintro rfl
    exact hfresh.fresh q hq ht
  have hcurrent : c.alloc.ptr ≠ h.sched.schedCurrentThread := by
    intro heq
    refine hfresh.fresh _ hinv.lists.current ?_
    rw [heq]
    exact hinv.currentThread
  have hsame : (Function.update (saveContext h.sched sf).threads t
      { (saveContext h.sched sf).threads t with status := .running } c.alloc.ptr).status =
        (h.sched.threads c.alloc.ptr).status := by
    rw [Function.update_of_ne hne]
    simp [saveContext, hcurrent]
  exact hsame.trans (hinv.status hstatus)

/-- The invariant of a run whose ticks all come when the new thread is shielded. -/
lemma creationInv_of_trace (hs : SchedLists s l tl) (hfresh : FreshThread l tl c)
    (htrace : Trace (Restrict (ShieldedTick l tl c) (CreationStep c creator)) (.start c s) ops h) :
    h.pending <:+ newThreadStores ∧ (¬ h.ContextSet → CreationInv l tl c h) := by
  refine htrace.invariant (fun h => h.pending <:+ newThreadStores ∧
    (¬ h.ContextSet → CreationInv l tl c h))
    ⟨List.suffix_refl _, fun _ => creationInv_start hs hfresh⟩ ?_
  rintro a op b ⟨hsuffix, hinv⟩ ⟨hcond, hstep⟩
  cases hstep with
  | @store _ st rest s _ hpending hexec =>
    have hrest : rest <:+ a.pending := by
      rw [hpending]
      exact List.suffix_cons _ _
    refine ⟨hrest.trans hsuffix, fun hctx => ?_⟩
    have hctx' : ¬ a.ContextSet := fun hset => hctx fun st hst => hset st (hrest.subset hst)
    exact (hinv hctx').store hfresh hsuffix hpending hexec
  | tick hcall => exact ⟨hsuffix, fun hctx => (hinv hctx).tick hfresh hcond hctx hcall⟩

/-! ### The main result -/

/-- In every run whose ticks all come when the new thread is shielded, in every state reached, a
call of `schedule` does no harm if and only if the new thread is shielded. -/
theorem newThread_tickSafe_iff (hs : SchedLists s l tl) (hfresh : FreshThread l tl c)
    (htrace : Trace (Restrict (ShieldedTick l tl c) (CreationStep c s.schedCurrentThread))
      (.start c s) ops h) : TickSafe c h ↔ Shielded l tl c h := by
  obtain ⟨hsuffix, hinv⟩ := creationInv_of_trace hs hfresh htrace
  obtain ⟨hstatus, hnext⟩ := pending_of_suffix hsuffix
  by_cases hctx : h.ContextSet
  · -- nothing is left that could go wrong
    refine ⟨fun _ => Or.inr (Or.inl hctx), fun _ => ⟨fun hpending => ?_, fun hnot => ?_⟩⟩
    · obtain ⟨st, hst, hfield⟩ := hnext (not_not.mp hpending)
      exact absurd hfield (hctx st hst)
    · exact absurd hctx hnot
  replace hinv := hinv hctx
  constructor
  · intro hsafe
    by_contra hcon
    simp only [Shielded, not_or, not_not] at hcon
    obtain ⟨hlinked, -, a, b, hcyc, hskip⟩ := hcon
    have hlists := hinv.lists.saveContext zeroFrame
    have hend : listEnd c h c.proc = c.alloc.ptr := if_pos ⟨rfl, hlinked⟩
    have hdead : ∀ q ∈ a ++ [c.proc], ∀ x ∈ tl q, ¬ Live (saveContext h.sched zeroFrame) x :=
      fun q hq x hx hlive => hskip q hq ⟨x, hx, (live_saveContext h.sched zeroFrame x).mp hlive⟩
    have hskip' : ∀ q ∈ a, listEnd c h q = 0 ∧
        ∀ x ∈ tl q, ¬ Live (saveContext h.sched zeroFrame) x := by
      refine fun q hq => ⟨if_neg ?_, hdead q (List.mem_append_left _ hq)⟩
      rintro ⟨rfl, -⟩
      have hnodup := nodup_cyclicAfter (x := h.sched.schedCurrentProcess) hinv.lists.procs.nodup
      rw [hcyc] at hnodup
      exact List.disjoint_of_nodup_append hnodup hq List.mem_cons_self
    have hproc := hdead c.proc (by simp)
    by_cases hlive : Live (saveContext h.sched zeroFrame) c.alloc.ptr
    · -- the new thread is installed
      obtain ⟨fuel, inner, v, hv, hcurrent⟩ := hlists.chooseThread_end hcyc hskip' hproc
        (by rw [hend]; exact hfresh.ne_zero) (by rw [hend]; exact hlive)
      have hcall : schedule fuel inner h.sched zeroFrame =
          some (v, (v.threads v.schedCurrentThread).context) := by
        rw [schedule, hv, Option.map_some]
      exact hsafe.context hctx zeroFrame fuel inner _ hcall (hcurrent.trans hend)
    · -- its `next` pointer is followed
      have hsearch := hlists.searches_end hcyc hskip' hproc
      rw [hend] at hsearch
      refine hsafe.next (fun hset => hlive ?_) zeroFrame ⟨_, hsearch, hfresh.ne_zero, hlive⟩
      have hready : Live h.sched c.alloc.ptr := by
        rw [Live, hinv.status fun hmem => hset (hstatus hmem)]
        exact SchedStatus.noConfusion
      exact (live_saveContext h.sched zeroFrame _).mpr (Or.inr hready)
  · intro hshield
    refine ⟨fun _ sf => ?_, fun _ sf fuel inner r hcall heq => ?_⟩
    · rintro ⟨p, hsearch, h0, -⟩
      obtain ⟨hp, ht⟩ := hinv.search_mem hshield hctx hsearch h0
      exact hfresh.fresh p hp ht
    · have hnew := hinv.tick hfresh hshield hctx hcall
      refine hfresh.fresh _ hnew.lists.current ?_
      rw [← heq]
      exact hnew.currentThread

/-! ### Two calls -/

/-- A thread to run in the process of the new one shields it. -/
lemma shielded_of_hasRunnable (hrun : HasRunnable h.sched tl c.proc) : Shielded l tl c h := by
  refine .inr (.inr ?_)
  rintro ⟨a, b, -, hskip⟩
  exact hskip c.proc (by simp) hrun

/-- In the process of the running thread the new thread is shielded: after the first store and a tick
a call of `schedule` does no harm. -/
theorem newThread_tickSafe_kernel : ∃ h, SchedLists bootSched [0x1000, 0x3000] bootThreads ∧
    FreshThread [0x1000, 0x3000] bootThreads kernelCall ∧
    Trace (Restrict (ShieldedTick [0x1000, 0x3000] bootThreads kernelCall)
      (CreationStep kernelCall bootSched.schedCurrentThread)) (.start kernelCall bootSched)
      [.store, .tick zeroFrame] h ∧ TickSafe kernelCall h := by
  obtain ⟨s, s', sf, hexec, hcall, hrun, hrun'⟩ : ∃ s s' sf,
      ThreadStore.exec 2 kernelCall (Creation.start kernelCall bootSched).sched .link = some s ∧
        schedule 2 2 s zeroFrame = some (s', sf) ∧ HasRunnable s bootThreads 0x1000 ∧
        HasRunnable s' bootThreads 0x1000 :=
    ⟨_, _, _, rfl, rfl, ⟨0x2000, by decide, by decide⟩, ⟨0x2000, by decide, by decide⟩⟩
  have hfresh : FreshThread [0x1000, 0x3000] bootThreads kernelCall :=
    ⟨by decide, by decide, by decide⟩
  have htrace : Trace (Restrict (ShieldedTick [0x1000, 0x3000] bootThreads kernelCall)
      (CreationStep kernelCall bootSched.schedCurrentThread)) (.start kernelCall bootSched)
      [.store, .tick zeroFrame] ⟨s', newThreadStores.tail⟩ :=
    .snoc (.single ⟨trivial, .store rfl rfl hexec⟩)
      ⟨shielded_of_hasRunnable hrun, .tick (h := ⟨s, newThreadStores.tail⟩) hcall⟩
  exact ⟨_, bootSched_lists, hfresh, htrace,
    (newThread_tickSafe_iff bootSched_lists hfresh htrace).mpr (shielded_of_hasRunnable hrun')⟩

/-- The state after a call of `sched_new`: a process without threads follows the kernel's process.
-/
def workerSched : Sched := schedNew bootSched ⟨0x5000, ⟨[], 0, 0, 0⟩⟩ (cString "worker")

/-- The threads of the two processes. -/
def workerThreads (p : Ptr) : List Ptr := if p = 0x1000 then [0x2000] else []

lemma workerSched_lists : SchedLists workerSched [0x1000, 0x5000] workerThreads := by
  refine ⟨⟨rfl, by decide, rfl, by decide, rfl⟩, ?_, ?_, by decide, by decide⟩
  · intro p hp
    fin_cases hp
    · exact ⟨rfl, by decide, rfl⟩
    · exact rfl
  · intro p hp q hq hne
    fin_cases hp <;> fin_cases hq <;> simp_all [workerThreads]

/-- A call that creates the first thread of the new process. -/
def workerCall : NewThreadCall := ⟨⟨0x6000, staleThread, 0x7000⟩, 0x5000, cString "worker", 0xa000⟩

/-- A call of `schedule` right after the first store installs what the memory of the new record
held. -/
theorem newThread_not_tickSafe : ∃ h, SchedLists workerSched [0x1000, 0x5000] workerThreads ∧
    FreshThread [0x1000, 0x5000] workerThreads workerCall ∧
    Trace (CreationStep workerCall workerSched.schedCurrentThread) (.start workerCall workerSched)
      [.store] h ∧
    (∃ s, schedule 1 1 h.sched zeroFrame = some (s, staleThread.context) ∧
      s.schedCurrentThread = 0x6000) ∧ ¬ TickSafe workerCall h := by
  obtain ⟨s, hs⟩ : ∃ s, s = (Creation.start workerCall workerSched).sched.setProc 0x5000
    { workerSched.procs 0x5000 with threads := 0x6000 } := ⟨_, rfl⟩
  have hexec : ThreadStore.exec 1 workerCall (Creation.start workerCall workerSched).sched .link =
      some s := by
    rw [hs]
    rfl
  obtain ⟨r, hr, hcurrent, hframe⟩ : ∃ r, schedule 1 1 s zeroFrame = some r ∧
      r.1.schedCurrentThread = 0x6000 ∧ r.2 = staleThread.context := by
    rw [hs]
    exact ⟨_, rfl, rfl, rfl⟩
  refine ⟨⟨s, newThreadStores.tail⟩, workerSched_lists, ⟨by decide, by decide, by decide⟩,
    .single (.store rfl rfl hexec), ⟨r.1, by rw [← hframe]; exact hr, hcurrent⟩, fun hsafe => ?_⟩
  have hctx : ¬ Creation.ContextSet ⟨s, newThreadStores.tail⟩ := by
    have hpending : ¬ ∀ st ∈ newThreadStores.tail, ¬ st.IsContext := by decide
    exact hpending
  exact hsafe.context hctx zeroFrame 1 1 r hr hcurrent

end Soaplin
