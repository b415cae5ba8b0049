import Soaplin.Sched.ListRuns
import Soaplin.Memory.Pmm

/-!
# New records

`sched_new` and `sched_new_thread` use what `pmm_alloc` returns without a test for `NULL`, and they
do not write all of the record they get.  When an allocation fails, the call always leaves something
changed or returns a record (`creation_not_failure_atomic`).  When none fails, the record depends on
what its memory held before, in the words of the context that are not assigned and in the end of a
long name (`newRecord_agree_iff`).
-/

namespace Soaplin

open Word64 LinkedChain

/-- A call that creates a record, with the results of its allocations. -/
inductive CreationCall
  | new (a : ProcessAlloc) (name : List UInt8)
  | newThread (a : ThreadAlloc) (proc : Ptr) (name : List UInt8) (function : UInt64)

/-- The result of the call and the state after it. -/
def CreationCall.run (fuel : ℕ) (s : Sched) : CreationCall → Option (Ptr × Sched)
  | .new a name => some (a.ptr, schedNew s a name)
  | .newThread a proc name function =>
    (schedNewThread fuel s a proc name function).map fun s => (a.ptr, s)

variable {s s' : Sched} {fuel : ℕ} {c c₁ c₂ : CreationCall}

/-! ### Allocations that fail -/

/-- An allocation of the call returns `NULL`. -/
def CreationCall.AllocFails : CreationCall → Prop
  | .new a _ => a.ptr = 0
  | .newThread a _ _ _ => a.ptr = 0 ∨ a.stack = 0

/-- The call has failed cleanly: it returns `NULL`, and the lists, the records and the counters are
as before. -/
structure FailedCleanly (s : Sched) (r : Ptr × Sched) : Prop where
  result : r.1 = 0
  list : r.2.schedProcessesList = s.schedProcessesList
  procs : r.2.procs = s.procs
  threads : r.2.threads = s.threads
  nextFreePid : r.2.nextFreePid = s.nextFreePid
  nextThreadId : r.2.nextThreadId = s.nextThreadId

/-- A counter that has been incremented has another value. -/
lemma wadd_one_ne (n : ℕ) : wadd n 1 ≠ n := by
  intro h
  have hlt := wadd_lt n 1
  unfold wadd modulus at *
  omega

/-- The loop of `sched_new_thread` leaves the counter of threads alone. -/
lemma appendThread_nextThreadId {thread scan : Ptr}
    (h : appendThread s thread fuel scan = some s') : s'.nextThreadId = s.nextThreadId := by
  induction fuel generalizing scan with
  | zero => cases h
  | succ fuel ih =>
    rw [appendThread] at h
    split_ifs at h with hscan hnext
    · rw [← Option.some.inj h]
    · exact ih h
    · rw [← Option.some.inj h]
      rfl

/-- A call of `sched_new_thread` takes a number from it. -/
lemma schedNewThread_nextThreadId {a : ThreadAlloc} {proc : Ptr} {name : List UInt8}
    {function : UInt64} (h : schedNewThread fuel s a proc name function = some s') :
    s'.nextThreadId = wadd s.nextThreadId 1 := by
  rw [schedNewThread] at h
  dsimp only at h
  obtain ⟨u, hlink, rfl⟩ := Option.map_eq_some_iff.mp h
  have hcount : u.nextThreadId = s.nextThreadId := by
    split_ifs at hlink
    · rw [← Option.some.inj hlink]
      rfl
    · have hkeep := appendThread_nextThreadId hlink
      exact hkeep
  rw [← hcount]

/-- A call in which an allocation returns `NULL` never fails cleanly: it takes a number for the
record that it has not got, or it returns a thread without a stack. -/
theorem creation_not_failure_atomic (s : Sched) (hfail : c.AllocFails) :
    ¬ ∃ r, c.run fuel s = some r ∧ FailedCleanly s r := by
  rintro ⟨r, hrun, hclean⟩
  cases c with
  | new a name =>
    obtain rfl := Option.some.inj hrun
    exact wadd_one_ne _ hclean.nextFreePid
  | newThread a proc name function =>
    obtain ⟨s', hcall, rfl⟩ := Option.map_eq_some_iff.mp hrun
    refine wadd_one_ne s.nextThreadId ?_
    rw [← schedNewThread_nextThreadId hcall]
    exact hclean.nextThreadId

/-- A thread that gets a record and no stack. -/
def stacklessCall : CreationCall :=
  .newThread ⟨0x6000, ⟨0, zeroFrame, .ready, [], 0, 0⟩, 0⟩ 0x1000 (cString "worker") 0xa000

/-- It is returned to the caller. -/
theorem stackless_not_clean :
    ¬ ∃ r, stacklessCall.run 2 bootSched = some r ∧ FailedCleanly bootSched r :=
  creation_not_failure_atomic bootSched (.inr rfl)

/-- A heap without a page. -/
def emptyHeap : Pmm := pmmInit (.boot fun _ => 0) []

/-- The heap without a page returns `NULL` for the record of a process and for a stack.  After
`sched_init`, the first failure cuts the idle process off the list, and the second one links a thread
with the stack pointer 4095. -/
theorem creation_not_atomic :
    pmmAlloc 1 emptyHeap 152 = some (0, emptyHeap) ∧
    pmmAlloc 1 emptyHeap 4096 = some (0, emptyHeap) ∧
    (∃ r, (CreationCall.new ⟨0, ⟨[], 0, 0, 0⟩⟩ (cString "Proc1")).run 2 bootSched = some r ∧
      (bootSched.procs 0x1000).next = 0x3000 ∧ (r.2.procs 0x1000).next = 0 ∧
      ¬ FailedCleanly bootSched r) ∧
    ∃ r, stacklessCall.run 2 bootSched = some r ∧ r.1 = 0x6000 ∧
      (r.2.threads 0x2000).next = 0x6000 ∧ (r.2.threads 0x6000).context.rsp = 4095 ∧
      ¬ FailedCleanly bootSched r := by
  refine ⟨rfl, rfl, ⟨_, rfl, rfl, rfl, fun h => ?_⟩, ⟨_, rfl, rfl, rfl, rfl, fun h => ?_⟩⟩
  · exact absurd h.nextFreePid (by decide)
  · exact absurd h.result (by decide)

/-! ### What a failed call does to the lists -/

/-- The call has returned `NULL` and left the lists and the records of the threads alone; only the
counters and the memory at `NULL` may have changed. -/
structure ListsKept (s : Sched) (r : Ptr × Sched) : Prop where
  result : r.1 = 0
  list : r.2.schedProcessesList = s.schedProcessesList
  next : ∀ p, p ≠ 0 → (r.2.procs p).next = (s.procs p).next
  heads : ∀ p, p ≠ 0 → (r.2.procs p).threads = (s.procs p).threads
  threads : ∀ t, t ≠ 0 → r.2.threads t = s.threads t

/-- The failure is harmless for the lists: a process is created behind the last one, or it is the
record of a thread that is missing and not its stack. -/
def CreationCall.Harmless (s : Sched) : CreationCall → Prop
  | .new _ _ => (s.procs s.schedCurrentProcess).next = 0
  | .newThread a _ _ _ => a.ptr = 0

/-- The loop that links `NULL` changes nothing. -/
lemma appendThread_null {scan : Ptr} (h : appendThread s 0 fuel scan = some s') : s' = s := by
  induction fuel generalizing scan with
  | zero => cases h
  | succ fuel ih =>
    rw [appendThread] at h
    split_ifs at h with hscan hnext
    · exact (Option.some.inj h).symm
    · exact ih h
    · have hself : { s.threads scan with next := 0 } = s.threads scan := by
        rw [← not_not.mp hnext]
      rw [hself] at h
      rw [← Option.some.inj h, Sched.setThread, Function.update_eq_self]

/-- A thread whose record is missing leaves the lists alone. -/
lemma listsKept_newThread_null {a : ThreadAlloc} {proc : Ptr} {name : List UInt8}
    {function : UInt64} (hnull : a.ptr = 0)
    (h : schedNewThread fuel s a proc name function = some s') : ListsKept s (a.ptr, s') := by
  obtain ⟨ptr, junk, stack⟩ := a
  obtain rfl : ptr = 0 := hnull
  rw [schedNewThread] at h
  dsimp only at h
  obtain ⟨u, hlink, rfl⟩ := Option.map_eq_some_iff.mp h
  split_ifs at hlink with hhead
  · obtain rfl := Option.some.inj hlink
    refine ⟨rfl, rfl, fun p _ => ?_, fun p _ => ?_, fun t ht => ?_⟩
    · by_cases hp : p = proc
      · subst hp
        simp
      · simp [hp]
    · by_cases hp : p = proc
      · subst hp
        simpa using hhead.symm
      · simp [hp]
    · simp [ht]
  · obtain rfl := appendThread_null hlink
    exact ⟨rfl, rfl, fun _ _ => rfl, fun _ _ => rfl, fun t ht => by simp [ht]⟩

/-- A process that is missing replaces the processes behind the current one by nothing. -/
lemma listsKept_new_null_iff {a : ProcessAlloc} (hnull : a.ptr = 0)
    (hcur : s.schedCurrentProcess ≠ 0) (name : List UInt8) :
    ListsKept s (a.ptr, schedNew s a name) ↔ (s.procs s.schedCurrentProcess).next = 0 := by
  constructor
  · intro hkept
    rw [← hkept.next _ hcur, schedNew_next, if_pos rfl, hnull]
  · intro hlast
    refine ⟨hnull, rfl, fun p hp => ?_, fun p hp => ?_, fun _ _ => rfl⟩
    · rw [schedNew_next, hnull]
      split_ifs with hpc
      · rw [hpc, hlast]
      · rfl
    · rw [schedNew_threads (by rw [hnull]; exact hcur.symm), hnull, if_neg hp]

/-- The lists survive a failed call if and only if it is harmless. -/
theorem listsKept_iff (hcur : s.schedCurrentProcess ≠ 0) (hfail : c.AllocFails) {r : Ptr × Sched}
    (hrun : c.run fuel s = some r) : ListsKept s r ↔ c.Harmless s := by
  cases c with
  | new a name =>
    obtain rfl := Option.some.inj hrun
    exact listsKept_new_null_iff hfail hcur name
  | newThread a proc name function =>
    obtain ⟨s', hcall, rfl⟩ := Option.map_eq_some_iff.mp hrun
    exact ⟨fun hkept => hkept.result, fun hnull => listsKept_newThread_null hnull hcall⟩

/-! ### Stale memory -/

/-- Two calls that differ only in what the memory of the new record held before. -/
inductive SameCall : CreationCall → CreationCall → Prop
  | new (ptr : Ptr) (junk₁ junk₂ : SchedProcess) (name : List UInt8) :
      SameCall (.new ⟨ptr, junk₁⟩ name) (.new ⟨ptr, junk₂⟩ name)
  | newThread (ptr stack : Ptr) (junk₁ junk₂ : SchedThread) (proc : Ptr) (name : List UInt8)
      (function : UInt64) :
      SameCall (.newThread ⟨ptr, junk₁, stack⟩ proc name function)
        (.newThread ⟨ptr, junk₂, stack⟩ proc name function)

/-- The name in a call. -/
def CreationCall.name : CreationCall → List UInt8
  | .new _ name => name
  | .newThread _ _ name _ => name

/-- The record of a new thread is not in the list of its process. -/
def CreationCall.Fresh (s : Sched) : CreationCall → Prop
  | .new _ _ => True
  | .newThread a proc _ _ => ∃ xs, Chain (threadNext s) (s.procs proc).threads xs ∧ a.ptr ∉ xs

/-- The name fields hold the same text, and its `NUL` lies inside both. -/
def NamesAgree (name₁ name₂ : List UInt8) : Prop :=
  ∃ text, cText name₁ = some text ∧ cText name₂ = some text

/-- The records agree on what is read later. -/
structure ProcessesAgree (r₁ r₂ : SchedProcess) : Prop where
  name : NamesAgree r₁.name r₂.name
  pid : r₁.pid = r₂.pid
  threads : r₁.threads = r₂.threads
  next : r₁.next = r₂.next

/-- The same for threads. -/
structure ThreadsAgree (r₁ r₂ : SchedThread) : Prop where
  context : r₁.context = r₂.context
  status : r₁.status = r₂.status
  name : NamesAgree r₁.name r₂.name
  tid : r₁.tid = r₂.tid
  parent : r₁.parent = r₂.parent
  next : r₁.next = r₂.next

/-- The records that two calls have made agree. -/
def RecordsAgree (r₁ r₂ : Ptr × Sched) : CreationCall → Prop
  | .new _ _ => ProcessesAgree (r₁.2.procs r₁.1) (r₂.2.procs r₂.1)
  | .newThread _ _ _ _ => ThreadsAgree (r₁.2.threads r₁.1) (r₂.2.threads r₂.1)

/-- The words of a context that `sched_new_thread` does not assign. -/
def staleWords (c : Stackframe) : List UInt64 :=
  [c.r15, c.r14, c.r13, c.r12, c.r11, c.r10, c.r9, c.r8, c.rdi, c.rsi, c.rdx, c.rcx, c.rbx, c.rax,
    c.vector, c.err]

/-- The name is copied with its `NUL`, or the memory behind the first 100 bytes of the two name fields
happens to hold the same text. -/
def NameSettled (name stale₁ stale₂ : List UInt8) : Prop :=
  strlen name ≤ 100 ∨ NamesAgree (stale₁.drop 100) (stale₂.drop 100)

/-- What the memory must have in common for the records to agree. -/
def StaleAgree : CreationCall → CreationCall → Prop
  | .new a₁ name, .new a₂ _ => NameSettled name a₁.junk.name a₂.junk.name
  | .newThread a₁ _ name _, .newThread a₂ _ _ _ =>
    staleWords a₁.junk.context = staleWords a₂.junk.context ∧
      NameSettled name a₁.junk.name a₂.junk.name
  | _, _ => True

section Names

variable {field stale₁ stale₂ name text rest : List UInt8}

/-- A name with fewer than 100 bytes before its `NUL` is copied whole. -/
lemma cText_copyName_short (htext : 0 ∉ text) (hlen : text.length < 100) :
    cText (copyName field (text ++ 0 :: rest)) = some text := by
  have hcount : (if strlen (text ++ 0 :: rest) ≥ 100 then 100 else strlen (text ++ 0 :: rest)) =
      text.length + 1 := by
    rw [strlen_append_nul htext]
    split_ifs <;> omega
  have htake : (text ++ 0 :: rest).take (text.length + 1) = text ++ [0] := by
    rw [List.take_length_add_append]
    rfl
  rw [copyName, hcount, copyBytes, htake, List.append_assoc]
  exact cText_append_nul htext

/-- Of a longer name the first 100 bytes are copied, and what follows is the old contents. -/
lemma cText_copyName_long (htext : 0 ∉ text) (hlen : 100 ≤ text.length) :
    cText (copyName field (text ++ 0 :: rest)) =
      (cText (field.drop 100)).map (text.take 100 ++ ·) := by
  have hcount : strlen (text ++ 0 :: rest) ≥ 100 := by
    rw [strlen_append_nul htext]
    omega
  have hprefix : 0 ∉ text.take 100 := fun hmem => htext (List.mem_of_mem_take hmem)
  rw [copyName, if_pos hcount, copyBytes, List.take_append_of_le_length hlen]
  exact cText_append hprefix

/-- The names in two records agree if and only if the name is settled. -/
lemma namesAgree_copyName_iff (hname : 0 ∈ name) :
    NamesAgree (copyName stale₁ name) (copyName stale₂ name) ↔ NameSettled name stale₁ stale₂ := by
  obtain ⟨text, rest, rfl, htext⟩ := List.eq_append_cons_of_mem hname
  rw [NameSettled, strlen_append_nul htext]
  by_cases hlen : text.length < 100
  · refine iff_of_true ⟨text, ?_, ?_⟩ (.inl (by omega))
    · exact cText_copyName_short htext hlen
    · exact cText_copyName_short htext hlen
  · have hinj : Function.Injective (text.take 100 ++ ·) := List.append_right_injective _
    rw [NamesAgree, cText_copyName_long htext (not_lt.mp hlen),
      cText_copyName_long htext (not_lt.mp hlen)]
    constructor
    · rintro ⟨u, h₁, h₂⟩
      obtain ⟨v, hv, rfl⟩ := Option.map_eq_some_iff.mp h₁
      obtain ⟨w, hw, heq⟩ := Option.map_eq_some_iff.mp h₂
      exact .inr ⟨v, hv, (hinj heq) ▸ hw⟩
    · rintro (hshort | ⟨v, hv, hw⟩)
      · omega
      · exact ⟨_, by rw [hv]; rfl, by rw [hw]; rfl⟩

end Names

/-- The record that `sched_new` makes. -/
lemma schedNew_record (s : Sched) (a : ProcessAlloc) (name : List UInt8) :
    (schedNew s a name).procs a.ptr =
      { name := copyName a.junk.name name
        pid := toInt32 s.nextFreePid
        threads := 0
        next := if a.ptr = s.schedCurrentProcess then a.ptr else 0 } := by
  by_cases hcur : a.ptr = s.schedCurrentProcess
  · simp [schedNew, ← hcur]
  · simp [schedNew, hcur]

/-- The record that `sched_new_thread` makes. -/
lemma schedNewThread_record {a : ThreadAlloc} {proc : Ptr} {xs : List Ptr} {name : List UInt8}
    {function : UInt64} (hchain : Chain (threadNext s) (s.procs proc).threads xs)
    (hfresh : a.ptr ∉ xs) (h : schedNewThread fuel s a proc name function = some s') :
    s'.threads a.ptr =
      { tid := s.nextThreadId
        context := newContext a.junk.context a.stack function
        status := .ready
        name := copyName a.junk.name name
        parent := proc
        next := 0 } := by
  obtain ⟨u, hlink, rfl⟩ := schedNewThread_cases hchain hfresh h
  -- the link leaves the record as its memory was
  have hlinked : u.threads a.ptr = a.junk ∧ u.nextThreadId = s.nextThreadId := by
    cases hlink with
    | first => exact ⟨Function.update_self _ _ _, rfl⟩
    | behind xs last =>
      have hne : a.ptr ≠ last := by
        rintro rfl
        simp at hfresh
      refine ⟨(Function.update_of_ne hne _ _).trans (Function.update_self _ _ _), rfl⟩
  simp [hlinked.1, hlinked.2]

/-- The contexts of two new threads agree if and only if the words that are not assigned do. -/
lemma newContext_eq_iff {c₁ c₂ : Stackframe} {stack : Ptr} {function : UInt64} :
    newContext c₁ stack function = newContext c₂ stack function ↔ staleWords c₁ = staleWords c₂ := by
  simp [newContext, staleWords, Stackframe.mk.injEq]

/-- Two calls of `sched_new` or `sched_new_thread` from states that differ only in what the memory
of the new record holds make records that agree if and only if the words of the context that are
not assigned agree already, and the name is copied with its `NUL` or the rest of the name field
agrees already. -/
theorem newRecord_agree_iff (hsame : SameCall c₁ c₂) (hname : 0 ∈ c₁.name) (hfresh : c₁.Fresh s)
    {r₁ r₂ : Ptr × Sched} (h₁ : c₁.run fuel s = some r₁) (h₂ : c₂.run fuel s = some r₂) :
    RecordsAgree r₁ r₂ c₁ ↔ StaleAgree c₁ c₂ := by
  cases hsame with
  | new ptr junk₁ junk₂ name =>
    obtain rfl := Option.some.inj h₁
    obtain rfl := Option.some.inj h₂
    have hname : 0 ∈ name := hname
    have hrec₁ := schedNew_record s ⟨ptr, junk₁⟩ name
    have hrec₂ := schedNew_record s ⟨ptr, junk₂⟩ name
    rw [RecordsAgree, StaleAgree, ← namesAgree_copyName_iff hname]
    dsimp only at hrec₁ hrec₂ ⊢
    rw [hrec₁, hrec₂]
    exact ⟨fun h => h.name, fun h => ⟨h, rfl, rfl, rfl⟩⟩
  | newThread ptr stack junk₁ junk₂ proc name function =>
    obtain ⟨s₁, hcall₁, rfl⟩ := Option.map_eq_some_iff.mp h₁
    obtain ⟨s₂, hcall₂, rfl⟩ := Option.map_eq_some_iff.mp h₂
    obtain ⟨xs, hchain, hout⟩ := hfresh
    have hname : 0 ∈ name := hname
    have hrec₁ := schedNewThread_record (a := ⟨ptr, junk₁, stack⟩) hchain hout hcall₁
    have hrec₂ := schedNewThread_record (a := ⟨ptr, junk₂, stack⟩) hchain hout hcall₂
    rw [RecordsAgree, StaleAgree, ← namesAgree_copyName_iff hname, ← newContext_eq_iff]
    dsimp only at hrec₁ hrec₂ ⊢
    rw [hrec₁, hrec₂]
    exact ⟨fun h => ⟨h.context, h.name⟩, fun h => ⟨h.1, rfl, h.2, rfl, rfl, rfl⟩⟩

/-- A call of `sched_new_thread` for the kernel's process, when the record's memory holds this
context and this name field. -/
def recordCall (context : Stackframe) (name : List UInt8) : CreationCall :=
  .newThread ⟨0x6000, ⟨0, context, .ready, name, 0, 0⟩, 0x7000⟩ 0x1000 [0x77, 0] 0xa000

/-- Stale values of `rip` and a stale name do not matter. -/
theorem newRecord_agree_boot : ∃ r₁ r₂,
    (recordCall zeroFrame []).run 2 bootSched = some r₁ ∧
      (recordCall { zeroFrame with rip := 0xbad } (List.replicate 128 0x42)).run 2 bootSched = some r₂ ∧
      RecordsAgree r₁ r₂ (recordCall zeroFrame []) := by
  have hfresh : (recordCall zeroFrame []).Fresh bootSched :=
    ⟨[0x2000], ⟨rfl, by decide, rfl⟩, by decide⟩
  obtain ⟨r₁, h₁⟩ : ∃ r₁, (recordCall zeroFrame []).run 2 bootSched = some r₁ := ⟨_, rfl⟩
  obtain ⟨r₂, h₂⟩ : ∃ r₂, (recordCall { zeroFrame with rip := 0xbad } (List.replicate 128 0x42)).run
      2 bootSched = some r₂ := ⟨_, rfl⟩
  exact ⟨r₁, r₂, h₁, h₂, (newRecord_agree_iff (.newThread ..) (by decide) hfresh h₁ h₂).mpr
    ⟨rfl, .inl (by decide)⟩⟩

/-- A call of `sched_new` with a name of 100 bytes and a `NUL`, when the record's memory holds this
name field. -/
def longNameCall (name : List UInt8) : CreationCall :=
  .new ⟨0x6000, ⟨name, 0, 0, 0⟩⟩ (List.replicate 100 0x61 ++ [0])

/-- A stale vector goes into the context of a new thread, and the name of 100 bytes has no `NUL` when
the memory has none. -/
theorem newRecord_not_agree :
    (∃ r₁ r₂, (recordCall zeroFrame []).run 2 bootSched = some r₁ ∧
      (recordCall { zeroFrame with vector := 72 } []).run 2 bootSched = some r₂ ∧
      ¬ RecordsAgree r₁ r₂ (recordCall zeroFrame [])) ∧
    ∃ r₁ r₂, (longNameCall (List.replicate 128 0)).run 2 bootSched = some r₁ ∧
      (longNameCall (List.replicate 128 0x42)).run 2 bootSched = some r₂ ∧
      ¬ RecordsAgree r₁ r₂ (longNameCall (List.replicate 128 0)) := by
  refine ⟨⟨_, _, rfl, rfl, fun h => ?_⟩, ⟨_, _, rfl, rfl, fun h => ?_⟩⟩
  · exact absurd (congrArg Stackframe.vector h.context) (by decide)
  · have hname : NamesAgree
        (copyName (List.replicate 128 0) (List.replicate 100 0x61 ++ [0]))
        (copyName (List.replicate 128 0x42) (List.replicate 100 0x61 ++ [0])) := h.name
    rcases (namesAgree_copyName_iff (by simp)).mp hname with hshort | ⟨text, -, hstale⟩
    · rw [strlen_append_nul (by decide)] at hshort
      exact absurd hshort (by decide)
    · exact absurd (hstale.symm.trans (show cText (List.replicate 28 0x42) = none from rfl))
        (Option.some_ne_none text)

end Soaplin
