import Soaplin.Foundation.ByteMemory

/-!
# The system call table

The model of `core/syscall/syscalls.c`.  The array `syscalls[]` is a range of memory and a
registration is a store at the address that the signed number selects, in the table or not: both
tests of `syscall_set` only log.  The console output of `logln` is kept as the list of the messages;
the `bool` result, which no path of `syscall_set` sets and no caller reads, is left out.

`RegistrationsPermanent` says that every slot keeps the first function registered for it and that
the other calls have no effect; `registrationsPermanent_iff` says for which sequences of calls this
is so.
-/

namespace Soaplin

open ByteMemory Word64

/-- `SYSCALL_MAX_SLOTS`. -/
def syscallMaxSlots : ℕ := 512

/-- A non-null `syscall_func`. -/
structure SyscallFunc where
  addr : ℕ
  ne_zero : addr ≠ 0
  lt : addr < modulus

/-- The link-time addresses: of the array `syscalls`, which is aligned and lies inside the address
space, and of the two default system calls. -/
structure SyscallImage where
  syscalls : ℕ
  aligned : syscalls % 8 = 0
  fits : syscalls + 8 * syscallMaxSlots ≤ modulus
  syscallWrite : SyscallFunc
  syscallGetpid : SyscallFunc

/-- The arguments of a call of `syscall_set`. -/
structure Registration where
  syscallnum : Int32
  f : SyscallFunc

/-- The messages that `syscall_set` logs. -/
inductive SyscallMessage
  | tooBig
  | alreadySet
deriving DecidableEq

/-- The format string of a message; its argument is `SYSCALL_MAX_SLOTS`. -/
def SyscallMessage.text : SyscallMessage → String
  | .tooBig => "\"syscallnum\" is too big! Ensure it's below %d\n"
  | .alreadySet => "Cannot replace already set syscalls.\n"

/-- The address of `syscalls[num]`, for any `num`. -/
def SyscallImage.slot (d : SyscallImage) (num : ℤ) : ℕ :=
  (((d.syscalls : ℤ) + 8 * num) % 2 ^ 64).toNat

/-- `syscall_set`: the messages and the new memory. -/
def syscallSet (d : SyscallImage) (m : Memory) (r : Registration) : List SyscallMessage × Memory :=
  let log := if (syscallMaxSlots : ℤ) ≤ r.syscallnum.toInt then [SyscallMessage.tooBig] else []
  let log :=
    if load64 m (d.slot r.syscallnum.toInt) ≠ 0 then log ++ [SyscallMessage.alreadySet] else log
  (log, store64 m (d.slot r.syscallnum.toInt) r.f.addr)

/-- The loop of `syscall_init` that clears the first `i` slots. -/
def clearSlots (d : SyscallImage) (m : Memory) : ℕ → Memory
  | 0 => m
  | i + 1 => store64 (clearSlots d m i) (d.slot i) 0

/-- The registrations that `syscall_init` makes. -/
def SyscallImage.defaults (d : SyscallImage) : List Registration :=
  [⟨1, d.syscallWrite⟩, ⟨2, d.syscallGetpid⟩]

/-- The memory after a sequence of calls of `syscall_set`. -/
def syscallSetAll (d : SyscallImage) (m : Memory) (calls : List Registration) : Memory :=
  calls.foldl (fun m r => (syscallSet d m r).2) m

/-- `syscall_init`. -/
def syscallInit (d : SyscallImage) (m : Memory) : Memory :=
  syscallSetAll d (clearSlots d m syscallMaxSlots) d.defaults

variable {d : SyscallImage} {m : Memory} {r : Registration} {calls pre : List Registration}

/-! ### The table -/

/-- Different `int`s select different words of memory. -/
lemma SyscallImage.slot_apart {x y : ℤ} (hne : x ≠ y) (hx : -2 ^ 31 ≤ x ∧ x < 2 ^ 31)
    (hy : -2 ^ 31 ≤ y ∧ y < 2 ^ 31) : d.slot x + 8 ≤ d.slot y ∨ d.slot y + 8 ≤ d.slot x := by
  have hal := d.aligned
  simp only [slot]
  omega

/-- A slot after a registration. -/
lemma load64_syscallSet {i : ℕ} (hi : i < syscallMaxSlots) :
    load64 (syscallSet d m r).2 (d.slot i) =
      if r.syscallnum.toInt = i then r.f.addr else load64 m (d.slot i) := by
  have hmax : syscallMaxSlots = 512 := rfl
  rw [syscallSet]
  dsimp only
  split_ifs with heq
  · rw [heq]
    exact load64_store64_same r.f.lt
  · refine load64_store64_of_disjoint ?_
    exact d.slot_apart (Ne.symm heq) (by omega) ⟨r.syscallnum.le_toInt, r.syscallnum.toInt_lt⟩

/-- The cleared slots hold the null pointer. -/
lemma load64_clearSlots {i n : ℕ} (hi : i < n) (hn : n ≤ syscallMaxSlots) :
    load64 (clearSlots d m n) (d.slot i) = 0 := by
  have hmax : syscallMaxSlots = 512 := rfl
  induction n with
  | zero => omega
  | succ n ih =>
    rw [clearSlots]
    by_cases heq : i = n
    · rw [heq]
      exact load64_store64_same (by norm_num)
    · have hap := d.slot_apart (x := i) (y := n) (by omega) (by omega) (by omega)
      rw [load64_store64_of_disjoint hap]
      exact ih (by omega) (by omega)

/-! ### Permanent registrations -/

/-- The first function that `calls` register for slot `i`, or the null pointer. -/
def firstFunction (calls : List Registration) (i : ℕ) : ℕ :=
  match calls with
  | [] => 0
  | r :: rest => if r.syscallnum.toInt = i then r.f.addr else firstFunction rest i

/-- The first function that is registered for slot `i`, by `syscall_init` or by `calls`. -/
def firstRegistered (d : SyscallImage) (calls : List Registration) (i : ℕ) : ℕ :=
  firstFunction (d.defaults ++ calls) i

/-- The number of the call is a slot of the table. -/
def Registration.InTable (r : Registration) : Prop :=
  0 ≤ r.syscallnum.toInt ∧ r.syscallnum.toInt < syscallMaxSlots

/-- A call that must not have an effect: its number is out of range or taken. -/
def Registration.Rejected (d : SyscallImage) (m : Memory) (r : Registration) : Prop :=
  ¬ r.InTable ∨ load64 m (d.slot r.syscallnum.toInt) ≠ 0

/-- The memory after `syscall_init` and the calls `pre`. -/
def syscallRun (d : SyscallImage) (m : Memory) (pre : List Registration) : Memory :=
  syscallSetAll d (syscallInit d m) pre

/-- One more registration. -/
lemma syscallRun_concat :
    syscallRun d m (pre ++ [r]) = (syscallSet d (syscallRun d m pre) r).2 := by
  rw [syscallRun, syscallSetAll, List.foldl_append]
  rfl

/-- At every point of the calls after `syscall_init`, each slot holds the first function registered
for it, a slot that is set does not change any more, and a rejected call changes no memory at all.
-/
structure RegistrationsPermanent (d : SyscallImage) (m : Memory) (calls : List Registration) :
    Prop where
  first : ∀ pre, pre <+: calls → ∀ i < syscallMaxSlots,
    load64 (syscallRun d m pre) (d.slot i) = firstRegistered d pre i
  stays : ∀ pre post, pre ++ post <+: calls → ∀ i < syscallMaxSlots,
    load64 (syscallRun d m pre) (d.slot i) ≠ 0 →
      load64 (syscallRun d m (pre ++ post)) (d.slot i) = load64 (syscallRun d m pre) (d.slot i)
  rejected : ∀ pre r, pre ++ [r] <+: calls → r.Rejected d (syscallRun d m pre) →
    syscallRun d m (pre ++ [r]) = syscallRun d m pre

/-- The call sets a free slot of the table, or stores what is there already. -/
def Registration.Harmless (d : SyscallImage) (m : Memory) (r : Registration) : Prop :=
  (r.InTable ∧ load64 m (d.slot r.syscallnum.toInt) = 0) ∨
    load64 m (d.slot r.syscallnum.toInt) = r.f.addr

/-- A later call counts for a slot only if no earlier one does. -/
lemma firstFunction_append {post : List Registration} {i : ℕ} :
    firstFunction (pre ++ post) i =
      if firstFunction pre i ≠ 0 then firstFunction pre i else firstFunction post i := by
  induction pre with
  | nil => simp [firstFunction]
  | cons q pre ih =>
    rw [List.cons_append, firstFunction, firstFunction]
    by_cases heq : q.syscallnum.toInt = i
    · simp [heq, q.f.ne_zero]
    · rw [if_neg heq, if_neg heq, ih]

/-- The slots that are registered keep their function. -/
lemma firstRegistered_append {post : List Registration} {i : ℕ} :
    firstRegistered d (pre ++ post) i =
      if firstRegistered d pre i ≠ 0 then firstRegistered d pre i else firstFunction post i := by
  rw [firstRegistered, ← List.append_assoc, firstFunction_append]
  rfl

/-- What one more call registers. -/
lemma firstRegistered_concat {i : ℕ} :
    firstRegistered d (pre ++ [r]) i =
      if firstRegistered d pre i ≠ 0 then firstRegistered d pre i
      else if r.syscallnum.toInt = i then r.f.addr else 0 := by
  rw [firstRegistered_append]
  rfl

/-- A harmless call adds its function to a free slot and leaves the other slots alone. -/
lemma Registration.Harmless.load64_syscallSet {i : ℕ} (h : r.Harmless d m)
    (hi : i < syscallMaxSlots) :
    load64 (syscallSet d m r).2 (d.slot i) =
      if load64 m (d.slot i) ≠ 0 then load64 m (d.slot i)
      else if r.syscallnum.toInt = i then r.f.addr else 0 := by
  rw [Soaplin.load64_syscallSet hi]
  by_cases heq : r.syscallnum.toInt = i
  · rw [Harmless, heq] at h
    rcases h with ⟨-, hempty⟩ | hsame
    · simp [heq, hempty]
    · simp [heq, hsame, r.f.ne_zero]
  · by_cases hset : load64 m (d.slot i) = 0 <;> simp [heq, hset]

/-- A harmless call that is rejected changes nothing. -/
lemma Registration.Harmless.syscallSet_eq (h : r.Harmless d m) (hrej : r.Rejected d m) :
    (syscallSet d m r).2 = m := by
  rcases h with ⟨hin, hempty⟩ | hsame
  · rcases hrej with hout | htaken
    · exact absurd hin hout
    · exact absurd hempty htaken
  · rw [syscallSet, ← hsame]
    exact store64_load64_self m _

/-- A call that is not harmless is rejected, and changes memory nevertheless. -/
lemma Registration.rejected_of_not_harmless (h : ¬ r.Harmless d m) :
    r.Rejected d m ∧ (syscallSet d m r).2 ≠ m := by
  obtain ⟨hnot, hne⟩ := not_or.mp h
  refine ⟨?_, fun heq => hne ?_⟩
  · by_cases hin : r.InTable
    · exact Or.inr fun hempty => hnot ⟨hin, hempty⟩
    · exact Or.inl hin
  · rw [← heq]
    exact load64_store64_same r.f.lt

/-- If the registrations are permanent, every call is harmless. -/
lemma RegistrationsPermanent.harmless (h : RegistrationsPermanent d m calls)
    (hpre : pre ++ [r] <+: calls) : r.Harmless d (syscallRun d m pre) := by
  by_contra hcon
  obtain ⟨hrej, hne⟩ := r.rejected_of_not_harmless hcon
  apply hne
  have hsame := h.rejected pre r hpre hrej
  rwa [syscallRun_concat] at hsame

/-- The table right after `syscall_init`. -/
lemma load64_syscallRun_nil {i : ℕ} (hi : i < syscallMaxSlots) :
    load64 (syscallRun d m []) (d.slot i) = firstRegistered d [] i := by
  have hclear : load64 (clearSlots d m syscallMaxSlots) (d.slot i) = 0 :=
    load64_clearSlots hi le_rfl
  have hrun : syscallRun d m [] = (syscallSet d (syscallSet d (clearSlots d m syscallMaxSlots)
      ⟨1, d.syscallWrite⟩).2 ⟨2, d.syscallGetpid⟩).2 := rfl
  have h₁ : (1 : Int32).toInt = 1 := rfl
  have h₂ : (2 : Int32).toInt = 2 := rfl
  have hfirst : firstRegistered d [] i = if (1 : Int32).toInt = i then d.syscallWrite.addr else
      if (2 : Int32).toInt = i then d.syscallGetpid.addr else 0 := rfl
  rw [hrun, load64_syscallSet hi, load64_syscallSet hi, hclear, hfirst, h₁, h₂]
  by_cases hone : (1 : ℤ) = i
  · rw [if_neg (by omega), if_pos hone, if_pos hone]
  · rw [if_neg hone, if_neg hone]

/-- After harmless calls every slot holds the first function registered for it. -/
lemma load64_syscallRun {i : ℕ} (hi : i < syscallMaxSlots)
    (hcalls : ∀ pre r, pre ++ [r] <+: calls → r.Harmless d (syscallRun d m pre)) :
    load64 (syscallRun d m calls) (d.slot i) = firstRegistered d calls i := by
  induction calls using List.reverseRecOn with
  | nil => exact load64_syscallRun_nil hi
  | append_singleton calls r ih =>
    have hr := hcalls calls r List.prefix_rfl
    have hrun := ih fun pre q hpre => hcalls pre q (hpre.trans (List.prefix_append _ _))
    rw [syscallRun_concat, hr.load64_syscallSet hi, firstRegistered_concat, ← hrun]

/-- The registrations of a sequence of calls after `syscall_init` are permanent if and only if every
call of it is harmless when it is made. -/
theorem registrationsPermanent_iff (d : SyscallImage) (m : Memory) (calls : List Registration) :
    RegistrationsPermanent d m calls ↔
      ∀ pre r, pre ++ [r] <+: calls → r.Harmless d (syscallRun d m pre) := by
  constructor
  · intro h pre r hpre
    exact h.harmless hpre
  · intro h
    have hfirst : ∀ pre, pre <+: calls → ∀ i < syscallMaxSlots,
        load64 (syscallRun d m pre) (d.slot i) = firstRegistered d pre i := by
      intro pre hpre i hi
      exact load64_syscallRun hi fun pre' r hpre' => h pre' r (hpre'.trans hpre)
    refine ⟨hfirst, ?_, ?_⟩
    · intro pre post hpre i hi hset
      rw [hfirst pre ((List.prefix_append _ _).trans hpre) i hi] at hset ⊢
      rw [hfirst _ hpre i hi, firstRegistered_append, if_pos hset]
    · intro pre r hpre hrej
      rw [syscallRun_concat]
      exact (h pre r hpre).syscallSet_eq hrej

/-- A kernel image with the table at `0x1000`. -/
def exampleImage : SyscallImage :=
  ⟨0x1000, by decide, by decide, ⟨0x100, by decide, by decide⟩, ⟨0x200, by decide, by decide⟩⟩

/-- A second registration for slot 1 replaces `syscall_write`. -/
theorem default_syscall_replaced :
    ¬ RegistrationsPermanent exampleImage (fun _ => 0) [⟨1, ⟨0x300, by decide, by decide⟩⟩] := by
  intro h
  have hslot : load64 (syscallRun exampleImage (fun _ => 0) []) (exampleImage.slot (1 : ℤ)) = 0x100 :=
    @load64_syscallRun_nil exampleImage _ 1 (by decide)
  have hnum : (1 : Int32).toInt = 1 := rfl
  have hharmless : Registration.Harmless exampleImage (syscallRun exampleImage (fun _ => 0) [])
      ⟨1, ⟨0x300, by decide, by decide⟩⟩ := h.harmless List.prefix_rfl
  rw [Registration.Harmless, hnum, hslot] at hharmless
  rcases hharmless with ⟨-, hempty⟩ | hsame
  · exact absurd hempty (by decide)
  · exact absurd hsame (by decide)

end Soaplin
