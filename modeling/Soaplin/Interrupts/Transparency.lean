import Soaplin.Interrupts.Stub

/-!
# Transparency of interrupts

Which interrupts hand the interrupted registers to `interrupt_handler` and give them back?  The stub
of a vector fits the frame that the CPU has pushed if it assumes an error code exactly where there
is one; otherwise every field behind `vector` is off by one word.  `interrupt_transparent_iff` says
for which vectors the five pieces agree.
-/

namespace Soaplin

open ByteMemory Word64

variable {s : StubState} {m : Memory} {base : UInt64} {v i j k : ℕ}

/-! ### Words on the stack -/

/-- The address of a word, as a number. -/
lemma toNat_wordAddr (hj : j < 2 ^ 60) :
    (base + 8 * UInt64.ofNat j).toNat = (base.toNat + 8 * j) % 2 ^ 64 := by
  have hj' : (UInt64.ofNat j).toNat = j := UInt64.toNat_ofNat_of_lt' (by simp [UInt64.size]; omega)
  rw [UInt64.toNat_add, UInt64.toNat_mul, hj']
  have h8 : (8 : UInt64).toNat = 8 := rfl
  rw [h8]
  omega

/-- Reading a word after a write of a word. -/
lemma wordAt_storeWord (hj : j < 2 ^ 60) (hk : k < 2 ^ 60) (w : UInt64) :
    wordAt (storeWord m (base + 8 * .ofNat k).toNat w) base j =
      if j = k then w else wordAt m base j := by
  by_cases hjk : j = k
  · subst hjk
    rw [if_pos rfl, wordAt, loadWord_storeWord_same]
  · rw [if_neg hjk, wordAt, wordAt]
    apply loadWord_storeWord_of_disjoint
    rw [toNat_wordAddr hj, toNat_wordAddr hk]
    omega

/-- The address of the next word. -/
lemma wordAddr_succ (base : UInt64) (k : ℕ) :
    base + 8 * UInt64.ofNat (k + 1) - 8 = base + 8 * UInt64.ofNat k := by
  have hone : UInt64.ofNat 1 = 1 := rfl
  rw [UInt64.ofNat_add, hone, UInt64.mul_add, UInt64.mul_one, ← UInt64.add_assoc,
    UInt64.add_sub_cancel]

/-- Pushing words down to `base` leaves the first word pushed highest, and the other registers
alone. -/
theorem pushWords_spec {ws : List UInt64} (hlen : ws.length < 2 ^ 60)
    (hrsp : s.cpu.rsp = base + 8 * .ofNat ws.length) :
    (pushWords s ws).cpu = { s.cpu with rsp := base } ∧
      ∀ j < 2 ^ 60, wordAt (pushWords s ws).mem base j =
        if j < ws.length then ws.reverse.getD j 0 else wordAt s.mem base j := by
  induction ws generalizing s with
  | nil =>
    have hbase : s.cpu.rsp = base := by
      rw [hrsp]
      simp
    refine ⟨?_, fun j _ => by simp [pushWords]⟩
    rw [← hbase]
    rfl
  | cons w ws ih =>
    rw [List.length_cons] at hlen hrsp
    have hnext : (pushWord s w).cpu.rsp = base + 8 * .ofNat ws.length := by
      change s.cpu.rsp - 8 = _
      rw [hrsp, wordAddr_succ]
    obtain ⟨hcpu, hword⟩ := ih (s := pushWord s w) (by omega) hnext
    refine ⟨hcpu, fun j hj => ?_⟩
    change wordAt (pushWords (pushWord s w) ws).mem base j = _
    have hmem : (pushWord s w).mem = storeWord s.mem (base + 8 * .ofNat ws.length).toNat w := by
      change storeWord s.mem (s.cpu.rsp - 8).toNat w = _
      rw [hrsp, wordAddr_succ]
    rw [hword j hj, hmem, wordAt_storeWord hj (by omega), List.reverse_cons, List.length_cons]
    rcases Nat.lt_trichotomy j ws.length with hlt | heq | hgt
    · rw [if_pos hlt, if_pos (by omega), List.getD_eq_getElem?_getD, List.getD_eq_getElem?_getD,
        List.getElem?_append_left (by simpa using hlt)]
    · subst heq
      simp
    · rw [if_neg (by omega), if_neg (by omega), if_neg (by omega)]

/-! ### The way into the handler -/

/-- All words that are on the stack when the handler is called, the first one pushed first. -/
def entryWords (v : ℕ) (err : UInt64) (c : Cpu) : List UInt64 :=
  cpuWords v err c ++ (if v ∈ errStubVectors then [] else [0]) ++
    .ofNat v :: pushAll.map fun r => c.gpr r.index

variable {c : Cpu} {err rsp : UInt64}

lemma runInstrs_cons (i : StubInstr) (is : List StubInstr) (s : StubState) :
    runInstrs (i :: is) s = runInstrs is (i.exec s) := rfl

lemma pushWords_cons (w : UInt64) (ws : List UInt64) (s : StubState) :
    pushWords s (w :: ws) = pushWords (pushWord s w) ws := rfl

lemma pushWord_gpr (s : StubState) (w : UInt64) : (pushWord s w).cpu.gpr = s.cpu.gpr := rfl

/-- Two pieces of code in a row. -/
lemma runInstrs_append (is js : List StubInstr) (s : StubState) :
    runInstrs (is ++ js) s = runInstrs js (runInstrs is s) := List.foldl_append

/-- Two lists of words pushed in a row. -/
lemma pushWords_append (ws ws' : List UInt64) (s : StubState) :
    pushWords s (ws ++ ws') = pushWords (pushWords s ws) ws' := List.foldl_append

/-- Pushing registers pushes the words in them. -/
lemma runInstrs_push (rs : List Gpr) (s : StubState) :
    runInstrs (rs.map .push) s = pushWords s (rs.map fun r => s.cpu.gpr r.index) := by
  induction rs generalizing s with
  | nil => rfl
  | cons r rs ih => exact ih (pushWord s (s.cpu.gpr r.index))

/-- The instructions of a stub before the call push their words and point `rdi` to them. -/
lemma runInstrs_entry (v : ℕ) (s : StubState) :
    runInstrs (isrStub v).entry s =
      StubInstr.exec (pushWords s ((if v ∈ errStubVectors then [] else [0]) ++
        .ofNat v :: pushAll.map fun r => s.cpu.gpr r.index)) .movRdiRsp := by
  have hpush : ∀ s, runInstrs (pushAll.map .push ++ [.movRdiRsp]) s =
      StubInstr.exec (pushWords s (pushAll.map fun r => s.cpu.gpr r.index)) .movRdiRsp := fun s => by
    rw [runInstrs_append, runInstrs_push, runInstrs, List.foldl_cons, List.foldl_nil]
  by_cases hv : v ∈ errStubVectors
  · rw [isrStub, if_pos hv, if_pos hv, List.nil_append, isrErrStub, runInstrs_cons,
      StubInstr.exec, hpush, pushWords_cons, pushWord_gpr]
  · rw [isrStub, if_neg hv, if_neg hv, List.singleton_append, isrNoErrStub, runInstrs_cons,
      StubInstr.exec, runInstrs_cons, StubInstr.exec, hpush, pushWords_cons, pushWords_cons,
      pushWord_gpr, pushWord_gpr]

/-- Pushing words does not change the general registers. -/
lemma pushWords_gpr (s : StubState) (ws : List UInt64) : (pushWords s ws).cpu.gpr = s.cpu.gpr := by
  induction ws generalizing s with
  | nil => rfl
  | cons w ws ih => exact ih (pushWord s w)

/-- The state when the handler is called: `rdi` points to the words pushed. -/
theorem entry_spec (v : ℕ) (err rsp : UInt64) (c : Cpu) (m : Memory) :
    ∃ base, (runInstrs (isrStub v).entry (deliver v err rsp c m)).cpu.gpr Gpr.rdi.index = base ∧
      (runInstrs (isrStub v).entry (deliver v err rsp c m)).cpu.rsp = base ∧
      ∀ j < (entryWords v err c).length,
        wordAt (runInstrs (isrStub v).entry (deliver v err rsp c m)).mem base j =
          (entryWords v err c).reverse.getD j 0 := by
  have hlen : (entryWords v err c).length ≤ 23 := by
    unfold entryWords cpuWords
    split_ifs <;> simp [pushAll]
  set base := alignStack rsp - 8 * .ofNat (entryWords v err c).length with hbase
  have hrsp : alignStack rsp = base + 8 * .ofNat (entryWords v err c).length := by
    rw [hbase, UInt64.sub_add_cancel]
  obtain ⟨hcpu, hword⟩ := pushWords_spec (s := ⟨{ c with rsp := alignStack rsp }, m⟩)
    (show (entryWords v err c).length < 2 ^ 60 by omega) hrsp
  have hpush : runInstrs (isrStub v).entry (deliver v err rsp c m) =
      StubInstr.exec (pushWords ⟨{ c with rsp := alignStack rsp }, m⟩ (entryWords v err c))
        .movRdiRsp := by
    rw [runInstrs_entry, deliver, pushWords_gpr, entryWords]
    simp only [pushWords_append]
  refine ⟨base, ?_, ?_, fun j hj => ?_⟩
  · rw [hpush]
    simp [StubInstr.exec, hcpu]
  · rw [hpush]
    simp [StubInstr.exec, hcpu]
  · rw [hpush]
    exact (hword j (by omega)).trans (if_pos hj)

/-! ### The way back -/

/-- The instructions after the call are those of `POPALL` and the end, in both kinds of stubs. -/
lemma isrStub_exit (v : ℕ) : (isrStub v).exit = popAll.map .pop ++ [.addRsp 16, .iretq] := by
  unfold isrStub
  split_ifs <;> rfl

/-- Two steps on the stack are one. -/
lemma wordAt_add (m : Memory) (base : UInt64) (i j : ℕ) :
    wordAt m (base + 8 * .ofNat i) j = wordAt m base (i + j) := by
  rw [wordAt, wordAt, UInt64.ofNat_add, UInt64.mul_add, UInt64.add_assoc]

/-- Popping registers loads them from the stack, in their order. -/
lemma runInstrs_pop (rs : List Gpr) (hrs : (rs.map Gpr.index).Nodup) (s : StubState) :
    (runInstrs (rs.map .pop) s).mem = s.mem ∧
      (runInstrs (rs.map .pop) s).cpu.rsp = s.cpu.rsp + 8 * .ofNat rs.length ∧
      ∀ r, (runInstrs (rs.map .pop) s).cpu.gpr r =
        if r ∈ rs.map Gpr.index then wordAt s.mem s.cpu.rsp ((rs.map Gpr.index).idxOf r)
        else s.cpu.gpr r := by
  induction rs generalizing s with
  | nil => simp [runInstrs]
  | cons q rs ih =>
    obtain ⟨hq, hrs⟩ := List.nodup_cons.mp hrs
    obtain ⟨hmem, hrsp, hgpr⟩ := ih hrs (StubInstr.exec s (.pop q))
    have hone : UInt64.ofNat 1 = 1 := rfl
    have hnext : s.cpu.rsp + 8 = s.cpu.rsp + 8 * UInt64.ofNat 1 := by
      rw [hone, UInt64.mul_one]
    rw [List.map_cons, runInstrs_cons]
    refine ⟨hmem, ?_, fun r => ?_⟩
    · rw [hrsp, List.length_cons, UInt64.ofNat_add, UInt64.mul_add, hone, UInt64.mul_one,
        UInt64.add_comm (8 * _) 8, ← UInt64.add_assoc]
      rfl
    · rw [hgpr r, List.map_cons]
      by_cases hr : r = q.index
      · subst hr
        rw [if_neg hq, if_pos List.mem_cons_self, List.idxOf_cons_self]
        exact Function.update_self ..
      · by_cases hmem : r ∈ rs.map Gpr.index
        · rw [if_pos hmem, if_pos (List.mem_cons_of_mem _ hmem), List.idxOf_cons_ne _ (Ne.symm hr)]
          change wordAt s.mem (s.cpu.rsp + 8) _ = _
          rw [hnext, wordAt_add, Nat.add_comm]
        · rw [if_neg hmem, if_neg (fun h => (List.mem_cons.mp h).elim hr hmem)]
          exact Function.update_of_ne hr ..

/-- `POPALL` pops the registers in the order of `Cpu`. -/
lemma map_index_popAll : popAll.map Gpr.index = List.finRange 15 := by decide

lemma idxOf_finRange : ∀ r : Fin 15, (List.finRange 15).idxOf r = r := by decide

/-- The general registers of a frame are its first words. -/
lemma frameAt_gpr (m : Memory) (base : UInt64) (r : Fin 15) :
    (frameAt m base).cpu.gpr r = wordAt m base r := by
  fin_cases r <;> rfl

/-- The stub's way back loads the registers of the frame at the stack pointer. -/
theorem exit_spec (v : ℕ) (s : StubState) :
    (runInstrs (isrStub v).exit s).cpu = (frameAt s.mem s.cpu.rsp).cpu := by
  obtain ⟨hmem, hrsp, hgpr⟩ := runInstrs_pop popAll (by decide) s
  rw [isrStub_exit, runInstrs_append]
  generalize runInstrs (popAll.map .pop) s = t at hmem hrsp hgpr ⊢
  have h16 : s.cpu.rsp + 8 * UInt64.ofNat popAll.length + 16 = s.cpu.rsp + 8 * UInt64.ofNat 17 := by
    rw [UInt64.add_assoc]
    rfl
  have hword : ∀ i, wordAt t.mem (t.cpu.rsp + 16) i = wordAt s.mem s.cpu.rsp (17 + i) := by
    intro i
    rw [hmem, hrsp, h16, wordAt_add]
  refine Cpu.ext (funext fun r => ?_) (hword 0) (hword 1) (hword 2) (hword 3) (hword 4)
  change t.cpu.gpr r = _
  rw [hgpr r, map_index_popAll, if_pos (List.mem_finRange r), idxOf_finRange, frameAt_gpr]

/-! ### The descriptors -/

/-- The CPU puts the address of a descriptor together again. -/
lemma target_idtSetDescriptor (isr : UInt64) (flags : UInt8) :
    (idtSetDescriptor isr flags).target = isr := by
  apply UInt64.toNat_inj.mp
  have hlt : isr.toNat < 2 ^ 64 := isr.toNat_lt
  set n := isr.toNat with hn
  -- the three fields, as numbers
  have hlow : (isr &&& 0xFFFF).toUInt16.toUInt64.toNat = n % 65536 := by
    have hmask := shiftRight_and_mask n 0 16
    simp only [Nat.shiftRight_zero, Nat.pow_zero, Nat.div_one] at hmask
    change (n &&& 65535) % 2 ^ 16 = _
    rw [show 65535 = 2 ^ 16 - 1 from rfl, hmask]
    omega
  have hmid : (((isr >>> 16) &&& 0xFFFF).toUInt16.toUInt64 <<< 16).toNat =
      n / 65536 % 65536 * 65536 := by
    rw [UInt64.toNat_shiftLeft]
    change ((n >>> 16 &&& 65535) % 2 ^ 16) <<< 16 % 2 ^ 64 = _
    rw [show 65535 = 2 ^ 16 - 1 from rfl, shiftRight_and_mask n 16 16, Nat.shiftLeft_eq]
    omega
  have hhigh : (((isr >>> 32) &&& 0xFFFFFFFF).toUInt32.toUInt64 <<< 32).toNat =
      n / 2 ^ 32 % 2 ^ 32 * 2 ^ 32 := by
    rw [UInt64.toNat_shiftLeft]
    change ((n >>> 32 &&& 4294967295) % 2 ^ 32) <<< 32 % 2 ^ 64 = _
    rw [show 4294967295 = 2 ^ 32 - 1 from rfl, shiftRight_and_mask n 32 32, Nat.shiftLeft_eq]
    omega
  have hor : n % 65536 ||| n / 65536 % 65536 * 65536 = n % 2 ^ 32 := by
    rw [Nat.or_comm, or_eq_add_of_dvd (n := 16) (by omega) (by omega)]
    omega
  rw [IdtEntry.target, idtSetDescriptor, UInt64.toNat_or, UInt64.toNat_or, hlow, hmid, hhigh, hor,
    Nat.or_comm, or_eq_add_of_dvd (n := 32) (by omega) (by omega)]
  omega

/-- A loop that assigns the first `n` values of a function. -/
lemma foldl_update_range {α : Type*} (g f : ℕ → α) (n : ℕ) :
    (List.range n).foldl (fun f i => Function.update f i (g i)) f v =
      if v < n then g v else f v := by
  induction n with
  | zero => simp
  | succ n ih =>
    rw [List.range_succ, List.foldl_append, List.foldl_cons, List.foldl_nil]
    by_cases hv : v = n
    · subst hv
      simp
    · rw [Function.update_of_ne hv, ih]
      have hiff : v < n ↔ v < n + 1 := by omega
      simp only [hiff]

/-- The address in the descriptor of a vector is the entry of `isr_stub_table`. -/
lemma target_idtInit (A : StubImage) (idt : ℕ → IdtEntry) (hv : v < idtMaxDescriptors) :
    (idtInit A idt v).target = isrStubTable A v := by
  rw [idtInit, foldl_update_range (fun i => idtSetDescriptor (isrStubTable A i) 0x8E), if_pos hv,
    target_idtSetDescriptor]

/-- The table has the stubs of all vectors but the last. -/
lemma isrStubTable_eq (A : StubImage) (v : ℕ) :
    isrStubTable A v = if v < 255 then A.isrStub v else A.behindTable := by
  rw [isrStubTable, List.getD_eq_getElem?_getD, List.getElem?_map]
  split_ifs with hv
  · rw [List.getElem?_range hv]
    rfl
  · rw [List.getElem?_eq_none (by simpa using hv)]
    rfl

/-! ### The main result -/

/-- The state when the handler is called for the vector `v`. -/
def atHandler (v : ℕ) (err rsp : UInt64) (c : Cpu) (m : Memory) : StubState :=
  runInstrs (isrStub v).entry (deliver v err rsp c m)

/-- The `stackframe` that the handler receives. -/
def receivedFrame (v : ℕ) (err rsp : UInt64) (c : Cpu) (m : Memory) : Stackframe :=
  frameAt (atHandler v err rsp c m).mem ((atHandler v err rsp c m).cpu.gpr Gpr.rdi.index)

/-- Interrupts with the vector `v` are transparent: they lead to the stub of `v`, the handler
receives the vector and the interrupted registers, and if it returns, with its stack pointer and its
frame unchanged, the interrupted registers are restored. -/
structure Transparent (A : StubImage) (idt : ℕ → IdtEntry) (v : ℕ) : Prop where
  target : (idtInit A idt v).target = A.isrStub v
  vector : ∀ err rsp c m, (receivedFrame v err rsp c m).vector = .ofNat v
  registers : ∀ err rsp c m, (receivedFrame v err rsp c m).cpu = c
  restored : ∀ err rsp c m (s : StubState), s.cpu.rsp = (atHandler v err rsp c m).cpu.rsp →
    frameAt s.mem ((atHandler v err rsp c m).cpu.gpr Gpr.rdi.index) =
      receivedFrame v err rsp c m → (runInstrs (isrStub v).exit s).cpu = c

/-- A frame is given by its words. -/
lemma frameAt_eq {f : Stackframe} (h : ∀ j < 22, wordAt m base j = f.words.getD j 0) :
    frameAt m base = f := by
  cases f
  simp only [frameAt, Stackframe.mk.injEq]
  repeat' apply And.intro
  all_goals exact h _ (by decide)

/-- If a stub fits the frame of the CPU, the words pushed are those of a frame with the interrupted
registers. -/
lemma reverse_entryWords (hv : v ∈ errStubVectors ↔ v ∈ errorCodeVectors) (err : UInt64) (c : Cpu) :
    ∃ e, (entryWords v err c).reverse = (c.frame (.ofNat v) e).words := by
  unfold entryWords cpuWords
  by_cases herr : v ∈ errorCodeVectors
  · rw [if_pos herr, if_pos (hv.mpr herr)]
    exact ⟨err, rfl⟩
  · rw [if_neg herr, if_neg (fun h => herr (hv.mp h))]
    exact ⟨0, rfl⟩

/-- The frame that the handler receives from a stub that fits. -/
lemma receivedFrame_eq (hv : v ∈ errStubVectors ↔ v ∈ errorCodeVectors) (err rsp : UInt64) (c : Cpu)
    (m : Memory) : ∃ e, receivedFrame v err rsp c m = c.frame (.ofNat v) e := by
  obtain ⟨e, hwords⟩ := reverse_entryWords hv err c
  obtain ⟨base, hrdi, -, hword⟩ := entry_spec v err rsp c m
  have hlen : (entryWords v err c).length = 22 := by
    rw [← List.length_reverse, hwords]
    rfl
  refine ⟨e, ?_⟩
  rw [receivedFrame, atHandler, hrdi]
  refine frameAt_eq fun j hj => ?_
  rw [hword j (by omega), hwords]

/-- The registers of a test: only `rip` is not zero. -/
def probeCpu : Cpu := ⟨fun _ => 0, 1, 0, 0, 0, 0⟩

/-- What the handler takes for the interrupted `rip`, whether the stub fits or not. -/
lemma receivedFrame_rip (v : ℕ) (err rsp : UInt64) (c : Cpu) (m : Memory)
    (hlen : 17 < (entryWords v err c).length) :
    (receivedFrame v err rsp c m).rip = (entryWords v err c).reverse.getD 17 0 := by
  obtain ⟨base, hrdi, -, hword⟩ := entry_spec v err rsp c m
  rw [receivedFrame, atHandler, hrdi]
  exact hword 17 hlen

/-- Interrupts are transparent for a vector if and only if the CPU pushes an error code for it
exactly when its stub assumes one, which fails for 19, 20, 21, 28 and 30, and, for the vector 255,
what lies behind `isr_stub_table` happens to be the address of its stub. -/
theorem interrupt_transparent_iff (A : StubImage) (idt : ℕ → IdtEntry) (v : Fin 256) :
    Transparent A idt v ↔
      v.val ∉ [19, 20, 21, 28, 30] ∧ (v.val = 255 → A.behindTable = A.isrStub 255) := by
  have htarget : (idtInit A idt v).target =
      if v.val < 255 then A.isrStub v else A.behindTable := by
    rw [target_idtInit A idt v.isLt, isrStubTable_eq]
  constructor
  · intro h
    refine ⟨fun hv => ?_, fun hv => ?_⟩
    · -- in these cases the field `rip` holds `cs` or the error code
      have hrip := congrArg Cpu.rip (h.registers 2 0x8000 probeCpu fun _ => 0)
      have hne : ∀ v ∈ [19, 20, 21, 28, 30], 17 < (entryWords v 2 probeCpu).length ∧
          (entryWords v 2 probeCpu).reverse.getD 17 0 ≠ probeCpu.rip := by decide
      obtain ⟨hlen, hne⟩ := hne v hv
      exact hne ((receivedFrame_rip v 2 0x8000 probeCpu _ hlen).symm.trans hrip)
    · have heq := htarget.symm.trans h.target
      rwa [if_neg (by omega), hv] at heq
  · rintro ⟨hv, hbehind⟩
    have hfit : v.val ∈ errStubVectors ↔ v.val ∈ errorCodeVectors := by
      simp only [errStubVectors, errorCodeVectors, List.mem_cons, List.not_mem_nil, or_false]
        at hv ⊢
      omega
    refine ⟨?_, fun err rsp c m => ?_, fun err rsp c m => ?_, fun err rsp c m s hrsp hframe => ?_⟩
    · rw [htarget]
      split_ifs with hlt
      · rfl
      · have h255 : v.val = 255 := by omega
        rw [hbehind h255, h255]
    · obtain ⟨e, heq⟩ := receivedFrame_eq hfit err rsp c m
      rw [heq]
      rfl
    · obtain ⟨e, heq⟩ := receivedFrame_eq hfit err rsp c m
      rw [heq, frame_cpu]
    · obtain ⟨e, heq⟩ := receivedFrame_eq hfit err rsp c m
      obtain ⟨base, hrdi, hrsp', -⟩ := entry_spec v err rsp c m
      rw [exit_spec, hrsp, atHandler, hrsp', ← hrdi, ← atHandler, hframe, heq, frame_cpu]

/-- A control protection exception, for which the CPU pushes an error code and the stub pushes a
zero: the handler takes the error code for the interrupted `rip`. -/
theorem control_protection_shifted :
    (receivedFrame 21 2 0x8000 probeCpu fun _ => 0).rip = 2 ∧ probeCpu.rip = 1 := by
  refine ⟨?_, rfl⟩
  rw [receivedFrame_rip 21 2 0x8000 probeCpu _ (by decide)]
  decide

end Soaplin
