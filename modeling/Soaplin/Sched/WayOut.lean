import Soaplin.Sched.Interrupt

/-!
# The way out of the handler

From its `sti` on `interrupt_handler` and its stub may be interrupted.  When the frame and the
return address are in memory, the handler leads to the registers of the frame
(`handlerPath_of_frame`), and a handler whose frame is on a stack stays on this stack until it is
back in the code of a thread (`staysOn_of_body`).
-/

namespace Soaplin

open ByteMemory

/-! ### Words in memory -/

variable {m m' : Memory} {a base : ℕ}

/-- A word only depends on its eight bytes. -/
lemma loadWord_congr (h : ∀ x, a ≤ x → x < a + 8 → m x = m' x) : loadWord m a = loadWord m' a := by
  rw [loadWord, load64_congr h, loadWord]

/-- Writing words leaves the bytes outside their range alone. -/
lemma storeWords_apply {ws : List UInt64} {x : ℕ} (hx : x < a ∨ a + 8 * ws.length ≤ x) :
    storeWords m a ws x = m x := by
  induction ws generalizing m a with
  | nil => rfl
  | cons w ws ih =>
    rw [List.length_cons] at hx
    rw [storeWords, ih (by omega)]
    exact store64_apply_of_disjoint (by omega)

/-- Each of the words written reads back. -/
lemma loadWord_storeWords {ws : List UInt64} {i : ℕ} (hi : i < ws.length) :
    loadWord (storeWords m a ws) (a + 8 * i) = ws.getD i 0 := by
  induction ws generalizing m a i with
  | nil => cases hi
  | cons w ws ih =>
    cases i with
    | zero =>
      simp only [storeWords, Nat.mul_zero, Nat.add_zero, List.getD_cons_zero]
      have hfirst : loadWord (storeWords (storeWord m a w) (a + 8) ws) a =
          loadWord (storeWord m a w) a :=
        loadWord_congr fun x hx hxa => storeWords_apply (by omega)
      rw [hfirst, loadWord_storeWord_same]
    | succ i =>
      rw [storeWords, List.getD_cons_succ]
      have hrest := ih (m := storeWord m a w) (a := a + 8) (Nat.lt_of_succ_lt_succ hi)
      rw [← hrest]
      congr 1
      omega

/-- The memory holds the frame `f` at `base`. -/
def HoldsFrame (m : Memory) (base : ℕ) (f : Stackframe) : Prop :=
  ∀ i < 22, loadWord m (base + 8 * i) = f.words.getD i 0

/-- A frame only depends on its bytes. -/
lemma HoldsFrame.congr {f : Stackframe} (hframe : HoldsFrame m base f)
    (hm : ∀ x, base ≤ x → x < base + stackframeSize → m' x = m x) : HoldsFrame m' base f := by
  have hsize : stackframeSize = 176 := rfl
  intro i hi
  rw [← hframe i hi]
  exact loadWord_congr fun x hx hxi => hm x (by omega) (by omega)

/-! ### The way out of the handler -/

variable {P : HandlerCode} {f : Stackframe} {c c' : Cpu} {lo hi : ℕ}

/-- How many bytes an instruction of the way out reads from the stack. -/
def ExitInstr.reads : ExitInstr → ℕ
  | .ret => 8
  | .pop _ => 8
  | .addRsp => 0
  | .iretq => 40

/-- The registers after `n` registers have been popped from the frame `f` at `base`. -/
def popped (P : HandlerCode) (f : Stackframe) (base : ℕ) (c : Cpu) (n : ℕ) : Cpu :=
  { c with
    gpr := fun i => if i.val < n then f.words.getD i 0 else c.gpr i
    rip := P.code (.afterPops n)
    rsp := .ofNat (base + 8 * n) }

/-- A stack pointer inside the address space. -/
lemma toNat_ofNat_of_lt {n : ℕ} (h : n < Word64.modulus) : (UInt64.ofNat n).toNat = n :=
  UInt64.toNat_ofNat_of_lt' h

/-- Popping the next register. -/
lemma exec_pop (hframe : HoldsFrame m base f) (hend : base + stackframeSize < Word64.modulus)
    {n : ℕ} (hn : n < 15) :
    (ExitInstr.afterPops n).exec P m (popped P f base c n) = popped P f base c (n + 1) := by
  have hsize : stackframeSize = 176 := rfl
  have hrsp : (UInt64.ofNat (base + 8 * n)).toNat = base + 8 * n := toNat_ofNat_of_lt (by omega)
  rw [ExitInstr.afterPops, dif_pos hn]
  simp only [ExitInstr.exec, popped, hrsp]
  rw [hframe n (by omega)]
  refine Cpu.ext (funext fun i => ?_) rfl rfl rfl (UInt64.ofNat_add _ 8).symm rfl
  by_cases hin : i = ⟨n, hn⟩
  · subst hin
    simp
  · have hne : i.val ≠ n := fun h => hin (Fin.ext h)
    have hiff : i.val < n + 1 ↔ i.val < n := by omega
    simp [hin, hiff]

/-- After the last pop, the rest of the frame restores the other registers. -/
lemma exec_iretq (hframe : HoldsFrame m base f) (hend : base + stackframeSize < Word64.modulus) :
    ExitInstr.iretq.exec P m (ExitInstr.addRsp.exec P m (popped P f base c 15)) = f.cpu := by
  have hsize : stackframeSize = 176 := rfl
  have hrsp : (UInt64.ofNat (base + 8 * 15) + 16).toNat = base + 8 * 17 := by
    have heq : UInt64.ofNat (base + 8 * 15) + 16 = UInt64.ofNat (base + 8 * 17) :=
      (UInt64.ofNat_add _ 16).symm
    rw [heq, toNat_ofNat_of_lt (by omega)]
  have hword : ∀ i < 22, ∀ a, a = base + 8 * i → loadWord m a = f.words.getD i 0 := by
    rintro i hi a rfl
    exact hframe i hi
  simp only [ExitInstr.exec, popped, hrsp]
  refine Cpu.ext (funext fun i => ?_) ?_ ?_ ?_ ?_ ?_
  · simp [Stackframe.cpu, i.isLt]
  · exact (hword 17 (by omega) _ (by omega)).trans rfl
  · exact (hword 18 (by omega) _ (by omega)).trans rfl
  · exact (hword 19 (by omega) _ (by omega)).trans rfl
  · exact (hword 20 (by omega) _ (by omega)).trans rfl
  · exact (hword 21 (by omega) _ (by omega)).trans rfl

/-- The return from `interrupt_handler` leads to the first pop. -/
lemma exec_ret (hret : loadWord m (base - 8) = P.code (.afterPops 0)) (hbase : 8 ≤ base)
    (hlt : base < Word64.modulus) (hrsp : c.rsp = .ofNat (base - 8)) :
    ExitInstr.ret.exec P m c = popped P f base c 0 := by
  have haddr : c.rsp.toNat = base - 8 := by rw [hrsp, toNat_ofNat_of_lt (by omega)]
  have hback : base - 8 + 8 = base := by omega
  have hsum : UInt64.ofNat (base - 8) + 8 = UInt64.ofNat (base - 8 + 8) :=
    (UInt64.ofNat_add _ 8).symm
  simp only [ExitInstr.exec, popped, haddr, hret]
  refine Cpu.ext (funext fun i => by simp) rfl rfl rfl ?_ rfl
  simp only [hrsp, hsum, hback, Nat.mul_zero, Nat.add_zero]

section

variable {Q : Cpu → Prop}
  (hframe : HoldsFrame m base f) (hend : base + stackframeSize < Word64.modulus)
  (hlast : ∀ c, c.rip = P.code .iretq → base ≤ c.rsp.toNat + 8 →
    c.rsp.toNat + ExitInstr.iretq.reads ≤ base + stackframeSize →
    ExitInstr.iretq.exec P m c = f.cpu → Q c)
  (hQ : ∀ e c, e ≠ .iretq → c.rip = P.code e → base ≤ c.rsp.toNat + 8 →
    c.rsp.toNat + e.reads ≤ base + stackframeSize →
    c.rsp.toNat ≤ (e.exec P m c).rsp.toNat → Q (e.exec P m c) → Q c)

include hframe hend hlast hQ

/-- Induction along the pops, from the last one backwards. -/
lemma pops_induction {d : ℕ} (hd : d ≤ 15) : Q (popped P f base c (15 - d)) := by
  have hsize : stackframeSize = 176 := rfl
  induction d with
  | zero =>
    change Q (popped P f base c 15)
    have hrsp₀ : (popped P f base c 15).rsp.toNat = base + 120 := toNat_ofNat_of_lt (by omega)
    have hadd : (ExitInstr.addRsp.exec P m (popped P f base c 15)).rsp =
        UInt64.ofNat (base + 136) := (UInt64.ofNat_add _ 16).symm
    have hrsp₁ : (ExitInstr.addRsp.exec P m (popped P f base c 15)).rsp.toNat = base + 136 := by
      rw [hadd, toNat_ofNat_of_lt (by omega)]
    have hiretq := exec_iretq (P := P) (c := c) hframe hend
    refine hQ .addRsp _ nofun rfl (by omega) ?_ (by omega) ?_
    · rw [hrsp₀, ExitInstr.reads]
      omega
    · refine hlast _ rfl (by omega) ?_ hiretq
      rw [hrsp₁, ExitInstr.reads]
      omega
  | succ d ih =>
    have hn : 15 - (d + 1) < 15 := by omega
    have hstep := exec_pop (P := P) (c := c) hframe hend hn
    have hnext : 15 - (d + 1) + 1 = 15 - d := by omega
    rw [hnext] at hstep
    have hrsp₀ : (popped P f base c (15 - (d + 1))).rsp.toNat = base + 8 * (15 - (d + 1)) :=
      toNat_ofNat_of_lt (by omega)
    have hrsp₁ : (popped P f base c (15 - d)).rsp.toNat = base + 8 * (15 - d) :=
      toNat_ofNat_of_lt (by omega)
    refine hQ (.afterPops (15 - (d + 1))) _ ?_ rfl (by omega) ?_ ?_ ?_
    · rw [ExitInstr.afterPops, dif_pos hn]
      nofun
    · rw [hrsp₀, ExitInstr.afterPops, dif_pos hn, ExitInstr.reads]
      omega
    · rw [hstep]
      omega
    · rw [hstep]
      exact ih (by omega)

/-- Induction along the way out of a handler: a property of the registers that holds before the
`iretq`, and that every other instruction of the way out carries backwards, holds at its
beginning. -/
theorem exit_induction (hret : loadWord m (base - 8) = P.code (.afterPops 0)) (hbase : 8 ≤ base)
    (hrip : c.rip = P.code .ret) (hrsp : c.rsp = .ofNat (base - 8)) : Q c := by
  have hsize : stackframeSize = 176 := rfl
  have hrsp₀ : c.rsp.toNat = base - 8 := by rw [hrsp, toNat_ofNat_of_lt (by omega)]
  have hrsp₁ : (popped P f base c 0).rsp.toNat = base := toNat_ofNat_of_lt (by omega)
  have hexec : ExitInstr.ret.exec P m c = popped P f base c 0 :=
    exec_ret hret hbase (by omega) hrsp
  refine hQ .ret c nofun hrip (by omega) ?_ ?_ ?_
  · rw [hrsp₀, ExitInstr.reads]
    omega
  · rw [hexec]
    omega
  · rw [hexec]
    exact pops_induction hframe hend hlast hQ le_rfl

end

/-- From the beginning of the way out, its instructions load the registers of the frame. -/
theorem exitPath_of_frame (hframe : HoldsFrame m base f)
    (hret : loadWord m (base - 8) = P.code (.afterPops 0)) (hbase : 8 ≤ base)
    (hend : base + stackframeSize < Word64.modulus) (hrip : c.rip = P.code .ret)
    (hrsp : c.rsp = .ofNat (base - 8)) : ExitPath P m c f.cpu := by
  refine exit_induction (Q := fun c => ExitPath P m c f.cpu) hframe hend ?_ ?_ hret hbase hrip hrsp
  · intro c hc _ _ hexec
    rw [← hexec]
    exact .iretq hc
  · intro e c he hc _ _ _ hrest
    exact .step hc he hrest

/-- After an instruction of the way out that is not the `iretq`, the way goes on. -/
lemma ExitPath.next {e : ExitInstr} (h : ExitPath P m c c') (hrip : c.rip = P.code e)
    (he : e ≠ .iretq) : ExitPath P m (e.exec P m c) c' := by
  cases h with
  | iretq hc => exact absurd (P.injective (hrip.symm.trans hc)) he
  | @step _ _ e' hc _ hrest =>
    obtain rfl : e = e' := P.injective (hrip.symm.trans hc)
    exact hrest

/-- The `iretq` is the end of the way out. -/
lemma ExitPath.last (h : ExitPath P m c c') (hrip : c.rip = P.code .iretq) :
    ExitInstr.iretq.exec P m c = c' := by
  cases h with
  | iretq hc => rfl
  | step hc he => exact absurd (P.injective (hc.symm.trans hrip)) he

/-- The way out consists of its instructions. -/
lemma ExitPath.exists_code (h : ExitPath P m c c') : ∃ e, c.rip = P.code e := by
  cases h with
  | iretq hc => exact ⟨_, hc⟩
  | step hc => exact ⟨_, hc⟩

/-! ### The rest of the handler -/

/-- The rest of `interrupt_handler` is not on the way out. -/
lemma HandlerCode.ne_code {rip : UInt64} {n : ℕ} (hbody : P.body rip = some n) (e : ExitInstr) :
    rip ≠ P.code e := by
  rintro rfl
  exact Option.some_ne_none _ (hbody.symm.trans (P.body_code e))

/-- The handler uses its return address. -/
lemma HandlerCode.depth_ge (P : HandlerCode) : 8 ≤ P.depth := by
  obtain ⟨n, hn⟩ := Option.isSome_iff_exists.mp P.start_isSome
  have hle := P.body_le hn
  omega

/-- From the rest of a handler whose return address and frame are in memory, the handler leads to
the registers of the frame. -/
theorem handlerPath_of_frame {n : ℕ} (hframe : HoldsFrame m base f)
    (hret : loadWord m (base - 8) = P.code (.afterPops 0)) (hbase : 8 ≤ base)
    (hend : base + stackframeSize < Word64.modulus) (hbody : P.body c.rip = some n)
    (hrsp : c.rsp.toNat + n = base - 8) : HandlerPath P m c f.cpu := by
  refine .body hbody fun c₁ m₁ hrip hrsp₁ hm => ?_
  have hsame : ∀ x, base - 8 ≤ x → m₁ x = m x := fun x hx => hm x (by omega)
  have hret₁ : loadWord m₁ (base - 8) = P.code (.afterPops 0) := by
    rw [← hret]
    exact loadWord_congr fun x hx _ => hsame x hx
  refine exitPath_of_frame (hframe.congr fun x hx _ => hsame x (by omega)) hret₁ hbase hend hrip ?_
  rw [← hrsp, ← hrsp₁, UInt64.ofNat_toNat]

namespace HandlerPath

/-- In the handler the CPU is not in a thread's code. -/
lemma not_outside (h : HandlerPath P m c c') : ¬ P.Outside c.rip := by
  rintro ⟨hcode, hbody⟩
  cases h with
  | body hn => exact absurd (hbody.symm.trans hn) nofun
  | exit hexit =>
    obtain ⟨e, he⟩ := hexit.exists_code
    exact hcode e he

/-- On the way out, the rest of `interrupt_handler` is behind. -/
lemma exitPath {e : ExitInstr} (h : HandlerPath P m c c') (hrip : c.rip = P.code e) :
    ExitPath P m c c' := by
  cases h with
  | body hn => exact absurd hrip (P.ne_code hn e)
  | exit hexit => exact hexit

/-- An instruction of the rest of `interrupt_handler` that leaves the return address and what is
above it alone. -/
lemma handler {n n' : ℕ} {c₁ : Cpu} (h : HandlerPath P m c c') (hbody : P.body c.rip = some n)
    (hbody' : P.Below c₁.rip n') (hrsp : c₁.rsp.toNat + n' = c.rsp.toNat + n)
    (hm : ∀ x, c.rsp.toNat + n ≤ x → m' x = m x) : HandlerPath P m' c₁ c' := by
  cases h with
  | exit hexit =>
    obtain ⟨e, he⟩ := hexit.exists_code
    exact absurd he (P.ne_code hbody e)
  | @body k hk hrest =>
    obtain rfl : k = n := Option.some.inj (hk.symm.trans hbody)
    rcases hbody' with hbody' | ⟨hret, rfl⟩
    · exact .body hbody' fun c₂ m₂ hrip₂ hrsp₂ hm₂ => hrest c₂ m₂ hrip₂ (by omega) fun x hx =>
        (hm₂ x hx).trans (hm x (by omega))
    · exact .exit (hrest c₁ m' hret (by omega) fun x hx => hm x (by omega))

end HandlerPath

/-! ### Staying on a stack -/

/-- With the registers `c` the CPU is on the stack from `lo` to `hi`, and stays there until it is
back in the code of a thread, whatever the handler leaves below its return address. -/
inductive StaysOn (P : HandlerCode) (lo hi : ℕ) : Memory → Cpu → Prop
  | code {m : Memory} {c : Cpu} (hrip : P.Outside c.rip) (hlo : lo ≤ c.rsp.toNat)
      (hhi : c.rsp.toNat < hi) : StaysOn P lo hi m c
  | handler {m : Memory} {c : Cpu} {n : ℕ} (hbody : P.body c.rip = some n)
      (hlo : lo + P.depth ≤ c.rsp.toNat + n + 8) (hhi : c.rsp.toNat + n < hi)
      (hrest : ∀ c₁ m₁, c₁.rip = P.code .ret → c₁.rsp.toNat = c.rsp.toNat + n →
        (∀ x, c₁.rsp.toNat ≤ x → x < hi → m₁ x = m x) → StaysOn P lo hi m₁ c₁) :
      StaysOn P lo hi m c
  | exit {m : Memory} {c : Cpu} {e : ExitInstr} (hrip : c.rip = P.code e) (hlo : lo ≤ c.rsp.toNat)
      (hread : c.rsp.toNat + e.reads ≤ hi) (hup : c.rsp.toNat ≤ (e.exec P m c).rsp.toNat)
      (hrest : StaysOn P lo hi m (e.exec P m c)) : StaysOn P lo hi m c

/-- The stack pointer is on the stack. -/
lemma StaysOn.rsp_mem (h : StaysOn P lo hi m c) : lo ≤ c.rsp.toNat ∧ c.rsp.toNat < hi := by
  induction h with
  | code _ hlo hhi => exact ⟨hlo, hhi⟩
  | handler hbody hlo hhi =>
    have hle := P.body_le hbody
    exact ⟨by omega, by omega⟩
  | exit _ hlo _ hup _ ih => exact ⟨hlo, lt_of_le_of_lt hup ih.2⟩

/-- An instruction of the way out only depends on what it reads. -/
lemma exec_congr {e : ExitInstr}
    (h : ∀ x, c.rsp.toNat ≤ x → x < c.rsp.toNat + e.reads → m' x = m x) :
    e.exec P m' c = e.exec P m c := by
  have hword : ∀ k, k + 8 ≤ e.reads →
      loadWord m' (c.rsp.toNat + k) = loadWord m (c.rsp.toNat + k) := fun k hk =>
    loadWord_congr fun x hx hxk => h x (by omega) (by omega)
  cases e with
  | ret => simp only [ExitInstr.exec, show loadWord m' c.rsp.toNat = _ from hword 0 le_rfl]; rfl
  | pop r => simp only [ExitInstr.exec, show loadWord m' c.rsp.toNat = _ from hword 0 le_rfl]; rfl
  | addRsp => rfl
  | iretq =>
    have h₀ := hword 0 (by decide)
    have h₁ := hword 8 (by decide)
    have h₂ := hword 16 (by decide)
    have h₃ := hword 24 (by decide)
    have h₄ := hword 32 (by decide)
    simp only [Nat.add_zero] at h₀
    simp only [ExitInstr.exec, h₀, h₁, h₂, h₃, h₄]

/-- Whether the CPU stays on a stack only depends on the stack from the stack pointer up. -/
lemma StaysOn.congr (h : StaysOn P lo hi m c)
    (hmem : ∀ x, c.rsp.toNat ≤ x → x < hi → m' x = m x) : StaysOn P lo hi m' c := by
  induction h with
  | code hrip hlo hhi => exact .code hrip hlo hhi
  | handler hbody hlo hhi hrest =>
    exact .handler hbody hlo hhi fun c₁ m₁ hrip hrsp hm => hrest c₁ m₁ hrip hrsp fun x hx hxh =>
      (hm x hx hxh).trans (hmem x (by omega) hxh)
  | @exit m c e hrip hlo hread hup hrest ih =>
    have hexec : e.exec P m' c = e.exec P m c :=
      exec_congr fun x hx hxr => hmem x hx (by omega)
    refine .exit hrip hlo hread (by rw [hexec]; exact hup) ?_
    rw [hexec]
    exact ih fun x hx hxh => hmem x (hup.trans hx) hxh

/-- After an instruction of the way out the CPU is still on the stack. -/
lemma StaysOn.next {e : ExitInstr} (h : StaysOn P lo hi m c) (hrip : c.rip = P.code e) :
    StaysOn P lo hi m (e.exec P m c) := by
  cases h with
  | code hout => exact absurd hrip (hout.1 e)
  | handler hbody => exact absurd hrip (P.ne_code hbody e)
  | @exit _ _ e' hc _ _ _ hrest =>
    obtain rfl : e = e' := P.injective (hrip.symm.trans hc)
    exact hrest

/-- In the rest of `interrupt_handler` the part of the stack that the handler uses is on the stack.
-/
lemma StaysOn.body {n : ℕ} (h : StaysOn P lo hi m c) (hbody : P.body c.rip = some n) :
    lo + P.depth ≤ c.rsp.toNat + n + 8 ∧ c.rsp.toNat + n < hi ∧
      ∀ c₁ m₁, c₁.rip = P.code .ret → c₁.rsp.toNat = c.rsp.toNat + n →
        (∀ x, c₁.rsp.toNat ≤ x → x < hi → m₁ x = m x) → StaysOn P lo hi m₁ c₁ := by
  cases h with
  | code hout => exact absurd (hout.2.symm.trans hbody) nofun
  | @handler _ _ k hk hlo hhi hrest =>
    obtain rfl : k = n := Option.some.inj (hk.symm.trans hbody)
    exact ⟨hlo, hhi, hrest⟩
  | exit hc => exact absurd hc (P.ne_code hbody _)

/-- After an instruction of the rest of `interrupt_handler` the CPU is still on the stack. -/
lemma StaysOn.step_handler {n n' : ℕ} {c₁ : Cpu} (h : StaysOn P lo hi m c)
    (hbody : P.body c.rip = some n) (hbody' : P.Below c₁.rip n')
    (hrsp : c₁.rsp.toNat + n' = c.rsp.toNat + n) (hm : ∀ x, c.rsp.toNat + n ≤ x → m' x = m x) :
    StaysOn P lo hi m' c₁ := by
  obtain ⟨hlo, hhi, hrest⟩ := h.body hbody
  rcases hbody' with hbody' | ⟨hret, rfl⟩
  · exact .handler hbody' (by omega) (by omega) fun c₂ m₂ hrip₂ hrsp₂ hm₂ =>
      hrest c₂ m₂ hrip₂ (by omega) fun x hx hxh => (hm₂ x hx hxh).trans (hm x (by omega))
  · exact hrest c₁ m' hret (by omega) fun x hx _ => hm x (by omega)

/-- On the way out, a handler whose frame is on the stack, below the stack pointer it has saved,
stays on the stack. -/
theorem staysOn_of_frame (hframe : HoldsFrame m base f)
    (hret : loadWord m (base - 8) = P.code (.afterPops 0)) (hbase : lo + 8 ≤ base)
    (hend : base + stackframeSize < Word64.modulus) (hhi : base + stackframeSize ≤ hi)
    (hup : base + stackframeSize ≤ f.rsp.toNat) (hlast : StaysOn P lo hi m f.cpu)
    (hrip : c.rip = P.code .ret) (hrsp : c.rsp = .ofNat (base - 8)) : StaysOn P lo hi m c := by
  refine exit_induction hframe hend ?_ ?_ hret (by omega) hrip hrsp
  · intro c hc hlo hread hexec
    have hnew : (ExitInstr.iretq.exec P m c).rsp = f.rsp := congrArg Cpu.rsp hexec
    refine .exit hc (by omega) (by omega) ?_ (by rw [hexec]; exact hlast)
    rw [hnew]
    omega
  · intro e c _ hc hlo hread hle hrest
    exact .exit hc (by omega) (by omega) hle hrest

/-- And so does the rest of `interrupt_handler`. -/
theorem staysOn_of_body {n : ℕ} (hframe : HoldsFrame m base f)
    (hret : loadWord m (base - 8) = P.code (.afterPops 0)) (hbase : lo + P.depth ≤ base)
    (hend : base + stackframeSize < Word64.modulus) (hhi : base + stackframeSize ≤ hi)
    (hup : base + stackframeSize ≤ f.rsp.toNat) (hlast : StaysOn P lo hi m f.cpu)
    (hbody : P.body c.rip = some n) (hrsp : c.rsp.toNat + n = base - 8) : StaysOn P lo hi m c := by
  have hle := P.body_le hbody
  refine .handler hbody (by omega) (by omega) fun c₁ m₁ hrip hrsp₁ hm => ?_
  have hsame : ∀ x, base - 8 ≤ x → x < hi → m₁ x = m x := fun x hx hxh => hm x (by omega) hxh
  have hret₁ : loadWord m₁ (base - 8) = P.code (.afterPops 0) := by
    rw [← hret]
    exact loadWord_congr fun x hx hxb => hsame x hx (by omega)
  refine staysOn_of_frame (hframe.congr fun x hx hxb => hsame x (by omega) (by omega)) hret₁
    (by omega) hend hhi hup (hlast.congr fun x hx hxh => hsame x ?_ hxh) hrip ?_
  · change f.rsp.toNat ≤ x at hx
    omega
  · rw [← hrsp, ← hrsp₁, UInt64.ofNat_toNat]

/-- A new thread's stack pointer is the last byte of its stack. -/
lemma schedAllocStack_toNat {stack : Ptr} (hend : stack + 4096 ≤ Word64.modulus) :
    (schedAllocStack stack).toNat = stack + 4095 := by
  have heq : schedAllocStack stack = UInt64.ofNat (stack + 4095) := (UInt64.ofNat_add _ 4095).symm
  rw [heq]
  exact toNat_ofNat_of_lt (lt_of_lt_of_le (Nat.lt_succ_self _) hend)

/-- A thread that has just been created starts at the top of its stack. -/
lemma staysOn_created {f : Stackframe} {stack : Ptr} {function : UInt64}
    (hrsp : f.rsp = schedAllocStack stack) (hrip : f.rip = function)
    (hfunction : P.Outside function) (hend : stack + 4096 ≤ Word64.modulus) :
    StaysOn P stack (stack + 4096) m f.cpu := by
  have htop : f.cpu.rsp.toNat = stack + 4095 := by
    change f.rsp.toNat = stack + 4095
    rw [hrsp]
    exact schedAllocStack_toNat hend
  exact .code (by change P.Outside f.rip; rwa [hrip]) (by omega) (by omega)

end Soaplin
