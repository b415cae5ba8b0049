import Soaplin.Console.LogOutput
import Soaplin.Format.Template
import Mathlib.Data.List.TakeWhile

/-!
# The log with its formatter

The console takes the contents of a formatted buffer from outside.  Here they are those that
`npf_vsnprintf` computes, and the calls of `logln` that the kernel makes are described from end to end: a
`LogRecord` is a call whose message is a template, and a run of any number of them sends the lines of
the records in turn, each with the `NUL`s that `strlen` adds (`log_run`).
-/

namespace Soaplin

open StateExcept

/-- The text of a string. -/
def stringText (s : String) : List UInt8 := s.toUTF8.toList.takeWhile (· ≠ 0)

lemma cText_cString (s : String) : cText (cString s) = some (stringText s) := cText_nul _ _

lemma nul_notMem_stringText (s : String) : 0 ∉ stringText s :=
  (cText_eq_some_iff.mp (cText_cString s)).1

/-- An argument of a call, as `va_arg` finds it; the literal `s` is at the address `addr s`. -/
def FormatArg.vaArg (addr : String → BitVec 64) : FormatArg → VaArg
  | .str s => ⟨addr s, cString s⟩
  | .int n => ⟨BitVec.ofInt 64 n, []⟩

variable (P : Platform) (addr : String → BitVec 64) (stack : List UInt8)

/-- The platform on which texts are formatted by `npf_vsnprintf`, into a buffer that holds `stack`
before.  Nothing is said about the buffer after a call that is not defined. -/
def Platform.withNanoprintf : Platform :=
  { P with
    npfVsnprintf := fun format args =>
      match Soaplin.npfVsnprintf (some stack) stack.length (cString format) (args.map (·.vaArg addr)) with
      | some (some buf, _) => buf
      | _ => stack }

variable {P addr stack} {format : String} {args : List FormatArg} {out : List UInt8}

/-- What is printed of a buffer that an output has been formatted into. -/
lemma printedBytes_withNanoprintf (hstack : stack.length = 2048)
    (h : FormatPrints (cString format) (args.map (·.vaArg addr)) out) (hlen : out.length ≤ intMax)
    (hnul : 0 ∉ out) :
    printedBytes (P.withNanoprintf addr stack) format args = out.take 2047 ++ [0] := by
  have hbuf : (P.withNanoprintf addr stack).npfVsnprintf format args = bufferAfter stack out := by
    change (match Soaplin.npfVsnprintf (some stack) stack.length (cString format)
      (args.map (·.vaArg addr)) with
      | some (some buf, _) => buf
      | _ => stack) = _
    rw [npfVsnprintf_of_prints stack h hlen]
  have hne : stack ≠ [] := List.ne_nil_of_length_pos (by omega)
  have hall : (out.take 2047).takeWhile (· ≠ 0) = out.take 2047 := by
    refine List.takeWhile_eq_self_iff.mpr fun b hb => ?_
    have hb' : b ≠ 0 := fun hzero => hnul (hzero ▸ List.mem_of_mem_take hb)
    simpa using hb'
  have htext := cText_bufferAfter hne out
  rw [hstack, hall] at htext
  exact printedBytes_eq (by rw [hbuf]; exact htext)

/-! ### Templates -/

/-- There is no `NUL` in the text of a number. -/
lemma nul_notMem_natText {base : ℕ} (hbase : 1 < base) (hbase' : base ≤ 16) (n : ℕ) :
    0 ∉ natText base n := by
  have hglyph : ∀ d : Fin 16, npfGlyph (ch 'a' - ch 'A') d ≠ 0 := by decide
  unfold natText
  split
  · decide
  · intro hmem
    obtain ⟨d, hd, hzero⟩ := List.mem_map.mp hmem
    have hlt := Nat.digits_lt_base hbase (List.mem_reverse.mp hd)
    exact hglyph ⟨d, hlt.trans_le hbase'⟩ hzero

lemma nul_notMem_intText (z : ℤ) : 0 ∉ intText z := by
  have hnat : 0 ∉ natText 10 z.natAbs := nul_notMem_natText (by decide) (by decide) _
  unfold intText
  split
  · exact List.not_mem_cons_of_ne_of_not_mem (by decide) hnat
  · exact hnat

lemma nul_notMem_pointerText (w : BitVec 64) : 0 ∉ pointerText w :=
  List.not_mem_cons_of_ne_of_not_mem (by decide) (List.not_mem_cons_of_ne_of_not_mem (by decide)
    (nul_notMem_natText (by decide) (by decide) _))

/-- There is no `NUL` in the output of a template. -/
lemma nul_notMem_output (items : List TemplateItem) : 0 ∉ items.flatMap TemplateItem.output := by
  intro hmem
  obtain ⟨item, -, hzero⟩ := List.mem_flatMap.mp hmem
  cases item with
  | text bytes hnul hpercent => exact hnul hzero
  | str text hnul hlen => exact hnul hzero
  | int n => exact nul_notMem_intText _ hzero
  | pointer w => exact nul_notMem_pointerText _ hzero
  | percent => exact absurd hzero (by decide)

/-- What is printed for a template. -/
lemma printedBytes_template (args : List FormatArg) (hstack : stack.length = 2048)
    {items : List TemplateItem}
    (hformat : cString format = items.flatMap TemplateItem.format ++ [0])
    (hargs : TemplateArgs items (args.map (·.vaArg addr)))
    (hlen : (items.flatMap TemplateItem.output).length ≤ intMax) :
    printedBytes (P.withNanoprintf addr stack) format args =
      (items.flatMap TemplateItem.output).take 2047 ++ [0] := by
  refine printedBytes_withNanoprintf hstack ?_ hlen (nul_notMem_output items)
  rw [hformat]
  exact prints_template hargs []

/-! ### Log records -/

/-- A call of `logln` whose message is a template. -/
structure LogRecord (addr : String → BitVec 64) where
  lt : LogType
  cmp : String
  msg : String
  args : List FormatArg
  items : List TemplateItem
  msg_eq : cString msg = items.flatMap TemplateItem.format ++ [0]
  takes : TemplateArgs items (args.map (·.vaArg addr))
  length_output : (items.flatMap TemplateItem.output).length ≤ intMax
  length_cmp : (stringText cmp).length + 16 ≤ intMax

/-- What is left of a text in the buffer of 2048 bytes, and the `NUL` that `strlen` counts. -/
def sentText (text : List UInt8) : List UInt8 := text.take 2047 ++ [0]

/-- The message of a record. -/
def LogRecord.text (r : LogRecord addr) : List UInt8 := r.items.flatMap TemplateItem.output

/-- The bytes that are sent for a record. -/
def LogRecord.line (r : LogRecord addr) : List UInt8 :=
  sentText (stringText r.cmp ++ [ch ' ', ch '-', ch ' '] ++ stringText (nmLt r.lt) ++
    [ch ':', ch ' ']) ++ sentText r.text

/-- The calls that the terminal receives for a record. -/
def LogRecord.calls (r : LogRecord addr) : List TermCall := [
  .write (sentText (stringText r.cmp ++ [ch ' ', ch '-', ch ' '])),
  .setTextFgRgb (fgLt r.lt),
  .write (sentText (stringText (nmLt r.lt))),
  .setTextBgDefault,
  .setTextFgDefault,
  .write [ch ':', ch ' '],
  .write (sentText r.text)]

/-- A string argument. -/
lemma takes_str {s : String} (hlen : (stringText s).length ≤ intMax) :
    (TemplateItem.str (stringText s) (nul_notMem_stringText s) hlen).Takes
      [⟨addr s, cString s⟩] :=
  ⟨_, rfl, cText_cString s⟩

lemma length_nmLt (lt : LogType) : (stringText (nmLt lt)).length ≤ 8 := by
  cases lt <;> decide +kernel

/-- The header that `serio_printf` sends. -/
lemma printedBytes_header (hstack : stack.length = 2048) (lt : LogType) {cmp : String}
    (hcmp : (stringText cmp).length + 16 ≤ intMax) :
    printedBytes (P.withNanoprintf addr stack) "%s - %s: " [.str cmp, .str (nmLt lt)] =
      sentText (stringText cmp ++ [ch ' ', ch '-', ch ' '] ++ stringText (nmLt lt) ++
        [ch ':', ch ' ']) := by
  have hnm := length_nmLt lt
  let items : List TemplateItem := [
    .str (stringText cmp) (nul_notMem_stringText cmp) (by omega),
    .text [ch ' ', ch '-', ch ' '] (by decide) (by decide),
    .str (stringText (nmLt lt)) (nul_notMem_stringText (nmLt lt)) (by omega),
    .text [ch ':', ch ' '] (by decide) (by decide)]
  have houtput : items.flatMap TemplateItem.output = stringText cmp ++ [ch ' ', ch '-', ch ' '] ++
      stringText (nmLt lt) ++ [ch ':', ch ' '] := by
    simp [items, TemplateItem.output]
  have hformat : cString "%s - %s: " = items.flatMap TemplateItem.format ++ [0] := by
    have hbytes : cString "%s - %s: " = [ch '%', ch 's', ch ' ', ch '-', ch ' ', ch '%', ch 's',
      ch ':', ch ' ', 0] := by decide +kernel
    rw [hbytes]
    rfl
  have hargs : TemplateArgs items
      [⟨addr cmp, cString cmp⟩, ⟨addr (nmLt lt), cString (nmLt lt)⟩] :=
    .arg (takes_str _) (.noArg (.arg (takes_str _) (.noArg .nil)))
  have hlen : (items.flatMap TemplateItem.output).length ≤ intMax := by
    rw [houtput]
    simp only [List.length_append, List.length_cons, List.length_nil]
    omega
  rw [printedBytes_template [.str cmp, .str (nmLt lt)] hstack hformat hargs hlen, houtput]
  rfl

/-- The component, as `tty_printf` prints it. -/
lemma printedBytes_component (hstack : stack.length = 2048) {cmp : String}
    (hcmp : (stringText cmp).length + 16 ≤ intMax) :
    printedBytes (P.withNanoprintf addr stack) "%s - " [.str cmp] =
      sentText (stringText cmp ++ [ch ' ', ch '-', ch ' ']) := by
  let items : List TemplateItem := [
    .str (stringText cmp) (nul_notMem_stringText cmp) (by omega),
    .text [ch ' ', ch '-', ch ' '] (by decide) (by decide)]
  have houtput : items.flatMap TemplateItem.output = stringText cmp ++ [ch ' ', ch '-', ch ' '] := by
    simp [items, TemplateItem.output]
  have hformat : cString "%s - " = items.flatMap TemplateItem.format ++ [0] := by
    have hbytes : cString "%s - " = [ch '%', ch 's', ch ' ', ch '-', ch ' ', 0] := by
      decide +kernel
    rw [hbytes]
    rfl
  have hargs : TemplateArgs items [⟨addr cmp, cString cmp⟩] := .arg (takes_str _) (.noArg .nil)
  have hlen : (items.flatMap TemplateItem.output).length ≤ intMax := by
    rw [houtput]
    simp only [List.length_append, List.length_cons, List.length_nil]
    omega
  rw [printedBytes_template [.str cmp] hstack hformat hargs hlen, houtput]
  rfl

/-- The name of the type is a format of its own. -/
lemma printedBytes_nmLt (hstack : stack.length = 2048) (lt : LogType) :
    printedBytes (P.withNanoprintf addr stack) (nmLt lt) [] = sentText (stringText (nmLt lt)) := by
  have hnm := length_nmLt lt
  have hpercent : ch '%' ∉ stringText (nmLt lt) := by
    cases lt <;> decide +kernel
  let items : List TemplateItem :=
    [.text (stringText (nmLt lt)) (nul_notMem_stringText (nmLt lt)) hpercent]
  have houtput : items.flatMap TemplateItem.output = stringText (nmLt lt) := by
    simp [items, TemplateItem.output]
  have hformat : cString (nmLt lt) = items.flatMap TemplateItem.format ++ [0] := by
    have hbytes : cString (nmLt lt) = stringText (nmLt lt) ++ [0] := by
      cases lt <;> decide +kernel
    simp [items, TemplateItem.format, hbytes]
  have hlen : (items.flatMap TemplateItem.output).length ≤ intMax := by
    rw [houtput]
    unfold intMax
    omega
  have hargs : TemplateArgs items [] := .noArg .nil
  rw [printedBytes_template [] hstack hformat hargs hlen, houtput]
  rfl

variable {c : Console}

/-- One record. -/
lemma logln_record (hstack : stack.length = 2048) (h : CanReport c) (r : LogRecord addr) :
    Returns (logln (P.withNanoprintf addr stack) r.lt r.cmp r.msg r.args) c fun c' =>
      CanReport c' ∧ c'.serial = c.serial ++ r.line ∧ c'.term = c.term ++ r.calls := by
  have hmessage : printedBytes (P.withNanoprintf addr stack) r.msg r.args = sentText r.text :=
    printedBytes_template r.args hstack r.msg_eq r.takes r.length_output
  have hstate : c.lockState = ⟨false, false, true, true⟩ := by
    simp [Console.lockState, h.loggerLock, h.ttyLock, h.ttyEnabled, h.ftctx]
  have hlocks := returns_logln (P := P.withNanoprintf addr stack) r.lt r.cmp r.msg r.args hstate
  obtain ⟨a, c', hrun, hc'⟩ := logln_printed (P := P.withNanoprintf addr stack) h r.lt r.cmp r.msg
    r.args
  have hlocked : c'.lockState = ⟨false, false, true, true⟩ := (hlocks.of_eq hrun).1.trans hstate
  have hfree : c'.loggerLock = false := congrArg LockState.loggerLock hlocked
  refine ⟨a, c', hrun, ⟨hfree, hc'.ready.ttyLock, hc'.ready.ttyEnabled, hc'.ready.ftctx⟩, ?_, ?_⟩
  · rw [hc'.serial, printedBytes_header hstack r.lt r.length_cmp, hmessage, LogRecord.line]
  · have hcolon : (cString ": ").take 2 = [ch ':', ch ' '] := by decide +kernel
    rw [hc'.term, loglnHeader, printedBytes_component hstack r.length_cmp, printedBytes_nmLt hstack,
      hmessage, hcolon]
    rfl

/-- A run of calls of `logln` on a console that can report: every call returns, the console can report
after it, the serial port has received the lines of the records in turn, and so has the terminal. -/
theorem log_run (hstack : stack.length = 2048) (h : CanReport c) (rs : List (LogRecord addr)) :
    Returns (rs.forM fun r => logln (P.withNanoprintf addr stack) r.lt r.cmp r.msg r.args) c
      fun c' => CanReport c' ∧ c'.serial = c.serial ++ rs.flatMap LogRecord.line ∧
        c'.term = c.term ++ rs.flatMap LogRecord.calls := by
  induction rs generalizing c with
  | nil => exact returns_of_eq (pure_apply _ c) ⟨h, by simp, by simp⟩
  | cons r rs ih =>
    refine (logln_record (P := P) hstack h r).bind fun _ c₁ ⟨hreport, hserial, hterm⟩ => ?_
    refine (ih hreport).mono fun c' ⟨hreport', hserial', hterm'⟩ => ⟨hreport', ?_, ?_⟩
    · rw [hserial', hserial, List.flatMap_cons, List.append_assoc]
    · rw [hterm', hterm, List.flatMap_cons, List.append_assoc]

/-! ### Messages with a number -/

lemma length_intText_le {z : ℤ} (hz : z.natAbs ≤ 2 ^ 31) : (intText z).length ≤ 11 := by
  have hnat : (natText 10 z.natAbs).length ≤ 10 := by
    rw [natText]
    split
    · decide
    · rw [List.length_map, List.length_reverse]
      exact (Nat.digits_length_le_iff (by decide) _).mpr (hz.trans_lt (by decide))
  have hsign : (if z < 0 then [ch '-'] else []).length ≤ 1 := by
    split <;> decide
  rw [intText, List.length_append]
  omega

/-- What `%d` prints for `n`, as it is passed. -/
def numberText (n : ℤ) : List UInt8 := intText (BitVec.ofInt 32 n).toInt

lemma length_numberText_le (n : ℤ) : (numberText n).length ≤ 11 := by
  apply length_intText_le
  have hlo := (BitVec.ofInt 32 n).le_toInt
  have hhi := (BitVec.ofInt 32 n).toInt_lt
  omega

/-- A call of `logln` with the text `before`, a number and the text `after`. -/
def numberRecord (lt : LogType) (cmp msg before after : String)
    (hbefore : ch '%' ∉ stringText before) (hafter : ch '%' ∉ stringText after)
    (hmsg : cString msg = stringText before ++ [ch '%', ch 'd'] ++ stringText after ++ [0])
    (hlen : (stringText before).length + (stringText after).length + 11 ≤ intMax)
    (hcmp : (stringText cmp).length + 16 ≤ intMax) (n : ℤ) : LogRecord addr where
  lt := lt
  cmp := cmp
  msg := msg
  args := [.int n]
  items := [
    .text (stringText before) (nul_notMem_stringText before) hbefore,
    .int n,
    .text (stringText after) (nul_notMem_stringText after) hafter]
  msg_eq := by simpa [TemplateItem.format] using hmsg
  takes := by
    have hint : (TemplateItem.int n).Takes [⟨BitVec.ofInt 64 n, []⟩] := ⟨_, rfl, by
      apply BitVec.eq_of_toNat_eq
      simp only [BitVec.toNat_setWidth, BitVec.toNat_ofInt]
      omega⟩
    exact .noArg (.arg hint (.noArg .nil))
  length_output := by
    have hnumber := length_numberText_le n
    rw [numberText] at hnumber
    simp only [TemplateItem.output, List.flatMap_cons, List.flatMap_nil, List.length_append,
      List.length_nil]
    omega
  length_cmp := hcmp

/-- The call of `logln` in `sched_new_thread`. -/
def newThreadRecord (addr : String → BitVec 64) (tid : ℕ) : LogRecord addr :=
  numberRecord .info "sched" "new thread %d\n" "new thread " "\n" (by decide +kernel)
    (by decide +kernel) (by decide +kernel) (by decide +kernel) (by decide +kernel) tid

example : (newThreadRecord (fun _ => 0) 3).line =
    stringText "sched - info: " ++ [0] ++ (stringText "new thread 3\n" ++ [0]) := by decide +kernel

/-- The messages of the first two threads, on a terminal that has been enabled. -/
def newThreadRecords : List (LogRecord fun _ => 0) := [newThreadRecord _ 0, newThreadRecord _ 1]

theorem log_run_newThread : Returns (newThreadRecords.forM fun r =>
    logln (quietPlatform.withNanoprintf (fun _ => 0) (List.replicate 2048 0)) r.lt r.cmp r.msg r.args)
    { Console.boot with ttyEnabled := true, ftctx := true }
    fun c' => CanReport c' ∧ c'.serial = [] ++ newThreadRecords.flatMap LogRecord.line ∧
      c'.term = [] ++ newThreadRecords.flatMap LogRecord.calls :=
  log_run List.length_replicate ⟨rfl, rfl, rfl, rfl⟩ _

end Soaplin
