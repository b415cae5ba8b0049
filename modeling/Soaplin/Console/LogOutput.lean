import Soaplin.Console.Panic
import Soaplin.Console.Write

/-!
# What the logger prints

`serio_printf`, `tty_printf` and `logln` have a text formatted into a buffer and print as many bytes
of the buffer as `strlen` says.  `strlen` counts the `NUL`, so one byte more than the text is
printed (`prints_ttyPrintf`, `logln_printed`), whatever the text is (`log_output_never_exact`).
`Prints` describes a call by what the terminal and the serial port receive from it; the
descriptions of calls in a row are appended (`Prints.bind`).
-/

namespace Soaplin

open StateExcept

/-! ### Exact output -/

section Exact

variable (P : Platform) (format : String) (args : List FormatArg) (text : List UInt8)

/-- `serio_printf` sends the text and nothing else. -/
def SerioExact (c : Console) : Prop :=
  Returns (serioPrintf P format args) c fun c' => c'.serial = c.serial ++ text

/-- `tty_printf` passes the text to `tty_print`, and nothing else. -/
def TtyExact (c : Console) : Prop :=
  Returns (ttyPrintf P format args) c fun c' => c'.term = c.term ++ [.write text]

/-- The last thing that `logln` passes to `tty_print` is the text. -/
def LogTermExact (lt : LogType) (cmp : String) (c : Console) : Prop :=
  Returns (logln P lt cmp format args) c fun c' => ∃ ts, c'.term = c.term ++ ts ++ [.write text]

/-- Behind its header `logln` sends the text and nothing else. -/
def LogSerialExact (lt : LogType) (cmp : String) (c : Console) : Prop :=
  ∀ c₁, serioPrintf P "%s - %s: " [.str cmp, .str (nmLt lt)] c = .ok ((), c₁) →
    Returns (logln P lt cmp format args) c fun c' => c'.serial = c₁.serial ++ text

/-- The output of the three functions from the console `c` is the text, exactly. -/
structure OutputExact (lt : LogType) (cmp : String) (c : Console) : Prop where
  serio : SerioExact P format args text c
  tty : TermReady c → TtyExact P format args text c
  logTerm : CanReport c → LogTermExact P format args text lt cmp c
  logSerial : CanReport c → LogSerialExact P format args text lt cmp c

end Exact

/-! ### What a call prints -/

/-- From `c` to `c'` the terminal has received the calls `ts` and the serial port the bytes `bs`; the
terminal is ready. -/
structure Printed (c : Console) (ts : List TermCall) (bs : List UInt8) (c' : Console) : Prop where
  term : c'.term = c.term ++ ts
  serial : c'.serial = c.serial ++ bs
  ready : TermReady c'

/-- On a terminal that is ready the call returns, and prints `ts` and `bs`. -/
def Prints (m : Call Unit) (ts : List TermCall) (bs : List UInt8) : Prop :=
  ∀ c, TermReady c → Returns m c (Printed c ts bs)

/-- What is printed of the buffer that a text is formatted into. -/
def printedBytes (P : Platform) (format : String) (args : List FormatArg) : List UInt8 :=
  (P.npfVsnprintf format args).take (strlen (P.npfVsnprintf format args))

variable {P : Platform} {c : Console} {m : Call Unit} {ts ts' : List TermCall} {bs bs' : List UInt8}

/-- Two calls in a row. -/
lemma Prints.bind {f : Unit → Call Unit} (hm : Prints m ts bs) (hf : ∀ a, Prints (f a) ts' bs') :
    Prints (m >>= f) (ts ++ ts') (bs ++ bs') := by
  intro c hc
  refine (hm c hc).bind fun a c₁ h₁ => (hf a c₁ h₁.ready).mono fun c₂ h₂ => ⟨?_, ?_, h₂.ready⟩
  · rw [h₂.term, h₁.term, List.append_assoc]
  · rw [h₂.serial, h₁.serial, List.append_assoc]

/-- A call that has `tty_lock` around a body that only draws. -/
lemma prints_locked (hm : ∀ c : Console, c.ftctx = true →
      Returns m c fun t => t.term = c.term ++ ts ∧ t.serial = c.serial ∧
        t.ttyEnabled = c.ttyEnabled ∧ t.ftctx = true) :
    Prints (lockedWhenEnabled P m) ts [] := by
  intro c hc
  apply lockedWhenEnabled_enabled hc.ttyLock hc.ttyEnabled
  have hbody := hm { c with acquires := c.acquires + 1, ttyLock := true } hc.ftctx
  refine hbody.mono fun t ⟨hterm, hserial, hen, hctx⟩ => ⟨hterm, ?_, rfl, ?_, hctx⟩
  · rw [List.append_nil]
    exact hserial
  · exact hen.trans hc.ttyEnabled

/-- `tty_print`. -/
lemma prints_ttyPrint (str : List UInt8) (len : ℕ) :
    Prints (ttyPrint P str len) [.write (str.take len)] [] := by
  intro c hc
  refine returns_of_eq (ttyPrint_ready hc str len) ⟨rfl, ?_, hc.ttyLock, hc.ttyEnabled, hc.ftctx⟩
  exact (List.append_nil _).symm

/-- `tty_printf`. -/
lemma prints_ttyPrintf (format : String) (args : List FormatArg) :
    Prints (ttyPrintf P format args) [.write (printedBytes P format args)] [] := by
  intro c hc
  rw [Returns, ttyPrintf_enabled hc.ttyEnabled]
  exact prints_ttyPrint _ _ c hc

/-- `tty_set_fg`. -/
lemma prints_ttySetFg (fg : ℕ) : Prints (ttySetFg P fg) [.setTextFgRgb fg] [] := by
  apply prints_locked
  intro c hctx
  refine returns_of_eq (a := ()) (t := { c with
    fg := fg, term := c.term ++ [.setTextFgRgb fg] }) ?_ ⟨rfl, rfl, rfl, hctx⟩
  rw [bind_of_ok (modify_apply _ c)]
  exact ftctxCall_created hctx

/-- `tty_reset_col`. -/
lemma prints_ttyResetCol :
    Prints (ttyResetCol P) [.setTextBgDefault, .setTextFgDefault] [] := by
  apply prints_locked
  intro c hctx
  refine returns_of_eq (a := ()) (t := { c with
    term := c.term ++ [.setTextBgDefault] ++ [.setTextFgDefault] }) ?_ ⟨?_, rfl, rfl, hctx⟩
  · rw [bind_of_ok (ftctxCall_created hctx)]
    exact ftctxCall_created hctx
  · simp

/-- `serio_print`. -/
lemma prints_serioPrint (buf : List UInt8) (len : ℕ) :
    Prints (serioPrint buf len) [] (buf.take len) := by
  intro c hc
  refine returns_of_eq (modify_apply _ c) ⟨?_, rfl, hc.ttyLock, hc.ttyEnabled, hc.ftctx⟩
  exact (List.append_nil _).symm

/-- `serio_printf`. -/
lemma prints_serioPrintf (format : String) (args : List FormatArg) :
    Prints (serioPrintf P format args) [] (printedBytes P format args) :=
  prints_serioPrint _ _

/-- `spinlock_release` of the lock of the logger. -/
lemma prints_releaseLogger : Prints (spinlockRelease .loggerLock) [] [] := by
  intro c hc
  refine returns_of_eq (modify_apply _ c) ⟨?_, ?_, hc.ttyLock, hc.ttyEnabled, hc.ftctx⟩
  · exact (List.append_nil _).symm
  · exact (List.append_nil _).symm

/-! ### The logger -/

/-- The calls that the terminal receives before the message. -/
def loglnHeader (P : Platform) (lt : LogType) (cmp : String) : List TermCall := [
  .write (printedBytes P "%s - " [.str cmp]),
  .setTextFgRgb (fgLt lt),
  .write (printedBytes P (nmLt lt) []),
  .setTextBgDefault,
  .setTextFgDefault,
  .write ((cString ": ").take 2)]

/-- On a console that can report, `logln` prints its header and its message. -/
theorem logln_printed (h : CanReport c) (lt : LogType) (cmp msg : String) (args : List FormatArg) :
    Returns (logln P lt cmp msg args) c
      (Printed c (loglnHeader P lt cmp ++ [.write (printedBytes P msg args)])
        (printedBytes P "%s - %s: " [.str cmp, .str (nmLt lt)] ++ printedBytes P msg args)) := by
  have hready : TermReady { c with acquires := c.acquires + 1, loggerLock := true } :=
    ⟨h.ttyLock, h.ttyEnabled, h.ftctx⟩
  have hacq := spinlockAcquire_free (P := P) (l := .loggerLock) h.loggerLock
  have hterm : Prints (ttyPrint P (P.npfVsnprintf msg args) (strlen (P.npfVsnprintf msg args)))
      [.write (printedBytes P msg args)] [] := prints_ttyPrint _ _
  have hserial : Prints (serioPrint (P.npfVsnprintf msg args) (strlen (P.npfVsnprintf msg args)))
      [] (printedBytes P msg args) := prints_serioPrint _ _
  have hrest := (prints_ttyPrintf (P := P) "%s - " [.str cmp]).bind fun _ =>
    (prints_ttySetFg (P := P) (fgLt lt)).bind fun _ =>
    (prints_ttyPrintf (P := P) (nmLt lt) []).bind fun _ =>
    (prints_ttyResetCol (P := P)).bind fun _ =>
    (prints_ttyPrint (P := P) (cString ": ") 2).bind fun _ =>
    (prints_serioPrintf (P := P) "%s - %s: " [.str cmp, .str (nmLt lt)]).bind fun _ =>
    hterm.bind fun _ => hserial.bind fun _ => prints_releaseLogger
  rw [logln, Returns, bind_of_ok hacq]
  refine (hrest _ hready).mono fun c' h' => ⟨h'.term, ?_, h'.ready⟩
  have hbytes := h'.serial
  simpa using hbytes

/-! ### The main result -/

variable {format : String} {args : List FormatArg} {text : List UInt8}

/-- What is printed is the text and the `NUL`. -/
lemma printedBytes_eq (h : cText (P.npfVsnprintf format args) = some text) :
    printedBytes P format args = text ++ [0] :=
  take_strlen h

/-- The text is not the text with a byte behind it. -/
lemma ne_append_byte (text : List UInt8) (b : UInt8) : text ≠ text ++ [b] := by
  intro heq
  have hlen := congrArg List.length heq
  simp at hlen

/-- A call that sends one byte more than the text does not send the text. -/
lemma not_returns_text {s : List UInt8} (h : Returns m c fun c' => c'.serial = s ++ (text ++ [0])) :
    ¬ Returns m c fun c' => c'.serial = s ++ text := by
  intro hexact
  obtain ⟨c', hbytes, htext⟩ := h.and hexact
  rw [hbytes] at htext
  exact ne_append_byte text 0 (List.append_cancel_left htext).symm

/-- A call that last passes one byte more than the text to `tty_print` does not pass the text. -/
lemma not_returns_write
    (h : Returns m c fun c' => ∃ us, c'.term = us ++ [.write (text ++ [0])]) :
    ¬ Returns m c fun c' => ∃ us, c'.term = us ++ [.write text] := by
  intro hexact
  obtain ⟨c', ⟨us, hterm⟩, us', htext⟩ := h.and hexact
  rw [hterm] at htext
  have hlast : [TermCall.write (text ++ [0])] = [TermCall.write text] :=
    List.append_inj_right' htext rfl
  simp at hlast

/-- Whatever a call of `npf_vsnprintf` leaves as the text in its buffer, the output is never exactly
the text: neither the bytes that `serio_printf` sends, nor those that `tty_printf` passes to
`tty_print`, nor those that `logln` passes to `tty_print` and sends. -/
theorem log_output_never_exact (h : cText (P.npfVsnprintf format args) = some text) :
    (∀ c, ¬ SerioExact P format args text c) ∧
    (∀ c, TermReady c → ¬ TtyExact P format args text c) ∧
    (∀ lt cmp c, CanReport c → ¬ LogTermExact P format args text lt cmp c) ∧
    ∀ lt cmp c, CanReport c → ¬ LogSerialExact P format args text lt cmp c := by
  have hprinted := printedBytes_eq h
  refine ⟨fun c => ?_, fun c hc hexact => ?_, fun lt cmp c hc hexact => ?_,
    fun lt cmp c hc hexact => ?_⟩
  · apply not_returns_text
    rw [← hprinted]
    exact returns_of_eq (modify_apply _ c) rfl
  · refine not_returns_write ?_ (hexact.mono fun c' hterm => ⟨_, hterm⟩)
    rw [← hprinted]
    exact (prints_ttyPrintf format args c hc).mono fun c' h' => ⟨_, h'.term⟩
  · refine not_returns_write ?_ (hexact.mono fun c' ⟨ts, hterm⟩ => ⟨_, hterm⟩)
    rw [← hprinted]
    refine (logln_printed hc lt cmp format args).mono fun c' h' =>
      ⟨c.term ++ loglnHeader P lt cmp, ?_⟩
    exact h'.term.trans (List.append_assoc _ _ _).symm
  · refine not_returns_text ?_ (hexact _ (modify_apply _ c))
    rw [← hprinted]
    refine (logln_printed hc lt cmp format args).mono fun c' h' => ?_
    exact h'.serial.trans (List.append_assoc _ _ _).symm

/-- A formatter for `%s`. -/
def formatStrs : List UInt8 → List FormatArg → List UInt8
  | 37 :: 115 :: format, .str s :: args => s.toUTF8.toList ++ formatStrs format args
  | b :: format, args => b :: formatStrs format args
  | [], _ => []

/-- A buffer of 2048 bytes with a text in it. -/
def bufferOf (text : List UInt8) : List UInt8 := text ++ 0 :: List.replicate (2047 - text.length) 0

/-- A platform that formats `%s`. -/
def strPlatform : Platform where
  panic _ c := .halted c
  npfVsnprintf format args := bufferOf (formatStrs format.toUTF8.toList args)
  cntJunk _ := 0

/-- The bytes of `"panic! UNKNOWN\n"`. -/
def unknownPanic : List UInt8 := "panic! UNKNOWN\n".toUTF8.toList

/-- The message of `panic(0, NULL)` in its buffer. -/
lemma cText_unknownPanic :
    cText (strPlatform.npfVsnprintf "panic! %s\n" [.str "UNKNOWN"]) = some unknownPanic := by
  have hformat : formatStrs "panic! %s\n".toUTF8.toList [.str "UNKNOWN"] = unknownPanic := by
    decide +kernel
  have hnul : 0 ∉ unknownPanic := by decide +kernel
  change cText (bufferOf (formatStrs "panic! %s\n".toUTF8.toList [.str "UNKNOWN"])) = _
  rw [hformat]
  exact cText_append_nul hnul

/-- The message of `panic(0, NULL)` is never printed exactly. -/
theorem log_output_never_exact_panic :
    ¬ SerioExact strPlatform "panic! %s\n" [.str "UNKNOWN"] unknownPanic readyConsole ∧
    ¬ TtyExact strPlatform "panic! %s\n" [.str "UNKNOWN"] unknownPanic readyConsole ∧
    ¬ LogTermExact strPlatform "panic! %s\n" [.str "UNKNOWN"] unknownPanic .info "kernel"
      readyConsole ∧
    ¬ LogSerialExact strPlatform "panic! %s\n" [.str "UNKNOWN"] unknownPanic .info "kernel"
      readyConsole := by
  obtain ⟨hserio, htty, hterm, hserial⟩ := log_output_never_exact cText_unknownPanic
  exact ⟨hserio _, htty _ ⟨rfl, rfl, rfl⟩, hterm _ _ _ ⟨rfl, rfl, rfl, rfl⟩,
    hserial _ _ _ ⟨rfl, rfl, rfl, rfl⟩⟩

/-- `serio_printf` sends a `NUL` behind the message. -/
theorem log_output_not_exact :
    (∃ c', serioPrintf strPlatform "panic! %s\n" [.str "UNKNOWN"] readyConsole = .ok ((), c') ∧
      c'.serial = unknownPanic ++ [0]) ∧
    ¬ OutputExact strPlatform "panic! %s\n" [.str "UNKNOWN"] unknownPanic .info "kernel"
      readyConsole := by
  have hprinted := printedBytes_eq cText_unknownPanic
  have hrun : Returns (serioPrintf strPlatform "panic! %s\n" [.str "UNKNOWN"]) readyConsole
      fun c' => c'.serial = readyConsole.serial ++ (unknownPanic ++ [0]) := by
    rw [← hprinted]
    exact returns_of_eq (modify_apply _ readyConsole) rfl
  refine ⟨?_, fun h => not_returns_text hrun h.serio⟩
  obtain ⟨_, c', hret, hserial⟩ := hrun
  exact ⟨c', hret, hserial⟩

end Soaplin
