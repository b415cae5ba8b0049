import Soaplin.Console.Tty

/-!
# The serial port

The rest of `dev/serio.c`: `serio_init` and the loop of `serio_print`, which write to the registers of
a UART.  `serio_init` tests the chip in its loopback mode and leaves this mode only if the test
succeeds.  Its result is not used, so with a chip that fails the test everything that is printed
goes round in a loop.  `serial_line_exact` says what arrives on the line in either case.
-/

namespace Soaplin

/-! ### The chip -/

/-- What is particular to a chip: the byte that it receives in the loopback mode when a byte is sent,
and how often the line status is read until the transmitter is empty again, which depends on the
bytes on the line so far. -/
structure UartChip where
  echo : UInt8 → UInt8
  busyFor : List UInt8 → ℕ
  delay : ℕ
  busyFor_le : ∀ bs, busyFor bs ≤ delay

/-- The registers of a UART, the reads of the line status for which the transmitter is busy, and the
bytes that have gone out on the line. -/
structure Uart where
  ier : UInt8
  fcr : UInt8
  lcr : UInt8
  mcr : UInt8
  divisorLow : UInt8
  divisorHigh : UInt8
  received : UInt8
  busy : ℕ
  line : List UInt8

/-- The first two registers give access to the divisor. -/
def Uart.Dlab (u : Uart) : Prop := u.lcr &&& 0x80 ≠ 0

instance (u : Uart) : Decidable u.Dlab := inferInstanceAs (Decidable (_ ≠ _))

/-- The transmitter is connected to the receiver. -/
def Uart.Loopback (u : Uart) : Prop := u.mcr &&& 0x10 ≠ 0

instance (u : Uart) : Decidable u.Loopback := inferInstanceAs (Decidable (_ ≠ _))

variable (C : UartChip)

/-- A byte for the transmitter.  It is lost when the transmitter is not empty. -/
def Uart.send (u : Uart) (v : UInt8) : Uart :=
  if u.busy ≠ 0 then u
  else if u.Loopback then { u with received := C.echo v, busy := C.busyFor u.line }
  else { u with line := u.line ++ [v], busy := C.busyFor (u.line ++ [v]) }

/-- `outb` to the register with this number. -/
def Uart.outb (u : Uart) (reg : ℕ) (v : UInt8) : Uart :=
  match reg with
  | 0 => if u.Dlab then { u with divisorLow := v } else u.send C v
  | 1 => if u.Dlab then { u with divisorHigh := v } else { u with ier := v }
  -- clearing the transmitter's queue only counts together with enabling it
  | 2 => { u with fcr := v, busy := if v &&& 0x05 = 0x05 then 0 else u.busy }
  | 3 => { u with lcr := v }
  | 4 => { u with mcr := v }
  | _ => u

/-- `inb` from the register with this number: the receiver or the line status, the two registers that
are read. -/
def Uart.inb (u : Uart) (reg : ℕ) : UInt8 × Uart :=
  match reg with
  | 0 => (if u.Dlab then u.divisorLow else u.received, u)
  | 5 => if u.busy = 0 then (0x60, u) else (0, { u with busy := u.busy - 1 })
  | _ => (0, u)

/-! ### `serio.c` -/

/-- `is_transmit_empty`. -/
def isTransmitEmpty (u : Uart) : UInt8 × Uart :=
  ((u.inb 5).1 &&& 0x20, (u.inb 5).2)

/-- The inner loop of `serio_print`. -/
def waitTransmitEmpty : ℕ → Uart → Option Uart
  | 0, _ => none
  | fuel + 1, u =>
    let (empty, u) := isTransmitEmpty u
    if empty = 0 then waitTransmitEmpty fuel u else some u

/-- The outer loop of `serio_print`. -/
def transmit (fuel : ℕ) : List UInt8 → Uart → Option Uart
  | [], u => some u
  | b :: bs, u => (waitTransmitEmpty fuel u).bind fun u => transmit fuel bs (u.outb C 0 b)

/-- `serio_print` on the port. -/
def portPrint (fuel : ℕ) (u : Uart) (buf : List UInt8) (len : ℕ) : Option Uart :=
  transmit C fuel (buf.take len) u

/-- The registers that `serio_init` writes before it reads the receiver. -/
def serioInitWrites : List (ℕ × UInt8) :=
  [(1, 0x00), (3, 0x80), (0, 0x03), (1, 0x00), (3, 0x03), (2, 0xC7), (4, 0x0B), (4, 0x1E), (0, 0xAE)]

/-- `serio_init`. -/
def serioInit (fuel : ℕ) (u : Uart) : Option (ℕ × Uart) :=
  let u := serioInitWrites.foldl (fun u w => u.outb C w.1 w.2) u
  let (byte, u) := u.inb 0
  if byte ≠ 0xAE then some (1, u)
  else do
    let u ← portPrint C fuel (u.outb C 4 0x0F) (cString "=============================\n") 30
    let u ← portPrint C fuel u (cString "  Soaplin Kernel Logs:START  \n") 30
    let u ← portPrint C fuel u (cString "=============================\n") 30
    return (0, u)

/-- The calls of `serio_print` after it, each with its buffer and its number of bytes. -/
def portPrints (fuel : ℕ) : List (List UInt8 × ℕ) → Uart → Option Uart
  | [], u => some u
  | c :: cs, u => (portPrint C fuel u c.1 c.2).bind (portPrints fuel cs)

/-! ### Printing -/

variable {C} {fuel : ℕ} {u u' : Uart} {bs : List UInt8}

/-- The driver has programmed the port: the divisor is out of the way, and the transmitter is empty
after a bounded number of reads. -/
structure Uart.Ready (C : UartChip) (u : Uart) : Prop where
  dlab : ¬ u.Dlab
  busy_le : u.busy ≤ C.delay

/-- The port `u'` is `u` after the bytes `bs` have been printed: they are on the line, in the loopback
mode not. -/
structure Uart.Transmitted (C : UartChip) (u u' : Uart) (bs : List UInt8) : Prop where
  line : u'.line = u.line ++ if u.Loopback then [] else bs
  busy_le : u'.busy ≤ C.delay
  ier : u'.ier = u.ier
  lcr : u'.lcr = u.lcr
  mcr : u'.mcr = u.mcr
  divisorLow : u'.divisorLow = u.divisorLow
  divisorHigh : u'.divisorHigh = u.divisorHigh

namespace Uart.Transmitted

/-- The port is still programmed. -/
lemma ready (h : Uart.Transmitted C u u' bs) (hu : u.Ready C) : u'.Ready C :=
  ⟨by rw [Uart.Dlab, h.lcr]; exact hu.dlab, h.busy_le⟩

/-- The mode is the same. -/
lemma loopback (h : Uart.Transmitted C u u' bs) : u'.Loopback ↔ u.Loopback := by
  rw [Uart.Loopback, h.mcr, Uart.Loopback]

/-- Printing twice in a row. -/
lemma trans {u'' : Uart} {bs' : List UInt8} (h : Uart.Transmitted C u u' bs)
    (h' : Uart.Transmitted C u' u'' bs') : Uart.Transmitted C u u'' (bs ++ bs') := by
  refine ⟨?_, h'.busy_le, h'.ier.trans h.ier, h'.lcr.trans h.lcr, h'.mcr.trans h.mcr,
    h'.divisorLow.trans h.divisorLow, h'.divisorHigh.trans h.divisorHigh⟩
  rw [h'.line, h.line]
  simp only [h.loopback]
  split_ifs <;> simp

end Uart.Transmitted

/-- The inner loop ends as soon as the transmitter is empty. -/
lemma waitTransmitEmpty_eq (h : u.busy < fuel) :
    waitTransmitEmpty fuel u = some { u with busy := 0 } := by
  induction fuel generalizing u with
  | zero => cases h
  | succ fuel ih =>
    rw [waitTransmitEmpty]
    by_cases hbusy : u.busy = 0
    · have hstep : isTransmitEmpty u = (0x20, u) := by
        rw [isTransmitEmpty, Uart.inb, if_pos hbusy, Prod.mk.injEq]
        exact ⟨(by decide : (0x60 &&& 0x20 : UInt8) = 0x20), rfl⟩
      rw [hstep]
      dsimp only
      rw [if_neg (by decide), ← hbusy]
    · have hstep : isTransmitEmpty u = (0, { u with busy := u.busy - 1 }) := by
        rw [isTransmitEmpty, Uart.inb, if_neg hbusy, Prod.mk.injEq]
        exact ⟨(by decide : (0 &&& 0x20 : UInt8) = 0), rfl⟩
      rw [hstep]
      exact ih (by dsimp only; omega)

/-- A byte for an empty transmitter. -/
lemma printed_send (hdlab : ¬ u.Dlab) (hbusy : u.busy = 0) (b : UInt8) :
    Uart.Transmitted C u (u.outb C 0 b) [b] := by
  rw [Uart.outb, if_neg hdlab, Uart.send, if_neg (not_not.mpr hbusy)]
  split_ifs with hloop
  · exact ⟨by rw [if_pos hloop, List.append_nil], C.busyFor_le _, rfl, rfl, rfl, rfl, rfl⟩
  · exact ⟨by rw [if_neg hloop], C.busyFor_le _, rfl, rfl, rfl, rfl, rfl⟩

/-- The outer loop sends every byte once, in their order. -/
lemma transmit_printed (hready : u.Ready C) (hfuel : C.delay < fuel) (bs : List UInt8) :
    ∃ u', transmit C fuel bs u = some u' ∧ Uart.Transmitted C u u' bs := by
  induction bs generalizing u with
  | nil => exact ⟨u, rfl, by simp, hready.busy_le, rfl, rfl, rfl, rfl, rfl⟩
  | cons b bs ih =>
    have hwait := waitTransmitEmpty_eq (hready.busy_le.trans_lt hfuel)
    have hempty : ({ u with busy := 0 } : Uart).Ready C := ⟨hready.dlab, Nat.zero_le _⟩
    have hsend := printed_send (C := C) hempty.dlab rfl b
    obtain ⟨u', hrun, hrest⟩ := ih (hsend.ready hempty)
    refine ⟨u', ?_, ?_⟩
    · rw [transmit, hwait, Option.bind_some, hrun]
    · have h := hsend.trans hrest
      exact ⟨h.line, h.busy_le, h.ier, h.lcr, h.mcr, h.divisorLow, h.divisorHigh⟩

/-- So do the calls of `serio_print`. -/
lemma portPrints_printed (hready : u.Ready C) (hfuel : C.delay < fuel) (cs : List (List UInt8 × ℕ)) :
    ∃ u', portPrints C fuel cs u = some u' ∧
      Uart.Transmitted C u u' (cs.flatMap fun c => c.1.take c.2) := by
  induction cs generalizing u with
  | nil => exact ⟨u, rfl, by simp, hready.busy_le, rfl, rfl, rfl, rfl, rfl⟩
  | cons c cs ih =>
    obtain ⟨u₁, hrun₁, hprinted₁⟩ := transmit_printed hready hfuel (c.1.take c.2)
    obtain ⟨u₂, hrun₂, hprinted₂⟩ := ih (hprinted₁.ready hready)
    refine ⟨u₂, ?_, hprinted₁.trans hprinted₂⟩
    rw [portPrints, portPrint, hrun₁, Option.bind_some, hrun₂]

/-! ### Initialization -/

/-- The banner of the kernel's log. -/
def logBanner : List UInt8 :=
  ("=============================\n  Soaplin Kernel Logs:START  \n" ++
    "=============================\n").toUTF8.toList

/-- The three prints of the banner are as long as their texts. -/
lemma banner_bytes : (cString "=============================\n").take 30 ++
    (cString "  Soaplin Kernel Logs:START  \n").take 30 ++
      (cString "=============================\n").take 30 = logBanner := by
  decide +kernel

/-- The port after the writes of `serio_init`, on a chip in any state: the first write does not reach
the interrupts if the divisor was in the way. -/
lemma serioInitWrites_foldl (C : UartChip) (u : Uart) :
    serioInitWrites.foldl (fun u w => u.outb C w.1 w.2) u =
      { ier := if u.Dlab then u.ier else 0
        fcr := 0xC7
        lcr := 0x03
        mcr := 0x1E
        divisorLow := 0x03
        divisorHigh := 0x00
        received := C.echo 0xAE
        busy := C.busyFor u.line
        line := u.line } := by
  by_cases hd : u.lcr &&& 0x80 = 0
  · simp +decide [serioInitWrites, Uart.outb, Uart.send, Uart.Dlab, Uart.Loopback, hd]
  · simp +decide [serioInitWrites, Uart.outb, Uart.send, Uart.Dlab, Uart.Loopback, hd]

/-- What `serio_init` and the prints after it leave, on a chip that was in the state `u₀`. -/
structure SerialLine (C : UartChip) (u₀ u : Uart) (result : ℕ) (sent : List UInt8) : Prop where
  /-- The result tells whether the chip has passed the test. -/
  result : result = if C.echo 0xAE = 0xAE then 0 else 1
  /-- Then the banner and everything printed after it is on the line, and nothing otherwise. -/
  line : u.line = u₀.line ++ if C.echo 0xAE = 0xAE then logBanner ++ sent else []
  /-- The line has 38400 baud, eight bits and no parity. -/
  format : u.divisorLow = 3 ∧ u.divisorHigh = 0 ∧ u.lcr = 3
  /-- The port is in the loopback mode if and only if it has failed the test. -/
  loopback : u.Loopback ↔ C.echo 0xAE ≠ 0xAE
  /-- Its interrupts are disabled, unless the divisor was in the way of the first write. -/
  ier : u.ier = if u₀.Dlab then u₀.ier else 0

/-- The port when `serio_init` returns. -/
lemma serioInit_exact (hfuel : C.delay < fuel) (u₀ : Uart) :
    ∃ r u, serioInit C fuel u₀ = some (r, u) ∧ u.Ready C ∧ SerialLine C u₀ u r [] := by
  have hwrites := serioInitWrites_foldl C u₀
  generalize hprog : serioInitWrites.foldl (fun u w => u.outb C w.1 w.2) u₀ = u₁ at hwrites
  have hlcr : u₁.lcr = 3 := by rw [hwrites]
  have hdlab : ¬ u₁.Dlab := by
    rw [Uart.Dlab, hlcr]
    decide
  have hbusy : u₁.busy ≤ C.delay := by
    rw [hwrites]
    exact C.busyFor_le _
  have hread : u₁.inb 0 = (C.echo 0xAE, u₁) := by
    rw [Uart.inb, if_neg hdlab, hwrites]
  rw [serioInit, hprog]
  dsimp only
  rw [hread]
  by_cases hecho : C.echo 0xAE = 0xAE
  · rw [if_neg (not_not.mpr hecho)]
    -- the mode is left, and the banner is printed
    have hready : (u₁.outb C 4 0x0F).Ready C := ⟨hdlab, hbusy⟩
    obtain ⟨u₂, hrun₂, hprinted₂⟩ :=
      transmit_printed hready hfuel ((cString "=============================\n").take 30)
    obtain ⟨u₃, hrun₃, hprinted₃⟩ := transmit_printed (hprinted₂.ready hready) hfuel
      ((cString "  Soaplin Kernel Logs:START  \n").take 30)
    have hready₃ := hprinted₃.ready (hprinted₂.ready hready)
    obtain ⟨u₄, hrun₄, hprinted₄⟩ :=
      transmit_printed hready₃ hfuel ((cString "=============================\n").take 30)
    have hprinted := (hprinted₂.trans hprinted₃).trans hprinted₄
    refine ⟨0, u₄, ?_, hprinted₄.ready hready₃, ?_⟩
    · simp only [portPrint, hrun₂, hrun₃, hrun₄, Option.bind_eq_bind, Option.bind_some,
        Option.pure_def]
    · have hmode : ¬ (u₁.outb C 4 0x0F).Loopback := show ¬ (0x0F : UInt8) &&& 0x10 ≠ 0 by decide
      have hline := hprinted.line
      rw [if_neg hmode, banner_bytes] at hline
      refine ⟨by rw [if_pos hecho], ?_, ⟨?_, ?_, hprinted.lcr.trans hlcr⟩, ?_, ?_⟩
      · rw [if_pos hecho, List.append_nil, hline]
        exact congrArg (· ++ logBanner) (by rw [Uart.outb, hwrites])
      · rw [hprinted.divisorLow, Uart.outb, hwrites]
      · rw [hprinted.divisorHigh, Uart.outb, hwrites]
      · rw [hprinted.loopback]
        exact iff_of_false hmode (not_not.mpr hecho)
      · rw [hprinted.ier, Uart.outb, hwrites]
  · rw [if_pos hecho]
    refine ⟨1, u₁, rfl, ⟨hdlab, hbusy⟩, ?_, ?_, ?_, ?_, ?_⟩
    · rw [if_neg hecho]
    · rw [if_neg hecho, hwrites, List.append_nil]
    · rw [hwrites]
      exact ⟨rfl, rfl, rfl⟩
    · rw [hwrites]
      exact iff_of_true (show (0x1E : UInt8) &&& 0x10 ≠ 0 by decide) hecho
    · rw [hwrites]

/-- The calls of `serio_print` in the model of the console record their bytes. -/
lemma serioPrints_run (cs : List (List UInt8 × ℕ)) (c : Console) :
    (cs.forM fun b => serioPrint b.1 b.2).run c =
      .ok ((), { c with serial := c.serial ++ cs.flatMap fun b => b.1.take b.2 }) := by
  induction cs generalizing c with
  | nil =>
    rw [List.flatMap_nil, List.append_nil]
    rfl
  | cons b cs ih =>
    change (cs.forM fun b => serioPrint b.1 b.2).run
      { c with serial := c.serial ++ b.1.take b.2 } = _
    rw [ih, List.flatMap_cons, List.append_assoc]

/-! ### The main result -/

/-- On every chip in every state, `serio_init` and any calls of `serio_print` after it return, and the
line gets the banner and the bytes printed, each of them once and in their order, if and only if the
chip passes the test of `serio_init`.  These bytes are what the model of the console records. -/
theorem serial_line_exact (hfuel : C.delay < fuel) (u₀ : Uart) (cs : List (List UInt8 × ℕ))
    (c : Console) : ∃ r u₁ u c', serioInit C fuel u₀ = some (r, u₁) ∧
      portPrints C fuel cs u₁ = some u ∧
      (cs.forM fun b => serioPrint b.1 b.2).run c = .ok ((), c') ∧
      ∃ sent, c'.serial = c.serial ++ sent ∧ SerialLine C u₀ u r sent := by
  obtain ⟨r, u₁, hinit, hready, hline⟩ := serioInit_exact hfuel u₀
  obtain ⟨u, hrun, hprinted⟩ := portPrints_printed hready hfuel cs
  refine ⟨r, u₁, u, _, hinit, hrun, serioPrints_run cs c, _, rfl, hline.result, ?_, ?_, ?_, ?_⟩
  · rw [hprinted.line, hline.line]
    by_cases hecho : C.echo 0xAE = 0xAE
    · rw [if_pos hecho, if_pos hecho, if_neg (by rw [hline.loopback]; exact not_not.mpr hecho),
        List.append_nil, List.append_assoc]
    · rw [if_neg hecho, if_neg hecho, if_pos (hline.loopback.mpr hecho), List.append_nil]
  · rw [hprinted.divisorLow, hprinted.divisorHigh, hprinted.lcr]
    exact hline.format
  · rw [hprinted.loopback, hline.loopback]
  · rw [hprinted.ier, hline.ier]

/-- A chip that receives what it sends, and is busy for as many reads as there are bytes on the line,
up to eight. -/
def soundChip : UartChip where
  echo := id
  busyFor := fun bs => min bs.length 8
  delay := 8
  busyFor_le := fun _ => Nat.min_le_right _ _

/-- A port that has been left in the middle of a byte, with the divisor in the way. -/
def strayUart : Uart := ⟨0x0F, 0, 0x80, 0, 0, 0, 0, 5, []⟩

/-- A greeting over this port. -/
theorem serial_line_exact_hello : ∃ r u₁ u c', serioInit soundChip 9 strayUart = some (r, u₁) ∧
    portPrints soundChip 9 [(cString "hello", 5)] u₁ = some u ∧
    ([(cString "hello", 5)].forM fun b => serioPrint b.1 b.2).run Console.boot = .ok ((), c') ∧
    ∃ sent, c'.serial = Console.boot.serial ++ sent ∧ SerialLine soundChip strayUart u r sent :=
  serial_line_exact (by decide) strayUart _ _

end Soaplin
