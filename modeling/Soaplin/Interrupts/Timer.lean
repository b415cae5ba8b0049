import Soaplin.Interrupts.Pic

/-!
# The timer and the masks of the controllers

The rest of `arch/x86_64/pic.c`, the masks of the lines, and the programming of the timer in
`arch/x86_64/pit.c`.  The functions may be called in any order after `pic_init`.
`timer_calls_exact` says when such a run is defined, which lines are masked after it, and for which
frequencies the timer has the period that has been asked for.
-/

namespace Soaplin

/-! ### The hardware -/

/-- The byte that channel 0 of the timer expects. -/
inductive PitExpects
  | low
  | high (low : UInt8)

/-- Channel 0 of the timer. -/
structure Pit where
  expects : PitExpects
  /-- The low half of the control word: whether the counter is decimal, and the mode. -/
  mode : UInt8
  reload : ℕ

/-- A control word for channel 0 with access to both bytes. -/
def Pit.control (p : Pit) (v : UInt8) : Pit :=
  if v &&& 0xF0 = 0x30 then { p with expects := .low, mode := v &&& 0x0F } else p

/-- A byte on the data port. -/
def Pit.data (p : Pit) (v : UInt8) : Pit :=
  match p.expects with
  | .low => { p with expects := .high v }
  | .high low => { p with expects := .low, reload := low.toNat + 256 * v.toNat }

/-- Channel 0 is a rate generator with a binary counter: mode 2, whose highest bit is not used. -/
def Pit.RateGenerator (p : Pit) : Prop := p.mode &&& 0x07 = 0x04

instance (p : Pit) : Decidable p.RateGenerator := inferInstanceAs (Decidable (_ = _))

/-- The number of clock ticks between two interrupts of the rate generator.  A counter of `0` stands
for `65536`, and a counter of `1` is not allowed in this mode. -/
def Pit.period (p : Pit) : Option ℕ :=
  if p.RateGenerator then
    if p.reload = 0 then some 65536 else if p.reload = 1 then none else some p.reload
  else none

/-- The mode and the reload value. -/
def Pit.counter (p : Pit) : UInt8 × ℕ := (p.mode, p.reload)

/-- The timer and the controllers. -/
structure TimerChips where
  pics : Pics
  pit : Pit

/-- What a call of `outb` does to them. -/
def TimerChips.write (c : TimerChips) (o : Outb) : TimerChips :=
  if o.port = 0x43 then { c with pit := c.pit.control o.val }
  else if o.port = 0x40 then { c with pit := c.pit.data o.val }
  else { c with pics := c.pics.write o }

/-- The bit of the line `n` in the masks. -/
def Pics.masked (p : Pics) (n : Fin 16) : Bool :=
  if n.val < 8 then p.pic1.mask.toNat.testBit n else p.pic2.mask.toNat.testBit (n - 8)

/-! ### `pic.c` and `pit.c` -/

/-- The low byte of `1 << irq`.  From 31 on the result is no `int`, and the shift is undefined. -/
def shiftedOne (irq : ℕ) : Option UInt8 := if irq < 31 then some (.ofNat (2 ^ irq)) else none

/-- The common part of `pic_mask_irq` and `pic_unmask_irq`. -/
def picUpdateIrq (update : UInt8 → UInt8 → UInt8) (p : Pics) (irq : UInt8) : Option (List Outb) :=
  if irq < 8 then
    (shiftedOne irq.toNat).map fun bit => [⟨pic1Data, update p.pic1.mask bit⟩]
  else
    (shiftedOne (irq - 8).toNat).map fun bit => [⟨pic2Data, update p.pic2.mask bit⟩]

/-- `pic_mask_irq`. -/
def picMaskIrq : Pics → UInt8 → Option (List Outb) := picUpdateIrq fun value bit => value ||| bit

/-- `pic_unmask_irq`. -/
def picUnmaskIrq : Pics → UInt8 → Option (List Outb) :=
  picUpdateIrq fun value bit => value &&& ~~~bit

/-- `pic_disable`. -/
def picDisable : List Outb := [⟨pic2Data, 0xff⟩, ⟨pic1Data, 0xff⟩]

/-- `PIT_FREQUENCY`. -/
def pitFrequency : UInt32 := 1193182

/-- `pit_init`; the division is undefined for the frequency `0`. -/
def pitInit (frequency : UInt32) : Option (List Outb) :=
  if frequency = 0 then none
  else
    let divisor := pitFrequency / frequency
    some [⟨0x43, 0x34⟩, ⟨0x40, (divisor &&& 0xFF).toUInt8⟩, ⟨0x40, ((divisor >>> 8) &&& 0xFF).toUInt8⟩]

/-- `pit_enable`. -/
def pitEnable (p : Pics) : Option (List Outb) := picUnmaskIrq p 0

/-- `pit_disable`. -/
def pitDisable (p : Pics) : Option (List Outb) := picMaskIrq p 0

/-- The calls of a run. -/
inductive TimerCall
  | picAck (intno : ℤ)
  | picDisable
  | picMaskIrq (irq : UInt8)
  | picUnmaskIrq (irq : UInt8)
  | pitInit (frequency : UInt32)
  | pitEnable
  | pitDisable

/-- What a call writes, when the chips are in the state `c`. -/
def TimerCall.writes (c : TimerChips) : TimerCall → Option (List Outb)
  | .picAck intno => some (Soaplin.picAck intno)
  | .picDisable => some Soaplin.picDisable
  | .picMaskIrq irq => Soaplin.picMaskIrq c.pics irq
  | .picUnmaskIrq irq => Soaplin.picUnmaskIrq c.pics irq
  | .pitInit frequency => Soaplin.pitInit frequency
  | .pitEnable => Soaplin.pitEnable c.pics
  | .pitDisable => Soaplin.pitDisable c.pics

/-- A run of calls. -/
def timerCalls : List TimerCall → TimerChips → Option TimerChips
  | [], c => some c
  | call :: calls, c => (call.writes c).bind fun os => timerCalls calls (os.foldl TimerChips.write c)

/-! ### What the calls are for -/

/-- The calls that are defined. -/
def TimerCall.Defined : TimerCall → Prop
  | .picMaskIrq irq => irq.toNat < 39
  | .picUnmaskIrq irq => irq.toNat < 39
  | .pitInit frequency => frequency ≠ 0
  | _ => True

/-- Whether the line `n` is masked after a call, when `b` says whether it has been before. -/
def TimerCall.masks (n : Fin 16) (b : Bool) : TimerCall → Bool
  | .picDisable => true
  | .picMaskIrq irq => b || irq.toNat = n
  | .picUnmaskIrq irq => b && irq.toNat ≠ n
  | .pitEnable => b && n.val ≠ 0
  | .pitDisable => b || n.val = 0
  | _ => b

/-- The mode and the reload value of the timer after a call. -/
def TimerCall.counter (r : UInt8 × ℕ) : TimerCall → UInt8 × ℕ
  | .pitInit frequency => (0x04, 1193182 / frequency.toNat % 65536)
  | _ => r

/-! ### Bits -/

variable {m bit : UInt8} {k n : ℕ}

/-- The bits of the byte with one bit. -/
lemma testBit_shiftedOne (hbit : shiftedOne k = some bit) (hn : n < 8) :
    bit.toNat.testBit n = decide (k = n) := by
  rw [shiftedOne] at hbit
  split_ifs at hbit
  obtain rfl := Option.some.inj hbit
  rw [UInt8.toNat_ofNat', Nat.testBit_mod_two_pow, Nat.testBit_two_pow]
  simp [hn]

/-- Setting a bit. -/
lemma testBit_or_shiftedOne (hbit : shiftedOne k = some bit) (hn : n < 8) (m : UInt8) :
    (m ||| bit).toNat.testBit n = (m.toNat.testBit n || k = n) := by
  rw [UInt8.toNat_or, Nat.testBit_or, testBit_shiftedOne hbit hn]

/-- Clearing a bit. -/
lemma testBit_and_shiftedOne (hbit : shiftedOne k = some bit) (hn : n < 8) (m : UInt8) :
    (m &&& ~~~bit).toNat.testBit n = (m.toNat.testBit n && k ≠ n) := by
  have hnot : (~~~bit).toNat = 2 ^ 8 - (bit.toNat + 1) := by
    rw [UInt8.toNat_not, UInt8.size]
    omega
  rw [UInt8.toNat_and, Nat.testBit_and, hnot, Nat.testBit_two_pow_sub_succ bit.toNat_lt,
    testBit_shiftedOne hbit hn]
  simp [hn]

/-! ### One call -/

/-- The controllers are initialized, and expect masks. -/
structure Pics.Initialized (p : Pics) : Prop where
  offset1 : p.pic1.offset = 0x20
  offset2 : p.pic2.offset = 8
  expects1 : p.pic1.expects = .mask
  expects2 : p.pic2.expects = .mask

/-- What a call does to the chips: the masked lines, the mode and the reload value of the timer. -/
structure Called (c c' : TimerChips) (call : TimerCall) : Prop where
  initialized : c'.pics.Initialized
  masked : ∀ n, c'.pics.masked n = call.masks n (c.pics.masked n)
  counter : c'.pit.counter = call.counter c.pit.counter

variable {c c' : TimerChips}

/-- A byte for the data port of the first controller. -/
lemma write_pic1Data (hinit : c.pics.Initialized) (v : UInt8) :
    c.write ⟨pic1Data, v⟩ =
      { c with pics := { c.pics with pic1 := { c.pics.pic1 with mask := v } } } := by
  have hexp := hinit.expects1
  obtain ⟨⟨⟨o, mask, e⟩, p₂⟩, pit⟩ := c
  dsimp only at hexp
  subst hexp
  rfl

/-- A byte for the data port of the second controller. -/
lemma write_pic2Data (hinit : c.pics.Initialized) (v : UInt8) :
    c.write ⟨pic2Data, v⟩ =
      { c with pics := { c.pics with pic2 := { c.pics.pic2 with mask := v } } } := by
  have hexp := hinit.expects2
  obtain ⟨⟨p₁, ⟨o, mask, e⟩⟩, pit⟩ := c
  dsimp only at hexp
  subst hexp
  rfl

/-- An acknowledgement is no initialization. -/
lemma write_picAck (c : TimerChips) (intno : ℤ) : (picAck intno).foldl TimerChips.write c = c := by
  have hack : ∀ p : Pic, p.command 0x20 = p := fun p => if_neg (by decide)
  have h₁ : c.write ⟨pic1Command, 0x20⟩ = c := by
    obtain ⟨⟨p₁, p₂⟩, pit⟩ := c
    change TimerChips.mk (Pics.mk (p₁.command 0x20) p₂) pit = _
    rw [hack]
  have h₂ : c.write ⟨pic2Command, 0x20⟩ = c := by
    obtain ⟨⟨p₁, p₂⟩, pit⟩ := c
    change TimerChips.mk (Pics.mk p₁ (p₂.command 0x20)) pit = _
    rw [hack]
  rw [picAck]
  split_ifs
  · rw [List.singleton_append, List.foldl_cons, h₂, List.foldl_cons, h₁, List.foldl_nil]
  · rw [List.nil_append, List.foldl_cons, h₁, List.foldl_nil]

section Update

variable (update : UInt8 → UInt8 → UInt8) (combine : Bool → Bool → Bool)
  (hcombine : ∀ b, combine b false = b)
  (hupdate : ∀ {k n : ℕ} {bit : UInt8}, shiftedOne k = some bit → n < 8 → ∀ m,
    (update m bit).toNat.testBit n = combine (m.toNat.testBit n) (k = n))

include hcombine hupdate

/-- A change of one mask changes the bit of its line only. -/
lemma picUpdateIrq_run (hinit : c.pics.Initialized) {irq : UInt8} (hirq : irq.toNat < 39) :
    ∃ os, picUpdateIrq update c.pics irq = some os ∧
      (os.foldl TimerChips.write c).pics.Initialized ∧
      (∀ n, (os.foldl TimerChips.write c).pics.masked n =
        combine (c.pics.masked n) (irq.toNat = n)) ∧
      (os.foldl TimerChips.write c).pit = c.pit := by
  have h8 : (8 : UInt8).toNat = 8 := rfl
  unfold picUpdateIrq
  by_cases hlt : irq < 8
  · have hlt' : irq.toNat < 8 := UInt8.lt_iff_toNat_lt.mp hlt
    have hbit : shiftedOne irq.toNat = some (.ofNat (2 ^ irq.toNat)) := if_pos (by omega)
    rw [if_pos hlt, hbit]
    refine ⟨_, rfl, ?_⟩
    rw [List.foldl_cons, List.foldl_nil, write_pic1Data hinit]
    refine ⟨⟨hinit.offset1, hinit.offset2, hinit.expects1, hinit.expects2⟩, fun n => ?_, rfl⟩
    simp only [Pics.masked]
    split_ifs with hn
    · exact hupdate hbit hn _
    · have hne : irq.toNat ≠ n := by omega
      rw [decide_eq_false hne, hcombine]
  · have hge : 8 ≤ irq := UInt8.not_lt.mp hlt
    have hge' : 8 ≤ irq.toNat := UInt8.le_iff_toNat_le.mp hge
    have hsub : (irq - 8).toNat = irq.toNat - 8 := UInt8.toNat_sub_of_le _ _ hge
    have hbit : shiftedOne (irq - 8).toNat = some (.ofNat (2 ^ (irq - 8).toNat)) :=
      if_pos (by omega)
    rw [if_neg hlt, hbit]
    refine ⟨_, rfl, ?_⟩
    rw [List.foldl_cons, List.foldl_nil, write_pic2Data hinit]
    refine ⟨⟨hinit.offset1, hinit.offset2, hinit.expects1, hinit.expects2⟩, fun n => ?_, rfl⟩
    simp only [Pics.masked]
    split_ifs with hn
    · have hne : irq.toNat ≠ n := by omega
      rw [decide_eq_false hne, hcombine]
    · have hsame : (irq - 8).toNat = n.val - 8 ↔ irq.toNat = n := by omega
      rw [hupdate hbit (show n.val - 8 < 8 by omega), decide_eq_decide.mpr hsame]

omit combine hcombine hupdate in
/-- Otherwise the shift is undefined. -/
lemma picUpdateIrq_undefined {irq : UInt8} (hirq : ¬ irq.toNat < 39) (p : Pics) :
    picUpdateIrq update p irq = none := by
  have h8 : (8 : UInt8).toNat = 8 := rfl
  have hge : 8 ≤ irq := UInt8.le_iff_toNat_le.mpr (by omega)
  have hsub : (irq - 8).toNat = irq.toNat - 8 := UInt8.toNat_sub_of_le _ _ hge
  rw [picUpdateIrq, if_neg (UInt8.not_lt.mpr hge), shiftedOne, if_neg (by omega), Option.map_none]

end Update

/-- The two bytes of a divisor. -/
lemma divisor_bytes (d : UInt32) :
    (d &&& 0xFF).toUInt8.toNat + 256 * ((d >>> 8) &&& 0xFF).toUInt8.toNat = d.toNat % 65536 := by
  have hlow : (d &&& 0xFF).toUInt8.toNat = d.toNat % 256 := by
    rw [UInt32.toNat_toUInt8, UInt32.toNat_and]
    have hmask : (0xFF : UInt32).toNat = 2 ^ 8 - 1 := rfl
    rw [hmask, Nat.and_two_pow_sub_one_eq_mod]
    omega
  have hhigh : ((d >>> 8) &&& 0xFF).toUInt8.toNat = d.toNat / 256 % 256 := by
    rw [UInt32.toNat_toUInt8, UInt32.toNat_and, UInt32.toNat_shiftRight]
    have hmask : (0xFF : UInt32).toNat = 2 ^ 8 - 1 := rfl
    have hshift : (8 : UInt32).toNat % 32 = 8 := rfl
    rw [hmask, Nat.and_two_pow_sub_one_eq_mod, hshift, Nat.shiftRight_eq_div_pow]
    omega
  rw [hlow, hhigh]
  omega

/-- The three bytes of `pit_init` select mode 2 and program the divisor, modulo `2 ^ 16`. -/
lemma pitInit_run (c : TimerChips) {frequency : UInt32} (hf : frequency ≠ 0) :
    ∃ os, pitInit frequency = some os ∧ (os.foldl TimerChips.write c).pics = c.pics ∧
      (os.foldl TimerChips.write c).pit.counter =
        (0x04, 1193182 / frequency.toNat % 65536) := by
  refine ⟨_, if_neg hf, ?_⟩
  have hcontrol : c.write ⟨0x43, 0x34⟩ =
      { c with pit := { c.pit with expects := .low, mode := 0x04 } } :=
    congrArg (fun p => { c with pit := p }) (if_pos (by decide))
  have hdivisor : (pitFrequency / frequency).toNat = 1193182 / frequency.toNat := by
    rw [UInt32.toNat_div]
    rfl
  rw [List.foldl_cons, hcontrol, List.foldl_cons, List.foldl_cons, List.foldl_nil]
  refine ⟨rfl, ?_⟩
  rw [← hdivisor, ← divisor_bytes]
  rfl

/-- Masking a line. -/
lemma called_picMaskIrq (hinit : c.pics.Initialized) {irq : UInt8} (hirq : irq.toNat < 39) :
    ∃ os, picMaskIrq c.pics irq = some os ∧
      (os.foldl TimerChips.write c).pics.Initialized ∧
      (∀ n, (os.foldl TimerChips.write c).pics.masked n = (c.pics.masked n || irq.toNat = n)) ∧
      (os.foldl TimerChips.write c).pit = c.pit :=
  picUpdateIrq_run _ or Bool.or_false (fun hbit hn m => testBit_or_shiftedOne hbit hn m) hinit hirq

/-- Unmasking a line. -/
lemma called_picUnmaskIrq (hinit : c.pics.Initialized) {irq : UInt8} (hirq : irq.toNat < 39) :
    ∃ os, picUnmaskIrq c.pics irq = some os ∧
      (os.foldl TimerChips.write c).pics.Initialized ∧
      (∀ n, (os.foldl TimerChips.write c).pics.masked n = (c.pics.masked n && irq.toNat ≠ n)) ∧
      (os.foldl TimerChips.write c).pit = c.pit := by
  obtain ⟨os, hos, hinit', hmasked, hpit⟩ :=
    picUpdateIrq_run (fun value bit => value &&& ~~~bit) (fun b same => b && !same) (by simp)
      (fun hbit hn m => by simpa using testBit_and_shiftedOne hbit hn m) hinit hirq
  refine ⟨os, hos, hinit', fun n => ?_, hpit⟩
  rw [hmasked]
  simp

/-- Masking all lines. -/
lemma called_picDisable (hinit : c.pics.Initialized) :
    Called c (picDisable.foldl TimerChips.write c) .picDisable := by
  have hbits : ∀ n < 8, (0xff : UInt8).toNat.testBit n = true := by decide
  have hinit₂ : (c.write ⟨pic2Data, 0xff⟩).pics.Initialized := by
    rw [write_pic2Data hinit]
    exact ⟨hinit.offset1, hinit.offset2, hinit.expects1, hinit.expects2⟩
  rw [picDisable, List.foldl_cons, List.foldl_cons, List.foldl_nil, write_pic1Data hinit₂,
    write_pic2Data hinit]
  refine ⟨⟨hinit.offset1, hinit.offset2, hinit.expects1, hinit.expects2⟩, fun n => ?_, rfl⟩
  simp only [Pics.masked, TimerCall.masks]
  split_ifs with hn
  · exact hbits _ hn
  · exact hbits _ (by omega)

lemma zero_defined : (0 : UInt8).toNat < 39 := by decide

/-- The line of the timer. -/
lemma line_zero (n : Fin 16) : (0 : UInt8).toNat = n.val ↔ n.val = 0 := eq_comm

/-- What a call that is defined does. -/
theorem called_of_defined (hinit : c.pics.Initialized) {call : TimerCall} (hdef : call.Defined) :
    ∃ os, call.writes c = some os ∧ Called c (os.foldl TimerChips.write c) call := by
  cases call with
  | picAck intno =>
    refine ⟨_, rfl, ?_⟩
    rw [write_picAck]
    exact ⟨hinit, fun n => rfl, rfl⟩
  | picDisable => exact ⟨_, rfl, called_picDisable hinit⟩
  | picMaskIrq irq =>
    obtain ⟨os, hos, hinit', hmasked, hpit⟩ := called_picMaskIrq hinit hdef
    exact ⟨os, hos, hinit', hmasked, congrArg Pit.counter hpit⟩
  | picUnmaskIrq irq =>
    obtain ⟨os, hos, hinit', hmasked, hpit⟩ := called_picUnmaskIrq hinit hdef
    exact ⟨os, hos, hinit', hmasked, congrArg Pit.counter hpit⟩
  | pitInit frequency =>
    obtain ⟨os, hos, hpics, hcounter⟩ := pitInit_run c hdef
    refine ⟨os, hos, ?_, fun n => ?_, hcounter⟩
    · rw [hpics]
      exact hinit
    · rw [hpics]
      rfl
  | pitEnable =>
    obtain ⟨os, hos, hinit', hmasked, hpit⟩ := called_picUnmaskIrq hinit zero_defined
    refine ⟨os, hos, hinit', fun n => ?_, congrArg Pit.counter hpit⟩
    rw [hmasked, TimerCall.masks, decide_eq_decide.mpr (not_congr (line_zero n))]
  | pitDisable =>
    obtain ⟨os, hos, hinit', hmasked, hpit⟩ := called_picMaskIrq hinit zero_defined
    refine ⟨os, hos, hinit', fun n => ?_, congrArg Pit.counter hpit⟩
    rw [hmasked, TimerCall.masks, decide_eq_decide.mpr (line_zero n)]

/-- The other calls are undefined. -/
lemma writes_undefined {call : TimerCall} (hdef : ¬ call.Defined) : call.writes c = none := by
  cases call with
  | picMaskIrq irq => exact picUpdateIrq_undefined _ hdef _
  | picUnmaskIrq irq =>
    exact picUpdateIrq_undefined (fun value bit => value &&& ~~~bit) hdef _
  | pitInit frequency => exact if_pos (not_not.mp hdef)
  | picAck intno => exact absurd trivial hdef
  | picDisable => exact absurd trivial hdef
  | pitEnable => exact absurd trivial hdef
  | pitDisable => exact absurd trivial hdef

/-! ### Runs -/

/-- What a run does to the chips. -/
structure CalledAll (c c' : TimerChips) (calls : List TimerCall) : Prop where
  initialized : c'.pics.Initialized
  masked : ∀ n, c'.pics.masked n = calls.foldl (TimerCall.masks n) (c.pics.masked n)
  counter : c'.pit.counter = calls.foldl TimerCall.counter c.pit.counter

/-- A run is defined if and only if all its calls are. -/
lemma timerCalls_run (hinit : c.pics.Initialized) (calls : List TimerCall) :
    match timerCalls calls c with
    | none => ¬ ∀ call ∈ calls, call.Defined
    | some c' => (∀ call ∈ calls, call.Defined) ∧ CalledAll c c' calls := by
  induction calls generalizing c with
  | nil => exact ⟨by simp, hinit, fun n => rfl, rfl⟩
  | cons call calls ih =>
    by_cases hdef : call.Defined
    · obtain ⟨os, hos, hcalled⟩ := called_of_defined hinit hdef
      have hrest := ih hcalled.initialized
      rw [timerCalls, hos, Option.bind_some]
      cases hrun : timerCalls calls (os.foldl TimerChips.write c) with
      | none =>
        rw [hrun] at hrest
        exact fun hall => hrest fun d hd => hall d (List.mem_cons_of_mem _ hd)
      | some c' =>
        rw [hrun] at hrest
        obtain ⟨hall, hcalls⟩ := hrest
        refine ⟨List.forall_mem_cons.mpr ⟨hdef, hall⟩, hcalls.initialized, fun n => ?_, ?_⟩
        · rw [hcalls.masked, hcalled.masked, List.foldl_cons]
        · rw [hcalls.counter, hcalled.counter, List.foldl_cons]
    · rw [timerCalls, writes_undefined hdef, Option.bind_none]
      exact fun hall => hdef (hall call List.mem_cons_self)

/-- Calls that do not program the timer leave its mode and its reload value alone. -/
lemma foldl_counter {calls : List TimerCall} (h : ∀ f, .pitInit f ∉ calls) (r : UInt8 × ℕ) :
    calls.foldl TimerCall.counter r = r := by
  induction calls generalizing r with
  | nil => rfl
  | cons call calls ih =>
    have hcall : call.counter r = r := by
      cases call with
      | pitInit f => exact absurd List.mem_cons_self (h f)
      | _ => rfl
    rw [List.foldl_cons, hcall]
    exact ih (fun f hf => h f (List.mem_cons_of_mem _ hf)) r

/-- The period is the one asked for as long as the divisor has sixteen bits and is at least `2`. -/
lemma period_eq_iff {p : Pit} {f : ℕ} (hf : f ≠ 0)
    (hp : p.counter = (0x04, 1193182 / f % 65536)) :
    p.period = some (1193182 / f) ↔ 19 ≤ f ∧ f ≤ 596591 := by
  obtain ⟨hmode, hreload⟩ := Prod.mk.inj hp
  have hpos : 0 < f := Nat.pos_of_ne_zero hf
  have hrate : p.RateGenerator := by
    rw [Pit.RateGenerator, hmode]
    decide
  have hlow : 1193182 / f < 65536 ↔ 19 ≤ f := by
    rw [Nat.div_lt_iff_lt_mul hpos]
    omega
  have hlow' : 1193182 / f ≤ 65536 ↔ 19 ≤ f := by
    rw [← Nat.lt_succ_iff, Nat.div_lt_iff_lt_mul hpos]
    omega
  have hhigh : 2 ≤ 1193182 / f ↔ f ≤ 596591 := by
    rw [Nat.le_div_iff_mul_le hpos]
    omega
  rw [Pit.period, if_pos hrate, hreload]
  split_ifs with hzero hone
  · rw [Option.some_inj]
    omega
  · simp only [false_iff]
    omega
  · rw [Option.some_inj]
    omega

/-! ### The main result -/

/-- What the calls have achieved, from the chips `c₀` before `pic_init` on. -/
structure TimerExact (c₀ c : TimerChips) (calls : List TimerCall) : Prop where
  /-- The lines of the first controller arrive from vector 32 on, those of the second one from vector
  8 on. -/
  vector : ∀ n, lineVector c.pics n = if n.val < 8 then 32 + n.val else n.val
  /-- A line is masked as the last call says that concerns it, or as it was before `pic_init`. -/
  masked : ∀ n, c.pics.masked n = calls.foldl (TimerCall.masks n) (c₀.pics.masked n)
  /-- After the last call of `pit_init`, the timer has the period for its frequency if and only if
  this frequency is from 19 to 596591. -/
  period : ∀ pre f post, calls = pre ++ .pitInit f :: post → (∀ g, .pitInit g ∉ post) →
    (c.pit.period = some (1193182 / f.toNat) ↔ 19 ≤ f.toNat ∧ f.toNat ≤ 596591)

/-- After `pic_init`, a run of calls is defined if and only if each of them is, and then the masks, the
vectors and the period of the timer are as described. -/
theorem timer_calls_exact (c₀ : TimerChips) (calls : List TimerCall) :
    match timerCalls calls { c₀ with pics := picInit c₀.pics } with
    | none => ¬ ∀ call ∈ calls, call.Defined
    | some c => (∀ call ∈ calls, call.Defined) ∧ TimerExact c₀ c calls := by
  have hinit : (picInit c₀.pics).Initialized := ⟨rfl, rfl, rfl, rfl⟩
  have hrun := timerCalls_run (c := { c₀ with pics := picInit c₀.pics }) hinit calls
  cases hcalls : timerCalls calls { c₀ with pics := picInit c₀.pics } with
  | none =>
    rw [hcalls] at hrun
    exact hrun
  | some c =>
    rw [hcalls] at hrun
    obtain ⟨hdef, hall⟩ := hrun
    refine ⟨hdef, fun n => ?_, hall.masked, ?_⟩
    · rw [← lineVector_picInit c₀.pics n, picInit_eq, lineVector, lineVector,
        hall.initialized.offset1, hall.initialized.offset2]
    · rintro pre f post rfl hpost
      have hf : f ≠ 0 := hdef (.pitInit f) (by simp)
      refine period_eq_iff (fun h => hf (UInt32.toNat_inj.mp h)) ?_
      rw [hall.counter, List.foldl_append, List.foldl_cons, foldl_counter hpost]
      rfl

end Soaplin
