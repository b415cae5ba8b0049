import Mathlib.Tactic

/-!
# The interrupt controllers

The two 8259 controllers of `arch/x86_64/pic.c`, the second one of which stands behind the first.
A controller is programmed by a sequence of initialization words; the second word is the vector of
its first line.  `pic_init` gives the second controller the vector 8 (`picInit_eq`), so that the
lines 8 to 15 arrive on vectors of the CPU's exceptions (`lineVector_picInit`).
-/

namespace Soaplin

/-- A call of `outb`. -/
structure Outb where
  port : UInt16
  val : UInt8
deriving DecidableEq

/-- `PIC1_COMMAND`. -/
def pic1Command : UInt16 := 0x20

/-- `PIC1_DATA`. -/
def pic1Data : UInt16 := 0x21

/-- `PIC2_COMMAND`. -/
def pic2Command : UInt16 := 0xA0

/-- `PIC2_DATA`. -/
def pic2Data : UInt16 := 0xA1

/-- `PIC_EOI`. -/
def picEoi : UInt8 := 0x20

/-- `ICW1_INIT`. -/
def icw1Init : UInt8 := 0x10

/-- `ICW1_ICW4`. -/
def icw1Icw4 : UInt8 := 0x01

/-- `ICW4_8086`. -/
def icw48086 : UInt8 := 0x01

/-- `io_wait`. -/
def ioWait : Outb := ⟨0x80, 0⟩

/-! ### The hardware -/

/-- The word that a controller expects on its data port. -/
inductive PicExpects
  | mask
  | icw2
  | icw3
  | icw4
deriving DecidableEq

/-- A controller: the vector of its first line, its mask, and the state of its initialization. -/
structure Pic where
  offset : UInt8
  mask : UInt8
  expects : PicExpects
deriving DecidableEq

/-- A word on the command port: the first initialization word starts the initialization. -/
def Pic.command (p : Pic) (v : UInt8) : Pic :=
  if v &&& icw1Init ≠ 0 then { p with mask := 0, expects := .icw2 } else p

/-- A word on the data port.  The vector of the first line is a multiple of 8. -/
def Pic.data (p : Pic) (v : UInt8) : Pic :=
  match p.expects with
  | .mask => { p with mask := v }
  | .icw2 => { p with offset := v &&& 0xF8, expects := .icw3 }
  | .icw3 => { p with expects := .icw4 }
  | .icw4 => { p with expects := .mask }

/-- The two controllers. -/
structure Pics where
  pic1 : Pic
  pic2 : Pic
deriving DecidableEq

/-- What a call of `outb` does to the controllers. -/
def Pics.write (p : Pics) (o : Outb) : Pics :=
  if o.port = pic1Command then { p with pic1 := p.pic1.command o.val }
  else if o.port = pic1Data then { p with pic1 := p.pic1.data o.val }
  else if o.port = pic2Command then { p with pic2 := p.pic2.command o.val }
  else if o.port = pic2Data then { p with pic2 := p.pic2.data o.val }
  else p

/-- The vector on which the line `n` arrives. -/
def lineVector (p : Pics) (n : Fin 16) : ℕ :=
  if n.val < 8 then p.pic1.offset.toNat + n.val else p.pic2.offset.toNat + (n.val - 8)

/-! ### `pic.c` -/

/-- The calls of `outb` in `pic_init`, when the masks read are `a1` and `a2`. -/
def picInitWrites (a1 a2 : UInt8) : List Outb := [
  ⟨pic1Command, icw1Init ||| icw1Icw4⟩, ioWait,
  ⟨pic2Command, icw1Init ||| icw1Icw4⟩, ioWait,
  ⟨pic1Data, 0x20⟩, ioWait,
  ⟨pic2Data, 8⟩, ioWait,
  ⟨pic1Data, 4⟩, ioWait,
  ⟨pic2Data, 2⟩, ioWait,
  ⟨pic1Data, icw48086⟩, ioWait,
  ⟨pic2Data, icw48086⟩, ioWait,
  ⟨pic1Data, a1⟩,
  ⟨pic2Data, a2⟩]

/-- `pic_init`. -/
def picInit (p : Pics) : Pics := (picInitWrites p.pic1.mask p.pic2.mask).foldl Pics.write p

/-- `pic_ack`. -/
def picAck (intno : ℤ) : List Outb :=
  (if intno ≥ 8 then [⟨pic2Command, 0x20⟩] else []) ++ [⟨pic1Command, 0x20⟩]

/-! ### What is programmed -/

/-- Whatever state the controllers are in, `pic_init` programs them and keeps their masks. -/
lemma picInit_eq (p : Pics) :
    picInit p = ⟨⟨0x20, p.pic1.mask, .mask⟩, ⟨8, p.pic2.mask, .mask⟩⟩ := rfl

/-- The lines of the first controller arrive from vector 32 on, those of the second one from vector
8 on. -/
lemma lineVector_picInit (p : Pics) (n : Fin 16) :
    lineVector (picInit p) n = if n.val < 8 then 32 + n.val else n.val := by
  have h1 : (0x20 : UInt8).toNat = 32 := rfl
  have h2 : (8 : UInt8).toNat = 8 := rfl
  rw [picInit_eq, lineVector]
  dsimp only
  rw [h1, h2]
  split_ifs <;> omega

/-- An acknowledgement goes to the first controller once. -/
lemma count_picAck_pic1 (intno : ℤ) : (picAck intno).count ⟨pic1Command, picEoi⟩ = 1 := by
  unfold picAck
  split_ifs <;> rfl

/-- An acknowledgement goes to the second controller if its number is at least 8. -/
lemma count_picAck_pic2 (intno : ℤ) :
    (picAck intno).count ⟨pic2Command, picEoi⟩ = if intno ≥ 8 then 1 else 0 := by
  unfold picAck
  split_ifs <;> rfl

end Soaplin
