import Soaplin.Foundation.Word64

/-!
# The global descriptor table

In long mode a system descriptor takes two slots of the table: the second one holds the upper half
of the base address.  `tss_set_gate` scatters the base over the fields of one slot only, so the
descriptor decodes to what was encoded if and only if the next slot holds the upper half already
(`tssSetGate_decodes_iff`).
-/

namespace Soaplin

open Word64

/-- `gdt_entry`. -/
structure GdtEntry where
  limit0 : UInt16
  base0 : UInt16
  base1 : UInt8
  access : UInt8
  limit1Flags : UInt8
  base2 : UInt8
deriving DecidableEq

/-- The number of slots of `gdt`. -/
abbrev gdtSlots : ℕ := 0xff

/-- `gdt`. -/
abbrev Gdt := Fin gdtSlots → GdtEntry

/-- The table before `gdt_init`. -/
def zeroGdt : Gdt := fun _ => ⟨0, 0, 0, 0, 0, 0⟩

/-- `gdt_set_entry`. -/
def gdtSetEntry (gdt : Gdt) (i : Fin gdtSlots) (limit base : UInt16) (access flags : UInt8) : Gdt :=
  Function.update gdt i
    { base0 := base &&& 0xFFFF
      base1 := ((base.toUInt32 >>> 16) &&& 0xFF).toUInt8
      base2 := ((base.toUInt32 >>> 24) &&& 0xFF).toUInt8
      limit0 := limit &&& 0xFFFF
      access := access
      limit1Flags := ((limit.toUInt32 >>> 16) &&& 0x0F).toUInt8 ||| (flags &&& 0xF0) }

/-- `tss_set_gate`. -/
def tssSetGate (gdt : Gdt) (num : Fin gdtSlots) (base : UInt64) (limit : UInt32) : Gdt :=
  Function.update gdt num
    { base0 := (base &&& 0xFFFF).toUInt16
      base1 := ((base >>> 16) &&& 0xFF).toUInt8
      base2 := ((base >>> 24) &&& 0xFF).toUInt8
      limit0 := (limit &&& 0xFFFF).toUInt16
      access := 0x89
      limit1Flags := ((limit >>> 16) &&& 0x0F).toUInt8 ||| 0x00 }

/-- The size of `tss_entry`. -/
def tssSize : UInt32 := 104

/-- The entries that `gdt_init` makes, when `tss` is the address of the TSS. -/
def gdtInit (gdt : Gdt) (tss : UInt64) : Gdt :=
  let gdt := gdtSetEntry gdt 0 0 0 0 0
  let gdt := gdtSetEntry gdt 1 0xFFFF 0 0x9A 0xAF
  let gdt := gdtSetEntry gdt 2 0xFFFF 0 0x92 0xAF
  let gdt := gdtSetEntry gdt 3 0xFFFF 0 0x9A 0xAF
  let gdt := gdtSetEntry gdt 4 0xFFFF 0 0x92 0xAF
  tssSetGate gdt 6 tss tssSize

/-! ### System descriptors -/

/-- A system descriptor of the long mode: two consecutive slots, 16 bytes. -/
structure SystemDescriptor where
  low : GdtEntry
  high : GdtEntry

namespace SystemDescriptor

/-- The base address that the CPU puts together. -/
def base (d : SystemDescriptor) : ℕ :=
  d.low.base0.toNat + 2 ^ 16 * d.low.base1.toNat + 2 ^ 24 * d.low.base2.toNat +
    2 ^ 32 * d.high.limit0.toNat + 2 ^ 48 * d.high.base0.toNat

/-- The limit that the CPU puts together. -/
def limit (d : SystemDescriptor) : ℕ :=
  d.low.limit0.toNat + 2 ^ 16 * (d.low.limit1Flags.toNat % 16)

/-- The reserved upper half of the second slot is zero. -/
def ReservedZero (d : SystemDescriptor) : Prop :=
  d.high.base1 = 0 ∧ d.high.access = 0 ∧ d.high.limit1Flags = 0 ∧ d.high.base2 = 0

end SystemDescriptor

/-- The descriptor that starts at the slot `num`. -/
def Gdt.systemDescriptor (gdt : Gdt) (num : ℕ) (hnum : num + 1 < gdtSlots) : SystemDescriptor :=
  ⟨gdt ⟨num, Nat.lt_of_succ_lt hnum⟩, gdt ⟨num + 1, hnum⟩⟩

/-- The second slot of a descriptor for the address `base`. -/
def upperSlot (base : UInt64) : GdtEntry where
  limit0 := (base >>> 32).toUInt16
  base0 := (base >>> 48).toUInt16
  base1 := 0
  access := 0
  limit1Flags := 0
  base2 := 0

/-- After `tss_set_gate(num, base, limit)` has changed `gdt` into `gdt'`, the descriptor at `num`
decodes to the arguments, and the slots outside it are as before. -/
structure GateDecodes (gdt gdt' : Gdt) (num : ℕ) (hnum : num + 1 < gdtSlots) (base : UInt64)
    (limit : UInt32) : Prop where
  base_eq : (gdt'.systemDescriptor num hnum).base = base.toNat
  limit_eq : (gdt'.systemDescriptor num hnum).limit = limit.toNat
  reserved : (gdt'.systemDescriptor num hnum).ReservedZero
  others : ∀ i : Fin gdtSlots, i.val ≠ num → i.val ≠ num + 1 → gdt' i = gdt i

/-! ### The fields of a word -/

/-- A field of 8 bits, taken out of a word by a shift and a mask. -/
lemma toNat_field8 (v : UInt64) {n : UInt64} (hn : n < 64) :
    ((v >>> n) &&& 0xFF).toUInt8.toNat = v.toNat / 2 ^ n.toNat % 2 ^ 8 := by
  have hmod : n.toNat % 64 = n.toNat := Nat.mod_eq_of_lt (UInt64.lt_iff_toNat_lt.mp hn)
  change (v.toNat >>> (n.toNat % 64) &&& 255) % 2 ^ 8 = _
  rw [hmod, show 255 = 2 ^ 8 - 1 from rfl, shiftRight_and_mask, Nat.mod_mod]

/-- The low 16 bits of a word. -/
lemma toNat_low16 (v : UInt64) : (v &&& 0xFFFF).toUInt16.toNat = v.toNat % 2 ^ 16 := by
  change (v.toNat &&& 65535) % 2 ^ 16 = _
  rw [show 65535 = 2 ^ 16 - 1 from rfl, Nat.and_two_pow_sub_one_eq_mod, Nat.mod_mod]

/-- A field of 16 bits, taken out of a word by a shift. -/
lemma toNat_field16 (v : UInt64) {n : UInt64} (hn : n < 64) :
    (v >>> n).toUInt16.toNat = v.toNat / 2 ^ n.toNat % 2 ^ 16 := by
  have hmod : n.toNat % 64 = n.toNat := Nat.mod_eq_of_lt (UInt64.lt_iff_toNat_lt.mp hn)
  change v.toNat >>> (n.toNat % 64) % 2 ^ 16 = _
  rw [hmod, Nat.shiftRight_eq_div_pow]

/-! ### The gate of the TSS -/

variable {gdt : Gdt} {num : ℕ} {base : UInt64} {limit : UInt32}

/-- The descriptor after `tss_set_gate`: the first slot is written, the second one is as before. -/
lemma systemDescriptor_tssSetGate (hnum : num + 1 < gdtSlots) :
    (tssSetGate gdt ⟨num, Nat.lt_of_succ_lt hnum⟩ base limit).systemDescriptor num hnum =
      ⟨⟨(limit &&& 0xFFFF).toUInt16, (base &&& 0xFFFF).toUInt16, ((base >>> 16) &&& 0xFF).toUInt8,
        0x89, ((limit >>> 16) &&& 0x0F).toUInt8 ||| 0x00, ((base >>> 24) &&& 0xFF).toUInt8⟩,
        gdt ⟨num + 1, hnum⟩⟩ := by
  have hne : (⟨num + 1, hnum⟩ : Fin gdtSlots) ≠ ⟨num, Nat.lt_of_succ_lt hnum⟩ := by simp
  rw [Gdt.systemDescriptor, tssSetGate, Function.update_self, Function.update_of_ne hne]

/-- The slot written holds the low half of the base. -/
lemma base_tssSetGate (hnum : num + 1 < gdtSlots) :
    ((tssSetGate gdt ⟨num, Nat.lt_of_succ_lt hnum⟩ base limit).systemDescriptor num hnum).base =
      base.toNat % 2 ^ 32 + 2 ^ 32 * (gdt ⟨num + 1, hnum⟩).limit0.toNat +
        2 ^ 48 * (gdt ⟨num + 1, hnum⟩).base0.toNat := by
  have h16 : (16 : UInt64).toNat = 16 := rfl
  have h24 : (24 : UInt64).toNat = 24 := rfl
  rw [systemDescriptor_tssSetGate, SystemDescriptor.base]
  dsimp only
  rw [toNat_low16, toNat_field8 base (n := 16) (by decide), toNat_field8 base (n := 24) (by decide),
    h16, h24]
  omega

/-- The slot written holds the whole limit. -/
lemma limit_tssSetGate (hnum : num + 1 < gdtSlots) (hlimit : limit.toNat < 2 ^ 20) :
    ((tssSetGate gdt ⟨num, Nat.lt_of_succ_lt hnum⟩ base limit).systemDescriptor num hnum).limit =
      limit.toNat := by
  have hlow : (limit &&& 0xFFFF).toUInt16.toNat = limit.toNat % 2 ^ 16 := by
    change (limit.toNat &&& 65535) % 2 ^ 16 = _
    rw [show 65535 = 2 ^ 16 - 1 from rfl, Nat.and_two_pow_sub_one_eq_mod, Nat.mod_mod]
  have hhigh : (((limit >>> 16) &&& 0x0F).toUInt8 ||| 0x00).toNat = limit.toNat / 2 ^ 16 % 2 ^ 4 := by
    change (limit.toNat >>> 16 &&& 15) % 2 ^ 8 ||| 0 = _
    rw [Nat.or_zero, show 15 = 2 ^ 4 - 1 from rfl, shiftRight_and_mask]
    omega
  rw [systemDescriptor_tssSetGate, SystemDescriptor.limit]
  dsimp only
  rw [hlow, hhigh]
  omega

/-- A slot is the upper one for an address if and only if its two fields are the upper half and the
reserved ones are zero. -/
lemma eq_upperSlot_iff {e : GdtEntry} :
    e = upperSlot base ↔ e.limit0.toNat + 2 ^ 16 * e.base0.toNat = base.toNat / 2 ^ 32 ∧
      e.base1 = 0 ∧ e.access = 0 ∧ e.limit1Flags = 0 ∧ e.base2 = 0 := by
  have h32 : (base >>> 32).toUInt16.toNat = base.toNat / 2 ^ 32 % 2 ^ 16 :=
    toNat_field16 base (by decide)
  have h48 : (base >>> 48).toUInt16.toNat = base.toNat / 2 ^ 48 % 2 ^ 16 :=
    toNat_field16 base (by decide)
  have hbase := base.toNat_lt
  constructor
  · rintro rfl
    refine ⟨?_, rfl, rfl, rfl, rfl⟩
    rw [upperSlot, h32, h48]
    omega
  · obtain ⟨limit0, base0, base1, access, flags, base2⟩ := e
    rintro ⟨hupper, rfl, rfl, rfl, rfl⟩
    dsimp only at hupper
    have hlimit0 := limit0.toNat_lt
    have hbase0 := base0.toNat_lt
    have hlow : limit0 = (base >>> 32).toUInt16 := by
      rw [← UInt16.toNat_inj, h32]
      omega
    have hhigh : base0 = (base >>> 48).toUInt16 := by
      rw [← UInt16.toNat_inj, h48]
      omega
    rw [hlow, hhigh, upperSlot]

/-- After `tss_set_gate` the descriptor decodes to the base and the limit, with no other slot
changed, if and only if the next slot held the upper half of the base before. -/
theorem tssSetGate_decodes_iff (gdt : Gdt) (hnum : num + 1 < gdtSlots) (base : UInt64)
    (hlimit : limit.toNat < 2 ^ 20) :
    GateDecodes gdt (tssSetGate gdt ⟨num, Nat.lt_of_succ_lt hnum⟩ base limit) num hnum base limit ↔
      gdt ⟨num + 1, hnum⟩ = upperSlot base := by
  have hbase := @base_tssSetGate gdt num base limit hnum
  rw [eq_upperSlot_iff]
  constructor
  · intro h
    rw [h.base_eq] at hbase
    refine ⟨by omega, ?_⟩
    have hreserved := h.reserved
    rwa [systemDescriptor_tssSetGate] at hreserved
  · rintro ⟨hupper, hreserved⟩
    refine ⟨?_, limit_tssSetGate hnum hlimit, ?_, fun i hi _ => ?_⟩
    · rw [hbase]
      omega
    · rwa [systemDescriptor_tssSetGate]
    · exact Function.update_of_ne (fun heq => hi (congrArg Fin.val heq)) _ _

/-- A table with the upper half in place. -/
theorem tssSetGate_decodes_upper :
    GateDecodes (Function.update zeroGdt 7 (upperSlot 0xffffffff80200000))
      (tssSetGate (Function.update zeroGdt 7 (upperSlot 0xffffffff80200000)) 6 0xffffffff80200000 104)
      6 (by decide) 0xffffffff80200000 104 :=
  (tssSetGate_decodes_iff _ (by decide : 6 + 1 < gdtSlots) _ (by decide)).mpr
    (Function.update_self _ _ _)

/-- The gate that `gdt_init` makes for a TSS in the kernel image, on the table as it is before. -/
theorem tssSetGate_not_decodes :
    ¬ GateDecodes zeroGdt (tssSetGate zeroGdt 6 0xffffffff80200000 104) 6 (by decide)
      0xffffffff80200000 104 := by
  intro h
  have hbase := h.base_eq
  revert hbase
  decide

/-- The descriptor that `gdt_init` makes decodes to the address of the TSS if and only if the TSS
lies in the first 4 GiB. -/
theorem gdtInit_tss_iff (tss : UInt64) :
    ((gdtInit zeroGdt tss).systemDescriptor 6 (by decide)).base = tss.toNat ↔ tss.toNat < 2 ^ 32 := by
  have hbase := @base_tssSetGate (gdtSetEntry (gdtSetEntry (gdtSetEntry (gdtSetEntry
    (gdtSetEntry zeroGdt 0 0 0 0 0) 1 0xFFFF 0 0x9A 0xAF) 2 0xFFFF 0 0x92 0xAF) 3 0xFFFF 0 0x9A 0xAF)
    4 0xFFFF 0 0x92 0xAF) 6 tss tssSize (by decide)
  have hzero : ((gdtInit zeroGdt tss).systemDescriptor 6 (by decide)).base = tss.toNat % 2 ^ 32 := hbase
  rw [hzero]
  omega

end Soaplin
