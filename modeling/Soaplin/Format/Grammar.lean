import Soaplin.Foundation.Numeral
import Soaplin.Format.Spec

/-!
# The grammar of format specifiers

A `Directive` is a format specifier as a manual describes it: a list of flags, a width, a precision, a
length modifier and a conversion.  It has a text, `Directive.bytes`, and a meaning, `Directive.spec`,
in which the order of the flags does not matter.  Each phase of the parser reads its part of the text:
what it reads, what may come behind it, and what it does to the specifier.
-/

namespace Soaplin

open PrefixScanner

/-! ### Digits -/

/-- The byte of a decimal digit. -/
def digitByte (d : Fin 10) : UInt8 := ch '0' + UInt8.ofNat d

/-- The number that decimal digits denote. -/
def decimal (ds : List (Fin 10)) : ℕ := Numeral.value 10 (ds.map (·.val))

lemma isDigit_digitByte (d : Fin 10) : IsDigit (digitByte d) := by
  revert d
  decide

/-- A byte between `'0'` and `'9'` is that of a digit. -/
lemma exists_digitByte {b : UInt8} (hb : IsDigit b) : ∃ d, b = digitByte d := by
  obtain ⟨hlo, hhi⟩ := hb
  have hlo' : 48 ≤ b.toNat := UInt8.le_iff_toNat_le.mp hlo
  have hhi' : b.toNat ≤ 57 := UInt8.le_iff_toNat_le.mp hhi
  refine ⟨⟨b.toNat - 48, by omega⟩, UInt8.toNat_inj.mp ?_⟩
  rw [digitByte, UInt8.toNat_add, UInt8.toNat_ofNat']
  change b.toNat = (48 + (b.toNat - 48) % 2 ^ 8) % 2 ^ 8
  omega

/-- A word over the digits is the text of a list of digits. -/
lemma exists_digits {w : List UInt8} (hw : ∀ b ∈ w, IsDigit b) :
    ∃ ds : List (Fin 10), w = ds.map digitByte := by
  induction w with
  | nil => exact ⟨[], rfl⟩
  | cons b w ih =>
    obtain ⟨d, rfl⟩ := exists_digitByte (hw b List.mem_cons_self)
    obtain ⟨ds, rfl⟩ := ih fun c hc => hw c (List.mem_cons_of_mem _ hc)
    exact ⟨d :: ds, rfl⟩

lemma digitByte_sub (d : Fin 10) : (digitByte d).toNat - (ch '0').toNat = d := by
  revert d
  decide

/-- The loop over digits computes the number that they denote. -/
lemma foldl_digits (ds : List (Fin 10)) :
    (ds.map digitByte).foldl (fun n b => n * 10 + (b.toNat - (ch '0').toNat)) 0 = decimal ds := by
  rw [decimal, Numeral.value, List.foldl_map, List.foldl_map]
  simp only [digitByte_sub]

/-- A loop over digits reads a numeral that fits in an `int`. -/
lemma reads_npfDigits : Reads npfDigits fun n w rest => ∃ ds : List (Fin 10),
    w = ds.map digitByte ∧ n = decimal ds ∧ decimal ds ≤ intMax ∧ Starts (¬ IsDigit ·) rest := by
  have hloop : Reads (scanWhile npfDigit 0) _ :=
    reads_scanWhile (S := IsDigit) (g := fun n b => n * 10 + (b.toNat - (ch '0').toNat))
      (fun n b hb => if_pos hb) (fun n b hb => if_neg hb) 0
  have hcheck : ∀ n : ℕ, Reads (if n ≤ intMax then pure n else failure : Scanner UInt8 ℕ)
      fun m w _ => n ≤ intMax ∧ m = n ∧ w = [] := by
    intro n
    by_cases hn : n ≤ intMax
    · rw [if_pos hn]
      exact (reads_pure n).congr fun m w _ => by simp [hn]
    · rw [if_neg hn]
      intro input m rest
      constructor
      · intro h
        cases h
      · rintro ⟨w, ⟨hn', -⟩, -⟩
        exact absurd hn' hn
  refine (hloop.bind hcheck).congr fun n w rest => ?_
  constructor
  · rintro ⟨n', u, v, ⟨hu, hn', hrest⟩, ⟨hfit, rfl, rfl⟩, rfl⟩
    obtain ⟨ds, rfl⟩ := exists_digits hu
    rw [foldl_digits] at hn'
    exact ⟨ds, List.append_nil _, hn', hn' ▸ hfit, hrest⟩
  · rintro ⟨ds, rfl, rfl, hfit, hrest⟩
    refine ⟨decimal ds, ds.map digitByte, [], ⟨?_, (foldl_digits ds).symm, hrest⟩, ⟨hfit, rfl, rfl⟩,
      (List.append_nil _).symm⟩
    intro b hb
    obtain ⟨d, -, rfl⟩ := List.mem_map.mp hb
    exact isDigit_digitByte d

/-! ### Directives -/

/-- The optional flags. -/
inductive Flag
  | minus
  | zero
  | plus
  | space
  | hash
deriving DecidableEq

def Flag.byte : Flag → UInt8
  | .minus => ch '-'
  | .zero => ch '0'
  | .plus => ch '+'
  | .space => ch ' '
  | .hash => ch '#'

/-- A field width.  The digits of a literal are those from its first one on. -/
inductive Width
  | none
  | star
  | literal (d : Fin 10) (ds : List (Fin 10))

def Width.bytes : Width → List UInt8
  | .none => []
  | .star => [ch '*']
  | .literal d ds => digitByte d :: ds.map digitByte

def Width.opt : Width → NpfOpt
  | .none => .none
  | .star => .star
  | .literal _ _ => .literal

def Width.value : Width → ℕ
  | .literal d ds => decimal (d :: ds)
  | _ => 0

/-- A precision.  Behind the dot there may be no digit, and a sign makes the digits count for
nothing. -/
inductive Precision
  | none
  | star
  | literal (ds : List (Fin 10))
  | negative (ds : List (Fin 10))

def Precision.bytes : Precision → List UInt8
  | .none => []
  | .star => [ch '.', ch '*']
  | .literal ds => ch '.' :: ds.map digitByte
  | .negative ds => ch '.' :: ch '-' :: ds.map digitByte

def Precision.opt : Precision → NpfOpt
  | .star => .star
  | .literal _ => .literal
  | _ => .none

def Precision.value : Precision → ℕ
  | .literal ds => decimal ds
  | .negative ds => decimal ds
  | _ => 0

/-- The length modifiers. -/
inductive Length
  | none
  | h
  | hh
  | l
  | ll
  | j
  | z
  | t
deriving DecidableEq

def Length.bytes : Length → List UInt8
  | .none => []
  | .h => [ch 'h']
  | .hh => [ch 'h', ch 'h']
  | .l => [ch 'l']
  | .ll => [ch 'l', ch 'l']
  | .j => [ch 'j']
  | .z => [ch 'z']
  | .t => [ch 't']

def Length.modifier : Length → NpfLenMod
  | .none => .none
  | .h => .short
  | .hh => .char
  | .l => .long
  | .ll => .largeLongLong
  | .j => .largeIntmax
  | .z => .largeSizet
  | .t => .largePtrdifft

/-- The letters of the conversions. -/
inductive Letter
  | percent
  | c
  | s
  | d
  | i
  | o
  | u
  | x
  | upperX
  | p
  | b
  | upperB
deriving DecidableEq

def Letter.byte : Letter → UInt8
  | .percent => ch '%'
  | .c => ch 'c'
  | .s => ch 's'
  | .d => ch 'd'
  | .i => ch 'i'
  | .o => ch 'o'
  | .u => ch 'u'
  | .x => ch 'x'
  | .upperX => ch 'X'
  | .p => ch 'p'
  | .b => ch 'b'
  | .upperB => ch 'B'

def Letter.conv : Letter → NpfConv
  | .percent => .percent
  | .c => .char
  | .s => .string
  | .d | .i => .signedInt
  | .o => .octal
  | .u => .unsignedInt
  | .x | .upperX => .hexInt
  | .p => .pointer
  | .b | .upperB => .binary

/-- A format specifier.  A literal width does not start with a zero, which would be a flag. -/
structure Directive where
  flags : List Flag
  width : Width
  precision : Precision
  length : Length
  letter : Letter
  width_ne_zero : ∀ ds, width ≠ .literal 0 ds

/-- The text of a directive behind its `%`. -/
def Directive.bytes (d : Directive) : List UInt8 :=
  d.flags.map Flag.byte ++ (d.width.bytes ++ (d.precision.bytes ++ (d.length.bytes ++ [d.letter.byte])))

/-- The numbers of a directive fit in an `int`. -/
def Directive.Fits (d : Directive) : Prop := d.width.value ≤ intMax ∧ d.precision.value ≤ intMax

/-- The meaning of a directive. -/
def Directive.spec (d : Directive) : NpfFormatSpec where
  fieldWidth := d.width.value
  fieldWidthOpt := d.width.opt
  leftJustified := .minus ∈ d.flags
  leadingZeroPad := .zero ∈ d.flags ∧ .minus ∉ d.flags ∧ d.letter ≠ .s ∧
    (d.letter ∈ [.d, .i, .o, .u, .x, .upperX] → d.precision.opt = .none)
  prec := d.precision.value
  precOpt := if d.letter ∈ [.percent, .c, .p] then .none else d.precision.opt
  prepend := if .plus ∈ d.flags then ch '+' else if .space ∈ d.flags then ch ' ' else 0
  altForm := .hash ∈ d.flags
  caseAdjust := if d.letter ∈ [.upperX, .upperB] then 0 else ch 'a' - ch 'A'
  lengthModifier := d.length.modifier
  convSpec := d.letter.conv

lemma Width.none_ne_literal : ∀ ds, Width.none ≠ .literal 0 ds := nofun

/-- A directive without flags, width, precision and length modifier. -/
def plainDirective (letter : Letter) : Directive :=
  ⟨[], .none, .none, .none, letter, Width.none_ne_literal⟩

/-! ### Flags -/

/-- The specifier after the flags. -/
def flagSpec (fs : List Flag) : NpfFormatSpec :=
  { NpfFormatSpec.start with
    leftJustified := .minus ∈ fs
    leadingZeroPad := .zero ∈ fs ∧ .minus ∉ fs
    prepend := if .plus ∈ fs then ch '+' else if .space ∈ fs then ch ' ' else 0
    altForm := .hash ∈ fs }

lemma npfFlag_of_not_flag {b : UInt8} (hb : ¬ ∃ f : Flag, b = f.byte) (spec : NpfFormatSpec) :
    npfFlag spec b = none := by
  have hminus : b ≠ ch '-' := fun heq => hb ⟨.minus, heq⟩
  have hzero : b ≠ ch '0' := fun heq => hb ⟨.zero, heq⟩
  have hplus : b ≠ ch '+' := fun heq => hb ⟨.plus, heq⟩
  have hspace : b ≠ ch ' ' := fun heq => hb ⟨.space, heq⟩
  have hhash : b ≠ ch '#' := fun heq => hb ⟨.hash, heq⟩
  rw [npfFlag, if_neg hminus, if_neg hzero, if_neg hplus, if_neg hspace, if_neg hhash]

lemma npfFlag_isSome (f : Flag) (spec : NpfFormatSpec) : (npfFlag spec f.byte).isSome := by
  cases f <;> rfl

/-- One more flag. -/
lemma npfFlag_flagSpec (fs : List Flag) (f : Flag) :
    npfFlag (flagSpec fs) f.byte = some (flagSpec (fs ++ [f])) := by
  cases f
  · simp [npfFlag, flagSpec, Flag.byte]
  · change some { flagSpec fs with leadingZeroPad := !(flagSpec fs).leftJustified } = _
    simp [flagSpec]
  · change some { flagSpec fs with prepend := ch '+' } = _
    simp [flagSpec]
  · change some { flagSpec fs with
      prepend := if (flagSpec fs).prepend = 0 then ch ' ' else (flagSpec fs).prepend } = _
    have hplus : ch '+' ≠ 0 := by decide
    have hspace : ch ' ' ≠ 0 := by decide
    by_cases hp : Flag.plus ∈ fs <;> by_cases hs : Flag.space ∈ fs <;>
      simp [flagSpec, hp, hs, hplus, hspace]
  · change some { flagSpec fs with altForm := true } = _
    simp [flagSpec]

/-- The loop over the flags. -/
lemma reads_flags : Reads (scanWhile npfFlag NpfFormatSpec.start) fun spec w rest =>
    ∃ fs : List Flag, w = fs.map Flag.byte ∧ spec = flagSpec fs ∧
      Starts (fun b => ¬ ∃ f : Flag, b = f.byte) rest := by
  have hloop : Reads (scanWhile npfFlag NpfFormatSpec.start) _ :=
    reads_scanWhile (S := fun b => ∃ f : Flag, b = f.byte)
      (g := fun spec b => (npfFlag spec b).getD spec)
      (fun spec b ⟨f, hf⟩ => by
        rw [hf]
        exact (Option.some_get (npfFlag_isSome f spec)).symm.trans
          (by rw [Option.get_eq_getD]))
      (fun spec b hb => npfFlag_of_not_flag hb spec) NpfFormatSpec.start
  have hfold : ∀ fs : List Flag, (fs.map Flag.byte).foldl
      (fun spec b => (npfFlag spec b).getD spec) NpfFormatSpec.start = flagSpec fs := by
    intro fs
    induction fs using List.reverseRecOn with
    | nil => simp [flagSpec, NpfFormatSpec.start]
    | append_singleton fs f ih =>
      rw [List.map_append, List.foldl_append, ih]
      change (npfFlag (flagSpec fs) f.byte).getD (flagSpec fs) = _
      rw [npfFlag_flagSpec]
      rfl
  refine hloop.congr fun spec w rest => ?_
  constructor
  · rintro ⟨hw, rfl, hrest⟩
    have hbytes : ∃ fs : List Flag, w = fs.map Flag.byte := by
      clear hrest
      induction w with
      | nil => exact ⟨[], rfl⟩
      | cons b w ih =>
        obtain ⟨f, rfl⟩ := hw b List.mem_cons_self
        obtain ⟨fs, rfl⟩ := ih fun c hc => hw c (List.mem_cons_of_mem _ hc)
        exact ⟨f :: fs, rfl⟩
    obtain ⟨fs, rfl⟩ := hbytes
    exact ⟨fs, rfl, hfold fs, hrest⟩
  · rintro ⟨fs, rfl, rfl, hrest⟩
    refine ⟨fun b hb => ?_, (hfold fs).symm, hrest⟩
    obtain ⟨f, -, rfl⟩ := List.mem_map.mp hb
    exact ⟨f, rfl⟩

/-! ### The width -/

/-- What may come behind a width. -/
def Width.Before : Width → List UInt8 → Prop
  | .none, rest => Starts (fun b => b ≠ ch '*' ∧ ¬ IsDigit b) rest
  | .star, _ => True
  | .literal _ _, rest => Starts (¬ IsDigit ·) rest

/-- The specifier after the width. -/
def Width.set (spec : NpfFormatSpec) : Width → NpfFormatSpec
  | .star => { spec with fieldWidthOpt := .star }
  | width => { spec with fieldWidth := width.value, fieldWidthOpt := width.opt }

lemma npfFieldWidth_cons (spec : NpfFormatSpec) (b : UInt8) (cur : List UInt8) :
    npfFieldWidth spec (b :: cur) =
      if b = ch '*' then some ({ spec with fieldWidthOpt := .star }, cur)
      else (npfDigits (b :: cur)).bind fun r => some ({ spec with
        fieldWidth := r.1, fieldWidthOpt := if IsDigit b then .literal else .none }, r.2) := by
  unfold npfFieldWidth
  rw [bind_apply]
  change (if b = ch '*' then _ else _ : Scanner UInt8 NpfFormatSpec) (b :: cur) = _
  split
  · rfl
  · rfl

lemma digitByte_ne_star (d : Fin 10) : digitByte d ≠ ch '*' := by
  revert d
  decide

/-- The field width. -/
lemma reads_npfFieldWidth (spec : NpfFormatSpec) : Reads (npfFieldWidth spec) fun spec' w rest =>
    ∃ width : Width, w = width.bytes ∧ spec' = width.set spec ∧ width.value ≤ intMax ∧
      width.Before rest := by
  intro input spec' rest
  cases input with
  | nil =>
    constructor
    · intro h
      cases h
    · rintro ⟨w, ⟨width, rfl, -, -, hbefore⟩, heq⟩
      obtain ⟨hw, rfl⟩ := List.append_eq_nil_iff.mp heq.symm
      cases width with
      | none =>
        obtain ⟨b, tail, hnil, -⟩ := hbefore
        cases hnil
      | star => cases hw
      | literal d ds => cases hw
  | cons b cur =>
    rw [npfFieldWidth_cons]
    by_cases hb : b = ch '*'
    · rw [if_pos hb]
      constructor
      · intro h
        cases h
        exact ⟨[ch '*'], ⟨.star, rfl, rfl, by decide, trivial⟩, by rw [hb]; rfl⟩
      · rintro ⟨w, ⟨width, rfl, rfl, -, hbefore⟩, heq⟩
        cases width with
        | none =>
          change b :: cur = rest at heq
          rw [← heq, Width.Before, starts_cons] at hbefore
          exact absurd hb hbefore.1
        | star =>
          cases heq
          rfl
        | literal d ds =>
          cases heq
          exact absurd hb (digitByte_ne_star d)
    · rw [if_neg hb, Option.bind_eq_some_iff]
      constructor
      · rintro ⟨⟨n, rest'⟩, hread, heq⟩
        cases heq
        obtain ⟨w, ⟨ds, rfl, rfl, hfit, hrest⟩, heq⟩ := reads_npfDigits.sound hread
        cases ds with
        | nil =>
          change b :: cur = rest' at heq
          subst heq
          rw [starts_cons] at hrest
          refine ⟨[], ⟨.none, rfl, ?_, by decide, starts_cons.mpr ⟨hb, hrest⟩⟩, rfl⟩
          rw [if_neg hrest]
          rfl
        | cons d ds =>
          cases heq
          refine ⟨_, ⟨.literal d ds, rfl, ?_, hfit, hrest⟩, rfl⟩
          rw [if_pos (isDigit_digitByte d)]
          rfl
      · rintro ⟨w, ⟨width, rfl, rfl, hfit, hbefore⟩, heq⟩
        cases width with
        | none =>
          change b :: cur = rest at heq
          subst heq
          rw [Width.Before, starts_cons] at hbefore
          refine ⟨(0, b :: cur), reads_npfDigits.complete
            (w := []) ⟨[], rfl, rfl, by decide, starts_cons.mpr hbefore.2⟩, ?_⟩
          rw [if_neg hbefore.2]
          rfl
        | star =>
          cases heq
          exact absurd rfl hb
        | literal d ds =>
          cases heq
          refine ⟨(decimal (d :: ds), rest), reads_npfDigits.complete
            (w := (d :: ds).map digitByte) ⟨d :: ds, rfl, rfl, hfit, hbefore⟩, ?_⟩
          rw [if_pos (isDigit_digitByte d)]
          rfl

/-! ### The precision -/

/-- What may come behind a precision. -/
def Precision.Before : Precision → List UInt8 → Prop
  | .none, rest => Starts (· ≠ ch '.') rest
  | .star, _ => True
  | .literal ds, rest => Starts (¬ IsDigit ·) rest ∧
      (ds = [] → Starts (fun b => b ≠ ch '*' ∧ b ≠ ch '-') rest)
  | .negative _, rest => Starts (¬ IsDigit ·) rest

/-- The specifier after the precision. -/
def Precision.set (spec : NpfFormatSpec) (precision : Precision) : NpfFormatSpec :=
  { spec with prec := precision.value, precOpt := precision.opt }

lemma npfPrecision_other (spec : NpfFormatSpec) {b : UInt8} (hb : b ≠ ch '.') (cur : List UInt8) :
    npfPrecision spec (b :: cur) = some (Precision.none.set spec, b :: cur) := by
  unfold npfPrecision
  rw [bind_apply]
  change (if b = ch '.' then _ else _ : Scanner UInt8 NpfFormatSpec) (b :: cur) = _
  rw [if_neg hb]
  rfl

lemma npfPrecision_dot (spec : NpfFormatSpec) (b : UInt8) (cur : List UInt8) :
    npfPrecision spec (ch '.' :: b :: cur) =
      if b = ch '*' then some (Precision.star.set spec, cur)
      else if b = ch '-' then
        (npfDigits cur).bind fun r => some ({ spec with prec := r.1, precOpt := .none }, r.2)
      else (npfDigits (b :: cur)).bind fun r =>
        some ({ spec with prec := r.1, precOpt := .literal }, r.2) := by
  unfold npfPrecision
  change (if b = ch '*' then _ else if b = ch '-' then _ else _ : Scanner UInt8 NpfFormatSpec)
    (b :: cur) = _
  split
  · rfl
  · split
    · rfl
    · rfl

lemma digitByte_ne_minus (d : Fin 10) : digitByte d ≠ ch '-' := by
  revert d
  decide

/-- The precision behind its dot. -/
lemma npfPrecision_dot_iff (spec spec' : NpfFormatSpec) (cur rest : List UInt8) :
    npfPrecision spec (ch '.' :: cur) = some (spec', rest) ↔ ∃ precision : Precision,
      precision.bytes ++ rest = ch '.' :: cur ∧ spec' = precision.set spec ∧
        precision.value ≤ intMax ∧ precision.Before rest ∧ precision.bytes ≠ [] := by
  cases cur with
  | nil =>
    constructor
    · intro h
      cases h
    · rintro ⟨precision, heq, -, -, hbefore, hdot⟩
      cases precision with
      | none => exact absurd rfl hdot
      | star => cases heq
      | literal ds =>
        have hnil : ds.map digitByte ++ rest = [] := (List.cons_eq_cons.mp heq).2
        obtain ⟨b, tail, hrest, -⟩ := hbefore.1
        rw [(List.append_eq_nil_iff.mp hnil).2] at hrest
        cases hrest
      | negative ds => cases heq
  | cons b cur =>
    rw [npfPrecision_dot]
    by_cases hstar : b = ch '*'
    · rw [if_pos hstar]
      constructor
      · intro h
        cases h
        exact ⟨.star, by rw [hstar]; rfl, rfl, by decide, trivial, by simp [Precision.bytes]⟩
      · rintro ⟨precision, heq, rfl, -, hbefore, hdot⟩
        cases precision with
        | none => exact absurd rfl hdot
        | star =>
          cases heq
          rfl
        | literal ds =>
          cases ds with
          | nil =>
            have hrest : rest = b :: cur := (List.cons_eq_cons.mp heq).2
            have hne := hbefore.2 rfl
            rw [hrest, starts_cons] at hne
            exact absurd hstar hne.1
          | cons d ds =>
            cases heq
            exact absurd hstar (digitByte_ne_star d)
        | negative ds =>
          cases heq
          exact absurd hstar (by decide)
    rw [if_neg hstar]
    by_cases hminus : b = ch '-'
    · rw [if_pos hminus, Option.bind_eq_some_iff]
      constructor
      · rintro ⟨⟨n, rest'⟩, hread, heq⟩
        cases heq
        obtain ⟨w, ⟨ds, rfl, rfl, hfit, hrest⟩, rfl⟩ := reads_npfDigits.sound hread
        exact ⟨.negative ds, by rw [hminus]; rfl, rfl, hfit, hrest, by simp [Precision.bytes]⟩
      · rintro ⟨precision, heq, rfl, hfit, hbefore, hdot⟩
        cases precision with
        | none => exact absurd rfl hdot
        | star =>
          cases heq
          exact absurd rfl hstar
        | literal ds =>
          cases ds with
          | nil =>
            have hrest : rest = b :: cur := (List.cons_eq_cons.mp heq).2
            have hne := hbefore.2 rfl
            rw [hrest, starts_cons] at hne
            exact absurd hminus hne.2
          | cons d ds =>
            cases heq
            exact absurd hminus (digitByte_ne_minus d)
        | negative ds =>
          cases heq
          exact ⟨(decimal ds, rest), reads_npfDigits.complete ⟨ds, rfl, rfl, hfit, hbefore⟩, rfl⟩
    · rw [if_neg hminus, Option.bind_eq_some_iff]
      constructor
      · rintro ⟨⟨n, rest'⟩, hread, heq⟩
        cases heq
        obtain ⟨w, ⟨ds, rfl, rfl, hfit, hrest⟩, heq⟩ := reads_npfDigits.sound hread
        refine ⟨.literal ds, by rw [heq]; rfl, rfl, hfit, ⟨hrest, ?_⟩, by simp [Precision.bytes]⟩
        rintro rfl
        change b :: cur = rest' at heq
        rw [← heq, starts_cons]
        exact ⟨hstar, hminus⟩
      · rintro ⟨precision, heq, rfl, hfit, hbefore, hdot⟩
        cases precision with
        | none => exact absurd rfl hdot
        | star =>
          cases heq
          exact absurd rfl hstar
        | literal ds =>
          have hcur : b :: cur = ds.map digitByte ++ rest := (List.cons_eq_cons.mp heq).2.symm
          rw [hcur]
          exact ⟨(decimal ds, rest), reads_npfDigits.complete ⟨ds, rfl, rfl, hfit, hbefore.1⟩, rfl⟩
        | negative ds =>
          cases heq
          exact absurd rfl hminus

/-- The precision. -/
lemma reads_npfPrecision (spec : NpfFormatSpec) : Reads (npfPrecision spec) fun spec' w rest =>
    ∃ precision : Precision, w = precision.bytes ∧ spec' = precision.set spec ∧
      precision.value ≤ intMax ∧ precision.Before rest := by
  have hdot : ∀ precision : Precision, precision.bytes = [] ∨
      ∃ tail, precision.bytes = ch '.' :: tail := by
    intro precision
    cases precision
    · exact .inl rfl
    all_goals exact .inr ⟨_, rfl⟩
  have hnone : ∀ precision : Precision, precision.bytes = [] → precision = .none := by
    intro precision h
    cases precision
    · rfl
    all_goals cases h
  intro input spec' rest
  by_cases hinput : ∃ cur, input = ch '.' :: cur
  · obtain ⟨cur, rfl⟩ := hinput
    rw [npfPrecision_dot_iff]
    constructor
    · rintro ⟨precision, heq, hset, hfit, hbefore, -⟩
      exact ⟨_, ⟨precision, rfl, hset, hfit, hbefore⟩, heq.symm⟩
    · rintro ⟨w, ⟨precision, rfl, hset, hfit, hbefore⟩, heq⟩
      refine ⟨precision, heq.symm, hset, hfit, hbefore, fun hnil => ?_⟩
      rw [hnone precision hnil] at heq hbefore
      change ch '.' :: cur = rest at heq
      rw [← heq, Precision.Before, starts_cons] at hbefore
      exact hbefore rfl
  · constructor
    · intro h
      cases input with
      | nil => cases h
      | cons b cur =>
        have hb : b ≠ ch '.' := fun heq => hinput ⟨cur, by rw [heq]⟩
        rw [npfPrecision_other spec hb] at h
        cases h
        exact ⟨[], ⟨.none, rfl, rfl, by decide, starts_cons.mpr hb⟩, rfl⟩
    · rintro ⟨w, ⟨precision, rfl, rfl, -, hbefore⟩, rfl⟩
      rcases hdot precision with hnil | ⟨tail, htail⟩
      · rw [hnone precision hnil] at hbefore ⊢
        obtain ⟨b, tail, rfl, hb⟩ := hbefore
        exact npfPrecision_other spec hb tail
      · exact absurd ⟨tail ++ rest, by rw [htail]; rfl⟩ hinput

/-! ### The length modifier -/

/-- What may come behind a length modifier. -/
def Length.Before : Length → List UInt8 → Prop
  | .none, rest => Starts (· ∉ [ch 'h', ch 'l', ch 'j', ch 'z', ch 't']) rest
  | .h, rest => Starts (· ≠ ch 'h') rest
  | .l, rest => Starts (· ≠ ch 'l') rest
  | _, _ => True

/-- The specifier after the length modifier. -/
def Length.set (spec : NpfFormatSpec) (length : Length) : NpfFormatSpec :=
  { spec with lengthModifier := length.modifier }

lemma npfLengthModifier_other (spec : NpfFormatSpec) {b : UInt8}
    (hb : b ∉ [ch 'h', ch 'l', ch 'j', ch 'z', ch 't']) (cur : List UInt8) :
    npfLengthModifier spec (b :: cur) = some (Length.none.set spec, b :: cur) := by
  simp only [List.mem_cons, List.not_mem_nil, or_false, not_or] at hb
  obtain ⟨hh, hl, hj, hz, ht⟩ := hb
  unfold npfLengthModifier
  rw [bind_apply]
  change (if b = ch 'h' then _ else _ : Scanner UInt8 NpfFormatSpec) (b :: cur) = _
  rw [if_neg hh, if_neg hl, if_neg hj, if_neg hz, if_neg ht]
  rfl

/-- A doubled letter makes another modifier. -/
lemma npfLengthModifier_h (spec : NpfFormatSpec) (b : UInt8) (cur : List UInt8) :
    npfLengthModifier spec (ch 'h' :: b :: cur) =
      if b = ch 'h' then some (Length.hh.set spec, cur) else some (Length.h.set spec, b :: cur) := by
  change (if b = ch 'h' then _ else _ : Scanner UInt8 NpfFormatSpec) (b :: cur) = _
  split <;> rfl

lemma npfLengthModifier_l (spec : NpfFormatSpec) (b : UInt8) (cur : List UInt8) :
    npfLengthModifier spec (ch 'l' :: b :: cur) =
      if b = ch 'l' then some (Length.ll.set spec, cur) else some (Length.l.set spec, b :: cur) := by
  change (if b = ch 'l' then _ else _ : Scanner UInt8 NpfFormatSpec) (b :: cur) = _
  split <;> rfl

/-- Each length modifier is read. -/
lemma npfLengthModifier_bytes (spec : NpfFormatSpec) (length : Length) {rest : List UInt8}
    (h : length.Before rest) :
    npfLengthModifier spec (length.bytes ++ rest) = some (length.set spec, rest) := by
  cases length with
  | none =>
    obtain ⟨b, tail, rfl, hb⟩ := h
    exact npfLengthModifier_other spec hb tail
  | h =>
    obtain ⟨b, tail, rfl, hb⟩ := h
    exact (npfLengthModifier_h spec b tail).trans (if_neg hb)
  | hh => exact npfLengthModifier_h spec (ch 'h') rest
  | l =>
    obtain ⟨b, tail, rfl, hb⟩ := h
    exact (npfLengthModifier_l spec b tail).trans (if_neg hb)
  | ll => exact npfLengthModifier_l spec (ch 'l') rest
  | j => rfl
  | z => rfl
  | t => rfl

/-- An input that is read is split into a length modifier and the rest. -/
lemma exists_length {spec spec' : NpfFormatSpec} {input rest : List UInt8}
    (h : npfLengthModifier spec input = some (spec', rest)) :
    ∃ (length : Length) (rest' : List UInt8), input = length.bytes ++ rest' ∧ length.Before rest' := by
  cases input with
  | nil => cases h
  | cons b cur =>
    by_cases hb : b ∈ [ch 'h', ch 'l', ch 'j', ch 'z', ch 't']
    · simp only [List.mem_cons, List.not_mem_nil, or_false] at hb
      rcases hb with rfl | rfl | rfl | rfl | rfl
      · cases cur with
        | nil => cases h
        | cons c cur =>
          by_cases hc : c = ch 'h'
          · exact ⟨.hh, cur, by rw [hc]; rfl, trivial⟩
          · exact ⟨.h, c :: cur, rfl, starts_cons.mpr hc⟩
      · cases cur with
        | nil => cases h
        | cons c cur =>
          by_cases hc : c = ch 'l'
          · exact ⟨.ll, cur, by rw [hc]; rfl, trivial⟩
          · exact ⟨.l, c :: cur, rfl, starts_cons.mpr hc⟩
      · exact ⟨.j, cur, rfl, trivial⟩
      · exact ⟨.z, cur, rfl, trivial⟩
      · exact ⟨.t, cur, rfl, trivial⟩
    · exact ⟨.none, b :: cur, rfl, starts_cons.mpr hb⟩

/-- The length modifier. -/
lemma reads_npfLengthModifier (spec : NpfFormatSpec) :
    Reads (npfLengthModifier spec) fun spec' w rest =>
      ∃ length : Length, w = length.bytes ∧ spec' = length.set spec ∧ length.Before rest := by
  intro input spec' rest
  constructor
  · intro h
    obtain ⟨length, rest', rfl, hbefore⟩ := exists_length h
    rw [npfLengthModifier_bytes spec length hbefore] at h
    cases h
    exact ⟨_, ⟨length, rfl, rfl, hbefore⟩, rfl⟩
  · rintro ⟨w, ⟨length, rfl, rfl, hbefore⟩, rfl⟩
    exact npfLengthModifier_bytes spec length hbefore

/-! ### The conversion -/

/-- The specifier after the conversion. -/
def Letter.set (spec : NpfFormatSpec) (letter : Letter) : NpfFormatSpec :=
  { spec with
    convSpec := letter.conv
    caseAdjust := if letter ∈ [.upperX, .upperB] then 0 else spec.caseAdjust
    precOpt := if letter ∈ [.percent, .c, .p] then .none else spec.precOpt
    leadingZeroPad := spec.leadingZeroPad ∧ letter ≠ .s ∧
      (letter ∈ [.d, .i, .o, .u, .x, .upperX] → spec.precOpt = .none) }

/-- The letters are the bytes that the parser knows. -/
lemma npfConversion_byte (spec : NpfFormatSpec) (letter : Letter) :
    npfConversion spec letter.byte = some (letter.set spec) := by
  have hinteger : ∀ conv, spec.integer conv = { spec with
      convSpec := conv, leadingZeroPad := spec.leadingZeroPad ∧ spec.precOpt = .none } := by
    intro conv
    by_cases h : spec.precOpt = .none <;> simp [NpfFormatSpec.integer, h]
  have hinteger' : ({ spec with caseAdjust := 0 } : NpfFormatSpec).integer .hexInt = { spec with
      caseAdjust := 0
      convSpec := .hexInt
      leadingZeroPad := spec.leadingZeroPad ∧ spec.precOpt = .none } := by
    by_cases h : spec.precOpt = .none <;> simp [NpfFormatSpec.integer, h]
  cases letter
  case d => exact (congrArg some (hinteger .signedInt)).trans (by simp [Letter.set, Letter.conv])
  case i => exact (congrArg some (hinteger .signedInt)).trans (by simp [Letter.set, Letter.conv])
  case o => exact (congrArg some (hinteger .octal)).trans (by simp [Letter.set, Letter.conv])
  case u => exact (congrArg some (hinteger .unsignedInt)).trans (by simp [Letter.set, Letter.conv])
  case x => exact (congrArg some (hinteger .hexInt)).trans (by simp [Letter.set, Letter.conv])
  case upperX => exact (congrArg some hinteger').trans (by simp [Letter.set, Letter.conv])
  case percent =>
    change some { spec with convSpec := .percent, precOpt := .none } = _
    simp [Letter.set, Letter.conv]
  case c =>
    change some { spec with convSpec := .char, precOpt := .none } = _
    simp [Letter.set, Letter.conv]
  case s =>
    change some { spec with convSpec := .string, leadingZeroPad := false } = _
    simp [Letter.set, Letter.conv]
  case p =>
    change some { spec with convSpec := .pointer, precOpt := .none } = _
    simp [Letter.set, Letter.conv]
  case b =>
    change some { spec with convSpec := .binary } = _
    simp [Letter.set, Letter.conv]
  case upperB =>
    change some { spec with caseAdjust := 0, convSpec := .binary } = _
    simp [Letter.set, Letter.conv]

lemma npfConversion_of_not_letter {b : UInt8} (hb : ∀ letter : Letter, b ≠ letter.byte)
    (spec : NpfFormatSpec) : npfConversion spec b = none := by
  have hid : ¬ (b = ch 'i' ∨ b = ch 'd') := not_or.mpr ⟨hb .i, hb .d⟩
  rw [npfConversion, if_neg (show ¬ b = ch '%' from hb .percent),
    if_neg (show ¬ b = ch 'c' from hb .c), if_neg (show ¬ b = ch 's' from hb .s), if_neg hid,
    if_neg (show ¬ b = ch 'o' from hb .o), if_neg (show ¬ b = ch 'u' from hb .u),
    if_neg (show ¬ b = ch 'X' from hb .upperX), if_neg (show ¬ b = ch 'x' from hb .x),
    if_neg (show ¬ b = ch 'p' from hb .p), if_neg (show ¬ b = ch 'B' from hb .upperB),
    if_neg (show ¬ b = ch 'b' from hb .b)]

/-- The last byte of a specifier. -/
lemma reads_npfConversion (spec : NpfFormatSpec) :
    Reads (symbol fun b => some (npfConversion spec b)) fun r w _ =>
      ∃ b, w = [b] ∧ npfConversion spec b = r :=
  (reads_symbol _).congr fun r w _ => by simp

end Soaplin
