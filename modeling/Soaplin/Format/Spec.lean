import Soaplin.Foundation.PrefixScanner

/-!
# Format specifiers

`npf_parse_format_spec` of `tpf/npf.h` in the configuration of `tpf/npf.c`: field widths, precisions,
large length modifiers and the binary conversion, no floating point and no write-back.  The pointer
`cur` is the list of the bytes from it on, and the function is a scanner of that list.  A scanner
that gives up stands for behaviour that C leaves undefined: the read of a byte behind the last one,
or the overflow of an `int`.
-/

namespace Soaplin

open PrefixScanner

/-- A character constant. -/
def ch (c : Char) : UInt8 := c.val.toUInt8

/-- `INT_MAX`. -/
def intMax : ℕ := 2 ^ 31 - 1

/-- `NPF_FMT_SPEC_OPT_*`. -/
inductive NpfOpt
  | none
  | literal
  | star
deriving DecidableEq

/-- `NPF_FMT_SPEC_LEN_MOD_*`. -/
inductive NpfLenMod
  | none
  | short
  | longDouble
  | char
  | long
  | largeLongLong
  | largeIntmax
  | largeSizet
  | largePtrdifft
deriving DecidableEq

/-- `NPF_FMT_SPEC_CONV_*`. -/
inductive NpfConv
  | none
  | percent
  | char
  | string
  | signedInt
  | binary
  | octal
  | hexInt
  | unsignedInt
  | pointer
deriving DecidableEq

/-- `npf_format_spec_t`.  The fields that the code only tests for zero are truth values. -/
structure NpfFormatSpec where
  fieldWidth : ℤ
  fieldWidthOpt : NpfOpt
  leftJustified : Bool
  leadingZeroPad : Bool
  prec : ℤ
  precOpt : NpfOpt
  prepend : UInt8
  altForm : Bool
  caseAdjust : UInt8
  lengthModifier : NpfLenMod
  convSpec : NpfConv
deriving DecidableEq

/-- The specifier before the first flag.  The fields after `caseAdjust` and those of the width and
the precision are assigned before they are read. -/
def NpfFormatSpec.start : NpfFormatSpec where
  fieldWidth := 0
  fieldWidthOpt := .none
  leftJustified := false
  leadingZeroPad := false
  prec := 0
  precOpt := .none
  prepend := 0
  altForm := false
  caseAdjust := ch 'a' - ch 'A'
  lengthModifier := .none
  convSpec := .none

/-! ### The phases of the parser -/

/-- The `switch` on an optional flag; the default case leaves the loop. -/
def npfFlag (spec : NpfFormatSpec) (b : UInt8) : Option NpfFormatSpec :=
  if b = ch '-' then some { spec with leftJustified := true, leadingZeroPad := false }
  else if b = ch '0' then some { spec with leadingZeroPad := !spec.leftJustified }
  else if b = ch '+' then some { spec with prepend := ch '+' }
  else if b = ch ' ' then
    some { spec with prepend := if spec.prepend = 0 then ch ' ' else spec.prepend }
  else if b = ch '#' then some { spec with altForm := true }
  else none

/-- `(*cur >= '0') && (*cur <= '9')`. -/
def IsDigit (b : UInt8) : Prop := ch '0' ≤ b ∧ b ≤ ch '9'

instance (b : UInt8) : Decidable (IsDigit b) := inferInstanceAs (Decidable (_ ∧ _))

/-- One step of a loop over digits. -/
def npfDigit (n : ℕ) (b : UInt8) : Option ℕ :=
  if IsDigit b then some (n * 10 + (b.toNat - (ch '0').toNat)) else none

/-- A loop over digits.  The number only grows, so it has overflowed on the way if it is too large
in the end. -/
def npfDigits : Scanner UInt8 ℕ := do
  let n ← scanWhile npfDigit 0
  if n ≤ intMax then return n else failure

/-- `*cur`, without moving the pointer. -/
def peek : Scanner UInt8 UInt8 := fun cur => cur.head?.map (·, cur)

/-- `cur++`. -/
def advance : Scanner UInt8 Unit := modify List.tail

/-- The field width. -/
def npfFieldWidth (spec : NpfFormatSpec) : Scanner UInt8 NpfFormatSpec := do
  let b ← peek
  if b = ch '*' then
    advance
    return { spec with fieldWidthOpt := .star }
  else
    let n ← npfDigits
    return { spec with
      fieldWidth := n, fieldWidthOpt := if IsDigit b then .literal else .none }

/-- The precision. -/
def npfPrecision (spec : NpfFormatSpec) : Scanner UInt8 NpfFormatSpec := do
  let spec := { spec with prec := 0, precOpt := .none }
  if (← peek) = ch '.' then
    advance
    let b ← peek
    if b = ch '*' then
      advance
      return { spec with precOpt := .star }
    else if b = ch '-' then
      advance
      let n ← npfDigits
      return { spec with prec := n }
    else
      let n ← npfDigits
      return { spec with prec := n, precOpt := .literal }
  else return spec

/-- The `switch` on the length modifier. -/
def npfLengthModifier (spec : NpfFormatSpec) : Scanner UInt8 NpfFormatSpec := do
  let b ← peek
  if b = ch 'h' then
    advance
    if (← peek) = ch 'h' then
      advance
      return { spec with lengthModifier := .char }
    else return { spec with lengthModifier := .short }
  else if b = ch 'l' then
    advance
    if (← peek) = ch 'l' then
      advance
      return { spec with lengthModifier := .largeLongLong }
    else return { spec with lengthModifier := .long }
  else if b = ch 'j' then
    advance
    return { spec with lengthModifier := .largeIntmax }
  else if b = ch 'z' then
    advance
    return { spec with lengthModifier := .largeSizet }
  else if b = ch 't' then
    advance
    return { spec with lengthModifier := .largePtrdifft }
  else return { spec with lengthModifier := .none }

/-- The end of the cases of an integer conversion: with a precision there is no zero padding. -/
def NpfFormatSpec.integer (spec : NpfFormatSpec) (conv : NpfConv) : NpfFormatSpec :=
  { spec with
    convSpec := conv
    leadingZeroPad := if spec.precOpt ≠ .none then false else spec.leadingZeroPad }

/-- The `switch` on the conversion specifier; the default case is `none`. -/
def npfConversion (spec : NpfFormatSpec) (b : UInt8) : Option NpfFormatSpec :=
  if b = ch '%' then some { spec with convSpec := .percent, precOpt := .none }
  else if b = ch 'c' then some { spec with convSpec := .char, precOpt := .none }
  else if b = ch 's' then some { spec with convSpec := .string, leadingZeroPad := false }
  else if b = ch 'i' ∨ b = ch 'd' then some (spec.integer .signedInt)
  else if b = ch 'o' then some (spec.integer .octal)
  else if b = ch 'u' then some (spec.integer .unsignedInt)
  else if b = ch 'X' then some ({ spec with caseAdjust := 0 }.integer .hexInt)
  else if b = ch 'x' then some (spec.integer .hexInt)
  else if b = ch 'p' then some { spec with convSpec := .pointer, precOpt := .none }
  else if b = ch 'B' then some { spec with caseAdjust := 0, convSpec := .binary }
  else if b = ch 'b' then some { spec with convSpec := .binary }
  else none

/-- The specifier behind a `%`, or `none` for one that the parser does not know. -/
def npfSpec : Scanner UInt8 (Option NpfFormatSpec) := do
  let spec ← scanWhile npfFlag NpfFormatSpec.start
  let spec ← npfFieldWidth spec
  let spec ← npfPrecision spec
  let spec ← npfLengthModifier spec
  symbol fun b => some (npfConversion spec b)

/-- `npf_parse_format_spec` on a format that starts with `%`: the number of bytes of the specifier,
or 0 for one that the parser does not know, and what is in `*out_spec`. -/
def npfParseFormatSpec (format : List UInt8) : Option (ℕ × NpfFormatSpec) := do
  let (spec, cur) ← npfSpec format.tail
  match spec with
  | some spec => return (format.length - cur.length, spec)
  | none => return (0, .start)

end Soaplin
