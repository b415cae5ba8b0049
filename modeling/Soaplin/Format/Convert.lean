import Soaplin.Foundation.Numeral
import Soaplin.Format.Spec

/-!
# Conversion of the arguments

The first half of the loop body of `npf_vpprintf`: a specifier takes its arguments and converts them
to the text in the conversion buffer, a sign and a prefix.  An argument is the 64-bit word that
`va_arg` finds, together with the bytes that can be read from it as an address.  Taking an argument
that is not there, reading past those bytes and overflowing an `int` are undefined, which is `none`.
-/

namespace Soaplin

/-- A value for which there may be no defined one: `z` as an `int`. -/
def intOf (z : ℤ) : Option ℤ := if -(2 ^ 31) ≤ z ∧ z < 2 ^ 31 then some z else none

/-- A variable argument. -/
structure VaArg where
  word : BitVec 64
  bytes : List UInt8

/-- `va_arg`. -/
def vaArg : StateT (List VaArg) Option VaArg
  | [] => none
  | a :: args => some (a, args)

/-- `va_arg(args, int)`. -/
def VaArg.int (a : VaArg) : ℤ := (a.word.setWidth 32).toInt

/-! ### The arguments for `*` -/

/-- The width of a specifier with `*`. -/
def npfStarWidth (fs : NpfFormatSpec) : StateT (List VaArg) Option NpfFormatSpec := do
  if fs.fieldWidthOpt = .star then
    let width := (← vaArg).int
    if width < 0 then
      let width ← intOf (-width)
      return { fs with fieldWidth := width, leftJustified := true }
    else return { fs with fieldWidth := width }
  else return fs

/-- The precision of a specifier with `.*`. -/
def npfStarPrec (fs : NpfFormatSpec) : StateT (List VaArg) Option NpfFormatSpec := do
  if fs.precOpt = .star then
    let prec := (← vaArg).int
    if prec < 0 then return { fs with prec := prec, precOpt := .none }
    else return { fs with prec := prec }
  else return fs

/-! ### Numbers -/

/-- The character of the digit `d`. -/
def npfGlyph (caseAdj : UInt8) (d : ℕ) : UInt8 :=
  (if d < 10 then ch '0' else ch 'A' - 10 + caseAdj) + UInt8.ofNat d

/-- `npf_utoa_rev`: the digits of a number, the last one first. -/
def npfUtoaRev (val base : ℕ) (hbase : 1 < base) (caseAdj : UInt8) : List UInt8 :=
  if val / base = 0 then [npfGlyph caseAdj (val % base)]
  else npfGlyph caseAdj (val % base) :: npfUtoaRev (val / base) base hbase caseAdj
termination_by val
decreasing_by exact Nat.div_lt_self (Nat.pos_of_ne_zero (by rintro rfl; simp at *)) hbase

/-- `npf_bin_len`, by way of `__builtin_clzll`. -/
def npfBinLen (u : BitVec 64) : ℕ := if u = 0 then 1 else 64 - u.clz.toNat

/-- `NPF_EXTRACT` for a signed conversion. -/
def npfExtractSigned (w : BitVec 64) : NpfLenMod → ℤ
  | .none => (w.setWidth 32).toInt
  | .short => ((w.setWidth 32).setWidth 16).toInt
  | .longDouble => (w.setWidth 32).toInt
  | .char => ((w.setWidth 32).setWidth 8).toInt
  | _ => w.toInt

/-- `NPF_EXTRACT` for an unsigned conversion. -/
def npfExtractUnsigned (w : BitVec 64) : NpfLenMod → BitVec 64
  | .none => (w.setWidth 32).setWidth 64
  | .short => ((w.setWidth 32).setWidth 16).setWidth 64
  | .longDouble => (w.setWidth 32).setWidth 64
  | .char => ((w.setWidth 32).setWidth 8).setWidth 64
  | _ => w

/-- The base of an unsigned conversion. -/
def npfBase (conv : NpfConv) : ℕ := if conv = .octal then 8 else if conv = .hexInt then 16 else 10

lemma one_lt_npfBase (conv : NpfConv) : 1 < npfBase conv := by
  unfold npfBase
  split
  · decide
  · split <;> decide

/-! ### The conversion -/

/-- The local variables after the conversion. -/
structure NpfField where
  fs : NpfFormatSpec
  cbuf : List UInt8
  cbufLen : ℕ
  signC : UInt8
  need0x : UInt8
  zero : Bool
  binval : BitVec 64

/-- The local variables before the conversion. -/
def NpfField.start (fs : NpfFormatSpec) : NpfField where
  fs := fs
  cbuf := []
  cbufLen := 0
  signC := 0
  need0x := 0
  zero := false
  binval := 0

/-- The loop that measures a string, up to its `NUL` or the precision. -/
def npfStringLen (fs : NpfFormatSpec) (len : ℕ) : List UInt8 → Option ℕ
  | [] => if fs.precOpt = .none ∨ len < fs.prec then none else some len
  | b :: s =>
    if (fs.precOpt = .none ∨ len < fs.prec) ∧ b ≠ 0 then
      if len < intMax then npfStringLen fs (len + 1) s else none
    else some len

/-- A zero is not printed when the precision is zero. -/
def NpfFormatSpec.SkipsZero (fs : NpfFormatSpec) : Prop := fs.precOpt ≠ .none ∧ fs.prec = 0

instance (fs : NpfFormatSpec) : Decidable fs.SkipsZero := inferInstanceAs (Decidable (_ ∧ _))

/-- The signed conversion of a value. -/
def npfSigned (fs : NpfFormatSpec) (val : ℤ) : NpfField :=
  let uval := if val < 0 then 0 - BitVec.ofInt 64 val else BitVec.ofInt 64 val
  let cbuf :=
    if val = 0 ∧ fs.SkipsZero then [] else npfUtoaRev uval.toNat 10 (by decide) fs.caseAdjust
  { NpfField.start fs with
    cbuf := cbuf
    cbufLen := cbuf.length
    signC := if val < 0 then ch '-' else fs.prepend
    zero := val = 0 }

/-- The second character of the prefix of an unsigned number, or 0 if it has none. -/
def npfNeed0x (fs : NpfFormatSpec) (val : BitVec 64) : UInt8 :=
  if val ≠ 0 ∧ fs.altForm = true then
    if fs.convSpec = .hexInt then ch 'X' + fs.caseAdjust
    else if fs.convSpec = .binary then ch 'B' + fs.caseAdjust
    else 0
  else 0

/-- An unsigned or binary conversion of a value. -/
def npfUnsigned (fs : NpfFormatSpec) (val : BitVec 64) : NpfField :=
  let octalAlt := fs.convSpec = .octal ∧ fs.altForm = true
  let field := { NpfField.start fs with need0x := npfNeed0x fs val, zero := val = 0 }
  if val = 0 ∧ fs.SkipsZero then
    if octalAlt then { field with fs := { fs with prec := 1 } } else field
  else if fs.convSpec = .binary then { field with cbufLen := npfBinLen val, binval := val }
  else
    let cbuf := npfUtoaRev val.toNat (npfBase fs.convSpec) (one_lt_npfBase _) fs.caseAdjust
    let cbuf := if val ≠ 0 ∧ octalAlt then cbuf ++ [ch '0'] else cbuf
    { field with cbuf := cbuf, cbufLen := cbuf.length }

/-- The conversion of a pointer. -/
def npfPointer (fs : NpfFormatSpec) (w : BitVec 64) : NpfField :=
  let cbuf := npfUtoaRev w.toNat 16 (by decide) (ch 'a' - ch 'A')
  { NpfField.start fs with cbuf := cbuf, cbufLen := cbuf.length, need0x := ch 'x' }

/-- The `switch` that extracts and converts the argument. -/
def npfConvert (fs : NpfFormatSpec) : StateT (List VaArg) Option NpfField := do
  match fs.convSpec with
  | .none => return .start fs
  | .percent => return { NpfField.start fs with cbuf := [ch '%'], cbufLen := 1 }
  | .char =>
    let b := UInt8.ofBitVec ((← vaArg).word.setWidth 8)
    return { NpfField.start fs with cbuf := [b], cbufLen := 1 }
  | .string =>
    let cbuf := (← vaArg).bytes
    let len ← npfStringLen fs 0 cbuf
    return { NpfField.start fs with cbuf := cbuf, cbufLen := len }
  | .signedInt => return npfSigned fs (npfExtractSigned (← vaArg).word fs.lengthModifier)
  | .binary | .octal | .hexInt | .unsignedInt =>
    return npfUnsigned fs (npfExtractUnsigned (← vaArg).word fs.lengthModifier)
  | .pointer => return npfPointer fs (← vaArg).word

end Soaplin
