import Soaplin.Format.Convert

/-!
# The printing loop

The second half of the loop body of `npf_vpprintf`, which pads a converted field and puts it out byte by
byte, the loop over the format, and `npf_vsnprintf`.  Where the bytes go is a parameter: `pc` puts a
byte into a context of any type, as in the source.
-/

namespace Soaplin

/-- `npf_cnt_putc_ctx_t`: the context of the caller's `pc` and the number of bytes put. -/
structure NpfCntPutcCtx (σ : Type) where
  ctx : σ
  n : ℕ

variable {σ : Type} (pc : UInt8 → σ → σ)

/-- A step of the printing, which changes the context. -/
abbrev Put (σ α : Type) := StateT (NpfCntPutcCtx σ) Option α

/-- `npf_putc_cnt`. -/
def npfPutcCnt (c : UInt8) : Put σ Unit := fun s =>
  if s.n < intMax then some ((), ⟨pc c s.ctx, s.n + 1⟩) else none

/-- `while (pad-- > 0) NPF_PUTC(c)`. -/
def npfPad (c : UInt8) : ℕ → Put σ Unit
  | 0 => pure ()
  | pad + 1 => do
    npfPutcCnt pc c
    npfPad c pad

/-- `NPF_PUTC(cbuf[i])`. -/
def npfPutAt (cbuf : List UInt8) (i : ℕ) : Put σ Unit :=
  match cbuf[i]? with
  | some c => npfPutcCnt pc c
  | none => failure

/-- The payload of a string, of which `todo` bytes are left from index `i` on. -/
def npfPutString (cbuf : List UInt8) (i : ℕ) : ℕ → Put σ Unit
  | 0 => pure ()
  | todo + 1 => do
    npfPutAt pc cbuf i
    npfPutString cbuf (i + 1) todo

/-- A payload that is reversed. -/
def npfPutReversed (cbuf : List UInt8) : ℕ → Put σ Unit
  | 0 => pure ()
  | len + 1 => do
    npfPutAt pc cbuf len
    npfPutReversed cbuf len

/-- The payload of a binary conversion. -/
def npfPutBinary (binval : BitVec 64) : ℕ → Put σ Unit
  | 0 => pure ()
  | len + 1 => do
    npfPutcCnt pc (ch '0' + UInt8.ofBitVec ((binval >>> len &&& 1).setWidth 8))
    npfPutBinary binval len

/-- The character that fills the field, or 0. -/
def npfPadC (field : NpfField) : UInt8 :=
  if field.fs.fieldWidthOpt ≠ .none then
    if field.fs.leadingZeroPad then
      if field.fs.convSpec ≠ .string ∧ field.fs.convSpec ≠ .char ∧ field.fs.convSpec ≠ .percent then
        if field.fs.SkipsZero ∧ field.zero = true then ch ' ' else ch '0'
      else 0
    else ch ' '
  else 0

/-- The number of zeros that the precision asks for; `npf_max` is `max`. -/
def npfPrecPad (field : NpfField) : Option ℤ :=
  if field.fs.convSpec ≠ .string then do
    let pad ← intOf (field.fs.prec - field.cbufLen)
    return max 0 pad
  else return 0

/-- The number of bytes that fill the field.  The differences decrease, so that the last one is an
`int` if they all are. -/
def npfFieldPad (field : NpfField) (precPad : ℤ) : Option ℤ := do
  let pad := field.fs.fieldWidth - field.cbufLen - (if field.signC ≠ 0 then 1 else 0)
  let pad := if field.need0x ≠ 0 then pad - 2 else pad
  let pad ← intOf (pad - precPad)
  return max 0 pad

/-- The prefix of a hexadecimal or binary number. -/
def npfPut0x (need0x : UInt8) : Put σ Unit := do
  if need0x ≠ 0 then
    npfPutcCnt pc (ch '0')
    npfPutcCnt pc need0x

/-- The sign. -/
def npfPutSign (signC : UInt8) : Put σ Unit := do
  if signC ≠ 0 then npfPutcCnt pc signC

/-- The payload of a field. -/
def npfPutPayload (field : NpfField) (signC : UInt8) (precPad : ℕ) : Put σ Unit := do
  if field.fs.convSpec = .string then npfPutString pc field.cbuf 0 field.cbufLen
  else
    npfPutSign pc signC
    npfPad pc (ch '0') precPad
    if field.fs.convSpec = .binary then npfPutBinary pc field.binval field.cbufLen
    else npfPutReversed pc field.cbuf field.cbufLen

/-- A converted field is put out. -/
def npfPutField (field : NpfField) : Put σ Unit := do
  let padC := npfPadC field
  let precPad ← npfPrecPad field
  let fieldPad ← npfFieldPad field precPad
  if field.fs.leftJustified = false ∧ padC ≠ 0 then
    if padC = ch '0' then
      npfPutSign pc field.signC
      npfPut0x pc field.need0x
      npfPad pc padC fieldPad.toNat
      npfPutPayload pc field 0 precPad.toNat
    else
      npfPad pc padC fieldPad.toNat
      npfPut0x pc field.need0x
      npfPutPayload pc field field.signC precPad.toNat
  else
    npfPut0x pc field.need0x
    npfPutPayload pc field field.signC precPad.toNat
    if field.fs.leftJustified = true ∧ padC ≠ 0 then npfPad pc padC fieldPad.toNat

/-- The arguments of a specifier are taken and converted. -/
def npfTakeField (fs : NpfFormatSpec) : StateT (List VaArg) Option NpfField := do
  let fs ← npfStarWidth fs
  let fs ← npfStarPrec fs
  npfConvert fs

/-- The loop of `npf_vpprintf` from `cur` on. -/
def npfLoop (cur : List UInt8) (args : List VaArg) (s : NpfCntPutcCtx σ) :
    Option (NpfCntPutcCtx σ) := do
  match cur with
  | [] => none
  | b :: rest =>
    if b = 0 then return s
    else
      let (fsLen, fs) ← if b ≠ ch '%' then some (0, .start) else npfParseFormatSpec (b :: rest)
      if _hlen : fsLen = 0 then
        let (_, s) ← npfPutcCnt pc b s
        npfLoop rest args s
      else
        let (field, args) ← npfTakeField fs args
        let (_, s) ← npfPutField pc field s
        npfLoop ((b :: rest).drop fsLen) args s
termination_by cur.length
decreasing_by
  · simp
  · simp only [List.length_drop, List.length_cons]
    omega

/-- `npf_vpprintf`: the context in the end and the number of bytes. -/
def npfVpprintf (ctx : σ) (format : List UInt8) (args : List VaArg) : Option (NpfCntPutcCtx σ) :=
  npfLoop pc format args ⟨ctx, 0⟩

/-! ### Printing into a buffer -/

/-- `npf_bufputc_ctx_t`. -/
structure NpfBufputcCtx where
  dst : List UInt8
  len : ℕ
  cur : ℕ

/-- `npf_bufputc`. -/
def npfBufputc (c : UInt8) (bpc : NpfBufputcCtx) : NpfBufputcCtx :=
  if bpc.cur < bpc.len then { bpc with dst := bpc.dst.set bpc.cur c, cur := bpc.cur + 1 } else bpc

/-- `npf_bufputc_nop`. -/
def npfBufputcNop (_ : UInt8) (bpc : NpfBufputcCtx) : NpfBufputcCtx := bpc

/-- `npf_vsnprintf`: the buffer, if there is one, and the result.  The buffer holds `bufsz` bytes. -/
def npfVsnprintf (buffer : Option (List UInt8)) (bufsz : ℕ) (format : List UInt8)
    (args : List VaArg) : Option (Option (List UInt8) × ℕ) := do
  match buffer with
  | none =>
    let s ← npfVpprintf npfBufputcNop ⟨[], bufsz, 0⟩ format args
    return (none, s.n)
  | some dst =>
    let s ← npfVpprintf npfBufputc ⟨dst, bufsz, 0⟩ format args
    let bpc := npfBufputc 0 s.ctx
    return (some (if bufsz ≠ 0 then bpc.dst.set (bufsz - 1) 0 else bpc.dst), s.n)

end Soaplin
