import Soaplin.Format.Print

/-!
# The layout of a field

`npf_vpprintf` puts a field out in pieces: fill, sign, prefix, zeros, digits, fill.  A `Layout` says
what they add up to: a head, a body, a width and a place for the fill.  The layout of a converted field
is `NpfField.layout`, and `npfPutField_eq` says that putting the field out is putting out the bytes of
its layout, unless a difference overflows.
-/

namespace Soaplin

/-! ### Layouts -/

/-- Where a field is filled up to its width: nowhere, with blanks before it, with zeros between its
head and its body, or behind it. -/
inductive Fill
  | none
  | before
  | between
  | behind (c : UInt8)

/-- A field. -/
structure Layout where
  head : List UInt8
  body : List UInt8
  width : ℕ
  fill : Fill

/-- The bytes that are missing to the width. -/
def Layout.missing (l : Layout) : ℕ := l.width - (l.head.length + l.body.length)

/-- The bytes of a field. -/
def Layout.bytes (l : Layout) : List UInt8 :=
  match l.fill with
  | .none => l.head ++ l.body
  | .before => List.replicate l.missing (ch ' ') ++ (l.head ++ l.body)
  | .between => l.head ++ (List.replicate l.missing (ch '0') ++ l.body)
  | .behind c => l.head ++ l.body ++ List.replicate l.missing c

/-- A field that is filled is as long as its width, or as its content if that is longer. -/
lemma Layout.length_bytes (l : Layout) : l.bytes.length =
    match l.fill with
    | .none => l.head.length + l.body.length
    | _ => max l.width (l.head.length + l.body.length) := by
  obtain ⟨head, body, width, fill⟩ := l
  cases fill <;> simp [Layout.bytes, Layout.missing] <;> omega

/-! ### Putting out bytes -/

variable {σ : Type} (pc : UInt8 → σ → σ)

/-- The bytes are put out in turn. -/
def putAll (bs : List UInt8) : Put σ Unit := forM bs (npfPutcCnt pc)

lemma putAll_nil : putAll pc [] = pure () := rfl

lemma putAll_cons (b : UInt8) (bs : List UInt8) :
    putAll pc (b :: bs) = npfPutcCnt pc b >>= fun _ => putAll pc bs := rfl

lemma putAll_append (bs cs : List UInt8) :
    putAll pc (bs ++ cs) = putAll pc bs >>= fun _ => putAll pc cs :=
  List.forM_append

lemma putAll_singleton (b : UInt8) : putAll pc [b] = npfPutcCnt pc b := by
  rw [putAll_cons, putAll_nil]
  exact bind_pure_unit

/-- Bytes arrive in the context in turn, unless there are too many. -/
lemma putAll_apply (bs : List UInt8) {s : NpfCntPutcCtx σ} (hs : s.n ≤ intMax) :
    putAll pc bs s = if s.n + bs.length ≤ intMax then
      some ((), ⟨bs.foldl (fun c b => pc b c) s.ctx, s.n + bs.length⟩) else none := by
  induction bs generalizing s with
  | nil =>
    rw [List.length_nil, Nat.add_zero, if_pos hs]
    rfl
  | cons b bs ih =>
    have hput : putAll pc (b :: bs) s = (npfPutcCnt pc b s).bind fun r => putAll pc bs r.2 := rfl
    rw [hput, npfPutcCnt, List.length_cons]
    by_cases hn : s.n < intMax
    · rw [if_pos hn, Option.bind_some, ih (by exact hn)]
      simp only [List.foldl_cons]
      rw [Nat.add_right_comm, Nat.add_assoc]
    · rw [if_neg hn, if_neg (by omega)]
      rfl

lemma npfPad_eq (c : UInt8) (pad : ℕ) : npfPad pc c pad = putAll pc (List.replicate pad c) := by
  induction pad with
  | zero => rfl
  | succ pad ih => rw [npfPad, ih, List.replicate_succ, putAll_cons]

lemma npfPutAt_of_lt {cbuf : List UInt8} {i : ℕ} (h : i < cbuf.length) :
    npfPutAt pc cbuf i = npfPutcCnt pc (cbuf.get ⟨i, h⟩) := by
  rw [npfPutAt, List.getElem?_eq_getElem h]
  rfl

lemma npfPutString_eq {cbuf : List UInt8} {i todo : ℕ} (h : i + todo ≤ cbuf.length) :
    npfPutString pc cbuf i todo = putAll pc ((cbuf.drop i).take todo) := by
  induction todo generalizing i with
  | zero =>
    rw [List.take_zero]
    rfl
  | succ todo ih =>
    rw [npfPutString, npfPutAt_of_lt pc (by omega), ih (by omega),
      List.drop_eq_getElem_cons (by omega : i < cbuf.length), List.take_succ_cons, putAll_cons]
    rfl

lemma npfPutReversed_eq {cbuf : List UInt8} {len : ℕ} (h : len ≤ cbuf.length) :
    npfPutReversed pc cbuf len = putAll pc (cbuf.take len).reverse := by
  induction len with
  | zero =>
    rw [List.take_zero]
    rfl
  | succ len ih =>
    rw [npfPutReversed, npfPutAt_of_lt pc h, ih (by omega), List.take_succ_eq_append_getElem h,
      List.reverse_append, List.reverse_singleton, List.singleton_append, putAll_cons]
    rfl

/-- The character of bit `i`. -/
def bitByte (u : BitVec 64) (i : ℕ) : UInt8 :=
  ch '0' + UInt8.ofBitVec ((u >>> i &&& 1).setWidth 8)

/-- The lowest `len` bits of a number, the highest of them first. -/
def binaryText (u : BitVec 64) (len : ℕ) : List UInt8 := ((List.range len).map (bitByte u)).reverse

lemma length_binaryText (u : BitVec 64) (len : ℕ) : (binaryText u len).length = len := by
  simp [binaryText]

lemma npfPutBinary_eq (u : BitVec 64) (len : ℕ) :
    npfPutBinary pc u len = putAll pc (binaryText u len) := by
  induction len with
  | zero => rfl
  | succ len ih =>
    rw [npfPutBinary, ih, binaryText, binaryText, List.range_succ, List.map_append,
      List.reverse_append]
    rfl

/-! ### The layout of a converted field -/

namespace NpfField

/-- What every conversion leaves behind. -/
structure WellFormed (field : NpfField) : Prop where
  /-- The payload is in the buffer. -/
  fits : field.fs.convSpec ≠ .binary → field.cbufLen ≤ field.cbuf.length
  /-- A string has neither a sign nor a prefix. -/
  plain : field.fs.convSpec = .string → field.signC = 0 ∧ field.need0x = 0
  /-- There is not both a sign and a prefix. -/
  sign_or_prefix : field.signC = 0 ∨ field.need0x = 0
  width_nonneg : 0 ≤ field.fs.fieldWidth

/-- The payload. -/
def text (field : NpfField) : List UInt8 :=
  if field.fs.convSpec = .string then field.cbuf.take field.cbufLen
  else if field.fs.convSpec = .binary then binaryText field.binval field.cbufLen
  else (field.cbuf.take field.cbufLen).reverse

/-- The sign, if there is one. -/
def sign (field : NpfField) : List UInt8 := if field.signC ≠ 0 then [field.signC] else []

/-- The prefix, if there is one. -/
def pre (field : NpfField) : List UInt8 :=
  if field.need0x ≠ 0 then [ch '0', field.need0x] else []

/-- The number of zeros that the precision asks for. -/
def precZeros (field : NpfField) : ℕ :=
  if field.fs.convSpec ≠ .string then (field.fs.prec - field.cbufLen).toNat else 0

/-- The layout of the field. -/
def layout (field : NpfField) : Layout where
  head := field.sign ++ field.pre
  body := List.replicate field.precZeros (ch '0') ++ field.text
  width := field.fs.fieldWidth.toNat
  fill :=
    if npfPadC field = 0 then .none
    else if field.fs.leftJustified = true then .behind (npfPadC field)
    else if npfPadC field = ch '0' then .between
    else .before

/-- No difference that is computed for the field overflows. -/
structure InRange (field : NpfField) : Prop where
  prec : field.fs.convSpec ≠ .string → -(2 ^ 31) ≤ field.fs.prec - field.cbufLen ∧
    field.fs.prec - field.cbufLen < 2 ^ 31
  pad : -(2 ^ 31) ≤ field.fs.fieldWidth - field.cbufLen - (field.sign ++ field.pre).length -
      field.precZeros ∧
    field.fs.fieldWidth - field.cbufLen - (field.sign ++ field.pre).length - field.precZeros < 2 ^ 31

variable {field : NpfField}

/-- The payload that `npf_utoa_rev` has left in the buffer. -/
lemma text_of_digits (hstring : field.fs.convSpec ≠ .string) (hbinary : field.fs.convSpec ≠ .binary)
    (hlen : field.cbufLen = field.cbuf.length) : field.text = field.cbuf.reverse := by
  rw [text, if_neg hstring, if_neg hbinary, hlen, List.take_length]

lemma length_text (h : field.WellFormed) : field.text.length = field.cbufLen := by
  rw [text]
  split
  · next hstring =>
    have hfits := h.fits (by rw [hstring]; decide)
    rw [List.length_take, min_eq_left hfits]
  · split
    · exact length_binaryText _ _
    · next hbinary =>
      rw [List.length_reverse, List.length_take, min_eq_left (h.fits hbinary)]

/-- The character that fills the field is a zero or a blank. -/
lemma npfPadC_cases (field : NpfField) :
    npfPadC field = 0 ∨ npfPadC field = ch '0' ∨ npfPadC field = ch ' ' := by
  unfold npfPadC
  split_ifs <;> simp

lemma npfPut0x_eq (field : NpfField) : npfPut0x pc field.need0x = putAll pc field.pre := by
  rw [npfPut0x, pre]
  split
  · rw [putAll_cons, putAll_singleton]
  · rfl

lemma npfPutSign_eq (field : NpfField) : npfPutSign pc field.signC = putAll pc field.sign := by
  rw [npfPutSign, sign]
  split
  · rw [putAll_singleton]
  · rfl

/-- The payload and the zeros in front of it, with a sign if it has not been put out. -/
lemma npfPutPayload_eq (h : field.WellFormed) {signC : UInt8} {sign : List UInt8}
    (hsign : npfPutSign pc signC = putAll pc sign) (hplain : field.fs.convSpec = .string → sign = []) :
    npfPutPayload pc field signC field.precZeros =
      putAll pc (sign ++ (List.replicate field.precZeros (ch '0') ++ field.text)) := by
  rw [npfPutPayload]
  by_cases hstring : field.fs.convSpec = .string
  · have hfits := h.fits (by rw [hstring]; decide)
    have hzeros : field.precZeros = 0 := if_neg (not_not.mpr hstring)
    rw [if_pos hstring, hplain hstring, hzeros, text, if_pos hstring, npfPutString_eq pc (by omega)]
    rfl
  · rw [if_neg hstring, putAll_append, putAll_append, hsign, npfPad_eq, text, if_neg hstring]
    by_cases hbinary : field.fs.convSpec = .binary
    · rw [if_pos hbinary, if_pos hbinary, npfPutBinary_eq]
    · rw [if_neg hbinary, if_neg hbinary, npfPutReversed_eq pc (h.fits hbinary)]

lemma intOf_of_range {z : ℤ} (h : -(2 ^ 31) ≤ z ∧ z < 2 ^ 31) : intOf z = some z := if_pos h

lemma npfPrecPad_eq (h : field.InRange) : npfPrecPad field = some (field.precZeros : ℤ) := by
  unfold npfPrecPad precZeros
  by_cases hstring : field.fs.convSpec = .string
  · rw [if_neg (not_not.mpr hstring), if_neg (not_not.mpr hstring)]
    rfl
  · rw [if_pos hstring, if_pos hstring, intOf_of_range (h.prec hstring)]
    change some (max 0 _) = _
    rw [Int.toNat_eq_max, max_comm]

/-- The difference that is computed for the fill, in terms of the layout. -/
lemma pad_eq (field : NpfField) :
    field.fs.fieldWidth - field.cbufLen - (field.sign ++ field.pre).length - field.precZeros =
      (if field.need0x ≠ 0 then
        field.fs.fieldWidth - field.cbufLen - (if field.signC ≠ 0 then 1 else 0) - 2
      else field.fs.fieldWidth - field.cbufLen - (if field.signC ≠ 0 then 1 else 0)) -
        (field.precZeros : ℤ) := by
  have hsign : (field.sign.length : ℤ) = if field.signC ≠ 0 then 1 else 0 := by
    rw [sign]
    split <;> rfl
  have hpre : (field.pre.length : ℤ) = if field.need0x ≠ 0 then 2 else 0 := by
    rw [pre]
    split <;> rfl
  rw [List.length_append, Nat.cast_add, hsign, hpre]
  by_cases h : field.need0x ≠ 0
  · rw [if_pos h, if_pos h]
    ring
  · rw [if_neg h, if_neg h]
    ring

lemma npfFieldPad_eq (hwf : field.WellFormed) (h : field.InRange) :
    npfFieldPad field field.precZeros = some (field.layout.missing : ℤ) := by
  have hmissing : (field.layout.missing : ℤ) = max 0 (field.fs.fieldWidth - field.cbufLen -
      (field.sign ++ field.pre).length - field.precZeros) := by
    have hwidth := hwf.width_nonneg
    rw [Layout.missing, layout, List.length_append, List.length_append, List.length_replicate,
      length_text hwf]
    push_cast [List.length_append]
    omega
  unfold npfFieldPad
  dsimp only
  rw [← pad_eq, intOf_of_range h.pad, hmissing]
  rfl

/-- When no difference overflows, the bytes of the layout are put out. -/
theorem npfPutField_eq (hwf : field.WellFormed) (h : field.InRange) :
    npfPutField pc field = putAll pc field.layout.bytes := by
  have hplain : field.fs.convSpec = .string → field.sign = [] := by
    intro hstring
    rw [sign, (hwf.plain hstring).1]
    rfl
  have hsigned := npfPutPayload_eq pc hwf (npfPutSign_eq pc field) hplain
  have hunsigned : npfPutPayload pc field 0 field.precZeros =
      putAll pc ([] ++ (List.replicate field.precZeros (ch '0') ++ field.text)) :=
    npfPutPayload_eq pc hwf rfl fun _ => rfl
  -- the source writes the prefix before the sign here, but there is at most one of them
  have hhead : field.pre ++ field.sign = field.sign ++ field.pre := by
    rcases hwf.sign_or_prefix with hsign | hpre
    · simp [sign, hsign]
    · simp [pre, hpre]
  have hlift : ∀ z : ℤ, (liftM (some z) : Put σ ℤ) = pure z := fun z => rfl
  simp only [npfPutField, npfPrecPad_eq h, npfFieldPad_eq hwf h, hlift, pure_bind,
    Int.toNat_natCast, npfPutSign_eq, npfPut0x_eq, npfPad_eq, hsigned, hunsigned]
  by_cases hpad : npfPadC field = 0
  · have hbytes : field.layout.bytes = field.layout.head ++ field.layout.body := by
      rw [Layout.bytes, layout, if_pos hpad]
    rw [if_neg fun h => h.2 hpad, if_neg fun h => h.2 hpad, bind_pure_unit, ← putAll_append, hbytes]
    simp only [layout, ← List.append_assoc, hhead]
  by_cases hleft : field.fs.leftJustified = true
  · have hbytes : field.layout.bytes = field.layout.head ++ field.layout.body ++
        List.replicate field.layout.missing (npfPadC field) := by
      rw [Layout.bytes, layout, if_neg hpad, if_pos hleft]
    rw [if_neg (by simp [hleft]), if_pos ⟨hleft, hpad⟩, ← putAll_append, ← putAll_append, hbytes]
    simp only [layout, ← List.append_assoc, hhead]
  rw [if_pos ⟨by simpa using hleft, hpad⟩]
  by_cases hzero : npfPadC field = ch '0'
  · have hbytes : field.layout.bytes = field.layout.head ++
        (List.replicate field.layout.missing (ch '0') ++ field.layout.body) := by
      rw [Layout.bytes, layout, if_neg hpad, if_neg hleft, if_pos hzero]
    rw [if_pos hzero, ← putAll_append, ← putAll_append, ← putAll_append, hbytes, hzero]
    simp only [layout, List.append_assoc, List.nil_append]
  · have hbytes : field.layout.bytes = List.replicate field.layout.missing (ch ' ') ++
        (field.layout.head ++ field.layout.body) := by
      rw [Layout.bytes, layout, if_neg hpad, if_neg hleft, if_neg hzero]
    have hblank := ((npfPadC_cases field).resolve_left hpad).resolve_left hzero
    rw [if_neg hzero, ← putAll_append, ← putAll_append, hbytes, hblank]
    congr 2
    simp only [layout, ← List.append_assoc, hhead]

end NpfField

end Soaplin
