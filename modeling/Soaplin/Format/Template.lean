import Soaplin.Format.Buffer
import Soaplin.Format.ReadBack

/-!
# Templates

The format strings of the kernel are made of text, `%s`, `%d`, `%p` and `%%`.  A template is such a
format together with its arguments.  What it prints is the text with the arguments in place
(`prints_template`), however long it is and however many arguments it has.
-/

namespace Soaplin

variable {rest text : List UInt8} {args : List VaArg} {out : List UInt8} {a : VaArg}

/-- Text stands for itself. -/
lemma FormatPrints.append_text (hnul : 0 ∉ text) (hpercent : ch '%' ∉ text)
    (h : FormatPrints rest args out) : FormatPrints (text ++ rest) args (text ++ out) := by
  induction text with
  | nil => exact h
  | cons b text ih =>
    rw [List.mem_cons, not_or] at hnul hpercent
    exact .byte (Ne.symm hnul.1) (fun hb => absurd hb.symm hpercent.1) (ih hnul.2 hpercent.2)

lemma plainDirective_fits (letter : Letter) : (plainDirective letter).Fits := by
  constructor <;> exact Nat.zero_le _

/-- A field without width is its head and its body. -/
lemma layout_bytes_of_no_width {field : NpfField} (h : field.fs.fieldWidthOpt = .none) :
    field.layout.bytes = field.sign ++ field.pre ++
      (List.replicate field.precZeros (ch '0') ++ field.text) := by
  have hpad : npfPadC field = 0 := by
    unfold npfPadC
    rw [if_neg (not_not.mpr h)]
  rw [Layout.bytes, NpfField.layout, if_pos hpad]

/-! ### Strings -/

/-- The text of a string. -/
lemma cText_eq_some_iff {str : List UInt8} :
    cText str = some text ↔ 0 ∉ text ∧ ∃ rest, str = text ++ 0 :: rest := by
  constructor
  · intro h
    induction str generalizing text with
    | nil => cases h
    | cons b str ih =>
      rw [cText] at h
      split at h
      · next hb =>
        cases h
        exact ⟨by simp, str, by rw [hb]; rfl⟩
      · next hb =>
        obtain ⟨text', htext, rfl⟩ := Option.map_eq_some_iff.mp h
        obtain ⟨hnul, rest, rfl⟩ := ih htext
        exact ⟨List.not_mem_cons_of_ne_of_not_mem (Ne.symm hb) hnul, rest, rfl⟩
  · rintro ⟨hnul, rest, rfl⟩
    exact cText_append_nul hnul

/-- Without a precision the length of a string is that of its text. -/
lemma npfStringLen_text {fs : NpfFormatSpec} (hprec : fs.precOpt = .none) (hnul : 0 ∉ text) {len : ℕ}
    (hlen : len + text.length ≤ intMax) :
    npfStringLen fs len (text ++ 0 :: rest) = some (len + text.length) := by
  induction text generalizing len with
  | nil =>
    rw [List.nil_append, npfStringLen, if_neg (by simp)]
    rfl
  | cons b text ih =>
    rw [List.mem_cons, not_or] at hnul
    rw [List.length_cons] at hlen ⊢
    rw [List.cons_append, npfStringLen, if_pos ⟨.inl hprec, Ne.symm hnul.1⟩, if_pos (by omega),
      ih hnul.2 (by omega), Nat.add_right_comm, Nat.add_assoc]

/-- The conversion of a string. -/
lemma npfConvert_string {fs : NpfFormatSpec} (hconv : fs.convSpec = .string) {len : ℕ}
    (hlen : npfStringLen fs 0 a.bytes = some len) :
    npfConvert fs (a :: args) =
      some ({ NpfField.start fs with cbuf := a.bytes, cbufLen := len }, args) := by
  unfold npfConvert
  rw [hconv]
  change ((npfStringLen fs 0 a.bytes).bind fun len => some (len, args)).bind _ = _
  rw [hlen]
  rfl

/-- `%s`. -/
lemma FormatPrints.str (htext : cText a.bytes = some text) (hlen : text.length ≤ intMax)
    (h : FormatPrints rest args out) :
    FormatPrints (ch '%' :: ch 's' :: rest) (a :: args) (text ++ out) := by
  obtain ⟨hnul, tail, hbytes⟩ := cText_eq_some_iff.mp htext
  have hlength : npfStringLen (plainDirective .s).spec 0 a.bytes = some text.length := by
    rw [hbytes, npfStringLen_text rfl hnul (by omega), Nat.zero_add]
  let field : NpfField := { NpfField.start (plainDirective .s).spec with
    cbuf := a.bytes, cbufLen := text.length }
  have htake : npfTakeField (plainDirective .s).spec (a :: args) = some (field, args) :=
    (npfTakeField_of_no_star (by decide) (by decide)).trans (npfConvert_string rfl hlength)
  have htaken : field.text = text := by
    change a.bytes.take text.length = text
    rw [hbytes, List.take_left]
  have hrange : field.InRange := by
    refine ⟨fun hstring => absurd rfl hstring, ?_⟩
    change -(2 ^ 31) ≤ (0 : ℤ) - text.length - 0 - 0 ∧ (0 : ℤ) - text.length - 0 - 0 < 2 ^ 31
    unfold intMax at hlen
    omega
  have hbytes' : field.layout.bytes = text := by
    rw [layout_bytes_of_no_width rfl, htaken]
    rfl
  have hprints := FormatPrints.field (plainDirective_fits .s) htake hrange h
  rwa [hbytes'] at hprints

/-! ### Numbers -/

/-- The text of a natural number to the base `base`. -/
def natText (base n : ℕ) : List UInt8 :=
  if n = 0 then [ch '0'] else (Nat.digits base n).reverse.map (npfGlyph (ch 'a' - ch 'A'))

/-- The decimal text of an integer. -/
def intText (z : ℤ) : List UInt8 := (if z < 0 then [ch '-'] else []) ++ natText 10 z.natAbs

/-- The text of a pointer. -/
def pointerText (w : BitVec 64) : List UInt8 := [ch '0', ch 'x'] ++ natText 16 w.toNat

/-- What `npf_utoa_rev` has written for a number. -/
lemma reverse_npfUtoaRev {base : ℕ} (hbase : 1 < base) (n : ℕ) :
    (npfUtoaRev n base hbase (ch 'a' - ch 'A')).reverse = natText base n := by
  rw [npfUtoaRev_eq, natText]
  split
  · rfl
  · rw [List.map_reverse]

/-- A number without width and precision is put out as it is. -/
lemma NpfField.plain_number (field : NpfField) (hopt : field.fs.fieldWidthOpt = .none)
    (hwidth : field.fs.fieldWidth = 0) (hprec : field.fs.prec = 0) (hlen : field.cbufLen ≤ 64) :
    field.InRange ∧ field.layout.bytes = field.sign ++ field.pre ++ field.text := by
  have hzeros : field.precZeros = 0 := by
    rw [NpfField.precZeros, hprec]
    split
    · omega
    · rfl
  have hhead : (field.sign ++ field.pre).length ≤ 3 := by
    rw [NpfField.sign, NpfField.pre, List.length_append]
    split <;> split <;> simp
  refine ⟨⟨fun _ => ?_, ?_⟩, ?_⟩
  · rw [hprec]
    omega
  · rw [hwidth, hzeros]
    omega
  · rw [layout_bytes_of_no_width hopt, hzeros, List.replicate_zero, List.nil_append]

/-- The field of a plain `%d`. -/
lemma npfSigned_plain {v : ℤ} (hv : -(2 ^ 63) ≤ v ∧ v < 2 ^ 63) :
    (npfSigned (plainDirective .d).spec v).InRange ∧
      (npfSigned (plainDirective .d).spec v).layout.bytes = intText v := by
  have hcbuf : (npfSigned (plainDirective .d).spec v).cbuf =
      npfUtoaRev v.natAbs 10 (by decide) (ch 'a' - ch 'A') := by
    have hskip : ¬ (v = 0 ∧ (plainDirective .d).spec.SkipsZero) := fun h => h.2.1 rfl
    change (if v = 0 ∧ (plainDirective .d).spec.SkipsZero then [] else npfUtoaRev
      (if v < 0 then 0 - BitVec.ofInt 64 v else BitVec.ofInt 64 v).toNat 10 _ _) = _
    rw [if_neg hskip, toNat_uval hv]
    rfl
  have hlen : (npfSigned (plainDirective .d).spec v).cbufLen ≤ 64 := by
    change (npfSigned (plainDirective .d).spec v).cbuf.length ≤ 64
    rw [hcbuf]
    exact length_npfUtoaRev_le _ (by decide) (by omega)
  have htext : (npfSigned (plainDirective .d).spec v).text = natText 10 v.natAbs := by
    have hconv : (npfSigned (plainDirective .d).spec v).fs.convSpec = .signedInt := rfl
    rw [NpfField.text_of_digits (by rw [hconv]; decide) (by rw [hconv]; decide) rfl, hcbuf,
      reverse_npfUtoaRev]
  have hsign : (npfSigned (plainDirective .d).spec v).sign = if v < 0 then [ch '-'] else [] := by
    change (if (if v < 0 then ch '-' else 0) ≠ 0 then [if v < 0 then ch '-' else 0] else []) = _
    by_cases hneg : v < 0
    · simp only [if_pos hneg]
      rfl
    · simp only [if_neg hneg]
      rfl
  obtain ⟨hrange, hbytes⟩ := NpfField.plain_number (npfSigned (plainDirective .d).spec v)
    rfl rfl rfl hlen
  refine ⟨hrange, ?_⟩
  rw [hbytes, htext, hsign, intText]
  simp [NpfField.pre, npfSigned, NpfField.start]

/-- `%d`. -/
lemma FormatPrints.int (h : FormatPrints rest args out) :
    FormatPrints (ch '%' :: ch 'd' :: rest) (a :: args) (intText a.int ++ out) := by
  have htake : npfTakeField (plainDirective .d).spec (a :: args) =
      some (npfSigned (plainDirective .d).spec a.int, args) := by
    rw [npfTakeField_of_no_star (by decide) (by decide)]
    rfl
  obtain ⟨hrange, hbytes⟩ := npfSigned_plain (v := a.int) (toInt_range (by decide) _)
  rw [← hbytes]
  exact .field (plainDirective_fits .d) htake hrange h

/-- `%p`. -/
lemma FormatPrints.pointer (h : FormatPrints rest args out) :
    FormatPrints (ch '%' :: ch 'p' :: rest) (a :: args) (pointerText a.word ++ out) := by
  let field := npfPointer (plainDirective .p).spec a.word
  have htake : npfTakeField (plainDirective .p).spec (a :: args) = some (field, args) := by
    rw [npfTakeField_of_no_star (by decide) (by decide)]
    rfl
  have hlen : field.cbufLen ≤ 64 :=
    length_npfUtoaRev_le _ (by decide) (a.word.isLt.trans_le (by decide))
  have htext : field.text = natText 16 a.word.toNat := by
    have hconv : field.fs.convSpec = .pointer := rfl
    rw [NpfField.text_of_digits (by rw [hconv]; decide) (by rw [hconv]; decide) rfl]
    exact reverse_npfUtoaRev _ _
  obtain ⟨hrange, hbytes⟩ := NpfField.plain_number field rfl rfl rfl hlen
  have hpointer : field.layout.bytes = pointerText a.word := by
    rw [hbytes, htext]
    rfl
  rw [← hpointer]
  exact .field (plainDirective_fits .p) htake hrange h

/-- `%%`. -/
lemma FormatPrints.percent (h : FormatPrints rest args out) :
    FormatPrints (ch '%' :: ch '%' :: rest) args (ch '%' :: out) := by
  let field : NpfField := { NpfField.start (plainDirective .percent).spec with
    cbuf := [ch '%'], cbufLen := 1 }
  have htake : npfTakeField (plainDirective .percent).spec args = some (field, args) :=
    (npfTakeField_of_no_star (by decide) (by decide)).trans rfl
  have hrange : field.InRange := ⟨fun _ => by decide, by decide⟩
  exact .field (plainDirective_fits .percent) htake hrange h

/-! ### Templates -/

/-- A piece of a format, with its argument. -/
inductive TemplateItem
  | text (bytes : List UInt8) (hnul : 0 ∉ bytes) (hpercent : ch '%' ∉ bytes)
  | str (text : List UInt8) (hnul : 0 ∉ text) (hlen : text.length ≤ intMax)
  | int (n : ℤ)
  | pointer (w : BitVec 64)
  | percent

namespace TemplateItem

/-- The piece of the format. -/
def format : TemplateItem → List UInt8
  | .text bytes _ _ => bytes
  | .str _ _ _ => [ch '%', ch 's']
  | .int _ => [ch '%', ch 'd']
  | .pointer _ => [ch '%', ch 'p']
  | .percent => [ch '%', ch '%']

/-- What is printed for it. -/
def output : TemplateItem → List UInt8
  | .text bytes _ _ => bytes
  | .str text _ _ => text
  | .int n => intText (BitVec.ofInt 32 n).toInt
  | .pointer w => pointerText w
  | .percent => [ch '%']

/-- Its argument is as it should be. -/
def Takes : TemplateItem → List VaArg → Prop
  | .str text _ _, args => ∃ a, args = [a] ∧ cText a.bytes = some text
  | .int n, args => ∃ a, args = [a] ∧ a.word.setWidth 32 = BitVec.ofInt 32 n
  | .pointer w, args => ∃ a, args = [a] ∧ a.word = w
  | _, args => args = []

end TemplateItem

/-- The arguments of a template. -/
inductive TemplateArgs : List TemplateItem → List VaArg → Prop
  | nil : TemplateArgs [] []
  | cons {item : TemplateItem} {items : List TemplateItem} {as args : List VaArg}
      (hitem : item.Takes as) (hitems : TemplateArgs items args) :
      TemplateArgs (item :: items) (as ++ args)

/-- A piece without an argument. -/
lemma TemplateArgs.noArg {bytes : List UInt8} {items : List TemplateItem} {hnul : 0 ∉ bytes}
    {hpercent : ch '%' ∉ bytes} (h : TemplateArgs items args) :
    TemplateArgs (.text bytes hnul hpercent :: items) args := by
  have htakes : (TemplateItem.text bytes hnul hpercent).Takes [] := rfl
  exact .cons htakes h

/-- A piece with an argument. -/
lemma TemplateArgs.arg {item : TemplateItem} {items : List TemplateItem} (htakes : item.Takes [a])
    (h : TemplateArgs items args) : TemplateArgs (item :: items) (a :: args) :=
  .cons htakes h

/-- The format of a template, with the bytes behind it, prints the output of the template. -/
theorem prints_template {items : List TemplateItem} (h : TemplateArgs items args)
    (rest : List UInt8) :
    FormatPrints (items.flatMap TemplateItem.format ++ 0 :: rest) args
      (items.flatMap TemplateItem.output) := by
  induction h with
  | nil => exact .done rest []
  | @cons item items as args hitem _ ih =>
    rw [List.flatMap_cons, List.flatMap_cons, List.append_assoc]
    cases item with
    | text bytes hnul hpercent =>
      cases hitem
      exact ih.append_text hnul hpercent
    | str text hnul hlen =>
      obtain ⟨a, rfl, htext⟩ := hitem
      exact ih.str htext hlen
    | int n =>
      obtain ⟨a, rfl, hword⟩ := hitem
      have hint : a.int = (BitVec.ofInt 32 n).toInt := congrArg BitVec.toInt hword
      rw [TemplateItem.output, ← hint]
      exact ih.int
    | pointer w =>
      obtain ⟨a, rfl, rfl⟩ := hitem
      exact ih.pointer
    | percent =>
      cases hitem
      exact ih.percent

/-- `%d%%` with the argument 7. -/
example : FormatPrints ([.int 7, .percent].flatMap TemplateItem.format ++ [0]) [⟨7, []⟩]
    ([.int 7, .percent].flatMap TemplateItem.output) := by
  have hint : (TemplateItem.int 7).Takes [⟨7, []⟩] := ⟨_, rfl, rfl⟩
  have hpercent : TemplateItem.percent.Takes [] := rfl
  exact prints_template (.arg hint (.cons hpercent .nil)) []

end Soaplin
