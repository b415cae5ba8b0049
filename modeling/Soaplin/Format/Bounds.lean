import Soaplin.Format.Buffer
import Soaplin.Format.ReadBack

/-!
# What a field takes up

The conversion buffer is an array of 23 bytes, which `npf_utoa_rev` fills without looking at its size.
It is never too small, and no smaller one would do (`conversion_buffer_exact`).  In the output a
directive takes up at least its width, but for `%c` and `%%` with the flag `0`, which are not filled at
all (`width_honoured_iff`).
-/

namespace Soaplin

variable {fs : NpfFormatSpec} {field : NpfField} {args args' : List VaArg}

/-! ### The conversion buffer -/

lemma length_utoaRev_npfBase_le (fs : NpfFormatSpec) (v : BitVec 64) :
    (npfUtoaRev v.toNat (npfBase fs.convSpec) (one_lt_npfBase _) fs.caseAdjust).length ≤ 22 := by
  refine length_npfUtoaRev_le _ (by decide) (v.isLt.trans_le ?_)
  unfold npfBase
  split
  · decide
  · split <;> decide

/-- The digits of a signed number fit. -/
lemma length_cbuf_npfSigned_le {val : ℤ} (hval : -(2 ^ 63) ≤ val ∧ val < 2 ^ 63) :
    (npfSigned fs val).cbuf.length ≤ npfConversionBufferSize := by
  change (if val = 0 ∧ fs.SkipsZero then [] else npfUtoaRev
    (if val < 0 then 0 - BitVec.ofInt 64 val else BitVec.ofInt 64 val).toNat 10 _ _).length ≤ 23
  split
  · exact Nat.zero_le _
  · rw [toNat_uval hval]
    exact length_npfUtoaRev_le _ (by decide) (by omega)

/-- The digits of an unsigned number fit, also with the zero in front of the octal form. -/
lemma length_cbuf_npfUnsigned_le (fs : NpfFormatSpec) (val : BitVec 64) :
    (npfUnsigned fs val).cbuf.length ≤ npfConversionBufferSize := by
  have hdigits := length_utoaRev_npfBase_le fs val
  unfold npfUnsigned npfConversionBufferSize
  dsimp only
  split
  · split <;> exact Nat.zero_le _
  · split
    · exact Nat.zero_le _
    · dsimp only
      split
      · rw [List.length_append, List.length_singleton]
        omega
      · omega

/-- No conversion but that of a string, which is not copied, leaves more in the conversion buffer than
fits into it. -/
lemma length_cbuf_npfConvert_le (h : npfConvert fs args = some (field, args'))
    (hstring : fs.convSpec ≠ .string) : field.cbuf.length ≤ npfConversionBufferSize := by
  obtain ⟨conv, hconv⟩ : ∃ conv, fs.convSpec = conv := ⟨_, rfl⟩
  unfold npfConvert at h
  rw [hconv] at h hstring
  cases conv with
  | none =>
    cases h
    exact Nat.zero_le _
  | percent =>
    cases h
    exact (by decide : 1 ≤ npfConversionBufferSize)
  | string => exact absurd rfl hstring
  | char =>
    obtain ⟨⟨a, args₁⟩, -, hret⟩ := Option.bind_eq_some_iff.mp h
    cases hret
    exact (by decide : 1 ≤ npfConversionBufferSize)
  | signedInt =>
    obtain ⟨⟨a, args₁⟩, -, hret⟩ := Option.bind_eq_some_iff.mp h
    cases hret
    exact length_cbuf_npfSigned_le (npfExtractSigned_range _ _)
  | pointer =>
    obtain ⟨⟨a, args₁⟩, -, hret⟩ := Option.bind_eq_some_iff.mp h
    cases hret
    exact length_npfUtoaRev_le _ (by decide) (a.word.isLt.trans_le (by decide))
  | binary | octal | hexInt | unsignedInt =>
    obtain ⟨⟨a, args₁⟩, -, hret⟩ := Option.bind_eq_some_iff.mp h
    cases hret
    exact length_cbuf_npfUnsigned_le fs _

/-- The octal directive with the flag `#` and the largest modifier. -/
def octalDirective : Directive := ⟨[.hash], .none, .none, .ll, .o, Width.none_ne_literal⟩

/-- The conversion buffer is as large as it has to be: no directive but `%s` leaves more than
`NANOPRINTF_CONVERSION_BUFFER_SIZE` bytes in it, and one fills it to the last byte. -/
theorem conversion_buffer_exact :
    (∀ (d : Directive) (args : List VaArg) (field : NpfField) (args' : List VaArg),
      npfTakeField d.spec args = some (field, args') → d.letter ≠ .s →
        field.cbuf.length ≤ npfConversionBufferSize) ∧
    ∃ (d : Directive) (args : List VaArg) (field : NpfField) (args' : List VaArg),
      npfTakeField d.spec args = some (field, args') ∧ d.letter ≠ .s ∧
        field.cbuf.length = npfConversionBufferSize := by
  constructor
  · intro d args field args' htake hletter
    obtain ⟨fs', stars, args₁, hstarred, hconv, -⟩ :=
      npfTakeField_some (directive_width_nonneg d) htake
    refine length_cbuf_npfConvert_le hconv ?_
    rw [hstarred.eq]
    change d.letter.conv ≠ .string
    revert hletter
    cases d.letter <;> decide
  · refine ⟨octalDirective, [⟨BitVec.allOnes 64, []⟩],
      npfUnsigned octalDirective.spec (BitVec.allOnes 64), [], ?_, by decide, by decide +kernel⟩
    rw [npfTakeField_of_no_star (by decide) (by decide)]
    rfl

/-! ### The width -/

/-- The directive is not filled although it has a width. -/
def Directive.Unfilled (d : Directive) : Prop :=
  .zero ∈ d.flags ∧ .minus ∉ d.flags ∧ (d.letter = .c ∨ d.letter = .percent)

/-- The largest width that a directive can have. -/
def Directive.maxWidth (d : Directive) : ℕ :=
  match d.width with
  | .star => intMax
  | width => width.value

variable {d : Directive}

/-- There is no fill without a width, and none with zeros around a character. -/
lemma npfPadC_eq_zero (h : npfPadC field = 0) : field.fs.fieldWidthOpt = .none ∨
    (field.fs.leadingZeroPad = true ∧ (field.fs.convSpec = .string ∨ field.fs.convSpec = .char ∨
      field.fs.convSpec = .percent)) := by
  unfold npfPadC at h
  by_cases hopt : field.fs.fieldWidthOpt = .none
  · exact .inl hopt
  rw [if_pos hopt] at h
  by_cases hpad : field.fs.leadingZeroPad = true
  · rw [if_pos hpad] at h
    by_cases hconv : field.fs.convSpec ≠ .string ∧ field.fs.convSpec ≠ .char ∧
        field.fs.convSpec ≠ .percent
    · rw [if_pos hconv] at h
      split at h
      · exact absurd h (by decide)
      · exact absurd h (by decide)
    · exact .inr ⟨hpad, by tauto⟩
  · rw [if_neg hpad] at h
    exact absurd h (by decide)

/-- A field that is filled is as wide as its width. -/
lemma width_le_of_filled (h : npfPadC field ≠ 0) :
    field.fs.fieldWidth.toNat ≤ field.layout.bytes.length := by
  have hlen := field.layout.length_bytes
  have hfill : field.layout.fill ≠ .none := by
    unfold NpfField.layout
    dsimp only
    rw [if_neg h]
    split_ifs <;> simp
  cases hcase : field.layout.fill with
  | none => exact absurd hcase hfill
  | before | between | behind c =>
    rw [hcase] at hlen
    exact hlen ▸ le_max_left _ _

/-- The field of a single byte. -/
def byteField (fs : NpfFormatSpec) (b : UInt8) : NpfField :=
  { NpfField.start fs with cbuf := [b], cbufLen := 1 }

/-- `%c` and `%%` have such a field. -/
lemma npfConvert_byte (hconv : fs.convSpec = .char ∨ fs.convSpec = .percent)
    (h : npfConvert fs args = some (field, args')) : ∃ b, field = byteField fs b := by
  unfold npfConvert at h
  rcases hconv with hconv | hconv
  · rw [hconv] at h
    obtain ⟨⟨a, args₁⟩, -, hret⟩ := Option.bind_eq_some_iff.mp h
    cases hret
    exact ⟨_, rfl⟩
  · rw [hconv] at h
    cases h
    exact ⟨_, rfl⟩

/-- They always find one. -/
lemma exists_npfConvert_byte (fs : NpfFormatSpec)
    (hconv : fs.convSpec = .char ∨ fs.convSpec = .percent) (a : VaArg) (args : List VaArg) :
    ∃ b args', npfConvert fs (a :: args) = some (byteField fs b, args') := by
  unfold npfConvert
  rcases hconv with hconv | hconv
  · rw [hconv]
    exact ⟨_, _, rfl⟩
  · rw [hconv]
    exact ⟨_, _, rfl⟩

/-- A byte that is not filled is put out alone, with the zeros that the precision asks for. -/
lemma length_byteField (fs : NpfFormatSpec)
    (hconv : fs.convSpec = .char ∨ fs.convSpec = .percent) (hpad : fs.leadingZeroPad = true) (b : UInt8) :
    (byteField fs b).layout.bytes.length = max 1 fs.prec.toNat := by
  have hstring : (byteField fs b).fs.convSpec ≠ .string := by
    change fs.convSpec ≠ .string
    rcases hconv with h | h <;> rw [h] <;> decide
  have hbinary : (byteField fs b).fs.convSpec ≠ .binary := by
    change fs.convSpec ≠ .binary
    rcases hconv with h | h <;> rw [h] <;> decide
  have hpadC : npfPadC (byteField fs b) = 0 := by
    unfold npfPadC
    split
    · rw [if_pos (by exact hpad), if_neg]
      rintro ⟨-, hchar, hpercent⟩
      exact hconv.elim hchar hpercent
    · rfl
  have hbytes : (byteField fs b).layout.bytes =
      List.replicate (fs.prec - 1).toNat (ch '0') ++ (byteField fs b).text := by
    rw [Layout.bytes, NpfField.layout, if_pos hpadC, NpfField.precZeros, if_pos hstring]
    rfl
  rw [hbytes, NpfField.text_of_digits hstring hbinary rfl, List.length_append,
    List.length_replicate]
  change (fs.prec - 1).toNat + 1 = _
  omega

lemma Directive.Unfilled.conv (h : d.Unfilled) :
    d.spec.convSpec = .char ∨ d.spec.convSpec = .percent := by
  rcases h.2.2 with h | h
  · exact .inl (congrArg Letter.conv h)
  · exact .inr (congrArg Letter.conv h)

lemma Directive.Unfilled.precOpt (h : d.Unfilled) : d.spec.precOpt = .none := by
  refine if_pos ?_
  rcases h.2.2 with h | h <;> simp [h]

/-- The flags that leave a directive unfilled. -/
lemma unfilled_of_leadingZeroPad (hpad : d.spec.leadingZeroPad = true)
    (hconv : d.spec.convSpec = .string ∨ d.spec.convSpec = .char ∨ d.spec.convSpec = .percent) :
    d.Unfilled := by
  simp only [Directive.spec, decide_eq_true_eq] at hpad
  obtain ⟨hzero, hminus, hs, -⟩ := hpad
  refine ⟨hzero, hminus, ?_⟩
  change d.letter.conv = .string ∨ d.letter.conv = .char ∨ d.letter.conv = .percent at hconv
  revert hconv hs
  cases d.letter <;> decide

lemma Directive.Unfilled.leadingZeroPad (h : d.Unfilled) : d.spec.leadingZeroPad = true := by
  obtain ⟨hzero, hminus, hletter⟩ := h
  simp only [Directive.spec, decide_eq_true_eq]
  rcases hletter with hletter | hletter <;> simp [hzero, hminus, hletter]

lemma maxWidth_of_ne_star (h : d.width ≠ .star) : d.maxWidth = d.width.value := by
  unfold Directive.maxWidth
  cases hcase : d.width with
  | star => exact absurd hcase h
  | none | literal e ds => rfl

/-- The width for given arguments is at most the largest one. -/
lemma widthFor_le_maxWidth {fs' : NpfFormatSpec} (h : d.spec.Starred args fs') :
    d.spec.widthFor args ≤ d.maxWidth := by
  have hwidth : d.spec.widthFor args =
      if d.width.opt = .star then (args.headD ⟨0, []⟩).int.natAbs else d.width.value := by
    rfl
  have hstar : d.width.opt = .star → d.spec.widthFor args ≤ intMax := h.width
  unfold Directive.maxWidth
  cases hcase : d.width with
  | star => exact hstar (by rw [hcase]; rfl)
  | none | literal e ds =>
    rw [hwidth, hcase, if_neg (by simp [Width.opt])]

/-- There are arguments with which an unfilled directive has its largest width. -/
lemma exists_maxWidth (h : d.Unfilled) : ∃ args fs' b args',
    npfTakeField d.spec args = some (byteField fs' b, args') ∧ d.spec.widthFor args = d.maxWidth ∧
      fs' = { d.spec with fieldWidth := d.maxWidth } := by
  have hprec : d.spec.precOpt ≠ .star := by
    rw [h.precOpt]
    decide
  by_cases hstar : d.width = .star
  · -- the argument for the width is the largest `int`
    have hopt : d.spec.fieldWidthOpt = .star := congrArg Width.opt hstar
    have hmax : d.maxWidth = intMax := by rw [Directive.maxWidth, hstar]
    have hint : (⟨BitVec.ofNat 64 intMax, []⟩ : VaArg).int = intMax := by decide
    obtain ⟨b, args', hconv⟩ := exists_npfConvert_byte
      { d.spec with fieldWidth := d.maxWidth } h.conv ⟨0, []⟩ []
    refine ⟨[⟨BitVec.ofNat 64 intMax, []⟩, ⟨0, []⟩], _, b, args', ?_, ?_, rfl⟩
    · rw [npfTakeField_apply, npfStarWidth_cons hopt, hint, if_pos (by decide), Option.bind_some,
        if_neg (by decide), npfStarPrec_of_ne_star (by exact hprec), Option.bind_some, ← hconv, hmax]
      rfl
    · rw [NpfFormatSpec.widthFor, if_pos hopt, hmax]
      rfl
  · have hopt : d.spec.fieldWidthOpt ≠ .star := by
      change d.width.opt ≠ .star
      cases hcase : d.width with
      | star => exact absurd hcase hstar
      | none | literal e ds => simp [Width.opt]
    have hmax := maxWidth_of_ne_star hstar
    obtain ⟨b, args', hconv⟩ := exists_npfConvert_byte d.spec h.conv ⟨0, []⟩ []
    refine ⟨[⟨0, []⟩], d.spec, b, args', ?_, ?_, ?_⟩
    · rw [npfTakeField_of_no_star hopt hprec, hconv]
    · rw [NpfFormatSpec.widthFor, if_neg hopt, hmax]
      rfl
    · rw [hmax]
      rfl

lemma maxWidth_le (hfits : d.Fits) : d.maxWidth ≤ intMax := by
  by_cases hstar : d.width = .star
  · rw [Directive.maxWidth, hstar]
  · rw [maxWidth_of_ne_star hstar]
    exact hfits.1

/-- A directive prints at least as many bytes as its width says, except in one case: `%c` and `%%` with
the flag `0` and without `-`, when the width exceeds both their precision and one byte. -/
theorem width_honoured_iff (hfits : d.Fits) :
    (∀ args n, npfVsnprintf none 0 (ch '%' :: (d.bytes ++ [0])) args = some (none, n) →
      d.spec.widthFor args ≤ n) ↔
      ¬ (d.Unfilled ∧ max 1 d.precision.value < d.maxWidth) := by
  constructor
  · rintro hall ⟨hunfilled, hlt⟩
    obtain ⟨args, fs', b, args', htake, hwidth, rfl⟩ := exists_maxWidth hunfilled
    have hlen := length_byteField { d.spec with fieldWidth := d.maxWidth } hunfilled.conv
      hunfilled.leadingZeroPad b
    have hprecFits := hfits.2
    have hwidthFits := maxWidth_le hfits
    unfold intMax at hprecFits hwidthFits
    have hrange : (byteField { d.spec with fieldWidth := d.maxWidth } b).InRange := by
      refine ⟨fun _ => ?_, ?_⟩
      · change -(2 ^ 31) ≤ (d.precision.value : ℤ) - (1 : ℕ) ∧
          (d.precision.value : ℤ) - (1 : ℕ) < 2 ^ 31
        omega
      · have hzeros : (byteField { d.spec with fieldWidth := d.maxWidth } b).precZeros ≤
            d.precision.value := by
          have hsub : ((d.precision.value : ℤ) - 1).toNat ≤ d.precision.value := by omega
          unfold NpfField.precZeros
          split
          · exact hsub
          · exact Nat.zero_le _
        change -(2 ^ 31) ≤ (d.maxWidth : ℤ) - (1 : ℕ) - (0 : ℕ) - (byteField _ b).precZeros ∧
          (d.maxWidth : ℤ) - (1 : ℕ) - (0 : ℕ) - (byteField _ b).precZeros < 2 ^ 31
        omega
    have hprints := FormatPrints.field hfits htake hrange (.done [] args')
    have hlen' : (byteField { d.spec with fieldWidth := d.maxWidth } b).layout.bytes.length =
        max 1 d.precision.value := hlen
    rw [List.append_nil] at hprints
    have hrun := hall args _ ((npfVsnprintf_none_iff 0 _ args _).mpr
      ⟨_, hprints, by rw [hlen']; unfold intMax; omega, rfl⟩)
    rw [hwidth, hlen'] at hrun
    exact absurd hlt (not_lt.mpr hrun)
  · intro hnot args n hrun
    obtain ⟨out, hprints, -, rfl⟩ := (npfVsnprintf_none_iff 0 _ args n).mp hrun
    obtain ⟨field, args', out', htake, -, -, rfl⟩ := hprints.of_directive hfits
    rw [List.length_append]
    refine le_add_right ?_
    obtain ⟨fs', stars, args₁, hstarred, hconv, -⟩ :=
      npfTakeField_some (directive_width_nonneg d) htake
    obtain ⟨prec, hfs⟩ := npfConvert_fs hconv
    have heq := hstarred.eq
    have hwidth : field.fs.fieldWidth.toNat = d.spec.widthFor args := by
      rw [hfs, heq]
      exact Int.toNat_natCast _
    by_cases hpad : npfPadC field = 0
    · have hopt : field.fs.fieldWidthOpt = d.spec.fieldWidthOpt := by rw [hfs, heq]
      have hzero : field.fs.leadingZeroPad = d.spec.leadingZeroPad := by rw [hfs, heq]
      have hspec : field.fs.convSpec = d.spec.convSpec := by rw [hfs, heq]
      have hspec' : fs'.convSpec = d.spec.convSpec := by rw [heq]
      have hzero' : fs'.leadingZeroPad = d.spec.leadingZeroPad := by rw [heq]
      rcases npfPadC_eq_zero hpad with hnone | ⟨hlead, hchar⟩
      · have hopt' : d.width.opt = .none := hopt.symm.trans hnone
        have hzero : d.spec.widthFor args = 0 := by
          change (if d.width.opt = .star then _ else d.width.value) = 0
          rw [hopt', if_neg (by decide)]
          cases hcase : d.width with
          | none => rfl
          | star | literal e ds =>
            rw [hcase] at hopt'
            cases hopt'
        omega
      · have hunfilled : d.Unfilled :=
          unfilled_of_leadingZeroPad (hzero ▸ hlead) (hspec ▸ hchar)
        have hle : d.maxWidth ≤ max 1 d.precision.value := by
          by_contra hlt
          exact hnot ⟨hunfilled, not_le.mp hlt⟩
        obtain ⟨b, rfl⟩ := npfConvert_byte (hspec' ▸ hunfilled.conv) hconv
        have hprec : fs'.prec = d.precision.value := by
          refine hstarred.prec ?_
          rw [hunfilled.precOpt]
          decide
        rw [length_byteField fs' (hspec' ▸ hunfilled.conv) (hzero'.trans hunfilled.leadingZeroPad) b,
          hprec, Int.toNat_natCast]
        exact (widthFor_le_maxWidth hstarred).trans hle
    · rw [← hwidth]
      exact width_le_of_filled hpad

/-- `%05c` -/
def zeroCharDirective : Directive := ⟨[.zero], .literal 5 [], .none, .none, .c, by simp⟩

/-- The width of `%05c` is not honoured. -/
theorem width_honoured_zeroChar : ¬ ∀ args n, npfVsnprintf none 0
    (ch '%' :: (zeroCharDirective.bytes ++ [0])) args = some (none, n) →
      zeroCharDirective.spec.widthFor args ≤ n :=
  fun h => (width_honoured_iff ⟨by decide, by decide⟩).mp h
    ⟨⟨by decide, by decide, .inl rfl⟩, by decide⟩

end Soaplin
