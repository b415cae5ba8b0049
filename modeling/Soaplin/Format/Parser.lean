import Soaplin.Format.Grammar

/-!
# The parser of format specifiers

The phases of `npf_parse_format_spec` in a row.  What comes behind a part of a directive never starts
like that part, so the text of a directive is read in one way only.  The main result,
`npfParseFormatSpec_iff`, says that `npf_parse_format_spec` accepts exactly the texts of directives
whose numbers fit in an `int`, whatever comes behind them, and that it returns their length and their
meaning.
-/

namespace Soaplin

open PrefixScanner

/-! ### Specifiers -/

/-- The first byte of a length modifier or of a letter. -/
def LateByte (b : UInt8) : Prop :=
  b ∈ [ch 'h', ch 'l', ch 'j', ch 'z', ch 't'] ∨ ∃ letter : Letter, b = letter.byte

lemma letter_late (letter : Letter) (rest : List UInt8) :
    Starts LateByte ([letter.byte] ++ rest) :=
  starts_cons.mpr (.inr ⟨letter, rfl⟩)

lemma length_late {tail : List UInt8} (h : Starts LateByte tail) (length : Length) :
    Starts LateByte (length.bytes ++ tail) := by
  cases length
  case none => exact h
  all_goals exact starts_cons.mpr (.inl (by decide))

/-- A byte behind the precision belongs to none of the things in front of it. -/
lemma LateByte.spec {b : UInt8} (hb : LateByte b) :
    (b ≠ ch '*' ∧ b ≠ ch '-' ∧ b ≠ ch '.') ∧ ¬ IsDigit b ∧ ¬ ∃ f : Flag, b = f.byte := by
  have hflag : ∀ f : Flag, b ≠ f.byte := by
    rcases hb with hb | ⟨letter, rfl⟩
    · intro f
      cases f <;> simp only [List.mem_cons, List.not_mem_nil, or_false] at hb <;>
        rcases hb with rfl | rfl | rfl | rfl | rfl <;> decide
    · intro f
      cases f <;> cases letter <;> decide
  refine ⟨?_, ?_, fun ⟨f, hf⟩ => hflag f hf⟩
  · rcases hb with hb | ⟨letter, rfl⟩
    · simp only [List.mem_cons, List.not_mem_nil, or_false] at hb
      rcases hb with rfl | rfl | rfl | rfl | rfl <;> decide
    · cases letter <;> decide
  · rcases hb with hb | ⟨letter, rfl⟩
    · simp only [List.mem_cons, List.not_mem_nil, or_false] at hb
      rcases hb with rfl | rfl | rfl | rfl | rfl <;> decide
    · cases letter <;> decide

/-- A letter may come behind a length modifier. -/
lemma Length.before_letter (length : Length) (letter : Letter) (rest : List UInt8) :
    length.Before ([letter.byte] ++ rest) := by
  cases length
  case none => exact starts_cons.mpr (by cases letter <;> decide)
  case h => exact starts_cons.mpr (by cases letter <;> decide)
  case l => exact starts_cons.mpr (by cases letter <;> decide)
  all_goals exact trivial

/-- What is behind a precision may come there. -/
lemma Precision.before_late {tail : List UInt8} (h : Starts LateByte tail) (precision : Precision) :
    precision.Before tail := by
  cases precision with
  | none => exact h.mono fun b hb => hb.spec.1.2.2
  | star => trivial
  | literal ds =>
    exact ⟨h.mono fun b hb => hb.spec.2.1, fun _ => h.mono fun b hb =>
      ⟨hb.spec.1.1, hb.spec.1.2.1⟩⟩
  | negative ds => exact h.mono fun b hb => hb.spec.2.1

/-- The first byte behind a width: a dot, or one of those behind the precision. -/
lemma precision_starts {tail : List UInt8} (h : Starts LateByte tail) (precision : Precision) :
    Starts (fun b => b = ch '.' ∨ LateByte b) (precision.bytes ++ tail) := by
  cases precision
  case none => exact h.mono fun b hb => .inr hb
  all_goals exact starts_cons.mpr (.inl rfl)

/-- What is behind a width may come there. -/
lemma Width.before_precision {tail : List UInt8}
    (h : Starts (fun b => b = ch '.' ∨ LateByte b) tail) (width : Width) : width.Before tail := by
  have hstar : ∀ b, b = ch '.' ∨ LateByte b → b ≠ ch '*' ∧ ¬ IsDigit b := by
    rintro b (rfl | hb)
    · decide
    · exact ⟨hb.spec.1.1, hb.spec.2.1⟩
  cases width with
  | none => exact h.mono hstar
  | star => trivial
  | literal d ds => exact h.mono fun b hb => (hstar b hb).2

/-- What is behind the flags is not a flag, unless it is a width with a leading zero. -/
lemma not_flag_width {tail : List UInt8} (h : Starts (fun b => b = ch '.' ∨ LateByte b) tail)
    (width : Width) :
    Starts (fun b => ¬ ∃ f : Flag, b = f.byte) (width.bytes ++ tail) ↔
      ∀ ds, width ≠ .literal 0 ds := by
  cases width with
  | none =>
    refine iff_of_true (h.mono ?_) (by simp)
    rintro b (rfl | hb)
    · rintro ⟨f, hf⟩
      revert hf
      cases f <;> decide
    · exact hb.spec.2.2
  | star =>
    refine iff_of_true (starts_cons.mpr ?_) (by simp)
    rintro ⟨f, hf⟩
    revert hf
    cases f <;> decide
  | literal d ds =>
    change Starts _ (digitByte d :: (ds.map digitByte ++ tail)) ↔ _
    rw [starts_cons]
    constructor
    · rintro hd ds' heq
      cases heq
      exact hd ⟨.zero, rfl⟩
    · rintro hd ⟨f, hf⟩
      have hzero : ∀ e : Fin 10, digitByte e = f.byte → e = 0 := by
        cases f <;> decide
      exact hd ds (by rw [hzero d hf])

/-- The meaning of a directive, phase by phase. -/
lemma Directive.spec_eq (d : Directive) : d.spec =
    d.letter.set (d.length.set (d.precision.set (d.width.set (flagSpec d.flags)))) := by
  cases d with
  | mk flags width precision length letter hwidth =>
    cases width <;>
      simp [Directive.spec, Letter.set, Length.set, Precision.set, Width.set, flagSpec,
        NpfFormatSpec.start, Width.value, Width.opt, and_assoc]

/-- What is read behind a `%`: the text of a directive gives its meaning. -/
theorem npfSpec_some_iff (input : List UInt8) (spec : NpfFormatSpec) (rest : List UInt8) :
    npfSpec input = some (some spec, rest) ↔
      ∃ d : Directive, d.Fits ∧ spec = d.spec ∧ input = d.bytes ++ rest := by
  have hreads := reads_flags.bind fun spec₁ => (reads_npfFieldWidth spec₁).bind fun spec₂ =>
    (reads_npfPrecision spec₂).bind fun spec₃ => (reads_npfLengthModifier spec₃).bind fun spec₄ =>
      reads_npfConversion spec₄
  have hspec := hreads input (some spec) rest
  rw [npfSpec, hspec]
  constructor
  · rintro ⟨w, ⟨_, _, v₁, ⟨flags, rfl, rfl, hflags⟩, ⟨_, _, v₂, ⟨width, rfl, rfl, hwidth, -⟩,
      ⟨_, _, v₃, ⟨precision, rfl, rfl, hprecision, -⟩, ⟨_, _, v₄, ⟨length, rfl, rfl, -⟩,
      ⟨b, rfl, hconv⟩, rfl⟩, rfl⟩, rfl⟩, rfl⟩, rfl⟩
    by_cases hletter : ∃ letter : Letter, b = letter.byte
    · obtain ⟨letter, rfl⟩ := hletter
      rw [npfConversion_byte] at hconv
      have hlate := length_late (letter_late letter rest) length
      have hstarts := precision_starts hlate precision
      simp only [List.append_assoc] at hflags hstarts
      rw [not_flag_width hstarts] at hflags
      refine ⟨⟨flags, width, precision, length, letter, hflags⟩, ⟨hwidth, hprecision⟩, ?_, rfl⟩
      rw [Directive.spec_eq]
      exact (Option.some.inj hconv).symm
    · rw [npfConversion_of_not_letter fun letter heq => hletter ⟨letter, heq⟩] at hconv
      cases hconv
  · rintro ⟨d, ⟨hwidth, hprecision⟩, rfl, rfl⟩
    have hlate := length_late (letter_late d.letter rest) d.length
    have hstarts := precision_starts hlate d.precision
    have hflags := (not_flag_width hstarts d.width).mpr d.width_ne_zero
    simp only [← List.append_assoc] at hlate hstarts hflags
    refine ⟨d.bytes, ⟨_, _, _, ⟨d.flags, rfl, rfl, ?_⟩, ⟨_, _, _, ⟨d.width, rfl, rfl, hwidth, ?_⟩,
      ⟨_, _, _, ⟨d.precision, rfl, rfl, hprecision, ?_⟩, ⟨_, _, _, ⟨d.length, rfl, rfl,
      d.length.before_letter d.letter rest⟩, ⟨d.letter.byte, rfl, ?_⟩, rfl⟩, rfl⟩, rfl⟩, rfl⟩, rfl⟩
    · simpa only [List.append_assoc] using hflags
    · exact d.width.before_precision (by simpa only [List.append_assoc] using hstarts)
    · exact d.precision.before_late (by simpa only [List.append_assoc] using hlate)
    · rw [npfConversion_byte, Directive.spec_eq]

/-- `npf_parse_format_spec` on the text of a directive. -/
lemma npfParseFormatSpec_directive {d : Directive} (hfits : d.Fits) (rest : List UInt8) :
    npfParseFormatSpec (ch '%' :: (d.bytes ++ rest)) = some (d.bytes.length + 1, d.spec) := by
  have hread := (npfSpec_some_iff (d.bytes ++ rest) d.spec rest).mpr ⟨d, hfits, rfl, rfl⟩
  unfold npfParseFormatSpec
  rw [List.tail_cons, hread]
  change some ((ch '%' :: (d.bytes ++ rest)).length - rest.length, d.spec) = _
  rw [List.length_cons, List.length_append]
  congr 2
  omega

/-- What `npf_parse_format_spec` accepts is the text of a directive. -/
lemma directive_of_npfParseFormatSpec {input : List UInt8} {n : ℕ} {spec : NpfFormatSpec}
    (hparse : npfParseFormatSpec (ch '%' :: input) = some (n, spec)) (hn : n ≠ 0) :
    ∃ (d : Directive) (rest : List UInt8), d.Fits ∧ input = d.bytes ++ rest ∧
      n = d.bytes.length + 1 ∧ spec = d.spec := by
  unfold npfParseFormatSpec at hparse
  rw [List.tail_cons] at hparse
  obtain ⟨⟨r, cur⟩, hread, hret⟩ := Option.bind_eq_some_iff.mp hparse
  cases r with
  | none =>
    cases hret
    exact absurd rfl hn
  | some spec' =>
    obtain ⟨d, hfits, rfl, rfl⟩ := (npfSpec_some_iff input spec' cur).mp hread
    cases hret
    refine ⟨d, cur, hfits, rfl, ?_, rfl⟩
    rw [List.length_cons, List.length_append]
    omega

/-- `npf_parse_format_spec` accepts the texts of the directives whose numbers fit in an `int`, and no
others.  It returns the length of the text and the meaning of the directive. -/
theorem npfParseFormatSpec_iff (input : List UInt8) (n : ℕ) (spec : NpfFormatSpec) :
    (npfParseFormatSpec (ch '%' :: input) = some (n, spec) ∧ n ≠ 0) ↔
      ∃ (d : Directive) (rest : List UInt8), d.Fits ∧ input = d.bytes ++ rest ∧
        n = d.bytes.length + 1 ∧ spec = d.spec := by
  constructor
  · rintro ⟨hparse, hn⟩
    exact directive_of_npfParseFormatSpec hparse hn
  · rintro ⟨d, rest, hfits, rfl, rfl, rfl⟩
    exact ⟨npfParseFormatSpec_directive hfits rest, Nat.succ_ne_zero _⟩

end Soaplin
