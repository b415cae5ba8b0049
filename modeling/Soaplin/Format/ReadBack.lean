import Soaplin.Format.Number
import Soaplin.Format.Semantics

/-!
# Printed numbers are read back

`readNumber` reads a number as `strtoll` does: blanks, a sign, a prefix of the base, digits.  It reads
back what a numeric directive prints, whatever the flags, the width and the precision are
(`readNumber_directive`).  The one exception is a negative width for `*` together with the flag `0`:
the field is then filled with zeros behind the number, which multiplies it.
-/

namespace Soaplin

open Numeral

/-! ### The reader -/

/-- The value of a digit to the bases up to 16. -/
def hexValue (c : UInt8) : Option ℕ :=
  if IsDigit c then some (c.toNat - (ch '0').toNat)
  else if ch 'A' ≤ c ∧ c ≤ ch 'F' then some (c.toNat - (ch 'A').toNat + 10)
  else if ch 'a' ≤ c ∧ c ≤ ch 'f' then some (c.toNat - (ch 'a').toNat + 10)
  else none

/-- The value of a digit to the base `base`. -/
def digitOf (base : ℕ) (c : UInt8) : Option ℕ := (hexValue c).filter (· < base)

/-- The second character of the prefix of a base. -/
def IsPrefixLetter (base : ℕ) (c : UInt8) : Prop :=
  (base = 16 ∧ (c = ch 'x' ∨ c = ch 'X')) ∨ (base = 2 ∧ (c = ch 'b' ∨ c = ch 'B'))

instance (base : ℕ) (c : UInt8) : Decidable (IsPrefixLetter base c) :=
  inferInstanceAs (Decidable (_ ∨ _))

/-- The text behind the prefix of a base. -/
def dropPrefix (base : ℕ) : List UInt8 → List UInt8
  | z :: c :: text => if z = ch '0' ∧ IsPrefixLetter base c then text else z :: c :: text
  | text => text

/-- The number at the start of a text without a sign. -/
def readMagnitude (base : ℕ) (text : List UInt8) : ℕ :=
  read (digitOf base) base (dropPrefix base text)

/-- The number at the start of a text. -/
def readNumber (base : ℕ) (text : List UInt8) : ℤ :=
  match text.dropWhile (· = ch ' ') with
  | [] => 0
  | c :: rest =>
    if c = ch '-' then -(readMagnitude base rest : ℤ)
    else if c = ch '+' then readMagnitude base rest
    else readMagnitude base (c :: rest)

variable {base n m : ℕ} {caseAdj : UInt8} {body text : List UInt8}

/-- The two values of `case_adjust`. -/
def IsCaseAdjust (caseAdj : UInt8) : Prop := caseAdj = 0 ∨ caseAdj = ch 'a' - ch 'A'

/-- The character of a digit is read as that digit. -/
lemma digitOf_npfGlyph (hbase : base ≤ 16) (hcase : IsCaseAdjust caseAdj) {d : ℕ} (hd : d < base) :
    digitOf base (npfGlyph caseAdj d) = some d := by
  have hlower : ∀ d : Fin 16, hexValue (npfGlyph (ch 'a' - ch 'A') d) = some d := by decide
  have hupper : ∀ d : Fin 16, hexValue (npfGlyph 0 d) = some d := by decide
  have hvalue : hexValue (npfGlyph caseAdj d) = some d := by
    rcases hcase with rfl | rfl
    · exact hupper ⟨d, by omega⟩
    · exact hlower ⟨d, by omega⟩
  rw [digitOf, hvalue, Option.filter_some, if_pos (by simpa using hd)]

/-- The character of a digit is neither a blank, nor a sign, nor the letter of a prefix. -/
lemma npfGlyph_spec (hcase : IsCaseAdjust caseAdj) {d : ℕ} (hd : d < base)
    (hbase : base ≤ 16) :
    npfGlyph caseAdj d ≠ ch ' ' ∧ npfGlyph caseAdj d ≠ ch '-' ∧ npfGlyph caseAdj d ≠ ch '+' ∧
      ¬ IsPrefixLetter base (npfGlyph caseAdj d) := by
  have hlower : ∀ d : Fin 16, npfGlyph (ch 'a' - ch 'A') d ∉ [ch ' ', ch '-', ch '+', ch 'x', ch 'X'] ∧
      (d.val < 2 → npfGlyph (ch 'a' - ch 'A') d ∉ [ch 'b', ch 'B']) := by decide
  have hupper : ∀ d : Fin 16, npfGlyph 0 d ∉ [ch ' ', ch '-', ch '+', ch 'x', ch 'X'] ∧
      (d.val < 2 → npfGlyph 0 d ∉ [ch 'b', ch 'B']) := by decide
  have hspec : npfGlyph caseAdj d ∉ [ch ' ', ch '-', ch '+', ch 'x', ch 'X'] ∧
      (d < 2 → npfGlyph caseAdj d ∉ [ch 'b', ch 'B']) := by
    rcases hcase with rfl | rfl
    · exact hupper ⟨d, by omega⟩
    · exact hlower ⟨d, by omega⟩
  obtain ⟨hchars, hbinary⟩ := hspec
  simp only [List.mem_cons, List.not_mem_nil, or_false, not_or] at hchars hbinary
  obtain ⟨hblank, hminus, hplus, hx, hX⟩ := hchars
  refine ⟨hblank, hminus, hplus, ?_⟩
  rintro (⟨-, h | h⟩ | ⟨htwo, h | h⟩)
  · exact hx h
  · exact hX h
  · exact (hbinary (by omega)).1 h
  · exact (hbinary (by omega)).2 h

/-- A numeral consists of characters of digits. -/
lemma IsNumeral.exists_digit (h : IsNumeral base caseAdj n text) (hbase : 1 < base) {c : UInt8}
    (hc : c ∈ text) : ∃ d < base, c = npfGlyph caseAdj d := by
  obtain ⟨k, rfl⟩ := h
  rcases List.mem_append.mp hc with hc | hc
  · exact ⟨0, by omega, by rw [List.eq_of_mem_replicate hc, npfGlyph_zero]⟩
  · obtain ⟨d, hd, rfl⟩ := List.mem_map.mp hc
    exact ⟨d, Nat.digits_lt_base hbase (List.mem_reverse.mp hd), rfl⟩

/-- No prefix is dropped when there is no letter of one. -/
lemma dropPrefix_of_forall (h : ∀ c ∈ text, ¬ IsPrefixLetter base c) : dropPrefix base text = text := by
  unfold dropPrefix
  split
  · next z c rest =>
    rw [if_neg]
    exact fun hletter => h c (by simp) hletter.2
  · rfl

/-- There is no letter of a prefix in a numeral and the blanks behind it. -/
lemma IsNumeral.not_prefixLetter (h : IsNumeral base caseAdj n body) (hbase : 1 < base)
    (hbase' : base ≤ 16) (hcase : IsCaseAdjust caseAdj) (m : ℕ) :
    ∀ c ∈ body ++ List.replicate m (ch ' '), ¬ IsPrefixLetter base c := by
  intro c hc
  rcases List.mem_append.mp hc with hc | hc
  · obtain ⟨d, hd, rfl⟩ := h.exists_digit hbase hc
    exact (npfGlyph_spec hcase hd hbase').2.2.2
  · rw [List.eq_of_mem_replicate hc]
    rintro (⟨-, h⟩ | ⟨-, h⟩) <;> revert h <;> decide

/-- A numeral in front of blanks is read. -/
lemma readMagnitude_numeral (h : IsNumeral base caseAdj n body) (hbase : 1 < base)
    (hbase' : base ≤ 16) (hcase : IsCaseAdjust caseAdj) (m : ℕ) :
    readMagnitude base (body ++ List.replicate m (ch ' ')) = n := by
  have hrest : NoDigit (digitOf base) (List.replicate m (ch ' ')) := by
    intro c hc
    rw [List.eq_of_mem_replicate (List.mem_of_mem_head? hc)]
    rfl
  rw [readMagnitude, dropPrefix_of_forall (h.not_prefixLetter hbase hbase' hcase m)]
  obtain ⟨k, rfl⟩ := h
  exact read_numeral hbase (fun d hd => digitOf_npfGlyph hbase' hcase hd) hrest k n

/-- Behind a prefix as well. -/
lemma readMagnitude_prefix {c : UInt8} (hc : IsPrefixLetter base c)
    (h : IsNumeral base caseAdj n body) (hbase : 1 < base) (hbase' : base ≤ 16)
    (hcase : IsCaseAdjust caseAdj) (m : ℕ) :
    readMagnitude base (ch '0' :: c :: (body ++ List.replicate m (ch ' '))) = n := by
  have hdrop := readMagnitude_numeral h hbase hbase' hcase m
  rw [readMagnitude, dropPrefix_of_forall (h.not_prefixLetter hbase hbase' hcase m)] at hdrop
  rw [readMagnitude, dropPrefix, if_pos ⟨rfl, hc⟩]
  exact hdrop

/-- Blanks in front are skipped. -/
lemma readNumber_blanks (base k : ℕ) (text : List UInt8) :
    readNumber base (List.replicate k (ch ' ') ++ text) = readNumber base text := by
  have hskip : (List.replicate k (ch ' ') ++ text).dropWhile (· = ch ' ') =
      text.dropWhile (· = ch ' ') := by
    rw [List.dropWhile_append_of_pos]
    intro c hc
    rw [List.eq_of_mem_replicate hc]
    rfl
  unfold readNumber
  rw [hskip]

lemma readNumber_minus (base : ℕ) (text : List UInt8) :
    readNumber base (ch '-' :: text) = -(readMagnitude base text : ℤ) := rfl

lemma readNumber_plus (base : ℕ) (text : List UInt8) :
    readNumber base (ch '+' :: text) = readMagnitude base text := rfl

/-- A text without blank or sign. -/
lemma readNumber_of_head {c : UInt8} (hblank : c ≠ ch ' ') (hminus : c ≠ ch '-')
    (hplus : c ≠ ch '+') (text : List UInt8) :
    readNumber base (c :: text) = readMagnitude base (c :: text) := by
  have hkeep : (c :: text).dropWhile (· = ch ' ') = c :: text := by
    rw [List.dropWhile_cons_of_neg]
    simpa using hblank
  unfold readNumber
  rw [hkeep]
  dsimp only
  rw [if_neg hminus, if_neg hplus]

/-! ### Fields with a number -/

/-- The field holds the number `v` to the base `base`. -/
structure NumberField (base : ℕ) (v : ℤ) (field : NpfField) : Prop where
  numeral : ∃ caseAdj, IsCaseAdjust caseAdj ∧ IsNumeral base caseAdj v.natAbs field.text
  sign : (v < 0 ∧ field.signC = ch '-') ∨ (0 ≤ v ∧ field.signC ∈ [0, ch '+', ch ' '])
  pre : field.need0x = 0 ∨ IsPrefixLetter base field.need0x

variable {v : ℤ} {field : NpfField}

/-- A prefix and a numeral without a sign are read. -/
lemma NumberField.read_unsigned (h : NumberField base v field) (hbase : 1 < base)
    (hbase' : base ≤ 16) (hcase : IsCaseAdjust caseAdj) (hbody : IsNumeral base caseAdj n body)
    (m : ℕ) :
    readMagnitude base (field.pre ++ (body ++ List.replicate m (ch ' '))) = n ∧
      readNumber base (field.pre ++ (body ++ List.replicate m (ch ' '))) = n := by
  rcases h.pre with hpre | hpre
  · have hnil : field.pre = [] := by
      rw [NpfField.pre, hpre]
      rfl
    have hread := readMagnitude_numeral hbody hbase hbase' hcase m
    rw [hnil, List.nil_append]
    refine ⟨hread, ?_⟩
    cases body with
    | nil =>
      have hblanks := readNumber_blanks base m []
      rw [List.append_nil] at hblanks
      have hzero : readMagnitude base (List.replicate m (ch ' ')) = 0 := by
        cases m with
        | zero => rfl
        | succ m =>
          cases m <;> rfl
      rw [List.nil_append] at hread ⊢
      rw [hblanks, ← hread, hzero]
      rfl
    | cons c body =>
      obtain ⟨d, hd, rfl⟩ := hbody.exists_digit hbase List.mem_cons_self
      obtain ⟨hblank, hminus, hplus, -⟩ := npfGlyph_spec hcase hd hbase'
      rw [List.cons_append] at hread ⊢
      rw [readNumber_of_head hblank hminus hplus, hread]
  · have hne : field.need0x ≠ 0 := by
      intro hzero
      rw [hzero] at hpre
      rcases hpre with ⟨-, h⟩ | ⟨-, h⟩ <;> revert h <;> decide
    have hcons : field.pre = [ch '0', field.need0x] := by
      rw [NpfField.pre, if_pos hne]
    have hread := readMagnitude_prefix hpre hbody hbase hbase' hcase m
    rw [hcons]
    refine ⟨hread, ?_⟩
    refine (readNumber_of_head (by decide) (by decide) (by decide) _).trans ?_
    exact congrArg Nat.cast hread

/-- Blanks, a sign, a prefix, a numeral and blanks are read. -/
lemma NumberField.read (h : NumberField base v field) (hbase : 1 < base) (hbase' : base ≤ 16)
    (hcase : IsCaseAdjust caseAdj) (hbody : IsNumeral base caseAdj n body) (k m : ℕ) :
    readNumber base (List.replicate k (ch ' ') ++
      (field.sign ++ field.pre ++ body ++ List.replicate m (ch ' '))) = if v < 0 then -(n : ℤ) else n := by
  obtain ⟨hmagnitude, hnumber⟩ := h.read_unsigned hbase hbase' hcase hbody m
  rw [readNumber_blanks, List.append_assoc, List.append_assoc]
  rcases h.sign with ⟨hneg, hsign⟩ | ⟨hnonneg, hsign⟩
  · have hminus : field.sign = [ch '-'] := by
      rw [NpfField.sign, hsign]
      rfl
    rw [hminus, List.singleton_append, readNumber_minus, hmagnitude, if_pos hneg]
  · rw [if_neg (by omega)]
    simp only [List.mem_cons, List.not_mem_nil, or_false] at hsign
    rcases hsign with hsign | hsign | hsign
    · have hnil : field.sign = [] := by
        rw [NpfField.sign, hsign]
        rfl
      rw [hnil, List.nil_append, hnumber]
    · have hplus : field.sign = [ch '+'] := by
        rw [NpfField.sign, hsign]
        rfl
      rw [hplus, List.singleton_append, readNumber_plus, hmagnitude]
    · have hblank : field.sign = List.replicate 1 (ch ' ') := by
        rw [NpfField.sign, hsign]
        rfl
      rw [hblank, readNumber_blanks, hnumber]

/-- The number of zeros that a field is filled with behind its number. -/
def Layout.trailingZeros (l : Layout) : ℕ :=
  match l.fill with
  | .behind c => if c = ch '0' then l.missing else 0
  | _ => 0

/-- A field with a number is read back, up to zeros behind the number. -/
theorem NumberField.readNumber_layout (h : NumberField base v field) (hbase : 1 < base)
    (hbase' : base ≤ 16) :
    readNumber base field.layout.bytes = v * (base : ℤ) ^ field.layout.trailingZeros := by
  obtain ⟨caseAdj, hcase, hnumeral⟩ := h.numeral
  have hbody : IsNumeral base caseAdj v.natAbs field.layout.body := hnumeral.zeros field.precZeros
  have habs : ∀ k : ℕ, (if v < 0 then -((v.natAbs * base ^ k : ℕ) : ℤ) else (v.natAbs * base ^ k : ℕ)) =
      v * (base : ℤ) ^ k := by
    intro k
    push_cast
    split
    · next hneg => rw [abs_of_neg hneg, neg_mul, neg_neg]
    · next hnonneg => rw [abs_of_nonneg (by omega)]
  have hread : ∀ k j m : ℕ, ∀ text, IsNumeral base caseAdj (v.natAbs * base ^ j) text →
      readNumber base (List.replicate k (ch ' ') ++ (field.layout.head ++ text ++
        List.replicate m (ch ' '))) = v * (base : ℤ) ^ j := by
    intro k j m text htext
    exact (h.read hbase hbase' hcase htext k m).trans (habs j)
  have hplain : IsNumeral base caseAdj (v.natAbs * base ^ 0) field.layout.body := by
    rwa [pow_zero, Nat.mul_one]
  unfold Layout.bytes Layout.trailingZeros
  cases hfill : field.layout.fill with
  | none => simpa using hread 0 0 0 _ hplain
  | before => simpa using hread field.layout.missing 0 0 _ hplain
  | between =>
    have hzeros := hplain.zeros field.layout.missing
    simpa using hread 0 0 0 _ hzeros
  | behind c =>
    dsimp only
    split
    · next hzero =>
      have hmore := hbody.append_zeros hbase field.layout.missing
      simpa [hzero] using hread 0 field.layout.missing 0 _ hmore
    · next hzero =>
      have hblank : c = ch ' ' := by
        have hpad : c = npfPadC field := by
          unfold NpfField.layout at hfill
          dsimp only at hfill
          split_ifs at hfill
          cases hfill
          rfl
        have hne : npfPadC field ≠ 0 := by
          intro hnone
          unfold NpfField.layout at hfill
          dsimp only at hfill
          rw [if_pos hnone] at hfill
          cases hfill
        rw [hpad] at hzero ⊢
        exact ((NpfField.npfPadC_cases field).resolve_left hne).resolve_left hzero
      simpa [hblank] using hread 0 0 field.layout.missing _ hplain

/-! ### Numeric conversions -/

/-- The base of a numeric conversion. -/
def NpfConv.numeralBase : NpfConv → Option ℕ
  | .signedInt | .unsignedInt => some 10
  | .octal => some 8
  | .hexInt | .pointer => some 16
  | .binary => some 2
  | .none | .percent | .char | .string => Option.none

/-- The number that a numeric conversion takes from a word. -/
def NpfFormatSpec.value (fs : NpfFormatSpec) (w : BitVec 64) : ℤ :=
  match fs.convSpec with
  | .signedInt => npfExtractSigned w fs.lengthModifier
  | .pointer => w.toNat
  | _ => (npfExtractUnsigned w fs.lengthModifier).toNat

variable {fs : NpfFormatSpec} {args args' : List VaArg}

/-- A number of at most 64 bits is one of 64 bits. -/
lemma toInt_range {k : ℕ} (hk : k ≤ 64) (x : BitVec k) : -(2 ^ 63) ≤ x.toInt ∧ x.toInt < 2 ^ 63 := by
  have hpow : (2 : ℤ) ^ (k - 1) ≤ 2 ^ 63 := pow_le_pow_right₀ (by norm_num) (by omega)
  have hlow := BitVec.le_toInt x
  have hhigh := BitVec.toInt_lt (x := x)
  exact ⟨by omega, by omega⟩

/-- What a signed conversion extracts is a number of 64 bits. -/
lemma npfExtractSigned_range (w : BitVec 64) (modifier : NpfLenMod) :
    -(2 ^ 63) ≤ npfExtractSigned w modifier ∧ npfExtractSigned w modifier < 2 ^ 63 := by
  cases modifier <;> exact toInt_range (by decide) _

/-- The absolute value, as it is computed. -/
lemma toNat_uval {val : ℤ} (h : -(2 ^ 63) ≤ val ∧ val < 2 ^ 63) :
    (if val < 0 then 0 - BitVec.ofInt 64 val else BitVec.ofInt 64 val).toNat = val.natAbs := by
  have hzero : (0 : BitVec 64).toNat = 0 := rfl
  split
  · rw [BitVec.toNat_sub, hzero, BitVec.toNat_ofInt]
    omega
  · rw [BitVec.toNat_ofInt]
    omega

/-- The signed conversion. -/
lemma numberField_npfSigned (hconv : fs.convSpec = .signedInt) (hcase : IsCaseAdjust fs.caseAdjust)
    (hprepend : fs.prepend ∈ [0, ch '+', ch ' ']) {val : ℤ} (h : -(2 ^ 63) ≤ val ∧ val < 2 ^ 63) :
    NumberField 10 val (npfSigned fs val) where
  numeral := by
    refine ⟨fs.caseAdjust, hcase, ?_⟩
    have hfs : (npfSigned fs val).fs.convSpec = .signedInt := hconv
    rw [NpfField.text_of_digits (by rw [hfs]; decide) (by rw [hfs]; decide) rfl]
    change IsNumeral 10 fs.caseAdjust val.natAbs (if val = 0 ∧ fs.SkipsZero then [] else
      npfUtoaRev (if val < 0 then 0 - BitVec.ofInt 64 val else BitVec.ofInt 64 val).toNat 10
        (by decide) fs.caseAdjust).reverse
    split
    · next hskip =>
      rw [hskip.1]
      exact isNumeral_nil
    · rw [toNat_uval h]
      exact isNumeral_npfUtoaRev _ _ _
  sign := by
    by_cases hneg : val < 0
    · exact .inl ⟨hneg, if_pos hneg⟩
    · refine .inr ⟨by omega, ?_⟩
      have hsign : (npfSigned fs val).signC = fs.prepend := if_neg hneg
      rwa [hsign]
  pre := .inl rfl

/-- The base of an unsigned conversion other than the binary one. -/
lemma npfBase_of_numeralBase (hbase : fs.convSpec.numeralBase = some base) (hbinary : fs.convSpec ≠ .binary)
    (hpointer : fs.convSpec ≠ .pointer) : npfBase fs.convSpec = base := by
  cases hconv : fs.convSpec with
  | none | percent | char | string =>
    rw [hconv] at hbase
    cases hbase
  | binary => exact absurd hconv hbinary
  | pointer => exact absurd hconv hpointer
  | signedInt | octal | hexInt | unsignedInt =>
    rw [hconv] at hbase
    cases hbase
    rfl

/-- An unsigned or binary conversion. -/
lemma numberField_npfUnsigned (hbase : fs.convSpec.numeralBase = some base)
    (hpointer : fs.convSpec ≠ .pointer) (hcase : IsCaseAdjust fs.caseAdjust) (val : BitVec 64) :
    NumberField base val.toNat (npfUnsigned fs val) := by
  have hstring : fs.convSpec ≠ .string := by
    intro hconv
    rw [hconv] at hbase
    cases hbase
  obtain ⟨prec, hfs⟩ := npfUnsigned_fs fs val
  have hconv : (npfUnsigned fs val).fs.convSpec = fs.convSpec := by rw [hfs]
  refine ⟨⟨fs.caseAdjust, hcase, ?_⟩, .inr ⟨by omega, ?_⟩, ?_⟩
  · rw [Int.natAbs_natCast, NpfField.text, hconv, if_neg hstring]
    unfold npfUnsigned
    dsimp only
    by_cases hskip : val = 0 ∧ fs.SkipsZero
    · have hzero : val.toNat = 0 := by
        rw [hskip.1]
        rfl
      rw [hzero, if_pos hskip]
      split <;> split <;> exact isNumeral_nil
    rw [if_neg hskip]
    by_cases hbinary : fs.convSpec = .binary
    · rw [if_pos hbinary, if_pos hbinary]
      rw [hbinary] at hbase
      cases hbase
      exact isNumeral_binaryText val _
    · rw [if_neg hbinary, if_neg hbinary, List.take_length]
      have hdigits := isNumeral_npfUtoaRev val.toNat (one_lt_npfBase fs.convSpec) fs.caseAdjust
      have hb := npfBase_of_numeralBase hbase hbinary hpointer
      subst hb
      split
      · rw [List.reverse_append]
        exact hdigits.zeros 1
      · exact hdigits
  · have hsign : (npfUnsigned fs val).signC = 0 := by
      unfold npfUnsigned
      dsimp only
      split_ifs <;> rfl
    rw [hsign]
    decide
  · have hneed : (npfUnsigned fs val).need0x = npfNeed0x fs val := by
      unfold npfUnsigned
      dsimp only
      split_ifs <;> rfl
    rw [hneed, npfNeed0x]
    split
    · split
      · next hhex =>
        rw [hhex] at hbase
        cases hbase
        refine .inr (.inl ⟨rfl, ?_⟩)
        rcases hcase with h | h <;> rw [h] <;> decide
      · split
        · next hbinary =>
          rw [hbinary] at hbase
          cases hbase
          refine .inr (.inr ⟨rfl, ?_⟩)
          rcases hcase with h | h <;> rw [h] <;> decide
        · exact .inl rfl
    · exact .inl rfl

/-- The conversion of a pointer. -/
lemma numberField_npfPointer (hconv : fs.convSpec = .pointer) (w : BitVec 64) :
    NumberField 16 w.toNat (npfPointer fs w) where
  numeral := by
    have hfs : (npfPointer fs w).fs.convSpec = .pointer := hconv
    refine ⟨ch 'a' - ch 'A', .inr rfl, ?_⟩
    rw [NpfField.text_of_digits (by rw [hfs]; decide) (by rw [hfs]; decide) rfl]
    exact isNumeral_npfUtoaRev _ _ _
  sign := .inr ⟨by positivity, List.mem_cons_self⟩
  pre := .inr (.inl ⟨rfl, .inl rfl⟩)

/-- A numeric conversion takes one argument, and its field holds the number of it. -/
lemma npfConvert_number (hbase : fs.convSpec.numeralBase = some base)
    (hcase : IsCaseAdjust fs.caseAdjust) (hprepend : fs.prepend ∈ [0, ch '+', ch ' '])
    (h : npfConvert fs args = some (field, args')) :
    ∃ a, args = a :: args' ∧ NumberField base (fs.value a.word) field := by
  unfold npfConvert at h
  unfold NpfFormatSpec.value
  cases hconv : fs.convSpec with
  | none | percent | char | string =>
    rw [hconv] at hbase
    cases hbase
  | signedInt =>
    rw [hconv] at h hbase
    cases args with
    | nil => cases h
    | cons a args =>
      cases h
      cases hbase
      exact ⟨a, rfl, numberField_npfSigned hconv hcase hprepend (npfExtractSigned_range _ _)⟩
  | pointer =>
    rw [hconv] at h hbase
    cases args with
    | nil => cases h
    | cons a args =>
      cases h
      cases hbase
      exact ⟨a, rfl, numberField_npfPointer hconv a.word⟩
  | binary | octal | hexInt | unsignedInt =>
    rw [hconv] at h
    cases args with
    | nil => cases h
    | cons a args =>
      cases h
      have hpointer : fs.convSpec ≠ .pointer := by
        rw [hconv]
        decide
      exact ⟨a, rfl, numberField_npfUnsigned hbase hpointer hcase _⟩

/-! ### Numeric directives -/

/-- The base of the numbers that a directive prints, if it prints numbers. -/
def Directive.numeralBase (d : Directive) : Option ℕ := d.letter.conv.numeralBase

/-- The number of arguments that the stars of a directive take.  The precision of `%`, `c` and `p` is
forgotten before. -/
def Directive.stars (d : Directive) : ℕ :=
  (if d.spec.fieldWidthOpt = .star then 1 else 0) + (if d.spec.precOpt = .star then 1 else 0)

lemma isCaseAdjust_spec (d : Directive) : IsCaseAdjust d.spec.caseAdjust := by
  unfold Directive.spec IsCaseAdjust
  dsimp only
  split
  · exact .inl rfl
  · exact .inr rfl

lemma prepend_spec (d : Directive) : d.spec.prepend ∈ [0, ch '+', ch ' '] := by
  unfold Directive.spec
  dsimp only
  split_ifs <;> decide

/-- A field is filled with zeros only if the flag says so. -/
lemma leadingZeroPad_of_npfPadC (h : npfPadC field = ch '0') : field.fs.leadingZeroPad = true := by
  by_contra hpad
  unfold npfPadC at h
  rw [if_neg hpad] at h
  split at h
  · exact absurd h (by decide)
  · exact absurd h (by decide)

/-- There are no zeros behind the number unless the field is both left-justified and filled with
zeros. -/
lemma trailingZeros_eq_zero (h : field.fs.leadingZeroPad = true → field.fs.leftJustified = false) :
    field.layout.trailingZeros = 0 := by
  unfold Layout.trailingZeros
  cases hfill : field.layout.fill with
  | none => rfl
  | before => rfl
  | between => rfl
  | behind c =>
    dsimp only
    rw [if_neg]
    intro hzero
    unfold NpfField.layout at hfill
    dsimp only at hfill
    split_ifs at hfill with hpad hleft
    cases hfill
    rw [h (leadingZeroPad_of_npfPadC hzero)] at hleft
    cases hleft

/-- What a numeric directive prints is read back as the number in its argument, which is the one
behind the arguments for its stars.  Only a width that is an argument, together with the flag `0`,
can put zeros behind the number. -/
theorem readNumber_directive {d : Directive} (hbase : d.numeralBase = some base)
    (htake : npfTakeField d.spec args = some (field, args')) :
    ∃ stars a, args = stars ++ a :: args' ∧ stars.length = d.stars ∧
      readNumber base field.layout.bytes =
        d.spec.value a.word * (base : ℤ) ^ field.layout.trailingZeros ∧
      (d.width.opt ≠ .star ∨ .zero ∉ d.flags → field.layout.trailingZeros = 0) := by
  obtain ⟨fs', stars, args₁, hstarred, hconv, hargs, hstars⟩ :=
    npfTakeField_some (directive_width_nonneg d) htake
  obtain ⟨prec', hfs⟩ := npfConvert_fs hconv
  have heq := hstarred.eq
  have hconvSpec : fs'.convSpec = d.spec.convSpec := by rw [heq]
  have hadjust : fs'.caseAdjust = d.spec.caseAdjust := by rw [heq]
  have hprepend : fs'.prepend = d.spec.prepend := by rw [heq]
  have hmodifier : fs'.lengthModifier = d.spec.lengthModifier := by rw [heq]
  have hpad : fs'.leadingZeroPad = d.spec.leadingZeroPad := by rw [heq]
  have hnumeral : fs'.convSpec.numeralBase = some base := by rw [hconvSpec]; exact hbase
  obtain ⟨a, rfl, hnumber⟩ := npfConvert_number hnumeral (hadjust ▸ isCaseAdjust_spec d)
    (hprepend ▸ prepend_spec d) hconv
  have hvalue : fs'.value a.word = d.spec.value a.word := by
    rw [NpfFormatSpec.value, NpfFormatSpec.value, hconvSpec, hmodifier]
  have hbounds : 1 < base ∧ base ≤ 16 := by
    revert hbase
    unfold Directive.numeralBase
    cases d.letter.conv <;> rintro ⟨⟩ <;> decide
  rw [hvalue] at hnumber
  refine ⟨stars, a, hargs, hstars, hnumber.readNumber_layout hbounds.1 hbounds.2, fun hplain => ?_⟩
  apply trailingZeros_eq_zero
  rw [hfs]
  intro hzero
  have hflags : .zero ∈ d.flags ∧ .minus ∉ d.flags := by
    have hspec : d.spec.leadingZeroPad = true := hpad.symm.trans hzero
    simp only [Directive.spec, decide_eq_true_eq] at hspec
    exact ⟨hspec.1, hspec.2.1⟩
  have hstar : d.spec.fieldWidthOpt ≠ .star := hplain.resolve_right (not_not.mpr hflags.1)
  change fs'.leftJustified = false
  rw [hstarred.left hstar]
  simpa [Directive.spec] using hflags.2

/-- `%d` prints `-42` for `-42`. -/
theorem readNumber_directive_d : ∃ stars a, [(⟨BitVec.ofInt 64 (-42), []⟩ : VaArg)] = stars ++ a :: [] ∧
    stars.length = (plainDirective .d).stars ∧
    readNumber 10 (npfSigned (plainDirective .d).spec (-42)).layout.bytes =
      (plainDirective .d).spec.value a.word *
        (10 : ℕ) ^ (npfSigned (plainDirective .d).spec (-42)).layout.trailingZeros ∧
    ((plainDirective .d).width.opt ≠ .star ∨ .zero ∉ (plainDirective .d).flags →
      (npfSigned (plainDirective .d).spec (-42)).layout.trailingZeros = 0) := by
  refine readNumber_directive rfl ?_
  rw [npfTakeField_of_no_star (by decide) (by decide)]
  rfl

end Soaplin
