import Soaplin.Format.Parser
import Soaplin.Format.Layout

/-!
# What a format prints

`FormatPrints format args out` is the meaning of a format string: a byte that starts no specifier stands for
itself, and a directive for the bytes of the field that its arguments give.  The main result,
`npfVpprintf_iff`, says that `npf_vpprintf` computes exactly this, for any `pc` and any context: it has
put the bytes `out` in turn and returns their number.  Where there is no such `out`, or it does not
fit in an `int`, the behaviour is undefined.
-/

namespace Soaplin

variable {fs fs' : NpfFormatSpec} {field : NpfField} {args args' : List VaArg} {out : List UInt8}

/-! ### Fields are well formed -/

/-- The width of a field: that of the specifier, or the absolute value of the argument for `*`. -/
def NpfFormatSpec.widthFor (fs : NpfFormatSpec) (args : List VaArg) : ℕ :=
  if fs.fieldWidthOpt = .star then (args.headD ⟨0, []⟩).int.natAbs else fs.fieldWidth.toNat

/-- What the arguments for the stars of `fs` make of it: the width, the precision, the side to which
the field is justified, and nothing else. -/
structure NpfFormatSpec.Starred (fs : NpfFormatSpec) (args : List VaArg) (fs' : NpfFormatSpec) :
    Prop where
  eq : fs' = { fs with
    fieldWidth := fs.widthFor args
    leftJustified := fs'.leftJustified
    prec := fs'.prec
    precOpt := fs'.precOpt }
  left : fs.fieldWidthOpt ≠ .star → fs'.leftJustified = fs.leftJustified
  width : fs.fieldWidthOpt = .star → fs.widthFor args ≤ intMax
  prec : fs.precOpt ≠ .star → fs'.prec = fs.prec

/-- The absolute value of a width, if it is an `int`. -/
lemma npfStarWidth_cons (hstar : fs.fieldWidthOpt = .star) (a : VaArg) (args : List VaArg) :
    npfStarWidth fs (a :: args) = if a.int.natAbs ≤ intMax then some ({ fs with
      fieldWidth := a.int.natAbs
      leftJustified := if a.int < 0 then true else fs.leftJustified }, args) else none := by
  have hint := BitVec.toInt_lt (x := a.word.setWidth 32)
  have hint' := BitVec.le_toInt (a.word.setWidth 32)
  change a.int < 2 ^ 31 at hint
  change -(2 ^ 31) ≤ a.int at hint'
  unfold npfStarWidth
  rw [if_pos hstar]
  change (if a.int < 0 then _ else _ : StateT (List VaArg) Option NpfFormatSpec) args = _
  by_cases hneg : a.int < 0
  · have habs : -a.int = (a.int.natAbs : ℤ) := by omega
    have hrun : ∀ w : Option ℤ, (do
        let width ← (liftM w : StateT (List VaArg) Option ℤ)
        return { fs with fieldWidth := width, leftJustified := true } :
          StateT (List VaArg) Option NpfFormatSpec) args =
        w.map fun width => ({ fs with fieldWidth := width, leftJustified := true }, args) := by
      intro w
      cases w <;> rfl
    rw [if_pos hneg, if_pos hneg, hrun, habs, intOf]
    unfold intMax
    by_cases hfits : a.int.natAbs ≤ 2 ^ 31 - 1
    · rw [if_pos hfits, if_pos (by omega)]
      rfl
    · rw [if_neg hfits, if_neg (by omega)]
      rfl
  · have habs : (a.int.natAbs : ℤ) = a.int := by omega
    rw [if_neg hneg, if_neg hneg, habs, if_pos (by unfold intMax; omega)]
    rfl

/-- The argument for the width. -/
lemma npfStarWidth_some (hwidth : 0 ≤ fs.fieldWidth) (h : npfStarWidth fs args = some (fs', args')) :
    ∃ stars, fs.Starred args fs' ∧ fs'.precOpt = fs.precOpt ∧ args = stars ++ args' ∧
      stars.length = if fs.fieldWidthOpt = .star then 1 else 0 := by
  by_cases hstar : fs.fieldWidthOpt = .star
  · cases args with
    | nil =>
      unfold npfStarWidth at h
      rw [if_pos hstar] at h
      cases h
    | cons a args =>
      have hfor : fs.widthFor (a :: args) = a.int.natAbs := if_pos hstar
      rw [npfStarWidth_cons hstar] at h
      split at h
      · next hfits =>
        cases h
        refine ⟨[a], ⟨?_, absurd hstar, fun _ => hfor.trans_le hfits, fun _ => rfl⟩, rfl, rfl,
          (if_pos hstar).symm⟩
        rw [hfor]
      · cases h
  · unfold npfStarWidth at h
    rw [if_neg hstar] at h
    cases h
    have hfor : (fs.widthFor args : ℤ) = fs.fieldWidth := by
      rw [NpfFormatSpec.widthFor, if_neg hstar, Int.toNat_of_nonneg hwidth]
    refine ⟨[], ⟨?_, fun _ => rfl, fun h => absurd h hstar, fun _ => rfl⟩, rfl, rfl,
      (if_neg hstar).symm⟩
    rw [hfor]

/-- The argument for the precision. -/
lemma npfStarPrec_some (h : npfStarPrec fs args = some (fs', args')) :
    ∃ stars, fs' = { fs with prec := fs'.prec, precOpt := fs'.precOpt } ∧
      (fs.precOpt ≠ .star → fs' = fs) ∧
      args = stars ++ args' ∧ stars.length = if fs.precOpt = .star then 1 else 0 := by
  unfold npfStarPrec at h
  by_cases hstar : fs.precOpt = .star
  · rw [if_pos hstar] at h ⊢
    cases args with
    | nil => cases h
    | cons a args =>
      change (if a.int < 0 then _ else _ : StateT (List VaArg) Option NpfFormatSpec) args = _ at h
      split at h
      · cases h
        exact ⟨[a], rfl, absurd hstar, rfl, rfl⟩
      · cases h
        exact ⟨[a], rfl, absurd hstar, rfl, rfl⟩
  · rw [if_neg hstar] at h ⊢
    cases h
    exact ⟨[], rfl, fun _ => rfl, rfl, rfl⟩

lemma npfStarPrec_of_ne_star (hprec : fs.precOpt ≠ .star) :
    npfStarPrec fs args = some (fs, args) := by
  unfold npfStarPrec
  rw [if_neg hprec]
  rfl

lemma npfTakeField_apply (fs : NpfFormatSpec) (args : List VaArg) : npfTakeField fs args =
    (npfStarWidth fs args).bind fun r =>
      (npfStarPrec r.1 r.2).bind fun r => npfConvert r.1 r.2 := rfl

/-- What a specifier takes: the arguments for its stars, and what its conversion takes. -/
lemma npfTakeField_some (hwidth : 0 ≤ fs.fieldWidth)
    (h : npfTakeField fs args = some (field, args')) :
    ∃ fs' stars args₁, fs.Starred args fs' ∧ npfConvert fs' args₁ = some (field, args') ∧
      args = stars ++ args₁ ∧ stars.length =
        (if fs.fieldWidthOpt = .star then 1 else 0) + (if fs.precOpt = .star then 1 else 0) := by
  obtain ⟨⟨fs₁, args₁⟩, hstar, h₁⟩ := Option.bind_eq_some_iff.mp h
  obtain ⟨⟨fs₂, args₂⟩, hprec, hconv⟩ := Option.bind_eq_some_iff.mp h₁
  obtain ⟨stars, hstarred, hopt, hargs, hstars⟩ := npfStarWidth_some hwidth hstar
  obtain ⟨stars', heq, hsame, rfl, hstars'⟩ := npfStarPrec_some hprec
  refine ⟨fs₂, stars ++ stars', args₂, ⟨?_, ?_, hstarred.width, ?_⟩, hconv, ?_, ?_⟩
  · rw [heq, hstarred.eq]
  · intro hne
    rw [heq]
    exact hstarred.left hne
  · intro hne
    rw [hsame (hopt ▸ hne)]
    exact hstarred.prec hne
  · rw [hargs, List.append_assoc]
  · rw [List.length_append, hstars, hstars', hopt]

/-- A specifier without stars takes the argument of its conversion only. -/
lemma npfTakeField_of_no_star (hwidth : fs.fieldWidthOpt ≠ .star)
    (hprec : fs.precOpt ≠ .star) : npfTakeField fs args = npfConvert fs args := by
  have hstar : npfStarWidth fs args = some (fs, args) := by
    unfold npfStarWidth
    rw [if_neg hwidth]
    rfl
  rw [npfTakeField_apply, hstar, Option.bind_some, npfStarPrec_of_ne_star hprec, Option.bind_some]

/-- The length of a string does not go beyond the bytes that can be read. -/
lemma npfStringLen_le {len n : ℕ} {s : List UInt8} (h : npfStringLen fs len s = some n) :
    n ≤ len + s.length := by
  induction s generalizing len with
  | nil =>
    unfold npfStringLen at h
    split at h
    · cases h
    · cases h
      omega
  | cons b s ih =>
    unfold npfStringLen at h
    rw [List.length_cons]
    split at h
    · split at h
      · have hle := ih h
        omega
      · cases h
    · cases h
      omega

lemma npfSigned_wellFormed (hconv : fs.convSpec ≠ .string) (hwidth : 0 ≤ fs.fieldWidth) (val : ℤ) :
    (npfSigned fs val).WellFormed where
  fits _ := le_rfl
  plain h := absurd h hconv
  sign_or_prefix := .inr rfl
  width_nonneg := hwidth

/-- An unsigned conversion changes the precision of the specifier at most. -/
lemma npfUnsigned_fs (fs : NpfFormatSpec) (val : BitVec 64) :
    ∃ prec, (npfUnsigned fs val).fs = { fs with prec := prec } := by
  unfold npfUnsigned
  dsimp only
  split_ifs
  · exact ⟨1, rfl⟩
  all_goals exact ⟨fs.prec, rfl⟩

lemma npfUnsigned_wellFormed (hconv : fs.convSpec ≠ .string) (hwidth : 0 ≤ fs.fieldWidth)
    (val : BitVec 64) : (npfUnsigned fs val).WellFormed := by
  obtain ⟨prec, hfs⟩ := npfUnsigned_fs fs val
  refine ⟨fun hbinary => ?_, fun h => ?_, .inl ?_, ?_⟩
  · rw [hfs] at hbinary
    unfold npfUnsigned
    dsimp only
    rw [if_neg hbinary]
    split_ifs <;> exact le_rfl
  · rw [hfs] at h
    exact absurd h hconv
  · unfold npfUnsigned
    dsimp only
    split_ifs <;> rfl
  · rw [hfs]
    exact hwidth

/-- A conversion changes the precision of the specifier at most. -/
lemma npfConvert_fs (h : npfConvert fs args = some (field, args')) :
    ∃ prec, field.fs = { fs with prec := prec } := by
  obtain ⟨conv, hconv⟩ : ∃ conv, fs.convSpec = conv := ⟨_, rfl⟩
  unfold npfConvert at h
  rw [hconv] at h
  cases conv with
  | none | percent =>
    cases h
    exact ⟨fs.prec, rfl⟩
  | string =>
    obtain ⟨⟨a, args₁⟩, -, h₁⟩ := Option.bind_eq_some_iff.mp h
    obtain ⟨⟨len, args₂⟩, -, hret⟩ := Option.bind_eq_some_iff.mp h₁
    cases hret
    exact ⟨fs.prec, rfl⟩
  | char | signedInt | pointer =>
    obtain ⟨⟨a, args₁⟩, -, hret⟩ := Option.bind_eq_some_iff.mp h
    cases hret
    exact ⟨fs.prec, rfl⟩
  | binary | octal | hexInt | unsignedInt =>
    obtain ⟨⟨a, args₁⟩, -, hret⟩ := Option.bind_eq_some_iff.mp h
    cases hret
    exact npfUnsigned_fs fs _

/-- Every conversion gives a well-formed field. -/
lemma npfConvert_wellFormed (hwidth : 0 ≤ fs.fieldWidth)
    (h : npfConvert fs args = some (field, args')) : field.WellFormed := by
  unfold npfConvert at h
  cases hconv : fs.convSpec with
  | none =>
    rw [hconv] at h
    cases h
    exact ⟨fun _ => le_rfl, fun _ => ⟨rfl, rfl⟩, .inl rfl, hwidth⟩
  | percent =>
    rw [hconv] at h
    cases h
    exact ⟨fun _ => le_rfl, fun _ => ⟨rfl, rfl⟩, .inl rfl, hwidth⟩
  | char =>
    rw [hconv] at h
    cases args with
    | nil => cases h
    | cons a args =>
      cases h
      exact ⟨fun _ => le_rfl, fun _ => ⟨rfl, rfl⟩, .inl rfl, hwidth⟩
  | string =>
    rw [hconv] at h
    cases args with
    | nil => cases h
    | cons a args =>
      obtain ⟨⟨len, args₁⟩, hlift, hret⟩ := Option.bind_eq_some_iff.mp h
      obtain ⟨n, hlen, hpair⟩ := Option.bind_eq_some_iff.mp hlift
      cases hpair
      cases hret
      have hle := npfStringLen_le hlen
      exact ⟨fun _ => by simpa using hle, fun _ => ⟨rfl, rfl⟩, .inl rfl, hwidth⟩
  | signedInt =>
    rw [hconv] at h
    cases args with
    | nil => cases h
    | cons a args =>
      cases h
      exact npfSigned_wellFormed (by rw [hconv]; decide) hwidth _
  | pointer =>
    rw [hconv] at h
    cases args with
    | nil => cases h
    | cons a args =>
      cases h
      refine ⟨fun _ => le_rfl, fun hstring => ?_, .inl rfl, hwidth⟩
      exact absurd (hconv.symm.trans hstring) (by decide)
  | binary | octal | hexInt | unsignedInt =>
    rw [hconv] at h
    cases args with
    | nil => cases h
    | cons a args =>
      cases h
      exact npfUnsigned_wellFormed (by rw [hconv]; decide) hwidth _

/-- The field of a specifier whose width is not negative is well formed. -/
lemma npfTakeField_wellFormed (hwidth : 0 ≤ fs.fieldWidth)
    (h : npfTakeField fs args = some (field, args')) : field.WellFormed := by
  obtain ⟨fs', stars, args₁, hstarred, hconv, -⟩ := npfTakeField_some hwidth h
  refine npfConvert_wellFormed ?_ hconv
  rw [hstarred.eq]
  exact Int.natCast_nonneg _

/-! ### Differences that overflow -/

variable {σ : Type} (pc : UInt8 → σ → σ)

lemma intOf_some {z w : ℤ} (h : intOf z = some w) : -(2 ^ 31) ≤ z ∧ z < 2 ^ 31 := by
  unfold intOf at h
  split at h
  · next hz => exact hz
  · cases h

/-- A field that is put out has had no overflow. -/
lemma inRange_of_npfPutField {s s' : NpfCntPutcCtx σ} {u : Unit}
    (h : npfPutField pc field s = some (u, s')) : field.InRange := by
  obtain ⟨⟨precPad, s₁⟩, hprec, h₁⟩ := Option.bind_eq_some_iff.mp h
  obtain ⟨⟨fieldPad, s₂⟩, hfield, -⟩ := Option.bind_eq_some_iff.mp h₁
  obtain ⟨precPad', hprec', hpair⟩ := Option.bind_eq_some_iff.mp hprec
  cases hpair
  obtain ⟨fieldPad', hfield', hpair⟩ := Option.bind_eq_some_iff.mp hfield
  cases hpair
  have hrange : field.fs.convSpec ≠ .string → -(2 ^ 31) ≤ field.fs.prec - field.cbufLen ∧
      field.fs.prec - field.cbufLen < 2 ^ 31 := by
    intro hstring
    unfold npfPrecPad at hprec'
    rw [if_pos hstring] at hprec'
    obtain ⟨z, hz, -⟩ := Option.bind_eq_some_iff.mp hprec'
    exact intOf_some hz
  have hzeros : precPad = field.precZeros := by
    unfold npfPrecPad at hprec'
    unfold NpfField.precZeros
    by_cases hstring : field.fs.convSpec = .string
    · rw [if_neg (not_not.mpr hstring)] at hprec' ⊢
      cases hprec'
      rfl
    · rw [if_pos hstring, NpfField.intOf_of_range (hrange hstring)] at hprec'
      rw [if_pos hstring]
      cases hprec'
      rw [Int.toNat_eq_max, max_comm]
  refine ⟨hrange, ?_⟩
  obtain ⟨z, hz, -⟩ := Option.bind_eq_some_iff.mp hfield'
  have hrange' := intOf_some hz
  rw [hzeros, ← NpfField.pad_eq] at hrange'
  exact hrange'

/-! ### The loop -/

/-- The meaning of a format: `out` is printed for the arguments `args`. -/
inductive FormatPrints : List UInt8 → List VaArg → List UInt8 → Prop
  | done (rest : List UInt8) (args : List VaArg) : FormatPrints (0 :: rest) args []
  | byte {b : UInt8} {rest : List UInt8} {args : List VaArg} {out : List UInt8} (hb : b ≠ 0)
      (hspec : b = ch '%' → ∃ fs, npfParseFormatSpec (b :: rest) = some (0, fs))
      (hrest : FormatPrints rest args out) : FormatPrints (b :: rest) args (b :: out)
  | field {d : Directive} {rest : List UInt8} {args args' : List VaArg} {field : NpfField}
      {out : List UInt8} (hfits : d.Fits) (htake : npfTakeField d.spec args = some (field, args'))
      (hrange : field.InRange) (hrest : FormatPrints rest args' out) :
      FormatPrints (ch '%' :: (d.bytes ++ rest)) args (field.layout.bytes ++ out)

/-- A directive has no other meaning than that of its field. -/
lemma FormatPrints.of_directive {d : Directive} {rest : List UInt8} (hfits : d.Fits)
    (h : FormatPrints (ch '%' :: (d.bytes ++ rest)) args out) :
    ∃ field args' out', npfTakeField d.spec args = some (field, args') ∧ field.InRange ∧
      FormatPrints rest args' out' ∧ out = field.layout.bytes ++ out' := by
  have hparse := npfParseFormatSpec_directive hfits rest
  generalize hformat : ch '%' :: (d.bytes ++ rest) = format at h
  cases h with
  | done rest' args => cases hformat
  | byte hb hspec hrest =>
    cases hformat
    obtain ⟨fs, hnone⟩ := hspec rfl
    rw [hnone] at hparse
    cases hparse
  | @field d' rest' args args' field out' hfits' htake hrange hrest =>
    have htext : d.bytes ++ rest = d'.bytes ++ rest' := (List.cons_eq_cons.mp hformat).2
    rw [htext, npfParseFormatSpec_directive hfits' rest', Option.some.injEq, Prod.mk.injEq] at hparse
    obtain ⟨-, rfl⟩ := List.append_inj htext (by omega)
    exact ⟨field, args', out', hparse.2 ▸ htake, hrange, hrest, rfl⟩

variable {b : UInt8} {cur rest : List UInt8} {s s' : NpfCntPutcCtx σ}

lemma npfLoop_nul (rest : List UInt8) (args : List VaArg) (s : NpfCntPutcCtx σ) :
    npfLoop pc (0 :: rest) args s = some s := by
  rw [npfLoop]
  rfl

/-- A byte that starts no specifier. -/
lemma npfLoop_byte (hb : b ≠ 0)
    (hspec : b = ch '%' → ∃ fs, npfParseFormatSpec (b :: rest) = some (0, fs)) :
    npfLoop pc (b :: rest) args s =
      (npfPutcCnt pc b s).bind fun r => npfLoop pc rest args r.2 := by
  rw [npfLoop, if_neg hb]
  by_cases hpercent : b = ch '%'
  · obtain ⟨fs, hparse⟩ := hspec hpercent
    rw [if_neg (not_not.mpr hpercent), hparse]
    rfl
  · rw [if_pos hpercent]
    rfl

/-- A specifier that the parser does not read. -/
lemma npfLoop_undefined (hparse : npfParseFormatSpec (ch '%' :: rest) = none) :
    npfLoop pc (ch '%' :: rest) args s = none := by
  rw [npfLoop, if_neg (by decide), if_neg (not_not.mpr rfl), hparse]
  rfl

/-- A specifier. -/
lemma npfLoop_field {n : ℕ} (hparse : npfParseFormatSpec (ch '%' :: rest) = some (n, fs))
    (hn : n ≠ 0) :
    npfLoop pc (ch '%' :: rest) args s = (npfTakeField fs args).bind fun r =>
      (npfPutField pc r.1 s).bind fun r' => npfLoop pc ((ch '%' :: rest).drop n) r.2 r'.2 := by
  rw [npfLoop, if_neg (by decide), if_neg (not_not.mpr rfl), hparse]
  change (if _h : n = 0 then _ else _) = _
  rw [dif_neg hn]
  rfl

lemma directive_width_nonneg (d : Directive) : 0 ≤ d.spec.fieldWidth := Int.natCast_nonneg _

/-- The loop prints what the format means. -/
lemma npfLoop_of_prints (h : FormatPrints cur args out) (hput : putAll pc out s = some ((), s')) :
    npfLoop pc cur args s = some s' := by
  induction h generalizing s with
  | done rest args =>
    cases hput
    exact npfLoop_nul pc rest args _
  | @byte b rest args out hb hspec hrest ih =>
    rw [npfLoop_byte pc hb hspec]
    obtain ⟨⟨u, s₁⟩, hfirst, hnext⟩ := Option.bind_eq_some_iff.mp hput
    rw [hfirst]
    exact ih hnext
  | @field d rest args args' field out hfits htake hrange hrest ih =>
    have hwf := npfTakeField_wellFormed (directive_width_nonneg d) htake
    have hdrop : (ch '%' :: (d.bytes ++ rest)).drop (d.bytes.length + 1) = rest := by
      rw [List.drop_succ_cons, List.drop_left]
    rw [npfLoop_field pc (npfParseFormatSpec_directive hfits rest) (Nat.succ_ne_zero _), htake,
      Option.bind_some, NpfField.npfPutField_eq pc hwf hrange, hdrop]
    rw [putAll_append] at hput
    obtain ⟨⟨u, s₁⟩, hfirst, hnext⟩ := Option.bind_eq_some_iff.mp hput
    rw [hfirst]
    exact ih hnext

/-- What the loop has printed is what the format means. -/
lemma prints_of_npfLoop (h : npfLoop pc cur args s = some s') :
    ∃ out, FormatPrints cur args out ∧ putAll pc out s = some ((), s') := by
  -- induction on the length, since a specifier is skipped as a whole
  induction hlen : cur.length using Nat.strong_induction_on generalizing cur args s with
  | _ n ih =>
    cases cur with
    | nil =>
      rw [npfLoop] at h
      cases h
    | cons b rest =>
      by_cases hb : b = 0
      · subst hb
        rw [npfLoop_nul] at h
        cases h
        exact ⟨[], .done rest args, rfl⟩
      by_cases hspec : b = ch '%' → ∃ fs, npfParseFormatSpec (b :: rest) = some (0, fs)
      · rw [npfLoop_byte pc hb hspec] at h
        obtain ⟨⟨u, s₁⟩, hfirst, hnext⟩ := Option.bind_eq_some_iff.mp h
        obtain ⟨out, hprints, hput⟩ := ih rest.length (by rw [← hlen]; simp) hnext rfl
        refine ⟨b :: out, .byte hb hspec hprints, ?_⟩
        rw [putAll_cons]
        exact Option.bind_eq_some_iff.mpr ⟨(u, s₁), hfirst, hput⟩
      · rw [Classical.not_imp] at hspec
        obtain ⟨rfl, hnone⟩ := hspec
        cases hparse : npfParseFormatSpec (ch '%' :: rest) with
        | none =>
          rw [npfLoop_undefined pc hparse] at h
          cases h
        | some r =>
          obtain ⟨k, fs⟩ := r
          have hk : k ≠ 0 := by
            rintro rfl
            exact hnone ⟨fs, hparse⟩
          obtain ⟨d, rest', hfits, rfl, rfl, rfl⟩ :=
            directive_of_npfParseFormatSpec hparse hk
          rw [npfLoop_field pc hparse hk] at h
          obtain ⟨⟨field, args'⟩, htake, h₁⟩ := Option.bind_eq_some_iff.mp h
          obtain ⟨⟨u, s₁⟩, hput, hnext⟩ := Option.bind_eq_some_iff.mp h₁
          rw [List.drop_succ_cons, List.drop_left] at hnext
          have hwf := npfTakeField_wellFormed (directive_width_nonneg d) htake
          have hrange := inRange_of_npfPutField pc hput
          rw [NpfField.npfPutField_eq pc hwf hrange] at hput
          have hshorter : rest'.length < n := by
            rw [← hlen, List.length_cons, List.length_append]
            omega
          obtain ⟨out, hprints, hput'⟩ := ih rest'.length hshorter hnext rfl
          refine ⟨field.layout.bytes ++ out, .field hfits htake hrange hprints, ?_⟩
          rw [putAll_append]
          exact Option.bind_eq_some_iff.mpr ⟨(u, s₁), hput, hput'⟩

/-- Putting bytes into a context that counts from zero. -/
lemma putAll_start_iff (ctx : σ) (out : List UInt8) (s' : NpfCntPutcCtx σ) :
    putAll pc out ⟨ctx, 0⟩ = some ((), s') ↔
      out.length ≤ intMax ∧ s' = ⟨out.foldl (fun c b => pc b c) ctx, out.length⟩ := by
  rw [putAll_apply pc out (Nat.zero_le intMax), Nat.zero_add]
  split
  · next hlen => simp [hlen, eq_comm]
  · next hlen => simp [hlen]

/-- What `npf_vpprintf` has put is what the format means. -/
lemma prints_of_npfVpprintf {ctx : σ} {format : List UInt8}
    (h : npfVpprintf pc ctx format args = some s') : ∃ out, FormatPrints format args out ∧
      out.length ≤ intMax ∧ s' = ⟨out.foldl (fun c b => pc b c) ctx, out.length⟩ := by
  obtain ⟨out, hprints, hall⟩ := prints_of_npfLoop pc h
  exact ⟨out, hprints, (putAll_start_iff pc ctx out s').mp hall⟩

/-- What the format means is put by `npf_vpprintf`. -/
lemma npfVpprintf_of_prints (ctx : σ) {format out : List UInt8} (h : FormatPrints format args out)
    (hlen : out.length ≤ intMax) : npfVpprintf pc ctx format args =
      some ⟨out.foldl (fun c b => pc b c) ctx, out.length⟩ :=
  npfLoop_of_prints pc h ((putAll_start_iff pc ctx out _).mpr ⟨hlen, rfl⟩)

/-- `npf_vpprintf` puts the bytes that the format means into the context, in turn, and returns their
number, whatever `pc` and the context are.  It does nothing else that is defined. -/
theorem npfVpprintf_iff (ctx : σ) (format : List UInt8) (args : List VaArg)
    (s' : NpfCntPutcCtx σ) :
    npfVpprintf pc ctx format args = some s' ↔ ∃ out, FormatPrints format args out ∧
      out.length ≤ intMax ∧ s' = ⟨out.foldl (fun c b => pc b c) ctx, out.length⟩ := by
  constructor
  · exact prints_of_npfVpprintf pc
  · rintro ⟨out, hprints, hlen, rfl⟩
    exact npfVpprintf_of_prints pc ctx hprints hlen

end Soaplin
