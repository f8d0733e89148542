import JavaObjC.Proofs.Numerals.Digits
import Mathlib.Algebra.Field.Rat

/-!
# Constants of C

A constant of C without a point and an exponent is an integer of the first type
that holds it, where only one that is not decimal can be unsigned. Any other one
is floating, and the letter at its end says of which type. Constants that are
marked as unsigned and floating ones that are hexadecimal do not occur here.
-/

namespace JavaObjC

/-- The types of constants. -/
inductive ConstantKind where
  | int | unsignedInt | long | unsignedLong | longLong | unsignedLongLong | float | double
  deriving DecidableEq

/-- A constant: its type and its value. -/
structure Constant where
  kind : ConstantKind
  value : ℚ
  deriving DecidableEq

/-- The value of a decimal number with some places behind its point and an exponent. -/
def decimalValue (whole fraction places : Nat) (exponent : Int) : ℚ :=
  (whole + fraction / 10 ^ places) * 10 ^ exponent

namespace Constant

/-- Whether a text begins with one of two letters. -/
def isExponentLetter (b : UInt8) : Bool := b == Text.byte 'e' || b == Text.byte 'E'

/-- The type of an integer constant, by the letters at its end. -/
def integerKind? (isDecimal : Bool) (suffix : Text) (n : Nat) : Option ConstantKind :=
  if suffix = [] then
    if n < 2 ^ 31 then some .int
    else if !isDecimal && n < 2 ^ 32 then some .unsignedInt
    else if n < 2 ^ 63 then some .long
    else if !isDecimal && n < 2 ^ 64 then some .unsignedLong
    else none
  else if suffix = "LL" then
    if n < 2 ^ 63 then some .longLong
    else if !isDecimal && n < 2 ^ 64 then some .unsignedLongLong
    else none
  else none

/-- The type of a floating constant, by the letter at its end. -/
def floatingKind? (suffix : Text) : Option ConstantKind :=
  if suffix = [] then some .double
  else if suffix = "f" ∨ suffix = "F" then some .float
  else none

/-- An integer constant, from its digits on. -/
def integer? (radix : Nat) (t : Text) : Option Constant := do
  let digits := t.takeWhile fun b => (Text.digitIn? radix b).isSome
  guard (!digits.isEmpty)
  let n ← Text.numberIn? radix digits
  let kind ← integerKind? (radix == 10) (t.dropWhile fun b => (Text.digitIn? radix b).isSome) n
  return ⟨kind, n⟩

/-- The exponent at the front of a text, and the text after it. -/
def exponent? (t : Text) : Option (Int × Text) :=
  match t with
  | b :: rest =>
    if isExponentLetter b then do
      let (isNegative, rest) := Text.signed rest
      let digits := rest.takeWhile Text.isDigit
      guard (!digits.isEmpty)
      let n ← Text.numberIn? 10 digits
      return (if isNegative then -n else n, rest.dropWhile Text.isDigit)
    else some (0, t)
  | [] => some (0, [])

/-- A floating constant with some digits before its point and some behind it. -/
def floating? (whole fraction rest : Text) : Option Constant := do
  guard (!whole.isEmpty || !fraction.isEmpty)
  let wholeNumber ← Text.numberIn? 10 whole
  let fractionNumber ← Text.numberIn? 10 fraction
  let (exponent, suffix) ← exponent? rest
  let kind ← floatingKind? suffix
  return ⟨kind, decimalValue wholeNumber fractionNumber fraction.length exponent⟩

/-- A constant without the mark of a radix. A leading zero marks octal digits, but only of
integers. -/
def decimal? (t : Text) : Option Constant :=
  let whole := t.takeWhile Text.isDigit
  match t.dropWhile Text.isDigit with
  | 46 :: rest => floating? whole (rest.takeWhile Text.isDigit) (rest.dropWhile Text.isDigit)
  | rest =>
    if Lexeme.frontIs isExponentLetter rest then floating? whole [] rest
    else integer? (if t.head? = some 48 then 8 else 10) t

/-- The constant that a text is. -/
def read? (t : Text) : Option Constant :=
  match t with
  | 48 :: b :: rest =>
    if b = 120 ∨ b = 88 then integer? 16 rest
    else if b = 98 ∨ b = 66 then integer? 2 rest
    else decimal? t
  | _ => decimal? t

section Kinds

/-- A constant without letters is an `int` exactly if it is in the range of one. -/
theorem integerKind?_int_iff (isDecimal : Bool) (n : Nat) :
    integerKind? isDecimal [] n = some .int ↔ n < 2 ^ 31 := by
  rw [integerKind?, if_pos rfl]
  split_ifs <;> simp_all

/-- A constant with two marks is signed exactly if it is in the range of a signed one. -/
theorem integerKind?_longLong_iff (isDecimal : Bool) (n : Nat) :
    integerKind? isDecimal "LL" n = some .longLong ↔ n < 2 ^ 63 := by
  rw [integerKind?, if_neg (by decide), if_pos rfl]
  split_ifs <;> simp_all

theorem integerKind?_ne_floating (isDecimal : Bool) (suffix : Text) (n : Nat) :
    integerKind? isDecimal suffix n ≠ some .float ∧
      integerKind? isDecimal suffix n ≠ some .double := by
  unfold integerKind?
  split_ifs <;> simp

/-- An integer constant is not floating. -/
theorem integer?_kind {radix : Nat} {t : Text} {c : Constant} (h : integer? radix t = some c) :
    c.kind ≠ .float ∧ c.kind ≠ .double := by
  simp only [integer?, Option.bind_eq_bind, Option.bind_eq_some_iff, Option.pure_def,
    Option.some_inj] at h
  obtain ⟨_, -, n, -, kind, hkind, rfl⟩ := h
  obtain ⟨hfloat, hdouble⟩ := integerKind?_ne_floating _ _ n
  rw [hkind] at hfloat hdouble
  exact ⟨fun h => hfloat (congrArg some h), fun h => hdouble (congrArg some h)⟩

end Kinds

section Reading

variable {rest : Text}

/-- A sign is read before digits. -/
theorem signed_digits (sign : Option (OneOf ['+', '-'])) (run : DigitRun 10) :
    Text.signed (OneOf.text sign ++ (run.digits ++ rest)) =
      (OneOf.text sign == [Text.byte '-'], run.digits ++ rest) := by
  cases sign with
  | none =>
    have hfirst := isDigit_of_digit (Nat.le_refl 10) run.first.isDigit
    have hminus : run.first.byte ≠ 45 := fun heq => absurd (heq ▸ hfirst) (by decide)
    have hplus : run.first.byte ≠ 43 := fun heq => absurd (heq ▸ hfirst) (by decide)
    rw [OneOf.text_none, List.nil_append]
    unfold Text.signed
    split
    · next heq => exact absurd (List.cons_eq_cons.1 heq).1 hminus
    · next heq => exact absurd (List.cons_eq_cons.1 heq).1 hplus
    · rfl
  | some l =>
    have hsign : l.byte = 43 ∨ l.byte = 45 :=
      l.holds (p := fun b => b = 43 ∨ b = 45) (by decide)
    rw [OneOf.text_some]
    rcases hsign with hsign | hsign <;> rw [hsign] <;> rfl

/-- An exponent is read with its sign up to what follows it. -/
theorem exponent?_digits (e : Option Exponent) (hdigit : Lexeme.frontIs Text.isDigit rest = false)
    (hletter : Lexeme.frontIs isExponentLetter rest = false) :
    exponent? (Exponent.digits e ++ rest) = some (Exponent.value e, rest) := by
  cases e with
  | none =>
    cases rest with
    | nil => rfl
    | cons b rest => exact if_neg (Bool.not_eq_true _ ▸ hletter)
  | some e =>
    have hstart : isExponentLetter e.letter.byte = true :=
      e.letter.holds (p := fun b => isExponentLetter b = true) (by decide)
    obtain ⟨htake, hdrop⟩ := e.run.span_digits (fun _ => isDigit_of_digit (Nat.le_refl 10)) hdigit
    have htext : Exponent.digits (some e) ++ rest =
        e.letter.byte :: (OneOf.text e.sign ++ (e.run.digits ++ rest)) := by
      simp [Exponent.digits]
    have hnonempty : e.run.digits.isEmpty = false := rfl
    rw [htext, exponent?, if_pos hstart, signed_digits]
    dsimp only
    rw [htake, hdrop, hnonempty, e.run.numberIn?_digits]
    simp [Exponent.value]

/-- An integer is read up to the letters at its end. -/
theorem integer?_digits {radix : Nat} (run : DigitRun radix)
    (hrest : Lexeme.frontIs (fun b => (Text.digitIn? radix b).isSome) rest = false) :
    integer? radix (run.digits ++ rest) =
      (integerKind? (radix == 10) rest run.number).map fun kind => ⟨kind, run.number⟩ := by
  obtain ⟨htake, hdrop⟩ := run.span_digits (fun _ h => h) hrest
  have hnonempty : run.digits.isEmpty = false := rfl
  rw [integer?, htake, hdrop, hnonempty, run.numberIn?_digits]
  cases hkind : integerKind? (radix == 10) rest run.number <;> simp [hkind]

/-- A number without the mark of a radix. -/
theorem read?_eq_decimal? {t : Text} (h : hasRadixMark t = false) : read? t = decimal? t := by
  unfold read?
  split
  · next b rest =>
    obtain ⟨hhex, hbinary⟩ := ne_radixMark h
    rw [if_neg hhex, if_neg hbinary]
  · rfl

/-- A number of digits and letters is an integer unless an exponent follows the digits. -/
theorem decimal?_digits {whole : Text} (hwhole : ∀ b ∈ whole, Text.isDigit b = true)
    (hdigit : Lexeme.frontIs Text.isDigit rest = false)
    (hpoint : Lexeme.frontIs (· == 46) rest = false) :
    decimal? (whole ++ rest) =
      if Lexeme.frontIs isExponentLetter rest then floating? whole [] rest
      else integer? (if (whole ++ rest).head? = some 48 then 8 else 10) (whole ++ rest) := by
  obtain ⟨htake, hdrop⟩ := span_append hwhole hdigit
  simp only [decimal?, htake, hdrop]
  split
  · cases hpoint
  · rfl

/-- A number with a point is floating. -/
theorem decimal?_point {whole fraction : Text} (hwhole : ∀ b ∈ whole, Text.isDigit b = true)
    (hfraction : ∀ b ∈ fraction, Text.isDigit b = true)
    (hdigit : Lexeme.frontIs Text.isDigit rest = false) :
    decimal? (whole ++ Text.byte '.' :: (fraction ++ rest)) = floating? whole fraction rest := by
  have hend : Lexeme.frontIs Text.isDigit (Text.byte '.' :: (fraction ++ rest)) = false := rfl
  obtain ⟨htake, hdrop⟩ := span_append hwhole hend
  obtain ⟨htake', hdrop'⟩ := span_append hfraction hdigit
  simp only [decimal?, htake, hdrop]
  change floating? whole _ _ = _
  rw [htake', hdrop']

/-- A floating constant is read up to the letter at its end. -/
theorem floating?_eq {whole fraction : Text} {w f : Nat} (hnonempty : whole ≠ [] ∨ fraction ≠ [])
    (hwhole : Text.numberIn? 10 whole = some w) (hfraction : Text.numberIn? 10 fraction = some f)
    (e : Option Exponent) (hdigit : Lexeme.frontIs Text.isDigit rest = false)
    (hletter : Lexeme.frontIs isExponentLetter rest = false) :
    floating? whole fraction (Exponent.digits e ++ rest) = (floatingKind? rest).map fun kind =>
      ⟨kind, decimalValue w f fraction.length (Exponent.value e)⟩ := by
  have hguard : (!whole.isEmpty || !fraction.isEmpty) = true := by simpa using hnonempty
  rw [floating?, hguard, hwhole, hfraction, exponent?_digits e hdigit hletter]
  cases hkind : floatingKind? rest <;> simp [hkind]

end Reading

end Constant

end JavaObjC
