import JavaObjC.Lowering.Access
import JavaObjC.Proofs.Numerals.Constants
import JavaObjC.Proofs.Numerals.Lexing

/-!
# Numbers as constants

A number is written for C without its underscores. The mark of a long integer is
doubled, and the mark of a `double` is left out. What C reads is the same number
of the same type for integers that are not negative and for floating numbers that
have a point or an exponent. An integer whose sign bit is set is unsigned or wider
in C, and a floating number that only a letter marks is an integer or no constant.
-/

namespace JavaObjC

open Lexeme Lowering

namespace Numeral

/-- Whether a floating number is marked as a `float`. -/
def isSingle (suffix : Option (OneOf ['f', 'F', 'd', 'D'])) : Bool :=
  OneOf.text suffix == [Text.byte 'f'] || OneOf.text suffix == [Text.byte 'F']

/-- The type of a number. -/
def type : Numeral → JavaType
  | integer _ none => .int
  | integer _ (some _) => .long
  | floating _ _ suffix _ => if isSingle suffix then .float else .double

/-- What C should read: a constant of the same type and of the same value, where the digits of an
integer are its bits. -/
def constant : Numeral → Constant
  | integer form none => ⟨.int, Width.int.signed form.number⟩
  | integer form (some _) => ⟨.longLong, Width.long.signed form.number⟩
  | floating mantissa exponent suffix _ =>
    ⟨if isSingle suffix then .float else .double,
      decimalValue mantissa.wholeNumber mantissa.fractionNumber mantissa.fractionDigits.length
        (Exponent.value exponent)⟩

/-- A number as it is written for C. -/
def rendered : Numeral → Text
  | integer form none => form.mark ++ form.digits
  | integer form (some _) => form.mark ++ form.digits ++ "LL"
  | floating mantissa exponent suffix _ =>
    mantissa.digits ++ (Exponent.digits exponent ++ if isSingle suffix then OneOf.text suffix else [])

/-- A number that C reads as another one: an integer with its sign bit set, and a floating number
without a point and an exponent. -/
def Lost : Numeral → Prop
  | integer form none => 2 ^ 31 ≤ form.number
  | integer form (some _) => 2 ^ 63 ≤ form.number
  | floating (.whole _) none _ _ => True
  | floating .. => False

end Numeral

section Separators

/-- Letters are no underscores. -/
theorem unseparated_letter {letters : List Char} (h : letters.all fun c => Text.byte c ≠ Text.byte '_')
    (l : Option (OneOf letters)) : unseparated (OneOf.text l) = OneOf.text l := by
  cases l with
  | none => rfl
  | some l =>
    refine unseparated_eq ?_
    rw [OneOf.text_some, List.forall_mem_singleton]
    exact l.holds (p := fun b => b ≠ Text.byte '_') h

/-- An exponent without separators is its digits. -/
theorem unseparated_exponent (e : Option Exponent) :
    unseparated (Exponent.text e) = Exponent.digits e := by
  cases e with
  | none => rfl
  | some e =>
    have hletter : unseparated [e.letter.byte] = [e.letter.byte] :=
      unseparated_letter (by decide) (some e.letter)
    have htext : Exponent.text (some e) =
        [e.letter.byte] ++ (OneOf.text e.sign ++ e.run.text) := rfl
    rw [htext, unseparated_append, unseparated_append, hletter, unseparated_letter (by decide),
      e.run.unseparated_text]
    rfl

/-- A mantissa without separators is its digits. -/
theorem unseparated_mantissa (m : Mantissa) : unseparated m.text = m.digits := by
  have hpoint : ∀ t : Text, unseparated (Text.byte '.' :: t) = Text.byte '.' :: unseparated t :=
    fun _ => rfl
  cases m with
  | whole run => exact run.unseparated_text
  | pointed run fraction? =>
    cases fraction? with
    | none =>
      rw [Mantissa.text, unseparated_append, run.unseparated_text]
      rfl
    | some digits =>
      rw [Mantissa.text, unseparated_append, run.unseparated_text, hpoint,
        digits.unseparated_text]
      rfl
  | fractional run =>
    rw [Mantissa.text, hpoint, run.unseparated_text]
    rfl

/-- An integer without separators is its mark and its digits. -/
theorem unseparated_form (form : IntegerForm) :
    unseparated (form.mark ++ form.runText) = form.mark ++ form.digits := by
  rw [unseparated_append]
  cases form with
  | decimal run _ => exact congrArg ([] ++ ·) run.unseparated_text
  | octal run _ _ => exact congrArg ([] ++ ·) run.unseparated_text
  | hexadecimal mark run =>
    have hmark : unseparated [Text.byte '0', mark.byte] = [Text.byte '0', mark.byte] :=
      congrArg (Text.byte '0' :: ·) (unseparated_letter (by decide) (some mark))
    exact congrArg₂ (· ++ ·) hmark run.unseparated_text
  | binary mark run =>
    have hmark : unseparated [Text.byte '0', mark.byte] = [Text.byte '0', mark.byte] :=
      congrArg (Text.byte '0' :: ·) (unseparated_letter (by decide) (some mark))
    exact congrArg₂ (· ++ ·) hmark run.unseparated_text

/-- Without underscores the digits, the point and the letters of a number are left. -/
theorem unseparated_numeral (n : Numeral) : unseparated n.text = n.digits := by
  cases n with
  | integer form suffix =>
    rw [Numeral.text, unseparated_append, unseparated_form, unseparated_letter (by decide)]
    rfl
  | floating mantissa exponent suffix _ =>
    rw [Numeral.text, unseparated_append, unseparated_append, unseparated_mantissa,
      unseparated_exponent, unseparated_letter (by decide)]
    rfl

end Separators

section Literals

variable {t : Text}

/-- The last byte of a number is a byte of its last digits. -/
theorem getLast?_digits {radix : Nat} (front : Text) (run : DigitRun radix) :
    ∃ b, (front ++ run.digits).getLast? = some b ∧ (Text.digitIn? radix b).isSome = true := by
  have hlast : (front ++ run.digits).getLast? = run.digits.getLast? :=
    List.getLast?_append_of_ne_nil front (List.cons_ne_nil _ _)
  have hsome : run.digits.getLast? = some (run.digits.getLast (List.cons_ne_nil _ _)) :=
    List.getLast?_eq_some_getLast _
  exact ⟨_, hlast.trans hsome, run.mem_digits (List.getLast_mem _)⟩

/-- The digits of an integer do not end with the mark of a long one. -/
theorem getLast?_form (form : IntegerForm) :
    ∃ b, (form.mark ++ form.digits).getLast? = some b ∧ b ≠ Text.byte 'l' ∧ b ≠ Text.byte 'L' := by
  have hrun : ∀ {radix : Nat} (front : Text) (run : DigitRun radix), radix ≤ 16 →
      ∃ b, (front ++ run.digits).getLast? = some b ∧ b ≠ Text.byte 'l' ∧ b ≠ Text.byte 'L' := by
    intro radix front run hradix
    obtain ⟨b, hlast, hb⟩ := getLast?_digits front run
    have hdigit := isHexDigit_of_digit hradix hb
    exact ⟨b, hlast, fun heq => absurd (heq ▸ hdigit) (by decide),
      fun heq => absurd (heq ▸ hdigit) (by decide)⟩
  cases form with
  | decimal run _ => exact hrun [] run (by decide)
  | octal run _ _ => exact hrun [] run (by decide)
  | hexadecimal mark run => exact hrun [Text.byte '0', mark.byte] run (Nat.le_refl 16)
  | binary mark run => exact hrun [Text.byte '0', mark.byte] run (by decide)

/-- An integer is written without underscores, and with its mark doubled. -/
theorem integerLiteral_text (form : IntegerForm) (suffix : Option (OneOf ['l', 'L'])) :
    integerLiteral (Numeral.integer form suffix).text =
      .typed (Numeral.integer form suffix).rendered (Numeral.integer form suffix).type := by
  have hdigits : Text.replaceByte (Text.byte '_') [] (Numeral.integer form suffix).text =
      form.mark ++ form.digits ++ OneOf.text suffix := unseparated_numeral _
  have hmarked : ∀ t : Text, (Text.endsWith t "l" || Text.endsWith t "L") =
      (t.getLast? == some (Text.byte 'l') || t.getLast? == some (Text.byte 'L')) :=
    fun t => congrArg₂ _ (endsWith_byte t _) (endsWith_byte t _)
  rw [integerLiteral, hdigits]
  simp only [hmarked]
  cases suffix with
  | none =>
    obtain ⟨b, hlast, hl, hL⟩ := getLast?_form form
    rw [OneOf.text_none, List.append_nil, hlast, if_neg (by simp [hl, hL])]
    rfl
  | some l =>
    have hl : l.byte = Text.byte 'l' ∨ l.byte = Text.byte 'L' :=
      l.holds (p := fun b => b = Text.byte 'l' ∨ b = Text.byte 'L') (by decide)
    rw [OneOf.text_some, List.getLast?_append_of_ne_nil _ (List.cons_ne_nil _ _),
      List.getLast?_singleton, if_pos (by simpa using hl), List.dropLast_concat]
    rfl

/-- The digits of a floating number end with a digit or with a point. -/
theorem getLast?_floating (mantissa : Mantissa) (exponent : Option Exponent) :
    ∃ b, (mantissa.digits ++ Exponent.digits exponent).getLast? = some b ∧
      ¬ (b = Text.byte 'f' ∨ b = Text.byte 'F') ∧ ¬ (b = Text.byte 'd' ∨ b = Text.byte 'D') := by
  have hrun : ∀ (front : Text) (run : DigitRun 10), ∃ b, (front ++ run.digits).getLast? = some b ∧
      ¬ (b = Text.byte 'f' ∨ b = Text.byte 'F') ∧ ¬ (b = Text.byte 'd' ∨ b = Text.byte 'D') := by
    intro front run
    obtain ⟨b, hlast, hb⟩ := getLast?_digits front run
    have hdigit := isDigit_of_digit (Nat.le_refl 10) hb
    refine ⟨b, hlast, ?_, ?_⟩ <;> rintro (rfl | rfl) <;> exact absurd hdigit (by decide)
  cases exponent with
  | some e =>
    have hdigits : mantissa.digits ++ Exponent.digits (some e) =
        mantissa.digits ++ e.letter.byte :: OneOf.text e.sign ++ e.run.digits := by
      simp [Exponent.digits]
    rw [hdigits]
    exact hrun _ e.run
  | none =>
    rw [Exponent.digits, List.append_nil]
    cases mantissa with
    | whole run => exact hrun [] run
    | pointed run fraction? =>
      cases fraction? with
      | none => exact ⟨Text.byte '.', List.getLast?_concat, by decide⟩
      | some digits =>
        have htext : (Mantissa.pointed run (some digits)).digits =
            run.digits ++ [Text.byte '.'] ++ digits.digits := by
          simp [Mantissa.digits, Mantissa.wholeDigits, Mantissa.fractionDigits]
        rw [htext]
        exact hrun _ digits
    | fractional run => exact hrun [Text.byte '.'] run

/-- A floating number is written without underscores and without the mark of a `double`. -/
theorem floatLiteral_text {mantissa : Mantissa} {exponent : Option Exponent}
    {suffix : Option (OneOf ['f', 'F', 'd', 'D'])}
    (hmarked : ∀ run, mantissa = .whole run → exponent.isSome ∨ suffix.isSome) :
    floatLiteral (Numeral.floating mantissa exponent suffix hmarked).text =
      pure (.typed (Numeral.floating mantissa exponent suffix hmarked).rendered
        (Numeral.floating mantissa exponent suffix hmarked).type) := by
  have hdigits : Text.replaceByte (Text.byte '_') []
      (Numeral.floating mantissa exponent suffix hmarked).text =
      mantissa.digits ++ Exponent.digits exponent ++ OneOf.text suffix := by
    rw [List.append_assoc]
    exact unseparated_numeral _
  have hrequire : ∀ b : UInt8, Lower.require (some b) = pure b := fun _ => rfl
  rw [floatLiteral, hdigits]
  cases suffix with
  | none =>
    obtain ⟨b, hlast, hf, hd⟩ := getLast?_floating mantissa exponent
    have hsingle : Numeral.isSingle none = false := rfl
    simp only [OneOf.text_none, List.append_nil, hlast, hrequire, pure_bind, if_neg hf, if_neg hd]
    rw [Numeral.rendered, Numeral.type, hsingle]
    simp
  | some l =>
    have hl : (l.byte = Text.byte 'f' ∨ l.byte = Text.byte 'F') ∨
        (l.byte = Text.byte 'd' ∨ l.byte = Text.byte 'D') :=
      l.holds (p := fun b => (b = Text.byte 'f' ∨ b = Text.byte 'F') ∨
        (b = Text.byte 'd' ∨ b = Text.byte 'D')) (by decide)
    simp only [OneOf.text_some, List.getLast?_concat, List.dropLast_concat, hrequire, pure_bind]
    rcases hl with hf | hd
    · have hsingle : Numeral.isSingle (some l) = true := by
        simpa [Numeral.isSingle] using hf
      rw [if_pos hf, Numeral.rendered, Numeral.type, hsingle, List.append_assoc]
      rfl
    · have hf : ¬ (l.byte = Text.byte 'f' ∨ l.byte = Text.byte 'F') := by
        rcases hd with hd | hd <;> rw [hd] <;> decide
      have hsingle : Numeral.isSingle (some l) = false := by
        simpa [Numeral.isSingle] using hf
      rw [if_neg hf, if_pos hd, Numeral.rendered, Numeral.type, hsingle]
      simp

/-- A number is written without underscores, and with the marks of C. -/
theorem literal_numeral (n : Numeral) (span : Span) :
    literal (Node.ofToken .literal ⟨n.tokenKind, span, n.text⟩) =
      pure (.typed n.rendered n.type) := by
  cases n with
  | integer form suffix => exact congrArg pure (integerLiteral_text form suffix)
  | floating mantissa exponent suffix hmarked => exact floatLiteral_text hmarked

end Literals

section Reading

open Constant

/-- The digits of a run mark no radix, whatever follows that marks none. -/
theorem hasRadixMark_digits {radix : Nat} (run : DigitRun radix) (hradix : radix ≤ 10) {rest : Text}
    (hrest : frontIs isRadixMark rest = false) : hasRadixMark (run.digits ++ rest) = false := by
  refine hasRadixMark_cons (fun b hb => isDigitPart_of_digit hradix b (.inl ?_)) hrest
  exact run.mem_digits (List.mem_cons_of_mem _ hb)

/-- The digits of an integer are read in its radix. -/
theorem read?_form (form : IntegerForm) {suffix : Text} (hsuffix : suffix = [] ∨ suffix = "LL") :
    ∃ isDecimal, read? (form.mark ++ form.digits ++ suffix) =
      (integerKind? isDecimal suffix form.number).map fun kind => ⟨kind, form.number⟩ := by
  have hnone : ∀ test : UInt8 → Bool, test (Text.byte 'L') = false → frontIs test suffix = false := by
    intro test htest
    rcases hsuffix with rfl | rfl
    · rfl
    · exact htest
  -- Without the mark of a radix only the first digit tells octal digits from decimal ones.
  have hplain : ∀ {radix : Nat} (run : DigitRun radix), radix ≤ 10 →
      read? (run.digits ++ suffix) =
        integer? (if run.first.byte = 48 then 8 else 10) (run.digits ++ suffix) := by
    intro radix run hradix
    have hdigits : ∀ b ∈ run.digits, Text.isDigit b = true :=
      fun b hb => isDigit_of_digit hradix (run.mem_digits hb)
    rw [read?_eq_decimal? (hasRadixMark_digits run hradix (hnone _ (by decide))),
      decimal?_digits hdigits (hnone _ (by decide)) (hnone _ (by decide)), hnone _ (by decide),
      if_neg Bool.false_ne_true]
    have hhead : (run.digits ++ suffix).head? = some run.first.byte := rfl
    simp only [hhead, Option.some_inj]
  cases form with
  | decimal run hzero =>
    have hread := hplain run (Nat.le_refl 10)
    by_cases hfirst : run.first.byte = 48
    · let zero : DigitRun 8 := ⟨⟨48, by decide⟩, []⟩
      have hdigits : run.digits = zero.digits := by
        rw [DigitRun.digits, hzero hfirst, hfirst]
        rfl
      have hnumber : run.number = zero.number := by
        have hspelled := run.numberIn?_digits
        rw [hdigits] at hspelled
        exact (Option.some.inj hspelled).symm
      rw [if_pos hfirst, hdigits, integer?_digits zero (hnone _ (by decide)), ← hnumber,
        ← hdigits] at hread
      exact ⟨false, hread⟩
    · rw [if_neg hfirst, integer?_digits run (hnone _ (by decide))] at hread
      exact ⟨true, hread⟩
  | octal run hzero _ =>
    have hread := hplain run (by decide)
    have hfirst : run.first.byte = 48 := hzero
    rw [if_pos hfirst, integer?_digits run (hnone _ (by decide))] at hread
    exact ⟨false, hread⟩
  | hexadecimal mark run =>
    exact ⟨false, (if_pos mark.hexMark).trans (integer?_digits run (hnone _ (by decide)))⟩
  | binary mark run =>
    obtain ⟨hhex, hbinary⟩ := mark.binaryMark
    have hread : read? ([Text.byte '0', mark.byte] ++ run.digits ++ suffix) =
        integer? 2 (run.digits ++ suffix) := (if_neg hhex).trans (if_pos hbinary)
    exact ⟨false, hread.trans (integer?_digits run (hnone _ (by decide)))⟩

/-- The digits of a mantissa before and behind its point, and the numbers they spell. -/
theorem mantissa_digits (m : Mantissa) :
    (∀ b ∈ m.wholeDigits, Text.isDigit b = true) ∧
      (∀ b ∈ m.fractionDigits, Text.isDigit b = true) ∧
      Text.numberIn? 10 m.wholeDigits = some m.wholeNumber ∧
      Text.numberIn? 10 m.fractionDigits = some m.fractionNumber := by
  have hdigits : ∀ run : DigitRun 10, ∀ b ∈ run.digits, Text.isDigit b = true :=
    fun run b hb => isDigit_of_digit (Nat.le_refl 10) (run.mem_digits hb)
  cases m with
  | whole run => exact ⟨hdigits run, List.forall_mem_nil _, run.numberIn?_digits, rfl⟩
  | pointed run fraction? =>
    cases fraction? with
    | none => exact ⟨hdigits run, List.forall_mem_nil _, run.numberIn?_digits, rfl⟩
    | some digits =>
      exact ⟨hdigits run, hdigits digits, run.numberIn?_digits, digits.numberIn?_digits⟩
  | fractional run => exact ⟨List.forall_mem_nil _, hdigits run, rfl, run.numberIn?_digits⟩

/-- An exponent begins with its letter, so it does not begin with what is none. -/
theorem frontIs_exponentDigits {test : UInt8 → Bool} {rest : Text}
    (h : ['e', 'E'].all fun c => test (Text.byte c) = false) (e : Option Exponent)
    (hrest : frontIs test rest = false) : frontIs test (Exponent.digits e ++ rest) = false := by
  cases e with
  | none => exact hrest
  | some e => exact e.letter.holds (p := fun b => test b = false) h

/-- A floating number with a point or an exponent is read as it is. -/
theorem read?_floating (m : Mantissa) (e : Option Exponent) {suffix : Text}
    (hsuffix : ∀ test : UInt8 → Bool, test (Text.byte 'f') = false → test (Text.byte 'F') = false →
      frontIs test suffix = false)
    (hform : ∀ run, m = .whole run → e.isSome) :
    read? (m.digits ++ (Exponent.digits e ++ suffix)) = (floatingKind? suffix).map fun kind =>
      ⟨kind, decimalValue m.wholeNumber m.fractionNumber m.fractionDigits.length
        (Exponent.value e)⟩ := by
  obtain ⟨hwhole, hfraction, hwholeNumber, hfractionNumber⟩ := mantissa_digits m
  have hdigit : frontIs Text.isDigit (Exponent.digits e ++ suffix) = false :=
    frontIs_exponentDigits (by decide) e (hsuffix _ (by decide) (by decide))
  have hvalue := fun hnonempty : m.wholeDigits ≠ [] ∨ m.fractionDigits ≠ [] =>
    floating?_eq hnonempty hwholeNumber hfractionNumber e (hsuffix _ (by decide) (by decide))
      (hsuffix _ (by decide) (by decide))
  have hpointed : m.digits = m.wholeDigits ++ Text.byte '.' :: m.fractionDigits →
      hasRadixMark (m.wholeDigits ++ Text.byte '.' ::
        (m.fractionDigits ++ (Exponent.digits e ++ suffix))) = false →
      m.wholeDigits ≠ [] ∨ m.fractionDigits ≠ [] →
      read? (m.digits ++ (Exponent.digits e ++ suffix)) = (floatingKind? suffix).map fun kind =>
        ⟨kind, decimalValue m.wholeNumber m.fractionNumber m.fractionDigits.length
          (Exponent.value e)⟩ := by
    intro hdigits hmark hnonempty
    rw [hdigits, List.append_assoc, List.cons_append, read?_eq_decimal? hmark,
      decimal?_point hwhole hfraction hdigit, hvalue hnonempty]
  cases m with
  | whole run =>
    obtain ⟨e, rfl⟩ := Option.isSome_iff_exists.1 (hform run rfl)
    have hpoint : frontIs (· == 46) (Exponent.digits (some e) ++ suffix) = false :=
      frontIs_exponentDigits (by decide) (some e) (hsuffix _ (by decide) (by decide))
    have hmark : frontIs isRadixMark (Exponent.digits (some e) ++ suffix) = false :=
      frontIs_exponentDigits (by decide) (some e) (hsuffix _ (by decide) (by decide))
    have hletter : frontIs isExponentLetter (Exponent.digits (some e) ++ suffix) = true :=
      e.letter.holds (p := fun b => isExponentLetter b = true) (by decide)
    have hdecimal := decimal?_digits hwhole hdigit hpoint
    rw [hletter, if_pos rfl] at hdecimal
    exact (read?_eq_decimal? (hasRadixMark_digits run (Nat.le_refl 10) hmark)).trans
      (hdecimal.trans (hvalue (.inl (List.cons_ne_nil _ _))))
  | pointed run fraction? =>
    exact hpointed rfl (hasRadixMark_digits run (Nat.le_refl 10) rfl)
      (.inl (List.cons_ne_nil _ _))
  | fractional run => exact hpointed rfl rfl (.inr (List.cons_ne_nil _ _))

/-- Digits without a point and an exponent are no floating constant, whatever letter follows. -/
theorem read?_whole (run : DigitRun 10) {suffix : Text}
    (hsuffix : ∀ test : UInt8 → Bool, test (Text.byte 'f') = false → test (Text.byte 'F') = false →
      frontIs test suffix = false) {c : Constant} (h : read? (run.digits ++ suffix) = some c) :
    c.kind ≠ .float ∧ c.kind ≠ .double := by
  have hdigits : ∀ b ∈ run.digits, Text.isDigit b = true :=
    fun b hb => isDigit_of_digit (Nat.le_refl 10) (run.mem_digits hb)
  have hmark := hasRadixMark_digits run (Nat.le_refl 10) (hsuffix _ (by decide) (by decide))
  rw [read?_eq_decimal? hmark, decimal?_digits hdigits (hsuffix _ (by decide) (by decide))
    (hsuffix _ (by decide) (by decide)), hsuffix _ (by decide) (by decide),
    if_neg Bool.false_ne_true] at h
  exact integer?_kind h

/-- The bits of a number in the range of its width are the number itself. -/
theorem signed_eq {w : Width} {n : Nat} (h : n < 2 ^ (w.bits - 1)) : w.signed n = n := by
  refine Width.holds_iff.2 ?_
  cases w <;> simp only [Width.bits] at * <;> omega

/-- What C reads for an integer is the number of its type, exactly if the sign bit is not set. -/
theorem read?_integer_iff (form : IntegerForm) (suffix : Option (OneOf ['l', 'L'])) :
    read? (Numeral.integer form suffix).rendered = some (Numeral.integer form suffix).constant ↔
      ¬ (Numeral.integer form suffix).Lost := by
  have hkind : ∀ (w : Width) (read : Option ConstantKind) (kind : ConstantKind),
      (read = some kind → form.number < 2 ^ (w.bits - 1)) →
      (read.map (fun kind => (⟨kind, form.number⟩ : Constant)) =
        some ⟨kind, w.signed form.number⟩ ↔ read = some kind) := by
    intro w read kind hrange
    constructor
    · intro h
      obtain ⟨kind', rfl, hconstant⟩ := Option.map_eq_some_iff.1 h
      exact congrArg some (congrArg Constant.kind hconstant)
    · intro h
      rw [signed_eq (hrange h), h]
      rfl
  cases suffix with
  | none =>
    obtain ⟨isDecimal, hread⟩ := read?_form form (.inl rfl)
    have hrange := integerKind?_int_iff isDecimal form.number
    rw [List.append_nil] at hread
    rw [Numeral.rendered, hread, Numeral.constant, Numeral.Lost, Nat.not_le, ← hrange]
    exact hkind .int _ _ hrange.1
  | some l =>
    obtain ⟨isDecimal, hread⟩ := read?_form form (.inr rfl)
    have hrange := integerKind?_longLong_iff isDecimal form.number
    rw [Numeral.rendered, hread, Numeral.constant, Numeral.Lost, Nat.not_le, ← hrange]
    exact hkind .long _ _ hrange.1

/-- What C reads for a floating number is the number of its type, exactly if it has a point or an
exponent. -/
theorem read?_floating_iff {m : Mantissa} {e : Option Exponent}
    {suffix : Option (OneOf ['f', 'F', 'd', 'D'])}
    (hmarked : ∀ run, m = .whole run → e.isSome ∨ suffix.isSome) :
    read? (Numeral.floating m e suffix hmarked).rendered =
      some (Numeral.floating m e suffix hmarked).constant ↔
      ¬ (Numeral.floating m e suffix hmarked).Lost := by
  -- The mark that is written, and the type it stands for.
  obtain ⟨mark, hmark, hkind, hfront⟩ : ∃ mark : Text,
      (if Numeral.isSingle suffix then OneOf.text suffix else []) = mark ∧
      floatingKind? mark = some (if Numeral.isSingle suffix then .float else .double) ∧
      ∀ test : UInt8 → Bool, test (Text.byte 'f') = false → test (Text.byte 'F') = false →
        frontIs test mark = false := by
    cases hsingle : Numeral.isSingle suffix with
    | false => exact ⟨[], rfl, rfl, fun _ _ _ => rfl⟩
    | true =>
      rw [Numeral.isSingle, Bool.or_eq_true_iff, beq_iff_eq, beq_iff_eq] at hsingle
      refine ⟨_, rfl, ?_⟩
      rcases hsingle with hsingle | hsingle <;> rw [if_pos rfl, hsingle]
      · exact ⟨rfl, fun _ hf _ => hf⟩
      · exact ⟨rfl, fun _ _ hF => hF⟩
  rw [Numeral.rendered, hmark, Numeral.constant]
  by_cases hform : ∀ run, m = .whole run → e.isSome
  · have hkept : ¬ (Numeral.floating m e suffix hmarked).Lost := by
      cases m with
      | whole run =>
        obtain ⟨e, rfl⟩ := Option.isSome_iff_exists.1 (hform run rfl)
        exact id
      | pointed run fraction? => exact id
      | fractional run => exact id
    rw [read?_floating m e hfront hform, hkind]
    exact iff_of_true rfl hkept
  · obtain ⟨run, hwhole⟩ := not_forall.1 hform
    obtain ⟨rfl, hnone⟩ := Classical.not_imp.1 hwhole
    obtain rfl := Option.not_isSome_iff_eq_none.1 hnone
    refine iff_of_false (fun hread => ?_) (not_not.2 trivial)
    obtain ⟨hfloat, hdouble⟩ := read?_whole run hfront hread
    dsimp only at hfloat hdouble
    split at hfloat
    · exact hfloat rfl
    · next hsingle => exact hdouble (if_neg hsingle)

end Reading

/-- Numbers as tokens and as constants. Followed by a delimiter, a number is read as one token of its
kind exactly if no exponent and no letter follows a point without digits behind it. As a literal it
is generated with its type, and C reads a constant of the same type and value exactly if it is an
integer whose sign bit is not set, or a floating number with a point or an exponent. -/
theorem numerals_survive (n : Numeral) (after : Text) (span : Span) (hafter : Delimits after) :
    (wording (n.text ++ after) = (n.tokenKind, n.text) :: wording after ↔ ¬ n.CutAtPoint) ∧
    ∃ v : Value, literal (Node.ofToken .literal ⟨n.tokenKind, span, n.text⟩) = pure v ∧
      v.type = n.type ∧ (Constant.read? v.text = some n.constant ↔ ¬ n.Lost) := by
  refine ⟨wording_numeral n hafter, _, literal_numeral n span, rfl, ?_⟩
  cases n with
  | integer form suffix => exact read?_integer_iff form suffix
  | floating mantissa exponent suffix hmarked => exact read?_floating_iff hmarked

/-- The number `1d`. -/
def markedOne : Numeral :=
  .floating (.whole ⟨⟨Text.byte '1', by decide⟩, []⟩) none (some ⟨Text.byte 'd', by decide⟩)
    fun _ _ => .inr rfl

/-- The number `1d` is one token and a `double`, but C reads no such constant. -/
theorem numerals_survive_marked :
    Delimits ";" ∧ markedOne.text = "1d" ∧
      wording (markedOne.text ++ ";") = (.floatLiteral, markedOne.text) :: wording ";" ∧
      ∃ v : Value, literal (Node.ofToken .literal ⟨.floatLiteral, {}, markedOne.text⟩) = pure v ∧
        v.type = .double ∧ Constant.read? v.text ≠ some ⟨.double, 1⟩ := by
  have hafter : Delimits ";" := ⟨by decide, by decide⟩
  obtain ⟨hwording, v, hliteral, htype, hread⟩ := numerals_survive markedOne ";" {} hafter
  have hconstant : markedOne.constant = ⟨.double, 1⟩ := by
    have hvalue : decimalValue 1 0 0 0 = 1 := by decide +kernel
    exact congrArg _ hvalue
  refine ⟨hafter, by decide, hwording.2 id, v, hliteral, htype, fun hone => ?_⟩
  exact hread.1 (hone.trans (congrArg some hconstant.symm)) trivial

end JavaObjC
