import JavaObjC.Proofs.Numerals.Digits

/-!
# Numbers as tokens

A number is read as one token of its kind if nothing that could be part of it
follows, except that a point without digits behind it ends an integer where an
exponent or a letter follows the point.
-/

namespace JavaObjC

open Lexeme

section Parts

variable {radix : Nat} {test : UInt8 → Bool} {after rest : Text}

/-- The bytes of hexadecimal numbers can be part of a word. -/
theorem isLetterOrDigit_of_isHexPart (b : UInt8) (h : isHexPart b = true) :
    isLetterOrDigit b = true := by
  rcases Bool.or_eq_true_iff.1 h with hdigit | hunderscore
  · simp only [isHexDigit, isDigit, isLetterOrDigit, isLetter, Bool.or_eq_true, Bool.and_eq_true,
      decide_eq_true_eq, UInt8.le_iff_toNat_le, UInt8.reduceToNat] at hdigit ⊢
    omega
  · rw [eq_of_beq hunderscore]
    rfl

/-- The bytes of decimal numbers are bytes of hexadecimal ones. -/
theorem isHexPart_of_isDigitPart {b : UInt8} (h : isDigitPart b = true) : isHexPart b = true := by
  rcases Bool.or_eq_true_iff.1 h with hdigit | hunderscore
  · rw [isHexPart, isHexDigit, hdigit, Bool.true_or, Bool.true_or, Bool.true_or]
  · rw [isHexPart, hunderscore, Bool.or_true]

/-- Digits and separators continue a word. -/
theorem isLetterOrDigit_of_isDigitPart (b : UInt8) (h : isDigitPart b = true) :
    isLetterOrDigit b = true :=
  isLetterOrDigit_of_isHexPart b (isHexPart_of_isDigitPart h)

/-- Binary digits and separators continue a word. -/
theorem isLetterOrDigit_of_isBinaryPart (b : UInt8) (h : isBinaryPart b = true) :
    isLetterOrDigit b = true := by
  simp only [isBinaryPart, Bool.or_eq_true, beq_iff_eq] at h
  rcases h with (rfl | rfl) | rfl <;> rfl

/-- Digits of a radix up to ten and underscores are parts of decimal numbers. -/
theorem isDigitPart_of_digit (hradix : radix ≤ 10) :
    ∀ b, (Text.digitIn? radix b).isSome = true ∨ b = Text.byte '_' → isDigitPart b = true := by
  rintro b (hb | rfl)
  · exact Bool.or_eq_true_iff.2 (.inl (isDigit_of_digit hradix hb))
  · decide

/-- Digits of radix sixteen and separators are what the lexer takes for a hexadecimal number. -/
theorem isHexPart_of_digit :
    ∀ b, (Text.digitIn? 16 b).isSome = true ∨ b = Text.byte '_' → isHexPart b = true := by
  rintro b (hb | rfl)
  · exact Bool.or_eq_true_iff.2 (.inl (isHexDigit_of_digit (Nat.le_refl 16) hb))
  · rfl

/-- Digits of radix two and separators are what the lexer takes for a binary number. -/
theorem isBinaryPart_of_digit :
    ∀ b, (Text.digitIn? 2 b).isSome = true ∨ b = Text.byte '_' → isBinaryPart b = true := by
  rintro b (hb | rfl)
  · simp only [isBinaryPart, Bool.or_eq_true, beq_iff_eq, ← UInt8.toNat_inj, UInt8.reduceToNat]
    have hdecimal := isDigit_of_digit (by decide) hb
    simp only [Text.isDigit, Bool.and_eq_true, decide_eq_true_eq, UInt8.le_iff_toNat_le,
      UInt8.reduceToNat] at hdecimal
    have hvalue := digit_cases hb
    omega
  · rfl

/-- In front of a text may stand an exponent. -/
theorem frontIs_exponent (h : ['e', 'E'].all fun c => test (Text.byte c) = false)
    (e : Option Exponent) (hafter : frontIs test after = false) :
    frontIs test (Exponent.text e ++ after) = false := by
  cases e with
  | none => exact hafter
  | some e => exact e.letter.holds (p := fun b => test b = false) h

/-- Without its letter there is no exponent. -/
theorem exponent_none {letters : List Char}
    (h : frontIs (fun b => letters.any (Text.byte · == b)) after = false) :
    exponent letters after = (false, after) := by
  cases after with
  | nil => rfl
  | cons b rest => exact if_neg (Bool.not_eq_true _ ▸ h)

/-- An exponent is read up to what follows it. -/
theorem exponent_text (e : Option Exponent) (hpart : frontIs isDigitPart after = false)
    (hletter : frontIs (fun b => ['e', 'E'].any (Text.byte · == b)) after = false) :
    exponent ['e', 'E'] (Exponent.text e ++ after) = (e.isSome, after) := by
  cases e with
  | none => exact exponent_none hletter
  | some e =>
    have hsign : frontIs (fun b => ['+', '-'].any (Text.byte · == b)) (e.run.text ++ after) =
        false := by
      have hdigit := isDigit_of_digit (Nat.le_refl 10) e.run.first.isDigit
      refine List.any_eq_false.2 fun c hc hsign => ?_
      rw [← eq_of_beq hsign] at hdigit
      rcases List.mem_pair.1 hc with rfl | rfl <;> exact absurd hdigit (by decide)
    have hdigits := e.run.dropWhile_text (isDigitPart_of_digit (Nat.le_refl 10)) hpart
    have hread : exponent ['e', 'E'] (Exponent.text (some e) ++ after) =
        (true, (dropOne ['+', '-'] (OneOf.text e.sign ++ e.run.text ++ after)).dropWhile
          isDigitPart) := if_pos e.letter.isLetter
    rw [hread, List.append_assoc, dropOne_text e.sign hsign, hdigits]
    rfl

/-- Without a point there is no fraction. -/
theorem fraction_none (h : frontIs (· == 46) after = false) : fraction after = (false, after) := by
  unfold fraction
  split
  · cases h
  · rfl

/-- A point with digits behind it is a fraction. -/
theorem fraction_digits (run : DigitRun 10) (hafter : frontIs isDigitPart after = false) :
    fraction (Text.byte '.' :: (run.text ++ after)) = (true, after) := by
  have hfront : frontIs isDigit (run.text ++ after) = true :=
    isDigit_of_digit (Nat.le_refl 10) run.first.isDigit
  have hread : fraction (Text.byte '.' :: (run.text ++ after)) =
      (true, (run.text ++ after).dropWhile isDigitPart) := if_pos hfront
  rw [hread, run.dropWhile_text (isDigitPart_of_digit (Nat.le_refl 10)) hafter]

/-- A point without digits behind it counts if no letter and no other point follows. -/
theorem fraction_bare (hdigit : frontIs isDigit after = false)
    (hpoint : frontIs (· == 46) after = false) :
    fraction (Text.byte '.' :: after) =
      if frontIs isLetter after then (false, Text.byte '.' :: after) else (true, after) := by
  have hread : fraction (Text.byte '.' :: after) =
      if frontIs isLetter after || frontIs (· == 46) after then (false, Text.byte '.' :: after)
      else (true, after) := if_neg (Bool.not_eq_true _ ▸ hdigit)
  rw [hread, hpoint, Bool.or_false]

end Parts

section Decimals

variable {t after : Text} {e : Option Exponent}

/-- What may follow the digits of a floating number: an exponent, a letter that marks it, and what
follows the number. -/
theorem frontIs_ending {test : UInt8 → Bool}
    (hletters : (['e', 'E'] ++ ['f', 'F', 'd', 'D']).all fun c => test (Text.byte c) = false)
    (e : Option Exponent) (s : Option (OneOf ['f', 'F', 'd', 'D']))
    (hafter : frontIs test after = false) :
    frontIs test (Exponent.text e ++ (OneOf.text s ++ after)) = false := by
  obtain ⟨hexponent, hsuffix⟩ := Bool.and_eq_true_iff.1 (List.all_append ▸ hletters)
  exact frontIs_exponent hexponent e (frontIs_text hsuffix s hafter)

/-- A decimal number ends with an optional letter. -/
theorem decimal_eq {fractional exponential : Bool} {u v : Text}
    (hfraction : fraction (t.dropWhile isDigitPart) = (fractional, u))
    (hexponent : exponent ['e', 'E'] u = (exponential, v)) :
    decimal t = if frontIs (fun b => ['f', 'F', 'd', 'D'].any (Text.byte · == b)) v then
      (true, v.tail) else (fractional || exponential, dropOne ['l', 'L'] v) := by
  simp only [decimal, hfraction, hexponent]
  cases v <;> rfl

/-- A floating number ends behind its exponent and the letter that marks it. -/
theorem decimal_floating {hasFraction : Bool} {s : Option (OneOf ['f', 'F', 'd', 'D'])}
    (hafter : Delimits after) (h : fraction (t.dropWhile isDigitPart) =
      (hasFraction, Exponent.text e ++ (OneOf.text s ++ after))) :
    decimal t = (hasFraction || e.isSome || s.isSome, after) := by
  have hpart : frontIs isDigitPart (OneOf.text s ++ after) = false :=
    frontIs_text (by decide) s (frontIs_of_imp isLetterOrDigit_of_isDigitPart hafter.word)
  have hletter : frontIs (fun b => ['e', 'E'].any (Text.byte · == b)) (OneOf.text s ++ after) =
      false := frontIs_text (by decide) s (hafter.not_letter (by decide))
  have hlong : dropOne ['l', 'L'] after = after :=
    dropOne_text none (hafter.not_letter (by decide))
  rw [decimal_eq h (exponent_text e hpart hletter)]
  cases s with
  | some s =>
    rw [Option.isSome_some, Bool.or_true]
    exact if_pos s.isLetter
  | none =>
    rw [OneOf.text_none, List.nil_append, Option.isSome_none, Bool.or_false,
      hafter.not_letter (by decide), if_neg Bool.false_ne_true, hlong]

/-- An integer ends behind the letter that marks it as long. -/
theorem decimal_integer {s : Option (OneOf ['l', 'L'])} (hafter : Delimits after)
    (h : t.dropWhile isDigitPart = OneOf.text s ++ after) : decimal t = (false, after) := by
  have hpoint : frontIs (· == 46) (OneOf.text s ++ after) = false :=
    frontIs_text (by decide) s hafter.point
  have hletter : frontIs (fun b => ['e', 'E'].any (Text.byte · == b)) (OneOf.text s ++ after) =
      false := frontIs_text (by decide) s (hafter.not_letter (by decide))
  have hmark : frontIs (fun b => ['f', 'F', 'd', 'D'].any (Text.byte · == b))
      (OneOf.text s ++ after) = false := frontIs_text (by decide) s (hafter.not_letter (by decide))
  have hlong := dropOne_text s (hafter.not_letter (by decide))
  rw [← h] at hpoint hletter hmark hlong
  rw [decimal_eq (fraction_none hpoint) (exponent_none hletter), hmark, if_neg Bool.false_ne_true,
    hlong]
  rfl

end Decimals

section Radixes

variable {t after : Text}

/-- Without the mark of a radix a number is decimal. -/
theorem number_eq_decimal (h : hasRadixMark t = false) : number t = decimal t := by
  unfold number
  split
  · next b rest =>
    obtain ⟨hhex, hbinary⟩ := ne_radixMark h
    rw [if_neg hhex, if_neg hbinary]
  · rfl

/-- The digits of a run mark no radix. -/
theorem hasRadixMark_run {radix : Nat} (run : DigitRun radix) (hradix : radix ≤ 10)
    (hafter : frontIs isRadixMark after = false) : hasRadixMark (run.text ++ after) = false := by
  refine hasRadixMark_cons (fun b hb => isDigitPart_of_digit hradix b ?_) hafter
  exact run.mem_text (List.mem_cons_of_mem _ hb)

/-- What delimits a number marks no radix. -/
theorem Delimits.not_radixMark (h : Delimits after) : frontIs isRadixMark after = false := by
  refine frontIs_of_imp (fun b hb => ?_) h.word
  rcases isRadixMark_iff.1 hb with (rfl | rfl) | rfl | rfl <;> rfl

/-- A number is read up to what follows it. -/
theorem next_of_number {b : UInt8} {rest : Text} {floating : Bool}
    (hb : isDigit b = true ∨ b = 46 ∧ frontIs isDigit rest = true)
    (hnumber : number (b :: rest) = (floating, after)) :
    next b rest = (if floating then .floatLiteral else .intLiteral, after) := by
  have hfront : b ≠ 47 ∧ isSpace b = false ∧ isLetter b = false ∧
      (isDigit b || (b == 46 && frontIs isDigit rest)) = true := by
    rcases hb with hb | ⟨rfl, hdigit⟩
    · obtain ⟨hslash, hspace, hletter, -⟩ := front_of_isDigit b hb
      exact ⟨hslash, hspace, hletter, by rw [hb, Bool.true_or]⟩
    · exact ⟨by decide, by decide, by decide, by rw [hdigit]; decide⟩
  obtain ⟨hslash, hspace, hletter, hstart⟩ := hfront
  obtain ⟨hline, hblock⟩ := next_of_ne_slash hslash rest
  simp only [next, hline, hblock, hspace, hletter, hstart, hnumber, if_true, Bool.false_eq_true,
    if_false]

/-- A number says itself if it is read up to what follows it. -/
theorem wording_number {b : UInt8} {front : Text} {floating : Bool}
    (hb : isDigit b = true ∨ b = 46 ∧ frontIs isDigit (front ++ after) = true)
    (hnumber : number (b :: (front ++ after)) = (floating, after)) :
    wording (b :: (front ++ after)) =
      (if floating then .floatLiteral else .intLiteral, b :: front) :: wording after := by
  rw [wording_of_next (next_of_number hb hnumber)]
  cases floating <;> rfl

end Radixes

section Numbers

variable {after : Text}

/-- An integer is read up to what follows it. -/
theorem number_integer (form : IntegerForm) (suffix : Option (OneOf ['l', 'L']))
    (hafter : Delimits after) :
    number (form.mark ++ form.runText ++ OneOf.text suffix ++ after) = (false, after) := by
  have hdecimal : ∀ {radix : Nat} (run : DigitRun radix), radix ≤ 10 →
      number (run.text ++ (OneOf.text suffix ++ after)) = (false, after) := by
    intro radix run hradix
    have hpart : frontIs isDigitPart (OneOf.text suffix ++ after) = false :=
      frontIs_text (by decide) suffix (frontIs_of_imp isLetterOrDigit_of_isDigitPart hafter.word)
    have hmark : frontIs isRadixMark (OneOf.text suffix ++ after) = false :=
      frontIs_text (by decide) suffix hafter.not_radixMark
    rw [number_eq_decimal (hasRadixMark_run run hradix hmark)]
    exact decimal_integer hafter (run.dropWhile_text (isDigitPart_of_digit hradix) hpart)
  have hlong := dropOne_text suffix (hafter.not_letter (by decide))
  rw [List.append_assoc, List.append_assoc]
  cases form with
  | decimal run _ => exact hdecimal run (Nat.le_refl 10)
  | octal run _ _ => exact hdecimal run (by decide)
  | hexadecimal mark run =>
    have hpart : frontIs isHexPart (OneOf.text suffix ++ after) = false :=
      frontIs_text (by decide) suffix (frontIs_of_imp isLetterOrDigit_of_isHexPart hafter.word)
    have hpoint : hexFraction (OneOf.text suffix ++ after) = (false, OneOf.text suffix ++ after) := by
      have hfront : frontIs (· == 46) (OneOf.text suffix ++ after) = false :=
        frontIs_text (by decide) suffix hafter.point
      unfold hexFraction
      split
      · next hrest =>
        rw [hrest] at hfront
        cases hfront
      · rfl
    have hpower : exponent ['p', 'P'] (OneOf.text suffix ++ after) =
        (false, OneOf.text suffix ++ after) :=
      exponent_none (frontIs_text (by decide) suffix (hafter.not_letter (by decide)))
    have hread : number ([Text.byte '0', mark.byte] ++ (run.text ++ (OneOf.text suffix ++ after))) =
        hexadecimal (run.text ++ (OneOf.text suffix ++ after)) := if_pos mark.hexMark
    have hhex : hexadecimal (run.text ++ (OneOf.text suffix ++ after)) = (false, after) := by
      simp only [hexadecimal, run.dropWhile_text isHexPart_of_digit hpart, hpoint, hpower, hlong]
      rfl
    exact hread.trans hhex
  | binary mark run =>
    have hpart : frontIs isBinaryPart (OneOf.text suffix ++ after) = false :=
      frontIs_text (by decide) suffix (frontIs_of_imp isLetterOrDigit_of_isBinaryPart hafter.word)
    have hread : number ([Text.byte '0', mark.byte] ++ (run.text ++ (OneOf.text suffix ++ after))) =
        (false, dropOne ['l', 'L']
          ((run.text ++ (OneOf.text suffix ++ after)).dropWhile isBinaryPart)) :=
      (if_neg mark.binaryMark.1).trans (if_pos mark.binaryMark.2)
    rw [run.dropWhile_text isBinaryPart_of_digit hpart, hlong] at hread
    exact hread

/-- A floating number is read up to what follows it, unless it is cut at its point. -/
theorem number_floating {mantissa : Mantissa} {exponent : Option Exponent}
    {suffix : Option (OneOf ['f', 'F', 'd', 'D'])}
    (hmarked : ∀ run, mantissa = .whole run → exponent.isSome ∨ suffix.isSome)
    (hwhole : ¬ (Numeral.floating mantissa exponent suffix hmarked).CutAtPoint)
    (hafter : Delimits after) :
    number (mantissa.text ++ (Exponent.text exponent ++ (OneOf.text suffix ++ after))) =
      (true, after) := by
  have hpart : frontIs isDigitPart (Exponent.text exponent ++ (OneOf.text suffix ++ after)) =
      false := frontIs_ending (by decide) exponent suffix
    (frontIs_of_imp isLetterOrDigit_of_isDigitPart hafter.word)
  have hpoint : frontIs (· == 46) (Exponent.text exponent ++ (OneOf.text suffix ++ after)) =
      false := frontIs_ending (by decide) exponent suffix hafter.point
  have hmark : frontIs isRadixMark (Exponent.text exponent ++ (OneOf.text suffix ++ after)) =
      false := frontIs_ending (by decide) exponent suffix hafter.not_radixMark
  have hdigit := isDigitPart_of_digit (Nat.le_refl 10)
  cases mantissa with
  | whole run =>
    have hfraction : fraction ((run.text ++ (Exponent.text exponent ++
        (OneOf.text suffix ++ after))).dropWhile isDigitPart) =
        (false, Exponent.text exponent ++ (OneOf.text suffix ++ after)) := by
      rw [run.dropWhile_text hdigit hpart, fraction_none hpoint]
    have hsome : (exponent.isSome || suffix.isSome) = true :=
      Bool.or_eq_true_iff.2 (hmarked run rfl)
    rw [Mantissa.text, number_eq_decimal (hasRadixMark_run run (Nat.le_refl 10) hmark),
      decimal_floating hafter hfraction, Bool.false_or, hsome]
  | pointed run fraction? =>
    have hnumber : ∀ rest : Text, number (run.text ++ Text.byte '.' :: rest) =
        decimal (run.text ++ Text.byte '.' :: rest) :=
      fun rest => number_eq_decimal (hasRadixMark_run run (Nat.le_refl 10) rfl)
    have hdropped : ∀ rest : Text, (run.text ++ Text.byte '.' :: rest).dropWhile isDigitPart =
        Text.byte '.' :: rest := fun rest => run.dropWhile_text hdigit rfl
    cases fraction? with
    | some digits =>
      have hfraction : fraction ((run.text ++ Text.byte '.' :: (digits.text ++
          (Exponent.text exponent ++ (OneOf.text suffix ++ after)))).dropWhile isDigitPart) =
          (true, Exponent.text exponent ++ (OneOf.text suffix ++ after)) := by
        rw [hdropped, fraction_digits digits hpart]
      rw [Mantissa.text, List.append_assoc, List.cons_append, hnumber,
        decimal_floating hafter hfraction, Bool.true_or, Bool.true_or]
    | none =>
      obtain ⟨hexponent, hsuffix⟩ := not_or.1 hwhole
      obtain rfl := Option.not_isSome_iff_eq_none.1 hexponent
      obtain rfl := Option.not_isSome_iff_eq_none.1 hsuffix
      have hletter : frontIs isLetter after = false := frontIs_of_imp
        (fun b hb => by rw [isLetterOrDigit, hb, Bool.true_or]) hafter.word
      have hfront : frontIs isDigit after = false := frontIs_of_imp
        (fun b hb => by rw [isLetterOrDigit, hb, Bool.or_true]) hafter.word
      have hfraction : fraction ((run.text ++ Text.byte '.' :: after).dropWhile isDigitPart) =
          (true, Exponent.text none ++
            (OneOf.text (none : Option (OneOf ['f', 'F', 'd', 'D'])) ++ after)) := by
        rw [hdropped, fraction_bare hfront hafter.point, hletter]
        rfl
      have hread := decimal_floating hafter hfraction
      rw [← hnumber] at hread
      rw [Mantissa.text, List.append_assoc]
      exact hread
  | fractional run =>
    have hfraction : fraction ((Text.byte '.' :: (run.text ++ (Exponent.text exponent ++
        (OneOf.text suffix ++ after)))).dropWhile isDigitPart) =
        (true, Exponent.text exponent ++ (OneOf.text suffix ++ after)) := fraction_digits run hpart
    exact (number_eq_decimal rfl).trans (decimal_floating hafter hfraction)

/-- A number that is cut at its point is read up to the point. -/
theorem number_cut (run : DigitRun 10) {exponent : Option Exponent}
    {suffix : Option (OneOf ['f', 'F', 'd', 'D'])} (hcut : exponent.isSome ∨ suffix.isSome)
    (hafter : Delimits after) :
    number (run.text ++ Text.byte '.' :: (Exponent.text exponent ++ (OneOf.text suffix ++ after))) =
      (false, Text.byte '.' :: (Exponent.text exponent ++ (OneOf.text suffix ++ after))) := by
  have hletter : frontIs isLetter (Exponent.text exponent ++ (OneOf.text suffix ++ after)) =
      true := by
    cases exponent with
    | some e => exact e.letter.holds (p := fun b => isLetter b = true) (by decide)
    | none =>
      cases suffix with
      | some l => exact l.holds (p := fun b => isLetter b = true) (by decide)
      | none => simp at hcut
  have hdigit : frontIs isDigit (Exponent.text exponent ++ (OneOf.text suffix ++ after)) = false :=
    frontIs_ending (by decide) exponent suffix
      (frontIs_of_imp (fun b hb => by rw [isLetterOrDigit, hb, Bool.or_true]) hafter.word)
  have hpoint : frontIs (· == 46) (Exponent.text exponent ++ (OneOf.text suffix ++ after)) =
      false := frontIs_ending (by decide) exponent suffix hafter.point
  generalize Exponent.text exponent ++ (OneOf.text suffix ++ after) = rest at hletter hdigit hpoint ⊢
  have hdropped : (run.text ++ Text.byte '.' :: rest).dropWhile isDigitPart =
      Text.byte '.' :: rest :=
    run.dropWhile_text (isDigitPart_of_digit (Nat.le_refl 10)) rfl
  have hfraction : fraction ((run.text ++ Text.byte '.' :: rest).dropWhile isDigitPart) =
      (false, Text.byte '.' :: rest) := by
    rw [hdropped, fraction_bare hdigit hpoint, hletter, if_pos rfl]
  rw [number_eq_decimal (hasRadixMark_run run (Nat.le_refl 10) rfl),
    decimal_eq hfraction (exponent_none rfl)]
  rfl

/-- A run of digits begins with one. -/
theorem isDigit_first {radix : Nat} (run : DigitRun radix) (hradix : radix ≤ 10) :
    isDigit run.first.byte = true := isDigit_of_digit hradix run.first.isDigit

/-- A number begins with a digit, or with a point and a digit. -/
theorem Numeral.front (n : Numeral) : ∃ b front, n.text = b :: front ∧
    (isDigit b = true ∨ b = 46 ∧ ∀ after, frontIs isDigit (front ++ after) = true) := by
  cases n with
  | integer form suffix =>
    cases form with
    | decimal run _ => exact ⟨_, _, rfl, .inl (isDigit_first run (Nat.le_refl 10))⟩
    | octal run _ _ => exact ⟨_, _, rfl, .inl (isDigit_first run (by decide))⟩
    | hexadecimal _ _ => exact ⟨_, _, rfl, .inl (by decide)⟩
    | binary _ _ => exact ⟨_, _, rfl, .inl (by decide)⟩
  | floating mantissa exponent suffix _ =>
    cases mantissa with
    | whole run => exact ⟨_, _, rfl, .inl (isDigit_first run (Nat.le_refl 10))⟩
    | pointed run fraction? =>
      cases fraction? <;> exact ⟨_, _, rfl, .inl (isDigit_first run (Nat.le_refl 10))⟩
    | fractional run =>
      exact ⟨_, _, rfl, .inr ⟨rfl, fun _ => isDigit_first run (Nat.le_refl 10)⟩⟩

/-- A number is read up to what follows it, unless it is cut at its point. -/
theorem number_text {n : Numeral} (hwhole : ¬ n.CutAtPoint) (hafter : Delimits after) :
    number (n.text ++ after) = (n.tokenKind == .floatLiteral, after) := by
  cases n with
  | integer form suffix => exact number_integer form suffix hafter
  | floating mantissa exponent suffix hmarked =>
    rw [Numeral.text, List.append_assoc, List.append_assoc]
    exact number_floating hmarked hwhole hafter

/-- A number is read as one token of its kind exactly if it is not cut at its point. -/
theorem wording_numeral (n : Numeral) (hafter : Delimits after) :
    wording (n.text ++ after) = (n.tokenKind, n.text) :: wording after ↔ ¬ n.CutAtPoint := by
  constructor
  · intro hwording hcut
    -- A number that is cut begins with the token of an integer.
    match n, hcut with
    | .floating (.pointed run none) exponent suffix _, hcut =>
      have hnumber := number_cut run hcut hafter
      have hcutWording := wording_number (.inl (isDigit_first run (Nat.le_refl 10))) hnumber
      have htext : (Numeral.floating (.pointed run none) exponent suffix ‹_›).text ++ after =
          run.text ++ Text.byte '.' :: (Exponent.text exponent ++ (OneOf.text suffix ++ after)) := by
        simp [Numeral.text, Mantissa.text]
      rw [htext] at hwording
      have hkind := congrArg (fun words => words.head?.map Prod.fst)
        (hcutWording.symm.trans hwording)
      cases hkind
  · intro hwhole
    obtain ⟨b, front, htext, hfront⟩ := n.front
    have hnumber := number_text hwhole hafter
    rw [htext] at hnumber ⊢
    rw [List.cons_append, wording_number (hfront.imp_right fun h => ⟨h.1, h.2 after⟩) hnumber]
    cases n <;> rfl

end Numbers

end JavaObjC
