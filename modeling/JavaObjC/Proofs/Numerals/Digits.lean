import JavaObjC.Proofs.Wording
import JavaObjC.Text.Number
import JavaObjC.Proofs.Shifts.Numbers

/-!
# Digits, letters and forms of numbers

A number is written with runs of digits, which may have underscores between them,
and with letters that each stand for one of a few. A run is read up to the first
byte that cannot be part of it, and spells the number of its digits.

An integer is a run of digits in one of four radixes, and a letter marks it as
long. A floating number has a point, an exponent or a letter that marks it. The
forms are kept so that only numbers can be built, with what each of them is
written as and what its digits spell.
-/

namespace JavaObjC

open Lexeme

/-- One of some characters, as a byte. -/
structure OneOf (letters : List Char) where
  byte : UInt8
  isLetter : letters.any (Text.byte · == byte) = true

/-- A digit of a radix, as a byte. -/
structure Digit (radix : Nat) where
  byte : UInt8
  isDigit : (Text.digitIn? radix byte).isSome = true

/-- A digit as a number. -/
def Digit.value {radix : Nat} (d : Digit radix) : Nat := (Text.digitIn? radix d.byte).get d.isDigit

/-- Digits of a radix, each but the first one with a number of underscores before it. -/
structure DigitRun (radix : Nat) where
  first : Digit radix
  more : List (Nat × Digit radix)

/-- What may follow a number: neither a letter nor a digit, nor a point. -/
structure Delimits (after : Text) : Prop where
  word : frontIs isLetterOrDigit after = false
  point : frontIs (· == 46) after = false

section Fronts

variable {letters : List Char} {test other : UInt8 → Bool} {after : Text}

/-- What may be written where one of some characters may stand. -/
def OneOf.text (l : Option (OneOf letters)) : Text := l.toList.map OneOf.byte

@[simp] theorem OneOf.text_none : OneOf.text (none : Option (OneOf letters)) = [] := rfl

@[simp] theorem OneOf.text_some (l : OneOf letters) : OneOf.text (some l) = [l.byte] := rfl

/-- A character of a list has the property that all of the list have. -/
theorem OneOf.holds {p : UInt8 → Prop} [DecidablePred p] (l : OneOf letters)
    (h : letters.all fun c => p (Text.byte c)) : p l.byte := by
  obtain ⟨c, hc, heq⟩ := List.any_eq_true.1 l.isLetter
  exact eq_of_beq heq ▸ of_decide_eq_true (List.all_eq_true.1 h c hc)

/-- In front of a text that fails a test may stand characters that fail it. -/
theorem frontIs_text (h : letters.all fun c => test (Text.byte c) = false)
    (l : Option (OneOf letters)) (hafter : frontIs test after = false) :
    frontIs test (OneOf.text l ++ after) = false := by
  cases l with
  | none => exact hafter
  | some l => exact l.holds (p := fun b => test b = false) h

/-- What does not begin with one kind of byte does not begin with a narrower one. -/
theorem frontIs_of_imp (h : ∀ b, other b = true → test b = true)
    (hafter : frontIs test after = false) : frontIs other after = false := by
  cases after with
  | nil => rfl
  | cons b rest =>
    have hb : test b = false := hafter
    have hother : ¬ other b = true := fun hother => Bool.false_ne_true (hb ▸ h b hother)
    exact Bool.not_eq_true _ ▸ hother

/-- None of some letters stands in front of what delimits a number. -/
theorem Delimits.not_letter (h : Delimits after)
    (hletters : letters.all (fun c => isLetterOrDigit (Text.byte c)) = true) :
    frontIs (fun b => letters.any (Text.byte · == b)) after = false := by
  refine frontIs_of_imp (fun b hb => ?_) h.word
  obtain ⟨c, hc, heq⟩ := List.any_eq_true.1 hb
  exact eq_of_beq heq ▸ List.all_eq_true.1 hletters c hc

/-- An optional letter is dropped. -/
theorem dropOne_text (l : Option (OneOf letters))
    (h : frontIs (fun b => letters.any (Text.byte · == b)) after = false) :
    dropOne letters (OneOf.text l ++ after) = after := by
  cases l with
  | some l => exact if_pos l.isLetter
  | none =>
    cases after with
    | nil => rfl
    | cons b rest => exact if_neg (Bool.not_eq_true _ ▸ h)

/-- The front of a text that passes a test, and what follows it. -/
theorem span_append {front : Text} (hfront : ∀ b ∈ front, test b = true)
    (hafter : frontIs test after = false) :
    (front ++ after).takeWhile test = front ∧ (front ++ after).dropWhile test = after := by
  refine ⟨?_, dropWhile_append_of_all front hfront hafter⟩
  rw [List.takeWhile_append_of_pos hfront]
  cases after with
  | nil => simp
  | cons b rest =>
    have hb : test b = false := hafter
    rw [List.takeWhile_cons_of_neg (by simp [hb]), List.append_nil]

end Fronts

section Ranges

variable {radix : Nat} {b : UInt8}

/-- A digit is a decimal one, or a letter whose value is below the radix. -/
theorem digit_cases (h : (Text.digitIn? radix b).isSome = true) :
    (Text.isDigit b = true ∧ b.toNat < 48 + radix) ∨ (97 ≤ b.toNat ∧ b.toNat < 87 + radix) ∨
      (65 ≤ b.toNat ∧ b.toNat < 55 + radix) := by
  simp only [Text.digitIn?, Option.isSome_ite] at h
  split_ifs at h with hdigit hlower hupper
  · exact .inl ⟨hdigit, by omega⟩
  · simp only [Bool.and_eq_true, decide_eq_true_eq, UInt8.le_iff_toNat_le] at hlower
    exact .inr (.inl ⟨hlower.1, by omega⟩)
  · simp only [Bool.and_eq_true, decide_eq_true_eq, UInt8.le_iff_toNat_le] at hupper
    exact .inr (.inr ⟨hupper.1, by omega⟩)
  · omega

/-- Digits of a radix up to ten are decimal digits. -/
theorem isDigit_of_digit (hradix : radix ≤ 10) (h : (Text.digitIn? radix b).isSome = true) :
    Text.isDigit b = true := by
  rcases digit_cases h with ⟨hdigit, -⟩ | hlower | hupper
  · exact hdigit
  · omega
  · omega

/-- Digits of a radix up to sixteen are hexadecimal digits. -/
theorem isHexDigit_of_digit (hradix : radix ≤ 16) (h : (Text.digitIn? radix b).isSome = true) :
    isHexDigit b = true := by
  simp only [isHexDigit, Bool.or_eq_true, Bool.and_eq_true, decide_eq_true_eq,
    UInt8.le_iff_toNat_le, UInt8.reduceToNat]
  rcases digit_cases h with ⟨hdigit, -⟩ | hlower | hupper
  · exact .inl (.inl hdigit)
  · exact .inl (.inr ⟨hlower.1, by omega⟩)
  · exact .inr ⟨hupper.1, by omega⟩

end Ranges

section Separators

variable {t : Text}

/-- What ends with a byte has it last. -/
theorem endsWith_byte (t : Text) (b : UInt8) : Text.endsWith t [b] = (t.getLast? == some b) := by
  have hreverse : Text.endsWith t [b] = [b].isPrefixOf t.reverse := rfl
  rw [hreverse, List.getLast?_eq_head?_reverse]
  cases t.reverse with
  | nil => rfl
  | cons c rest => simp [List.isPrefixOf, Bool.beq_comm]

/-- A text without its underscores. -/
def unseparated (t : Text) : Text := Text.replaceByte (Text.byte '_') [] t

/-- Separators are left out part by part. -/
theorem unseparated_append (t u : Text) : unseparated (t ++ u) = unseparated t ++ unseparated u :=
  List.flatMap_append

/-- Without separators nothing is left out. -/
theorem unseparated_eq (h : ∀ b ∈ t, b ≠ Text.byte '_') : unseparated t = t := by
  have hsame : unseparated t = t.flatMap fun b => [b] :=
    List.flatMap_congr fun b hb => if_neg (h b hb)
  rw [hsame, List.flatMap_singleton']

end Separators

section Radixes

variable {after : Text}

/-- The letters behind a leading zero that mark a radix. -/
def isRadixMark (b : UInt8) : Bool := b == 120 || b == 88 || b == 98 || b == 66

/-- Whether a number begins with the mark of a radix. -/
def hasRadixMark : Text → Bool
  | 48 :: b :: _ => isRadixMark b
  | _ => false

/-- The marks of a radix are those of hexadecimal and of binary numbers. -/
theorem isRadixMark_iff {b : UInt8} :
    isRadixMark b = true ↔ (b = 120 ∨ b = 88) ∨ (b = 98 ∨ b = 66) := by
  simp [isRadixMark, or_assoc]

/-- A byte that marks no radix is none of the letters of one. -/
theorem ne_radixMark {b : UInt8} (h : isRadixMark b = false) :
    ¬ (b = 120 ∨ b = 88) ∧ ¬ (b = 98 ∨ b = 66) :=
  not_or.1 (mt isRadixMark_iff.2 (ne_true_of_eq_false h))

/-- Digits and separators mark no radix. -/
theorem not_radixMark_of_isDigitPart {b : UInt8} (h : isDigitPart b = true) :
    isRadixMark b = false := by
  refine eq_false_of_ne_true fun hmark => ?_
  rcases isRadixMark_iff.1 hmark with (rfl | rfl) | rfl | rfl <;> exact absurd h (by decide)

/-- The mark of a hexadecimal number. -/
theorem OneOf.hexMark (mark : OneOf ['x', 'X']) : mark.byte = 120 ∨ mark.byte = 88 :=
  mark.holds (p := fun b => b = 120 ∨ b = 88) (by decide)

/-- The mark of a binary number is not that of a hexadecimal one. -/
theorem OneOf.binaryMark (mark : OneOf ['b', 'B']) :
    ¬ (mark.byte = 120 ∨ mark.byte = 88) ∧ (mark.byte = 98 ∨ mark.byte = 66) :=
  mark.holds (p := fun b => ¬ (b = 120 ∨ b = 88) ∧ (b = 98 ∨ b = 66)) (by decide)

/-- Behind a digit stand only digits, underscores and what follows, none of which marks a radix. -/
theorem hasRadixMark_cons {b : UInt8} {front : Text} (hfront : ∀ c ∈ front, isDigitPart c = true)
    (hafter : frontIs isRadixMark after = false) : hasRadixMark (b :: (front ++ after)) = false := by
  have hsecond : frontIs isRadixMark (front ++ after) = false := by
    cases front with
    | nil => exact hafter
    | cons c front => exact not_radixMark_of_isDigitPart (hfront c List.mem_cons_self)
  unfold hasRadixMark
  split
  · next c rest heq =>
    rw [(List.cons_eq_cons.1 heq).2] at hsecond
    exact hsecond
  · rfl

end Radixes

namespace DigitRun

variable {radix : Nat} (run : DigitRun radix) {test : UInt8 → Bool} {after : Text}

/-- The digits. -/
def digits : Text := run.first.byte :: run.more.map (·.2.byte)

/-- Digits with underscores before them. -/
def spaced (l : List (Nat × Digit radix)) : Text :=
  l.flatMap fun p => List.replicate p.1 (Text.byte '_') ++ [p.2.byte]

/-- The digits and underscores. -/
def text : Text := run.first.byte :: spaced run.more

/-- The number the digits spell. -/
def number : Nat :=
  (run.first :: run.more.map Prod.snd).foldl (fun total d => total * radix + d.value) 0

/-- Every digit of a run is one of the radix. -/
theorem mem_digits {b : UInt8} (h : b ∈ run.digits) : (Text.digitIn? radix b).isSome = true := by
  rcases List.mem_cons.1 h with rfl | h
  · exact run.first.isDigit
  · obtain ⟨p, -, rfl⟩ := List.mem_map.1 h
    exact p.2.isDigit

/-- The text of a run has digits and separators only. -/
theorem mem_text {b : UInt8} (h : b ∈ run.text) :
    (Text.digitIn? radix b).isSome = true ∨ b = Text.byte '_' := by
  rcases List.mem_cons.1 h with rfl | h
  · exact .inl run.first.isDigit
  · obtain ⟨p, -, hp⟩ := List.mem_flatMap.1 h
    rcases List.mem_append.1 hp with hp | hp
    · exact .inr (List.eq_of_mem_replicate hp)
    · exact .inl (List.mem_singleton.1 hp ▸ p.2.isDigit)

/-- The digits spell the number. -/
theorem numberIn?_digits : Text.numberIn? radix run.digits = some run.number := by
  have hfold : ∀ (l : List (Digit radix)) (total : Nat),
      (l.map Digit.byte).foldl
        (fun total b => do return (← total) * radix + (← Text.digitIn? radix b)) (some total) =
      some (l.foldl (fun total d => total * radix + d.value) total) := by
    intro l
    induction l with
    | nil => exact fun _ => rfl
    | cons d l ih =>
      intro total
      have hd : Text.digitIn? radix d.byte = some d.value := (Option.some_get d.isDigit).symm
      rw [List.map_cons, List.foldl_cons, hd]
      exact ih _
  have hdigits : run.digits = (run.first :: run.more.map Prod.snd).map Digit.byte := by
    simp [digits]
  rw [Text.numberIn?, hdigits, hfold]
  rfl

/-- A digit is no separator. -/
theorem byte_ne_underscore (d : Digit radix) : d.byte ≠ Text.byte '_' := by
  intro heq
  have hnone : Text.digitIn? radix (Text.byte '_') = none := by
    simp [Text.digitIn?, Text.byte, Text.isDigit]
  have hsome := d.isDigit
  rw [heq, hnone] at hsome
  cases hsome

/-- Without the underscores the digits are left. -/
theorem unseparated_text : unseparated run.text = run.digits := by
  have hspaced : ∀ l : List (Nat × Digit radix), unseparated (spaced l) = l.map (·.2.byte) := by
    intro l
    induction l with
    | nil => rfl
    | cons p l ih =>
      have hgap : unseparated (List.replicate p.1 (Text.byte '_')) = [] := by
        simp [unseparated, Text.replaceByte]
      have hdigit : unseparated [p.2.byte] = [p.2.byte] :=
        unseparated_eq (by simpa using byte_ne_underscore p.2)
      have hcons : spaced (p :: l) =
          List.replicate p.1 (Text.byte '_') ++ [p.2.byte] ++ spaced l := rfl
      rw [hcons, unseparated_append, unseparated_append, hgap, hdigit, ih]
      rfl
  have hfirst : unseparated [run.first.byte] = [run.first.byte] :=
    unseparated_eq (by simpa using byte_ne_underscore run.first)
  have htext : run.text = [run.first.byte] ++ spaced run.more := rfl
  rw [htext, unseparated_append, hfirst, hspaced]
  rfl

/-- A run is read up to what follows it. -/
theorem dropWhile_text
    (h : ∀ b, (Text.digitIn? radix b).isSome = true ∨ b = Text.byte '_' → test b = true)
    (hafter : frontIs test after = false) : (run.text ++ after).dropWhile test = after :=
  dropWhile_append_of_all run.text (fun b hb => h b (run.mem_text hb)) hafter

/-- The digits end where no digit follows. -/
theorem span_digits (h : ∀ b, (Text.digitIn? radix b).isSome = true → test b = true)
    (hafter : frontIs test after = false) :
    (run.digits ++ after).takeWhile test = run.digits ∧
      (run.digits ++ after).dropWhile test = after :=
  span_append (fun b hb => h b (run.mem_digits hb)) hafter

end DigitRun

/-- The digits of an integer. A leading zero marks octal digits. -/
inductive IntegerForm where
  | decimal (run : DigitRun 10) (hzero : run.first.byte = Text.byte '0' → run.more = [])
  | octal (run : DigitRun 8) (hzero : run.first.byte = Text.byte '0') (hmore : run.more ≠ [])
  | hexadecimal (mark : OneOf ['x', 'X']) (run : DigitRun 16)
  | binary (mark : OneOf ['b', 'B']) (run : DigitRun 2)

/-- A power of ten. -/
structure Exponent where
  letter : OneOf ['e', 'E']
  sign : Option (OneOf ['+', '-'])
  run : DigitRun 10

/-- The digits of a floating number. -/
inductive Mantissa where
  | whole (run : DigitRun 10)
  | pointed (run : DigitRun 10) (fraction : Option (DigitRun 10))
  | fractional (run : DigitRun 10)

/-- The numbers of Java. Without a point, an exponent or a letter has to mark a floating one. -/
inductive Numeral where
  | integer (form : IntegerForm) (suffix : Option (OneOf ['l', 'L']))
  | floating (mantissa : Mantissa) (exponent : Option Exponent)
    (suffix : Option (OneOf ['f', 'F', 'd', 'D']))
    (hmarked : ∀ run, mantissa = .whole run → exponent.isSome ∨ suffix.isSome)

namespace IntegerForm

/-- The mark of the radix. -/
def mark : IntegerForm → Text
  | decimal .. | octal .. => []
  | hexadecimal mark _ => [Text.byte '0', mark.byte]
  | binary mark _ => [Text.byte '0', mark.byte]

/-- The digits and underscores. -/
def runText : IntegerForm → Text
  | decimal run _ => run.text
  | octal run _ _ => run.text
  | hexadecimal _ run => run.text
  | binary _ run => run.text

/-- The digits. -/
def digits : IntegerForm → Text
  | decimal run _ => run.digits
  | octal run _ _ => run.digits
  | hexadecimal _ run => run.digits
  | binary _ run => run.digits

/-- The number the digits spell. -/
def number : IntegerForm → Nat
  | decimal run _ => run.number
  | octal run _ _ => run.number
  | hexadecimal _ run => run.number
  | binary _ run => run.number

end IntegerForm

namespace Exponent

/-- An exponent as it is written, if there is one. -/
def text : Option Exponent → Text
  | some e => e.letter.byte :: (OneOf.text e.sign ++ e.run.text)
  | none => []

/-- An exponent without underscores, if there is one. -/
def digits : Option Exponent → Text
  | some e => e.letter.byte :: (OneOf.text e.sign ++ e.run.digits)
  | none => []

/-- The exponent; without one it is zero. -/
def value : Option Exponent → Int
  | some e => if OneOf.text e.sign = [Text.byte '-'] then -e.run.number else e.run.number
  | none => 0

end Exponent

namespace Mantissa

/-- The mantissa as it is written. -/
def text : Mantissa → Text
  | whole run => run.text
  | pointed run none => run.text ++ [Text.byte '.']
  | pointed run (some fraction) => run.text ++ Text.byte '.' :: fraction.text
  | fractional run => Text.byte '.' :: run.text

/-- The digits before the point. -/
def wholeDigits : Mantissa → Text
  | whole run | pointed run _ => run.digits
  | fractional _ => []

/-- The digits behind the point. -/
def fractionDigits : Mantissa → Text
  | whole _ | pointed _ none => []
  | pointed _ (some fraction) => fraction.digits
  | fractional run => run.digits

/-- The number before the point. -/
def wholeNumber : Mantissa → Nat
  | whole run | pointed run _ => run.number
  | fractional _ => 0

/-- The number behind the point. -/
def fractionNumber : Mantissa → Nat
  | whole _ | pointed _ none => 0
  | pointed _ (some fraction) => fraction.number
  | fractional run => run.number

/-- The mantissa without underscores. -/
def digits (m : Mantissa) : Text :=
  match m with
  | whole run => run.digits
  | _ => m.wholeDigits ++ Text.byte '.' :: m.fractionDigits

end Mantissa

namespace Numeral

/-- A number as it is written. -/
def text : Numeral → Text
  | integer form suffix => form.mark ++ form.runText ++ OneOf.text suffix
  | floating mantissa exponent suffix _ =>
    mantissa.text ++ (Exponent.text exponent ++ OneOf.text suffix)

/-- A number without underscores. -/
def digits : Numeral → Text
  | integer form suffix => form.mark ++ form.digits ++ OneOf.text suffix
  | floating mantissa exponent suffix _ =>
    mantissa.digits ++ (Exponent.digits exponent ++ OneOf.text suffix)

/-- The kind of the token that a number is. -/
def tokenKind : Numeral → TokenKind
  | integer .. => .intLiteral
  | floating .. => .floatLiteral

/-- A point without digits behind it, and then an exponent or a letter. -/
def CutAtPoint : Numeral → Prop
  | floating (.pointed _ none) exponent suffix _ => exponent.isSome ∨ suffix.isSome
  | _ => False

end Numeral

end JavaObjC
