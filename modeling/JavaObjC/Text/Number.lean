import JavaObjC.Text.Basic

/-!
# Integers in texts

Reads integers with an optional sign and an optional mark for the base: `0x`
for base 16, `0b` for base 2, and `0o` or a leading zero for base 8. Digits may
be separated by single underscores.
-/

namespace JavaObjC.Text

/-- Whether a byte is a decimal digit. -/
def isDigit (b : UInt8) : Bool := 48 ≤ b && b ≤ 57

/-- The value of a digit in a base. -/
def digitIn? (base : Nat) (b : UInt8) : Option Nat :=
  let value :=
    if isDigit b then b.toNat - 48
    else if 97 ≤ b && b ≤ 122 then b.toNat - 87
    else if 65 ≤ b && b ≤ 90 then b.toNat - 55
    else base
  if value < base then some value else none

/-- The number that digits of a base spell. -/
def numberIn? (base : Nat) (digits : Text) : Option Nat :=
  digits.foldl (fun total b => do return (← total) * base + (← digitIn? base b)) (some 0)

/-- The magnitude of an integer written with a mark for its base. -/
def magnitude? : Text → Option Nat
  | [] => none
  | 48 :: mark :: first :: rest =>
    let digits := first :: rest
    if mark = 98 ∨ mark = 66 then numberIn? 2 digits
    else if mark = 111 ∨ mark = 79 then numberIn? 8 digits
    else if mark = 120 ∨ mark = 88 then numberIn? 16 digits
    else numberIn? 8 (mark :: digits)
  | 48 :: rest => numberIn? 8 rest
  | digits => numberIn? 10 digits

/-- A sign in front of a text, and the text after it. -/
def signed (t : Text) : Bool × Text :=
  match t with
  | 45 :: rest => (true, rest)
  | 43 :: rest => (false, rest)
  | _ => (false, t)

/-- Whether a magnitude with a sign is a 64-bit integer. -/
def fitsSigned (isNegative : Bool) (n : Nat) : Bool :=
  if isNegative then n ≤ 0x8000000000000000 else n < 0x8000000000000000

/-- Whether a byte is a digit of a number: up to nine, or up to `f` after the mark of base 16. -/
def isDigitAfter (hasHexMark : Bool) (b : UInt8) : Bool :=
  isDigit b || (hasHexMark && (digitIn? 16 b).isSome)

/-- Whether every underscore of a number stands between digits. -/
def underscoresSeparate (isHex afterDigit : Bool) : Text → Bool
  | [] => true
  | b :: rest =>
    if b = 95 then
      afterDigit && rest.head?.any (isDigitAfter isHex) && underscoresSeparate isHex false rest
    else underscoresSeparate isHex (isDigitAfter isHex b) rest

/-- Whether the underscores of an unsigned number are well placed; the mark of
a base counts as a digit. -/
def hasGoodUnderscores (t : Text) : Bool :=
  match t with
  | 48 :: mark :: rest =>
    if [98, 66, 111, 79].contains mark then underscoresSeparate false true rest
    else if [120, 88].contains mark then underscoresSeparate true true rest
    else underscoresSeparate false false t
  | _ => underscoresSeparate false false t

/-- The 64-bit integer a text spells. -/
def integer? (t : Text) : Option Int :=
  let (isNegative, rest) := signed t
  match magnitude? (rest.filter (· ≠ 95)) with
  | some n =>
    if hasGoodUnderscores rest && fitsSigned isNegative n then
      some (if isNegative then -(n : Int) else n)
    else none
  | none => none

end JavaObjC.Text
