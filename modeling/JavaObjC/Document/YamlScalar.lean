import JavaObjC.Text.Number
import JavaObjC.Text.Quoted

/-!
# Texts in YAML

How a text is written as a YAML scalar. A text that a reader would take for
something else than a string is put in double quotes, one with line breaks
becomes a literal block, and any other text is plain if its characters allow
that, else in single quotes, else in double quotes. A text that is no UTF-8 is
written in base 64.
-/

namespace JavaObjC

namespace Yaml

open Text (isDigit numberIn? magnitude? signed fitsSigned)

/-- Whether a text is an integer of 64 bits, with or without a sign. -/
def isInteger (t : Text) : Bool :=
  let (isNegative, rest) := signed t
  let withSign := match magnitude? rest with
    | some n => fitsSigned isNegative n
    | none => false
  let withoutSign := match magnitude? t with
    | some n => n ≤ 0xFFFFFFFFFFFFFFFF
    | none => false
  withSign || withoutSign

/-- Whether a text is a signed integer with digits of one base. -/
def isIntegerIn (base : Nat) (t : Text) : Bool :=
  let (isNegative, rest) := signed t
  match numberIn? base rest with
  | some n => !rest.isEmpty && fitsSigned isNegative n
  | none => false

/-- Whether a text is an integer with a mark in front of its sign. -/
def isMarkedInteger (base : Nat) (mark t : Text) : Bool :=
  if Text.startsWith t mark then isIntegerIn base (t.drop mark.length)
  else if Text.startsWith t ("-" ++ mark) then
    isIntegerIn base ("-" ++ t.drop (mark.length + 1))
  else false

/-- A decimal number: its digits as one number, and its power of ten. -/
structure Decimal where
  digits : Text
  exponent : Int

namespace Decimal

/-- Whether a number is too large for a 64-bit floating-point number. -/
def overflows (d : Decimal) : Bool :=
  let digits := d.digits.dropWhile (· = 48)
  let size : Int := digits.length + d.exponent
  if digits.isEmpty || size < 300 then false
  else if 320 < size then true
  else
    let limit := (Nat.pow 2 54 - 1) * Nat.pow 2 970
    match numberIn? 10 digits with
    | some n =>
      if 0 ≤ d.exponent then limit ≤ n * Nat.pow 10 d.exponent.toNat
      else limit * Nat.pow 10 (-d.exponent).toNat ≤ n
    | none => false

end Decimal

/-- The exponent at the end of a number; the end alone means zero. -/
def exponent? : Text → Option Int
  | [] => some 0
  | mark :: rest =>
    if mark = 101 ∨ mark = 69 then
      let (isNegative, digits) := signed rest
      if digits.isEmpty then none
      else (numberIn? 10 digits).map fun n => if isNegative then -(n : Int) else n
    else none

/-- A number with a fraction or an exponent, or none of them. -/
def decimal? (t : Text) : Option Decimal :=
  let body := (signed t).2
  let whole := body.takeWhile isDigit
  let rest := body.dropWhile isDigit
  match rest with
  | 46 :: after =>
    let fraction := after.takeWhile isDigit
    if whole.isEmpty && fraction.isEmpty then none
    else (exponent? (after.dropWhile isDigit)).map fun e =>
      ⟨whole ++ fraction, e - fraction.length⟩
  | _ => if whole.isEmpty then none else (exponent? rest).map fun e => ⟨whole, e⟩

/-- Whether a text is a floating-point number that can be represented. -/
def isFloat (t : Text) : Bool :=
  match decimal? t with
  | some d => !d.overflows
  | none => false

/-- Whether underscores stand between digits only. -/
def separatesDigits : Bool → Text → Bool
  | _, [] => true
  | afterDigit, b :: rest =>
    if b = 95 then
      afterDigit && rest.head?.any isDigit && separatesDigits false rest
    else separatesDigits (isDigit b) rest

/-- Whether a text that starts with a point is a floating-point number; digits
may be separated by underscores. -/
def isPointFloat (t : Text) : Bool :=
  separatesDigits false t && isFloat (t.filter (· ≠ 95))

/-- One or two digits at the front of a text. -/
def shortNumber? : Text → Option (Nat × Text)
  | a :: b :: rest =>
    if isDigit a then
      if isDigit b then some ((a.toNat - 48) * 10 + (b.toNat - 48), rest)
      else some (a.toNat - 48, b :: rest)
    else none
  | [a] => if isDigit a then some (a.toNat - 48, []) else none
  | [] => none

/-- A byte that has to come next. -/
def expect? (b : UInt8) : Text → Option Text
  | [] => none
  | a :: rest => if a = b then some rest else none

/-- The number of days in a month. -/
def daysIn (year month : Nat) : Nat :=
  if month = 2 then
    if year % 4 = 0 ∧ (year % 100 ≠ 0 ∨ year % 400 = 0) then 29 else 28
  else if [4, 6, 9, 11].contains month then 30 else 31

/-- A date at the front of a text, and the text after it. -/
def afterDate? (t : Text) : Option Text := do
  let year ← numberIn? 10 (t.take 4)
  let t ← expect? 45 (t.drop 4)
  let (month, t) ← shortNumber? t
  let t ← expect? 45 t
  let (day, t) ← shortNumber? t
  if 1 ≤ month ∧ month ≤ 12 ∧ 1 ≤ day ∧ day ≤ daysIn year month then some t else none

/-- A fraction of a second that may come next. -/
def afterFraction (t : Text) : Text :=
  match t with
  | mark :: digit :: rest =>
    if (mark = 46 ∨ mark = 44) ∧ isDigit digit then rest.dropWhile isDigit else t
  | _ => t

/-- A time of day at the front of a text, and the text after it. -/
def afterTime? (t : Text) : Option Text := do
  let (hour, t) ← shortNumber? t
  let t ← expect? 58 t
  let (minute, t) ← shortNumber? t
  let t ← expect? 58 t
  let (second, t) ← shortNumber? t
  if hour < 24 ∧ minute < 60 ∧ second < 60 then some (afterFraction t) else none

/-- Whether a text is a time zone. -/
def isZone (t : Text) : Bool :=
  match t with
  | [90] => true
  | [sign, a, b, 58, c, d] =>
    (sign == 43 || sign == 45) && [a, b, c, d].all isDigit
      && (numberIn? 10 [a, b]).any (· ≤ 24) && (numberIn? 10 [c, d]).any (· ≤ 60)
  | _ => false

/-- Whether a text is a date, or a date and a time. -/
def isTimestamp (t : Text) : Bool :=
  if (t.takeWhile isDigit).length ≠ 4 then false
  else match afterDate? t with
    | none => false
    | some [] => true
    | some (mark :: rest) =>
      if mark = 84 ∨ mark = 116 then (afterTime? rest).any isZone
      else if mark = 32 then (afterTime? (rest.dropWhile (· = 32))).any List.isEmpty
      else false

/-- The groups of a number of base sixty after its first, each behind a colon. -/
def isSexagesimalRest (t : Text) : Bool :=
  let fraction := match Text.cut? 46 t with
    | some (_, after) => after
    | none => []
  let groups := match Text.cut? 46 t with
    | some (before, _) => before
    | none => t
  fraction.all (fun b => isDigit b || b == 95)
    && (Text.splitOn 58 groups).all fun group => match group with
      | [a] => isDigit a
      | [a, b] => 48 ≤ a && a ≤ 53 && isDigit b
      | _ => false

/-- Whether a text is a number of base sixty, such as `1:30`. -/
def isSexagesimal (t : Text) : Bool :=
  match Text.cut? 58 (signed t).2 with
  | some (first :: more, rest) =>
    isDigit first && more.all (fun b => isDigit b || b == 95) && isSexagesimalRest rest
  | _ => false

/-- The words that are read as truth values, as nothing or as special numbers. -/
def reservedWords : List String :=
  ["", "~", "null", "Null", "NULL", "true", "True", "TRUE", "false", "False", "FALSE",
   "y", "Y", "yes", "Yes", "YES", "on", "On", "ON", "n", "N", "no", "No", "NO", "off", "Off",
   "OFF", ".nan", ".NaN", ".NAN", ".inf", ".Inf", ".INF", "+.inf", "+.Inf", "+.INF", "-.inf",
   "-.Inf", "-.INF"]

/-- Whether a text that starts like a number is read as one. -/
def isNumber (t : Text) : Bool :=
  let plain := t.filter (· ≠ 95)
  isTimestamp t || isInteger plain || isFloat plain || isMarkedInteger 2 "0b" plain
    || isMarkedInteger 8 "0o" plain || isSexagesimal t

/-- Whether a text would not be read back as a string if it were written plainly. -/
def isReserved (t : Text) : Bool :=
  (reservedWords.map Text.ofString).contains t || (match t with
    | [] => true
    | first :: _ =>
      if first = 46 then isPointFloat t
      else if isDigit first ∨ first = 43 ∨ first = 45 then isNumber t
      else false)

/-- Whether a character is a line break. -/
def isBreak (code : Nat) : Bool :=
  code == 10 || code == 13 || code == 0x85 || code == 0x2028 || code == 0x2029

/-- Whether a character may stand unescaped. -/
def isPrintable (code : Nat) : Bool :=
  code == 10 || (32 ≤ code && code ≤ 126) || (0xA0 ≤ code && code ≤ 0xFFFD && code != 0xFEFF)

/-- Whether a character is a blank or a tab. -/
def isBlank (code : Nat) : Bool := code == 32 || code == 9

/-- The characters that may not start a plain scalar. -/
def indicators : Text := "#,[]\x7b\x7d&*!|>'\"%@`"

/-- Whether the text starts with something a plain scalar may not start with. -/
def startsIndicator (t : Text) : Bool :=
  match t with
  | [] => false
  | first :: rest =>
    let alone := match rest with
      | [] => true
      | next :: _ => next == 32 || next == 9
    List.elem first indicators || ((first == 63 || first == 58 || first == 45) && alone)
      || Text.startsWith t "---" || Text.startsWith t "..."

/-- Whether a key mark or a comment mark stands inside the text. -/
def holdsMark : Text → Bool
  | [] => false
  | [b] => b == 58
  | a :: b :: rest =>
    (a == 58 && (b == 32 || b == 9)) || ((a == 32 || a == 9 || a == 10 || a == 13) && b == 35)
      || holdsMark (b :: rest)

/-- Whether a condition holds of two neighbouring characters. -/
def anyNeighbours (p : Nat → Nat → Bool) : List Nat → Bool
  | a :: b :: rest => p a b || anyNeighbours p (b :: rest)
  | _ => false

/-- The character codes of a text. -/
def codes (t : Text) : List Nat :=
  (Text.runes t).map fun
    | .char code _ => code
    | .stray b => b.toNat

/-- What the characters of a text allow. -/
structure Shape where
  /-- Whether it may be written as it is. -/
  allowsPlain : Bool
  /-- Whether it may stand in single quotes. -/
  allowsSingle : Bool
  /-- Whether it may be a literal block. -/
  allowsBlock : Bool

/-- What the characters of a text that is not empty allow. -/
def Shape.of (t : Text) : Shape :=
  let cs := codes t
  let isEdge := fun code => code == 32 || isBreak code
  let atEdge := cs.head?.any isEdge || cs.getLast?.any isEdge
  let breaks := cs.any isBreak
  let tabs := cs.any (· == 9)
  let special := cs.any fun code => code != 9 && !isPrintable code
  let breakSpace := anyNeighbours (fun a b => isBreak a && b == 32) cs
  let spaceBreak := anyNeighbours (fun a b => a == 32 && isBreak b) cs
  let trailingSpace := cs.getLast? == some 32
  { allowsPlain :=
      !atEdge && !breakSpace && !spaceBreak && !tabs && !special && !breaks
        && !startsIndicator t && !holdsMark t
    allowsSingle := !breakSpace && !spaceBreak && !tabs && !special
    allowsBlock := !trailingSpace && !spaceBreak && !special }

/-- The letters of the characters that have one after a backslash. -/
def escapeLetters : List (Nat × Char) :=
  [(0, '0'), (7, 'a'), (8, 'b'), (9, 't'), (10, 'n'), (11, 'v'), (12, 'f'), (13, 'r'),
   (27, 'e'), (34, '"'), (92, '\\'), (0x85, 'N'), (0xA0, '_'), (0x2028, 'L'), (0x2029, 'P')]

/-- The upper-case hexadecimal digits of a number, padded to a width. -/
def upperHex (width n : Nat) : Text :=
  (Text.hex width n).map fun b => if 97 ≤ b then b - 32 else b

/-- A character by its number. -/
def escapeCode (code : Nat) : Text :=
  if code ≤ 0xFF then "\\x" ++ upperHex 2 code
  else if code ≤ 0xFFFF then "\\u" ++ upperHex 4 code
  else "\\U" ++ upperHex 8 code

/-- One piece of a text inside double quotes. -/
def doubleQuotedRune : Rune → Text
  | .stray b => [b]
  | .char code encoded =>
    if !isPrintable code || isBreak code || code == 34 || code == 92 then
      match escapeLetters.lookup code with
      | some letter => [Text.byte '\\', Text.byte letter]
      | none => escapeCode code
    else encoded

/-- A text in double quotes. -/
def doubleQuoted (t : Text) : Text :=
  "\"" ++ (Text.runes t).flatMap doubleQuotedRune ++ "\""

/-- A text in single quotes. -/
def singleQuoted (t : Text) : Text := "'" ++ Text.replaceByte 39 "''" t ++ "'"

/-- What the head of a literal block says about its indentation and its end. -/
def blockHints (t : Text) : Text :=
  let start : Text := match t with
    | 32 :: _ | 10 :: _ => "4"
    | _ => []
  let stop : Text := match t.reverse with
    | [10] => "+"
    | 10 :: 10 :: _ => "+"
    | 10 :: _ => []
    | _ => "-"
  start ++ stop

/-- A text as a literal block whose lines are indented; empty lines are not. -/
def literalBlock (indent : Nat) (t : Text) : Text :=
  let line := fun (l : Text) =>
    Text.byte '\n' :: (if l.isEmpty then [] else List.replicate indent 32 ++ l)
  "|" ++ blockHints t ++ (Text.splitOn 10 (Text.dropTail t "\n")).flatMap line

/-- The character of six bits in base 64. -/
def base64Digit (n : Nat) : UInt8 :=
  if n < 26 then (65 + n).toUInt8
  else if n < 52 then (71 + n).toUInt8
  else if n < 62 then (n - 4).toUInt8
  else if n = 62 then 43 else 47

/-- A text in base 64. -/
def base64 : Text → Text
  | a :: b :: c :: rest =>
    let n := a.toNat * 65536 + b.toNat * 256 + c.toNat
    [base64Digit (n / 262144), base64Digit (n / 4096 % 64), base64Digit (n / 64 % 64),
      base64Digit (n % 64)] ++ base64 rest
  | [a, b] =>
    let n := a.toNat * 65536 + b.toNat * 256
    [base64Digit (n / 262144), base64Digit (n / 4096 % 64), base64Digit (n / 64 % 64), 61]
  | [a] =>
    let n := a.toNat * 65536
    [base64Digit (n / 262144), base64Digit (n / 4096 % 64), 61, 61]
  | [] => []

/-- The lines of a text of at most seventy bytes each. -/
def chunks : Nat → Text → List Text
  | 0, _ => []
  | fuel + 1, t => if t.isEmpty then [] else t.take 70 :: chunks fuel (t.drop 70)

/-- A text that is no UTF-8, in base 64; a long one is a block. -/
def binary (indent : Nat) (t : Text) : Text :=
  let encoded := base64 t
  if encoded.length < 70 then "!!binary " ++ encoded
  else "!!binary " ++ literalBlock indent (Text.endEach "\n" (chunks encoded.length encoded))

/-- A text as a scalar; the lines of a block are indented as given. -/
def scalar (indent : Nat) (t : Text) : Text :=
  if !Text.isUtf8 t then binary indent t
  else
    let shape := Shape.of t
    if List.elem 10 t then
      if shape.allowsBlock then literalBlock indent t else doubleQuoted t
    else if isReserved t then doubleQuoted t
    else if shape.allowsPlain then t
    else if shape.allowsSingle then singleQuoted t
    else doubleQuoted t

end Yaml

end JavaObjC
