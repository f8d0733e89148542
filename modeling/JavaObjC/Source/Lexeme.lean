import JavaObjC.Source.Token

/-!
# Lexemes

Splits a source text into tokens. `lexeme` reads the kind and the length of
the token at the front of a text; `tokens` repeats it to the end, so that the
spans touch and the literals concatenate to the text. Bytes of multi-byte
characters count as letters, and a zero byte ends line comments, characters
and strings just as the end of the text does.
-/

namespace JavaObjC.Lexeme

/-- Blanks between tokens. -/
def isSpace (b : UInt8) : Bool := b == 32 || b == 9 || b == 13 || b == 10 || b == 12

/-- Decimal digits. -/
def isDigit (b : UInt8) : Bool := 48 ≤ b && b ≤ 57

/-- Hexadecimal digits. -/
def isHexDigit (b : UInt8) : Bool :=
  isDigit b || (97 ≤ b && b ≤ 102) || (65 ≤ b && b ≤ 70)

/-- Bytes an identifier can start with. -/
def isLetter (b : UInt8) : Bool :=
  128 ≤ b || (97 ≤ b && b ≤ 122) || (65 ≤ b && b ≤ 90) || b == 95 || b == 36

/-- Bytes an identifier can go on with. -/
def isLetterOrDigit (b : UInt8) : Bool := isLetter b || isDigit b

/-- A digit of a decimal number, or the underscore between digits. -/
def isDigitPart (b : UInt8) : Bool := isDigit b || b == 95

/-- A digit of a hexadecimal number, or the underscore between digits. -/
def isHexPart (b : UInt8) : Bool := isHexDigit b || b == 95

/-- A digit of a binary number, or the underscore between digits. -/
def isBinaryPart (b : UInt8) : Bool := b == 48 || b == 49 || b == 95

/-- Whether the front byte satisfies a test. -/
def frontIs (test : UInt8 → Bool) (t : Text) : Bool := (t.head?.map test).getD false

/-- The text after its front byte if that is one of the given characters. -/
def dropOne (options : List Char) (t : Text) : Text :=
  match t with
  | b :: rest => if options.any (Text.byte · == b) then rest else t
  | [] => []

/-- The text after an exponent that the given letters introduce, and whether there was one. -/
def exponent (letters : List Char) (t : Text) : Bool × Text :=
  match t with
  | b :: rest =>
    if letters.any (Text.byte · == b) then
      (true, (dropOne ['+', '-'] rest).dropWhile isDigitPart)
    else (false, t)
  | [] => (false, [])

/-- The text after the fraction of a decimal number, and whether there was one.
A point counts if a digit follows, or if neither a letter nor another point does. -/
def fraction (t : Text) : Bool × Text :=
  match t with
  | 46 :: rest =>
    if frontIs isDigit rest then (true, rest.dropWhile isDigitPart)
    else if frontIs isLetter rest || frontIs (· == 46) rest then (false, t)
    else (true, rest)
  | _ => (false, t)

/-- The text after a decimal number, and whether the number is floating. -/
def decimal (t : Text) : Bool × Text :=
  let (hasFraction, t) := fraction (t.dropWhile isDigitPart)
  let (hasExponent, t) := exponent ['e', 'E'] t
  let floating := hasFraction || hasExponent
  match t with
  | b :: rest =>
    if ['f', 'F', 'd', 'D'].any (Text.byte · == b) then (true, rest)
    else (floating, dropOne ['l', 'L'] t)
  | [] => (floating, [])

/-- The text after the fraction of a hexadecimal number, and whether there was one. -/
def hexFraction (t : Text) : Bool × Text :=
  match t with
  | 46 :: rest => (true, rest.dropWhile isHexPart)
  | _ => (false, t)

/-- The text after the digits of a hexadecimal number, and whether the number is floating. -/
def hexadecimal (t : Text) : Bool × Text :=
  let (hasPoint, t) := hexFraction (t.dropWhile isHexPart)
  let (hasExponent, t) := exponent ['p', 'P'] t
  if hasPoint || hasExponent then (true, dropOne ['f', 'F', 'd', 'D'] t)
  else (false, dropOne ['l', 'L'] t)

/-- The text after a number, and whether the number is floating. -/
def number (t : Text) : Bool × Text :=
  match t with
  | 48 :: b :: rest =>
    if b = 120 ∨ b = 88 then hexadecimal rest
    else if b = 98 ∨ b = 66 then (false, dropOne ['l', 'L'] (rest.dropWhile isBinaryPart))
    else decimal t
  | _ => decimal t

/-- The text from the first byte that ends a character or string: the closing
quote, a line break, a zero byte or the end. A backslash protects the next byte. -/
def quotedRest (quote : UInt8) : Text → Text
  | [] => []
  | b :: rest =>
    if b = 0 ∨ b = quote ∨ b = 10 then b :: rest
    else if b = 92 then
      match rest with
      | [] => []
      | _ :: rest => quotedRest quote rest
    else quotedRest quote rest

/-- The text after the closing quotes of a text block, if there are any. -/
def textBlockRest? : Text → Option Text
  | [] => none
  | 34 :: 34 :: 34 :: rest => some rest
  | b :: rest =>
    if b = 92 then
      match rest with
      | [] => none
      | _ :: rest => textBlockRest? rest
    else textBlockRest? rest

/-- The text after the end of a block comment, if there is one. -/
def commentRest? : Text → Option Text
  | [] => none
  | 42 :: 47 :: rest => some rest
  | _ :: rest => commentRest? rest

/-- A character or string whose opening quote has been read: its kind if it is closed. -/
def quoted (kind : TokenKind) (quote : UInt8) (t : Text) : TokenKind × Text :=
  match quotedRest quote t with
  | b :: rest => if b = quote then (kind, rest) else (.error, b :: rest)
  | [] => (.error, [])

/-- The kind of the token at the front of a non-empty text, and the text after it. -/
def next (b : UInt8) (rest : Text) : TokenKind × Text :=
  let t := b :: rest
  if Text.startsWith t "//" then
    (.lineComment, (rest.drop 1).dropWhile fun c => c != 0 && c != 10)
  else if Text.startsWith t "/*" then
    match commentRest? (rest.drop 1) with
    | some after => (.blockComment, after)
    | none => (.error, [])
  else if isSpace b then (.whitespace, rest.dropWhile isSpace)
  else if isLetter b then
    let after := rest.dropWhile isLetterOrDigit
    let word := t.take (t.length - after.length)
    (((Keyword.ofSpelling? word).map TokenKind.keyword).getD .identifier, after)
  else if isDigit b || (b == 46 && frontIs isDigit rest) then
    let (floating, after) := number t
    (if floating then .floatLiteral else .intLiteral, after)
  else if b = 39 then quoted .charLiteral 39 rest
  else if b = 34 then
    if Text.startsWith t "\"\"\"" then
      match textBlockRest? (rest.drop 2) with
      | some after => (.textBlock, after)
      | none => (.error, [])
    else quoted .stringLiteral 34 rest
  else match Symbol.atFront? t with
    | some mark => (.symbol mark, t.drop (Text.ofString mark.spelling).length)
    | none => (.error, rest)

/-- The tokens of a text that begins at a place, at most `fuel` of them before the end. -/
def tokensFrom : Nat → Position → Text → List Token
  | 0, p, _ => [⟨.eof, ⟨p, p⟩, []⟩]
  | _ + 1, p, [] => [⟨.eof, ⟨p, p⟩, []⟩]
  | fuel + 1, p, b :: rest =>
    let (kind, after) := next b rest
    let literal := (b :: rest).take (rest.length + 1 - after.length)
    let stop := p.after literal
    ⟨kind, ⟨p, stop⟩, literal⟩ :: tokensFrom fuel stop after

/-- The tokens of a source, blanks and comments included, and the end of file last. -/
def tokens (source : Text) : List Token := tokensFrom source.length Position.start source

end JavaObjC.Lexeme
