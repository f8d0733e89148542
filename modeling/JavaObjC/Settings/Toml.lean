import JavaObjC.Keyed
import JavaObjC.Text.Number
import JavaObjC.Text.Utf8

/-!
# Configuration texts

Reads configuration files in TOML: lines with a key, an equals sign and a
value, tables under a bracketed name, and comments. Texts, integers, truth
values and lists of values are read as such; floating-point numbers, dates and
inline tables are recognised, and their content is not kept. A key may be given
once only. Anything else makes the whole text malformed.
-/

namespace JavaObjC

/-- A value in a configuration text. -/
inductive TomlValue where
  | text (content : Text)
  | integer (value : Int)
  | truth (value : Bool)
  | list (items : List TomlValue)
  /-- A value whose content is not kept. -/
  | other

instance : Inhabited TomlValue := ⟨.other⟩

namespace Toml

/-- Blanks within a line. -/
def isBlank (b : UInt8) : Bool := b = 32 || b = 9

/-- Control characters other than the tabulator. -/
def isControl (b : UInt8) : Bool := (b < 32 && b ≠ 9) || b = 127

/-- The text after blanks. -/
def skipBlanks (t : Text) : Text := t.dropWhile isBlank

/-- The text after the end of a line, if it is there or at the end of all. -/
def afterLine? : Text → Option Text
  | [] => some []
  | 10 :: rest => some rest
  | 13 :: 10 :: rest => some rest
  | _ => none

/-- The text after a comment, which ends before its line does. -/
def afterComment? (t : Text) : Option Text :=
  let rest := t.dropWhile fun b => !isControl b
  match rest with
  | [] => some rest
  | 10 :: _ => some rest
  | 13 :: 10 :: _ => some rest
  | _ => none

/-- The text after the rest of a line that holds blanks and a comment only. -/
def finishLine? (t : Text) : Option Text :=
  match skipBlanks t with
  | 35 :: rest => (afterComment? rest).bind afterLine?
  | rest => afterLine? rest

/-- The text after blanks, line ends and comments. -/
def skipLines : Nat → Text → Option Text
  | 0, t => some t
  | fuel + 1, t =>
    match skipBlanks t with
    | 10 :: rest => skipLines fuel rest
    | 13 :: 10 :: rest => skipLines fuel rest
    | 35 :: rest => (afterComment? rest).bind (skipLines fuel)
    | rest => some rest

/-- The character of a number of hexadecimal digits, and the text after them. -/
def codeOf? (width : Nat) (t : Text) : Option (Text × Text) := do
  let digits := t.take width
  let code ← Text.numberIn? 16 digits
  let isCharacter := code < 0xD800 || (0xE000 ≤ code && code < 0x110000)
  if digits.length = width && isCharacter then some (Text.ofCode code, t.drop width) else none

/-- The character that a backslash and the front of a text stand for. -/
def escaped? : Text → Option (Text × Text)
  | 117 :: rest => codeOf? 4 rest
  | 85 :: rest => codeOf? 8 rest
  | letter :: rest =>
    ([(98, 8), (116, 9), (110, 10), (102, 12), (114, 13), (101, 27), (34, 34), (92, 92)].lookup
      letter).map fun b => ([b], rest)
  | [] => none

/-- The content of a text in double quotes, and what follows it. -/
def quoted? : Nat → Text → Option (Text × Text)
  | 0, _ => none
  | _ + 1, [] => none
  | fuel + 1, b :: rest =>
    if b = 34 then some ([], rest)
    else if b = 92 then do
      let (character, rest) ← escaped? rest
      let (content, rest) ← quoted? fuel rest
      return (character ++ content, rest)
    else if isControl b then none
    else do
      let (content, rest) ← quoted? fuel rest
      return (b :: content, rest)

/-- The content of a text in single quotes, and what follows it. -/
def verbatim? (t : Text) : Option (Text × Text) :=
  match t.dropWhile fun b => b ≠ 39 && !isControl b with
  | 39 :: rest => some (t.takeWhile (· ≠ 39), rest)
  | _ => none

/-- The text after a line end at its front. -/
def dropLineEnd : Text → Text
  | 10 :: rest => rest
  | 13 :: 10 :: rest => rest
  | t => t

/-- Whether a backslash before a text ends its line. -/
def isLineContinuation (t : Text) : Bool :=
  match skipBlanks t with
  | 10 :: _ => true
  | 13 :: 10 :: _ => true
  | _ => false

/-- The content of a text of several lines between three quotes each, and what
follows it. Up to two quotes right before the closing ones belong to the
content. In double quotes there are escapes, and a backslash at the end of a
line joins it with the next words. -/
def longText? (quote : UInt8) : Nat → Text → Option (Text × Text)
  | 0, _ => none
  | _ + 1, [] => none
  | fuel + 1, b :: rest =>
    let quotes := (b :: rest).takeWhile (· = quote)
    if 3 ≤ quotes.length then
      if quotes.length ≤ 5 then some (quotes.drop 3, (b :: rest).drop quotes.length) else none
    else if b = 92 && quote = 34 then
      if isLineContinuation rest then
        longText? quote fuel (rest.dropWhile fun b => isBlank b || b = 10 || b = 13)
      else do
        let (character, rest) ← escaped? rest
        let (content, rest) ← longText? quote fuel rest
        return (character ++ content, rest)
    else if isControl b && b ≠ 10 && !(b = 13 && rest.head? = some 10) then none
    else do
      let (content, rest) ← longText? quote fuel rest
      return (b :: content, rest)

/-- Whether a byte can stand in a key without quotes. -/
def isKeyByte (b : UInt8) : Bool :=
  Text.isDigit b || (97 ≤ b && b ≤ 122) || (65 ≤ b && b ≤ 90) || b = 95 || b = 45

/-- One part of a key, and what follows it. -/
def keyPart? (t : Text) : Option (Text × Text) :=
  match t with
  | 34 :: rest => quoted? (rest.length + 1) rest
  | 39 :: rest => verbatim? rest
  | _ =>
    let part := t.takeWhile isKeyByte
    if part.isEmpty then none else some (part, t.dropWhile isKeyByte)

/-- The parts of a key, which points separate, and what follows the key. -/
def key? : Nat → Text → Option (List Text × Text)
  | 0, _ => none
  | fuel + 1, t => do
    let (part, rest) ← keyPart? (skipBlanks t)
    match skipBlanks rest with
    | 46 :: rest =>
      let (parts, rest) ← key? fuel rest
      return (part :: parts, rest)
    | rest => return ([part], rest)

/-- The bytes of numbers, dates and truth values. -/
def isWordByte (b : UInt8) : Bool := isKeyByte b || b = 43 || b = 46 || b = 58

/-- Whether a text holds digits, single underscores between them, and no zero in front. -/
def isWhole (t : Text) : Bool :=
  t.all (fun b => Text.isDigit b || b = 95) && Text.underscoresSeparate false false t
    && !t.isEmpty && (t.head? ≠ some 48 || t.length = 1)

/-- Whether a text is an integer: decimal with an optional sign, or with the mark of a base. -/
def isInteger (t : Text) : Bool :=
  if Text.startsWith t "0x" || Text.startsWith t "0o" || Text.startsWith t "0b" then
    t[2]? ≠ some 95
  else isWhole (Text.signed t).2

/-- Whether a text is an exponent with its mark, or nothing. -/
def isExponent : Text → Bool
  | [] => true
  | mark :: rest =>
    let digits := (Text.signed rest).2
    (mark = 101 || mark = 69) && !digits.isEmpty
      && digits.all (fun b => Text.isDigit b || b = 95)
      && Text.underscoresSeparate false false digits

/-- Whether a text is a floating-point number. -/
def isFloat (t : Text) : Bool :=
  let body := (Text.signed t).2
  if body = ("inf" : Text) || body = ("nan" : Text) then true
  else
    let isPart := fun b => Text.isDigit b || b = 95
    let rest := body.dropWhile isPart
    isWhole (body.takeWhile isPart) && match rest with
      | 46 :: after =>
        let fraction := after.takeWhile isPart
        !fraction.isEmpty && Text.underscoresSeparate false false fraction
          && isExponent (after.dropWhile isPart)
      | _ => !rest.isEmpty && isExponent rest

/-- Whether a text begins like a date or a time of day. -/
def isDateLike (t : Text) : Bool :=
  let digitsAt := fun (start n : Nat) =>
    ((t.drop start).take n).length = n && ((t.drop start).take n).all Text.isDigit
  (digitsAt 0 4 && t[4]? = some 45 && digitsAt 5 2 && t[7]? = some 45 && digitsAt 8 2)
    || (digitsAt 0 2 && t[2]? = some 58 && digitsAt 3 2)

/-- The value of a word without quotes. -/
def word? (t : Text) : Option TomlValue :=
  if t = ("true" : Text) then some (.truth true)
  else if t = ("false" : Text) then some (.truth false)
  else if isInteger t then (Text.integer? t).map .integer
  else if isFloat t || isDateLike t then some .other
  else none

mutual

/-- The value at the front of a text, and what follows it. -/
def value? : Nat → Text → Option (TomlValue × Text)
  | 0, _ => none
  | fuel + 1, t =>
    match t with
    | 34 :: 34 :: 34 :: rest =>
      (longText? 34 (rest.length + 1) (dropLineEnd rest)).map fun (content, rest) =>
        (.text content, rest)
    | 39 :: 39 :: 39 :: rest =>
      (longText? 39 (rest.length + 1) (dropLineEnd rest)).map fun (content, rest) =>
        (.text content, rest)
    | 34 :: rest => (quoted? (rest.length + 1) rest).map fun (content, rest) => (.text content, rest)
    | 39 :: rest => (verbatim? rest).map fun (content, rest) => (.text content, rest)
    | 91 :: rest => do
      let (items, rest) ← items? fuel rest
      return (.list items, rest)
    | 123 :: rest => (afterFields? fuel true rest).map fun rest => (.other, rest)
    | _ => (word? (t.takeWhile isWordByte)).map fun v => (v, t.dropWhile isWordByte)

/-- The items of a list up to its closing bracket, and what follows that. -/
def items? : Nat → Text → Option (List TomlValue × Text)
  | 0, _ => none
  | fuel + 1, t => do
    match ← skipLines (t.length + 1) t with
    | 93 :: rest => return ([], rest)
    | rest =>
      let (item, rest) ← value? fuel rest
      match ← skipLines (rest.length + 1) rest with
      | 44 :: rest =>
        let (others, rest) ← items? fuel rest
        return (item :: others, rest)
      | 93 :: rest => return ([item], rest)
      | _ => none

/-- What follows the closing brace of an inline table. -/
def afterFields? : Nat → Bool → Text → Option Text
  | 0, _, _ => none
  | fuel + 1, isFirst, t => do
    match skipBlanks t with
    | 125 :: rest => if isFirst then return rest else none
    | rest =>
      let (_, rest) ← key? (rest.length + 1) rest
      match rest with
      | 61 :: rest =>
        let (_, rest) ← value? fuel (skipBlanks rest)
        match skipBlanks rest with
        | 44 :: rest => afterFields? fuel false rest
        | 125 :: rest => return rest
        | _ => none
      | _ => none

end

/-- What has been read of a configuration text. -/
structure Draft where
  /-- The name of the table that lines belong to. -/
  table : List Text := []
  /-- The names of the tables that had their line. -/
  tables : List (List Text) := []
  /-- The keys and their values. -/
  values : List (List Text × TomlValue) := []

/-- Whether a key is new: neither given before, nor part of one given before. -/
def Draft.isFree (d : Draft) (key : List Text) : Bool :=
  d.values.all fun (other, _) => !(other.isPrefixOf key || key.isPrefixOf other)

/-- Reads one line that is not empty. The lines under a name in double brackets
are one of several tables of that name, so they are told apart by a number. -/
def line? (d : Draft) (t : Text) : Option (Draft × Text) :=
  match t with
  | 91 :: 91 :: rest => do
    let (name, rest) ← key? (rest.length + 1) rest
    match rest with
    | 93 :: 93 :: rest =>
      let rest ← finishLine? rest
      return ({ d with table := name ++ [Text.ofNat d.values.length] }, rest)
    | _ => none
  | 91 :: rest => do
    let (name, rest) ← key? (rest.length + 1) rest
    match rest with
    | 93 :: rest =>
      let rest ← finishLine? rest
      if d.tables.contains name || d.values.any fun (other, _) => other.isPrefixOf name then none
      else return ({ d with table := name, tables := name :: d.tables }, rest)
    | _ => none
  | _ => do
    let (name, rest) ← key? (t.length + 1) t
    match rest with
    | 61 :: rest =>
      let (value, rest) ← value? (rest.length + 1) (skipBlanks rest)
      let rest ← finishLine? rest
      let key := d.table ++ name
      if d.isFree key then return ({ d with values := d.values ++ [(key, value)] }, rest) else none
    | _ => none

/-- Reads the lines of a text. -/
def lines? : Nat → Draft → Text → Option Draft
  | 0, _, _ => none
  | fuel + 1, d, t => do
    match ← skipLines (t.length + 1) t with
    | [] => return d
    | rest =>
      let (d, rest) ← line? d rest
      lines? fuel d rest

/-- A byte with its ASCII capital made small. -/
def lowerByte (b : UInt8) : UInt8 := if 65 ≤ b && b ≤ 90 then b + 32 else b

/-- The values of a configuration text by the first part of their keys, in which
capitals do not count. A key with further parts has a value that is not kept. -/
def parse? (t : Text) : Option (List (Text × TomlValue)) := do
  if !Text.isUtf8 t then none
  let d ← lines? (t.length + 1) {} t
  return d.values.foldl
    (fun table (key, value) => match key with
      | [] => table
      | [name] => setKey (name.map lowerByte) value table
      | name :: _ => setKey (name.map lowerByte) .other table)
    []

end Toml

end JavaObjC
