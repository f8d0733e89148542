import JavaObjC.Document.Basic
import JavaObjC.Text.Quoted

/-!
# Documents as JSON

Indented JSON with two blanks per level. The characters that HTML gives a
meaning and the two Unicode line separators are escaped, and a byte that is no
part of a character becomes the replacement character.
-/

namespace JavaObjC

namespace Document

/-- The letters of the control characters that have one. -/
def jsonLetters : List (Nat × Char) :=
  [(8, 'b'), (9, 't'), (10, 'n'), (12, 'f'), (13, 'r')]

/-- Whether a character is written by its number. -/
def isJsonEscaped (code : Nat) : Bool :=
  code < 32 || code == 38 || code == 60 || code == 62 || code == 0x2028 || code == 0x2029

/-- One piece of a text as it appears in a JSON string. -/
def jsonRune : Rune → Text
  | .stray _ => "\\ufffd"
  | .char code encoded =>
    if code = 34 ∨ code = 92 then Text.byte '\\' :: encoded
    else match jsonLetters.lookup code with
      | some letter => [Text.byte '\\', Text.byte letter]
      | none => if isJsonEscaped code then "\\u" ++ Text.hex 4 code else encoded

/-- A JSON string. -/
def jsonString (t : Text) : Text := "\"" ++ (Text.runes t).flatMap jsonRune ++ "\""

/-- The start of a line at a depth. -/
def jsonLine (depth : Nat) : Text := Text.byte '\n' :: List.replicate (2 * depth) 32

mutual

/-- A document as JSON, inside a given number of brackets. -/
def jsonAt (depth : Nat) : Document → Text
  | .text content => jsonString content
  | .list [] => "[]"
  | .list (item :: rest) =>
    "[" ++ jsonLine (depth + 1) ++ jsonAt (depth + 1) item ++ jsonItems (depth + 1) rest
      ++ jsonLine depth ++ "]"
  | .record [] => "\x7b\x7d"
  | .record ((name, value) :: rest) =>
    "\x7b" ++ jsonLine (depth + 1) ++ jsonString name ++ ": " ++ jsonAt (depth + 1) value
      ++ jsonFields (depth + 1) rest ++ jsonLine depth ++ "\x7d"

/-- Further items of a list. -/
def jsonItems (depth : Nat) : List Document → Text
  | [] => []
  | item :: rest => "," ++ jsonLine depth ++ jsonAt depth item ++ jsonItems depth rest

/-- Further fields of a record. -/
def jsonFields (depth : Nat) : List (String × Document) → Text
  | [] => []
  | (name, value) :: rest =>
    "," ++ jsonLine depth ++ jsonString name ++ ": " ++ jsonAt depth value
      ++ jsonFields depth rest

end

/-- A document as a JSON file. -/
def toJson (d : Document) : Text := jsonAt 0 d ++ "\n"

end Document

end JavaObjC
