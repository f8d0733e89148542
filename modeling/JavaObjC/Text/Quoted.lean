import JavaObjC.Text.Utf8
import JavaObjC.Text.Printable

/-!
# Quoted texts

A text inside double quotes, as messages show it. Quotes and backslashes get
a backslash, common control characters their letter, other unprintable ASCII
characters two hexadecimal digits, other unprintable characters four or eight,
and stray bytes two; everything printable stands for itself. The result is
always well-formed UTF-8.
-/

namespace JavaObjC.Text

/-- The lower-case hexadecimal digits of a number, padded with zeros to a width. -/
def hex (width n : Nat) : Text :=
  let digits := (Nat.toDigits 16 n).map byte
  List.replicate (width - digits.length) (byte '0') ++ digits

/-- The letter that names a control character after a backslash. -/
def controlLetter? (code : Nat) : Option Char :=
  [(7, 'a'), (8, 'b'), (12, 'f'), (10, 'n'), (13, 'r'), (9, 't'), (11, 'v')].lookup code

/-- One piece of a text as it appears between quotes. -/
def quoteRune : Rune → Text
  | .stray b => "\\x" ++ hex 2 b.toNat
  | .char code encoded =>
    if code = 34 ∨ code = 92 then byte '\\' :: encoded
    else if isPrintableCode code then encoded
    else match controlLetter? code with
      | some letter => [byte '\\', byte letter]
      | none =>
        if code < 0x20 ∨ code = 0x7F then "\\x" ++ hex 2 code
        else if code < 0x10000 then "\\u" ++ hex 4 code
        else "\\U" ++ hex 8 code

/-- The text in double quotes. -/
def quote (t : Text) : Text := "\"" ++ (runes t).flatMap quoteRune ++ "\""

end JavaObjC.Text
