import JavaObjC.Text.Utf8

/-!
# White space

The characters with the Unicode property `White_Space`, and the text with
them removed from both ends. A byte that is not part of a character is never
white space.
-/

namespace JavaObjC.Text

/-- The code points with the property `White_Space`. -/
def isBlankCode (code : Nat) : Bool :=
  (9 ≤ code && code ≤ 13) || code == 0x20 || code == 0x85 || code == 0xA0 || code == 0x1680
    || (0x2000 ≤ code && code ≤ 0x200A) || code == 0x2028 || code == 0x2029 || code == 0x202F
    || code == 0x205F || code == 0x3000

/-- Whether a piece of a text is a white space character. -/
def isBlank : Rune → Bool
  | .char code _ => isBlankCode code
  | .stray _ => false

/-- The text without white space at its ends. -/
def trim (t : Text) : Text :=
  ((((runes t).dropWhile isBlank).reverse.dropWhile isBlank).reverse).flatMap Rune.bytes

/-- The maximal runs of characters that are not white space. -/
def words (t : Text) : List Text :=
  (go [] (runes t)).map (·.flatMap Rune.bytes)
where
  /-- Collects the word in progress, and the words after it. -/
  go (word : List Rune) : List Rune → List (List Rune)
    | [] => if word.isEmpty then [] else [word]
    | r :: rest =>
      if isBlank r then
        if word.isEmpty then go [] rest else word :: go [] rest
      else go (word ++ [r]) rest

end JavaObjC.Text
