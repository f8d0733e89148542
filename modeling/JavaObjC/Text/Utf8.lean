import JavaObjC.Text.Basic

/-!
# Characters of a text

A text decodes from left to right into characters and stray bytes: at each
place the shortest well-formed UTF-8 sequence is one character, and a byte
that starts none stands alone. Writing the pieces one after the other gives
the text back.
-/

namespace JavaObjC

/-- One piece of a decoded text. -/
inductive Rune where
  /-- A character: its code point and the bytes that encode it. -/
  | char (code : Nat) (encoded : Text)
  /-- A byte that belongs to no well-formed sequence. -/
  | stray (byte : UInt8)
  deriving DecidableEq, Repr

namespace Rune

/-- The bytes a piece was read from. -/
def bytes : Rune → Text
  | .char _ encoded => encoded
  | .stray b => [b]

/-- Whether a piece is a character. -/
def isChar : Rune → Bool
  | .char _ _ => true
  | .stray _ => false

end Rune

namespace Text

/-- The six payload bits of a continuation byte. -/
def payload (b : UInt8) : Nat := b.toNat % 64

/-- Whether a byte is a continuation byte. -/
def isContinuation (b : UInt8) : Bool := 0x80 ≤ b && b ≤ 0xBF

/-- The least second byte of a three- or four-byte sequence that starts with `a`. -/
def secondFrom (a : UInt8) : UInt8 :=
  if a = 0xE0 then 0xA0 else if a = 0xF0 then 0x90 else 0x80

/-- The greatest second byte of a three- or four-byte sequence that starts with `a`. -/
def secondTo (a : UInt8) : UInt8 :=
  if a = 0xED then 0x9F else if a = 0xF4 then 0x8F else 0xBF

/-- The piece at the front of a non-empty text `a :: rest`. -/
def firstRune (a : UInt8) (rest : Text) : Rune :=
  if a < 0x80 then .char a.toNat [a]
  else if 0xC2 ≤ a ∧ a ≤ 0xDF then
    match rest with
    | b :: _ =>
      if isContinuation b then .char (a.toNat % 32 * 64 + payload b) [a, b] else .stray a
    | [] => .stray a
  else if 0xE0 ≤ a ∧ a ≤ 0xEF then
    match rest with
    | b :: c :: _ =>
      if secondFrom a ≤ b ∧ b ≤ secondTo a ∧ isContinuation c then
        .char (a.toNat % 16 * 4096 + payload b * 64 + payload c) [a, b, c]
      else .stray a
    | _ => .stray a
  else if 0xF0 ≤ a ∧ a ≤ 0xF4 then
    match rest with
    | b :: c :: d :: _ =>
      if secondFrom a ≤ b ∧ b ≤ secondTo a ∧ isContinuation c ∧ isContinuation d then
        .char (a.toNat % 8 * 262144 + payload b * 4096 + payload c * 64 + payload d) [a, b, c, d]
      else .stray a
    | _ => .stray a
  else .stray a

/-- Decodes at most `fuel` pieces. -/
def runesFrom : Nat → Text → List Rune
  | 0, _ => []
  | _ + 1, [] => []
  | fuel + 1, a :: rest =>
    let r := firstRune a rest
    r :: runesFrom fuel ((a :: rest).drop r.bytes.length)

/-- The pieces of a text from left to right; no text has more pieces than bytes. -/
def runes (t : Text) : List Rune := runesFrom t.length t

/-- Whether a text is well-formed UTF-8. -/
def isUtf8 (t : Text) : Bool := (runes t).all Rune.isChar

/-- The bytes of the character with a given code point. -/
def ofCode (code : Nat) : Text := String.utf8EncodeChar (Char.ofNat code)

/-- The string a text encodes, if it is well-formed UTF-8. -/
def toString? (t : Text) : Option String :=
  let chars := (runes t).filterMap fun
    | .char code _ => some (Char.ofNat code)
    | .stray _ => none
  if isUtf8 t then some (String.ofList chars) else none

end Text

end JavaObjC
