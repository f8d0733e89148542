/-!
# Byte texts

Source files, identifiers and generated code are sequences of bytes. Nothing
requires them to be well-formed UTF-8, and every offset and column counts
bytes, so a text is a list of bytes. String constants of this library become
texts through their UTF-8 encoding.
-/

namespace JavaObjC

/-- A text is the list of its bytes. -/
abbrev Text := List UInt8

namespace Text

/-- The UTF-8 bytes of a string constant. -/
def ofString (s : String) : Text := s.toList.flatMap String.utf8EncodeChar

/-- String constants stand for their bytes wherever a text is wanted. -/
instance : Coe String Text := ⟨ofString⟩

/-- The byte of an ASCII character. -/
def byte (c : Char) : UInt8 := c.toNat.toUInt8

/-- The decimal digits of a number. -/
def ofNat (n : Nat) : Text := (Nat.toDigits 10 n).map byte

/-- The texts in order, with the separator between neighbours. -/
def join (separator : Text) : List Text → Text
  | [] => []
  | [t] => t
  | t :: rest => t ++ separator ++ join separator rest

/-- The texts in order, each followed by the separator. -/
def endEach (separator : Text) (parts : List Text) : Text :=
  parts.flatMap (· ++ separator)

/-- Whether the text begins with `head`. -/
def startsWith (t head : Text) : Bool := head.isPrefixOf t

/-- Whether the text ends with `tail`. -/
def endsWith (t tail : Text) : Bool := tail.isSuffixOf t

/-- The text without a trailing `tail`; unchanged when it does not end with it. -/
def dropTail (t tail : Text) : Text :=
  if endsWith t tail then t.take (t.length - tail.length) else t

/-- Whether `part` occurs somewhere in the text. -/
def contains (part : Text) : Text → Bool
  | [] => part.isEmpty
  | c :: rest => part.isPrefixOf (c :: rest) || contains part rest

/-- The part before the first byte `b` and the part after it. -/
def cut? (b : UInt8) : Text → Option (Text × Text)
  | [] => none
  | c :: rest =>
    if c = b then some ([], rest)
    else (cut? b rest).map fun (before, after) => (c :: before, after)

/-- The part after the last byte `b`, or the whole text when there is none. -/
def afterLast (b : UInt8) : Text → Text
  | [] => []
  | c :: rest => if b ∈ rest then afterLast b rest else if c = b then rest else c :: rest

/-- The text with every byte `b` replaced. -/
def replaceByte (b : UInt8) (image : Text) (t : Text) : Text :=
  t.flatMap fun c => if c = b then image else [c]

/-- The maximal runs of bytes other than `b`, empty ones included. -/
def splitOn (b : UInt8) : Text → List Text
  | [] => [[]]
  | c :: rest =>
    if c = b then [] :: splitOn b rest
    else match splitOn b rest with
      | [] => [[c]]
      | first :: others => (c :: first) :: others

/-- Strict lexicographic order of the bytes. -/
def before : Text → Text → Bool
  | [], [] => false
  | [], _ :: _ => true
  | _ :: _, [] => false
  | a :: s, b :: t => if a < b then true else if b < a then false else before s t

/-- A list sorted by the byte order of a key; equal keys keep their order. -/
def sortBy {α : Type} (key : α → Text) (items : List α) : List α :=
  items.mergeSort fun a b => !before (key b) (key a)

/-- The value a table of named entries holds for a name. -/
def find? {α : Type} (table : List (String × α)) (name : Text) : Option α :=
  match table with
  | [] => none
  | (key, value) :: rest => if ofString key = name then some value else find? rest name

end Text

end JavaObjC
