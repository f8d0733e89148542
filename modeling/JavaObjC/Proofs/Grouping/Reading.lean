import JavaObjC.Proofs.Wording

/-!
# How a generated expression is read

The text of an expression in the generated language falls into words: names,
numbers, quotations and marks, each as long as it can be. Two texts one after
the other have the words of both, unless the last word of the first one goes on
with the second one.

The words are read from left to right with a stack of what is still open: an
operator with its left operand, a sign or a cast, a condition, or a parenthesis.
Before an operator everything on the stack that binds more tightly is finished.
What stands in square brackets, and arguments, are kept as they are.

The main statements say how a text is read that is put together from texts
that can be read alone. What stands in front of a text takes as much of it as
binds more tightly.
-/

namespace JavaObjC

namespace C

open Lexeme (isDigit isLetter isLetterOrDigit isSpace)

/-- The marks of more than one byte. What a mark begins with is a mark, too. -/
def longMarks : List String :=
  ["==", "!=", "<=", ">=", "&&", "||", "++", "--", "->", "?:", "<<", ">>", "+=", "-=", "*=", "/=",
   "%=", "&=", "|=", "^=", "<<=", ">>="]

/-- Whether a number that has been begun goes on with a byte. -/
def continuesNumber (w : Text) (b : UInt8) : Bool :=
  isLetterOrDigit b || b == 46 ||
    ((b == 43 || b == 45) && (w.getLast? == some 69 || w.getLast? == some 101))

/-- Whether a word that has been begun goes on with a byte. -/
def continues (w : Text) (b : UInt8) : Bool :=
  match w with
  | [] => false
  | [46] => isDigit b
  | first :: rest =>
    if isDigit first || (first == 46 && !rest.isEmpty) then continuesNumber w b
    else if isLetter first then isLetterOrDigit b
    else (longMarks.map Text.ofString).contains (w ++ [b])

/-- What has been read of the word at the end of a text. -/
inductive Pending where
  /-- Nothing. -/
  | nothing
  /-- A word that may go on. -/
  | word (w : Text)
  /-- A quotation that is not closed, behind a backslash or not. -/
  | quoted (quote : UInt8) (isEscaped : Bool) (w : Text)

namespace Pending

/-- What a byte begins. -/
def start (b : UInt8) : Pending :=
  if isSpace b then nothing
  else if b == 34 || b == 39 then quoted b false [b]
  else word [b]

/-- The words that end in front of a byte, and what is read then. -/
def next (p : Pending) (b : UInt8) : List Text × Pending :=
  match p with
  | nothing => ([], start b)
  | word w => if continues w b then ([], word (w ++ [b])) else ([w], start b)
  | quoted quote isEscaped w =>
    if !isEscaped && b == quote then ([w ++ [b]], nothing)
    else ([], quoted quote (!isEscaped && b == 92) (w ++ [b]))

/-- What is read of the last word after some more bytes. -/
def after (p : Pending) (t : Text) : Pending := t.foldl (fun p b => (p.next b).2) p

/-- A text does not go on with the word that has been begun. -/
def Parts (p : Pending) (t : Text) : Prop :=
  ∀ w, p = word w → ∀ b ∈ t.head?, continues w b = false

end Pending

/-- The words of a text after what has been read; none if a quotation is not closed. -/
def scan (p : Pending) : Text → Option (List Text)
  | [] =>
    match p with
    | .nothing => some []
    | .word w => some [w]
    | .quoted .. => none
  | b :: t => (scan (p.next b).2 t).map ((p.next b).1 ++ ·)

/-- The words of a text. -/
def words (t : Text) : Option (List Text) := scan .nothing t

section Appending

variable {p : Pending} {s t : Text} {b : UInt8} {ws ws' : List Text}

theorem scan_eq_of_parts (h : p.Parts t) (hp : ∀ quote isEscaped w, p ≠ .quoted quote isEscaped w) :
    scan p t = (scan .nothing t).map ((match p with | .word w => [w] | _ => []) ++ ·) := by
  cases p with
  | nothing => simp
  | quoted quote isEscaped w => exact absurd rfl (hp quote isEscaped w)
  | word w =>
    cases t with
    | nil => simp [scan]
    | cons b t =>
      have hb : continues w b = false := h w rfl b rfl
      simp [scan, Pending.next, hb]

/-- The words of two texts are those of the first one and those of the second one. -/
theorem scan_append (hs : scan p s = some ws) (h : (p.after s).Parts t) :
    scan p (s ++ t) = (words t).map (ws ++ ·) := by
  induction s generalizing p ws with
  | nil =>
    have hp : ∀ quote isEscaped w, p ≠ .quoted quote isEscaped w := by
      rintro quote isEscaped w rfl
      cases hs
    have hparts : scan p t = _ := scan_eq_of_parts h hp
    rw [List.nil_append, hparts, words]
    cases p <;> cases hs <;> rfl
  | cons b s ih =>
    obtain ⟨ws', hws', rfl⟩ := Option.map_eq_some_iff.1 hs
    rw [List.cons_append, scan, ih hws' h, Option.map_map]
    simp [Function.comp_def]

theorem words_append (hs : words s = some ws) (ht : words t = some ws')
    (h : (Pending.nothing.after s).Parts t) : words (s ++ t) = some (ws ++ ws') := by
  rw [words, scan_append hs h, ht, Option.map_some]

/-- A byte that continues no word. -/
def isBreak (b : UInt8) : Bool := b == 32 || b == 41 || b == 93 || b == 44

/-- Nothing goes on with a blank, a closing bracket or a comma. -/
theorem not_continues (w : Text) (hb : isBreak b = true) : continues w b = false := by
  have hbytes : ∀ b : UInt8, isBreak b = true → isLetterOrDigit b = false ∧ isDigit b = false ∧
      (b == 46) = false ∧ (b == 43 || b == 45) = false ∧
      ∀ m ∈ longMarks.map Text.ofString, b ∉ m := Lexeme.forall_byte (by decide +kernel)
  obtain ⟨hletter, hdigit, hpoint, hsign, hmarks⟩ := hbytes b hb
  have hlong : (longMarks.map Text.ofString).contains (w ++ [b]) = false := by
    rw [List.contains_eq_mem, decide_eq_false_iff_not]
    exact fun hmem => hmarks _ hmem (by simp)
  unfold continues
  split
  · rfl
  · exact hdigit
  · simp only [continuesNumber, hletter, hpoint, hsign, Bool.false_and, Bool.or_self, hlong,
      ite_self]

/-- A text that begins with a blank, a closing bracket or a comma stands apart. -/
theorem Pending.parts_of_break (p : Pending) (h : ∀ b ∈ t.head?, isBreak b = true) : p.Parts t :=
  fun w _ b hb => not_continues w (h b hb)

/-- A byte that no mark goes on with, and no word begins with. -/
def isBracket (b : UInt8) : Bool := b == 40 || b == 41 || b == 91 || b == 93 || b == 44 || b == 64

/-- A bracket does not go on with anything. -/
theorem not_continues_bracket (c : UInt8) (hb : isBracket b = true) :
    continues [b] c = false := by
  have hbytes : ∀ b : UInt8, isBracket b = true → b ≠ 46 ∧ isDigit b = false ∧
      (b == 46) = false ∧ isLetter b = false ∧
      ∀ m ∈ longMarks.map Text.ofString, m.head? ≠ some b := Lexeme.forall_byte (by decide +kernel)
  obtain ⟨hne, hdigit, hpoint, hletter, hmarks⟩ := hbytes b hb
  have hlong : (longMarks.map Text.ofString).contains ([b] ++ [c]) = false := by
    rw [List.contains_eq_mem, decide_eq_false_iff_not]
    exact fun hmem => hmarks _ hmem rfl
  unfold continues
  split
  · rfl
  · next heq => exact absurd (List.cons.inj heq).1 hne
  · next first rest heq =>
    obtain ⟨rfl, rfl⟩ := List.cons.inj heq
    simp only [hdigit, hpoint, hletter, hlong, Bool.false_and, Bool.or_self, Bool.false_eq_true,
      if_false]

/-- What has been read goes on with nothing. -/
def Pending.isFree : Pending → Bool
  | .nothing => true
  | .word [b] => isBracket b
  | _ => false

theorem Pending.parts_of_free (h : p.isFree = true) : p.Parts t := by
  rintro w rfl b -
  match w, h with
  | [c], h => exact not_continues_bracket b h

theorem Pending.after_append (p : Pending) (s t : Text) : p.after (s ++ t) = (p.after s).after t :=
  List.foldl_append

/-- Behind a text that is read, a blank or a closing bracket begins anew. -/
theorem next_of_break (hs : scan p s = some ws) (hb : isBreak b = true) :
    ((p.after s).next b).2 = .start b := by
  induction s generalizing p ws with
  | nil =>
    cases p with
    | nothing => rfl
    | quoted quote isEscaped w => cases hs
    | word w =>
      change (Pending.next (.word w) b).2 = _
      rw [Pending.next, if_neg (by simp [not_continues w hb])]
  | cons c s ih =>
    obtain ⟨ws', hws', -⟩ := Option.map_eq_some_iff.1 hs
    exact ih hws'

/-- A text that stands between two others: it begins with a blank or a closing bracket, and
nothing goes on with what follows it. -/
structure IsLink (c : Text) : Prop where
  front : ∃ b ∈ c.head?, isBreak b = true
  free : (Pending.nothing.after c).isFree = true

/-- The words of two texts with a third one between them. -/
theorem words_link {c : Text} {cs : List Text} (hs : words s = some ws) (hc : words c = some cs)
    (ht : words t = some ws') (hlink : IsLink c) :
    words (s ++ c ++ t) = some (ws ++ cs ++ ws') := by
  obtain ⟨⟨b, hb, hbreak⟩, hfree⟩ := hlink
  obtain ⟨c', rfl⟩ : ∃ c', c = b :: c' := by
    cases c with
    | nil => cases hb
    | cons b' c' => exact ⟨c', by rw [Option.mem_some_iff.1 hb]⟩
  have hboth : words (s ++ b :: c') = some (ws ++ cs) :=
    words_append hs hc (Pending.parts_of_break _ (by simpa using hbreak))
  refine words_append hboth ht (Pending.parts_of_free ?_)
  rw [Pending.after_append, Pending.after, List.foldl_cons, next_of_break hs hbreak]
  exact hfree

end Appending

end C

namespace C

open Lexeme (isDigit isLetter)

/-- Expressions of the generated language, as they are read. -/
inductive Expr where
  /-- A name, a number or a quotation. -/
  | word (w : Text)
  /-- What stands in square brackets: a message or the elements of an array. -/
  | bracketed (ws : List Text)
  /-- An expression in parentheses. -/
  | group (e : Expr)
  /-- An operator in front of its operand. -/
  | sign (op : Text) (e : Expr)
  | cast (type : List Text) (e : Expr)
  /-- An operand with an index, arguments, a member or a step behind it. -/
  | suffixed (e : Expr) (ws : List Text)
  | operation (op : Text) (l r : Expr)
  | choice (c yes no : Expr)
  deriving DecidableEq

/-- The operators between two operands, and how tightly they bind. -/
def precedences : List (String × Nat) :=
  [(",", 1), ("=", 2), ("+=", 2), ("-=", 2), ("*=", 2), ("/=", 2), ("%=", 2), ("&=", 2), ("|=", 2),
   ("^=", 2), ("<<=", 2), (">>=", 2), ("?:", 3), ("||", 4), ("&&", 5), ("|", 6), ("^", 7), ("&", 8),
   ("==", 9), ("!=", 9), ("<", 10), (">", 10), ("<=", 10), (">=", 10), ("<<", 11), (">>", 11),
   ("+", 12), ("-", 12), ("*", 13), ("/", 13), ("%", 13)]

/-- How tightly assignments bind. -/
def assignmentLevel : Nat := 2

/-- How tightly choices bind. -/
def choiceLevel : Nat := 3

/-- How tightly an operator between two operands binds. -/
def precedence? (op : Text) : Option Nat := Text.find? precedences op

/-- How tightly an operator between two operands binds. -/
def precedence (op : Text) : Nat := (precedence? op).getD 0

/-- Whether a part that binds as tightly as the first number is finished before an operator that
binds as tightly as the second one. Assignments are grouped from the right. -/
def finishes (p q : Nat) : Bool := q < p || (p == q && p != assignmentLevel && p != choiceLevel)

/-- What is open in front of an expression. -/
inductive Frame where
  | operation (l : Expr) (op : Text)
  | sign (op : Text)
  | cast (type : List Text)
  /-- A condition and the question mark. -/
  | question (c : Expr)
  /-- A condition and what is chosen if it holds. -/
  | colon (c yes : Expr)
  /-- An opening parenthesis. -/
  | paren

namespace Frame

/-- What becomes of a frame with the expression behind it. -/
def fill (f : Frame) (e : Expr) : Expr :=
  match f with
  | operation l op => .operation op l e
  | sign op => .sign op e
  | cast type => .cast type e
  | question _ => e
  | colon c yes => .choice c yes e
  | paren => e

/-- Whether a frame is finished before an operator. -/
def yields (f : Frame) (q : Nat) : Bool :=
  match f with
  | operation _ op => finishes (precedence op) q
  | sign _ | cast _ => true
  | question _ | paren => false
  | colon _ _ => finishes choiceLevel q

end Frame

/-- Finishes what binds more tightly than an operator. -/
def settle (q : Nat) : List Frame → Expr → List Frame × Expr
  | [], e => ([], e)
  | f :: s, e => if f.yields q then settle q s (f.fill e) else (f :: s, e)

/-- Where reading is. -/
inductive Mode where
  /-- In front of an operand. -/
  | operand
  /-- Behind an operand. -/
  | after (e : Expr)
  /-- In the type of a cast. -/
  | type (ws : List Text)
  /-- Behind a point or an arrow. -/
  | member (e : Expr) (w : Text)
  /-- In brackets, with how many are open, and the operand in front of them. -/
  | nested (depth : Nat) (ws : List Text) (e : Option Expr)

/-- What is open, innermost first, and where reading is. -/
structure State where
  stack : List Frame
  mode : Mode

/-- The operators in front of an operand. -/
def signs : List String := ["-", "+", "~", "!", "++", "--", "@"]

/-- The words that a type is written with. -/
def typeWords : List String :=
  ["void", "int", "long", "short", "char", "float", "double", "unsigned", "BOOL", "unichar", "id"]

/-- Whether a word is an operand: a name, a number or a quotation. -/
def isAtom (w : Text) : Bool :=
  match w with
  | [] => false
  | first :: rest =>
    isLetter first || isDigit first || first == 34 || first == 39 || (first == 46 && !rest.isEmpty)

/-- What a word is in front of an operand. -/
inductive Front where
  | paren | bracket | sign | type | closing | atom | other
  deriving DecidableEq

/-- What a word is in front of an operand. -/
def front (w : Text) : Front :=
  if w = "(" then .paren
  else if w = "[" then .bracket
  else if (signs.map Text.ofString).contains w then .sign
  else if (typeWords.map Text.ofString).contains w then .type
  else if w = ")" then .closing
  else if isAtom w then .atom
  else .other

/-- What a word is behind an operand. -/
inductive Back where
  | operator (q : Nat)
  | question | colon | closing | opening | point | step | other
  deriving DecidableEq

/-- What a word is behind an operand. -/
def back (w : Text) : Back :=
  match precedence? w with
  | some q => .operator q
  | none =>
    if w = "?" then .question
    else if w = ":" then .colon
    else if w = ")" then .closing
    else if w = "(" ∨ w = "[" then .opening
    else if w = "." ∨ w = "->" then .point
    else if w = "++" ∨ w = "--" then .step
    else .other

/-- Begins the type of a cast behind a parenthesis. -/
def openType (s : List Frame) (w : Text) : Option State :=
  match s with
  | .paren :: s => some ⟨s, .type [w]⟩
  | _ => none

/-- Takes a name and a star in parentheses as the type of a cast. -/
def closePointer (s : List Frame) : Option State :=
  match s with
  | .operation (.word t) star :: .paren :: s =>
    if star = "*" then some ⟨.cast [t, star] :: s, .operand⟩ else none
  | _ => none

/-- Reads a word in front of an operand. -/
def readFront (s : List Frame) (w : Text) : Front → Option State
  | .paren => some ⟨.paren :: s, .operand⟩
  | .bracket => some ⟨s, .nested 1 [w] none⟩
  | .sign => some ⟨.sign w :: s, .operand⟩
  | .type => openType s w
  | .closing => closePointer s
  | .atom => some ⟨s, .after (.word w)⟩
  | .other => none

/-- Goes on with the other choice behind a colon. -/
def nextChoice (settled : List Frame × Expr) : Option State :=
  match settled with
  | (.question c :: s, yes) => some ⟨.colon c yes :: s, .operand⟩
  | _ => none

/-- Closes a parenthesis. -/
def closeGroup (settled : List Frame × Expr) : Option State :=
  match settled with
  | (.paren :: s, e) => some ⟨s, .after (.group e)⟩
  | _ => none

/-- Reads a word behind an operand. -/
def readBack (s : List Frame) (e : Expr) (w : Text) : Back → Option State
  | .operator q => some ⟨.operation (settle q s e).2 w :: (settle q s e).1, .operand⟩
  | .question => some ⟨.question (settle choiceLevel s e).2 :: (settle choiceLevel s e).1, .operand⟩
  | .colon => nextChoice (settle 0 s e)
  | .closing => closeGroup (settle 0 s e)
  | .opening => some ⟨s, .nested 1 [w] (some e)⟩
  | .point => some ⟨s, .member e w⟩
  | .step => some ⟨s, .after (.suffixed e [w])⟩
  | .other => none

/-- Whether a word is an opening bracket. -/
def opens (w : Text) : Bool := w == "(" || w == "[" || w == "\x7b"

/-- Whether a word is a closing bracket. -/
def closes (w : Text) : Bool := w == ")" || w == "]" || w == "\x7d"

/-- How many brackets are open behind a word. -/
def depthAfter (w : Text) (depth : Nat) : Nat :=
  if opens w then depth + 1 else if closes w then depth - 1 else depth

/-- Where reading is with some brackets open, and the words from the first one on. -/
def bracketMode (ws : List Text) (e : Option Expr) : Nat → Mode
  | 0 => .after (e.elim (.bracketed ws) (.suffixed · ws))
  | depth + 1 => .nested (depth + 1) ws e

/-- Reads a word. -/
def State.read (st : State) (w : Text) : Option State :=
  match st.mode with
  | .operand => readFront st.stack w (front w)
  | .after e => readBack st.stack e w (back w)
  | .type ws =>
    if w = ")" then some ⟨.cast ws :: st.stack, .operand⟩
    else if opens w || closes w then none
    else some ⟨st.stack, .type (ws ++ [w])⟩
  | .member e point =>
    if isAtom w then some ⟨st.stack, .after (.suffixed e [point, w])⟩ else none
  | .nested depth ws e => some ⟨st.stack, bracketMode (ws ++ [w]) e (depthAfter w depth)⟩

/-- The expression when all is read. -/
def State.result? (st : State) : Option Expr :=
  match st.mode with
  | .after e =>
    match settle 0 st.stack e with
    | ([], e) => some e
    | _ => none
  | _ => none

/-- Reads words behind what is open. -/
def State.readAll (st : State) (ws : List Text) : Option State := ws.foldlM State.read st

/-- In front of an operand, with some frames open. -/
def State.open (s : List Frame) : State := ⟨s, .operand⟩

/-- The expression that a text is read as. -/
def read (t : Text) : Option Expr := do
  let ws ← words t
  let st ← (State.open []).readAll ws
  st.result?

end C

end JavaObjC
