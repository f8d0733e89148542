import JavaObjC.Source.Tree
import JavaObjC.Text.Quoted

/-!
# Reading tokens

The state of a parse is a cursor into the significant tokens of a source,
together with the tokens found missing so far. Parsers are state
transformers over it. A compound token that starts with `>` can be split in
place when type arguments are closed; a lookahead returns the cursor to where
it was and forgets its problems, but it does not join split tokens again.
-/

namespace JavaObjC

/-- The tokens of a source with a cursor between two of them. -/
structure Cursor where
  /-- Tokens before the cursor, the nearest first. -/
  consumed : List Token
  /-- Tokens after the cursor. -/
  rest : List Token
  /-- Tokens that were wanted and not there, the latest first. -/
  missing : List Problem := []
  /-- How many problems were met outside lookaheads. -/
  raised : Nat := 0
  /-- Trees that were read outside lookaheads and are part of no other tree, the latest first. -/
  discarded : List Node := []
  /-- How often the end of file was taken or a loop was stopped by its bound, in lookaheads too. -/
  missteps : Nat := 0

/-- A parser reads tokens and may record problems. -/
abbrev Parser := StateM Cursor

namespace Cursor

/-- The cursor before the first significant token of a source. -/
def ofTokens (tokens : List Token) : Cursor :=
  { consumed := [], rest := tokens.filter (!·.kind.isTrivia) }

/-- The token `n` places after the cursor; past the last one stands an empty end of file. -/
def tokenAt (c : Cursor) (n : Nat) : Token := (c.rest[n]?).getD ⟨.eof, {}, []⟩

/-- Whether the latest missing token was wanted where the cursor is. -/
def isReported (c : Cursor) : Bool :=
  (c.missing.head?.map fun p => p.span.start.offset == (c.tokenAt 0).span.start.offset).getD false

/-- The cursor after one more token. Taking the end of file is a misstep. -/
def step (c : Cursor) : Cursor :=
  match c.rest with
  | [] => { c with missteps := c.missteps + 1 }
  | t :: rest =>
    let missteps := if t.kind = .eof then c.missteps + 1 else c.missteps
    { c with consumed := t :: c.consumed, rest, missteps }

/-- Moves tokens from before the cursor to after it. -/
def unread : Nat → List Token → List Token → List Token × List Token
  | 0, consumed, rest => (consumed, rest)
  | _ + 1, [], rest => ([], rest)
  | n + 1, t :: consumed, rest => unread n consumed (t :: rest)

/-- The cursor with only `n` tokens before it. -/
def rewind (c : Cursor) (n : Nat) : Cursor :=
  let (consumed, rest) := unread (c.consumed.length - n) c.consumed c.rest
  { c with consumed, rest }

/-- Skips tokens up to the first one of the given kinds or the end of file. -/
def skipTo (kinds : List TokenKind) (consumed : List Token) :
    List Token → List Token × List Token
  | [] => (consumed, [])
  | t :: rest =>
    if t.kind = .eof ∨ t.kind ∈ kinds then (consumed, t :: rest)
    else skipTo kinds (t :: consumed) rest

/-- The cursor after the next token, and after further ones up to the first of the
given kinds if there are any kinds. The end of file is never passed. -/
def recover (c : Cursor) (kinds : List TokenKind) : Cursor :=
  let dropped := if (c.tokenAt 0).kind = .eof then c else c.step
  if kinds.isEmpty then dropped
  else
    let (consumed, rest) := skipTo kinds dropped.consumed dropped.rest
    { dropped with consumed, rest }

/-- The cursor back at a place it was at before, without the problems met since. -/
def goBack (c saved : Cursor) : Cursor :=
  { c.rewind saved.consumed.length with
    missing := c.missing.drop (c.missing.length - saved.missing.length)
    raised := saved.raised
    discarded := saved.discarded }

/-- Where the last token before the cursor ends; at the front of the source,
where the last token of all ends. -/
def lastStop (c : Cursor) : Position :=
  match c.consumed with
  | t :: _ => t.span.stop
  | [] => ((c.rest.getLast?).map (·.span.stop)).getD {}

end Cursor

namespace Parser

/-- The next token, which stays where it is. -/
def peek : Parser Token := do return (← get).tokenAt 0

/-- The kind of the token `n` places ahead. -/
def kindAt (n : Nat) : Parser TokenKind := do return ((← get).tokenAt n).kind

/-- Whether the next token has a kind. -/
def check (kind : TokenKind) : Parser Bool := do return (← kindAt 0) == kind

/-- Whether the next token has another kind. -/
def checkNot (kind : TokenKind) : Parser Bool := do return !(← check kind)

/-- Whether the next two tokens have the given kinds. -/
def check2 (first second : TokenKind) : Parser Bool := do
  return (← kindAt 0) == first && (← kindAt 1) == second

/-- Whether the next token has one of the kinds. -/
def checkAny (kinds : List TokenKind) : Parser Bool := do return kinds.contains (← kindAt 0)

/-- Whether the next token can be a name. -/
def checkName : Parser Bool := do return (← kindAt 0).isName

/-- Where the next token begins. -/
def here : Parser Position := do return (← peek).span.start

/-- Takes the next token. -/
def advance : Parser Token := do
  let t ← peek
  modify Cursor.step
  return t

/-- Takes the next token as a leaf of the given kind. -/
def leaf (kind : NodeKind) : Parser Node := do return Node.ofToken kind (← advance)

/-- Takes the next token if it has the kind. -/
def accept (kind : TokenKind) : Parser (Option Token) := do
  if ← check kind then return some (← advance) else return none

/-- Takes the next token if it has the kind, and says whether it did. -/
def skip (kind : TokenKind) : Parser Bool := do return (← accept kind).isSome

/-- How a message names a token. -/
def describe (t : Token) : Text := if t.kind = .eof then "end of file" else t.literal

/-- Records that one of the kinds was wanted here. A second failure at the same
place adds nothing to the list. -/
def expected (kinds : List TokenKind) : Parser Unit := do
  let c ← get
  let got := c.tokenAt 0
  let names := kinds.map fun k => Text.quote k.name
  let message := "expected " ++ Text.join " or " names ++ ", got " ++ Text.quote (describe got)
  let missing := if c.isReported then c.missing else ⟨message, kinds, got⟩ :: c.missing
  set { c with missing, raised := c.raised + 1 }

/-- Takes the next token if it has the kind, and records that it was wanted otherwise. -/
def expect (kind : TokenKind) : Parser (Option Token) := do
  match ← accept kind with
  | some t => return some t
  | none =>
    expected [kind]
    return none

/-- Takes a token that has to be there, without using it. -/
def need (kind : TokenKind) : Parser Unit := do
  let _ ← expect kind

/-- Takes a name as an identifier leaf, or records that one was wanted. -/
def name : Parser (List Node) := do
  if ← checkName then return [← leaf .identifier]
  else
    expected [.identifier]
    return []

/-- Ends a node at the last token taken. -/
def finishWith (kind : NodeKind) (token : Option Token) (start : Position)
    (children : List Node) : Parser Node := do
  return ⟨kind, ⟨start, (← get).lastStop⟩, token, none, children⟩

/-- Ends an inner node at the last token taken. -/
def finish (kind : NodeKind) (start : Position) (children : List Node) : Parser Node :=
  finishWith kind none start children

/-- Ends a node that was read before at the last token taken. -/
def extend (n : Node) : Parser Node := do
  return { n with span := ⟨n.span.start, (← get).lastStop⟩ }

/-- Reports a phrase that cannot be read. One token is dropped, and further ones
until a token of the `recovery` kinds; without such kinds just the one. -/
def problem (message : String) (recovery expected : List TokenKind) : Parser Node := do
  let c ← get
  let got := c.tokenAt 0
  set { c.recover recovery with raised := c.raised + 1 }
  return Node.ofProblem ⟨message, expected, got⟩

/-- Answers a question about what follows. The cursor and the problems are as
before the question; tokens that were split stay split. -/
def lookahead (question : Parser Bool) : Parser Bool := do
  let saved ← get
  let answer ← question
  modify (·.goBack saved)
  return answer

/-- Gives up a tree that was read. -/
def discard (n : Node) : Parser Unit := modify fun c => { c with discarded := n :: c.discarded }

/-- Records that a loop was stopped by its bound. -/
def misstep : Parser Unit := modify fun c => { c with missteps := c.missteps + 1 }

/-- Applies a step to a value until it declines, with a bound that must not be reached. -/
def iterate {α : Type} (step : α → Parser (Option α)) : Nat → α → Parser α
  | 0, a => do
    misstep
    return a
  | bound + 1, a => do
    match ← step a with
    | some b => iterate step bound b
    | none => return a

/-- Applies a step that takes at least one token until it declines. -/
def loop {α : Type} (step : α → Parser (Option α)) (a : α) : Parser α := do
  iterate step (1 + (← get).rest.length) a

/-- Reads items while a test succeeds, with a bound that must not be reached. -/
def manyUpTo (test : Parser Bool) (item : Parser Node) : Nat → Parser (List Node)
  | 0 => do
    misstep
    return []
  | bound + 1 => do
    if ← test then
      let first ← item
      return first :: (← manyUpTo test item bound)
    else return []

/-- Reads items that each take at least one token, while a test succeeds. -/
def many (test : Parser Bool) (item : Parser Node) : Parser (List Node) := do
  manyUpTo test item (1 + (← get).rest.length)

/-- Whether the next token is neither one of the kinds nor the end of file. -/
def before (kinds : List TokenKind) : Parser Bool := do
  return !(← checkAny (.eof :: kinds))

/-- Reads items up to a closing token or the end of file. -/
def manyBefore (closing : TokenKind) (item : Parser Node) : Parser (List Node) :=
  many (before [closing]) item

/-- Reads one item and more after each comma. -/
def commaList (item : Parser Node) : Parser (List Node) := do
  let first ← item
  return first :: (← many (skip Symbol.comma) item)

/-- Reads items up to a closing token, stopping at an item without a comma
after it, with a bound that must not be reached. -/
def commaListUpTo (closing : TokenKind) (item : Parser Node) : Nat → Parser (List Node)
  | 0 => do
    misstep
    return []
  | bound + 1 => do
    if ← before [closing] then
      let first ← item
      if ← skip Symbol.comma then return first :: (← commaListUpTo closing item bound)
      else return [first]
    else return []

/-- Reads items separated by commas up to a closing token; the last one may have a
comma after it. -/
def commaListBefore (closing : TokenKind) (item : Parser Node) : Parser (List Node) := do
  commaListUpTo closing item (1 + (← get).rest.length)

/-- Reads an item if a test succeeds. -/
def optional (test : Parser Bool) (item : Parser Node) : Parser (List Node) := do
  if ← test then return [← item] else return []

/-- What is left of a compound token when its first `>` is taken away. -/
def remainder? : TokenKind → Option TokenKind
  | .symbol .shr => some Symbol.gt
  | .symbol .ushr => some Symbol.shr
  | .symbol .ge => some Symbol.assign
  | .symbol .shrAssign => some Symbol.ge
  | .symbol .ushrAssign => some Symbol.shrAssign
  | _ => none

/-- A compound token without its first byte. -/
def shorten (t : Token) (kind : TokenKind) : Token :=
  let start := t.span.start
  ⟨kind, ⟨⟨start.offset + 1, start.line, start.column + 1⟩, t.span.stop⟩, t.literal.drop 1⟩

/-- Takes one `>`, splitting a compound token that begins with it; says whether
there was one. -/
def skipGreater : Parser Bool := do
  if ← skip Symbol.gt then return true
  let c ← get
  match c.rest with
  | t :: rest =>
    match remainder? t.kind with
    | some kind =>
      set { c with rest := shorten t kind :: rest }
      return true
    | none => return false
  | [] => return false

end Parser

end JavaObjC
