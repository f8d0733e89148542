import JavaObjC.Text.Basic

/-!
# Tokens of Java source

Token kinds, source positions and tokens. A token keeps the bytes it was read
from together with the span they cover; positions count bytes.
-/

namespace JavaObjC

/-- Reserved words, the three word literals, and the contextual word `var`. -/
inductive Keyword where
  | trueKw | falseKw | nullKw | abstractKw | assertKw | booleanKw | breakKw | byteKw | caseKw
  | catchKw | charKw | classKw | constKw | continueKw | defaultKw | doKw | doubleKw | elseKw
  | enumKw | extendsKw | finalKw | finallyKw | floatKw | forKw | gotoKw | ifKw | implementsKw
  | importKw | instanceofKw | intKw | interfaceKw | longKw | nativeKw | newKw | packageKw
  | privateKw | protectedKw | publicKw | returnKw | shortKw | staticKw | strictfpKw | superKw
  | switchKw | synchronizedKw | thisKw | throwKw | throwsKw | transientKw | tryKw | voidKw
  | volatileKw | whileKw | varKw
  deriving DecidableEq, Repr

/-- Operators and punctuation marks. -/
inductive Symbol where
  | lparen | rparen | lbrace | rbrace | lbracket | rbracket | semicolon | comma | dot | ellipsis
  | atSign | colonColon | assign | eq | ne | lt | le | gt | ge | andAnd | orOr | bang | bitAnd
  | bitOr | bitXor | bitNot | shl | shr | ushr | plus | minus | star | slash | percent
  | increment | decrement | question | colon | arrow | plusAssign | minusAssign | starAssign
  | slashAssign | percentAssign | andAssign | orAssign | xorAssign | shlAssign | shrAssign
  | ushrAssign
  deriving DecidableEq, Repr

namespace Keyword

/-- Every keyword. -/
def all : List Keyword :=
  [.trueKw, .falseKw, .nullKw, .abstractKw, .assertKw, .booleanKw, .breakKw, .byteKw, .caseKw,
   .catchKw, .charKw, .classKw, .constKw, .continueKw, .defaultKw, .doKw, .doubleKw, .elseKw,
   .enumKw, .extendsKw, .finalKw, .finallyKw, .floatKw, .forKw, .gotoKw, .ifKw, .implementsKw,
   .importKw, .instanceofKw, .intKw, .interfaceKw, .longKw, .nativeKw, .newKw, .packageKw,
   .privateKw, .protectedKw, .publicKw, .returnKw, .shortKw, .staticKw, .strictfpKw, .superKw,
   .switchKw, .synchronizedKw, .thisKw, .throwKw, .throwsKw, .transientKw, .tryKw, .voidKw,
   .volatileKw, .whileKw, .varKw]

/-- The word as it is written. -/
def spelling : Keyword → String
  | .trueKw => "true"
  | .falseKw => "false"
  | .nullKw => "null"
  | .abstractKw => "abstract"
  | .assertKw => "assert"
  | .booleanKw => "boolean"
  | .breakKw => "break"
  | .byteKw => "byte"
  | .caseKw => "case"
  | .catchKw => "catch"
  | .charKw => "char"
  | .classKw => "class"
  | .constKw => "const"
  | .continueKw => "continue"
  | .defaultKw => "default"
  | .doKw => "do"
  | .doubleKw => "double"
  | .elseKw => "else"
  | .enumKw => "enum"
  | .extendsKw => "extends"
  | .finalKw => "final"
  | .finallyKw => "finally"
  | .floatKw => "float"
  | .forKw => "for"
  | .gotoKw => "goto"
  | .ifKw => "if"
  | .implementsKw => "implements"
  | .importKw => "import"
  | .instanceofKw => "instanceof"
  | .intKw => "int"
  | .interfaceKw => "interface"
  | .longKw => "long"
  | .nativeKw => "native"
  | .newKw => "new"
  | .packageKw => "package"
  | .privateKw => "private"
  | .protectedKw => "protected"
  | .publicKw => "public"
  | .returnKw => "return"
  | .shortKw => "short"
  | .staticKw => "static"
  | .strictfpKw => "strictfp"
  | .superKw => "super"
  | .switchKw => "switch"
  | .synchronizedKw => "synchronized"
  | .thisKw => "this"
  | .throwKw => "throw"
  | .throwsKw => "throws"
  | .transientKw => "transient"
  | .tryKw => "try"
  | .voidKw => "void"
  | .volatileKw => "volatile"
  | .whileKw => "while"
  | .varKw => "var"

/-- The keyword with a given spelling. -/
def ofSpelling? (word : Text) : Option Keyword :=
  all.find? fun k => Text.ofString k.spelling = word

/-- Whether the word names one of the eight primitive types. -/
def isPrimitive : Keyword → Bool
  | .booleanKw | .byteKw | .charKw | .shortKw | .intKw | .longKw | .floatKw | .doubleKw => true
  | _ => false

end Keyword

namespace Symbol

/-- The mark as it is written. -/
def spelling : Symbol → String
  | .lparen => "("
  | .rparen => ")"
  | .lbrace => "\x7b"
  | .rbrace => "\x7d"
  | .lbracket => "["
  | .rbracket => "]"
  | .semicolon => ";"
  | .comma => ","
  | .dot => "."
  | .ellipsis => "..."
  | .atSign => "@"
  | .colonColon => "::"
  | .assign => "="
  | .eq => "=="
  | .ne => "!="
  | .lt => "<"
  | .le => "<="
  | .gt => ">"
  | .ge => ">="
  | .andAnd => "&&"
  | .orOr => "||"
  | .bang => "!"
  | .bitAnd => "&"
  | .bitOr => "|"
  | .bitXor => "^"
  | .bitNot => "~"
  | .shl => "<<"
  | .shr => ">>"
  | .ushr => ">>>"
  | .plus => "+"
  | .minus => "-"
  | .star => "*"
  | .slash => "/"
  | .percent => "%"
  | .increment => "++"
  | .decrement => "--"
  | .question => "?"
  | .colon => ":"
  | .arrow => "->"
  | .plusAssign => "+="
  | .minusAssign => "-="
  | .starAssign => "*="
  | .slashAssign => "/="
  | .percentAssign => "%="
  | .andAssign => "&="
  | .orAssign => "|="
  | .xorAssign => "^="
  | .shlAssign => "<<="
  | .shrAssign => ">>="
  | .ushrAssign => ">>>="

/-- Every mark, longer spellings first, so that the first one a text begins
with is the longest. -/
def all : List Symbol :=
  [.ushrAssign, .ellipsis, .ushr, .shlAssign, .shrAssign, .colonColon, .eq, .ne, .le, .ge,
   .andAnd, .orOr, .shl, .shr, .increment, .decrement, .arrow, .plusAssign, .minusAssign,
   .starAssign, .slashAssign, .percentAssign, .andAssign, .orAssign, .xorAssign, .lparen,
   .rparen, .lbrace, .rbrace, .lbracket, .rbracket, .semicolon, .comma, .dot, .atSign, .assign,
   .lt, .gt, .bang, .bitAnd, .bitOr, .bitXor, .bitNot, .plus, .minus, .star, .slash, .percent,
   .question, .colon]

/-- The longest mark at the front of a text. -/
def atFront? (t : Text) : Option Symbol :=
  all.find? fun s => Text.startsWith t s.spelling

end Symbol

/-- What a token is. -/
inductive TokenKind where
  | eof | error | whitespace | blockComment | lineComment
  | identifier | intLiteral | floatLiteral | charLiteral | stringLiteral | textBlock
  | keyword (word : Keyword)
  | symbol (mark : Symbol)
  deriving DecidableEq, Repr

instance : Coe Keyword TokenKind := ⟨.keyword⟩

instance : Coe Symbol TokenKind := ⟨.symbol⟩

namespace TokenKind

/-- The name of a kind in listings and messages. -/
def name : TokenKind → String
  | .eof => "EOF"
  | .error => "Error"
  | .whitespace => "Whitespace"
  | .blockComment => "Comment"
  | .lineComment => "LineComment"
  | .identifier => "Identifier"
  | .intLiteral => "IntLiteral"
  | .floatLiteral => "FloatLiteral"
  | .charLiteral => "CharLiteral"
  | .stringLiteral => "StringLiteral"
  | .textBlock => "TextBlock"
  | .keyword word => word.spelling
  | .symbol mark => mark.spelling

/-- Whether the kind names one of the eight primitive types. -/
def isPrimitive : TokenKind → Bool
  | .keyword word => word.isPrimitive
  | _ => false

/-- Whether tokens of the kind only separate others. -/
def isTrivia : TokenKind → Bool
  | .whitespace | .blockComment | .lineComment => true
  | _ => false

/-- Whether tokens of the kind are comments. -/
def isComment : TokenKind → Bool
  | .blockComment | .lineComment => true
  | _ => false

/-- Whether a token of the kind can stand where a name is wanted. -/
def isName : TokenKind → Bool
  | .identifier | .keyword .varKw => true
  | _ => false

end TokenKind

/-- A place in a source text. -/
structure Position where
  /-- Bytes before the place. -/
  offset : Nat := 0
  /-- Line, counted from one. -/
  line : Nat := 0
  /-- Bytes since the start of the line, counted from one. -/
  column : Nat := 0
  deriving DecidableEq, Repr

namespace Position

/-- The front of every source. -/
def start : Position := ⟨0, 1, 1⟩

/-- The place after one byte. -/
def step (p : Position) (b : UInt8) : Position :=
  if b = 10 then ⟨p.offset + 1, p.line + 1, 1⟩ else ⟨p.offset + 1, p.line, p.column + 1⟩

/-- The place after a text that begins here. -/
def after (p : Position) (t : Text) : Position := t.foldl step p

/-- Line and column, after the file name if there is one. -/
def describe (file : Text) (p : Position) : Text :=
  let place := Text.ofNat p.line ++ ":" ++ Text.ofNat p.column
  if file.isEmpty then place else file ++ ":" ++ place

end Position

/-- The places where a piece of source begins and ends. -/
structure Span where
  start : Position := {}
  stop : Position := {}
  deriving DecidableEq, Repr

/-- A piece of source with its kind. -/
structure Token where
  kind : TokenKind
  span : Span := {}
  literal : Text := []
  deriving DecidableEq, Repr

end JavaObjC
