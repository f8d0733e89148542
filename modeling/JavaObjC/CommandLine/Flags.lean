import JavaObjC.Failure
import JavaObjC.Text.Number

/-!
# Flags of a command line

A command knows a set of flags. A long flag is given as `--name=value` or
`--name value`, a short one as `-f value`, `-fvalue` or `-f=value`, and short
ones can be put together. Counts and switches need no value. Everything after
`--`, and everything that does not start with a hyphen, is an argument.
-/

namespace JavaObjC

/-- What a flag takes as its value. -/
inductive FlagKind where
  | text | integer
  /-- A flag that counts how often it is given. -/
  | count
  /-- A flag that is on or off. -/
  | toggle
  deriving DecidableEq, Repr

/-- A flag that a command knows. -/
structure Flag where
  name : String
  kind : FlagKind
  /-- The letter of the short form. -/
  letter : Option Char := none

namespace Flag

/-- The value of a flag that is given without one. -/
def impliedValue? (f : Flag) : Option Text :=
  match f.kind with
  | .count => some "+1"
  | .toggle => some "true"
  | .text | .integer => none

/-- The truth value a text stands for. -/
def truth? (t : Text) : Option Bool :=
  if ["1", "t", "T", "TRUE", "true", "True"].any (Text.ofString · = t) then some true
  else if ["0", "f", "F", "FALSE", "false", "False"].any (Text.ofString · = t) then some false
  else none

/-- Whether a flag takes a value. -/
def accepts (f : Flag) (value : Text) : Bool :=
  match f.kind with
  | .text => true
  | .integer | .count => (Text.integer? value).isSome
  | .toggle => (truth? value).isSome

end Flag

/-- The flags a command knows. -/
structure FlagSet where
  flags : List Flag
  /-- Whether flags that the command does not know are skipped. -/
  skipsUnknown : Bool := false

/-- A command line that was read. -/
structure ParsedLine where
  /-- The flags in the order in which they were given. -/
  given : List (String × Text) := []
  arguments : List Text := []

namespace ParsedLine

/-- The last value that was given for a flag. -/
def value? (p : ParsedLine) (name : String) : Option Text :=
  (p.given.reverse.find? (·.1 = name)).map Prod.snd

/-- The last number that was given for a flag. -/
def integer? (p : ParsedLine) (name : String) : Option Int := (p.value? name).bind Text.integer?

/-- Whether a switch was turned on last. -/
def isOn (p : ParsedLine) (name : String) : Bool :=
  (p.value? name).bind Flag.truth? = some true

end ParsedLine

namespace FlagSet

/-- The flag with a name. -/
def named? (s : FlagSet) (name : Text) : Option Flag :=
  s.flags.find? fun f => Text.ofString f.name = name

/-- The flag with a letter. -/
def lettered? (s : FlagSet) (letter : UInt8) : Option Flag :=
  s.flags.find? fun f => f.letter.map Text.byte = some letter

/-- Whether a text is a flag that has its value in the argument after it, as far
as the set tells: neither an equals sign nor a value of its own. -/
def takesNext (s : FlagSet) (t : Text) : Bool :=
  if List.elem (Text.byte '=') t then false
  else match t with
    | 45 :: 45 :: name => !(s.named? name).any (·.impliedValue?.isSome)
    | [45, letter] => !(s.lettered? letter).any (·.impliedValue?.isSome)
    | _ => false

/-- The arguments that are neither flags nor their values. A flag that takes the
last argument but one ends the search. -/
def words (s : FlagSet) : List Text → List Text
  | [] => []
  | t :: rest =>
    if t = "--" then []
    else if s.takesNext t then
      match rest with
      | _ :: next :: others => s.words (next :: others)
      | _ => []
    else if t.isEmpty || Text.startsWith t "-" then s.words rest
    else t :: s.words rest

/-- The arguments without the first one that is a given word and no value of a flag. -/
def without (s : FlagSet) (word : Text) : List Text → List Text
  | [] => []
  | t :: rest =>
    if t = "--" then t :: rest
    else if s.takesNext t then
      match rest with
      | value :: others => t :: value :: s.without word others
      | [] => [t]
    else if t = word && !Text.startsWith t "-" then rest
    else t :: s.without word rest

/-- The arguments after an unknown flag, whose value is the next argument
unless that is a flag itself. -/
def afterUnknown : List Text → List Text
  | [] => []
  | t :: rest => if Text.startsWith t "-" then t :: rest else rest

/-- What was read so far, with a flag and its value. -/
def give (f : Flag) (value : Text) (p : ParsedLine) : Except Failure ParsedLine :=
  if f.accepts value then .ok { p with given := p.given ++ [(f.name, value)] }
  else .error .badFlags

/-- Reads a long flag, given without its hyphens. Returns what is left of the
arguments after it. -/
def long (s : FlagSet) (t : Text) (rest : List Text) (p : ParsedLine) :
    Except Failure (ParsedLine × List Text) :=
  let (name, value?) := match Text.cut? (Text.byte '=') t with
    | some (name, value) => (name, some value)
    | none => (t, none)
  if name.isEmpty || Text.startsWith name "-" then .error .badFlags
  else match s.named? name with
    | none =>
      if !s.skipsUnknown then .error .badFlags
      else .ok (p, if value?.isSome then rest else afterUnknown rest)
    | some f =>
      match value?.or f.impliedValue?, rest with
      | some value, _ => do return (← give f value p, rest)
      | none, value :: rest => do return (← give f value p, rest)
      | none, [] => .error .badFlags

/-- Reads short flags that are put together. What is left of the arguments is
decided by the last of them. -/
def short (s : FlagSet) (rest : List Text) :
    Text → ParsedLine → List Text → Except Failure (ParsedLine × List Text)
  | [], p, left => .ok (p, left)
  | letter :: more, p, _ =>
    let attached? : Option Text := match more with
      | 61 :: b :: value => some (b :: value)
      | _ => none
    match s.lettered? letter with
    | none =>
      if !s.skipsUnknown then .error .badFlags
      else if attached?.isSome then .ok (p, rest)
      else s.short rest more p (afterUnknown rest)
    | some f =>
      match attached?, f.impliedValue?, more, rest with
      | some value, _, _, _ => do return (← give f value p, rest)
      | none, some value, _, _ => do s.short rest more (← give f value p) rest
      | none, none, b :: value, _ => do return (← give f (b :: value) p, rest)
      | none, none, [], value :: rest => do return (← give f value p, rest)
      | none, none, [], [] => .error .badFlags

/-- Reads at most a number of arguments. -/
def readUpTo (s : FlagSet) : Nat → List Text → ParsedLine → Except Failure ParsedLine
  | 0, _, p => .ok p
  | _ + 1, [], p => .ok p
  | fuel + 1, t :: rest, p =>
    match t with
    | [45, 45] => .ok { p with arguments := p.arguments ++ rest }
    | 45 :: 45 :: flag => do
      let (p, rest) ← s.long flag rest p
      s.readUpTo fuel rest p
    | 45 :: letter :: letters => do
      let (p, rest) ← s.short rest (letter :: letters) p rest
      s.readUpTo fuel rest p
    | _ => s.readUpTo fuel rest { p with arguments := p.arguments ++ [t] }

/-- Reads a command line; no step takes less than one argument. -/
def read (s : FlagSet) (line : List Text) : Except Failure ParsedLine :=
  s.readUpTo line.length line {}

/-- Refuses a long flag that is given without a value in the same argument and
needs one. Asking for help is always allowed. -/
def checkOptions (s : FlagSet) : List Text → Except Failure Unit
  | [] => .ok ()
  | t :: rest =>
    if t = "--" then .ok ()
    else if !Text.startsWith t "--" || List.elem (Text.byte '=') t then s.checkOptions rest
    else
      let name := t.drop 2
      if name = "help" || (s.named? name).any (·.impliedValue?.isSome) then s.checkOptions rest
      else .error (.badOption t)

end FlagSet

end JavaObjC
