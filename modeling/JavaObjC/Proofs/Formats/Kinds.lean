import JavaObjC.Proofs.Grouping.Texts

/-!
# What formats print and what is passed to them

What an expression of the generated language is when it is passed to a function
with a variable number of arguments, where small integers become `int` and
`float` becomes `double`. A cast to `double` in front of an expression takes as
much of it as binds more tightly, and makes the whole a `double` nonetheless
where numbers stand.

A format is read from left to right: `%%` is a percent sign, the other
directives print one argument each, and every other byte stands for itself.
Escapes in a string constant stay as they are written, since the constants of
both languages have the same ones.
-/

namespace JavaObjC

/-- What can be passed. -/
inductive Kind where
  | object | int | longLong | double
  deriving DecidableEq

namespace Kind

/-- Whether it is a number. -/
def isNumber (k : Kind) : Bool := k != object

/-- The result of arithmetic on two numbers. -/
def common (a b : Kind) : Kind :=
  if a = double ∨ b = double then double else if a = longLong ∨ b = longLong then longLong else int

/-- The kinds of the C scalars. -/
def scalars : List (String × Kind) :=
  [("int", int), ("BOOL", int), ("unichar", int), ("long long", longLong), ("float", double),
   ("double", double)]

/-- What a value of a Java type is passed as. -/
def ofType (t : JavaType) : Kind :=
  if t.isPrimitive then
    match primitiveRef? t.name with
    | some (.scalar name) => (Text.find? scalars name).getD object
    | _ => object
  else object

/-- The kinds of what the number accessors give. -/
def accessors : List (String × Kind) :=
  [("intValue", int), ("longLongValue", longLong), ("floatValue", double), ("doubleValue", double),
   ("boolValue", int), ("unsignedShortValue", int)]

end Kind

namespace C

open Kind

/-- The kinds of the types in casts. -/
def castKinds : List (List String × Kind) :=
  [(["int"], .int), (["BOOL"], .int), (["unichar"], .int), (["long", "long"], .longLong),
   (["float"], .double), (["double"], .double)]

/-- The kind of the type in a cast; other types are pointers to objects. -/
def castKind (type : List Text) : Kind :=
  ((castKinds.find? fun c => c.1.map Text.ofString == type).map Prod.snd).getD .object

/-- The accessor that a message in brackets ends with. -/
def accessor? (ws : List Text) : Option Kind :=
  ws.dropLast.getLast?.bind fun w => Text.find? Kind.accessors w

namespace Expr

/-- The result of an operator that binds as tightly as a number says. -/
def operationKind? (l : Expr) (k k' : Kind) : Nat → Option Kind
  | 1 => some k'
  | 2 => if l.isPrimary then some k else none
  | 3 => if k = k' then some k else none
  | 4 | 5 | 9 | 10 => some .int
  | 11 => if k.isNumber && k'.isNumber then some (k.common .int) else none
  | _ => if k.isNumber && k'.isNumber then some (k.common k') else none

/-- The result of a choice. -/
def choiceKind? (k a b : Kind) : Option Kind :=
  if !k.isNumber then none
  else if a = b then some a
  else if a.isNumber && b.isNumber then some (a.common b)
  else none

/-- What an expression is passed as, given what its names, messages and suffixed operands are. -/
def kind? (given : Expr → Option Kind) : Expr → Option Kind
  | word w => given (word w)
  | bracketed ws => (accessor? ws).or (given (bracketed ws))
  | suffixed e ws => given (suffixed e ws)
  | group e => kind? given e
  | sign op e =>
    if op = "@" then some .object
    else if op = "!" then (kind? given e).map fun _ => .int
    else (kind? given e).filter Kind.isNumber
  | cast type e =>
    (kind? given e).bind fun k =>
      if k.isNumber || castKind type == .object then some (castKind type) else none
  | operation op l r =>
    (kind? given l).bind fun k => (kind? given r).bind fun k' =>
      operationKind? l k k' (precedence op)
  | choice c yes no =>
    (kind? given c).bind fun k => (kind? given yes).bind fun a => (kind? given no).bind fun b =>
      choiceKind? k a b

/-- The operators whose left operand may become a `double`. -/
def castableOperators : List String :=
  ["+", "-", "*", "/", "<", ">", "<=", ">=", "==", "!=", "&&", "||"]

/-- Whether the left end of an expression may become a `double`: a number stands there, and no
operator that needs integers or something to assign to comes behind it. -/
def isCastable (given : Expr → Option Kind) : Expr → Bool
  | operation op l _ => (castableOperators.map Text.ofString).contains op && isCastable given l
  | choice c _ _ => isCastable given c
  | e => (kind? given e).any Kind.isNumber

end Expr

/-- The cast to `double`. -/
def doubleCast : Frame := .cast [Text.ofString "double"]

section Casts

variable {given : Expr → Option Kind} {e : Expr} {k : Kind}

theorem Kind.common_isNumber (a b : Kind) : (a.common b).isNumber = true := by
  cases a <;> cases b <;> rfl

/-- A number in front of which the cast stands stays a number, and a `double` a `double`. -/
theorem kind?_plug_doubleCast (hcast : e.isCastable given = true) (hk : e.kind? given = some k) :
    ∃ k', (doubleCast.plug e).kind? given = some k' ∧ (k.isNumber = true → k'.isNumber = true) ∧
      (k = .double → k' = .double) := by
  have hleaf : ∀ e : Expr, (e.kind? given).any Kind.isNumber = true →
      (Expr.cast [Text.ofString "double"] e).kind? given = some .double := fun e he => by
    obtain ⟨k, hk, hnumber⟩ := (Option.any_eq_true _ _).1 he
    have hdouble : castKind [Text.ofString "double"] = .double := by decide +kernel
    rw [Expr.kind?, hk, Option.bind_some, hnumber, hdouble]
    rfl
  induction e generalizing k with
  | operation op l r ihl ihr =>
    obtain ⟨hop, hl⟩ := Bool.and_eq_true_iff.1 hcast
    obtain ⟨a, ha, hk⟩ := Option.bind_eq_some_iff.1 hk
    obtain ⟨b, hb, hk⟩ := Option.bind_eq_some_iff.1 hk
    obtain ⟨a', ha', hnumber, hdouble⟩ := ihl hl ha
    have hplug : doubleCast.plug (.operation op l r) = .operation op (doubleCast.plug l) r :=
      if_pos rfl
    rw [hplug, Expr.kind?, ha', hb, Option.bind_some, Option.bind_some]
    have hlevels : ∀ op ∈ Expr.castableOperators.map Text.ofString,
        precedence op ∈ [4, 5, 9, 10, 12, 13] := by decide +kernel
    have hlevel := hlevels op (by simpa using hop)
    generalize precedence op = p at hlevel hk ⊢
    simp only [List.mem_cons, List.not_mem_nil, or_false] at hlevel
    rcases hlevel with rfl | rfl | rfl | rfl | rfl | rfl
    · exact ⟨_, rfl, fun _ => rfl, fun h => by cases hk; cases h⟩
    · exact ⟨_, rfl, fun _ => rfl, fun h => by cases hk; cases h⟩
    · exact ⟨_, rfl, fun _ => rfl, fun h => by cases hk; cases h⟩
    · exact ⟨_, rfl, fun _ => rfl, fun h => by cases hk; cases h⟩
    all_goals
      obtain ⟨hnumbers, hk⟩ := Option.ite_none_right_eq_some.1 hk
      obtain ⟨ha, hb⟩ := Bool.and_eq_true_iff.1 hnumbers
      refine ⟨a'.common b, if_pos (by rw [hnumber ha, hb]; rfl),
        fun _ => Kind.common_isNumber a' b, ?_⟩
      rintro rfl
      revert hk hdouble
      cases a <;> cases b <;> cases a' <;> simp [Kind.common]
  | choice c yes no ihc ihy ihn =>
    obtain ⟨kc, hkc, hk⟩ := Option.bind_eq_some_iff.1 hk
    obtain ⟨a, ha, hk⟩ := Option.bind_eq_some_iff.1 hk
    obtain ⟨b, hb, hk⟩ := Option.bind_eq_some_iff.1 hk
    obtain ⟨hc, hk⟩ := Option.ite_none_left_eq_some.1 hk
    obtain ⟨kc', hkc', hnumber, -⟩ := ihc hcast hkc
    have hplug : doubleCast.plug (.choice c yes no) = .choice (doubleCast.plug c) yes no :=
      if_pos rfl
    refine ⟨k, ?_, id, id⟩
    rw [hplug, Expr.kind?, hkc', ha, hb, Option.bind_some, Option.bind_some, Option.bind_some]
    exact (if_neg (by simpa using hnumber (by simpa using hc))).trans hk
  | word w | bracketed ws | suffixed e ws ih | group e ih | sign op e ih | cast type e ih =>
    exact ⟨.double, hleaf _ hcast, fun _ => rfl, fun _ => rfl⟩

end Casts

end C

/-- What prints one argument. -/
inductive Directive where
  | object | int | longLong | double | unichar
  deriving DecidableEq

namespace Directive

/-- How directives are written. -/
def spellings : List (String × Directive) :=
  [("%@", object), ("%d", int), ("%lld", longLong), ("%g", double), ("%C", unichar)]

/-- How a directive is written. -/
def spelling : Directive → Text
  | object => "%@"
  | int => "%d"
  | longLong => "%lld"
  | double => "%g"
  | unichar => "%C"

/-- What the argument of a directive has to be. -/
def takes : Directive → Kind
  | object => .object
  | int | unichar => .int
  | longLong => .longLong
  | double => .double

/-- The directives of the numbers and characters, boxed or not. -/
def scalars : List (String × Directive) :=
  [("byte", int), ("short", int), ("int", int), ("long", longLong), ("float", double),
   ("double", double), ("char", unichar), ("Byte", int), ("Short", int), ("Integer", int),
   ("Long", longLong), ("Float", double), ("Double", double), ("Number", double),
   ("Character", unichar)]

/-- The directive that prints a value of a type: everything that is no number and no character,
boxed or not, is printed as an object. -/
def printing (t : JavaType) : Directive :=
  if t.isArray then object else (Text.find? scalars t.name).getD object

end Directive

/-- A part of what a format prints. -/
inductive Piece where
  | byte (b : UInt8)
  | directive (d : Directive)
  deriving DecidableEq

namespace Piece

/-- The directive of a piece. -/
def directive? : Piece → Option Directive
  | byte _ => none
  | directive d => some d

/-- The bytes of a text, each standing for itself. -/
def plain (t : Text) : List Piece := t.map byte

theorem filterMap_plain (t : Text) : (plain t).filterMap directive? = [] := by
  simp [plain, List.filterMap_map, directive?, Function.comp_def]

end Piece

namespace Format

/-- What a percent sign and one or two letters of a directive are that is not complete. -/
def beginnings : List String := ["%", "%l", "%ll"]

/-- The pieces of a format behind what has been read of a directive; none if it is not one of
those that are used. -/
def decodeFrom : Text → Text → Option (List Piece)
  | seen, [] => if seen = [] then some [] else none
  | seen, b :: rest =>
    if seen = [] ∧ b ≠ Text.byte '%' then (decodeFrom [] rest).map (.byte b :: ·)
    else if seen ++ [b] = "%%" then (decodeFrom [] rest).map (.byte (Text.byte '%') :: ·)
    else
      match Text.find? Directive.spellings (seen ++ [b]) with
      | some d => (decodeFrom [] rest).map (.directive d :: ·)
      | none =>
        if (beginnings.map Text.ofString).contains (seen ++ [b]) then decodeFrom (seen ++ [b]) rest
        else none

/-- The pieces of a format. -/
def decode (format : Text) : Option (List Piece) := decodeFrom [] format

section Decoding

variable {b : UInt8} {s t seen : Text} {ps : List Piece}

/-- A byte other than a percent sign stands for itself. -/
theorem decode_byte (hb : b ≠ Text.byte '%') (t : Text) :
    decode (b :: t) = (decode t).map (.byte b :: ·) := if_pos ⟨rfl, hb⟩

/-- Two percent signs stand for one. -/
theorem decode_percent (t : Text) :
    decode (Text.ofString "%%" ++ t) = (decode t).map (.byte (Text.byte '%') :: ·) := rfl

/-- A directive is read as it is written. -/
theorem decode_directive (d : Directive) (t : Text) :
    decode (d.spelling ++ t) = (decode t).map (.directive d :: ·) := by cases d <;> rfl

/-- A text whose percent signs are doubled stands for itself. -/
theorem decode_replaceByte (content t : Text) :
    decode (Text.replaceByte (Text.byte '%') "%%" content ++ t) =
      (decode t).map (Piece.plain content ++ ·) := by
  induction content with
  | nil => exact Option.map_id_apply.symm
  | cons b content ih =>
    have hcons : Text.replaceByte (Text.byte '%') "%%" (b :: content) =
        (if b = Text.byte '%' then Text.ofString "%%" else [b]) ++
          Text.replaceByte (Text.byte '%') "%%" content := List.flatMap_cons
    rw [hcons, List.append_assoc]
    by_cases hb : b = Text.byte '%'
    · rw [if_pos hb, decode_percent, ih, Option.map_map, ← hb]
      rfl
    · rw [if_neg hb, List.singleton_append, decode_byte hb, ih, Option.map_map]
      rfl

end Decoding

end Format

end JavaObjC
