import JavaObjC.Lowering.Value
import JavaObjC.Proofs.Grouping.Texts
import Mathlib.Data.Int.Bitwise
import Mathlib.Data.Int.ModEq

/-!
# Integers of a width

Both languages compute with integers of 32 and of 64 bits and wrap around. A
number is kept as an integer in the range of its type, so that an operation is
the exact one on integers, brought back into the range of the result. Signed
and unsigned numbers of one width differ by a multiple of how many there are,
and what keeps such a difference can be computed with either of them.
-/

namespace JavaObjC

/-- The widths of integers. -/
inductive Width where
  | int | long
  deriving DecidableEq

namespace Width

def bits : Width → Nat
  | int => 32
  | long => 64

/-- How many numbers of a width there are. -/
def size (w : Width) : Nat := 2 ^ w.bits

/-- The wider one. -/
def join (a b : Width) : Width := if a = int then b else a

/-- The number with a sign that has the same bits. -/
def signed (w : Width) (x : Int) : Int := x.bmod w.size

/-- The number without a sign that has the same bits. -/
def unsigned (w : Width) (x : Int) : Int := x % w.size

/-- A number with a sign that is in the range of a width. -/
def Holds (w : Width) (x : Int) : Prop := w.signed x = x

/-- The width that a number of a type has when it is computed with. -/
def ofType? (t : JavaType) : Option Width :=
  let t := numericType t
  if t.isArray then none
  else if (["byte", "short", "char", "int"].map Text.ofString).contains t.name then some int
  else if t.name = Text.ofString "long" then some long
  else none

variable {w : Width} {x y : Int}

theorem size_pos (w : Width) : 0 < w.size := by cases w <;> decide

theorem signed_signed (x : Int) : w.signed (w.signed x) = w.signed x := Int.bmod_bmod

theorem holds_signed (x : Int) : w.Holds (w.signed x) := signed_signed x

theorem unsigned_signed (x : Int) : w.unsigned (w.signed x) = w.unsigned x := Int.bmod_emod

theorem signed_unsigned (x : Int) : w.signed (w.unsigned x) = w.signed x := Int.emod_bmod x w.size

/-- A pattern read as unsigned stays so. -/
theorem unsigned_unsigned (x : Int) : w.unsigned (w.unsigned x) = w.unsigned x :=
  Int.emod_emod_of_dvd x dvd_rfl

/-- A number is in the range of its width between the bounds. -/
theorem holds_iff : w.Holds x ↔ -(2 ^ (w.bits - 1)) ≤ x ∧ x < 2 ^ (w.bits - 1) := by
  unfold Holds signed
  constructor
  · intro h
    have hle := Int.le_bmod (x := x) w.size_pos
    have hlt := Int.bmod_lt (x := x) w.size_pos
    rw [h] at hle hlt
    cases w <;> simp only [size, bits] at * <;> omega
  · intro h
    refine Int.bmod_eq_of_le ?_ ?_
    · cases w <;> simp only [size, bits] at * <;> omega
    · cases w <;> simp only [size, bits] at * <;> omega

/-- What is in the range of a width is in the range of a wider one. -/
theorem Holds.join (h : w.Holds x) (v : Width) : (w.join v).Holds x ∧ (v.join w).Holds x := by
  rw [holds_iff] at *
  rw [holds_iff]
  cases w <;> cases v <;> simp only [Width.join, bits] at * <;> simp <;> omega

end Width

/-- The operators that integers are computed with. -/
inductive Operator where
  | add | sub | mul | div | rem | and | xor | or | shl | shr | ushr
  deriving DecidableEq

namespace Operator

/-- How an operator is written. -/
def symbol : Operator → Symbol
  | add => .plus
  | sub => .minus
  | mul => .star
  | div => .slash
  | rem => .percent
  | and => .bitAnd
  | xor => .bitXor
  | or => .bitOr
  | shl => .shl
  | shr => .shr
  | ushr => .ushr

def spelling (op : Operator) : Text := op.symbol.spelling

def isShift : Operator → Bool
  | shl | shr | ushr => true
  | _ => false

/-- What an operator gives on integers without bounds; dividing by zero gives nothing. Unsigned
shifts have no such meaning. -/
def unbounded? : Operator → Int → Int → Option Int
  | add, x, y => some (x + y)
  | sub, x, y => some (x - y)
  | mul, x, y => some (x * y)
  | div, x, y => if y = 0 then none else some (x.tdiv y)
  | rem, x, y => if y = 0 then none else some (x.tmod y)
  | and, x, y => some (x.land y)
  | xor, x, y => some (x.xor y)
  | or, x, y => some (x.lor y)
  | shl, x, y => some (x * 2 ^ y.toNat)
  | shr, x, y => some (x / 2 ^ y.toNat)
  | ushr, _, _ => none

/-- The operators whose result has the same bits for operands that have the same bits. -/
def wraps : Operator → Bool
  | add | sub | mul | shl => true
  | _ => false

variable {op : Operator} {w : Width} {x y : Int}

/-- With such an operator it does not matter whether the operands have a sign. -/
theorem unbounded_unsigned (h : op.wraps = true) (hshift : op.isShift = false) :
    (op.unbounded? (w.unsigned x) (w.unsigned y)).map w.unsigned =
      (op.unbounded? x y).map w.unsigned := by
  cases op with
  | add => exact congrArg some (Int.add_emod x y w.size).symm
  | sub => exact congrArg some (Int.sub_emod x y w.size).symm
  | mul => exact congrArg some (Int.mul_emod x y w.size).symm
  | shl => cases hshift
  | _ => cases h

/-- A number that is shifted to the left may have a sign or not. -/
theorem shl_unsigned :
    (shl.unbounded? (w.unsigned x) y).map w.unsigned = (shl.unbounded? x y).map w.unsigned :=
  congrArg some ((Int.mod_modEq x w.size).mul_right _)

/-- The width of a result: that of the left operand of a shift, and otherwise the wider one. -/
def resultWidth (op : Operator) (v w : Width) : Width := if op.isShift then v else v.join w

/-- What an operator gives in Java for numbers of two widths. The count of a shift is taken modulo
the width. -/
def result? (op : Operator) (v w : Width) (x y : Int) : Option Int :=
  if op = ushr then some (v.signed (v.unsigned x / 2 ^ (y % v.bits).toNat))
  else if op.isShift then (op.unbounded? x (y % v.bits)).map v.signed
  else (op.unbounded? x y).map (v.join w).signed

variable {v : Width} {z : Int}

/-- What an operator gives is in the range of its width. -/
theorem holds_of_result? (h : op.result? v w x y = some z) : (op.resultWidth v w).Holds z := by
  unfold result? at h
  unfold resultWidth
  split at h
  · next hop =>
    obtain rfl := Option.some.inj h
    rw [hop]
    exact Width.holds_signed _
  · split at h
    · next hshift =>
      obtain ⟨z, -, rfl⟩ := Option.map_eq_some_iff.1 h
      rw [if_pos hshift]
      exact Width.holds_signed _
    · next hshift =>
      obtain ⟨z, -, rfl⟩ := Option.map_eq_some_iff.1 h
      rw [if_neg hshift]
      exact Width.holds_signed _

theorem emod_bits (h : 0 ≤ y ∧ y < v.bits) : y % v.bits = y := Int.emod_eq_of_lt h.1 h.2

end Operator

namespace C

/-- An integer type. -/
structure IntType where
  width : Width
  isSigned : Bool
  deriving DecidableEq

namespace IntType

/-- A number brought into the range of a type. -/
def wrap (t : IntType) (x : Int) : Int :=
  if t.isSigned then t.width.signed x else t.width.unsigned x

/-- The type that two operands are brought to: the wider one, and the one without a sign if they
are as wide. -/
def common (a b : IntType) : IntType :=
  if a.width = b.width then ⟨a.width, a.isSigned && b.isSigned⟩
  else if a.width = .long then a else b

/-- How the integer types are written. -/
def spellings : List (List String × IntType) :=
  [(["int"], ⟨.int, true⟩), (["unsigned", "int"], ⟨.int, false⟩), (["long", "long"], ⟨.long, true⟩),
   (["unsigned", "long", "long"], ⟨.long, false⟩)]

/-- The integer type that is written with some words. -/
def ofWords? (ws : List Text) : Option IntType :=
  (spellings.find? fun s => s.1.map Text.ofString == ws).map Prod.snd

end IntType

/-- A number of a type. -/
structure Number where
  type : IntType
  value : Int
  deriving DecidableEq

namespace Number

/-- A number brought to a type. -/
def convert (t : IntType) (n : Number) : Number := ⟨t, t.wrap n.value⟩

/-- An operator applied to two numbers. A shift has the type of its left operand, and is not
defined unless the count is in the range of the width. -/
def apply (op : Operator) (a b : Number) : Option Number :=
  if op.isShift then
    if 0 ≤ b.value ∧ b.value < a.type.width.bits then
      (op.unbounded? a.value b.value).map fun x => ⟨a.type, a.type.wrap x⟩
    else none
  else
    let t := a.type.common b.type
    (op.unbounded? (t.wrap a.value) (t.wrap b.value)).map fun x => ⟨t, t.wrap x⟩

end Number

section Applying

variable {op : Operator} {v w : Width} {x y : Int}

/-- An operator gives for numbers with signs what it gives in Java. -/
theorem Number.apply_signed (hop : op ≠ .ushr) (hx : v.Holds x) (hy : w.Holds y)
    (hcount : op.isShift = true → 0 ≤ y ∧ y < v.bits) :
    Number.apply op ⟨⟨v, true⟩, x⟩ ⟨⟨w, true⟩, y⟩ =
      (op.result? v w x y).map (⟨⟨op.resultWidth v w, true⟩, ·⟩) := by
  rw [Number.apply, Operator.result?, if_neg hop, Operator.resultWidth]
  by_cases hshift : op.isShift = true
  · rw [if_pos hshift, if_pos (hcount hshift), if_pos hshift, if_pos hshift,
      Operator.emod_bits (hcount hshift), Option.map_map]
    rfl
  · have hcommon : IntType.common ⟨v, true⟩ ⟨w, true⟩ = ⟨v.join w, true⟩ := by
      cases v <;> cases w <;> rfl
    have hleft : IntType.wrap ⟨v.join w, true⟩ x = x := (hx.join w).1
    have hright : IntType.wrap ⟨v.join w, true⟩ y = y := (hy.join v).2
    rw [if_neg hshift, if_neg hshift, if_neg hshift]
    dsimp only
    rw [hcommon, hleft, hright, Option.map_map]
    rfl

/-- An operator that wraps gives for a left operand without a sign what it gives in Java, without
a sign. -/
theorem Number.apply_unsigned (hop : op.wraps = true)
    (hcount : op.isShift = true → 0 ≤ y ∧ y < v.bits) :
    Number.apply op ⟨⟨op.resultWidth v w, false⟩, (op.resultWidth v w).unsigned x⟩ ⟨⟨w, true⟩, y⟩ =
      (op.result? v w x y).map fun z =>
        ⟨⟨op.resultWidth v w, false⟩, (op.resultWidth v w).unsigned z⟩ := by
  have hne : op ≠ .ushr := fun h => by rw [h] at hop; cases hop
  rw [Number.apply, Operator.result?, if_neg hne]
  by_cases hshift : op.isShift = true
  · have hshl : op = .shl := by
      revert hop hshift
      cases op <;> decide
    have hwidth : op.resultWidth v w = v := if_pos hshift
    rw [if_pos hshift, hwidth, if_pos (hcount hshift), if_pos hshift,
      Operator.emod_bits (hcount hshift), Option.map_map, hshl]
    have hsame := Operator.shl_unsigned (w := v) (x := x) (y := y)
    simp only [Operator.unbounded?, Option.map_some, Option.some.injEq] at hsame ⊢
    simp only [Function.comp_def, IntType.wrap, Width.unsigned_signed, hsame]
    rfl
  · have hwidth : op.resultWidth v w = v.join w := if_neg hshift
    have hcommon : IntType.common ⟨v.join w, false⟩ ⟨w, true⟩ = ⟨v.join w, false⟩ := by
      cases v <;> cases w <;> rfl
    rw [if_neg hshift, hwidth, if_neg hshift]
    dsimp only
    rw [hcommon, Option.map_map]
    have hsame := Operator.unbounded_unsigned (w := v.join w) (x := x) (y := y) hop
      (by simpa using hshift)
    simp only [IntType.wrap, Bool.false_eq_true, if_false, Width.unsigned_unsigned]
    have hmap := congrArg (Option.map fun z : Int => (⟨⟨v.join w, false⟩, z⟩ : Number)) hsame
    simp only [Option.map_map, Function.comp_def, Width.unsigned_signed] at hmap ⊢
    exact hmap

/-- A shift of the bits without a sign, brought back to a number with a sign, is the unsigned shift
of Java. -/
theorem Number.apply_ushr (hcount : 0 ≤ y ∧ y < v.bits) :
    (Number.apply .shr ⟨⟨v, false⟩, v.unsigned x⟩ ⟨⟨w, true⟩, y⟩).map (Number.convert ⟨v, true⟩) =
      (Operator.result? .ushr v w x y).map (⟨⟨v, true⟩, ·⟩) := by
  have hshift : Operator.shr.isShift = true := rfl
  rw [Number.apply, if_pos hshift, if_pos hcount, Operator.result?, if_pos rfl,
    Operator.emod_bits hcount]
  simp only [Operator.unbounded?, Option.map_some, Number.convert, IntType.wrap, Bool.false_eq_true,
    if_true, if_false, Width.signed_unsigned]

end Applying

/-- The operators between two integers. -/
def operators : List (String × Operator) :=
  [("+", .add), ("-", .sub), ("*", .mul), ("/", .div), ("%", .rem), ("&", .and), ("^", .xor),
   ("|", .or), ("<<", .shl), (">>", .shr)]

/-- What an operator in front of an integer gives. -/
def applySign? (sign : Text) (x : Int) : Option Int :=
  if sign = "-" then some (-x)
  else if sign = "~" then some (-x - 1)
  else if sign = "+" then some x
  else none

/-- The number that an expression gives, given what names, messages and everything else is that is
not computed with integers. -/
def Expr.number? (given : Expr → Option Number) : Expr → Option Number
  | word w => given (word w)
  | bracketed ws => given (bracketed ws)
  | suffixed e ws => given (suffixed e ws)
  | choice c yes no => given (choice c yes no)
  | group e => number? given e
  | sign op e => (number? given e).bind fun n =>
      (applySign? op n.value).map fun x => ⟨n.type, n.type.wrap x⟩
  | cast type e =>
    match IntType.ofWords? type with
    | some t => (number? given e).map (Number.convert t)
    | none => given (cast type e)
  | operation op l r =>
    match Text.find? operators op with
    | some o => (number? given l).bind fun a => (number? given r).bind fun b => Number.apply o a b
    | none => given (operation op l r)

end C

end JavaObjC
