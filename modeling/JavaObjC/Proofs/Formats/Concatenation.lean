import JavaObjC.Proofs.Formats.Arguments

/-!
# Concatenations

A concatenation is printed by one format: the literals among its operands are
part of it, with their percent signs doubled, and every other operand is an
argument with a directive in its place. The main statement says that such a
format, read from left to right, is the operands in order, and that the
arguments fit its directives. This holds wherever operands are put together:
in output, in sums, in `+=` and in `valueOf`.
-/

namespace JavaObjC

open C Lowering

/-- What an operand prints. -/
def Value.pieces (v : Value) : List Piece :=
  match v.content with
  | some content => Piece.plain content
  | none => [.directive (Directive.printing v.type)]

/-- Operands of a concatenation: those that are no literals stand for themselves. -/
def AreOperands (given : Expr → Option Kind) (parts : List Value) : Prop :=
  ∀ v ∈ parts, v.content = none → ∃ e, v.Stands given e

/-- A format and arguments that print operands. -/
structure Prints (given : Expr → Option Kind) (parts : List Value) (format : Text)
    (arguments : List Text) : Prop where
  /-- The contents of the literals in place, and a directive for every other operand. -/
  pieces : Format.decode format = some (parts.flatMap Value.pieces)
  /-- An argument for every directive, passed as the directive takes it. -/
  arguments : arguments.map (argumentKind? given) =
    ((parts.flatMap Value.pieces).filterMap Piece.directive?).map fun d => some d.takes

/-- A string of operands: a constant if all of them are literals, or else one built from a
format that prints them. -/
def IsStringOf (given : Expr → Option Kind) (parts : List Value) (text : Text) : Prop :=
  if parts.all Value.isLiteral then
    text = stringConstant (parts.flatMap fun v => v.content.getD [])
  else ∃ format arguments, Prints given parts format arguments ∧
    text = formattedString (stringConstant format) arguments

section Formats

variable {given : Expr → Option Kind} {parts : List Value} {v : Value}

/-- The format and the argument of one operand. -/
theorem formatParts_cons (v : Value) (parts : List Value) :
    formatParts (v :: parts) = match v.content with
      | some content => (Text.replaceByte (Text.byte '%') "%%" content ++ (formatParts parts).1,
          (formatParts parts).2)
      | none => ((formatArgument v).1 ++ (formatParts parts).1,
          (formatArgument v).2 :: (formatParts parts).2) := by
  unfold formatParts
  rw [List.flatMap_cons, List.filterMap_cons]
  cases hcontent : v.content with
  | none => simp [Value.isLiteral, hcontent]
  | some content => simp [Value.isLiteral, hcontent]

/-- The format of operands prints them. -/
theorem AreOperands.prints (h : AreOperands given parts) :
    Prints given parts (formatParts parts).1 (formatParts parts).2 := by
  induction parts with
  | nil => exact ⟨rfl, rfl⟩
  | cons v parts ih =>
    obtain ⟨hpieces, harguments⟩ := ih fun w hw => h w (List.mem_cons_of_mem v hw)
    rw [formatParts_cons]
    cases hcontent : v.content with
    | some content =>
      have hv : v.pieces = Piece.plain content := by rw [Value.pieces, hcontent]
      refine ⟨?_, ?_⟩
      · rw [Format.decode_replaceByte, hpieces, List.flatMap_cons, hv]
        rfl
      · rw [List.flatMap_cons, List.filterMap_append, hv, Piece.filterMap_plain]
        exact harguments
    | none =>
      have hv : v.pieces = [.directive (Directive.printing v.type)] := by
        rw [Value.pieces, hcontent]
      obtain ⟨e, hstands⟩ := h v List.mem_cons_self hcontent
      obtain ⟨hdirective, hargument⟩ := hstands.fits
      refine ⟨?_, ?_⟩
      · rw [hdirective, Format.decode_directive, hpieces, List.flatMap_cons, hv]
        rfl
      · rw [List.flatMap_cons, List.filterMap_append, hv, List.map_cons, hargument, harguments]
        rfl

/-- Only literals have no arguments. -/
theorem formatParts_arguments_eq_nil :
    (formatParts parts).2 = [] ↔ parts.all Value.isLiteral = true := by
  unfold formatParts
  rw [List.filterMap_eq_nil_iff, List.all_eq_true]
  exact forall₂_congr fun v _ => by cases v.isLiteral <;> simp

/-- A string is printed as an object. -/
theorem formatArgument_of_isStringType (h : isStringType v.type = true) :
    formatArgument v = (Text.ofString "%@", v.text) := by
  have hprimitive : v.type.isPrimitive = false := by
    rw [← Bool.not_eq_true]
    exact fun hprimitive => by
      rw [(primitiveOf?_of_isPrimitive hprimitive).2] at h
      cases h
  have hboxed : isBoxed v.type = false := by
    simp [isBoxed, isBoxedName, primitiveOf?_of_isStringType h]
  exact formatArgument_of_object hboxed hprimitive

/-- A concatenation is a constant or a string built from its format. -/
theorem concatenation_text (parts : List Value) : (concatenation parts).text =
    if (formatParts parts).2 = [] then stringConstant (parts.flatMap fun v => v.content.getD [])
    else formattedString (stringConstant (formatParts parts).1) (formatParts parts).2 := by
  unfold concatenation
  dsimp only
  split
  · next only =>
    split
    · next hstring =>
      obtain ⟨htype, hliteral⟩ : isStringType only.type = true ∧ only.isLiteral = false := by
        simpa using hstring
      have hcontent : only.content = none := by simpa [Value.isLiteral] using hliteral
      rw [formatParts_cons, hcontent]
      dsimp only
      rw [if_neg (by simp), formatArgument_of_isStringType htype]
      rfl
    · by_cases hnil : (formatParts [only]).2 = []
      · rw [if_pos hnil, if_pos (by rw [hnil]; rfl)]
      · rw [if_neg hnil, if_neg (by simpa using hnil)]
        rfl
  · next hnil => rw [if_pos hnil]
  · next hnil => rw [if_neg hnil]; rfl

/-- A concatenation is a string of its operands. -/
theorem AreOperands.concatenation (h : AreOperands given parts) :
    IsStringOf given parts (concatenation parts).text := by
  rw [concatenation_text, IsStringOf]
  by_cases hliterals : parts.all Value.isLiteral = true
  · rw [if_pos (formatParts_arguments_eq_nil.2 hliterals), if_pos hliterals]
  · rw [if_neg fun hnil => hliterals (formatParts_arguments_eq_nil.1 hnil), if_neg hliterals]
    exact ⟨_, _, h.prints, rfl⟩

end Formats

section Forms

variable {around : Surroundings} {s s₁ s' : BodyState} {given : Expr → Option Kind}
  {parts values : List Value} {v target : Value} {isString : Bool} {n : Node}
  {argument left right : Attributed} {more list : Parts}

/-- Printing an argument logs the format of its operands. -/
theorem printCall_run (h : argument.meaning.operands.run' around s = (.ok (parts, isString), s')) :
    (printCall argument).run' around s =
      (.ok (logCall (stringConstant (formatParts parts).1) (formatParts parts).2), s') := by
  rw [printCall, run'_bind h]
  rfl

/-- The output methods that print an argument as it is. -/
theorem streamCall_run {name : String} (hname : name ∈ ["print", "println"])
    (h : argument.meaning.operands.run' around s = (.ok (parts, isString), s')) :
    (streamCall n name (argument :: more) (v :: values)).run' around s =
      (.ok (logCall (stringConstant (formatParts parts).1) (formatParts parts).2), s') := by
  have hword : ∀ name ∈ ["print", "println"], LibraryCall.word (Text.ofString name) = name := by
    decide
  have hcall : streamCall n name (argument :: more) (v :: values) = printCall argument := by
    unfold streamCall
    rw [hword name hname]
    simp only [List.mem_cons, List.not_mem_nil, or_false] at hname
    rcases hname with rfl | rfl <;> rfl
  rw [hcall, printCall_run h]

/-- A sum with a string in it is the concatenation of its operands. -/
theorem sum_run (hlength : 2 ≤ parts.length)
    (h : (sumOperands list).run' around s = (.ok (parts, isString), s')) :
    (sum list).run' around s = (.ok (concatenation parts), s') := by
  rw [sum, run'_bind h]
  obtain _ | ⟨first, _ | ⟨second, more⟩⟩ := parts
  · cases hlength
  · exact absurd hlength (by simp)
  · rfl

/-- An addition to a string variable puts the variable in front of the operands. -/
theorem assignVariable_run (htarget : left.value.run' around s = (.ok target, s₁))
    (hstring : isStringType target.type = true)
    (h : right.meaning.operands.run' around s₁ = (.ok (parts, isString), s')) :
    (assignVariable left "+=" right).run' around s =
      (.ok (.typed (target.text ++ " = " ++ (concatenation (target :: parts)).text) target.type),
        s') := by
  rw [assignVariable, run'_bind htarget, if_pos ⟨rfl, hstring⟩, run'_bind h]
  rfl

/-- A share: a text with a percent sign, and a number, a boxed one and a truth value. -/
def shareParts : List Value :=
  [{ text := "@\"100% of \"", type := .string, content := some "100% of " }, .typed "x" .int,
    .typed "f" (.named "Float"), .typed "flag" .boolean]

/-- What the names in the share are. -/
def shareKind (e : Expr) : Option Kind :=
  if e = .word "f" then some .object
  else if e = .word "x" ∨ e = .word "flag" then some .int
  else none

/-- The share as a sum of its operands. -/
def shareSum : Node :=
  let plus := operatorLeaf .plus {}
  let name := fun word : Text => Node.ofToken .identifier ⟨.identifier, {}, word⟩
  let add := fun l r : Node => (⟨.binaryExpr, {}, none, none, [l, plus, r]⟩ : Node)
  add (add (add (.ofToken .literal ⟨.stringLiteral, {}, "\"100% of \""⟩) (name "x")) (name "f"))
    (name "flag")

/-- A body with the locals of the share. -/
def shareState : BodyState :=
  { scopes := [[("x", .int), ("f", .named "Float"), ("flag", .boolean)]] }

theorem shareParts_areOperands : AreOperands shareKind shareParts := by
  intro v hv hcontent
  simp only [shareParts, List.mem_cons, List.not_mem_nil, or_false] at hv
  rcases hv with rfl | rfl | rfl | rfl
  · cases hcontent
  · exact ⟨_, Value.stands_name (by decide) (by decide) (by decide)⟩
  · exact ⟨_, Value.stands_name (by decide) (by decide) (by decide)⟩
  · exact ⟨_, Value.stands_name (by decide) (by decide) (by decide)⟩

end Forms

end JavaObjC
