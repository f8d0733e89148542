import JavaObjC.Proofs.Progress.Expressions
import JavaObjC.Source.Grammar.Statements

/-!
# Declarations proceed

Type declarations, and the local variables and classes of a method body. An
enum constant may begin with nothing of its own; it still takes a token,
because the loop over the constants goes on only where one finds something to
take.
-/

namespace JavaObjC

open Cursor

namespace Grammar

variable {R : Region} {room : Nat} {rule rule' : Rules} {c : Cursor} {marks : Node}

section Generics

variable (hrule : rule.Agree R room rule') (hc : c.Within R) (hroom : c.rest.length ≤ room + 1)

include hrule hc hroom

theorem typeBounds_proceeds : Proceeds R c (PlacedAll R) (typeBounds rule) (typeBounds rule') := by
  refine .ifSkip hc (fun c₁ hc₁ _ => ?_) fun _ => .pure hc Node.withinAll_nil
  refine (type_proceeds hrule hc₁ (by omega)).bind fun first c₂ hc₂ hle₂ hfirst => ?_
  refine (Proceeds.manyAfter
    (fun e he hlt => (type_proceeds hrule he (by omega)).placed) hc₂).bind
    fun more c₃ hc₃ _ hmore => ?_
  exact .pure hc₃ (Node.withinAll_cons.2 ⟨hfirst.1, hmore⟩)

theorem typeParameter_proceeds :
    Proceeds R c (Placed R) (typeParameter rule) (typeParameter rule') := by
  refine .here_bind hc fun hstart => ?_
  refine (annotations_proceeds hrule hc hroom).bind fun marks c₁ hc₁ hle₁ hmarks => ?_
  refine (Proceeds.name hc₁).bind fun label c₂ hc₂ hle₂ hlabel => ?_
  refine (typeBounds_proceeds hrule hc₂ (by omega)).bind fun bounds c₃ hc₃ _ hbounds => ?_
  exact .finish hc₃ hstart (by simpa using ⟨hmarks.1, hlabel.1, hbounds⟩)

theorem typeParameters_proceeds :
    Proceeds R c (Placed R) (typeParameters rule) (typeParameters rule') := by
  refine .here_bind hc fun hstart => .need_bind hc fun c₁ hc₁ hle₁ _ => ?_
  refine (Proceeds.commaList (fun e he hle => typeParameter_proceeds hrule he (by omega))
    hc₁).bind fun items c₂ hc₂ _ hitems => ?_
  exact (closeAngle_proceeds hc₂).bind fun _ c₃ hc₃ _ _ => .finish hc₃ hstart hitems

/-- Type parameters if there are any. -/
theorem optionalTypeParameters_proceeds :
    Proceeds R c (PlacedAll R) (Parser.optional (Parser.check Symbol.lt) (typeParameters rule))
    (Parser.optional (Parser.check Symbol.lt) (typeParameters rule')) :=
  .optionalCheck hc fun _ => typeParameters_proceeds hrule hc hroom

end Generics

section Declarations

variable (hrule : rule.Agree R room rule') (hc : c.Within R)

include hrule hc

theorem implementsList_proceeds (hroom : c.rest.length ≤ room + 1)
    (hfront : (c.tokenAt 0).kind = Keyword.implementsKw) :
    Proceeds R c (Placed R) (implementsList rule) (implementsList rule') := by
  refine .here_bind hc fun hstart => ?_
  refine (Proceeds.advance hc (ne_eof_of_eq hfront)).bind fun _ c₁ hc₁ hle₁ _ => ?_
  refine (typeList_proceeds hrule hc₁ (by omega)).bind fun types c₂ hc₂ _ htypes => ?_
  exact .finish hc₂ hstart htypes

theorem classDecl_proceeds (hroom : c.rest.length ≤ room + 1)
    (hfront : (c.tokenAt 0).kind = Keyword.classKw) (hmarks : marks.Within R) :
    Proceeds R c (fun n e => n.Within R ∧ e.rest.length < c.rest.length) (classDecl rule marks)
    (classDecl rule' marks) := by
  refine .opening_bind hc hfront fun hstart c₁ hc₁ hlt => ?_
  refine (Proceeds.name hc₁).bind fun label c₂ hc₂ hle₂ hlabel => ?_
  refine (optionalTypeParameters_proceeds hrule hc₂ (by omega)).bind
    fun generics c₃ hc₃ hle₃ hgenerics => ?_
  refine (Proceeds.optionalAfter hc₃
    (fun e he hlt => (type_proceeds hrule he (by omega)).placed)).bind
    fun base c₄ hc₄ hle₄ hbase => ?_
  refine (Proceeds.optionalCheck hc₄ fun h => implementsList_proceeds hrule hc₄ (by omega) h).bind
    fun adopted c₅ hc₅ hle₅ hadopted => ?_
  refine (classBody_proceeds hrule hc₅ (.inl (by omega))).bind fun body c₆ hc₆ hle₆ hbody => ?_
  refine (Proceeds.finish hc₆ hstart ?_).imp fun _ c₇ hle₇ h => ⟨h, by omega⟩
  simpa using ⟨hmarks, hlabel.1, hgenerics, hbase, hadopted, hbody⟩

theorem interfaceDecl_proceeds (hroom : c.rest.length ≤ room + 1)
    (hfront : (c.tokenAt 0).kind = Keyword.interfaceKw) (hmarks : marks.Within R) :
    Proceeds R c (fun n e => n.Within R ∧ e.rest.length < c.rest.length) (interfaceDecl rule marks)
    (interfaceDecl rule' marks) := by
  refine .opening_bind hc hfront fun hstart c₁ hc₁ hlt => ?_
  refine (Proceeds.name hc₁).bind fun label c₂ hc₂ hle₂ hlabel => ?_
  refine (optionalTypeParameters_proceeds hrule hc₂ (by omega)).bind
    fun generics c₃ hc₃ hle₃ hgenerics => ?_
  refine (typesAfter_proceeds hrule hc₃ (by omega) _).bind
    fun extended c₄ hc₄ hle₄ hextended => ?_
  refine (classBody_proceeds hrule hc₄ (.inl (by omega))).bind fun body c₅ hc₅ hle₅ hbody => ?_
  refine (Proceeds.finish hc₅ hstart ?_).imp fun _ c₆ hle₆ h => ⟨h, by omega⟩
  simpa using ⟨hmarks, hlabel.1, hgenerics, hextended, hbody⟩

/-- A constant that begins with a name or an annotation takes it. -/
theorem enumConstant_proceeds (hroom : c.rest.length ≤ room)
    (hfront : (c.tokenAt 0).kind.isName = true ∨ (c.tokenAt 0).kind = Symbol.atSign) :
    Proceeds R c (fun n e => n.Within R ∧ e.rest.length < c.rest.length) (enumConstant rule)
    (enumConstant rule') := by
  refine .here_bind hc fun hstart => ?_
  refine (annotations_proceeds hrule hc (by omega)).bind fun marks c₁ hc₁ hle₁ hmarks => ?_
  refine (Proceeds.name hc₁).bind fun label c₂ hc₂ hle₂ hlabel => ?_
  have hlt : c₂.rest.length < c.rest.length := by
    by_cases hat : (c.tokenAt 0).kind = Symbol.atSign
    · have := hmarks.2.1 hat
      omega
    · obtain rfl := hmarks.2.2 hat
      exact hlabel.2 (hfront.resolve_right hat)
  refine (Proceeds.optionalCheck hc₂ fun _ => (arguments_proceeds hrule hc₂
    (.inl (by omega))).imp fun _ _ _ h => h.1).bind fun given c₃ hc₃ hle₃ hgiven => ?_
  refine (optionalBody_proceeds hrule hc₃ (by omega)).bind fun body c₄ hc₄ hle₄ hbody => ?_
  refine (Proceeds.finish hc₄ hstart ?_).imp fun _ c₅ hle₅ h => ⟨h, by omega⟩
  simpa using ⟨hmarks.1, hlabel.1, hgiven, hbody⟩

theorem enumConstants_proceeds (hroom : c.rest.length ≤ room) :
    Proceeds R c (PlacedAll R) (enumConstants rule) (enumConstants rule') := by
  refine (Proceeds.loop (I := fun state : List Node × Bool => Node.WithinAll R state.1)
    (fun state e hconstants he hle => ?_) Node.withinAll_nil hc).bind
    fun state c₁ hc₁ _ hconstants => .pure hc₁ hconstants
  obtain ⟨constants, more⟩ := state
  refine .glance rfl (.glance rfl (.ite (fun hyes => ?_) fun _ => .pure he (by simp)))
  have hfront : (e.tokenAt 0).kind.isName = true ∨ (e.tokenAt 0).kind = Symbol.atSign := by
    simp only [Bool.and_eq_true, Bool.or_eq_true, beq_iff_eq] at hyes
    exact hyes.2
  refine (enumConstant_proceeds hrule he (by omega) hfront).bind
    fun constant e₁ he₁ _ hconstant => ?_
  refine (Proceeds.skip he₁).bind fun comma e₂ he₂ hle₂ _ => .pure he₂ fun b hb => ?_
  cases hb
  exact ⟨by simpa using ⟨hconstants, hconstant.1⟩, by have := hconstant.2; omega⟩

theorem enumMembers_proceeds (hroom : c.rest.length ≤ room) :
    Proceeds R c (PlacedAll R) (enumMembers rule) (enumMembers rule') := by
  refine .ifSkip hc (fun c₁ hc₁ hlt₁ => ?_) fun _ => .pure hc Node.withinAll_nil
  exact (Proceeds.manyBefore (fun e he hle _ => hrule .member e he (by omega)) hc₁).imp
    fun _ _ _ h => h.1

theorem enumBody_proceeds (hroom : c.rest.length ≤ room) :
    Proceeds R c (Placed R) (enumBody rule) (enumBody rule') := by
  refine .here_bind hc fun hstart => .need_bind hc fun c₁ hc₁ hle₁ _ => ?_
  refine (enumConstants_proceeds hrule hc₁ (by omega)).bind
    fun constants c₂ hc₂ hle₂ hconstants => ?_
  refine (enumMembers_proceeds hrule hc₂ (by omega)).bind fun members c₃ hc₃ hle₃ hmembers => ?_
  exact .need_bind hc₃ fun c₄ hc₄ _ _ =>
    .finish hc₄ hstart (by simpa using ⟨hconstants, hmembers⟩)

theorem enumDecl_proceeds (hroom : c.rest.length ≤ room + 1)
    (hfront : (c.tokenAt 0).kind = Keyword.enumKw) (hmarks : marks.Within R) :
    Proceeds R c (fun n e => n.Within R ∧ e.rest.length < c.rest.length) (enumDecl rule marks)
    (enumDecl rule' marks) := by
  refine .opening_bind hc hfront fun hstart c₁ hc₁ hlt => ?_
  refine (Proceeds.name hc₁).bind fun label c₂ hc₂ hle₂ hlabel => ?_
  refine (typesAfter_proceeds hrule hc₂ (by omega) _).bind fun adopted c₃ hc₃ hle₃ hadopted => ?_
  refine (enumBody_proceeds hrule hc₃ (by omega)).bind fun body c₄ hc₄ hle₄ hbody => ?_
  refine (Proceeds.finish hc₄ hstart ?_).imp fun _ c₅ hle₅ h => ⟨h, by omega⟩
  simpa using ⟨hmarks, hlabel.1, hadopted, hbody⟩

theorem annotationDecl_proceeds (hroom : c.rest.length ≤ room + 1)
    (hfront : (c.tokenAt 0).kind = Symbol.atSign) (hmarks : marks.Within R) :
    Proceeds R c (fun n e => n.Within R ∧ e.rest.length < c.rest.length) (annotationDecl rule marks)
    (annotationDecl rule' marks) := by
  refine .opening_bind hc hfront fun hstart c₁ hc₁ hlt => ?_
  refine .need_bind hc₁ fun c₂ hc₂ hle₂ _ => ?_
  refine (Proceeds.name hc₂).bind fun label c₃ hc₃ hle₃ hlabel => ?_
  refine (classBody_proceeds hrule hc₃ (.inl (by omega))).bind fun body c₄ hc₄ hle₄ hbody => ?_
  refine (Proceeds.finish hc₄ hstart ?_).imp fun _ c₅ hle₅ h => ⟨h, by omega⟩
  simpa using ⟨hmarks, hlabel.1, hbody⟩

/-- Where no type declaration follows, nothing is taken. -/
theorem typeDecl_proceeds (hroom : c.rest.length ≤ room + 1) (hmarks : marks.Within R) :
    Proceeds R c (fun o e => ∀ n ∈ o, n.Within R ∧ e.rest.length < c.rest.length)
    (typeDecl? rule marks) (typeDecl? rule' marks) := by
  refine .kindAt_bind (.kindAt_bind ?_)
  generalize hk : (c.tokenAt 0).kind = kind
  split
  · exact .some_of (classDecl_proceeds hrule hc hroom hk hmarks)
  · exact .some_of (interfaceDecl_proceeds hrule hc hroom hk hmarks)
  · exact .some_of (enumDecl_proceeds hrule hc hroom hk hmarks)
  · exact .ite (fun _ => .some_of (annotationDecl_proceeds hrule hc hroom hk hmarks)) fun _ =>
      .pure hc (by simp)
  · exact .pure hc (by simp)

end Declarations

section Variables

variable (hrule : rule.Agree R room rule') (hc : c.Within R) (hroom : c.rest.length ≤ room + 1)

include hrule hc hroom

theorem declarator_proceeds :
    Proceeds R c (fun (result : Node × Nat) _ => result.1.Within R) (declarator rule)
    (declarator rule') := by
  refine .here_bind hc fun hstart => (Proceeds.name hc).bind fun label c₁ hc₁ hle₁ hlabel => ?_
  refine (bracketPairs_proceeds hc₁).bind fun depth c₂ hc₂ hle₂ _ => ?_
  refine (Proceeds.optionalAfter hc₂
    (fun e he hlt => (initializer_proceeds hrule he (by omega)).placed)).bind
    fun value c₃ hc₃ _ hvalue => ?_
  exact (Proceeds.finish hc₃ hstart (by simpa using ⟨hlabel.1, hvalue⟩)).bind
    fun _ c₄ hc₄ _ h => .pure hc₄ h

theorem declarators_proceed :
    Proceeds R c (fun (result : List Node × Nat) _ => Node.WithinAll R result.1) (declarators rule)
    (declarators rule') := by
  refine (declarator_proceeds hrule hc hroom).bind fun first c₁ hc₁ hle₁ hfirst => ?_
  obtain ⟨first, depth⟩ := first
  refine .loop (I := fun state : List Node × Nat => Node.WithinAll R state.1)
    (fun state e hnodes he hle => ?_) (by simpa using hfirst) hc₁
  obtain ⟨nodes, total⟩ := state
  refine .ifSkip he (fun e₁ he₁ hlt₁ => ?_) fun _ => .pure he (by simp)
  refine (declarator_proceeds hrule he₁ (by omega)).bind fun next e₂ he₂ hle₂ hnext => ?_
  obtain ⟨node, depth⟩ := next
  refine .pure he₂ fun b hb => ?_
  cases hb
  exact ⟨by simpa using ⟨hnodes, hnext⟩, by omega⟩

theorem localType_proceeds :
    Proceeds R c (Took R c.rest.length) (localType rule) (localType rule') :=
  .ifCheck (fun hfront => .leaf_took hc (ne_eof_of_eq hfront)) fun _ =>
    type_proceeds hrule hc hroom

theorem localVarDecl_proceeds :
    Proceeds R c (Took R c.rest.length) (localVarDecl rule) (localVarDecl rule') := by
  refine .here_bind hc fun hstart => ?_
  refine (modifiers_proceeds hrule hc hroom).bind fun marks c₁ hc₁ hle₁ hmarks => ?_
  refine (localType_proceeds hrule hc₁ (by omega)).bind fun declared c₂ hc₂ hle₂ hdeclared => ?_
  refine (declarators_proceed hrule hc₂ (by omega)).bind fun result c₃ hc₃ hle₃ hnodes => ?_
  obtain ⟨nodes, depth⟩ := result
  have htook := hdeclared.2
  refine .finish_took hc₃ hstart ?_ fun _ => by omega
  simpa using ⟨hmarks, inArrays_within depth hdeclared.1, hnodes⟩

theorem simpleStmt_proceeds :
    Proceeds R c (Took R c.rest.length) (simpleStmt rule) (simpleStmt rule') := by
  refine (startsLocalDeclaration_proceeds hrule hc hroom).bind fun _ c₁ hc₁ hle₁ hlength => ?_
  refine .ite (fun _ => ?_) fun _ => ?_
  · refine (localVarDecl_proceeds hrule hc₁ (by omega)).bind
      fun declaration c₂ hc₂ hle₂ hdeclaration => ?_
    have htook := hdeclaration.2
    exact .need_bind hc₂ fun c₃ hc₃ hle₃ _ =>
      .extend hc₃ hdeclaration.1 fun _ => by omega
  · refine .here_bind hc₁ fun hstart => ?_
    refine (expression_proceeds hrule hc₁ (by omega)).bind fun value c₂ hc₂ hle₂ hvalue => ?_
    have htook := hvalue.2
    exact .need_bind hc₂ fun c₃ hc₃ hle₃ _ =>
      .finish_took hc₃ hstart (by simpa using hvalue.1) fun _ => by omega

theorem localTypeDecl_proceeds (hmarks : marks.Within R) :
    Proceeds R c (Took R c.rest.length) (localTypeDecl rule marks) (localTypeDecl rule' marks) := by
  refine .kindAt_bind ?_
  generalize hk : (c.tokenAt 0).kind = kind
  split
  · exact (classDecl_proceeds hrule hc hroom hk hmarks).imp fun _ _ _ h => ⟨h.1, fun _ => h.2⟩
  · exact (interfaceDecl_proceeds hrule hc hroom hk hmarks).imp fun _ _ _ h => ⟨h.1, fun _ => h.2⟩
  · exact (enumDecl_proceeds hrule hc hroom hk hmarks).imp fun _ _ _ h => ⟨h.1, fun _ => h.2⟩
  · exact .problem _ _ _ hc

theorem localClassDecl_proceeds :
    Proceeds R c (Took R c.rest.length) (localClassDecl rule) (localClassDecl rule') := by
  refine .here_bind hc fun hstart => ?_
  refine (modifiers_proceeds hrule hc hroom).bind fun marks c₁ hc₁ hle₁ hmarks => ?_
  refine (localTypeDecl_proceeds hrule hc₁ (by omega) hmarks).bind
    fun declaration c₂ hc₂ hle₂ hdeclaration => ?_
  have htook := hdeclaration.2
  exact .finish_took hc₂ hstart (by simpa using hdeclaration.1) fun _ => by omega

end Variables

end Grammar

end JavaObjC
