import JavaObjC.Proofs.Trees.Phrases

/-!
# Trees of expressions

What the productions for expressions build. A suffix of an expression and an
operator with its right side turn one expression into another, so the loops
over them keep a tree an expression.
-/

namespace JavaObjC

open Cursor

namespace Grammar

open Gives

variable {rule : Rules} {H : Prop} {c : Cursor}

theorem lambdaParameter_yields (hr : rule.Builds) :
    Yields (Derives .lambdaParameter) (lambdaParameter rule) := by
  intro c hc
  refine kindAt_bind (checkName_bind (.ite (fun h => ?_) fun _ => ?_))
  · have hname : (c.tokenAt 0).kind.isName = true := (Bool.and_eq_true_iff.1 h).1
    exact (word hc (TokenKind.isWord_of_isName hname)).weaken id fun _ _ h => h.mono (by decide)
  · exact (parameter_yields hr c hc).weaken id fun _ _ h => h.mono (by decide)

theorem lambdaHead_yields (hr : rule.Builds) : Yields (Derives .lambdaHead) (lambdaHead rule) := by
  intro c hc
  refine here_bind fun _ => ifCheckName (fun hname => ?_) ?_
  · refine bind hc (word hc (TokenKind.isWord_of_isName hname)) fun only c hc => ?_
    exact form [.many .lambdaParameter] hc (by decide) fun h =>
      .more (h.2.mono (by decide)) (.done .nil)
  · refine need_bind hc fun c hc => ?_
    refine bind hc (Yields.commaListBefore (lambdaParameter_yields hr) c hc) fun items c hc => ?_
    refine need_bind hc fun c hc => ?_
    exact form [.many .lambdaParameter] hc (by decide) fun h => .of_all_last h.2

theorem lambdaBody_yields (hr : rule.Builds) :
    Yields (Derives .lambdaBody) (lambdaBody rule) := fun c hc =>
  ifCheck (fun _ => (block_yields hr c hc).weaken id fun _ _ h => h.mono (by decide))
    ((hr.derives .expression c hc).weaken id fun _ _ h => h.mono (by decide))

theorem lambda_yields (hr : rule.Builds) : Yields (Derives .expression) (lambda rule) := by
  intro c hc
  refine here_bind fun _ => bind hc (lambdaHead_yields hr c hc) fun head c hc => ?_
  refine need_bind hc fun c hc => ?_
  refine bind hc (lambdaBody_yields hr c hc) fun body c hc => ?_
  exact form [.one .lambdaHead, .one .lambdaBody] hc (by decide) fun h => .one h.1.2 (.one h.2 .nil)

theorem lambdaOr_yields (hr : rule.Builds) {other : Parser Node}
    (h : Yields (Derives .expression) other) :
    Yields (Derives .expression) (lambdaOr rule other) := fun _ hc =>
  startsLambda_bind hc fun _ c hc => .ite (fun _ => lambda_yields hr c hc) fun _ => h c hc

theorem dimensions_yield (hr : rule.Builds) :
    Yields (fun d => DerivesAll .expression d.2) (dimensions rule) := by
  intro c hc
  refine (loop (Q := fun d : Nat × List Node => DerivesAll .expression d.2) (fun d c hc => ?_)
    hc).weaken (fun _ => .nil) fun _ _ h => h
  refine ifSkip hc (fun c hc => ?_) (.pure hc fun _ => nofun)
  refine optional_bind (.checkNot _) (fun _ c _ hc => hr.derives .expression c hc) hc
    fun length c hc => ?_
  refine need_bind hc fun c hc => .pure hc ?_
  rintro ⟨hlengths, hlength, -⟩ _ ⟨⟩
  exact DerivesAll.append_iff.2 ⟨hlengths, hlength⟩

/-- Going on after type arguments that the tree does not keep. -/
theorem dropTypeArguments_bind {β : Type} {S : β → Prop} {f : Unit → Parser β} (hr : rule.Builds)
    (hc : c.Ready) (h : ∀ c' : Cursor, c'.Ready → Gives H S (f ()) c') :
    Gives H S (dropTypeArguments rule >>= f) c :=
  bind hc (of_parallel ((dropTypeArguments_tracks hr.tracked).run hc.sound)) fun _ c' hc' =>
    (h c' hc').weaken And.left fun _ _ h => h

/-- A class body if there is one. -/
theorem optionalBody_bind {β : Type} {S : β → Prop} {f : List Node → Parser β}
    (hr : rule.Builds) (hc : c.Ready) (h : ∀ l c', Cursor.Ready c' →
      Gives (H ∧ DerivesAll .classBody l ∧ l.length ≤ 1) S (f l) c') :
    Gives H S (Parser.optional (Parser.check Symbol.lbrace) (classBody rule) >>= f) c :=
  optional_bind (.check _) (fun _ c _ hc => classBody_yields hr c hc) hc h

theorem creation_gives (hr : rule.Builds) (start : Position) (created : Node) (hc : c.Ready) :
    Gives (Derives .type created) (Derives .expression) (creation rule start created) c := by
  refine ifCheck (fun _ => ?_) ?_
  · refine bind hc (dimensions_yield hr c hc) fun d c hc => ?_
    refine optional_bind (.check _) (fun _ c _ hc => arrayInitializer_yields hr c hc) hc
      fun values c hc => ?_
    refine finishWith hc fun _ => ?_
    rintro ⟨⟨hcreated, hlengths⟩, hvalues, hlength⟩
    refine .node (f := ⟨.newArrayExpr, [.one .type, .many .expression, .optional .arrayInit],
      .present⟩) (by decide) rfl (.one hcreated (.of_all hlengths ?_))
    exact .of_optional_last hvalues hlength
  · refine bind hc (arguments_yield hr c hc) fun given c hc => ?_
    refine optionalBody_bind hr hc fun body c hc => ?_
    refine form [.one .type, .one .arguments, .optional .classBody] hc (by decide) ?_
    rintro ⟨⟨hcreated, hgiven⟩, hbody, hlength⟩
    exact .one hcreated (.one hgiven (.of_optional_last hbody hlength))

/-- A new object or array of a type that was just read. -/
theorem typedCreation_gives {start start' : Position} {children : List Node} (items : List Item)
    (hr : rule.Builds) (hc : c.Ready) (hform : ⟨.type, items, .absent⟩ ∈ Category.type.forms)
    (h : H → Matches items children) :
    Gives H (Derives .expression)
      (Parser.finish .type start' children >>= creation rule start) c := by
  refine bind_given hc (form items hc hform h) fun n c hc => ?_
  exact (creation_gives hr start n hc).weaken And.right fun _ _ h => h

theorem newExpr_yields (hr : rule.Builds) : Yields (Derives .expression) (newExpr rule) := by
  intro c hc
  refine here_bind fun _ => need_bind hc fun c hc => ?_
  refine dropTypeArguments_bind hr hc fun c hc => here_bind fun _ => kindAt_bind ?_
  refine .ite (fun hk => ?_) fun _ => .ite (fun _ => ?_) fun _ => problem _ _ _ hc
  · refine bind hc (word hc (TokenKind.isWord_of_isPrimitive hk)) fun label c hc => ?_
    exact typedCreation_gives [.many .annotationUse, .one .word] hr hc (by decide) fun h =>
      .done (.one h.2 .nil)
  · refine bind hc (qualifiedName_yields c hc) fun target c hc => ?_
    refine optionalTypeArguments_bind hr hc fun given c hc => ?_
    refine typedCreation_gives [.many .annotationUse, .one .qualifiedName, .many .typePart] hr hc
      (by decide) ?_
    rintro ⟨⟨-, htarget⟩, hgiven, -⟩
    exact .done (.one htarget (.of_all_last fun n hn => (hgiven n hn).mono (by decide)))

theorem innerNewExpr_gives (hr : rule.Builds) (outer : Node) (hc : c.Ready) :
    Gives (Derives .expression outer) (Derives .expression) (innerNewExpr rule outer) c := by
  refine need_bind hc fun c hc => dropTypeArguments_bind hr hc fun c hc => ?_
  refine name_bind hc fun label c hc => optionalTypeArguments_bind hr hc fun typed c hc => ?_
  refine bind hc (arguments_yield hr c hc) fun given c hc => ?_
  refine optionalBody_bind hr hc fun body c hc => ?_
  refine form [.one .expression, .one .word, .optional .typeArguments, .one .arguments,
    .optional .classBody] hc (by decide) ?_
  rintro ⟨⟨⟨⟨houter, n, rfl, hn⟩, htyped, hlength⟩, hgiven⟩, hbody, hlength'⟩
  refine .one houter (.one hn (.of_optional htyped hlength (.one hgiven ?_)))
  exact .of_optional_last hbody hlength'

theorem primitiveClassLiteral_gives (hc : c.Ready) (hk : (c.tokenAt 0).kind.isWord = true) :
    Gives H (Derives .expression) primitiveClassLiteral c := by
  refine here_bind fun _ => bind hc (word hc hk) fun label c hc => ?_
  refine bind_given hc (form (k := .classTarget) [.many .annotationUse, .one .word] hc (by decide)
    fun h => .done (.one h.2 .nil)) fun element c hc => ?_
  refine loop_bind (Q := Derives .classTarget) (fun inner c hc => ?_) hc fun target c hc => ?_
  · refine ifSkip hc (fun c hc => ?_) (.pure hc fun _ => nofun)
    refine need_bind hc fun c hc => ?_
    exact some_of hc (form [.one .classTarget] hc (by decide) fun h => .one h .nil)
  · refine need_bind hc fun c hc => need_bind hc fun c hc => ?_
    exact form [.one .classTarget] hc (by decide) fun h => .one (h.2 h.1.2) .nil

theorem parenExpr_yields (hr : rule.Builds) : Yields (Derives .expression) (parenExpr rule) := by
  intro c hc
  refine here_bind fun _ => need_bind hc fun c hc => ?_
  refine bind hc (hr.derives .expression c hc) fun inner c hc => ?_
  refine need_bind hc fun c hc => ?_
  exact form [.one .expression] hc (by decide) fun h => .one h.2 .nil

/-- A token as a leaf whose kind is that of an expression. -/
theorem leafExpression {kind : NodeKind} {k : Category} (hc : c.Ready)
    (hk : (c.tokenAt 0).kind ≠ .eof) (hform : ⟨kind, [], .present⟩ ∈ k.forms) :
    Gives H (Derives k) (Parser.leaf kind) c :=
  leaf hc hk fun _ => .node (f := ⟨kind, [], .present⟩) hform rfl .nil

theorem primary_yields (hr : rule.Builds) : Yields (Derives .expression) (primary rule) := by
  intro c hc
  refine kindAt_bind (.ite (fun hk => ?_) fun _ => .ite (fun hk => ?_) fun _ =>
    .ite (fun hk => ?_) fun _ => .ite (fun _ => newExpr_yields hr c hc) fun _ =>
    .ite (fun _ => parenExpr_yields hr c hc) fun _ => .ite (fun hk => ?_) fun _ =>
    .ite (fun hk => ?_) fun _ => problem _ _ _ hc)
  · exact leafExpression hc (ne_eof_of_mem (List.contains_iff_mem.1 hk) (by decide)) (by decide)
  · exact leafExpression hc (ne_eof_of_eq (beq_iff_eq.1 hk)) (by decide)
  · exact leafExpression hc (ne_eof_of_eq (beq_iff_eq.1 hk)) (by decide)
  · refine primitiveClassLiteral_gives hc ?_
    rcases Bool.or_eq_true_iff.1 hk with hprimitive | hvoid
    · exact TokenKind.isWord_of_isPrimitive hprimitive
    · rw [beq_iff_eq.1 hvoid]
      rfl
  · exact (word hc (TokenKind.isWord_of_isName hk)).weaken id fun _ _ h => h.mono (by decide)

theorem callExpr_gives (hr : rule.Builds) (target : Node) (hc : c.Ready) :
    Gives (Derives .expression target) (Derives .expression) (callExpr rule target) c := by
  refine bind hc (arguments_yield hr c hc) fun given c hc => ?_
  exact form [.one .expression, .one .arguments] hc (by decide) fun h => .one h.1 (.one h.2 .nil)

/-- A field named by a token that is `this` or `super`. -/
theorem selfAccess_gives {kind : NodeKind} {start : Position} (target : Node) (hc : c.Ready)
    (hk : (c.tokenAt 0).kind ≠ .eof) (hform : ⟨kind, [], .present⟩ ∈ Category.selfForms) :
    Gives (Derives .expression target) (Derives .expression)
      (Parser.leaf kind >>= fun word => Parser.finish .fieldAccess start [target, word]) c := by
  refine bind hc (leafExpression (k := .selfReference) hc hk hform) fun word c hc => ?_
  exact form [.one .expression, .one .selfReference] hc (by decide) fun h =>
    .one h.1 (.one h.2 .nil)

theorem memberAccess_gives (hr : rule.Builds) (target : Node) (hc : c.Ready) :
    Gives (Derives .expression target) (Derives .expression) (memberAccess rule target) c := by
  refine kindAt_bind (.ite (fun _ => innerNewExpr_gives hr target hc) fun _ =>
    .ite (fun _ => ?_) fun _ => .ite (fun hk => ?_) fun _ => .ite (fun hk => ?_) fun _ =>
    .ite (fun hk => ?_) fun _ => .ite (fun hk => ?_) fun _ => problem _ _ _ hc)
  · refine bind hc (typeArguments_yields hr c hc) fun typed c hc => ?_
    refine name_bind hc fun label c hc => ?_
    refine bind_given hc (form (k := .expression) [.one .expression, .optional .typeArguments,
      .one .word] hc (by decide) ?_) fun access c hc => ?_
    · rintro ⟨⟨htarget, htyped⟩, n, rfl, hn⟩
      exact .one htarget (.having htyped (.one hn .nil))
    · refine ifCheck (fun _ => ?_) (.pure hc And.right)
      exact (callExpr_gives hr access hc).weaken And.right fun _ _ h => h
  · refine advance_bind (form [.one .classTarget]
      (hc.step (ne_eof_of_eq (beq_iff_eq.1 hk))) (by decide) fun h => ?_)
    exact .one (h.mono (by decide)) .nil
  · exact selfAccess_gives target hc (ne_eof_of_eq (beq_iff_eq.1 hk)) (by decide)
  · exact selfAccess_gives target hc (ne_eof_of_eq (beq_iff_eq.1 hk)) (by decide)
  · refine bind hc (word hc (TokenKind.isWord_of_isName hk)) fun label c hc => ?_
    exact form [.one .expression, .optional .typeArguments, .one .word] hc (by decide) fun h =>
      .one h.1 (.without (.one h.2 .nil))

theorem referenceName_yields :
    Yields (fun l => ∃ n, l = [n] ∧ Derives .word n) referenceName := by
  intro c hc
  refine ifCheck (fun hk => ?_) (name hc)
  refine bind hc (word hc (by rw [hk]; rfl)) fun n c hc => ?_
  exact .pure hc fun h => ⟨n, rfl, h.2⟩

theorem methodRef_gives (hr : rule.Builds) (target : Node) (hc : c.Ready) :
    Gives (Derives .expression target) (Derives .expression) (methodRef rule target) c := by
  refine need_bind hc fun c hc => optionalTypeArguments_bind hr hc fun typed c hc => ?_
  refine bind hc (referenceName_yields c hc) fun label c hc => ?_
  refine form [.one .expression, .optional .typeArguments, .one .word] hc (by decide) ?_
  rintro ⟨⟨htarget, htyped, hlength⟩, n, rfl, hn⟩
  exact .one htarget (.of_optional htyped hlength (.one hn .nil))

theorem arrayClass_gives (target : Node) (hc : c.Ready)
    (h₀ : (c.tokenAt 0).kind = .symbol .dot) (h₁ : (c.tokenAt 1).kind = .keyword .classKw) :
    Gives (Derives .classTarget target) (Derives .expression) (arrayClass target) c := by
  refine two_bind hc (ne_eof_of_eq h₀) (ne_eof_of_eq h₁) fun c hc => ?_
  exact form [.one .classTarget] hc (by decide) fun h => .one h .nil

/-- A class literal after brackets, or nothing. -/
theorem arrayClassLiteral_gives (element : Node) (hc : c.Ready) :
    Gives (Derives .expression element) (fun o => ∀ n ∈ o, Derives .expression n)
      (arrayClassLiteral? element) c := by
  have hrun := arrayClassLiteral_run element c
  by_cases hkinds : (((arrayBrackets element).run c).2.tokenAt 0).kind = .symbol .dot ∧
      (((arrayBrackets element).run c).2.tokenAt 1).kind = .keyword .classKw
  · rw [if_pos hkinds] at hrun
    refine of_run hrun ?_
    have hbrackets := (arrayBrackets_gives (k := .classTarget) (by decide) element hc).given
    refine bind_run hc hbrackets fun target c' htarget hc' => ?_
    rw [htarget] at hkinds
    refine some_of hc' ((arrayClass_gives target hc' hkinds.1 hkinds.2).weaken ?_ fun _ _ h => h)
    exact fun h => h.2 (h.1.mono (by decide))
  · rw [if_neg hkinds] at hrun
    have hnone : (arrayClassLiteral? element).run c =
        (Pure.pure none : Parser (Option Node)).run c := hrun
    exact of_run hnone (.pure hc fun _ => nofun)

theorem bracketsLiteral_gives (element : Node) (hc : c.Ready) :
    Gives (Derives .expression element) (fun o => ∀ n ∈ o, Derives .expression n)
      (bracketsLiteral? element) c :=
  kindAt_bind (.ite (fun _ => arrayClassLiteral_gives element hc) fun _ => .pure hc fun _ => nofun)

theorem arrayAccess_gives (hr : rule.Builds) (target : Node) (hc : c.Ready)
    (hk : (c.tokenAt 0).kind ≠ .eof) :
    Gives (Derives .expression target) (Derives .expression) (arrayAccess rule target) c := by
  have hstep := hc.step hk
  refine advance_bind (bind hstep (hr.derives .expression _ hstep) fun index c hc => ?_)
  refine need_bind hc fun c hc => ?_
  exact form [.one .expression, .one .expression] hc (by decide) fun h => .one h.1 (.one h.2 .nil)

theorem bracketSuffix_gives (hr : rule.Builds) (target : Node) (hc : c.Ready)
    (hk : (c.tokenAt 0).kind ≠ .eof) :
    Gives (Derives .expression target) (Derives .expression) (bracketSuffix rule target) c := by
  refine bind_run hc (bracketsLiteral_gives target hc).given fun o c' hrun hc' => ?_
  cases o with
  | some n => exact .pure hc' fun h => h.2 h.1 n rfl
  | none =>
    have hstay : c' = c := by
      rw [← bracketsLiteral_stays (congrArg Prod.fst hrun), hrun]
    subst hstay
    exact (arrayAccess_gives hr target hc' hk).weaken And.left fun _ _ h => h

/-- An increment or decrement after its operand. -/
theorem postfixOperator_gives (target : Node) (hc : c.Ready) (hk : (c.tokenAt 0).kind ≠ .eof) :
    Gives (Derives .expression target) (fun o => ∀ n ∈ o, Derives .expression n)
      (Parser.leaf .identifier >>= fun op =>
        Parser.finish .postfixExpr target.span.start [target, op] >>= fun n => pure (some n)) c := by
  refine bind hc (mark hc hk) fun op c hc => ?_
  exact some_of hc (form [.one .expression, .one .mark] hc (by decide) fun h =>
    .one h.1 (.one h.2 .nil))

variable (hr : rule.Builds)

include hr

theorem suffix_gives (target : Node) (hc : c.Ready) :
    Gives (Derives .expression target) (fun o => ∀ n ∈ o, Derives .expression n)
    (suffix? rule target) c := by
  refine kindAt_bind ?_
  generalize hk : (c.tokenAt 0).kind = kind
  split
  · exact postfixOperator_gives target hc (ne_eof_of_eq hk)
  · exact postfixOperator_gives target hc (ne_eof_of_eq hk)
  · have hstep := hc.step (ne_eof_of_eq hk)
    exact advance_bind (some_of hstep (memberAccess_gives hr target hstep))
  · exact some_of hc (bracketSuffix_gives hr target hc (ne_eof_of_eq hk))
  · exact some_of hc (callExpr_gives hr target hc)
  · exact some_of hc (methodRef_gives hr target hc)
  · exact .pure hc fun _ => nofun

theorem postfixed_yields : Yields (Derives .expression) (postfixed rule) := by
  intro c hc
  refine bind hc (primary_yields hr c hc) fun target c hc => ?_
  exact (loop (fun a c hc => suffix_gives hr a hc) hc).weaken And.right fun _ _ h => h

theorem typeGroup_yields {separator : TokenKind} [separator.Inner] :
    Yields (Derives .typeGroup) (typeGroup rule separator) := by
  intro c hc
  refine here_bind fun _ => bind hc (type_yields hr c hc) fun first c hc => ?_
  refine bind hc (many (k := .type) .skip (fun _ c _ hc => type_yields hr c hc) hc)
    fun more c hc => ?_
  exact form [.one .type, .many .type] hc (by decide) fun h => .one h.1.2 (.of_all_last h.2)

theorem castExpr_yields : Yields (Derives .expression) (castExpr rule) := by
  intro c hc
  refine here_bind fun _ => need_bind hc fun c hc => ?_
  refine bind hc (typeGroup_yields hr c hc) fun target c hc => ?_
  refine need_bind hc fun c hc => ?_
  refine bind hc (lambdaOr_yields hr (hr.derives .unary) c hc) fun operand c hc => ?_
  exact form [.one .typeGroup, .one .expression] hc (by decide) fun h => .one h.1.2 (.one h.2 .nil)

theorem unary_yields : Yields (Derives .expression) (unary rule) := by
  intro c hc
  refine here_bind fun _ => ifCheckAny (fun hmem => ?_) ?_
  · refine bind hc (mark hc (ne_eof_of_mem hmem (by decide))) fun operator c hc => ?_
    refine bind hc (hr.derives .unary c hc) fun operand c hc => ?_
    exact form [.one .mark, .one .expression] hc (by decide) fun h => .one h.1.2 (.one h.2 .nil)
  · exact startsCast_bind hc fun _ c hc =>
      .ite (fun _ => castExpr_yields hr c hc) fun _ => postfixed_yields hr c hc

theorem binaryStep_gives {operators : List TokenKind} (hoperators : TokenKind.eof ∉ operators)
    {operand : Parser Node} (hoperand : Yields (Derives .expression) operand) (left : Node)
    (hc : c.Ready) :
    Gives (Derives .expression left) (fun o => ∀ n ∈ o, Derives .expression n)
    (binaryStep? rule operators operand left) c := by
  refine ifCheckAny (fun hmem => ?_) (.pure hc fun _ => nofun)
  refine ifSkip hc (fun c hc => ?_) ?_
  · refine bind hc (type_yields hr c hc) fun target c hc => ?_
    refine optional_bind (k := .word) (.check _) (fun c₀ c hrun hc => ?_) hc fun binding c hc => ?_
    · exact word hc (by rw [Parser.kind_of_check hrun]; rfl)
    refine some_of hc (form [.one .expression, .one .type, .optional .word] hc (by decide) ?_)
    rintro ⟨⟨hleft, htarget⟩, hbinding, hlength⟩
    exact .one hleft (.one htarget (.of_optional_last hbinding hlength))
  · refine bind hc (mark hc (ne_eof_of_mem hmem hoperators)) fun operator c hc => ?_
    refine bind hc (hoperand c hc) fun right c hc => ?_
    exact some_of hc (form [.one .expression, .one .mark, .one .expression] hc (by decide) fun h =>
      .one h.1.1 (.one h.1.2 (.one h.2 .nil)))

theorem binary_yields {levels : List (List TokenKind)}
    (hlevels : ∀ operators ∈ levels, TokenKind.eof ∉ operators) :
    Yields (Derives .expression) (binary rule levels) := by
  induction levels with
  | nil => exact unary_yields hr
  | cons operators tighter ih =>
    rw [List.forall_mem_cons] at hlevels
    intro c hc
    refine bind hc (ih hlevels.2 c hc) fun left c hc => ?_
    exact (loop (fun a c hc => binaryStep_gives hr hlevels.1 (ih hlevels.2) a hc) hc).weaken
      And.right fun _ _ h => h

theorem ternary_yields : Yields (Derives .expression) (ternary rule) := by
  intro c hc
  refine bind hc (binary_yields hr (by decide) c hc) fun condition c hc => ?_
  refine ifSkip hc (fun c hc => ?_) (.pure hc And.right)
  refine bind hc (hr.derives .expression c hc) fun yes c hc => ?_
  refine need_bind hc fun c hc => ?_
  refine bind hc (lambdaOr_yields hr (hr.derives .ternary) c hc) fun no c hc => ?_
  exact form [.one .expression, .one .expression, .one .expression] hc (by decide) fun h =>
    .one h.1.1.2 (.one h.1.2 (.one h.2 .nil))

theorem expression_yields : Yields (Derives .expression) (expression rule) := by
  refine lambdaOr_yields hr fun c hc => bind hc (ternary_yields hr c hc) fun left c hc => ?_
  refine ifCheckAny (fun hmem => ?_) (.pure hc And.right)
  refine bind hc (mark hc (ne_eof_of_mem hmem (by decide))) fun operator c hc => ?_
  refine bind hc (hr.derives .expression c hc) fun right c hc => ?_
  exact form [.one .expression, .one .mark, .one .expression] hc (by decide) fun h =>
    .one h.1.1.2 (.one h.1.2 (.one h.2 .nil))

theorem initializer_yields : Yields (Derives .initializer) (initializer rule) := fun c hc =>
  ifCheck (fun _ => (arrayInitializer_yields hr c hc).weaken id fun _ _ h => h.mono (by decide))
    ((expression_yields hr c hc).weaken id fun _ _ h => h.mono (by decide))

theorem annotationValue_yields : Yields (Derives .annotationValue) (annotationValue rule) := by
  intro c hc
  refine ifCheck (fun _ => ?_) (ifCheck (fun hk => ?_) ?_)
  · exact (annotationUse_yields hr c hc).weaken id fun _ _ h => h.mono (by decide)
  · have hstep := hc.step (ne_eof_of_eq hk)
    refine here_bind fun _ => advance_bind ?_
    refine bind hstep (Yields.commaListBefore (hr.derives .annotationValue) _ hstep)
      fun items c hc => ?_
    refine need_bind hc fun c hc => ?_
    exact form [.many .annotationValue] hc (by decide) fun h => .of_all_last h.2
  · exact (ternary_yields hr c hc).weaken id fun _ _ h => h.mono (by decide)

end Grammar

end JavaObjC
