import JavaObjC.Proofs.Trees.Statements

/-!
# Trees of members and units

What the productions for members and compilation units build, and the main
statement: the tree of a source without problems is derived from the grammar
of trees.
-/

namespace JavaObjC

open Cursor

namespace Grammar

open Gives

variable {rule : Rules} {H : Prop} {c : Cursor}

section Members

theorem calledConstructor_yields :
    Yields (fun l => DerivesAll .selfReference l ∧ l.length ≤ 1) calledConstructor := by
  intro c hc
  refine kindAt_bind ?_
  generalize hk : (c.tokenAt 0).kind = kind
  split
  · refine bind hc (leafExpression (k := .selfReference) hc (ne_eof_of_eq hk)
      (by decide)) fun n c hc => .pure hc fun h => ?_
    exact ⟨DerivesAll.cons_iff.2 ⟨h.2, .nil⟩, Nat.le_refl _⟩
  · refine bind hc (leafExpression (k := .selfReference) hc (ne_eof_of_eq hk)
      (by decide)) fun n c hc => .pure hc fun h => ?_
    exact ⟨DerivesAll.cons_iff.2 ⟨h.2, .nil⟩, Nat.le_refl _⟩
  · exact .pure hc fun _ => ⟨.nil, Nat.zero_le _⟩

theorem constructorCall_yields (hr : rule.Builds) :
    Yields (Derives .constructorCall) (constructorCall rule) := by
  intro c hc
  refine here_bind fun _ => optionalTypeArguments_bind hr hc fun typed c hc => ?_
  refine bind hc (calledConstructor_yields c hc) fun target c hc => ?_
  refine bind hc (arguments_yield hr c hc) fun given c hc => ?_
  refine need_bind hc fun c hc => ?_
  refine form [.optional .typeArguments, .optional .selfReference, .one .arguments] hc (by decide)
    ?_
  rintro ⟨⟨⟨-, htyped, hlength⟩, htarget, hlength'⟩, hgiven⟩
  rw [List.append_assoc]
  exact .of_optional htyped hlength (.of_optional htarget hlength' (.one hgiven .nil))

theorem constructorBody_yields (hr : rule.Builds) :
    Yields (Derives .constructorBody) (constructorBody rule) := by
  intro c hc
  refine here_bind fun _ => need_bind hc fun c hc => ?_
  refine optional_bind (k := .constructorCall)
    (fun c hc => of_parallel (startsConstructorCall_tracks.run hc.sound))
    (fun _ c _ hc => constructorCall_yields hr c hc) hc fun call c hc => ?_
  refine bind hc (Yields.manyBefore (hr.derives .statement) c hc) fun statements c hc => ?_
  refine need_bind hc fun c hc => ?_
  refine form [.optional .constructorCall, .many .statement] hc (by decide) ?_
  rintro ⟨⟨-, hcall, hlength⟩, hstatements⟩
  exact .of_optional hcall hlength (.of_all_last hstatements)

theorem throwsList_yields (hr : rule.Builds) : Yields (Derives .throwsList) (throwsList rule) := by
  intro c hc
  refine here_bind fun _ => need_bind hc fun c hc => ?_
  refine bind hc (typeList_yields hr c hc) fun types c hc => ?_
  refine form [.one .type, .many .type] hc (by decide) ?_
  rintro ⟨-, first, more, rfl, hfirst, hmore⟩
  exact .one hfirst (.of_all_last hmore)

/-- The declared exceptions if there are any. -/
theorem optionalThrows_bind {β : Type} {S : β → Prop} {f : List Node → Parser β}
    (hr : rule.Builds) (hc : c.Ready) (h : ∀ l c', Cursor.Ready c' →
      Gives (H ∧ DerivesAll .throwsList l ∧ l.length ≤ 1) S (f l) c') :
    Gives H S (Parser.optional (Parser.check Keyword.throwsKw) (throwsList rule) >>= f) c :=
  optional_bind (.check _) (fun _ c _ hc => throwsList_yields hr c hc) hc h

/-- The modifiers and type parameters a member starts with. -/
def Headed (marks : Node) (generics : List Node) : Prop :=
  Derives .modifiers marks ∧ DerivesAll .typeParameters generics ∧ generics.length ≤ 1

variable (marks : Node) (generics : List Node)

theorem constructorDecl_gives (hr : rule.Builds) (hc : c.Ready) :
    Gives (Headed marks generics) (Derives .member) (constructorDecl rule marks generics) c := by
  refine here_bind fun _ => name_bind hc fun label c hc => ?_
  refine bind hc (parameters_yield hr c hc) fun declared c hc => ?_
  refine optionalThrows_bind hr hc fun thrown c hc => ?_
  refine bind hc (constructorBody_yields hr c hc) fun body c hc => ?_
  refine form [.one .modifiers, .optional .typeParameters, .one .word, .one .parameters,
    .optional .throwsList, .one .constructorBody] hc (by decide) ?_
  rintro ⟨⟨⟨⟨⟨hmarks, hgenerics, hlength⟩, n, rfl, hn⟩, hdeclared⟩, hthrown, hlength'⟩, hbody⟩
  simp only [List.cons_append, List.nil_append, List.append_assoc]
  exact .one hmarks (.of_optional hgenerics hlength (.one hn (.one hdeclared
    (.of_optional hthrown hlength' (.one hbody .nil)))))

theorem methodEnd_yields (hr : rule.Builds) :
    Yields (fun l => DerivesAll .methodEnd l ∧ l.length ≤ 1) (methodEnd rule) := by
  have hone : ∀ {k : Category} {n : Node}, k.forms ⊆ Category.methodEnd.forms → Derives k n →
      DerivesAll .methodEnd [n] ∧ [n].length ≤ 1 := fun hforms hn =>
    ⟨DerivesAll.cons_iff.2 ⟨hn.mono hforms, .nil⟩, Nat.le_refl _⟩
  intro c hc
  refine ifCheck (fun _ => ?_) (ifSkip hc (fun c hc => ?_) ?_)
  · refine bind hc (block_yields hr c hc) fun n c hc => ?_
    exact .pure hc fun h => hone (by decide) h.2
  · refine bind hc (annotationValue_yields hr c hc) fun n c hc => ?_
    exact need_bind hc fun c hc => .pure hc fun h => hone (by decide) h.2
  · exact need_bind hc fun c hc => .pure hc fun _ => ⟨.nil, Nat.zero_le _⟩

theorem methodDecl_gives (hr : rule.Builds) (result : Node) (hc : c.Ready) :
    Gives (Headed marks generics ∧ Derives .type result) (Derives .member)
      (methodDecl rule marks generics result) c := by
  refine here_bind fun _ => name_bind hc fun label c hc => ?_
  refine bind hc (parameters_yield hr c hc) fun declared c hc => ?_
  refine bind hc (of_parallel (skipResultBrackets_track.run hc.sound)) fun _ c hc => ?_
  refine optionalThrows_bind hr hc fun thrown c hc => ?_
  refine bind hc (methodEnd_yields hr c hc) fun body c hc => ?_
  refine form [.one .modifiers, .optional .typeParameters, .one .type, .one .word,
    .one .parameters, .optional .throwsList, .optional .methodEnd] hc (by decide) ?_
  rintro ⟨⟨⟨⟨⟨⟨⟨hmarks, hgenerics, hlength⟩, hresult⟩, n, rfl, hn⟩, hdeclared⟩, -⟩, hthrown,
    hlength'⟩, hbody, hlength''⟩
  simp only [List.cons_append, List.nil_append, List.append_assoc]
  exact .one hmarks (.of_optional hgenerics hlength (.one hresult (.one hn (.one hdeclared
    (.of_optional hthrown hlength' (.of_optional_last hbody hlength''))))))

theorem fieldDecl_gives (hr : rule.Builds) (declared : Node) (hc : c.Ready) :
    Gives (Derives .modifiers marks ∧ Derives .type declared) (Derives .member)
      (fieldDecl rule marks declared) c := by
  refine here_bind fun _ => bind hc (declarators_yield hr c hc) fun d c hc => ?_
  refine need_bind hc fun c hc => ?_
  refine form [.one .modifiers, .one .type, .many .declarator] hc (by decide) ?_
  rintro ⟨⟨hmarks, hdeclared⟩, hnodes⟩
  exact .one hmarks (.one (inArrays_derives hdeclared _) (.of_all_last hnodes))

/-- An error node in place of a type is one in place of anything. -/
theorem derives_of_error {k : Category} {t : Node} (h : Derives .type t) (hkind : t.kind = .error) :
    Derives k t := by
  by_cases hclean : t.Clean
  · obtain ⟨f, hf, hfkind, -, -⟩ := h.form hclean
    have hkinds : ∀ f ∈ Category.type.forms, f.kind ≠ .error := by decide
    exact absurd (hfkind.symm.trans hkind) (hkinds f hf)
  · exact .faulty hclean

theorem typedMember_gives (hr : rule.Builds) (hc : c.Ready) :
    Gives (Headed marks generics) (Derives .member) (typedMember rule marks generics) c := by
  refine checkName_bind (kindAt_bind (.ite (fun _ => constructorDecl_gives marks generics hr hc)
    fun _ => ?_))
  refine bind hc (type_yields hr c hc) fun declared c hc => ?_
  split
  · rename_i hkind
    exact .pure hc fun h => derives_of_error h.2 hkind
  · refine checkName_bind (kindAt_bind (.ite (fun _ => methodDecl_gives marks generics hr declared hc)
      fun _ => checkName_bind (.ite (fun _ => ?_) fun _ => problem _ _ _ hc)))
    exact (fieldDecl_gives marks hr declared hc).weaken (fun h => ⟨h.1.1, h.2⟩) fun _ _ h => h

end Members

theorem staticInitializer_gives (hr : rule.Builds) (hc : c.Ready)
    (hk : (c.tokenAt 0).kind ≠ .eof) :
    Gives H (Derives .member) (staticInitializer rule) c := by
  refine here_bind fun _ => bind hc (mark hc hk) fun label c hc => ?_
  refine bind hc (block_yields hr c hc) fun body c hc => ?_
  exact form [.one .mark, .one .block] hc (by decide) fun h => .one h.1.2 (.one h.2 .nil)

theorem member_yields (hr : rule.Builds) : Yields (Derives .member) (member rule) := by
  intro c hc
  refine ifCheck (fun _ => (block_yields hr c hc).weaken id fun _ _ h => h.mono (by decide))
    (ifCheck2 (fun hk _ => staticInitializer_gives hr hc (ne_eof_of_eq hk))
    (ifCheck (fun hk => emptyStmt_gives hc (ne_eof_of_eq hk) (by decide)) ?_))
  refine bind hc (modifiers_yields hr c hc) fun marks c hc => ?_
  refine bind_given hc ((typeDecl_gives marks hr hc).weaken And.right fun _ _ h => h)
    fun decl c hc => ?_
  cases decl with
  | some n => exact .pure hc fun h => (h.2 n rfl).mono (by decide)
  | none =>
    refine optionalTypeParameters_bind hr hc fun generics c hc => ?_
    exact (typedMember_gives marks generics hr hc).weaken (fun h => ⟨h.1.1.2, h.2⟩) fun _ _ h => h

theorem packageDecl_yields : Yields (Derives .packageDecl) packageDecl := by
  intro c hc
  refine here_bind fun _ => need_bind hc fun c hc => ?_
  refine bind hc (qualifiedName_yields c hc) fun target c hc => ?_
  refine need_bind hc fun c hc => ?_
  exact form [.one .qualifiedName] hc (by decide) fun h => .one h.2 .nil

theorem importStar_yields :
    Yields (fun l => DerivesAll .mark l ∧ l.length ≤ 1) importStar := by
  intro c hc
  refine ifSkip hc (fun c hc => ?_) (.pure hc fun _ => ⟨.nil, Nat.zero_le _⟩)
  refine bind hc (expect hc) fun star c hc => ?_
  cases star with
  | none => exact .pure hc fun _ => ⟨.nil, Nat.zero_le _⟩
  | some t =>
    refine .pure hc fun _ => ⟨DerivesAll.cons_iff.2 ⟨?_, .nil⟩, Nat.le_refl _⟩
    exact .node (f := { kind := .identifier, token := .present }) (by decide) rfl .nil

theorem importDecl_yields : Yields (Derives .importDecl) importDecl := by
  intro c hc
  refine here_bind fun _ => need_bind hc fun c hc => ?_
  refine optional_bind (k := .mark) (.check _) (fun c₀ c hrun hc => ?_) hc fun static c hc => ?_
  · exact mark hc (ne_eof_of_eq (Parser.kind_of_check hrun))
  refine bind hc (qualifiedName_yields c hc) fun target c hc => ?_
  refine bind hc (importStar_yields c hc) fun star c hc => ?_
  refine need_bind hc fun c hc => ?_
  refine form [.optional .mark, .one .qualifiedName, .optional .mark] hc (by decide) ?_
  rintro ⟨⟨⟨-, hstatic, hlength⟩, htarget⟩, hstar, hlength'⟩
  exact .of_optional hstatic hlength (.one htarget (.of_optional_last hstar hlength'))

theorem topLevelDecl_yields (hr : rule.Builds) :
    Yields (Derives .typeDecl) (topLevelDecl rule) := by
  intro c hc
  refine bind hc (modifiers_yields hr c hc) fun marks c hc => ?_
  refine bind_given hc ((typeDecl_gives marks hr hc).weaken And.right fun _ _ h => h)
    fun decl c hc => ?_
  cases decl with
  | some n => exact .pure hc fun h => h.2 n rfl
  | none => exact .ite (fun _ => problem _ _ _ hc) fun _ => problem _ _ _ hc

theorem compilationUnit_yields (hr : rule.Builds) :
    Yields (Derives .unit) (compilationUnit rule) := by
  intro c hc
  refine here_bind fun _ => optional_bind (k := .packageDecl) (.check _)
    (fun _ c _ hc => packageDecl_yields c hc) hc fun package c hc => ?_
  refine bind hc (many (k := .importDecl) (.check _) (fun _ c _ hc => importDecl_yields c hc) hc)
    fun imports c hc => ?_
  refine loop_bind (Q := DerivesAll .typeDecl) (fun types c hc => ?_) hc fun types c hc => ?_
  · refine ifCheck (fun _ => .pure hc fun _ => nofun) (ifSkip hc (fun c hc => ?_) ?_)
    · refine .pure hc fun h => ?_
      rintro _ ⟨⟩
      exact h
    · refine bind hc (topLevelDecl_yields hr c hc) fun n c hc => .pure hc fun h => ?_
      rintro _ ⟨⟩
      exact DerivesAll.append_iff.2 ⟨h.1, DerivesAll.cons_iff.2 ⟨h.2, .nil⟩⟩
  · refine form [.optional .packageDecl, .many .importDecl, .many .typeDecl] hc (by decide) ?_
    rintro ⟨⟨⟨-, hpackage, hlength⟩, himports⟩, htypes⟩
    rw [List.append_assoc]
    exact .of_optional hpackage hlength (.of_all himports (.of_all_last (htypes .nil)))

/-- Every phrase builds trees of its category, however deep phrases are nested. -/
theorem parse_builds (fuel : Nat) : (parse fuel).Builds := by
  induction fuel with
  | zero => exact ⟨parse_tracked _ 0, fun _ _ hc => problem _ _ _ hc⟩
  | succ fuel ih =>
    refine ⟨parse_tracked _ (fuel + 1), fun phrase => ?_⟩
    cases phrase with
    | expression => exact expression_yields ih
    | ternary => exact ternary_yields ih
    | unary => exact unary_yields ih
    | initializer => exact initializer_yields ih
    | type => exact type_yields ih
    | annotationValue => exact annotationValue_yields ih
    | statement => exact statement_yields ih
    | member => exact member_yields ih

end Grammar

/-- The tree of a source without problems is that of a unit. -/
theorem derives_of_accepted {source : Text}
    (h : (Parsed.ofSource .compilationUnit source).problems = []) :
    Derives .unit (Entry.compilationUnit.read source).1 ∧
      (Entry.compilationUnit.read source).1.Clean := by
  obtain ⟨hclean, hmissing⟩ := (Parsed.problems_eq_nil_iff _ _).1 h
  refine ⟨?_, hclean⟩
  have hgives := Grammar.compilationUnit_yields
    (Grammar.parse_builds (ofTokens (Lexeme.tokens source)).rest.length) _
    (ready_ofTokens source)
  exact hgives.result hmissing trivial

end JavaObjC
