import JavaObjC.Proofs.Trees.Expressions

/-!
# Trees of declarations and statements

What the productions for type declarations and for statements build.
-/

namespace JavaObjC

open Cursor

namespace Grammar

open Gives

variable {rule : Rules} {H : Prop} {c : Cursor}

section Declarations

theorem typeBounds_yield (hr : rule.Builds) : Yields (DerivesAll .type) (typeBounds rule) := by
  intro c hc
  refine ifSkip hc (fun c hc => ?_) (.pure hc fun _ => .nil)
  refine bind hc (type_yields hr c hc) fun first c hc => ?_
  refine bind hc (many (k := .type) .skip (fun _ c _ hc => type_yields hr c hc) hc)
    fun more c hc => ?_
  exact .pure hc fun h => DerivesAll.cons_iff.2 ⟨h.1.2, h.2⟩

theorem typeParameter_yields (hr : rule.Builds) :
    Yields (Derives .typeParameter) (typeParameter rule) := by
  intro c hc
  refine here_bind fun _ => bind hc (annotations_yield hr c hc) fun marks c hc => ?_
  refine name_bind hc fun label c hc => bind hc (typeBounds_yield hr c hc) fun bounds c hc => ?_
  refine form [.many .annotationUse, .one .word, .many .type] hc (by decide) ?_
  rintro ⟨⟨⟨-, hmarks⟩, n, rfl, hn⟩, hbounds⟩
  rw [List.append_assoc]
  exact .of_all hmarks (.one hn (.of_all_last hbounds))

theorem typeParameters_yield (hr : rule.Builds) :
    Yields (Derives .typeParameters) (typeParameters rule) := by
  intro c hc
  refine here_bind fun _ => need_bind hc fun c hc => ?_
  refine bind hc (Yields.commaList (typeParameter_yields hr) c hc) fun items c hc => ?_
  refine closeAngle_bind hc fun c hc =>
    form [.one .typeParameter, .many .typeParameter] hc (by decide) ?_
  rintro ⟨-, first, more, rfl, hfirst, hmore⟩
  exact .one hfirst (.of_all_last hmore)

/-- Type parameters if there are any. -/
theorem optionalTypeParameters_bind {β : Type} {S : β → Prop} {f : List Node → Parser β}
    (hr : rule.Builds) (hc : c.Ready) (h : ∀ l c', Cursor.Ready c' →
      Gives (H ∧ DerivesAll .typeParameters l ∧ l.length ≤ 1) S (f l) c') :
    Gives H S (Parser.optional (Parser.check Symbol.lt) (typeParameters rule) >>= f) c :=
  optional_bind (.check _) (fun _ c _ hc => typeParameters_yield hr c hc) hc h

theorem implementsList_gives (hr : rule.Builds) (hc : c.Ready) (hk : (c.tokenAt 0).kind ≠ .eof) :
    Gives H (Derives .implementsList) (implementsList rule) c := by
  have hstep := hc.step hk
  refine here_bind fun _ =>
    advance_bind (bind hstep (typeList_yields hr _ hstep) fun types c hc => ?_)
  refine form [.one .type, .many .type] hc (by decide) ?_
  rintro ⟨-, first, more, rfl, hfirst, hmore⟩
  exact .one hfirst (.of_all_last hmore)

variable (marks : Node)

variable (hr : rule.Builds)

include hr

theorem classDecl_gives (hc : c.Ready) :
    Gives (Derives .modifiers marks) (Derives .typeDecl) (classDecl rule marks) c := by
  refine here_bind fun _ => need_bind hc fun c hc => name_bind hc fun label c hc => ?_
  refine optionalTypeParameters_bind hr hc fun generics c hc => ?_
  refine optional_bind (k := .type) .skip (fun _ c _ hc => type_yields hr c hc) hc
    fun base c hc => ?_
  refine optional_bind (k := .implementsList) (.check _) (fun c₀ c hrun hc => ?_) hc
    fun adopted c hc => ?_
  · exact implementsList_gives hr hc (ne_eof_of_eq (Parser.kind_of_check hrun))
  refine bind hc (classBody_yields hr c hc) fun body c hc => ?_
  refine form [.one .modifiers, .one .word, .optional .typeParameters, .optional .type,
    .optional .implementsList, .one .classBody] hc (by decide) ?_
  rintro ⟨⟨⟨⟨⟨hmarks, n, rfl, hn⟩, hgenerics, hlength⟩, hbase, hlength'⟩, hadopted, hlength''⟩,
    hbody⟩
  simp only [List.cons_append, List.nil_append, List.append_assoc]
  exact .one hmarks (.one hn (.of_optional hgenerics hlength (.of_optional hbase hlength'
    (.of_optional hadopted hlength'' (.one hbody .nil)))))

theorem interfaceDecl_gives (hc : c.Ready) :
    Gives (Derives .modifiers marks) (Derives .typeDecl) (interfaceDecl rule marks) c := by
  refine here_bind fun _ => need_bind hc fun c hc => name_bind hc fun label c hc => ?_
  refine optionalTypeParameters_bind hr hc fun generics c hc => ?_
  refine bind hc (typesAfter_yields hr .extendsKw c hc) fun extended c hc => ?_
  refine bind hc (classBody_yields hr c hc) fun body c hc => ?_
  refine form [.one .modifiers, .one .word, .optional .typeParameters, .many .type,
    .one .classBody] hc (by decide) ?_
  rintro ⟨⟨⟨⟨hmarks, n, rfl, hn⟩, hgenerics, hlength⟩, hextended⟩, hbody⟩
  simp only [List.cons_append, List.nil_append, List.append_assoc]
  exact .one hmarks (.one hn (.of_optional hgenerics hlength (.of_all hextended (.one hbody .nil))))

theorem enumConstant_yields : Yields (Derives .enumConstant) (enumConstant rule) := by
  intro c hc
  refine here_bind fun _ => bind hc (annotations_yield hr c hc) fun marks c hc => ?_
  refine name_bind hc fun label c hc => ?_
  refine optional_bind (k := .arguments) (.check _) (fun _ c _ hc => arguments_yield hr c hc) hc
    fun given c hc => ?_
  refine optionalBody_bind hr hc fun body c hc => ?_
  refine form [.many .annotationUse, .one .word, .optional .arguments, .optional .classBody] hc
    (by decide) ?_
  rintro ⟨⟨⟨⟨-, hmarks⟩, n, rfl, hn⟩, hgiven, hlength⟩, hbody, hlength'⟩
  simp only [List.cons_append, List.nil_append, List.append_assoc]
  refine .of_all hmarks (.one hn (.of_optional hgiven hlength ?_))
  exact .of_optional_last hbody hlength'

theorem enumConstants_yield : Yields (DerivesAll .enumConstant) (enumConstants rule) := by
  intro c hc
  refine loop_bind (Q := fun s : List Node × Bool => DerivesAll .enumConstant s.1)
    (fun s c hc => ?_) hc fun s c hc => .pure hc fun h => h.2 .nil
  refine checkName_bind (glance rfl (.ite (fun _ => ?_) fun _ => .pure hc fun _ => nofun))
  refine bind hc (enumConstant_yields hr c hc) fun constant c hc => ?_
  refine bind hc (Yields.skip c hc) fun comma c hc => .pure hc ?_
  rintro ⟨⟨hconstants, hconstant⟩, -⟩ _ ⟨⟩
  exact DerivesAll.append_iff.2 ⟨hconstants, DerivesAll.cons_iff.2 ⟨hconstant, .nil⟩⟩

theorem enumMembers_yield : Yields (DerivesAll .member) (enumMembers rule) := fun _ hc =>
  ifSkip hc (fun c hc => Yields.manyBefore (hr.derives .member) c hc)
    (.pure hc fun _ => .nil)

theorem enumBody_yields : Yields (Derives .enumBody) (enumBody rule) := by
  intro c hc
  refine here_bind fun _ => need_bind hc fun c hc => ?_
  refine bind hc (enumConstants_yield hr c hc) fun constants c hc => ?_
  refine bind hc (enumMembers_yield hr c hc) fun members c hc => ?_
  refine need_bind hc fun c hc => ?_
  exact form [.many .enumConstant, .many .member] hc (by decide) fun h =>
    .of_all h.1.2 (.of_all_last h.2)

theorem enumDecl_gives (hc : c.Ready) :
    Gives (Derives .modifiers marks) (Derives .typeDecl) (enumDecl rule marks) c := by
  refine here_bind fun _ => need_bind hc fun c hc => name_bind hc fun label c hc => ?_
  refine bind hc (typesAfter_yields hr .implementsKw c hc) fun adopted c hc => ?_
  refine bind hc (enumBody_yields hr c hc) fun body c hc => ?_
  refine form [.one .modifiers, .one .word, .many .type, .one .enumBody] hc (by decide) ?_
  rintro ⟨⟨⟨hmarks, n, rfl, hn⟩, hadopted⟩, hbody⟩
  simp only [List.cons_append, List.nil_append]
  exact .one hmarks (.one hn (.of_all hadopted (.one hbody .nil)))

theorem annotationDecl_gives (hc : c.Ready) :
    Gives (Derives .modifiers marks) (Derives .typeDecl) (annotationDecl rule marks) c := by
  refine here_bind fun _ => need_bind hc fun c hc => ?_
  refine need_bind hc fun c hc => name_bind hc fun label c hc => ?_
  refine bind hc (classBody_yields hr c hc) fun body c hc => ?_
  refine form [.one .modifiers, .one .word, .one .classBody] hc (by decide) ?_
  rintro ⟨⟨hmarks, n, rfl, hn⟩, hbody⟩
  exact .one hmarks (.one hn (.one hbody .nil))

theorem typeDecl_gives (hc : c.Ready) :
    Gives (Derives .modifiers marks) (fun o => ∀ n ∈ o, Derives .typeDecl n) (typeDecl? rule marks)
    c := by
  refine kindAt_bind (kindAt_bind ?_)
  split
  · exact some_of hc (classDecl_gives marks hr hc)
  · exact some_of hc (interfaceDecl_gives marks hr hc)
  · exact some_of hc (enumDecl_gives marks hr hc)
  · refine .ite (fun _ => ?_) fun _ => .pure hc fun _ => nofun
    exact some_of hc (annotationDecl_gives marks hr hc)
  · exact .pure hc fun _ => nofun

end Declarations

section Statements

theorem declarator_yields (hr : rule.Builds) :
    Yields (fun d => Derives .declarator d.1) (declarator rule) := by
  intro c hc
  refine here_bind fun _ => name_bind hc fun label c hc => bracketPairs_bind hc fun depth c hc => ?_
  refine optional_bind (k := .initializer) .skip
    (fun _ c _ hc => initializer_yields hr c hc) hc fun value c hc => ?_
  refine bind_given hc (form (k := .declarator) [.one .word, .optional .initializer] hc (by decide)
    ?_) fun n c hc => .pure hc And.right
  rintro ⟨⟨-, n, rfl, hn⟩, hvalue, hlength⟩
  exact .one hn (.of_optional_last hvalue hlength)

theorem declarators_yield (hr : rule.Builds) :
    Yields (fun d => DerivesAll .declarator d.1) (declarators rule) := by
  intro c hc
  refine bind hc (declarator_yields hr c hc) fun first c hc => ?_
  refine (loop (Q := fun d : List Node × Nat => DerivesAll .declarator d.1) (fun d c hc => ?_)
    hc).weaken (fun h => DerivesAll.cons_iff.2 ⟨h.2, .nil⟩) fun _ _ h => h
  refine ifSkip hc (fun c hc => ?_) (.pure hc fun _ => nofun)
  refine bind hc (declarator_yields hr c hc) fun next c hc => .pure hc ?_
  rintro ⟨hnodes, hnext⟩ _ ⟨⟩
  exact DerivesAll.append_iff.2 ⟨hnodes, DerivesAll.cons_iff.2 ⟨hnext, .nil⟩⟩

theorem localType_yields (hr : rule.Builds) : Yields (Derives .type) (localType rule) := by
  intro c hc
  refine ifCheck (fun hk => ?_) (type_yields hr c hc)
  refine leaf hc (ne_eof_of_eq hk) fun _ => ?_
  exact .node (f := ⟨.type, [], .word⟩) (by decide) ⟨_, rfl, hc.word (by rw [hk]; rfl)⟩ .nil

theorem localVarDecl_yields (hr : rule.Builds) :
    Yields (Derives .localVariable) (localVarDecl rule) := by
  intro c hc
  refine here_bind fun _ => bind hc (modifiers_yields hr c hc) fun marks c hc => ?_
  refine bind hc (localType_yields hr c hc) fun declared c hc => ?_
  refine bind hc (declarators_yield hr c hc) fun d c hc => ?_
  refine form [.one .modifiers, .one .type, .many .declarator] hc (by decide) ?_
  rintro ⟨⟨⟨-, hmarks⟩, hdeclared⟩, hnodes⟩
  exact .one hmarks (.one (inArrays_derives hdeclared _) (.of_all_last hnodes))

theorem simpleStmt_yields (hr : rule.Builds) : Yields (Derives .statement) (simpleStmt rule) := by
  intro c hc
  refine startsLocalDeclaration_bind hr hc fun _ c hc => .ite (fun _ => ?_) fun _ => ?_
  · refine bind hc (localVarDecl_yields hr c hc) fun declaration c hc => ?_
    refine need_bind hc fun c hc => extend hc fun span h => ?_
    exact (h.2.mono (by decide)).with_span span
  · refine here_bind fun _ => bind hc (expression_yields hr c hc) fun value c hc => ?_
    refine need_bind hc fun c hc => ?_
    exact form [.one .expression] hc (by decide) fun h => .one h.2 .nil

theorem localTypeDecl_gives (hr : rule.Builds) (marks : Node) (hc : c.Ready) :
    Gives (Derives .modifiers marks) (Derives .typeDecl) (localTypeDecl rule marks) c := by
  refine kindAt_bind ?_
  split
  · exact classDecl_gives marks hr hc
  · exact interfaceDecl_gives marks hr hc
  · exact enumDecl_gives marks hr hc
  · exact problem _ _ _ hc

theorem localClassDecl_yields (hr : rule.Builds) :
    Yields (Derives .statement) (localClassDecl rule) := by
  intro c hc
  refine here_bind fun _ => bind hc (modifiers_yields hr c hc) fun marks c hc => ?_
  refine bind_given hc ((localTypeDecl_gives hr marks hc).weaken And.right fun _ _ h => h)
    fun declaration c hc => ?_
  exact form [.one .typeDecl] hc (by decide) fun h => .one h.2 .nil

theorem condition_yields (hr : rule.Builds) : Yields (Derives .expression) (condition rule) := by
  intro c hc
  refine need_bind hc fun c hc => ?_
  refine bind hc (expression_yields hr c hc) fun value c hc => ?_
  exact need_bind hc fun c hc => .pure hc And.right

theorem ifStmt_yields (hr : rule.Builds) : Yields (Derives .statement) (ifStmt rule) := by
  intro c hc
  refine here_bind fun _ => need_bind hc fun c hc => ?_
  refine bind hc (condition_yields hr c hc) fun test c hc => ?_
  refine bind hc (hr.derives .statement c hc) fun yes c hc => ?_
  refine optional_bind .skip (fun _ c _ hc => hr.derives .statement c hc) hc
    fun no c hc => ?_
  refine form [.one .expression, .one .statement, .optional .statement] hc (by decide) ?_
  rintro ⟨⟨⟨-, htest⟩, hyes⟩, hno, hlength⟩
  exact .one htest (.one hyes (.of_optional_last hno hlength))

theorem enhancedFor_yields (hr : rule.Builds) (start : Position) :
    Yields (Derives .statement) (enhancedFor rule start) := by
  intro c hc
  refine bind hc (modifiers_yields hr c hc) fun marks c hc => ?_
  refine bind hc (localType_yields hr c hc) fun declared c hc => name_bind hc fun label c hc => ?_
  refine need_bind hc fun c hc => ?_
  refine bind hc (expression_yields hr c hc) fun collection c hc => ?_
  refine need_bind hc fun c hc => ?_
  refine bind hc (hr.derives .statement c hc) fun body c hc => ?_
  refine form [.one .modifiers, .one .type, .one .word, .one .expression, .one .statement] hc
    (by decide) ?_
  rintro ⟨⟨⟨⟨⟨-, hmarks⟩, hdeclared⟩, n, rfl, hn⟩, hcollection⟩, hbody⟩
  exact .one hmarks (.one hdeclared (.one hn (.one hcollection (.one hbody .nil))))

/-- One expression or more, separated by commas. -/
theorem expressions_yield (hr : rule.Builds) :
    Yields (DerivesAll .expression) (Parser.commaList (expression rule)) := by
  intro c hc
  refine (Yields.commaList (expression_yields hr) c hc).weaken id ?_
  rintro _ - ⟨first, more, rfl, hfirst, hmore⟩
  exact DerivesAll.cons_iff.2 ⟨hfirst, hmore⟩

theorem forInits_yield (hr : rule.Builds) :
    Yields (fun l => (∃ n, l = [n] ∧ Derives .localVariable n) ∨ DerivesAll .expression l)
      (forInits rule) := by
  intro c hc
  refine ifCheck (fun _ => .pure hc fun _ => .inr .nil) ?_
  refine startsLocalDeclaration_bind hr hc fun _ c hc => .ite (fun _ => ?_) fun _ => ?_
  · refine bind hc (localVarDecl_yields hr c hc) fun n c hc => ?_
    exact .pure hc fun h => .inl ⟨n, rfl, h.2⟩
  · exact (expressions_yield hr c hc).weaken id fun _ _ h => .inr h

theorem forUpdates_yield (hr : rule.Builds) :
    Yields (DerivesAll .expression) (forUpdates rule) := fun c hc =>
  ifCheck (fun _ => .pure hc fun _ => .nil) (expressions_yield hr c hc)

theorem plainFor_yields (hr : rule.Builds) (start : Position) :
    Yields (Derives .statement) (plainFor rule start) := by
  intro c hc
  refine here_bind fun _ => bind hc (forInits_yield hr c hc) fun inits c hc => ?_
  refine bind_given hc (Q := Derives .forInit) (finish hc ?_) fun init c hc => ?_
  · rintro _ ⟨-, ⟨n, rfl, hn⟩ | hinits⟩
    · exact .node (f := ⟨.forInit, [.one .localVariable], .absent⟩) (by decide) rfl (.one hn .nil)
    · exact .node (f := ⟨.forInit, [.many .expression], .absent⟩) (by decide) rfl
        (.of_all_last hinits)
  refine need_bind hc fun c hc => ?_
  refine optional_bind (.checkNot _) (fun _ c _ hc => expression_yields hr c hc) hc
    fun test c hc => ?_
  refine need_bind hc fun c hc => here_bind fun _ => ?_
  refine bind hc (forUpdates_yield hr c hc) fun updates c hc => ?_
  refine bind_given hc (form (k := .forUpdate) [.many .expression] hc (by decide) fun h =>
    .of_all_last h.2) fun update c hc => ?_
  refine need_bind hc fun c hc => ?_
  refine bind hc (hr.derives .statement c hc) fun body c hc => ?_
  refine form [.one .forInit, .optional .expression, .one .forUpdate, .one .statement] hc
    (by decide) ?_
  rintro ⟨⟨⟨⟨⟨-, hinit⟩, htest, hlength⟩, -⟩, hupdate⟩, hbody⟩
  exact .one hinit (.of_optional htest hlength (.one hupdate (.one hbody .nil)))

theorem forStmt_yields (hr : rule.Builds) : Yields (Derives .statement) (forStmt rule) := by
  intro c hc
  refine here_bind fun start => need_bind hc fun c hc => ?_
  refine need_bind hc fun c hc => startsEnhancedFor_bind hr hc fun _ c hc => ?_
  exact .ite (fun _ => enhancedFor_yields hr start c hc) fun _ => plainFor_yields hr start c hc

theorem whileStmt_yields (hr : rule.Builds) : Yields (Derives .statement) (whileStmt rule) := by
  intro c hc
  refine here_bind fun _ => need_bind hc fun c hc => ?_
  refine bind hc (condition_yields hr c hc) fun test c hc => ?_
  refine bind hc (hr.derives .statement c hc) fun body c hc => ?_
  exact form [.one .expression, .one .statement] hc (by decide) fun h => .one h.1.2 (.one h.2 .nil)

theorem doStmt_yields (hr : rule.Builds) : Yields (Derives .statement) (doStmt rule) := by
  intro c hc
  refine here_bind fun _ => need_bind hc fun c hc => ?_
  refine bind hc (hr.derives .statement c hc) fun body c hc => ?_
  refine need_bind hc fun c hc => ?_
  refine bind hc (condition_yields hr c hc) fun test c hc => ?_
  refine need_bind hc fun c hc => ?_
  exact form [.one .statement, .one .expression] hc (by decide) fun h => .one h.1.2 (.one h.2 .nil)

theorem switchLabel_yields (hr : rule.Builds) :
    Yields (Derives .switchLabel) (switchLabel rule) := by
  intro c hc
  refine here_bind fun _ => ifSkip hc (fun c hc => ?_) ?_
  · refine bind hc (ternary_yields hr c hc) fun value c hc => ?_
    refine need_bind hc fun c hc => ?_
    exact form [.one .expression] hc (by decide) fun h => .one h.2 .nil
  · refine bind hc (expect hc) fun word c hc => ?_
    refine need_bind hc fun c hc => finishWith hc fun _ h => ?_
    exact .node (f := ⟨.switchLabel, [], .present⟩) (by decide) h.2 .nil

theorem switchCase_yields (hr : rule.Builds) : Yields (Derives .switchCase) (switchCase rule) := by
  intro c hc
  refine here_bind fun _ => bind hc (of_parallel (needLabel_tracks.run hc.sound)) fun _ c hc => ?_
  refine bind hc (many (k := .switchLabel) (.checkAny _)
    (fun _ c _ hc => switchLabel_yields hr c hc) hc) fun labels c hc => ?_
  refine bind hc (many (.before _) (fun _ c _ hc => hr.derives .statement c hc) hc)
    fun statements c hc => ?_
  exact form [.many .switchLabel, .many .statement] hc (by decide) fun h =>
    .of_all h.1.2 (.of_all_last h.2)

theorem switchStmt_yields (hr : rule.Builds) : Yields (Derives .statement) (switchStmt rule) := by
  intro c hc
  refine here_bind fun _ => need_bind hc fun c hc => ?_
  refine bind hc (condition_yields hr c hc) fun selector c hc => ?_
  refine need_bind hc fun c hc => ?_
  refine bind hc (Yields.manyBefore (switchCase_yields hr) c hc) fun groups c hc => ?_
  refine need_bind hc fun c hc => ?_
  exact form [.one .expression, .many .switchCase] hc (by decide) fun h =>
    .one h.1.2 (.of_all_last h.2)

theorem returnStmt_yields (hr : rule.Builds) : Yields (Derives .statement) (returnStmt rule) := by
  intro c hc
  refine here_bind fun _ => need_bind hc fun c hc => ?_
  refine optional_bind (.checkNot _) (fun _ c _ hc => expression_yields hr c hc) hc
    fun value c hc => ?_
  refine need_bind hc fun c hc => ?_
  refine form [.optional .expression] hc (by decide) fun h => ?_
  exact .of_optional_last h.2.1 h.2.2

theorem jumpStmt_yields {kind : NodeKind} (word : Keyword)
    (hform : ⟨kind, [.optional .word], .absent⟩ ∈ Category.statementForms) :
    Yields (Derives .statement) (jumpStmt kind word) := by
  intro c hc
  refine here_bind fun _ => need_bind hc fun c hc => ?_
  refine optional_bind (k := .word) (.check _) (fun c₀ c hrun hc => ?_) hc fun label c hc => ?_
  · exact Gives.word hc (by rw [Parser.kind_of_check hrun]; rfl)
  refine need_bind hc fun c hc => form [.optional .word] hc hform fun h => ?_
  exact .of_optional_last h.2.1 h.2.2

theorem throwStmt_yields (hr : rule.Builds) : Yields (Derives .statement) (throwStmt rule) := by
  intro c hc
  refine here_bind fun _ => need_bind hc fun c hc => ?_
  refine bind hc (expression_yields hr c hc) fun value c hc => ?_
  refine need_bind hc fun c hc => ?_
  exact form [.one .expression] hc (by decide) fun h => .one h.2 .nil

theorem resourceValue_yields (hr : rule.Builds) :
    Yields (fun l => ∃ n, l = [n] ∧ Derives .expression n) (resourceValue rule) := by
  intro c hc
  refine bind hc (expect hc) fun word c hc => ?_
  cases word with
  | none => exact .pure hc fun h => by cases h.2
  | some t =>
    refine bind hc (expression_yields hr c hc) fun n c hc => ?_
    exact .pure hc fun h => ⟨n, rfl, h.2⟩

theorem tryResource_yields (hr : rule.Builds) : Yields (Derives .resource) (tryResource rule) := by
  intro c hc
  refine startsLocalDeclaration_bind hr hc fun _ c hc => .ite (fun _ => ?_) fun _ => ?_
  · refine here_bind fun _ => bind hc (modifiers_yields hr c hc) fun marks c hc => ?_
    refine bind hc (localType_yields hr c hc) fun declared c hc => name_bind hc fun label c hc => ?_
    refine bind hc (resourceValue_yields hr c hc) fun value c hc => ?_
    refine form [.one .modifiers, .one .type, .one .word, .one .expression] hc (by decide) ?_
    rintro ⟨⟨⟨⟨-, hmarks⟩, hdeclared⟩, n, rfl, hn⟩, v, rfl, hv⟩
    exact .one hmarks (.one hdeclared (.one hn (.one hv .nil)))
  · exact (expression_yields hr c hc).weaken id fun _ _ h => h.mono (by decide)

theorem tryResources_yield (hr : rule.Builds) :
    Yields (DerivesAll .resource) (tryResources rule) := by
  intro c hc
  refine ifSkip hc (fun c hc => ?_) (.pure hc fun _ => .nil)
  refine bind hc (Yields.manyBefore (k := .resource) (fun c hc => ?_) c hc) fun items c hc => ?_
  · refine bind hc (tryResource_yields hr c hc) fun item c hc => ?_
    exact bind hc (Yields.skip c hc) fun _ c hc => .pure hc fun h => h.1.2
  · exact need_bind hc fun c hc => .pure hc And.right

theorem catchClause_yields (hr : rule.Builds) :
    Yields (Derives .catchClause) (catchClause rule) := by
  intro c hc
  refine here_bind fun _ => need_bind hc fun c hc => ?_
  refine need_bind hc fun c hc => ?_
  refine bind hc (modifiers_yields hr c hc) fun marks c hc => ?_
  refine bind hc (typeGroup_yields hr c hc) fun caught c hc => ?_
  refine name_bind hc fun label c hc => need_bind hc fun c hc => ?_
  refine bind hc (block_yields hr c hc) fun body c hc => ?_
  refine form [.one .modifiers, .one .typeGroup, .one .word, .one .block] hc (by decide) ?_
  rintro ⟨⟨⟨⟨-, hmarks⟩, hcaught⟩, n, rfl, hn⟩, hbody⟩
  exact .one hmarks (.one hcaught (.one hn (.one hbody .nil)))

theorem finallyClause_yields (hr : rule.Builds) :
    Yields (Derives .finallyClause) (finallyClause rule) := by
  intro c hc
  refine here_bind fun _ => need_bind hc fun c hc => ?_
  refine bind hc (block_yields hr c hc) fun body c hc => ?_
  exact form [.one .block] hc (by decide) fun h => .one h.2 .nil

/-- Going on after the clauses of a `try` were looked at. -/
theorem needClause_bind {β : Type} {S : β → Prop} {f : Unit → Parser β}
    (resources clauses : List Node) (hc : c.Ready)
    (h : ∀ c' : Cursor, c'.Ready → Gives H S (f ()) c') :
    Gives H S (needClause resources clauses >>= f) c := by
  refine bind hc (Q := fun _ => True) ?_ fun _ c' hc' =>
    (h c' hc').weaken And.left fun _ _ h => h
  exact .ite (fun _ => expected _ hc) fun _ => .pure hc fun _ => trivial

theorem tryStmt_yields (hr : rule.Builds) : Yields (Derives .statement) (tryStmt rule) := by
  intro c hc
  refine here_bind fun _ => need_bind hc fun c hc => ?_
  refine bind hc (tryResources_yield hr c hc) fun resources c hc => ?_
  refine bind hc (block_yields hr c hc) fun body c hc => ?_
  refine bind hc (many (k := .catchClause) (.check _) (fun _ c _ hc => catchClause_yields hr c hc)
    hc) fun catches c hc => ?_
  refine optional_bind (k := .finallyClause) (.check _)
    (fun _ c _ hc => finallyClause_yields hr c hc) hc fun last c hc => ?_
  refine needClause_bind _ _ hc fun c hc => ?_
  refine form [.many .resource, .one .block, .many .catchClause, .optional .finallyClause] hc
    (by decide) ?_
  rintro ⟨⟨⟨⟨-, hresources⟩, hbody⟩, hcatches⟩, hlast, hlength⟩
  rw [List.append_assoc]
  refine .of_all hresources (.one hbody (.of_all hcatches ?_))
  exact .of_optional_last hlast hlength

theorem synchronizedStmt_yields (hr : rule.Builds) :
    Yields (Derives .statement) (synchronizedStmt rule) := by
  intro c hc
  refine here_bind fun _ => need_bind hc fun c hc => ?_
  refine bind hc (condition_yields hr c hc) fun lock c hc => ?_
  refine bind hc (block_yields hr c hc) fun body c hc => ?_
  exact form [.one .expression, .one .block] hc (by decide) fun h => .one h.1.2 (.one h.2 .nil)

theorem assertStmt_yields (hr : rule.Builds) : Yields (Derives .statement) (assertStmt rule) := by
  intro c hc
  refine here_bind fun _ => need_bind hc fun c hc => ?_
  refine bind hc (expression_yields hr c hc) fun test c hc => ?_
  refine optional_bind .skip (fun _ c _ hc => expression_yields hr c hc) hc
    fun message c hc => ?_
  refine need_bind hc fun c hc => ?_
  refine form [.one .expression, .optional .expression] hc (by decide) fun h => .one h.1.2 ?_
  exact .of_optional_last h.2.1 h.2.2

theorem labeledStmt_gives (hr : rule.Builds) (hc : c.Ready)
    (hk : (c.tokenAt 0).kind.isWord = true) :
    Gives H (Derives .statement) (labeledStmt rule) c := by
  refine here_bind fun _ => bind hc (word hc hk) fun label c hc => ?_
  refine need_bind hc fun c hc => ?_
  refine bind hc (hr.derives .statement c hc) fun body c hc => ?_
  exact form [.one .word, .one .statement] hc (by decide) fun h => .one h.1.2 (.one h.2 .nil)

theorem emptyStmt_gives {k : Category} (hc : c.Ready) (hk : (c.tokenAt 0).kind ≠ .eof)
    (hform : ⟨.emptyStmt, [], .absent⟩ ∈ k.forms) : Gives H (Derives k) emptyStmt c :=
  here_bind fun _ => advance_bind (form [] (hc.step hk) hform fun _ => .nil)

theorem statement_yields (hr : rule.Builds) : Yields (Derives .statement) (statement rule) := by
  intro c hc
  refine kindAt_bind (kindAt_bind ?_)
  generalize hk : (c.tokenAt 0).kind = kind
  split
  · exact (block_yields hr c hc).weaken id fun _ _ h => h.mono (by decide)
  · exact emptyStmt_gives hc (ne_eof_of_eq hk) (by decide)
  · exact ifStmt_yields hr c hc
  · exact forStmt_yields hr c hc
  · exact whileStmt_yields hr c hc
  · exact doStmt_yields hr c hc
  · exact switchStmt_yields hr c hc
  · exact returnStmt_yields hr c hc
  · exact jumpStmt_yields _ (by decide) c hc
  · exact jumpStmt_yields _ (by decide) c hc
  · exact throwStmt_yields hr c hc
  · exact tryStmt_yields hr c hc
  · exact .ite (fun _ => synchronizedStmt_yields hr c hc) fun _ => simpleStmt_yields hr c hc
  · exact assertStmt_yields hr c hc
  · exact localClassDecl_yields hr c hc
  · exact localClassDecl_yields hr c hc
  · exact localClassDecl_yields hr c hc
  · exact localClassDecl_yields hr c hc
  · exact .ite (fun _ => localClassDecl_yields hr c hc) fun _ => simpleStmt_yields hr c hc
  · exact .ite (fun _ => labeledStmt_gives hr hc (by rw [hk]; rfl)) fun _ =>
      simpleStmt_yields hr c hc
  · exact simpleStmt_yields hr c hc

end Statements

end Grammar

end JavaObjC
