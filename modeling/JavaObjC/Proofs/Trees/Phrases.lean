import JavaObjC.Proofs.Trees.Yields

/-!
# Trees of names, types and bracketed lists

What the shared productions of the grammar build, in the order of their
definitions. Each one takes what the phrases inside it build as a hypothesis.
-/

namespace JavaObjC

open Cursor

/-- The category of the trees of a phrase. -/
def Grammar.Phrase.category : Grammar.Phrase → Category
  | .expression | .ternary | .unary => .expression
  | .initializer => .initializer
  | .type => .type
  | .annotationValue => .annotationValue
  | .statement => .statement
  | .member => .member

/-- Parsers that build trees of the right categories. -/
structure Grammar.Rules.Builds (rule : Grammar.Rules) : Prop where
  tracked : rule.Tracked Pairing.same
  derives : ∀ phrase : Grammar.Phrase, Yields (Derives phrase.category) (rule phrase)

namespace Grammar

open Gives

variable {rule : Rules} {H : Prop} {c : Cursor}

theorem qualifiedName_yields : Yields (Derives .qualifiedName) qualifiedName := by
  intro c hc
  refine here_bind fun _ => ifCheckName (fun hname => ?_) (problem _ _ _ hc)
  refine bind hc (word hc (TokenKind.isWord_of_isName hname)) fun first c hc => ?_
  refine bind hc (many (k := .word) (.check2 _ _) (fun c₀ c hrun hc => ?_) hc)
    fun more c hc => ?_
  · obtain ⟨hdot, hidentifier⟩ := Parser.kinds_of_check2 hrun
    refine advance_bind (word (hc.step (ne_eof_of_eq hdot)) ?_)
    rw [tokenAt_step, hidentifier]
    rfl
  · exact form [.one .word, .many .word] hc (by decide) fun h => .one h.1.2 (.of_all_last h.2)

theorem annotationElement_yields (hr : rule.Builds) :
    Yields (Derives .annotationArgument) (annotationElement rule) := by
  intro c hc
  refine here_bind fun _ => name_bind hc fun label c hc => ?_
  refine need_bind hc fun c hc => ?_
  refine bind hc (hr.derives .annotationValue c hc) fun value c hc => ?_
  refine form [.one .word, .one .annotationValue] hc (by decide) ?_
  rintro ⟨⟨-, n, rfl, hn⟩, hvalue⟩
  exact .one hn (.one hvalue .nil)

theorem annotationValues_yields (hr : rule.Builds) :
    Yields (DerivesAll .annotationArgument) (annotationValues rule) := by
  intro c hc
  refine ifCheck (fun _ => .pure hc fun _ => .nil) (kindAt_bind (.ite (fun _ => ?_) fun _ => ?_))
  · refine (Yields.commaList (annotationElement_yields hr) c hc).weaken id ?_
    rintro _ - ⟨first, more, rfl, hfirst, hmore⟩
    exact DerivesAll.cons_iff.2 ⟨hfirst, hmore⟩
  · refine bind hc (hr.derives .annotationValue c hc) fun value c hc => ?_
    exact .pure hc fun h => DerivesAll.cons_iff.2 ⟨h.2.mono (by decide), .nil⟩

theorem annotationUse_yields (hr : rule.Builds) :
    Yields (Derives .annotationUse) (annotationUse rule) := by
  intro c hc
  refine here_bind fun _ => need_bind hc fun c hc => ?_
  refine bind hc (qualifiedName_yields c hc) fun target c hc => ?_
  refine ifSkip hc (fun c hc => ?_) ?_
  · refine bind hc (annotationValues_yields hr c hc) fun values c hc => ?_
    refine need_bind hc fun c hc => ?_
    exact form [.one .qualifiedName, .many .annotationArgument] hc (by decide) fun h =>
      .one h.1.2 (.of_all_last h.2)
  · exact form [.one .qualifiedName, .many .annotationArgument] hc (by decide) fun h =>
      .one h.2 (.done .nil)

theorem wildcard_yields (hr : rule.Builds) : Yields (Derives .typeArgument) (wildcard rule) := by
  intro c hc
  refine here_bind fun _ => need_bind hc fun c hc => ?_
  refine ifCheckAny (fun hmem => ?_) ?_
  · refine bind hc (mark hc (ne_eof_of_mem hmem (by decide))) fun direction c hc => ?_
    refine bind hc (hr.derives .type c hc) fun bound c hc => ?_
    exact form [.one .mark, .one .type] hc (by decide) fun h => .one h.1.2 (.one h.2 .nil)
  · exact form [] hc (by decide) fun _ => .nil

theorem typeArgument_yields (hr : rule.Builds) :
    Yields (Derives .typeArgument) (typeArgument rule) := fun c hc =>
  ifCheck (fun _ => wildcard_yields hr c hc)
    ((hr.derives .type c hc).weaken id fun _ _ h => h.mono (by decide))

/-- Taking the `>` that closes a list. -/
theorem closeAngle_bind {β : Type} {S : β → Prop} {f : Unit → Parser β} (hc : c.Ready)
    (h : ∀ c' : Cursor, c'.Ready → Gives H S (f ()) c') : Gives H S (closeAngle >>= f) c :=
  bind hc (of_parallel (closeAngle_tracks.run hc.sound)) fun _ c' hc' =>
    (h c' hc').weaken And.left fun _ _ h => h

theorem typeArguments_yields (hr : rule.Builds) :
    Yields (Derives .typeArguments) (typeArguments rule) := by
  intro c hc
  refine here_bind fun _ => need_bind hc fun c hc => ?_
  refine bind hc (of_parallel (.skipGreater hc.sound)) fun b c hc => ?_
  refine .ite (fun _ => ?_) fun _ => ?_
  · exact form [.many .typeArgument] hc (by decide) fun _ => .done .nil
  · refine bind hc (Yields.commaList (typeArgument_yields hr) c hc) fun arguments c hc => ?_
    refine closeAngle_bind hc fun c hc => form [.many .typeArgument] hc (by decide) ?_
    rintro ⟨-, first, more, rfl, hfirst, hmore⟩
    exact .more hfirst (.of_all_last hmore)

/-- Type arguments if there are any. -/
theorem optionalTypeArguments_bind {β : Type} {S : β → Prop} {f : List Node → Parser β}
    (hr : rule.Builds) (hc : c.Ready) (h : ∀ l c', Cursor.Ready c' →
      Gives (H ∧ DerivesAll .typeArguments l ∧ l.length ≤ 1) S (f l) c') :
    Gives H S (Parser.optional (Parser.check Symbol.lt) (typeArguments rule) >>= f) c :=
  optional_bind (.check _) (fun _ c _ hc => typeArguments_yields hr c hc) hc h

/-- Array nodes around a tree that may stand in one. -/
theorem arrayBrackets_gives {k : Category} (hform : ⟨.arrayType, [.one k], .absent⟩ ∈ k.forms)
    (element : Node) (hc : c.Ready) :
    Gives (Derives k element) (Derives k) (arrayBrackets element) c := by
  refine loop (fun inner c hc => ?_) hc
  refine ifCheck2 (fun h₀ h₁ => ?_) (.pure hc fun _ => nofun)
  refine two_bind hc (ne_eof_of_eq h₀) (ne_eof_of_eq h₁) fun c hc => ?_
  exact some_of hc (form _ hc hform fun hinner => .one hinner .nil)

/-- Annotations in front of a phrase. -/
theorem annotations_yield (hr : rule.Builds) :
    Yields (DerivesAll .annotationUse)
      (Parser.many (Parser.check Symbol.atSign) (annotationUse rule)) := fun _ hc =>
  many (.check _) (fun _ c _ hc => annotationUse_yields hr c hc) hc

/-- A type with the array brackets after it. -/
theorem finishedType_gives {start : Position} {children : List Node} (items : List Item)
    (hc : c.Ready) (hform : ⟨.type, items, .absent⟩ ∈ Category.type.forms)
    (h : H → Matches items children) :
    Gives H (Derives .type) (Parser.finish .type start children >>= arrayBrackets) c := by
  refine bind_given hc (form items hc hform h) fun n c hc => ?_
  exact (arrayBrackets_gives (by decide) n hc).weaken And.right fun _ _ h => h

theorem type_yields (hr : rule.Builds) : Yields (Derives .type) (type rule) := by
  intro c hc
  refine here_bind fun _ => bind hc (annotations_yield hr c hc) fun marks c hc => ?_
  refine kindAt_bind (.ite (fun hk => ?_) fun _ => .ite (fun _ => ?_) fun _ => problem _ _ _ hc)
  · have hword : (c.tokenAt 0).kind.isWord = true := by
      rcases Bool.or_eq_true_iff.1 hk with hprimitive | hvoid
      · exact TokenKind.isWord_of_isPrimitive hprimitive
      · rw [beq_iff_eq.1 hvoid]
        rfl
    refine bind hc (word hc hword) fun label c hc => ?_
    exact finishedType_gives [.many .annotationUse, .one .word] hc (by decide) fun h =>
      .of_all h.1.2 (.one h.2 .nil)
  · refine bind hc (qualifiedName_yields c hc) fun outer c hc => ?_
    refine optionalTypeArguments_bind hr hc fun arguments c hc => ?_
    refine loop_bind (Q := fun parts => ∃ first more, parts = first :: more ∧
      Derives .qualifiedName first ∧ DerivesAll .typePart more) (fun parts c hc => ?_) hc
      fun parts c hc => ?_
    · refine ifCheck2 (fun hdot _ => ?_) (.pure hc fun _ => nofun)
      refine advance_bind ?_
      have hc := hc.step (ne_eof_of_eq hdot)
      refine bind hc (qualifiedName_yields _ hc) fun inner c hc => ?_
      refine optionalTypeArguments_bind hr hc fun arguments c hc => .pure hc ?_
      rintro ⟨⟨⟨first, more, rfl, hfirst, hmore⟩, hinner⟩, harguments, -⟩ _ ⟨⟩
      refine ⟨first, more ++ inner :: arguments, rfl, hfirst, DerivesAll.append_iff.2 ⟨hmore, ?_⟩⟩
      exact DerivesAll.cons_iff.2 ⟨hinner.mono (by decide),
        fun n hn => (harguments n hn).mono (by decide)⟩
    · refine finishedType_gives [.many .annotationUse, .one .qualifiedName, .many .typePart]
        hc (by decide) ?_
      rintro ⟨⟨⟨⟨-, hmarks⟩, houter⟩, harguments, -⟩, hparts⟩
      obtain ⟨first, more, rfl, hfirst, hmore⟩ := hparts ⟨outer, arguments, rfl, houter,
        fun n hn => (harguments n hn).mono (by decide)⟩
      exact .of_all hmarks (.one hfirst (.of_all_last hmore))

theorem typeList_yields (hr : rule.Builds) :
    Yields (fun l => ∃ first more, l = first :: more ∧ Derives .type first ∧ DerivesAll .type more)
      (typeList rule) := Yields.commaList (type_yields hr)

theorem typesAfter_yields (hr : rule.Builds) (word : Keyword) :
    Yields (DerivesAll .type) (typesAfter rule word) := by
  intro c hc
  refine ifSkip hc (fun c hc => ?_) (.pure hc fun _ => .nil)
  refine (typeList_yields hr c hc).weaken id ?_
  rintro _ - ⟨first, more, rfl, hfirst, hmore⟩
  exact DerivesAll.cons_iff.2 ⟨hfirst, hmore⟩

theorem modifiers_yields (hr : rule.Builds) : Yields (Derives .modifiers) (modifiers rule) := by
  intro c hc
  refine here_bind fun _ => bind hc (many (k := .modifier)
    (fun c hc => of_parallel (startsModifier_tracks.run hc.sound))
    (fun c₀ c hrun hc => ?_) hc) fun items c hc => ?_
  · refine ifCheck (fun _ => ?_) ?_
    · exact (annotationUse_yields hr c hc).weaken id fun _ _ h => h.mono (by decide)
    · exact (mark hc (ne_eof_of_startsModifier hrun)).weaken id fun _ _ h => h.mono (by decide)
  · exact form [.many .modifier] hc (by decide) fun h => .of_all_last h.2

/-- Skipping pairs of empty brackets. -/
theorem bracketPairs_bind {β : Type} {S : β → Prop} {f : Nat → Parser β} (hc : c.Ready)
    (h : ∀ n c', Cursor.Ready c' → Gives H S (f n) c') : Gives H S (bracketPairs >>= f) c :=
  bind hc (of_parallel (bracketPairs_tracks.run hc.sound)) fun n c' hc' =>
    (h n c' hc').weaken And.left fun _ _ h => h

/-- A type stays one inside arrays. -/
theorem inArrays_derives {t : Node} (h : Derives .type t) (depth : Nat) :
    Derives .type (inArrays depth t) := by
  induction depth generalizing t with
  | zero => exact h
  | succ depth ih =>
    rw [inArrays]
    split
    · exact ih (.node (f := ⟨.arrayType, [.one .type], .absent⟩) (by decide) rfl (.one h .nil))
    · exact h

theorem parameter_yields (hr : rule.Builds) : Yields (Derives .parameter) (parameter rule) := by
  intro c hc
  refine here_bind fun _ => bind hc (modifiers_yields hr c hc) fun marks c hc => ?_
  refine bind hc (type_yields hr c hc) fun declared c hc => ?_
  refine optional_bind (k := .mark) (.check _) (fun c₀ c hrun hc => ?_) hc fun dots c hc => ?_
  · exact mark hc (ne_eof_of_eq (Parser.kind_of_check hrun))
  refine name_bind hc fun label c hc => bracketPairs_bind hc fun depth c hc => ?_
  refine form [.one .modifiers, .one .type, .optional .mark, .one .word] hc (by decide) ?_
  rintro ⟨⟨⟨⟨-, hmarks⟩, hdeclared⟩, hdots, hlength⟩, n, rfl, hn⟩
  exact .one hmarks (.one (inArrays_derives hdeclared depth)
    (.of_optional hdots hlength (.one hn .nil)))

theorem parameters_yield (hr : rule.Builds) : Yields (Derives .parameters) (parameters rule) := by
  intro c hc
  refine here_bind fun _ => need_bind hc fun c hc => ?_
  refine bind hc (Yields.commaListBefore (parameter_yields hr) c hc) fun items c hc => ?_
  refine need_bind hc fun c hc => ?_
  exact form [.many .parameter] hc (by decide) fun h => .of_all_last h.2

theorem arguments_yield (hr : rule.Builds) : Yields (Derives .arguments) (arguments rule) := by
  intro c hc
  refine here_bind fun _ => need_bind hc fun c hc => ?_
  refine bind hc (Yields.commaListBefore (hr.derives .expression) c hc) fun items c hc => ?_
  refine need_bind hc fun c hc => ?_
  exact form [.many .expression] hc (by decide) fun h => .of_all_last h.2

theorem block_yields (hr : rule.Builds) : Yields (Derives .block) (block rule) := by
  intro c hc
  refine here_bind fun _ => need_bind hc fun c hc => ?_
  refine bind hc (Yields.manyBefore (hr.derives .statement) c hc) fun statements c hc => ?_
  refine need_bind hc fun c hc => ?_
  exact form [.many .statement] hc (by decide) fun h => .of_all_last h.2

theorem classBody_yields (hr : rule.Builds) : Yields (Derives .classBody) (classBody rule) := by
  intro c hc
  refine here_bind fun _ => need_bind hc fun c hc => ?_
  refine bind hc (Yields.manyBefore (hr.derives .member) c hc) fun members c hc => ?_
  refine need_bind hc fun c hc => ?_
  exact form [.many .member] hc (by decide) fun h => .of_all_last h.2

theorem arrayInitializer_yields (hr : rule.Builds) :
    Yields (Derives .arrayInit) (arrayInitializer rule) := by
  intro c hc
  refine here_bind fun _ => need_bind hc fun c hc => ?_
  refine bind hc (Yields.commaListBefore (hr.derives .initializer) c hc) fun items c hc => ?_
  refine need_bind hc fun c hc => ?_
  exact form [.many .initializer] hc (by decide) fun h => .of_all_last h.2

section Lookaheads

variable {β : Type} {S : β → Prop} {f : Bool → Parser β}

/-- Going on after a question about what follows. -/
theorem startsLocalDeclaration_bind (hr : rule.Builds) (hc : c.Ready)
    (h : ∀ b c', Cursor.Ready c' → Gives H S (f b) c') :
    Gives H S (startsLocalDeclaration rule >>= f) c :=
  bind hc (of_parallel ((startsLocalDeclaration_tracks hr.tracked).run hc.sound))
    fun b c' hc' => (h b c' hc').weaken And.left fun _ _ h => h

theorem startsEnhancedFor_bind (hr : rule.Builds) (hc : c.Ready)
    (h : ∀ b c', Cursor.Ready c' → Gives H S (f b) c') :
    Gives H S (startsEnhancedFor rule >>= f) c :=
  bind hc (of_parallel ((startsEnhancedFor_tracks hr.tracked).run hc.sound))
    fun b c' hc' => (h b c' hc').weaken And.left fun _ _ h => h

theorem startsCast_bind (hc : c.Ready) (h : ∀ b c', Cursor.Ready c' → Gives H S (f b) c') :
    Gives H S (startsCast >>= f) c :=
  bind hc (of_parallel (startsCast_tracks.run hc.sound))
    fun b c' hc' => (h b c' hc').weaken And.left fun _ _ h => h

theorem startsLambda_bind (hc : c.Ready) (h : ∀ b c', Cursor.Ready c' → Gives H S (f b) c') :
    Gives H S (startsLambda >>= f) c :=
  bind hc (of_parallel (startsLambda_tracks.run hc.sound))
    fun b c' hc' => (h b c' hc').weaken And.left fun _ _ h => h

end Lookaheads

end Grammar

end JavaObjC
