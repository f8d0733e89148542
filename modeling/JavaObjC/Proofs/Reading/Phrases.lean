import JavaObjC.Proofs.Reading.Combinators
import JavaObjC.Proofs.Reading.Scanning

/-!
# Names, types and lookaheads side by side

Every production that declarations, statements and expressions share tracks
itself, given that the phrases it contains do; and so do the lookaheads, which
read real phrases and forget them.
-/

namespace JavaObjC

open Cursor

/-- Parsers for phrases that track themselves. -/
def Grammar.Rules.Tracked (r : Pairing) (rule : Grammar.Rules) : Prop :=
  ∀ phrase, Tracks r (.node r) True (rule phrase) (rule phrase)

namespace Grammar

variable {r : Pairing} {tallied : Bool} {rule : Rules} {c d : Cursor}

/-- An identifier leaf. -/
theorem identifier_leaf (hs : Similar r c d) (hk : (c.tokenAt 0).kind ≠ .eof) :
    Parallel r tallied (.node r) True (Parser.leaf .identifier) (Parser.leaf .identifier) c d :=
  .leaf hs hk (by decide) rfl rfl

theorem qualifiedName_tracks : Tracks r (.node r) True qualifiedName qualifiedName := by
  intro c d hs
  refine .here_bind (.ifCheckName hs (fun hname => ?_) (.problem _ _ _ hs))
  refine (identifier_leaf hs (ne_eof_of_isName hname)).bind fun first first' hfirst c d hs => ?_
  refine (Parallel.many (fun _ _ hs => .check2 _ _ hs) (fun c₀ c d hrun hs => ?_) hs).bind
    fun more more' hmore c d hs => ?_
  · obtain ⟨hdot, hidentifier⟩ := Parser.kinds_of_check2 hrun
    have hs₁ := hs.step (ne_eof_of_eq hdot)
    refine .advance_bind hs fun _ _ _ _ => identifier_leaf hs₁ ?_
    rw [tokenAt_step]
    exact ne_eof_of_eq hidentifier
  · exact .finish hs (.cons hfirst hmore) (Node.fits_of_loose (by decide)) (by simp)

theorem annotationElement_tracks (hr : rule.Tracked r) :
    Tracks r (.node r) True (annotationElement rule) (annotationElement rule) := by
  intro c d hs
  refine .here_bind ((Parallel.name hs).bind fun label label' hlabel c d hs => ?_)
  refine .need_bind hs fun c d hs => ?_
  refine ((hr .annotationValue).run hs).bind fun value value' hvalue c d hs => ?_
  exact .finish hs (hlabel.append (.cons hvalue .nil)) (Node.fits_of_loose (by decide)) (by simp)

theorem annotationValues_tracks (hr : rule.Tracked r) :
    Tracks r (.nodes r) True (annotationValues rule) (annotationValues rule) := by
  intro c d hs
  refine .ifCheck hs (fun _ => .pure hs .nil (by simp)) fun _ => ?_
  refine .kindAt_bind hs ?_
  refine .ite (fun _ => .commaList (annotationElement_tracks hr) hs) fun _ => ?_
  refine ((hr .annotationValue).run hs).bind fun value value' hvalue c d hs => ?_
  exact .pure hs (.cons hvalue .nil) (by simp)

theorem annotationUse_tracks (hr : rule.Tracked r) :
    Tracks r (.node r) True (annotationUse rule) (annotationUse rule) := by
  intro c d hs
  refine .here_bind (.need_bind hs fun c d hs => ?_)
  refine (qualifiedName_tracks.run hs).bind fun target target' htarget c d hs => ?_
  refine .ifSkip hs (fun c d hs => ?_) fun _ => ?_
  · refine ((annotationValues_tracks hr).run hs).bind fun values values' hvalues c d hs => ?_
    refine .need_bind hs fun c d hs => ?_
    exact .finish hs (.cons htarget hvalues) (Node.fits_of_loose (by decide)) (by simp)
  · exact .finish hs (.cons htarget .nil) (Node.fits_of_loose (by decide)) (by simp)

theorem wildcard_tracks (hr : rule.Tracked r) :
    Tracks r (.node r) True (wildcard rule) (wildcard rule) := by
  intro c d hs
  refine .here_bind (.need_bind hs fun c d hs => ?_)
  refine .ifCheckAny hs (fun hmem => ?_) fun _ => ?_
  · refine (identifier_leaf hs (ne_eof_of_mem hmem (by decide))).bind
      fun direction direction' hdirection c d hs => ?_
    refine ((hr .type).run hs).bind fun bound bound' hbound c d hs => ?_
    exact .finish hs (.cons hdirection (.cons hbound .nil)) (Node.fits_of_loose (by decide))
      (by simp)
  · exact .finish hs .nil (Node.fits_of_loose (by decide)) (by simp)

theorem typeArgument_tracks (hr : rule.Tracked r) :
    Tracks r (.node r) True (typeArgument rule) (typeArgument rule) := fun _ _ hs =>
  .ifCheck hs (fun _ => (wildcard_tracks hr).run hs) fun _ => (hr .type).run hs

theorem closeAngle_tracks : Tracks r .plain True closeAngle closeAngle := by
  intro c d hs
  refine (Parallel.skipGreater hs).bind fun b b' hb c d hs => ?_
  cases hb
  exact .ite (fun _ => .pure hs rfl (by simp)) fun _ => .expected _ hs

theorem typeArguments_tracks (hr : rule.Tracked r) :
    Tracks r (.node r) True (typeArguments rule) (typeArguments rule) := by
  intro c d hs
  refine .here_bind (.need_bind hs fun c d hs => ?_)
  refine (Parallel.skipGreater hs).bind fun b b' hb c d hs => ?_
  cases hb
  refine .ite (fun _ => .finish hs .nil (Node.fits_of_loose (by decide)) (by simp)) fun _ => ?_
  refine (Parallel.commaList (typeArgument_tracks hr) hs).bind
    fun arguments arguments' harguments c d hs => ?_
  refine (closeAngle_tracks.run hs).bind fun _ _ _ c d hs => ?_
  exact .finish hs harguments (Node.fits_of_loose (by decide)) (by simp)

/-- Array nodes around alike types are alike. -/
theorem arrayBrackets_tracks {element element' : Node} (h : Node.Alike r element element') :
    Tracks r (.node r) element.Clean (arrayBrackets element) (arrayBrackets element') := by
  intro c d hs
  refine .loop (fun inner inner' hinner c d hs => ?_) h hs
  refine .ifCheck2 hs (fun h₀ h₁ => ?_) (.pure hs .none (by simp))
  refine .two_bind hs (ne_eof_of_eq h₀) (ne_eof_of_eq h₁)
    fun c d hs => ?_
  exact .some_of (.finish hs (.cons hinner .nil) (Node.fits_of_loose (by decide)) (by simp))

/-- Annotations in front of a phrase. -/
theorem annotations_track (hr : rule.Tracked r) :
    Tracks r (.nodes r) True (Parser.many (Parser.check Symbol.atSign) (annotationUse rule))
      (Parser.many (Parser.check Symbol.atSign) (annotationUse rule)) := fun _ _ hs =>
  .many (fun _ _ hs => .check _ hs) (fun _ _ _ _ hs => (annotationUse_tracks hr).run hs) hs

/-- Type arguments if there are any. -/
theorem optionalTypeArguments_tracks (hr : rule.Tracked r) :
    Tracks r (.nodes r) True (Parser.optional (Parser.check Symbol.lt) (typeArguments rule))
      (Parser.optional (Parser.check Symbol.lt) (typeArguments rule)) := fun _ _ hs =>
  .optional (.check _ hs) fun _ _ _ hs => (typeArguments_tracks hr).run hs

theorem type_tracks (hr : rule.Tracked r) :
    Tracks r (.node r) True (type rule) (type rule) := by
  intro c d hs
  refine .here_bind (((annotations_track hr).run hs).bind fun marks marks' hmarks c d hs => ?_)
  refine .kindAt_bind hs ?_
  refine .ite (fun hk => ?_) fun _ => ?_
  · have hne : (c.tokenAt 0).kind ≠ .eof := by
      intro heof
      rw [heof] at hk
      cases hk
    refine (identifier_leaf hs hne).bind fun word word' hword c d hs => ?_
    refine (Parallel.finish hs (hmarks.append (.cons hword .nil))
      (Node.fits_of_loose (by decide)) Iff.rfl).bind_from (R := True) (by simp)
      fun n n' hn c d hs => ?_
    exact ((arrayBrackets_tracks hn).run hs).of_iff (by simp)
  refine .ite (fun hk => ?_) fun _ => .problem _ _ _ hs
  refine (qualifiedName_tracks.run hs).bind fun outer outer' houter c d hs => ?_
  refine ((optionalTypeArguments_tracks hr).run hs).bind
    fun arguments arguments' harguments c d hs => ?_
  refine (Parallel.loop (A := .nodes r) (fun parts parts' hparts c d hs => ?_)
    (.cons houter harguments) hs).bind_from (R := Node.CleanAll marks)
    (by simp [and_assoc, and_comm, and_left_comm]) fun parts parts' hparts c d hs => ?_
  · refine .ifCheck2 hs (fun hdot _ => ?_) (.pure hs .none (by simp))
    refine .advance_bind hs fun _ _ _ _ => ?_
    have hs := hs.step (ne_eof_of_eq hdot)
    refine (qualifiedName_tracks.run hs).bind fun inner inner' hinner c d hs => ?_
    refine ((optionalTypeArguments_tracks hr).run hs).bind
      fun arguments arguments' harguments c d hs => ?_
    exact .pure hs (.some (hparts.append (.cons hinner harguments))) (by simp [and_assoc])
  · refine (Parallel.finish hs (hmarks.append hparts) (Node.fits_of_loose (by decide))
      Iff.rfl).bind_from (R := True) (by simp) fun n n' hn c d hs => ?_
    exact ((arrayBrackets_tracks hn).run hs).of_iff (by simp)

theorem typeList_tracks (hr : rule.Tracked r) :
    Tracks r (.nodes r) True (typeList rule) (typeList rule) := fun _ _ hs =>
  .commaList (type_tracks hr) hs

theorem typesAfter_tracks (hr : rule.Tracked r) (word : Keyword) :
    Tracks r (.nodes r) True (typesAfter rule word) (typesAfter rule word) := fun _ _ hs =>
  .ifSkip hs (fun _ _ hs => (typeList_tracks hr).run hs) fun _ => .pure hs .nil (by simp)

theorem startsModifier_tracks : Tracks r .plain True startsModifier startsModifier := fun _ _ hs =>
  .kindAt_bind hs (.kindAt_bind hs (.pure hs rfl Iff.rfl))

/-- A modifier is not the end of file. -/
theorem ne_eof_of_startsModifier {c₀ c : Cursor} (h : startsModifier.run c₀ = (true, c)) :
    (c.tokenAt 0).kind ≠ .eof := by
  obtain ⟨hmodifier, rfl⟩ := Prod.mk.inj h
  intro heof
  rw [heof] at hmodifier
  cases hmodifier

theorem modifiers_tracks (hr : rule.Tracked r) :
    Tracks r (.node r) True (modifiers rule) (modifiers rule) := by
  intro c d hs
  refine .here_bind ?_
  refine (Parallel.many (startsModifier_tracks) (fun c₀ c d hrun hs => ?_) hs).bind
    fun items items' hitems c d hs => ?_
  · exact .ifCheck hs (fun _ => (annotationUse_tracks hr).run hs)
      fun _ => identifier_leaf hs (ne_eof_of_startsModifier hrun)
  · exact .finish hs hitems (Node.fits_of_loose (by decide)) (by simp)

theorem bracketPairs_tracks : Tracks r .plain True bracketPairs bracketPairs := by
  intro c d hs
  refine Parallel.loop (A := .plain) (fun n n' hn c d hs => ?_) rfl hs
  cases hn
  refine .ifCheck2 hs (fun h₀ h₁ => ?_) (.pure hs .none (by simp))
  refine .two_bind hs (ne_eof_of_eq h₀) (ne_eof_of_eq h₁)
    fun c d hs => ?_
  exact .pure hs (.some rfl) (by simp)

/-- Brackets after declared names apply to alike types alike. -/
theorem inArrays_alike (n : Nat) {t t' : Node} (h : Node.Alike r t t') :
    Node.Alike r (inArrays n t) (inArrays n t') := by
  induction n generalizing t t' with
  | zero => exact h
  | succ n ih =>
    rw [inArrays, inArrays, h.kind_eq]
    split
    · exact ih (.of_children rfl (.cons h .nil) (Node.fits_of_loose (by decide) _)
        (Node.lexed_of_none rfl))
    · exact h

/-- Brackets after declared names add no problems. -/
theorem inArrays_clean (n : Nat) (t : Node) : (inArrays n t).Clean ↔ t.Clean := by
  induction n generalizing t with
  | zero => rfl
  | succ n ih =>
    rw [inArrays]
    split
    · rw [ih, Node.clean_mk]
      simp
    · rfl

theorem parameter_tracks (hr : rule.Tracked r) :
    Tracks r (.node r) True (parameter rule) (parameter rule) := by
  intro c d hs
  refine .here_bind (((modifiers_tracks hr).run hs).bind fun marks marks' hmarks c d hs => ?_)
  refine ((type_tracks hr).run hs).bind fun declared declared' hdeclared c d hs => ?_
  refine (Parallel.optional (.check _ hs) fun c d hrun hs => identifier_leaf hs
    (ne_eof_of_eq (Parser.kind_of_check hrun))).bind fun dots dots' hdots c d hs => ?_
  refine (Parallel.name hs).bind fun label label' hlabel c d hs => ?_
  refine (bracketPairs_tracks.run hs).bind fun depth depth' hdepth c d hs => ?_
  cases hdepth
  exact .finish hs (.append (.cons hmarks (.cons (inArrays_alike _ hdeclared) hdots)) hlabel)
    (Node.fits_of_loose (by decide)) (by simp [inArrays_clean, and_assoc])

theorem parameters_track (hr : rule.Tracked r) :
    Tracks r (.node r) True (parameters rule) (parameters rule) := by
  intro c d hs
  refine .here_bind (.need_bind hs fun c d hs => ?_)
  refine (Parallel.commaListBefore (parameter_tracks hr) hs).bind
    fun items items' hitems c d hs => ?_
  refine .need_bind hs fun c d hs => ?_
  exact .finish hs hitems (Node.fits_of_loose (by decide)) (by simp)

theorem arguments_track (hr : rule.Tracked r) :
    Tracks r (.node r) True (arguments rule) (arguments rule) := by
  intro c d hs
  refine .here_bind (.need_bind hs fun c d hs => ?_)
  refine (Parallel.commaListBefore (hr .expression) hs).bind fun items items' hitems c d hs => ?_
  refine .need_bind hs fun c d hs => ?_
  exact .finish hs hitems (Node.fits_of_loose (by decide)) (by simp)

theorem block_tracks (hr : rule.Tracked r) :
    Tracks r (.node r) True (block rule) (block rule) := by
  intro c d hs
  refine .here_bind (.need_bind hs fun c d hs => ?_)
  refine (Parallel.manyBefore (hr .statement) hs).bind fun items items' hitems c d hs => ?_
  refine .need_bind hs fun c d hs => ?_
  exact .finish hs hitems (Node.fits_of_loose (by decide)) (by simp)

theorem classBody_tracks (hr : rule.Tracked r) :
    Tracks r (.node r) True (classBody rule) (classBody rule) := by
  intro c d hs
  refine .here_bind (.need_bind hs fun c d hs => ?_)
  refine (Parallel.manyBefore (hr .member) hs).bind fun items items' hitems c d hs => ?_
  refine .need_bind hs fun c d hs => ?_
  exact .finish hs hitems (Node.fits_of_loose (by decide)) (by simp)

theorem arrayInitializer_tracks (hr : rule.Tracked r) :
    Tracks r (.node r) True (arrayInitializer rule) (arrayInitializer rule) := by
  intro c d hs
  refine .here_bind (.need_bind hs fun c d hs => ?_)
  refine (Parallel.commaListBefore (hr .initializer) hs).bind fun items items' hitems c d hs => ?_
  refine .need_bind hs fun c d hs => ?_
  exact .finish hs hitems (Node.fits_of_loose (by decide)) (by simp)

/-- Skipping angle brackets keeps similar tokens similar. -/
theorem skipAngles_similar (depth : Int) {consumed consumed' rest rest' : List Token}
    (hconsumed : List.Forall₂ (Token.Alike r) consumed consumed')
    (hrest : List.Forall₂ (Token.Alike r) rest rest') (hends : EndsFile rest)
    (hopen : ∀ t ∈ consumed, t.kind ≠ .eof) :
    List.Forall₂ (Token.Alike r) (skipAngles depth consumed rest).1
        (skipAngles depth consumed' rest').1 ∧
      List.Forall₂ (Token.Alike r) (skipAngles depth consumed rest).2
        (skipAngles depth consumed' rest').2 ∧
      EndsFile (skipAngles depth consumed rest).2 ∧
      ∀ t ∈ (skipAngles depth consumed rest).1, t.kind ≠ .eof := by
  induction hrest generalizing depth consumed consumed' with
  | nil => exact absurd rfl hends.ne_nil
  | @cons t u rest rest' htu hrest ih =>
    rw [skipAngles, skipAngles, htu.kind_eq]
    by_cases hstop : depth ≤ 0 ∨ t.kind = .eof
    · rw [if_pos hstop, if_pos hstop]
      exact ⟨hconsumed, .cons htu hrest, hends, hopen⟩
    · rw [if_neg hstop, if_neg hstop]
      have hk : t.kind ≠ .eof := fun h => hstop (.inr h)
      cases angleChange? t.kind with
      | none => exact ⟨hconsumed, .cons htu hrest, hends, hopen⟩
      | some change =>
        exact ih _ (.cons htu hconsumed) (hends.tail hk) (by simpa using ⟨hk, hopen⟩)

theorem skipTypeArguments_track : Tracks r .plain True skipTypeArguments skipTypeArguments := by
  intro c d hs
  refine .ifSkip hs (fun c d hs => ?_) fun _ => .pure hs rfl Iff.rfl
  obtain ⟨hconsumed, hrest, hends, hopen⟩ :=
    skipAngles_similar 1 hs.consumed hs.rest hs.ends hs.open_consumed
  refine ⟨⟨hconsumed, hrest, hs.missing, hends, hopen⟩, rfl,
    .of_takes (pastAngles_takes c) (Nat.le_refl _), fun _ => ?_⟩
  change c.Quiet ∧ True ↔ c.Quiet ∧ True ∧ c.raised = c.raised
  simp

theorem skipLocalModifiers_track (hr : rule.Tracked r) (hs : Similar r c d) :
    Parallel r false .plain True (skipLocalModifiers rule) (skipLocalModifiers rule) c d := by
  refine (Parallel.many (fun _ _ hs => .checkAny _ hs) (fun c₀ c d hrun hs => ?_) hs).bind
    fun _ _ _ c d hs => .answer hs rfl
  refine .ifCheck hs (fun _ => (annotationUse_tracks hr).run hs) fun _ => ?_
  exact identifier_leaf hs (ne_eof_of_mem (Parser.mem_of_checkAny hrun) (by decide))

theorem skipBrackets_track : Tracks r .plain True skipBrackets skipBrackets := fun _ _ hs =>
  (bracketPairs_tracks.run hs).bind fun _ _ _ _ _ hs => .pure hs rfl (by simp)

theorem skipClassName_tracks (hs : Similar r c d) :
    Parallel r false .plain True skipClassName skipClassName c d := by
  refine (qualifiedName_tracks.run hs).bind fun _ _ _ c d hs => ?_
  refine .ifCheck hs (fun _ => ?_) fun _ =>
    .answer hs rfl
  refine (skipTypeArguments_track.run hs).bind fun _ _ _ c d hs => ?_
  refine (Parallel.many (fun _ _ hs => .check2 _ _ hs) (fun c₀ c d hrun hs => ?_) hs).bind
    fun _ _ _ c d hs => .answer hs rfl
  refine .advance_bind hs fun _ _ _ _ => ?_
  have hs := hs.step (ne_eof_of_eq (Parser.kinds_of_check2 hrun).1)
  refine (qualifiedName_tracks.run hs).bind fun inner inner' hinner c d hs => ?_
  refine (skipTypeArguments_track.run hs).bind fun _ _ _ c d hs => ?_
  exact .pure hs hinner (by simp)

theorem startsLocalDeclaration_tracks (hr : rule.Tracked r) :
    Tracks r .plain True (startsLocalDeclaration rule) (startsLocalDeclaration rule) := by
  intro c d hs
  refine .lookahead (P := True) hs ?_
  refine (skipLocalModifiers_track hr hs).bind fun _ _ _ c d hs => ?_
  refine .kindAt_bind hs ?_
  refine .ite (fun _ => .answer hs rfl) fun _ => ?_
  refine .ite (fun _ => .kindAt_bind hs (.answer hs rfl)) fun _ => ?_
  refine .ite (fun _ => ?_) fun _ => .answer hs rfl
  refine (skipClassName_tracks hs).bind fun _ _ _ c d hs => ?_
  refine (skipBrackets_track.run hs).bind fun _ _ _ c d hs => ?_
  exact (Parallel.checkName hs).untallied

theorem variableAndColon_tracks :
    Tracks r .plain True startsEnhancedFor.variableAndColon startsEnhancedFor.variableAndColon := by
  intro c d hs
  refine (Parallel.loop (A := .plain) (fun _ _ _ c d hs => ?_) rfl hs).bind fun _ _ _ c d hs => ?_
  · refine .ifSkip hs (fun c d hs => ?_) fun _ => .pure hs .none (by simp)
    exact (Parallel.skip hs).bind fun _ _ _ _ _ hs => .pure hs (.some rfl) (by simp)
  · refine .ifCheckName hs (fun hname => ?_) (.pure hs rfl (by simp))
    refine (Parallel.advance hs (ne_eof_of_isName hname)).bind fun _ _ _ c d hs => ?_
    exact (Parallel.check _ hs).of_iff (by simp)

theorem startsEnhancedFor_tracks (hr : rule.Tracked r) :
    Tracks r .plain True (startsEnhancedFor rule) (startsEnhancedFor rule) := by
  intro c d hs
  refine .lookahead (P := True) hs ?_
  refine (skipLocalModifiers_track hr hs).bind fun _ _ _ c d hs => ?_
  refine .kindAt_bind hs ?_
  refine .ite (fun hk => ?_) fun _ => .ite (fun _ => ?_) fun _ => .answer hs rfl
  · have hne : (c.tokenAt 0).kind ≠ .eof := by
      intro heof
      rw [heof] at hk
      cases hk
    refine (Parallel.advance hs hne).bind fun _ _ _ c d hs => ?_
    exact (variableAndColon_tracks.run hs).untallied
  · refine (qualifiedName_tracks.run hs).bind fun _ _ _ c d hs => ?_
    refine (skipTypeArguments_track.run hs).bind fun _ _ _ c d hs => ?_
    exact (variableAndColon_tracks.run hs).untallied

theorem startsCast_tracks : Tracks r .plain True startsCast startsCast := by
  intro c d hs
  refine .lookahead (P := True) hs ?_
  refine .ifSkip hs (fun c d hs => ?_) fun _ => .answer hs rfl
  refine .kindAt_bind hs ?_
  refine .ite (fun hprimitive => ?_) fun _ => .ite (fun _ => ?_) fun _ => .answer hs rfl
  · refine (Parallel.advance hs (ne_eof_of_isPrimitive hprimitive)).bind fun _ _ _ c d hs => ?_
    refine (skipBrackets_track.run hs).bind fun _ _ _ c d hs => ?_
    exact (Parallel.check _ hs).untallied
  · refine (qualifiedName_tracks.run hs).bind fun _ _ _ c d hs => ?_
    refine (skipTypeArguments_track.run hs).bind fun _ _ _ c d hs => ?_
    refine (skipBrackets_track.run hs).bind fun _ _ _ c d hs => ?_
    refine (Parallel.many (fun _ _ hs => .skip hs) (fun _ c d _ hs => ?_) hs).bind
      fun _ _ _ c d hs => ?_
    · refine (qualifiedName_tracks.run hs).bind fun bound bound' hbound c d hs => ?_
      refine (skipTypeArguments_track.run hs).bind fun _ _ _ c d hs => ?_
      exact .pure hs hbound (by simp)
    · refine .ifSkip hs (fun c d hs => ?_) fun _ => .answer hs rfl
      exact (Parallel.checkAny _ hs).untallied

/-- Whether an arrow follows depends on kinds of tokens only. -/
theorem arrowAfterClosing_eq (depth : Nat) {tokens tokens' : List Token}
    (h : List.Forall₂ (Token.Alike r) tokens tokens') :
    arrowAfterClosing depth tokens' = arrowAfterClosing depth tokens := by
  induction h generalizing depth with
  | nil => rfl
  | cons htu _ ih =>
    rw [arrowAfterClosing, arrowAfterClosing, htu.kind_eq]
    split
    · rfl
    · split <;> first | rfl | exact ih _

theorem startsLambda_tracks : Tracks r .plain True startsLambda startsLambda := by
  intro c d hs
  refine .checkName_bind hs ?_
  refine .kindAt_bind hs ?_
  refine .ite (fun _ => .pure hs rfl Iff.rfl) fun _ => ?_
  refine .ifCheck hs (fun _ => ?_) fun _ => .pure hs rfl Iff.rfl
  refine .glance (a := c) (b := d) rfl rfl ?_
  exact .pure hs (arrowAfterClosing_eq 1 (List.forall₂_drop 1 hs.rest)).symm Iff.rfl

theorem startsConstructorCall_tracks :
    Tracks r .plain True startsConstructorCall startsConstructorCall := by
  intro c d hs
  refine .lookahead (P := True) hs ?_
  refine (skipTypeArguments_track.run hs).bind fun _ _ _ c d hs => ?_
  refine .ifCheckAny hs (fun hmem => ?_) fun _ => .answer hs rfl
  refine (Parallel.advance hs (ne_eof_of_mem hmem (by decide))).bind fun _ _ _ c d hs => ?_
  exact (Parallel.check _ hs).untallied

end Grammar

end JavaObjC
