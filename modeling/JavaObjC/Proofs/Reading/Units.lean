import JavaObjC.Proofs.Reading.Statements
import JavaObjC.Source.Parse
import JavaObjC.Proofs.Progress.Units

/-!
# Whole sources side by side, and what reading leaves behind

Class members and compilation units track themselves, and with them every
phrase, by induction on how deep phrases may nest. A source is therefore read
alike in any layout, its tree has the shape its kinds ask for, and the problems
met while it is read are accounted for.

Reading a source leaves problems: in the tree, in the list of missing tokens,
and in the trees that were given up on the way. The first main statement says
that these are all, so that a source without a listed problem was read without
meeting one unless a tree that was given up has one. Only the type arguments in
front of a constructor's name are ever given up.

A lookahead leaves nothing behind but what it did to the tokens. The second
main statement says which lookaheads leave them alone, and that the other two
do so exactly if the modifiers they read past hold no compound token that is
split.
-/

namespace JavaObjC

open Cursor

namespace Grammar

variable {r : Pairing} {tallied : Bool} {rule : Rules} {c d : Cursor}

theorem calledConstructor_tracks :
    Tracks r (.nodes r) True calledConstructor calledConstructor := by
  intro c d hs
  refine .kindAt_bind hs ?_
  generalize hk : (c.tokenAt 0).kind = kind
  split
  · refine (Parallel.leaf hs (ne_eof_of_eq hk) (by decide) rfl rfl).bind
      fun word word' hword c d hs => ?_
    exact .pure hs (.cons hword .nil) (by simp)
  · refine (Parallel.leaf hs (ne_eof_of_eq hk) (by decide) rfl rfl).bind
      fun word word' hword c d hs => ?_
    exact .pure hs (.cons hword .nil) (by simp)
  · exact .pure hs .nil (by simp)

theorem constructorCall_tracks (hr : rule.Tracked r) :
    Tracks r (.node r) True (constructorCall rule) (constructorCall rule) := by
  intro c d hs
  refine .here_bind (((optionalTypeArguments_tracks hr).run hs).bind
    fun typed typed' htyped c d hs => ?_)
  refine (calledConstructor_tracks.run hs).bind fun target target' htarget c d hs => ?_
  refine ((arguments_track hr).run hs).bind fun given given' hgiven c d hs => ?_
  refine .need_bind hs fun c d hs => ?_
  exact .finish hs (.append (.append htyped htarget) (.cons hgiven .nil))
    (Node.fits_of_loose (by decide)) (by simp [and_assoc])

theorem constructorBody_tracks (hr : rule.Tracked r) :
    Tracks r (.node r) True (constructorBody rule) (constructorBody rule) := by
  intro c d hs
  refine .here_bind (.need_bind hs fun c d hs => ?_)
  refine (Parallel.optional (startsConstructorCall_tracks.run hs) fun c d _ hs =>
    (constructorCall_tracks hr).run hs).bind fun call call' hcall c d hs => ?_
  refine (Parallel.manyBefore (hr .statement) hs).bind
    fun statements statements' hstatements c d hs => ?_
  refine .need_bind hs fun c d hs => ?_
  exact .finish hs (hcall.append hstatements) (Node.fits_of_loose (by decide)) (by simp)

theorem constructorBody_kind (rule : Rules) (c : Cursor) :
    ((constructorBody rule).run c).1.kind = .block := by
  unfold constructorBody
  refine kind_of_bind (fun _ => ?_) c
  refine kind_of_bind fun _ => kind_of_bind fun _ => kind_of_bind fun _ => kind_of_bind fun _ => ?_
  exact finish_kind _ _

theorem throwsList_tracks (hr : rule.Tracked r) :
    Tracks r (.node r) True (throwsList rule) (throwsList rule) := by
  intro c d hs
  refine .here_bind (.need_bind hs fun c d hs => ?_)
  refine ((typeList_tracks hr).run hs).bind fun types types' htypes c d hs => ?_
  exact .finish hs htypes (Node.fits_of_loose (by decide)) (by simp)

/-- Declared exceptions if there are any. -/
theorem optionalThrows_track (hr : rule.Tracked r) :
    Tracks r (.nodes r) True (Parser.optional (Parser.check Keyword.throwsKw) (throwsList rule))
      (Parser.optional (Parser.check Keyword.throwsKw) (throwsList rule)) := fun _ _ hs =>
  .optional (.check _ hs) fun _ _ _ hs => (throwsList_tracks hr).run hs

variable {marks marks' declared declared' : Node} {generics generics' : List Node}

theorem constructorDecl_tracks (hr : rule.Tracked r) (hmarks : Node.Alike r marks marks')
    (hgenerics : Node.AlikeAll r generics generics') :
    Tracks r (.node r) (marks.Clean ∧ Node.CleanAll generics)
      (constructorDecl rule marks generics) (constructorDecl rule marks' generics') := by
  intro c d hs
  refine .here_bind ((Parallel.name hs).bind fun label label' hlabel c d hs => ?_)
  refine ((parameters_track hr).run hs).bind fun given given' hgiven c d hs => ?_
  refine ((optionalThrows_track hr).run hs).bind fun thrown thrown' hthrown c d hs => ?_
  refine ((constructorBody_tracks hr).run hs).bind_run
    (R := (((marks.Clean ∧ Node.CleanAll generics) ∧ Node.CleanAll label) ∧ given.Clean) ∧
      Node.CleanAll thrown) (fun body body' c' d' hrun hbody hs => ?_) (by simp)
  have hblock := constructorBody_kind rule c
  rw [hrun] at hblock
  refine .finish hs (.append (.append (.append (.cons hmarks hgenerics) hlabel)
    (.cons hgiven hthrown)) (.cons hbody .nil)) ?_ (by simp [and_assoc])
  refine Node.fits_of_parts (by decide) (by simp [NodeKind.leastChildren]) ?_
  simp only [NodeKind.requiredParts, List.forall_mem_singleton]
  exact ⟨body, by simp, hblock⟩

theorem skipResultBrackets_track :
    Tracks r .plain True skipResultBrackets skipResultBrackets := by
  intro c d hs
  refine Parallel.loop (A := .plain) (fun _ _ _ c d hs => ?_) rfl hs
  refine .ifSkip hs (fun c d hs => ?_) fun _ => .pure hs .none (by simp)
  exact .need_bind hs fun c d hs => .pure hs (.some rfl) (by simp)

theorem methodEnd_tracks (hr : rule.Tracked r) :
    Tracks r (.nodes r) True (methodEnd rule) (methodEnd rule) := by
  intro c d hs
  refine .ifCheck hs (fun _ => ?_) fun _ => ?_
  · refine ((block_tracks hr).run hs).bind fun body body' hbody c d hs => ?_
    exact .pure hs (.cons hbody .nil) (by simp)
  refine .ifSkip hs (fun c d hs => ?_) fun _ => ?_
  · refine ((annotationValue_tracks hr).run hs).bind fun value value' hvalue c d hs => ?_
    exact .need_bind hs fun c d hs => .pure hs (.cons hvalue .nil) (by simp)
  · exact .need_bind hs fun c d hs => .pure hs .nil (by simp)

theorem methodDecl_tracks (hr : rule.Tracked r) (hmarks : Node.Alike r marks marks')
    (hgenerics : Node.AlikeAll r generics generics') (hdeclared : Node.Alike r declared declared') :
    Tracks r (.node r) ((marks.Clean ∧ Node.CleanAll generics) ∧ declared.Clean)
      (methodDecl rule marks generics declared) (methodDecl rule marks' generics' declared') := by
  intro c d hs
  refine .here_bind ((Parallel.name hs).bind fun label label' hlabel c d hs => ?_)
  refine ((parameters_track hr).run hs).bind fun given given' hgiven c d hs => ?_
  refine (skipResultBrackets_track.run hs).bind fun _ _ _ c d hs => ?_
  refine ((optionalThrows_track hr).run hs).bind fun thrown thrown' hthrown c d hs => ?_
  refine ((methodEnd_tracks hr).run hs).bind fun body body' hbody c d hs => ?_
  exact .finish hs (.append (.append (.append (.cons hmarks hgenerics)
    (.cons hdeclared hlabel)) (.cons hgiven hthrown)) hbody) (Node.fits_of_loose (by decide))
    (by simp [and_assoc])

theorem fieldDecl_tracks (hr : rule.Tracked r) (hmarks : Node.Alike r marks marks')
    (hdeclared : Node.Alike r declared declared') :
    Tracks r (.node r) (marks.Clean ∧ declared.Clean) (fieldDecl rule marks declared)
      (fieldDecl rule marks' declared') := by
  intro c d hs
  refine .here_bind (((declarators_track hr).run hs).bind fun a a' ha c d hs => ?_)
  obtain ⟨nodes, depth⟩ := a
  obtain ⟨nodes', depth'⟩ := a'
  obtain ⟨hnodes, hdepth⟩ := ha
  cases hdepth
  refine .need_bind hs fun c d hs => ?_
  exact .finish hs (.cons hmarks (.cons (inArrays_alike _ hdeclared) hnodes))
    (Node.fits_of_length (by decide) (by simp [NodeKind.leastChildren]))
    (by simp [inArrays_clean, and_assoc])

theorem typedMember_tracks (hr : rule.Tracked r) (hmarks : Node.Alike r marks marks')
    (hgenerics : Node.AlikeAll r generics generics') :
    Tracks r (.node r) (marks.Clean ∧ Node.CleanAll generics) (typedMember rule marks generics)
      (typedMember rule marks' generics') := by
  intro c d hs
  refine .checkName_bind hs (.kindAt_bind hs ?_)
  refine .ite (fun _ => (constructorDecl_tracks hr hmarks hgenerics).run hs) fun _ => ?_
  refine ((type_tracks hr).run hs).bind fun declared declared' hdeclared c d hs => ?_
  rw [hdeclared.kind_eq]
  by_cases hkind : declared.kind = .error
  · -- The modifiers are dropped here, but the type that stands for the member reports a problem.
    rw [if_pos hkind, if_pos hkind]
    exact .pure hs hdeclared (by simp [hdeclared.not_clean hkind])
  rw [if_neg hkind, if_neg hkind]
  refine .checkName_bind hs (.kindAt_bind hs ?_)
  refine .ite (fun _ => ?_) fun _ => ?_
  · exact ((methodDecl_tracks hr hmarks hgenerics hdeclared).run hs).of_iff (by simp)
  have hempty : generics'.isEmpty = generics.isEmpty := by cases hgenerics <;> rfl
  refine .checkName_bind hs ?_
  rw [hempty]
  refine .ite (fun hfield => ?_) fun _ => .problem _ _ _ hs
  rw [Bool.and_eq_true, List.isEmpty_iff] at hfield
  exact ((fieldDecl_tracks hr hmarks hdeclared).run hs).of_iff (by simp [hfield.2])

theorem staticInitializer_tracks (hr : rule.Tracked r) (hs : Similar r c d)
    (hk : (c.tokenAt 0).kind ≠ .eof) :
    Parallel r tallied (.node r) True (staticInitializer rule) (staticInitializer rule) c d := by
  refine .here_bind ?_
  refine (identifier_leaf hs hk).bind fun word word' hword c d hs => ?_
  refine ((block_tracks hr).run hs).bind fun body body' hbody c d hs => ?_
  exact .finish hs (.cons hword (.cons hbody .nil)) (Node.fits_of_loose (by decide)) (by simp)

theorem member_tracks (hr : rule.Tracked r) :
    Tracks r (.node r) True (member rule) (member rule) := by
  intro c d hs
  refine .ifCheck hs (fun _ => (block_tracks hr).run hs) fun _ => ?_
  refine .ifCheck2 hs (fun h₀ _ => ?_) ?_
  · exact staticInitializer_tracks hr hs (ne_eof_of_eq h₀)
  refine .ifCheck hs (fun hk => emptyStmt_tracks hs (ne_eof_of_eq hk)) fun _ => ?_
  refine ((modifiers_tracks hr).run hs).bind fun marks marks' hmarks c d hs => ?_
  refine ((typeDecl_tracks hr hmarks).run hs).bind_from (R := True) (by simp)
    fun o o' ho c d hs => ?_
  cases ho with
  | some hn => exact .pure hs hn (by simp)
  | none =>
    refine ((optionalTypeParameters_track hr).run hs).bind
      fun generics generics' hgenerics c d hs => ?_
    exact ((typedMember_tracks hr hmarks hgenerics).run hs).of_iff (by simp)

theorem packageDecl_tracks : Tracks r (.node r) True packageDecl packageDecl := by
  intro c d hs
  refine .here_bind (.need_bind hs fun c d hs => ?_)
  refine (qualifiedName_tracks.run hs).bind fun target target' htarget c d hs => ?_
  refine .need_bind hs fun c d hs => ?_
  exact .finish hs (.cons htarget .nil) (Node.fits_of_loose (by decide)) (by simp)

theorem importStar_tracks : Tracks r (.nodes r) True importStar importStar := by
  intro c d hs
  refine .ifSkip hs (fun c d hs => ?_) fun _ => .pure hs .nil (by simp)
  refine (Parallel.expect hs).bind_run (R := True) (fun o o' c d hrun ho hs => ?_)
    (by simp)
  cases ho with
  | none => exact .pure hs .nil (by simp)
  | some htu =>
    have hkind := ne_eof_of_eq (Parser.kind_of_expect hrun)
    exact .pure hs (.cons (Node.alike_ofToken (by decide) rfl rfl hkind htu) .nil)
      (by simp [Node.clean_ofToken])

theorem importDecl_tracks : Tracks r (.node r) True importDecl importDecl := by
  intro c d hs
  refine .here_bind (.need_bind hs fun c d hs => ?_)
  refine (Parallel.optional (.check _ hs) fun c d hrun hs => identifier_leaf hs
    (ne_eof_of_eq (Parser.kind_of_check hrun))).bind
    fun static static' hstatic c d hs => ?_
  refine (qualifiedName_tracks.run hs).bind fun target target' htarget c d hs => ?_
  refine (importStar_tracks.run hs).bind fun star star' hstar c d hs => ?_
  refine .need_bind hs fun c d hs => ?_
  exact .finish hs (.append hstatic (.cons htarget hstar)) (Node.fits_of_loose (by decide))
    (by simp [and_assoc])

theorem topLevelDecl_tracks (hr : rule.Tracked r) :
    Tracks r (.node r) True (topLevelDecl rule) (topLevelDecl rule) := by
  intro c d hs
  refine ((modifiers_tracks hr).run hs).bind fun marks marks' hmarks c d hs => ?_
  refine ((typeDecl_tracks hr hmarks).run hs).bind_from (R := True) (by simp)
    fun o o' ho c d hs => ?_
  cases ho with
  | some hn => exact .pure hs hn (by simp)
  | none =>
    have hempty : marks'.children.isEmpty = marks.children.isEmpty := by
      rw [← List.isEmpty_map (f := Node.erase), ← hmarks.map_erase_children, List.isEmpty_map]
    simp only [hempty]
    exact .ite (fun _ => .problem _ _ _ hs) fun _ => .problem _ _ _ hs

theorem compilationUnit_tracks (hr : rule.Tracked r) :
    Tracks r (.node r) True (compilationUnit rule) (compilationUnit rule) := by
  intro c d hs
  refine .here_bind ?_
  refine (Parallel.optional (.check _ hs) fun c d _ hs => packageDecl_tracks.run hs).bind
    fun package package' hpackage c d hs => ?_
  refine (Parallel.many (fun _ _ hs => .check _ hs) (fun _ c d _ hs => importDecl_tracks.run hs)
    hs).bind fun imports imports' himports c d hs => ?_
  refine (Parallel.loop (A := .nodes r) (fun types types' htypes c d hs => ?_) .nil hs).bind_from
    (R := Node.CleanAll package ∧ Node.CleanAll imports) (by simp)
    fun types types' htypes c d hs => ?_
  · refine .ifCheck hs (fun _ => .pure hs .none (by simp)) fun _ => ?_
    refine .ifSkip hs (fun c d hs => .pure hs (.some htypes) (by simp)) fun _ => ?_
    refine ((topLevelDecl_tracks hr).run hs).bind fun n n' hn c d hs => ?_
    exact .pure hs (.some (htypes.append (.cons hn .nil))) (by simp)
  · exact .finish hs (.append (.append hpackage himports) htypes) (Node.fits_of_loose (by decide))
      (by simp [and_assoc])

/-- Every phrase tracks itself, however deep phrases may nest. -/
theorem parse_tracked (r : Pairing) (fuel : Nat) : (parse fuel).Tracked r := by
  induction fuel with
  | zero =>
    intro phrase c d hs
    exact .problem _ _ _ hs
  | succ fuel ih =>
    intro phrase
    cases phrase with
    | expression => exact expression_tracks ih
    | ternary => exact ternary_tracks ih
    | unary => exact unary_tracks ih
    | initializer => exact initializer_tracks ih
    | type => exact type_tracks ih
    | annotationValue => exact annotationValue_tracks ih
    | statement => exact statement_tracks ih
    | member => exact member_tracks ih

end Grammar

/-- Whole sources track themselves. -/
theorem Entry.parser_tracks (r : Pairing) (entry : Entry) (size : Nat) :
    Tracks r (.node r) True (entry.parser size) (entry.parser size) := by
  cases entry with
  | compilationUnit => exact Grammar.compilationUnit_tracks (Grammar.parse_tracked r size)
  | expression => exact Grammar.expression_tracks (Grammar.parse_tracked r size)

/-- A source has no problem in its list exactly if its tree is clean and no token is
missing. -/
theorem Parsed.problems_eq_nil_iff (entry : Entry) (source : Text) :
    (Parsed.ofSource entry source).problems = [] ↔
      (entry.read source).1.Clean ∧ (entry.read source).2.missing = [] := by
  rw [← List.length_eq_zero_iff, Parsed.problems, List.length_mergeSort, List.length_eq_zero_iff,
    List.append_eq_nil_iff]
  exact and_congr_right fun _ => List.reverse_eq_nil_iff

/-- A source is read without meeting a problem exactly if its tree, the list of missing tokens
and the trees that were given up hold none. -/
theorem Entry.read_quiet_iff (entry : Entry) (source : Text) :
    (entry.read source).2.Quiet ∧ (entry.read source).1.Clean ↔
      (entry.read source).2.raised = 0 := by
  have hfront := quiet_ofTokens (Lexeme.tokens source)
  have hread := Entry.parser_tracks Pairing.same entry (Lexeme.significant source).length
    _ _ (similar_same source)
  have hbalance : (entry.read source).2.Quiet ∧ (entry.read source).1.Clean ↔
      (ofTokens (Lexeme.tokens source)).Quiet ∧ True ∧ (entry.read source).2.raised = 0 :=
    hread.balance rfl
  exact hbalance.trans ⟨fun h => h.2.2, fun h => ⟨hfront, trivial, h⟩⟩

theorem Parsed.problems_eq_nil_of_raised {entry : Entry} {source : Text}
    (h : (entry.read source).2.raised = 0) : (Parsed.ofSource entry source).problems = [] := by
  obtain ⟨⟨hmissing, -⟩, hclean⟩ := (entry.read_quiet_iff source).2 h
  exact (Parsed.problems_eq_nil_iff entry source).2 ⟨hclean, hmissing⟩

/-- A source is read without meeting a problem exactly if it has no problem in its
list and no tree that was given up has one. -/
theorem raised_eq_zero_iff (entry : Entry) (source : Text) :
    (entry.read source).2.raised = 0 ↔
      (Parsed.ofSource entry source).problems = [] ∧
        Node.CleanAll (entry.read source).2.discarded := by
  rw [Parsed.problems_eq_nil_iff, ← entry.read_quiet_iff]
  constructor
  · rintro ⟨⟨hmissing, hdiscarded⟩, hclean⟩
    exact ⟨⟨hclean, hmissing⟩, hdiscarded⟩
  · rintro ⟨⟨hclean, hmissing⟩, hdiscarded⟩
    exact ⟨⟨hmissing, hdiscarded⟩, hclean⟩

/-- A class that calls a constructor with a misplaced sign in its type arguments. -/
def discardingSource : Text :=
  "class A \x7b Object f() \x7b return new <@B(+)) String>Foo(); \x7d \x7d"

/-- Type arguments in front of a constructor's name can hold a problem that is not listed. -/
theorem problem_in_discarded_type_arguments :
    (Entry.compilationUnit.read discardingSource).2.raised = 1 ∧
      (Parsed.ofSource .compilationUnit discardingSource).problems.length = 0 := by
  decide +kernel

namespace Cursor

/-- All tokens of a source, whatever side of the cursor they are on. -/
def tokens (c : Cursor) : List Token := c.consumed.reverse ++ c.rest

/-- A cursor where the parse of a source can be: its tokens are genuine, and the
end of file is ahead and nowhere else. -/
def Sound (c : Cursor) : Prop := Similar Pairing.same c c

/-- The front of every source is sound. -/
theorem sound_ofTokens (source : Text) : (ofTokens (Lexeme.tokens source)).Sound :=
  similar_same source

/-- Every phrase that is read from a sound cursor ends at one. -/
theorem Sound.parse {c : Cursor} (hc : c.Sound) (fuel : Nat) (phrase : Grammar.Phrase) :
    ((Grammar.parse fuel phrase).run c).2.Sound :=
  (Grammar.parse_tracked Pairing.same fuel phrase c c hc).similar

/-- A sound cursor is inside the region of all places. -/
theorem Sound.within {c : Cursor} (hc : c.Sound) : c.Within .everywhere :=
  ⟨fun _ _ => trivial, fun _ _ => trivial, fun _ _ => ⟨trivial, trivial⟩,
    fun _ _ _ _ => ⟨⟨trivial, trivial⟩, fun _ _ _ => trivial⟩, hc.ends, hc.open_consumed⟩

end Cursor

namespace Grammar

/-- A lookahead that reads a phrase and then scans leaves the tokens as reading the
phrase does, and nothing else. -/
theorem lookahead_bind {α : Type} {p : Parser α} {f : α → Parser Bool} {c : Cursor}
    (hp : c.Reads (p.run c).2) (hmissteps : (p.run c).2.missteps = c.missteps)
    (hf : ∀ a, Scans (f a)) :
    ∃ rest, List.Forall₂ Token.Trims c.rest rest ∧
      ((Parser.lookahead (p >>= f)).run c).2 = { c with rest } ∧
      (p.run c).2.tokens = c.consumed.reverse ++ rest := by
  obtain ⟨taken, htaken, hrest⟩ := hp.moves
  have hscans := (hf (p.run c).1 (p.run c).2).takes
  obtain ⟨more, hmore, hrest'⟩ := hscans.moves
  have hconsumed : ((p >>= f).run c).2.consumed = (taken ++ more).reverse ++ c.consumed := by
    rw [List.reverse_append, List.append_assoc, ← htaken]
    exact hmore
  refine ⟨taken ++ (p.run c).2.rest, hrest, ?_, ?_⟩
  · have hback := goBack_eq hconsumed (hp.missing.trans hscans.missing)
    have hsame : ((p >>= f).run c).2.missteps = c.missteps := hscans.missteps_eq.trans hmissteps
    rw [hsame, List.append_assoc] at hback
    rw [hrest']
    exact hback
  · rw [Cursor.tokens, htaken, List.reverse_append, List.reverse_reverse, List.append_assoc]

/-- What a lookahead over modifiers leaves behind: tokens ahead may have lost marks
from their fronts, and they have unless reading the modifiers leaves all tokens alone. -/
structure Trimmed (rule : Rules) (c c' : Cursor) : Prop where
  only_rest : ∃ rest, List.Forall₂ Token.Trims c.rest rest ∧ c' = { c with rest }
  eq_iff : c' = c ↔ ((skipLocalModifiers rule).run c).2.tokens = c.tokens

/-- A lookahead that scans after the modifiers. -/
theorem lookahead_trimmed {fuel : Nat} {c : Cursor} {f : Unit → Parser Bool} (hc : c.Sound)
    (hf : ∀ a, Scans (f a)) :
    Trimmed (parse fuel) c
      ((Parser.lookahead (skipLocalModifiers (parse fuel) >>= f)).run c).2 := by
  have hmodifiers := skipLocalModifiers_proceeds (parse_agree fuel c.rest.length) hc.within
    (Nat.le_succ _)
  obtain ⟨rest, hrest, hback, htokens⟩ :=
    lookahead_bind hmodifiers.leads.reads hmodifiers.leads.missteps_eq hf
  refine ⟨⟨rest, hrest, hback⟩, ?_⟩
  rw [hback, htokens, Cursor.tokens, List.append_right_inj]
  constructor
  · intro heq
    exact congrArg Cursor.rest heq
  · rintro rfl
    rfl

theorem startsLocalDeclaration_trimmed {fuel : Nat} {c : Cursor} (hc : c.Sound) :
    Trimmed (parse fuel) c ((startsLocalDeclaration (parse fuel)).run c).2 := by
  refine lookahead_trimmed hc fun _ => .bind (.kindAt _) fun _ => ?_
  refine .ite (.pure _) (.ite (.bind (.kindAt _) fun _ => .pure _) (.ite ?_ (.pure _)))
  exact .bind skipClassName_scans fun _ => .bind skipBrackets_scans fun _ => .checkName

theorem startsEnhancedFor_trimmed {fuel : Nat} {c : Cursor} (hc : c.Sound) :
    Trimmed (parse fuel) c ((startsEnhancedFor (parse fuel)).run c).2 := by
  refine lookahead_trimmed hc fun _ c => .glance rfl (.ite (fun hk => ?_) fun _ =>
    .ite (fun _ => ?_) fun _ => .pure trivial)
  · have hne : (c.tokenAt 0).kind ≠ .eof := by
      intro heof
      rw [heof] at hk
      cases hk
    exact (ScansFrom.advance hne).bind fun _ c _ _ => variableAndColon_scans c
  · refine (qualifiedName_scans c).bind fun _ c _ _ => ?_
    exact (skipTypeArguments_scans c).bind fun _ c _ _ => variableAndColon_scans c

/-- What the lookaheads leave behind at a cursor of a parse; reading a phrase there leads to
another such cursor. Those for casts, lambdas, constructor calls and array classes that are
not there leave nothing. Those for declarations and enhanced loops leave the place and all
problems as they were; they leave the tokens as they were exactly if reading the modifiers
ahead does. -/
theorem lookaheads_leave (fuel : Nat) (c : Cursor) (hc : c.Sound) :
    (∀ phrase, ((parse fuel phrase).run c).2.Sound) ∧
      (startsCast.run c).2 = c ∧ (startsLambda.run c).2 = c ∧
      (startsConstructorCall.run c).2 = c ∧
      (∀ element, ((arrayClassLiteral? element).run c).1 = none →
        ((arrayClassLiteral? element).run c).2 = c) ∧
      Trimmed (parse fuel) c ((startsLocalDeclaration (parse fuel)).run c).2 ∧
      Trimmed (parse fuel) c ((startsEnhancedFor (parse fuel)).run c).2 := by
  exact ⟨hc.parse fuel, startsCast_stays c, startsLambda_stays c, startsConstructorCall_stays c,
    fun _ => arrayClassLiteral_stays, startsLocalDeclaration_trimmed hc,
    startsEnhancedFor_trimmed hc⟩

/-- An annotation whose cast has nested type arguments, in front of a declaration. -/
def annotatedSource : Text := "@B((List<List<String>>) x) int y = 1;"

/-- The lookahead in front of the annotated declaration leaves the two marks that close the
type arguments as one. -/
theorem lookahead_splits_tokens :
    (ofTokens (Lexeme.tokens annotatedSource)).Sound ∧
      ((startsLocalDeclaration (parse 19)).run (ofTokens (Lexeme.tokens annotatedSource))).2 ≠
        ofTokens (Lexeme.tokens annotatedSource) := by
  have hsound := sound_ofTokens annotatedSource
  obtain ⟨-, -, -, -, -, hdeclaration, -⟩ := lookaheads_leave 19 _ hsound
  refine ⟨hsound, fun heq => ?_⟩
  have htokens := congrArg (List.map Token.literal) (hdeclaration.eq_iff.1 heq)
  exact absurd htokens (by decide +kernel)

end Grammar

end JavaObjC
