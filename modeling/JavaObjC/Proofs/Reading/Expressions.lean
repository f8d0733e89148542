import JavaObjC.Proofs.Reading.Phrases
import JavaObjC.Source.Grammar.Expressions

/-!
# Expressions side by side

Operators, suffixes, creations and lambdas track themselves. Operands that are
already read when a production starts are part of its account: a suffix or an
operator keeps them in the tree it builds.
-/

namespace JavaObjC

open Cursor

namespace Grammar

variable {r : Pairing} {tallied : Bool} {rule : Rules} {c d : Cursor}

theorem lambdaParameter_tracks (hr : rule.Tracked r) :
    Tracks r (.node r) True (lambdaParameter rule) (lambdaParameter rule) := by
  intro c d hs
  refine .kindAt_bind hs ?_
  refine .checkName_bind hs ?_
  refine .ite (fun h => ?_) fun _ => (parameter_tracks hr).run hs
  rw [Bool.and_eq_true] at h
  exact identifier_leaf hs (ne_eof_of_isName h.1)

theorem lambdaHead_tracks (hr : rule.Tracked r) :
    Tracks r (.node r) True (lambdaHead rule) (lambdaHead rule) := by
  intro c d hs
  refine .here_bind ?_
  refine .ifCheckName hs (fun hname => ?_) ?_
  · refine (identifier_leaf hs (ne_eof_of_isName hname)).bind fun only only' honly c d hs => ?_
    exact .finish hs (.cons honly .nil) (Node.fits_of_loose (by decide)) (by simp)
  · refine .need_bind hs fun c d hs => ?_
    refine (Parallel.commaListBefore (lambdaParameter_tracks hr) hs).bind
      fun items items' hitems c d hs => ?_
    refine .need_bind hs fun c d hs => ?_
    exact .finish hs hitems (Node.fits_of_loose (by decide)) (by simp)

theorem lambdaBody_tracks (hr : rule.Tracked r) :
    Tracks r (.node r) True (lambdaBody rule) (lambdaBody rule) := fun _ _ hs =>
  .ifCheck hs (fun _ => (block_tracks hr).run hs) fun _ => (hr .expression).run hs

theorem lambda_tracks (hr : rule.Tracked r) :
    Tracks r (.node r) True (lambda rule) (lambda rule) := by
  intro c d hs
  refine .here_bind (((lambdaHead_tracks hr).run hs).bind fun head head' hhead c d hs => ?_)
  refine .need_bind hs fun c d hs => ?_
  refine ((lambdaBody_tracks hr).run hs).bind fun body body' hbody c d hs => ?_
  exact .finish hs (.cons hhead (.cons hbody .nil)) (Node.fits_of_loose (by decide)) (by simp)

theorem lambdaOr_tracks (hr : rule.Tracked r) {other : Parser Node}
    (hother : Tracks r (.node r) True other other) :
    Tracks r (.node r) True (lambdaOr rule other) (lambdaOr rule other) := by
  intro c d hs
  refine (startsLambda_tracks.run hs).bind fun b b' hb c d hs => ?_
  cases hb
  refine .ite (fun _ => ((lambda_tracks hr).run hs).of_iff (by simp)) fun _ => ?_
  exact (hother.run hs).of_iff (by simp)

/-- The number of dimensions, and their lengths. -/
theorem dimensions_track (hr : rule.Tracked r) :
    Tracks r (.pair .plain (.nodes r)) True (dimensions rule) (dimensions rule) := by
  intro c d hs
  have hstart : (Aspect.pair .plain (.nodes r)).alike ((0 : Nat), ([] : List Node)) (0, []) :=
    ⟨rfl, .nil⟩
  refine (Parallel.loop (fun a a' ha c d hs => ?_) hstart hs).of_iff (by simp)
  obtain ⟨count, lengths⟩ := a
  obtain ⟨count', lengths'⟩ := a'
  obtain ⟨hcount, hlengths⟩ := ha
  cases hcount
  refine .ifSkip hs (fun c d hs => ?_) fun _ => .pure hs .none (by simp)
  refine (Parallel.optional (.checkNot _ hs) fun c d _ hs => (hr .expression).run hs).bind
    fun length length' hlength c d hs => ?_
  refine .need_bind hs fun c d hs => ?_
  exact .pure hs (.some ⟨rfl, hlengths.append hlength⟩) (by simp)

theorem dropTypeArguments_tracks (hr : rule.Tracked r) :
    Tracks r .plain True (dropTypeArguments rule) (dropTypeArguments rule) := by
  intro c d hs
  refine .ifCheck hs (fun _ => ?_) fun _ => .pure hs rfl Iff.rfl
  refine ((typeArguments_tracks hr).run hs).bind fun n n' hn c d hs => ?_
  exact (Parallel.discard hs).of_iff (by simp)

/-- An array creation fits its kind whatever number it is marked with. -/
theorem fits_newArray {count : Nat} {created : Node} {more : List Node} (s : Span) :
    Node.Fits ⟨.newArrayExpr, s, some ⟨.intLiteral, {}, Text.ofNat count⟩, none,
      created :: more⟩ where
  problem_isSome := nofun
  least := by simp [NodeKind.leastChildren]
  required := by simp [NodeKind.requiredParts]
  operator := nofun
  digits := by
    rintro t ht hk
    cases ht
    cases hk

/-- What follows the type of a creation keeps the type. -/
theorem creation_tracks (hr : rule.Tracked r) {start start' : Position} {created created' : Node}
    (h : Node.Alike r created created') :
    Tracks r (.node r) created.Clean (creation rule start created)
      (creation rule start' created') := by
  intro c d hs
  refine .ifCheck hs (fun _ => ?_) fun _ => ?_
  · refine ((dimensions_track hr).run hs).bind fun a a' ha c d hs => ?_
    obtain ⟨count, lengths⟩ := a
    obtain ⟨count', lengths'⟩ := a'
    obtain ⟨hcount, hlengths⟩ := ha
    cases hcount
    refine (Parallel.optional (.check _ hs) fun c d _ hs =>
      (arrayInitializer_tracks hr).run hs).bind fun values values' hvalues c d hs => ?_
    exact .finishWith hs rfl (.append (.cons h hlengths) hvalues) fits_newArray
      (fun _ => ⟨nofun, nofun⟩) (by simp [and_assoc])
  · refine ((arguments_track hr).run hs).bind fun given given' hgiven c d hs => ?_
    refine (Parallel.optional (.check _ hs) fun c d _ hs => (classBody_tracks hr).run hs).bind
      fun body body' hbody c d hs => ?_
    exact .finish hs (.cons h (.cons hgiven hbody))
      (Node.fits_of_length (by decide) (by simp [NodeKind.leastChildren])) (by simp [and_assoc])

theorem newExpr_tracks (hr : rule.Tracked r) :
    Tracks r (.node r) True (newExpr rule) (newExpr rule) := by
  intro c d hs
  refine .here_bind (.need_bind hs fun c d hs => ?_)
  refine ((dropTypeArguments_tracks hr).run hs).bind fun _ _ _ c d hs => ?_
  refine .here_bind (.kindAt_bind hs ?_)
  refine .ite (fun hprimitive => ?_) fun _ => .ite (fun _ => ?_) fun _ => .problem _ _ _ hs
  · refine (identifier_leaf hs (ne_eof_of_isPrimitive hprimitive)).bind
      fun word word' hword c d hs => ?_
    refine (Parallel.finish hs (.cons hword .nil) (Node.fits_of_loose (by decide))
      Iff.rfl).bind_from (R := True) (by simp) fun n n' hn c d hs => ?_
    exact ((creation_tracks hr hn).run hs).of_iff (by simp)
  · refine (qualifiedName_tracks.run hs).bind fun target target' htarget c d hs => ?_
    refine ((optionalTypeArguments_tracks hr).run hs).bind fun given given' hgiven c d hs => ?_
    refine (Parallel.finish hs (.cons htarget hgiven) (Node.fits_of_loose (by decide))
      Iff.rfl).bind_from (R := True) (by simp) fun n n' hn c d hs => ?_
    exact ((creation_tracks hr hn).run hs).of_iff (by simp)

/-- Class members in braces if there are any. -/
theorem optionalBody_tracks (hr : rule.Tracked r) :
    Tracks r (.nodes r) True (Parser.optional (Parser.check Symbol.lbrace) (classBody rule))
      (Parser.optional (Parser.check Symbol.lbrace) (classBody rule)) := fun _ _ hs =>
  .optional (.check _ hs) fun _ _ _ hs => (classBody_tracks hr).run hs

theorem innerNewExpr_tracks (hr : rule.Tracked r) {outer outer' : Node}
    (h : Node.Alike r outer outer') :
    Tracks r (.node r) outer.Clean (innerNewExpr rule outer) (innerNewExpr rule outer') := by
  intro c d hs
  refine .need_bind hs fun c d hs => ?_
  refine ((dropTypeArguments_tracks hr).run hs).bind fun _ _ _ c d hs => ?_
  refine (Parallel.name hs).bind fun label label' hlabel c d hs => ?_
  refine ((optionalTypeArguments_tracks hr).run hs).bind fun typed typed' htyped c d hs => ?_
  refine ((arguments_track hr).run hs).bind fun given given' hgiven c d hs => ?_
  refine ((optionalBody_tracks hr).run hs).bind fun body body' hbody c d hs => ?_
  exact .finish hs (.append (.append (.cons h hlabel) htyped) (.cons hgiven hbody))
    (Node.fits_of_length (by decide) (by simp [NodeKind.leastChildren])) (by simp [and_assoc])

theorem primitiveClassLiteral_tracks (hs : Similar r c d) (hk : (c.tokenAt 0).kind ≠ .eof) :
    Parallel r tallied (.node r) True primitiveClassLiteral primitiveClassLiteral c d := by
  refine .here_bind ?_
  refine (identifier_leaf hs hk).bind fun word word' hword c d hs => ?_
  refine (Parallel.finish hs (.cons hword .nil) (Node.fits_of_loose (by decide))
    Iff.rfl).bind_from (R := True) (by simp) fun element element' helement c d hs => ?_
  refine (Parallel.loop (A := .node r) (fun inner inner' hinner c d hs => ?_) helement hs).bind_from
    (R := True) (by simp) fun target target' htarget c d hs => ?_
  · refine .ifSkip hs (fun c d hs => ?_) fun _ => .pure hs .none (by simp)
    refine .need_bind hs fun c d hs => ?_
    exact .some_of (.finish hs (.cons hinner .nil) (Node.fits_of_loose (by decide)) (by simp))
  · refine .need_bind hs fun c d hs => ?_
    refine .need_bind hs fun c d hs => ?_
    exact .finish hs (.cons htarget .nil)
      (Node.fits_of_length (by decide) (by simp [NodeKind.leastChildren])) (by simp)

theorem parenExpr_tracks (hr : rule.Tracked r) :
    Tracks r (.node r) True (parenExpr rule) (parenExpr rule) := by
  intro c d hs
  refine .here_bind (.need_bind hs fun c d hs => ?_)
  refine ((hr .expression).run hs).bind fun inner inner' hinner c d hs => ?_
  refine .need_bind hs fun c d hs => ?_
  exact .finish hs (.cons hinner .nil)
    (Node.fits_of_length (by decide) (by simp [NodeKind.leastChildren])) (by simp)

theorem primary_tracks (hr : rule.Tracked r) :
    Tracks r (.node r) True (primary rule) (primary rule) := by
  intro c d hs
  refine .kindAt_bind hs ?_
  refine .ite (fun h => ?_) fun _ => ?_
  · rw [List.contains_iff_mem] at h
    exact .leaf hs (ne_eof_of_mem h (by decide)) (by decide) rfl rfl
  refine .ite (fun h => ?_) fun _ => ?_
  · exact .leaf hs (ne_eof_of_eq (eq_of_beq h)) (by decide) rfl rfl
  refine .ite (fun h => ?_) fun _ => ?_
  · exact .leaf hs (ne_eof_of_eq (eq_of_beq h)) (by decide) rfl rfl
  refine .ite (fun _ => (newExpr_tracks hr).run hs) fun _ => ?_
  refine .ite (fun _ => (parenExpr_tracks hr).run hs) fun _ => ?_
  refine .ite (fun h => ?_) fun _ => ?_
  · refine primitiveClassLiteral_tracks hs ?_
    intro heof
    rw [heof] at h
    cases h
  exact .ite (fun hname => identifier_leaf hs (ne_eof_of_isName hname))
    fun _ => .problem _ _ _ hs

theorem callExpr_tracks (hr : rule.Tracked r) {target target' : Node}
    (h : Node.Alike r target target') :
    Tracks r (.node r) target.Clean (callExpr rule target) (callExpr rule target') := by
  intro c d hs
  refine ((arguments_track hr).run hs).bind fun given given' hgiven c d hs => ?_
  exact .finish hs (.cons h (.cons hgiven .nil))
    (Node.fits_of_length (by decide) (by simp [NodeKind.leastChildren])) (by simp)

theorem memberAccess_tracks (hr : rule.Tracked r) {target target' : Node}
    (h : Node.Alike r target target') :
    Tracks r (.node r) target.Clean (memberAccess rule target) (memberAccess rule target') := by
  intro c d hs
  refine .kindAt_bind hs ?_
  refine .ite (fun _ => (innerNewExpr_tracks hr h).run hs) fun _ => ?_
  refine .ite (fun _ => ?_) fun _ => ?_
  · refine ((typeArguments_tracks hr).run hs).bind fun typed typed' htyped c d hs => ?_
    refine (Parallel.name hs).bind fun label label' hlabel c d hs => ?_
    refine (Parallel.finish hs (.cons h (.cons htyped hlabel))
      (Node.fits_of_length (by decide) (by simp [NodeKind.leastChildren])) Iff.rfl).bind_from
      (R := True) (by simp [and_assoc]) fun access access' haccess c d hs => ?_
    refine .ifCheck hs (fun _ => ?_) fun _ => .pure hs haccess (by simp)
    exact ((callExpr_tracks hr haccess).run hs).of_iff (by simp)
  refine .ite (fun hk => ?_) fun _ => ?_
  · refine (Parallel.advance hs (ne_eof_of_eq (eq_of_beq hk))).bind
      fun _ _ _ c d hs => ?_
    exact .finish hs (.cons h .nil)
      (Node.fits_of_length (by decide) (by simp [NodeKind.leastChildren])) (by simp)
  refine .ite (fun hk => ?_) fun _ => ?_
  · refine (Parallel.leaf hs (ne_eof_of_eq (eq_of_beq hk)) (by decide) rfl rfl).bind
      fun word word' hword c d hs => ?_
    exact .finish hs (.cons h (.cons hword .nil))
      (Node.fits_of_length (by decide) (by simp [NodeKind.leastChildren])) (by simp)
  refine .ite (fun hk => ?_) fun _ => ?_
  · refine (Parallel.leaf hs (ne_eof_of_eq (eq_of_beq hk)) (by decide) rfl rfl).bind
      fun word word' hword c d hs => ?_
    exact .finish hs (.cons h (.cons hword .nil))
      (Node.fits_of_length (by decide) (by simp [NodeKind.leastChildren])) (by simp)
  refine .ite (fun hname => ?_) fun _ => .problem _ _ _ hs
  refine (identifier_leaf hs (ne_eof_of_isName hname)).bind fun label label' hlabel c d hs => ?_
  exact .finish hs (.cons h (.cons hlabel .nil))
    (Node.fits_of_length (by decide) (by simp [NodeKind.leastChildren])) (by simp)

theorem referenceName_tracks : Tracks r (.nodes r) True referenceName referenceName := by
  intro c d hs
  refine .ifCheck hs (fun hk => ?_) fun _ => .name hs
  refine (identifier_leaf hs (ne_eof_of_eq hk)).bind fun word word' hword c d hs => ?_
  exact .pure hs (.cons hword .nil) (by simp)

theorem methodRef_tracks (hr : rule.Tracked r) {target target' : Node}
    (h : Node.Alike r target target') :
    Tracks r (.node r) target.Clean (methodRef rule target) (methodRef rule target') := by
  intro c d hs
  refine .need_bind hs fun c d hs => ?_
  refine ((optionalTypeArguments_tracks hr).run hs).bind fun typed typed' htyped c d hs => ?_
  refine (referenceName_tracks.run hs).bind fun label label' hlabel c d hs => ?_
  exact .finish hs (.append (.cons h htyped) hlabel) (Node.fits_of_loose (by decide))
    (by simp [and_assoc])

theorem arrayClass_tracks {target target' : Node} (h : Node.Alike r target target')
    (hs : Similar r c d) (h₀ : (c.tokenAt 0).kind = .symbol .dot)
    (h₁ : (c.tokenAt 1).kind = .keyword .classKw) :
    Parallel r tallied (.node r) target.Clean (arrayClass target) (arrayClass target') c d := by
  refine .two_bind hs (ne_eof_of_eq h₀) (ne_eof_of_eq h₁)
    fun c d hs => ?_
  exact .finish hs (.cons h .nil)
    (Node.fits_of_length (by decide) (by simp [NodeKind.leastChildren])) (by simp)

/-- What is read after a name and brackets: the rest of a class literal if one
follows, and nothing at all otherwise. -/
theorem arrayClassLiteral_run (element : Node) (c : Cursor) :
    (arrayClassLiteral? element).run c =
      if (((arrayBrackets element).run c).2.tokenAt 0).kind = .symbol .dot ∧
          (((arrayBrackets element).run c).2.tokenAt 1).kind = .keyword .classKw then
        (arrayBrackets element >>= fun target =>
          arrayClass target >>= fun n => pure (some n)).run c
      else (none, c) := by
  have hunfold : (arrayClassLiteral? element).run c =
      (if ((((arrayBrackets element).run c).2.tokenAt 0).kind == .symbol .dot &&
          (((arrayBrackets element).run c).2.tokenAt 1).kind == .keyword .classKw) = true then
        arrayClass ((arrayBrackets element).run c).1 >>= fun n => pure (some n)
      else modify (·.goBack c) >>= fun _ => pure none : Parser (Option Node)).run
        ((arrayBrackets element).run c).2 := rfl
  have hback : (modify (·.goBack c) >>= fun _ => pure none : Parser (Option Node)).run
      ((arrayBrackets element).run c).2 = (none, c) :=
    congrArg (Prod.mk none) (arrayBrackets_scans element c).takes.goBack
  rw [hunfold]
  simp only [Bool.and_eq_true, beq_iff_eq]
  split
  · rfl
  · exact hback

/-- Where no class literal follows, nothing is taken. -/
theorem arrayClassLiteral_stays {element : Node} {c : Cursor}
    (h : ((arrayClassLiteral? element).run c).1 = none) :
    ((arrayClassLiteral? element).run c).2 = c := by
  rw [arrayClassLiteral_run] at h ⊢
  split at h
  · cases h
  · rw [if_neg ‹_›]

/-- An array class literal keeps the type. -/
theorem arrayClassLiteral_tracks {element element' : Node} (h : Node.Alike r element element') :
    Tracks r (.orElse (.node r) element) element.Clean (arrayClassLiteral? element)
      (arrayClassLiteral? element') := by
  intro c d hs
  have hbrackets := arrayBrackets_tracks h c d hs
  have hc := arrayClassLiteral_run element c
  have hd := arrayClassLiteral_run element' d
  rw [hbrackets.similar.kind_eq, hbrackets.similar.kind_eq] at hd
  by_cases hkinds : (((arrayBrackets element).run c).2.tokenAt 0).kind = .symbol .dot ∧
      (((arrayBrackets element).run c).2.tokenAt 1).kind = .keyword .classKw
  · rw [if_pos hkinds] at hc hd
    refine .of_run hc hd ?_
    refine hbrackets.bind_run (R := True) (fun target target' c' d' hrun htarget hs => ?_) (by simp)
    rw [hrun] at hkinds
    exact .some_of ((arrayClass_tracks htarget hs hkinds.1 hkinds.2).of_iff (by simp))
  · rw [if_neg hkinds] at hc hd
    exact .of_run hc hd (.pure hs .none (by simp))

theorem bracketsLiteral_tracks {element element' : Node} (h : Node.Alike r element element') :
    Tracks r (.orElse (.node r) element) element.Clean (bracketsLiteral? element)
      (bracketsLiteral? element') := by
  intro c d hs
  refine .kindAt_bind hs ?_
  exact .ite (fun _ => (arrayClassLiteral_tracks h).run hs) fun _ => .pure hs .none (by simp)

theorem arrayAccess_tracks (hr : rule.Tracked r) {target target' : Node}
    (h : Node.Alike r target target') (hs : Similar r c d)
    (hk : (c.tokenAt 0).kind ≠ .eof) :
    Parallel r tallied (.node r) target.Clean (arrayAccess rule target)
      (arrayAccess rule target') c d := by
  refine (Parallel.advance hs hk).bind fun _ _ _ c d hs => ?_
  refine ((hr .expression).run hs).bind fun index index' hindex c d hs => ?_
  refine .need_bind hs fun c d hs => ?_
  exact .finish hs (.cons h (.cons hindex .nil))
    (Node.fits_of_length (by decide) (by simp [NodeKind.leastChildren])) (by simp)

/-- Where no class literal follows, the bracket is still next. -/
theorem bracketsLiteral_stays {element : Node} {c : Cursor}
    (h : ((bracketsLiteral? element).run c).1 = none) :
    ((bracketsLiteral? element).run c).2 = c := by
  change (StateT.run (if ((c.tokenAt 1).kind == .symbol .rbracket) = true then
    arrayClassLiteral? element else pure none) c).1 = none at h
  change (StateT.run (if ((c.tokenAt 1).kind == .symbol .rbracket) = true then
    arrayClassLiteral? element else pure none) c).2 = c
  split at h
  · rw [if_pos ‹_›]
    exact arrayClassLiteral_stays h
  · rw [if_neg ‹_›]
    rfl

theorem bracketSuffix_tracks (hr : rule.Tracked r) {target target' : Node}
    (h : Node.Alike r target target') (hs : Similar r c d)
    (hk : (c.tokenAt 0).kind ≠ .eof) :
    Parallel r tallied (.node r) target.Clean (bracketSuffix rule target)
      (bracketSuffix rule target') c d := by
  refine ((bracketsLiteral_tracks h).run hs).bind_run (R := True)
    (fun o o' c' d' hrun ho hs' => ?_) (by simp)
  cases ho with
  | some hn => exact .pure hs' hn (by simp)
  | none =>
    have hstay : c' = c := by
      rw [← bracketsLiteral_stays (congrArg Prod.fst hrun), hrun]
    subst hstay
    exact (arrayAccess_tracks hr h hs' hk).of_iff (by simp)

/-- A postfix operator is written with some byte. -/
theorem fits_of_operator {target op : Node} (h : op.literal ≠ []) (s : Span) :
    Node.Fits ⟨.postfixExpr, s, none, none, [target, op]⟩ where
  problem_isSome := nofun
  least := Nat.le_refl 2
  required := by simp [NodeKind.requiredParts]
  operator := by
    rintro - other hother
    cases hother
    exact h
  digits := nofun

/-- An increment or decrement after its operand. -/
theorem postfixOperator_tracks {target target' : Node} (h : Node.Alike r target target')
    (hs : Similar r c d) (hk : (c.tokenAt 0).kind ≠ .eof) :
    Parallel r tallied (.orElse (.node r) target) target.Clean
      (Parser.leaf .identifier >>= fun op =>
        Parser.finish .postfixExpr target.span.start [target, op] >>= fun n => pure (some n))
      (Parser.leaf .identifier >>= fun op =>
        Parser.finish .postfixExpr target'.span.start [target', op] >>= fun n => pure (some n))
      c d := by
  have hliteral : ((Parser.leaf .identifier).run c).1.literal ≠ [] := hs.head.genuine.nonempty hk
  refine (identifier_leaf hs hk).bind_run (R := target.Clean)
    (fun op op' c' d' hrun hop hs => ?_) (by simp)
  rw [hrun] at hliteral
  exact .some_of (.finish hs (.cons h (.cons hop .nil)) (fits_of_operator hliteral) (by simp))

variable (hr : rule.Tracked r)

include hr

theorem suffix_tracks {target target' : Node} (h : Node.Alike r target target') :
    Tracks r (.orElse (.node r) target) target.Clean (suffix? rule target) (suffix? rule target')
    := by
  intro c d hs
  refine .kindAt_bind hs ?_
  generalize hk : (c.tokenAt 0).kind = kind
  split
  · exact postfixOperator_tracks h hs (ne_eof_of_eq hk)
  · exact postfixOperator_tracks h hs (ne_eof_of_eq hk)
  · refine (Parallel.advance hs (ne_eof_of_eq hk)).bind fun _ _ _ c d hs => ?_
    exact .some_of (((memberAccess_tracks hr h).run hs).of_iff (by simp))
  · exact .some_of (bracketSuffix_tracks hr h hs (ne_eof_of_eq hk))
  · exact .some_of ((callExpr_tracks hr h).run hs)
  · exact .some_of ((methodRef_tracks hr h).run hs)
  · exact .pure hs .none (by simp)

theorem postfixed_tracks : Tracks r (.node r) True (postfixed rule) (postfixed rule) := by
  intro c d hs
  refine ((primary_tracks hr).run hs).bind fun target target' htarget c d hs => ?_
  exact (Parallel.loop (fun _ _ ha c d hs => suffix_tracks hr ha c d hs) htarget hs).of_iff
    (by simp)

theorem typeGroup_tracks {separator : TokenKind} [separator.Inner] :
    Tracks r (.node r) True (typeGroup rule separator) (typeGroup rule separator) := by
  intro c d hs
  refine .here_bind (((type_tracks hr).run hs).bind fun first first' hfirst c d hs => ?_)
  refine (Parallel.many (fun _ _ hs => .skip hs) (fun _ c d _ hs => (type_tracks hr).run hs)
    hs).bind fun more more' hmore c d hs => ?_
  exact .finish hs (.cons hfirst hmore) (Node.fits_of_loose (by decide)) (by simp)

theorem castExpr_tracks : Tracks r (.node r) True (castExpr rule) (castExpr rule) := by
  intro c d hs
  refine .here_bind (.need_bind hs fun c d hs => ?_)
  refine ((typeGroup_tracks hr).run hs).bind fun target target' htarget c d hs => ?_
  refine .need_bind hs fun c d hs => ?_
  refine ((lambdaOr_tracks hr (hr .unary)).run hs).bind fun operand operand' hoperand c d hs => ?_
  exact .finish hs (.cons htarget (.cons hoperand .nil))
    (Node.fits_of_length (by decide) (by simp [NodeKind.leastChildren])) (by simp)

theorem unary_tracks : Tracks r (.node r) True (unary rule) (unary rule) := by
  intro c d hs
  refine .here_bind (.ifCheckAny hs (fun hmem => ?_) fun _ => ?_)
  · refine (identifier_leaf hs (ne_eof_of_mem hmem (by decide))).bind
      fun operator operator' hoperator c d hs => ?_
    refine ((hr .unary).run hs).bind fun operand operand' hoperand c d hs => ?_
    exact .finish hs (.cons hoperator (.cons hoperand .nil))
      (Node.fits_of_length (by decide) (by simp [NodeKind.leastChildren])) (by simp)
  · refine (startsCast_tracks.run hs).bind fun b b' hb c d hs => ?_
    cases hb
    refine .ite (fun _ => ((castExpr_tracks hr).run hs).of_iff (by simp)) fun _ => ?_
    exact ((postfixed_tracks hr).run hs).of_iff (by simp)

theorem binaryStep_tracks {operators : List TokenKind} (hoperators : TokenKind.eof ∉ operators)
    {operand : Parser Node} (hoperand : Tracks r (.node r) True operand operand) {left left' : Node}
    (h : Node.Alike r left left') :
    Tracks r (.orElse (.node r) left) left.Clean (binaryStep? rule operators operand left)
    (binaryStep? rule operators operand left') := by
  intro c d hs
  refine .ifCheckAny hs (fun hmem => ?_) fun _ => .pure hs .none (by simp)
  refine .ifSkip hs (fun c d hs => ?_) fun _ => ?_
  · refine ((type_tracks hr).run hs).bind fun target target' htarget c d hs => ?_
    refine (Parallel.optional (.check _ hs) fun c d hrun hs => identifier_leaf hs
      (ne_eof_of_eq (Parser.kind_of_check hrun))).bind
      fun binding binding' hbinding c d hs => ?_
    exact .some_of (.finish hs (.cons h (.cons htarget hbinding))
      (Node.fits_of_length (by decide) (by simp [NodeKind.leastChildren])) (by simp [and_assoc]))
  · refine (identifier_leaf hs (ne_eof_of_mem hmem hoperators)).bind
      fun operator operator' hoperator c d hs => ?_
    refine (hoperand.run hs).bind fun right right' hright c d hs => ?_
    exact .some_of (.finish hs (.cons h (.cons hoperator (.cons hright .nil)))
      (Node.fits_of_length (by decide) (by simp [NodeKind.leastChildren])) (by simp [and_assoc]))

theorem binary_tracks {levels : List (List TokenKind)}
    (hlevels : ∀ operators ∈ levels, TokenKind.eof ∉ operators) :
    Tracks r (.node r) True (binary rule levels) (binary rule levels) := by
  induction levels with
  | nil => exact unary_tracks hr
  | cons operators tighter ih =>
    intro c d hs
    rw [List.forall_mem_cons] at hlevels
    have htighter := ih hlevels.2
    refine (htighter.run hs).bind fun left left' hleft c d hs => ?_
    exact (Parallel.loop (fun _ _ ha c d hs =>
      binaryStep_tracks hr hlevels.1 htighter ha c d hs) hleft hs).of_iff (by simp)

theorem ternary_tracks : Tracks r (.node r) True (ternary rule) (ternary rule) := by
  intro c d hs
  refine ((binary_tracks hr (by decide)).run hs).bind
    fun condition condition' hcondition c d hs => ?_
  refine .ifSkip hs (fun c d hs => ?_) fun _ => .pure hs hcondition (by simp)
  refine ((hr .expression).run hs).bind fun yes yes' hyes c d hs => ?_
  refine .need_bind hs fun c d hs => ?_
  refine ((lambdaOr_tracks hr (hr .ternary)).run hs).bind fun no no' hno c d hs => ?_
  exact .finish hs (.cons hcondition (.cons hyes (.cons hno .nil)))
    (Node.fits_of_length (by decide) (by simp [NodeKind.leastChildren])) (by simp [and_assoc])

theorem expression_tracks : Tracks r (.node r) True (expression rule) (expression rule) := by
  refine lambdaOr_tracks hr fun c d hs => ?_
  refine ((ternary_tracks hr).run hs).bind fun left left' hleft c d hs => ?_
  refine .ifCheckAny hs (fun hmem => ?_) fun _ => .pure hs hleft (by simp)
  refine (identifier_leaf hs (ne_eof_of_mem hmem (by decide))).bind
    fun operator operator' hoperator c d hs => ?_
  refine ((hr .expression).run hs).bind fun right right' hright c d hs => ?_
  exact .finish hs (.cons hleft (.cons hoperator (.cons hright .nil)))
    (Node.fits_of_length (by decide) (by simp [NodeKind.leastChildren])) (by simp [and_assoc])

theorem initializer_tracks :
    Tracks r (.node r) True (initializer rule) (initializer rule) := fun _ _ hs =>
  .ifCheck hs (fun _ => (arrayInitializer_tracks hr).run hs) fun _ => (expression_tracks hr).run hs

theorem annotationValue_tracks :
    Tracks r (.node r) True (annotationValue rule) (annotationValue rule) := by
  intro c d hs
  refine .ifCheck hs (fun _ => (annotationUse_tracks hr).run hs) fun _ => ?_
  refine .ifCheck hs (fun hbrace => ?_) fun _ => (ternary_tracks hr).run hs
  refine .here_bind ?_
  refine (Parallel.advance hs (ne_eof_of_eq hbrace)).bind fun _ _ _ c d hs => ?_
  refine (Parallel.commaListBefore (hr .annotationValue) hs).bind
    fun items items' hitems c d hs => ?_
  refine .need_bind hs fun c d hs => ?_
  exact .finish hs hitems (Node.fits_of_loose (by decide)) (by simp)

end Grammar

end JavaObjC
