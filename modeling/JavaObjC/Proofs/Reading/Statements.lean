import JavaObjC.Proofs.Reading.Expressions
import JavaObjC.Source.Grammar.Declarations
import JavaObjC.Source.Grammar.Statements

/-!
# Type declarations and statements side by side

Classes, interfaces, enums and annotation types track themselves. The
modifiers have been read before a declaration starts, and every declaration
keeps them.

Every statement tracks itself. Blocks, catch clauses and the groups of caught
types are of a fixed kind whatever was read, which the clauses of a `try` rely
on.
-/

namespace JavaObjC

open Cursor

namespace Grammar

variable {r : Pairing} {tallied : Bool} {rule : Rules} {c d : Cursor}

theorem typeBounds_track (hr : rule.Tracked r) :
    Tracks r (.nodes r) True (typeBounds rule) (typeBounds rule) := by
  intro c d hs
  refine .ifSkip hs (fun c d hs => ?_) fun _ => .pure hs .nil (by simp)
  refine ((type_tracks hr).run hs).bind fun first first' hfirst c d hs => ?_
  refine (Parallel.many (fun _ _ hs => .skip hs)
    (fun _ c d _ hs => (type_tracks hr).run hs) hs).bind fun more more' hmore c d hs => ?_
  exact .pure hs (.cons hfirst hmore) (by simp)

theorem typeParameter_tracks (hr : rule.Tracked r) :
    Tracks r (.node r) True (typeParameter rule) (typeParameter rule) := by
  intro c d hs
  refine .here_bind (((annotations_track hr).run hs).bind fun marks marks' hmarks c d hs => ?_)
  refine (Parallel.name hs).bind fun label label' hlabel c d hs => ?_
  refine ((typeBounds_track hr).run hs).bind fun bounds bounds' hbounds c d hs => ?_
  exact .finish hs (.append (.append hmarks hlabel) hbounds) (Node.fits_of_loose (by decide))
    (by simp [and_assoc])

theorem typeParameters_track (hr : rule.Tracked r) :
    Tracks r (.node r) True (typeParameters rule) (typeParameters rule) := by
  intro c d hs
  refine .here_bind (.need_bind hs fun c d hs => ?_)
  refine (Parallel.commaList (typeParameter_tracks hr) hs).bind fun items items' hitems c d hs => ?_
  refine (closeAngle_tracks.run hs).bind fun _ _ _ c d hs => ?_
  exact .finish hs hitems (Node.fits_of_loose (by decide)) (by simp)

/-- Type parameters if there are any. -/
theorem optionalTypeParameters_track (hr : rule.Tracked r) :
    Tracks r (.nodes r) True (Parser.optional (Parser.check Symbol.lt) (typeParameters rule))
      (Parser.optional (Parser.check Symbol.lt) (typeParameters rule)) := fun _ _ hs =>
  .optional (.check _ hs) fun _ _ _ hs => (typeParameters_track hr).run hs

theorem implementsList_tracks (hr : rule.Tracked r) (hs : Similar r c d)
    (hk : (c.tokenAt 0).kind ≠ .eof) :
    Parallel r tallied (.node r) True (implementsList rule) (implementsList rule) c d := by
  refine .here_bind ?_
  refine (Parallel.advance hs hk).bind fun _ _ _ c d hs => ?_
  refine ((typeList_tracks hr).run hs).bind fun types types' htypes c d hs => ?_
  exact .finish hs htypes (Node.fits_of_loose (by decide)) (by simp)

variable {marks marks' : Node}

variable (hr : rule.Tracked r)

include hr

theorem classDecl_tracks (h : Node.Alike r marks marks') :
    Tracks r (.node r) marks.Clean (classDecl rule marks) (classDecl rule marks') := by
  intro c d hs
  refine .here_bind (.need_bind hs fun c d hs => ?_)
  refine (Parallel.name hs).bind fun label label' hlabel c d hs => ?_
  refine ((optionalTypeParameters_track hr).run hs).bind
    fun generics generics' hgenerics c d hs => ?_
  refine (Parallel.optional (.skip hs) fun c d _ hs => (type_tracks hr).run hs).bind
    fun base base' hbase c d hs => ?_
  refine (Parallel.optional (.check _ hs) fun c d hrun hs => implementsList_tracks hr hs
    (ne_eof_of_eq (Parser.kind_of_check hrun))).bind
    fun adopted adopted' hadopted c d hs => ?_
  refine ((classBody_tracks hr).run hs).bind fun body body' hbody c d hs => ?_
  exact .finish hs (.append (.append (.append (.append (.cons h hlabel) hgenerics) hbase) hadopted)
    (.cons hbody .nil)) (Node.fits_of_loose (by decide)) (by simp [and_assoc])

theorem interfaceDecl_tracks (h : Node.Alike r marks marks') :
    Tracks r (.node r) marks.Clean (interfaceDecl rule marks) (interfaceDecl rule marks') := by
  intro c d hs
  refine .here_bind (.need_bind hs fun c d hs => ?_)
  refine (Parallel.name hs).bind fun label label' hlabel c d hs => ?_
  refine ((optionalTypeParameters_track hr).run hs).bind
    fun generics generics' hgenerics c d hs => ?_
  refine ((typesAfter_tracks hr _).run hs).bind fun extended extended' hextended c d hs => ?_
  refine ((classBody_tracks hr).run hs).bind fun body body' hbody c d hs => ?_
  exact .finish hs (.append (.append (.append (.cons h hlabel) hgenerics) hextended)
    (.cons hbody .nil)) (Node.fits_of_loose (by decide)) (by simp [and_assoc])

theorem enumConstant_tracks : Tracks r (.node r) True (enumConstant rule) (enumConstant rule) := by
  intro c d hs
  refine .here_bind (((annotations_track hr).run hs).bind fun marks marks' hmarks c d hs => ?_)
  refine (Parallel.name hs).bind fun label label' hlabel c d hs => ?_
  refine (Parallel.optional (.check _ hs) fun c d _ hs => (arguments_track hr).run hs).bind
    fun given given' hgiven c d hs => ?_
  refine ((optionalBody_tracks hr).run hs).bind fun body body' hbody c d hs => ?_
  exact .finish hs (.append (.append (.append hmarks hlabel) hgiven) hbody)
    (Node.fits_of_loose (by decide)) (by simp [and_assoc])

theorem enumConstants_track :
    Tracks r (.nodes r) True (enumConstants rule) (enumConstants rule) := by
  intro c d hs
  have hstart : (Aspect.pair (.nodes r) .plain).alike (([] : List Node), true) ([], true) :=
    ⟨.nil, rfl⟩
  refine (Parallel.loop (fun a a' ha c d hs => ?_) hstart hs).bind_from (R := True) (by simp)
    fun a a' ha c d hs => ?_
  · obtain ⟨constants, more⟩ := a
    obtain ⟨constants', more'⟩ := a'
    obtain ⟨hconstants, hmore⟩ := ha
    cases hmore
    refine .checkName_bind hs ?_
    refine .check_bind hs ?_
    refine .ite (fun _ => ?_) fun _ => .pure hs .none (by simp)
    refine ((enumConstant_tracks hr).run hs).bind fun constant constant' hconstant c d hs => ?_
    refine (Parallel.skip hs).bind fun comma comma' hcomma c d hs => ?_
    exact .pure hs (.some ⟨hconstants.append (.cons hconstant .nil), hcomma⟩) (by simp)
  · exact .pure hs ha.1 (by simp)

theorem enumMembers_track :
    Tracks r (.nodes r) True (enumMembers rule) (enumMembers rule) := fun _ _ hs =>
  .ifSkip hs (fun _ _ hs => .manyBefore (hr .member) hs) fun _ =>
    .pure hs .nil (by simp)

theorem enumBody_tracks : Tracks r (.node r) True (enumBody rule) (enumBody rule) := by
  intro c d hs
  refine .here_bind (.need_bind hs fun c d hs => ?_)
  refine ((enumConstants_track hr).run hs).bind fun constants constants' hconstants c d hs => ?_
  refine ((enumMembers_track hr).run hs).bind fun members members' hmembers c d hs => ?_
  refine .need_bind hs fun c d hs => ?_
  exact .finish hs (hconstants.append hmembers) (Node.fits_of_loose (by decide)) (by simp)

theorem enumDecl_tracks (h : Node.Alike r marks marks') :
    Tracks r (.node r) marks.Clean (enumDecl rule marks) (enumDecl rule marks') := by
  intro c d hs
  refine .here_bind (.need_bind hs fun c d hs => ?_)
  refine (Parallel.name hs).bind fun label label' hlabel c d hs => ?_
  refine ((typesAfter_tracks hr _).run hs).bind fun adopted adopted' hadopted c d hs => ?_
  refine ((enumBody_tracks hr).run hs).bind fun body body' hbody c d hs => ?_
  exact .finish hs (.append (.append (.cons h hlabel) hadopted) (.cons hbody .nil))
    (Node.fits_of_loose (by decide)) (by simp [and_assoc])

theorem annotationDecl_tracks (h : Node.Alike r marks marks') :
    Tracks r (.node r) marks.Clean (annotationDecl rule marks) (annotationDecl rule marks') := by
  intro c d hs
  refine .here_bind (.need_bind hs fun c d hs => ?_)
  refine .need_bind hs fun c d hs => ?_
  refine (Parallel.name hs).bind fun label label' hlabel c d hs => ?_
  refine ((classBody_tracks hr).run hs).bind fun body body' hbody c d hs => ?_
  exact .finish hs (.append (.cons h hlabel) (.cons hbody .nil)) (Node.fits_of_loose (by decide))
    (by simp [and_assoc])

/-- A type declaration keeps the modifiers; where none follows they are still unused. -/
theorem typeDecl_tracks (h : Node.Alike r marks marks') :
    Tracks r (.orElse (.node r) marks) marks.Clean (typeDecl? rule marks) (typeDecl? rule marks')
    := by
  intro c d hs
  refine .kindAt_bind hs ?_
  refine .kindAt_bind hs ?_
  split
  · exact .some_of ((classDecl_tracks hr h).run hs)
  · exact .some_of ((interfaceDecl_tracks hr h).run hs)
  · exact .some_of ((enumDecl_tracks hr h).run hs)
  · exact .ite (fun _ => .some_of ((annotationDecl_tracks hr h).run hs))
      fun _ => .pure hs .none (by simp)
  · exact .pure hs .none (by simp)

end Grammar

namespace Grammar

variable {r : Pairing} {tallied : Bool} {rule : Rules} {c d : Cursor}

/-- A declared name with the number of brackets after it. -/
theorem declarator_tracks (hr : rule.Tracked r) :
    Tracks r (.pair (.node r) .plain) True (declarator rule) (declarator rule) := by
  intro c d hs
  refine .here_bind ((Parallel.name hs).bind fun label label' hlabel c d hs => ?_)
  refine (bracketPairs_tracks.run hs).bind fun depth depth' hdepth c d hs => ?_
  refine (Parallel.optional (.skip hs) fun c d _ hs =>
    (initializer_tracks hr).run hs).bind fun value value' hvalue c d hs => ?_
  refine (Parallel.finish hs (hlabel.append hvalue) (Node.fits_of_loose (by decide))
    Iff.rfl).bind_from (R := True) (by simp) fun n n' hn c d hs => ?_
  exact .pure hs ⟨hn, hdepth⟩ (by simp)

theorem declarators_track (hr : rule.Tracked r) :
    Tracks r (.pair (.nodes r) .plain) True (declarators rule) (declarators rule) := by
  intro c d hs
  refine ((declarator_tracks hr).run hs).bind fun a a' ha c d hs => ?_
  obtain ⟨first, depth⟩ := a
  obtain ⟨first', depth'⟩ := a'
  have hstart : (Aspect.pair (.nodes r) .plain).alike ([first], depth) ([first'], depth') :=
    ⟨.cons ha.1 .nil, ha.2⟩
  refine (Parallel.loop (fun a a' ha c d hs => ?_) hstart hs).of_iff (by simp)
  obtain ⟨nodes, total⟩ := a
  obtain ⟨nodes', total'⟩ := a'
  obtain ⟨hnodes, htotal⟩ := ha
  cases htotal
  refine .ifSkip hs (fun c d hs => ?_) fun _ => .pure hs .none (by simp)
  refine ((declarator_tracks hr).run hs).bind fun b b' hb c d hs => ?_
  obtain ⟨node, depth⟩ := b
  obtain ⟨node', depth'⟩ := b'
  obtain ⟨hnode, hdepth⟩ := hb
  cases hdepth
  exact .pure hs (.some ⟨hnodes.append (.cons hnode .nil), rfl⟩) (by simp)

theorem localType_tracks (hr : rule.Tracked r) :
    Tracks r (.node r) True (localType rule) (localType rule) := fun _ _ hs =>
  .ifCheck hs (fun hk => .leaf hs (ne_eof_of_eq hk) (by decide) rfl rfl)
    fun _ => (type_tracks hr).run hs

theorem localVarDecl_tracks (hr : rule.Tracked r) :
    Tracks r (.node r) True (localVarDecl rule) (localVarDecl rule) := by
  intro c d hs
  refine .here_bind (((modifiers_tracks hr).run hs).bind fun marks marks' hmarks c d hs => ?_)
  refine ((localType_tracks hr).run hs).bind fun declared declared' hdeclared c d hs => ?_
  refine ((declarators_track hr).run hs).bind fun a a' ha c d hs => ?_
  obtain ⟨nodes, depth⟩ := a
  obtain ⟨nodes', depth'⟩ := a'
  obtain ⟨hnodes, hdepth⟩ := ha
  cases hdepth
  exact .finish hs (.cons hmarks (.cons (inArrays_alike _ hdeclared) hnodes))
    (Node.fits_of_length (by decide) (by simp [NodeKind.leastChildren]))
    (by simp [inArrays_clean, and_assoc])

theorem simpleStmt_tracks (hr : rule.Tracked r) :
    Tracks r (.node r) True (simpleStmt rule) (simpleStmt rule) := by
  intro c d hs
  refine ((startsLocalDeclaration_tracks hr).run hs).bind fun b b' hb c d hs => ?_
  cases hb
  refine .ite (fun _ => ?_) fun _ => ?_
  · refine ((localVarDecl_tracks hr).run hs).bind fun n n' hn c d hs => ?_
    refine .need_bind hs fun c d hs => ?_
    exact (Parallel.extend hs hn).of_iff (by simp)
  · refine .here_bind (((expression_tracks hr).run hs).bind fun value value' hvalue c d hs => ?_)
    refine .need_bind hs fun c d hs => ?_
    exact .finish hs (.cons hvalue .nil)
      (Node.fits_of_length (by decide) (by simp [NodeKind.leastChildren])) (by simp)

theorem localTypeDecl_tracks (hr : rule.Tracked r) {marks marks' : Node}
    (h : Node.Alike r marks marks') :
    Tracks r (.node r) marks.Clean (localTypeDecl rule marks) (localTypeDecl rule marks') := by
  intro c d hs
  refine .kindAt_bind hs ?_
  split
  · exact (classDecl_tracks hr h).run hs
  · exact (interfaceDecl_tracks hr h).run hs
  · exact (enumDecl_tracks hr h).run hs
  · exact .problem _ _ _ hs

theorem localClassDecl_tracks (hr : rule.Tracked r) :
    Tracks r (.node r) True (localClassDecl rule) (localClassDecl rule) := by
  intro c d hs
  refine .here_bind (((modifiers_tracks hr).run hs).bind fun marks marks' hmarks c d hs => ?_)
  refine ((localTypeDecl_tracks hr hmarks).run hs).bind_from (R := True) (by simp)
    fun declaration declaration' hdeclaration c d hs => ?_
  exact .finish hs (.cons hdeclaration .nil) (Node.fits_of_loose (by decide)) (by simp)

theorem condition_tracks (hr : rule.Tracked r) :
    Tracks r (.node r) True (condition rule) (condition rule) := by
  intro c d hs
  refine .need_bind hs fun c d hs => ?_
  refine ((expression_tracks hr).run hs).bind fun value value' hvalue c d hs => ?_
  refine .need_bind hs fun c d hs => ?_
  exact .pure hs hvalue (by simp)

theorem ifStmt_tracks (hr : rule.Tracked r) :
    Tracks r (.node r) True (ifStmt rule) (ifStmt rule) := by
  intro c d hs
  refine .here_bind (.need_bind hs fun c d hs => ?_)
  refine ((condition_tracks hr).run hs).bind fun test test' htest c d hs => ?_
  refine ((hr .statement).run hs).bind fun yes yes' hyes c d hs => ?_
  refine (Parallel.optional (.skip hs) fun c d _ hs => (hr .statement).run hs).bind
    fun no no' hno c d hs => ?_
  exact .finish hs (.cons htest (.cons hyes hno))
    (Node.fits_of_length (by decide) (by simp [NodeKind.leastChildren])) (by simp [and_assoc])

theorem enhancedFor_tracks (hr : rule.Tracked r) {start start' : Position} :
    Tracks r (.node r) True (enhancedFor rule start) (enhancedFor rule start') := by
  intro c d hs
  refine ((modifiers_tracks hr).run hs).bind fun marks marks' hmarks c d hs => ?_
  refine ((localType_tracks hr).run hs).bind fun declared declared' hdeclared c d hs => ?_
  refine (Parallel.name hs).bind fun label label' hlabel c d hs => ?_
  refine .need_bind hs fun c d hs => ?_
  refine ((expression_tracks hr).run hs).bind fun collection collection' hcollection c d hs => ?_
  refine .need_bind hs fun c d hs => ?_
  refine ((hr .statement).run hs).bind fun body body' hbody c d hs => ?_
  exact .finish hs (.append (.cons hmarks (.cons hdeclared hlabel))
      (.cons hcollection (.cons hbody .nil)))
    (Node.fits_of_length (by decide) (by simp [NodeKind.leastChildren])) (by simp [and_assoc])

theorem forInits_track (hr : rule.Tracked r) :
    Tracks r (.nodes r) True (forInits rule) (forInits rule) := by
  intro c d hs
  refine .ifCheck hs (fun _ => .pure hs .nil (by simp)) fun _ => ?_
  refine ((startsLocalDeclaration_tracks hr).run hs).bind fun b b' hb c d hs => ?_
  cases hb
  refine .ite (fun _ => ?_) fun _ =>
    (Parallel.commaList (expression_tracks hr) hs).of_iff (by simp)
  refine ((localVarDecl_tracks hr).run hs).bind fun n n' hn c d hs => ?_
  exact .pure hs (.cons hn .nil) (by simp)

theorem forUpdates_track (hr : rule.Tracked r) :
    Tracks r (.nodes r) True (forUpdates rule) (forUpdates rule) := fun _ _ hs =>
  .ifCheck hs (fun _ => .pure hs .nil (by simp)) fun _ => .commaList (expression_tracks hr) hs

theorem plainFor_tracks (hr : rule.Tracked r) {start start' : Position} :
    Tracks r (.node r) True (plainFor rule start) (plainFor rule start') := by
  intro c d hs
  refine .here_bind (((forInits_track hr).run hs).bind fun inits inits' hinits c d hs => ?_)
  refine (Parallel.finish hs hinits (Node.fits_of_loose (by decide)) Iff.rfl).bind_from
    (R := True) (by simp) fun init init' hinit c d hs => ?_
  refine .need_bind hs fun c d hs => ?_
  refine (Parallel.optional (.checkNot _ hs) fun c d _ hs =>
    (expression_tracks hr).run hs).bind fun test test' htest c d hs => ?_
  refine .need_bind hs fun c d hs => ?_
  refine .here_bind (((forUpdates_track hr).run hs).bind fun updates updates' hupdates c d hs => ?_)
  refine (Parallel.finish hs hupdates (Node.fits_of_loose (by decide)) Iff.rfl).bind_from
    (R := init.Clean ∧ Node.CleanAll test) (by simp [and_comm])
    fun update update' hupdate c d hs => ?_
  refine .need_bind hs fun c d hs => ?_
  refine ((hr .statement).run hs).bind fun body body' hbody c d hs => ?_
  exact .finish hs (.append (.cons hinit htest) (.cons hupdate (.cons hbody .nil)))
    (Node.fits_of_length (by decide) (by simp [NodeKind.leastChildren])) (by simp [and_assoc])

theorem forStmt_tracks (hr : rule.Tracked r) :
    Tracks r (.node r) True (forStmt rule) (forStmt rule) := by
  intro c d hs
  refine .here_bind (.need_bind hs fun c d hs => ?_)
  refine .need_bind hs fun c d hs => ?_
  refine ((startsEnhancedFor_tracks hr).run hs).bind fun b b' hb c d hs => ?_
  cases hb
  refine .ite (fun _ => ((enhancedFor_tracks hr).run hs).of_iff (by simp)) fun _ => ?_
  exact ((plainFor_tracks hr).run hs).of_iff (by simp)

theorem whileStmt_tracks (hr : rule.Tracked r) :
    Tracks r (.node r) True (whileStmt rule) (whileStmt rule) := by
  intro c d hs
  refine .here_bind (.need_bind hs fun c d hs => ?_)
  refine ((condition_tracks hr).run hs).bind fun test test' htest c d hs => ?_
  refine ((hr .statement).run hs).bind fun body body' hbody c d hs => ?_
  exact .finish hs (.cons htest (.cons hbody .nil))
    (Node.fits_of_length (by decide) (by simp [NodeKind.leastChildren])) (by simp)

theorem doStmt_tracks (hr : rule.Tracked r) :
    Tracks r (.node r) True (doStmt rule) (doStmt rule) := by
  intro c d hs
  refine .here_bind (.need_bind hs fun c d hs => ?_)
  refine ((hr .statement).run hs).bind fun body body' hbody c d hs => ?_
  refine .need_bind hs fun c d hs => ?_
  refine ((condition_tracks hr).run hs).bind fun test test' htest c d hs => ?_
  refine .need_bind hs fun c d hs => ?_
  exact .finish hs (.cons hbody (.cons htest .nil))
    (Node.fits_of_length (by decide) (by simp [NodeKind.leastChildren])) (by simp)

/-- A `default` label fits its kind, whatever token it is marked with. -/
theorem fits_switchLabel {word : Option Token} (h : ∀ t ∈ word, t.Genuine) (s : Span) :
    Node.Fits ⟨.switchLabel, s, word, none, []⟩ where
  problem_isSome := nofun
  least := Nat.le_refl 0
  required := by simp [NodeKind.requiredParts]
  operator := nofun
  digits := fun t ht => (h t ht).digits

theorem switchLabel_tracks (hr : rule.Tracked r) :
    Tracks r (.node r) True (switchLabel rule) (switchLabel rule) := by
  intro c d hs
  refine .here_bind (.ifSkip hs (fun c d hs => ?_) fun _ => ?_)
  · refine ((ternary_tracks hr).run hs).bind fun value value' hvalue c d hs => ?_
    refine .need_bind hs fun c d hs => ?_
    exact .finish hs (.cons hvalue .nil) (Node.fits_of_loose (by decide)) (by simp)
  · refine (Parallel.expect hs).bind fun word word' hword c d hs => ?_
    refine .need_bind hs fun c d hs => ?_
    cases hword with
    | none =>
      exact .finishWith hs rfl .nil (fits_switchLabel (by simp)) (fun _ => ⟨nofun, nofun⟩) (by simp)
    | some htu =>
      exact .finishWith hs (by simp only [Option.map_some, htu.erase_eq]) .nil
        (fits_switchLabel (by simpa using htu.genuine)) (fun _ => ⟨nofun, nofun⟩) (by simp)

theorem needLabel_tracks : Tracks r .plain True needLabel needLabel := fun _ _ hs =>
  .ifCheckAny hs (fun _ => .pure hs rfl Iff.rfl) fun _ => .expected _ hs

theorem switchCase_tracks (hr : rule.Tracked r) :
    Tracks r (.node r) True (switchCase rule) (switchCase rule) := by
  intro c d hs
  refine .here_bind ((needLabel_tracks.run hs).bind fun _ _ _ c d hs => ?_)
  refine (Parallel.many (fun _ _ hs => .checkAny _ hs) (fun _ c d _ hs =>
    (switchLabel_tracks hr).run hs) hs).bind fun labels labels' hlabels c d hs => ?_
  refine (Parallel.many (fun _ _ hs => .before _ hs) (fun _ c d _ hs =>
    (hr .statement).run hs) hs).bind fun statements statements' hstatements c d hs => ?_
  exact .finish hs (hlabels.append hstatements) (Node.fits_of_loose (by decide)) (by simp)

theorem switchStmt_tracks (hr : rule.Tracked r) :
    Tracks r (.node r) True (switchStmt rule) (switchStmt rule) := by
  intro c d hs
  refine .here_bind (.need_bind hs fun c d hs => ?_)
  refine ((condition_tracks hr).run hs).bind fun selector selector' hselector c d hs => ?_
  refine .need_bind hs fun c d hs => ?_
  refine (Parallel.manyBefore (switchCase_tracks hr) hs).bind
    fun groups groups' hgroups c d hs => ?_
  refine .need_bind hs fun c d hs => ?_
  exact .finish hs (.cons hselector hgroups)
    (Node.fits_of_length (by decide) (by simp [NodeKind.leastChildren])) (by simp)

theorem returnStmt_tracks (hr : rule.Tracked r) :
    Tracks r (.node r) True (returnStmt rule) (returnStmt rule) := by
  intro c d hs
  refine .here_bind (.need_bind hs fun c d hs => ?_)
  refine (Parallel.optional (.checkNot _ hs) fun c d _ hs => (expression_tracks hr).run hs).bind
    fun value value' hvalue c d hs => ?_
  refine .need_bind hs fun c d hs => ?_
  exact .finish hs hvalue (Node.fits_of_loose (by decide)) (by simp)

theorem jumpStmt_tracks {kind : NodeKind} (word : Keyword)
    (hkind : ((kind ≠ .error ∧ kind ≠ .postfixExpr) ∧ kind.requiredParts = []) ∧
      kind.leastChildren = 0) :
    Tracks r (.node r) True (jumpStmt kind word) (jumpStmt kind word) := by
  intro c d hs
  refine .here_bind (.need_bind hs fun c d hs => ?_)
  refine (Parallel.optional (.check _ hs) fun c d hrun hs => identifier_leaf hs
    (ne_eof_of_eq (Parser.kind_of_check hrun))).bind
    fun label label' hlabel c d hs => ?_
  refine .need_bind hs fun c d hs => ?_
  exact .finish hs hlabel (Node.fits_of_loose hkind) (by simp)

theorem throwStmt_tracks (hr : rule.Tracked r) :
    Tracks r (.node r) True (throwStmt rule) (throwStmt rule) := by
  intro c d hs
  refine .here_bind (.need_bind hs fun c d hs => ?_)
  refine ((expression_tracks hr).run hs).bind fun value value' hvalue c d hs => ?_
  refine .need_bind hs fun c d hs => ?_
  exact .finish hs (.cons hvalue .nil)
    (Node.fits_of_length (by decide) (by simp [NodeKind.leastChildren])) (by simp)

theorem resourceValue_tracks (hr : rule.Tracked r) :
    Tracks r (.nodes r) True (resourceValue rule) (resourceValue rule) := by
  intro c d hs
  refine (Parallel.expect hs).bind fun o o' ho c d hs => ?_
  cases ho with
  | none => exact .pure hs .nil (by simp)
  | some _ =>
    refine ((expression_tracks hr).run hs).bind fun value value' hvalue c d hs => ?_
    exact .pure hs (.cons hvalue .nil) (by simp)

theorem tryResource_tracks (hr : rule.Tracked r) :
    Tracks r (.node r) True (tryResource rule) (tryResource rule) := by
  intro c d hs
  refine ((startsLocalDeclaration_tracks hr).run hs).bind fun b b' hb c d hs => ?_
  cases hb
  refine .ite (fun _ => ?_) fun _ => ((expression_tracks hr).run hs).of_iff (by simp)
  refine .here_bind (((modifiers_tracks hr).run hs).bind fun marks marks' hmarks c d hs => ?_)
  refine ((localType_tracks hr).run hs).bind fun declared declared' hdeclared c d hs => ?_
  refine (Parallel.name hs).bind fun label label' hlabel c d hs => ?_
  refine ((resourceValue_tracks hr).run hs).bind fun value value' hvalue c d hs => ?_
  exact .finish hs (.append (.cons hmarks (.cons hdeclared hlabel)) hvalue)
    (Node.fits_of_length (by decide) (by simp [NodeKind.leastChildren])) (by simp [and_assoc])

theorem tryResources_track (hr : rule.Tracked r) :
    Tracks r (.nodes r) True (tryResources rule) (tryResources rule) := by
  intro c d hs
  refine .ifSkip hs (fun c d hs => ?_) fun _ => .pure hs .nil (by simp)
  refine (Parallel.manyBefore (fun c d hs => ?_) hs).bind fun items items' hitems c d hs => ?_
  · refine ((tryResource_tracks hr).run hs).bind fun item item' hitem c d hs => ?_
    exact (Parallel.skip hs).bind fun _ _ _ _ _ hs => .pure hs hitem (by simp)
  · refine .need_bind hs fun c d hs => ?_
    exact .pure hs hitems (by simp)

/-- The kind of a result is that of the last step. -/
theorem kind_of_bind {α : Type} {p : Parser α} {f : α → Parser Node} {kind : NodeKind}
    (h : ∀ a c, ((f a).run c).1.kind = kind) (c : Cursor) : ((p >>= f).run c).1.kind = kind :=
  h _ _

theorem finish_kind {kind : NodeKind} (start : Position) (children : List Node) (c : Cursor) :
    ((Parser.finish kind start children).run c).1.kind = kind := rfl

/-- A block is a block even where its statements could not be read. -/
theorem block_kind (rule : Rules) (c : Cursor) : ((block rule).run c).1.kind = .block := by
  unfold block
  refine kind_of_bind (fun _ => ?_) c
  refine kind_of_bind fun _ => kind_of_bind fun _ => kind_of_bind fun _ => ?_
  exact finish_kind _ _

theorem typeGroup_kind (rule : Rules) (separator : TokenKind) (c : Cursor) :
    ((typeGroup rule separator).run c).1.kind = .type := by
  unfold typeGroup
  refine kind_of_bind (fun _ => ?_) c
  refine kind_of_bind fun _ => kind_of_bind fun _ => ?_
  exact finish_kind _ _

theorem catchClause_tracks (hr : rule.Tracked r) :
    Tracks r (.node r) True (catchClause rule) (catchClause rule) := by
  intro c d hs
  refine .here_bind (.need_bind hs fun c d hs => ?_)
  refine .need_bind hs fun c d hs => ?_
  refine ((modifiers_tracks hr).run hs).bind fun marks marks' hmarks c d hs => ?_
  refine ((typeGroup_tracks hr).run hs).bind_run (R := marks.Clean)
    (fun caught caught' c' d' hrun hcaught hs => ?_) (by simp)
  have htype := typeGroup_kind rule Symbol.bitOr c
  rw [hrun] at htype
  refine (Parallel.name hs).bind fun label label' hlabel c d hs => ?_
  refine .need_bind hs fun c d hs => ?_
  refine ((block_tracks hr).run hs).bind_run
    (R := (marks.Clean ∧ caught.Clean) ∧ Node.CleanAll label)
    (fun body body' c' d' hrun hbody hs => ?_) (by simp)
  have hblock := block_kind rule c
  rw [hrun] at hblock
  refine .finish hs (.append (.cons hmarks (.cons hcaught hlabel)) (.cons hbody .nil)) ?_
    (by simp [and_assoc])
  refine Node.fits_of_parts (by decide) (by simp [NodeKind.leastChildren]) ?_
  simp only [NodeKind.requiredParts, List.forall_mem_cons]
  exact ⟨⟨caught, by simp, htype⟩, ⟨body, by simp, hblock⟩, by simp⟩

theorem finallyClause_tracks (hr : rule.Tracked r) :
    Tracks r (.node r) True (finallyClause rule) (finallyClause rule) := by
  intro c d hs
  refine .here_bind (.need_bind hs fun c d hs => ?_)
  refine ((block_tracks hr).run hs).bind_run (R := True)
    (fun body body' c' d' hrun hbody hs => ?_) (by simp)
  have hblock := block_kind rule c
  rw [hrun] at hblock
  refine .finish hs (.cons hbody .nil) ?_ (by simp)
  refine Node.fits_of_parts (by decide) (by simp [NodeKind.leastChildren]) ?_
  simpa [NodeKind.requiredParts] using hblock

/-- Whether a clause is wanted depends on kinds of nodes only. -/
theorem needClause_tracks {resources resources' clauses clauses' : List Node}
    (hresources : Node.AlikeAll r resources resources')
    (hclauses : Node.AlikeAll r clauses clauses') :
    Tracks r .plain True (needClause resources clauses) (needClause resources' clauses') := by
  intro c d hs
  have hempty : clauses'.isEmpty = clauses.isEmpty := by cases hclauses <;> rfl
  have hany : (resources'.any fun n => n.kind = .localVarDecl) =
      resources.any fun n => n.kind = .localVarDecl := by
    induction hresources with
    | nil => rfl
    | cons hn _ ih => rw [List.any_cons, List.any_cons, ih, hn.kind_eq]
  rw [needClause, needClause, hempty, hany]
  exact .ite (fun _ => .expected _ hs) fun _ => .pure hs rfl Iff.rfl

theorem tryStmt_tracks (hr : rule.Tracked r) :
    Tracks r (.node r) True (tryStmt rule) (tryStmt rule) := by
  intro c d hs
  refine .here_bind (.need_bind hs fun c d hs => ?_)
  refine ((tryResources_track hr).run hs).bind fun resources resources' hresources c d hs => ?_
  refine ((block_tracks hr).run hs).bind_run (R := Node.CleanAll resources)
    (fun body body' c' d' hrun hbody hs => ?_) (by simp)
  have hblock := block_kind rule c
  rw [hrun] at hblock
  refine (Parallel.many (fun _ _ hs => .check _ hs) (fun _ c d _ hs =>
    (catchClause_tracks hr).run hs) hs).bind fun catches catches' hcatches c d hs => ?_
  refine (Parallel.optional (.check _ hs) fun c d _ hs => (finallyClause_tracks hr).run hs).bind
    fun last last' hlast c d hs => ?_
  refine ((needClause_tracks hresources (hcatches.append hlast)).run hs).bind fun _ _ _ c d hs => ?_
  refine .finish hs (.append (.append hresources (.cons hbody hcatches)) hlast) ?_
    (by simp [and_assoc])
  refine Node.fits_of_parts (by decide) (by simp [NodeKind.leastChildren]) ?_
  simp only [NodeKind.requiredParts, List.forall_mem_singleton]
  exact ⟨body, by simp, hblock⟩

theorem synchronizedStmt_tracks (hr : rule.Tracked r) :
    Tracks r (.node r) True (synchronizedStmt rule) (synchronizedStmt rule) := by
  intro c d hs
  refine .here_bind (.need_bind hs fun c d hs => ?_)
  refine ((condition_tracks hr).run hs).bind fun lock lock' hlock c d hs => ?_
  refine ((block_tracks hr).run hs).bind fun body body' hbody c d hs => ?_
  exact .finish hs (.cons hlock (.cons hbody .nil))
    (Node.fits_of_length (by decide) (by simp [NodeKind.leastChildren])) (by simp)

theorem assertStmt_tracks (hr : rule.Tracked r) :
    Tracks r (.node r) True (assertStmt rule) (assertStmt rule) := by
  intro c d hs
  refine .here_bind (.need_bind hs fun c d hs => ?_)
  refine ((expression_tracks hr).run hs).bind fun test test' htest c d hs => ?_
  refine (Parallel.optional (.skip hs) fun c d _ hs =>
    (expression_tracks hr).run hs).bind fun message message' hmessage c d hs => ?_
  refine .need_bind hs fun c d hs => ?_
  exact .finish hs (.cons htest hmessage) (Node.fits_of_loose (by decide)) (by simp)

theorem labeledStmt_tracks (hr : rule.Tracked r) (hs : Similar r c d)
    (hk : (c.tokenAt 0).kind ≠ .eof) :
    Parallel r tallied (.node r) True (labeledStmt rule) (labeledStmt rule) c d := by
  refine .here_bind ?_
  refine (identifier_leaf hs hk).bind fun label label' hlabel c d hs => ?_
  refine .need_bind hs fun c d hs => ?_
  refine ((hr .statement).run hs).bind fun body body' hbody c d hs => ?_
  exact .finish hs (.cons hlabel (.cons hbody .nil)) (Node.fits_of_loose (by decide)) (by simp)

theorem emptyStmt_tracks (hs : Similar r c d) (hk : (c.tokenAt 0).kind ≠ .eof) :
    Parallel r tallied (.node r) True emptyStmt emptyStmt c d := by
  refine .here_bind ?_
  refine (Parallel.advance hs hk).bind fun _ _ _ c d hs => ?_
  exact .finish hs .nil (Node.fits_of_loose (by decide)) (by simp)

theorem statement_tracks (hr : rule.Tracked r) :
    Tracks r (.node r) True (statement rule) (statement rule) := by
  intro c d hs
  refine .kindAt_bind hs ?_
  refine .kindAt_bind hs ?_
  generalize hk : (c.tokenAt 0).kind = kind
  have hsimple : Parallel r true (.node r) True (simpleStmt rule) (simpleStmt rule) c d :=
    (simpleStmt_tracks hr).run hs
  have hlocal : Parallel r true (.node r) True (localClassDecl rule) (localClassDecl rule) c d :=
    (localClassDecl_tracks hr).run hs
  split
  · exact (block_tracks hr).run hs
  · exact emptyStmt_tracks hs (ne_eof_of_eq hk)
  · exact (ifStmt_tracks hr).run hs
  · exact (forStmt_tracks hr).run hs
  · exact (whileStmt_tracks hr).run hs
  · exact (doStmt_tracks hr).run hs
  · exact (switchStmt_tracks hr).run hs
  · exact (returnStmt_tracks hr).run hs
  · exact (jumpStmt_tracks _ (by decide)).run hs
  · exact (jumpStmt_tracks _ (by decide)).run hs
  · exact (throwStmt_tracks hr).run hs
  · exact (tryStmt_tracks hr).run hs
  · exact .ite (fun _ => (synchronizedStmt_tracks hr).run hs) fun _ => hsimple
  · exact (assertStmt_tracks hr).run hs
  · exact hlocal
  · exact hlocal
  · exact hlocal
  · exact hlocal
  · exact .ite (fun _ => hlocal) fun _ => hsimple
  · exact .ite (fun _ => labeledStmt_tracks hr hs (ne_eof_of_eq hk)) fun _ => hsimple
  · exact hsimple

end Grammar

end JavaObjC
