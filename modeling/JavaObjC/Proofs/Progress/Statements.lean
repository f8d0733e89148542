import JavaObjC.Proofs.Progress.Declarations

/-!
# Statements proceed

Every statement takes a token unless the end of file is next. Most begin with
a word of their own. The groups of a `switch` do not: where a group has no
label, the statements it begins with take the token.
-/

namespace JavaObjC

open Cursor

namespace Grammar

variable {R : Region} {room : Nat} {rule rule' : Rules} {c : Cursor}

section Branching

theorem condition_proceeds (hrule : rule.Agree R room rule') (hc : c.Within R)
    (hroom : c.rest.length ≤ room + 1) :
    Proceeds R c (Placed R) (condition rule) (condition rule') := by
  refine .need_bind hc fun c₁ hc₁ hle₁ _ => ?_
  refine (expression_proceeds hrule hc₁ (by omega)).bind fun value c₂ hc₂ _ hvalue => ?_
  exact .need_bind hc₂ fun c₃ hc₃ _ _ => .pure hc₃ hvalue.1

theorem ifStmt_proceeds (hrule : rule.Agree R room rule') (hc : c.Within R)
    (hroom : c.rest.length ≤ room + 1) (hfront : (c.tokenAt 0).kind = Keyword.ifKw) :
    Proceeds R c (Took R c.rest.length) (ifStmt rule) (ifStmt rule') := by
  refine .opening_bind hc hfront fun hstart c₁ hc₁ hlt => ?_
  refine (condition_proceeds hrule hc₁ (by omega)).bind fun test c₂ hc₂ hle₂ htest => ?_
  refine (hrule .statement c₂ hc₂ (by omega)).bind fun yes c₃ hc₃ hle₃ hyes => ?_
  refine (Proceeds.optionalAfter hc₃
    (fun e he hlt => (hrule .statement e he (by omega)).placed)).bind fun no c₄ hc₄ hle₄ hno => ?_
  exact .finish_took hc₄ hstart (by simpa using ⟨htest, hyes.1, hno⟩) fun _ => by omega

theorem switchLabel_proceeds (hrule : rule.Agree R room rule') (hc : c.Within R)
    (hroom : c.rest.length ≤ room + 1) (hfront : (c.tokenAt 0).kind ∈ labelStarts) :
    Proceeds R c (Took R c.rest.length) (switchLabel rule) (switchLabel rule') := by
  refine .here_bind hc fun hstart => .ifSkip hc (fun c₁ hc₁ hlt₁ => ?_) fun hcase => ?_
  · refine (ternary_proceeds hrule hc₁ (by omega)).bind fun value c₂ hc₂ hle₂ hvalue => ?_
    refine .need_bind hc₂ fun c₃ hc₃ hle₃ _ => ?_
    exact .finish_took hc₃ hstart (by simpa using hvalue.1) fun _ => by omega
  · have hdefault : (c.tokenAt 0).kind = Keyword.defaultKw := by
      simpa [labelStarts, hcase] using hfront
    refine (Proceeds.expect hc).bind fun word c₁ hc₁ _ hword => ?_
    have hlt := hword.2 hdefault
    refine .need_bind hc₁ fun c₂ hc₂ hle₂ _ => ?_
    exact (Proceeds.finishWith hc₂ hstart (by nofun) Node.withinAll_nil).imp fun _ c₃ hle₃ h =>
      ⟨h.1, fun _ => by omega⟩

theorem needLabel_proceeds (hc : c.Within R) :
    Proceeds R c (fun _ e => e.rest = c.rest) needLabel needLabel :=
  .ifCheckAny (fun _ => .pure hc rfl) (.expected _ hc)

/-- A group takes a token unless the end of file or the closing brace is next. -/
theorem switchCase_proceeds (hrule : rule.Agree R room rule') (hc : c.Within R)
    (hroom : c.rest.length ≤ room) (hfront : (c.tokenAt 0).kind ∉ [TokenKind.symbol .rbrace]) :
    Proceeds R c (Took R c.rest.length) (switchCase rule) (switchCase rule') := by
  refine .here_bind hc fun hstart => (needLabel_proceeds hc).bind fun _ c₁ hc₁ _ hsame => ?_
  have hlength := congrArg List.length hsame
  have hkind : (c₁.tokenAt 0).kind = (c.tokenAt 0).kind := by rw [tokenAt, tokenAt, hsame]
  have hlabel : ∀ e : Cursor, ((Parser.checkAny labelStarts).run e).1 = true →
      (e.tokenAt 0).kind ∈ labelStarts := fun e hyes => Parser.mem_of_checkAny (Prod.ext hyes rfl)
  refine (Proceeds.manyWhile (fun _ => rfl)
    (fun e hyes => ne_eof_of_mem (hlabel e hyes) (by decide))
    (fun e he hle hyes => switchLabel_proceeds hrule he (by omega) (hlabel e hyes)) hc₁).bind
    fun labels c₂ hc₂ hle₂ hlabels => ?_
  refine (Proceeds.manyBefore (fun e he hle _ => hrule .statement e he (by omega)) hc₂).bind
    fun statements c₃ hc₃ hle₃ hstatements => ?_
  refine .finish_took hc₃ hstart (by simpa using ⟨hlabels.1, hstatements.1⟩) fun htwo => ?_
  -- either a label was taken or the first statement begins where the group does
  cases hany : ((Parser.checkAny labelStarts).run c₁).1 with
  | true =>
    have := hlabels.2.1 hany
    omega
  | false =>
    obtain rfl := hlabels.2.2 hany
    have hnone : (c₂.tokenAt 0).kind ∉ labelStarts := by
      intro hmem
      change labelStarts.contains (c₂.tokenAt 0).kind = false at hany
      simp [hmem] at hany
    have hk : (c₂.tokenAt 0).kind ≠ .eof := by
      rw [hkind]
      exact hc.ne_eof_iff.2 htwo
    have hlt := hstatements.2 hk (by
      simp only [labelStarts, List.mem_cons, List.not_mem_nil, or_false, not_or] at hnone hfront ⊢
      rw [hkind] at hnone ⊢
      exact ⟨hnone.1, hnone.2, hfront⟩)
    omega

theorem switchStmt_proceeds (hrule : rule.Agree R room rule') (hc : c.Within R)
    (hroom : c.rest.length ≤ room + 1) (hfront : (c.tokenAt 0).kind = Keyword.switchKw) :
    Proceeds R c (Took R c.rest.length) (switchStmt rule) (switchStmt rule') := by
  refine .opening_bind hc hfront fun hstart c₁ hc₁ hlt => ?_
  refine (condition_proceeds hrule hc₁ (by omega)).bind fun selector c₂ hc₂ hle₂ hselector => ?_
  refine .need_bind hc₂ fun c₃ hc₃ hle₃ _ => ?_
  refine (Proceeds.manyBefore
    (fun e he hle hk => switchCase_proceeds hrule he (by omega) hk) hc₃).bind
    fun groups c₄ hc₄ hle₄ hgroups => ?_
  refine .need_bind hc₄ fun c₅ hc₅ hle₅ _ => ?_
  exact .finish_took hc₅ hstart (by simpa using ⟨hselector, hgroups.1⟩) fun _ => by omega

end Branching

section Loops

variable (hrule : rule.Agree R room rule')

include hrule

theorem enhancedFor_proceeds {start : Position} (hc : c.Within R) (hroom : c.rest.length ≤ room)
    (hstart : R.place start) :
    Proceeds R c (Placed R) (enhancedFor rule start) (enhancedFor rule' start) := by
  refine (modifiers_proceeds hrule hc (by omega)).bind fun marks c₁ hc₁ hle₁ hmarks => ?_
  refine (localType_proceeds hrule hc₁ (by omega)).bind fun declared c₂ hc₂ hle₂ hdeclared => ?_
  refine (Proceeds.name hc₂).bind fun label c₃ hc₃ hle₃ hlabel => ?_
  refine .need_bind hc₃ fun c₄ hc₄ hle₄ _ => ?_
  refine (expression_proceeds hrule hc₄ (by omega)).bind
    fun collection c₅ hc₅ hle₅ hcollection => ?_
  refine .need_bind hc₅ fun c₆ hc₆ hle₆ _ => ?_
  refine (hrule .statement c₆ hc₆ (by omega)).bind fun body c₇ hc₇ _ hbody => ?_
  exact .finish hc₇ hstart
    (by simpa using ⟨hmarks, hdeclared.1, hlabel.1, hcollection.1, hbody.1⟩)

theorem forInits_proceed (hc : c.Within R) (hroom : c.rest.length ≤ room + 1) :
    Proceeds R c (PlacedAll R) (forInits rule) (forInits rule') := by
  refine .ifCheck (fun _ => .pure hc Node.withinAll_nil) fun _ => ?_
  refine (startsLocalDeclaration_proceeds hrule hc hroom).bind fun _ c₁ hc₁ hle₁ _ => ?_
  refine .ite (fun _ => ?_) fun _ => ?_
  · refine (localVarDecl_proceeds hrule hc₁ (by omega)).bind fun declaration c₂ hc₂ _ h => ?_
    exact .pure hc₂ (Node.withinAll_cons.2 ⟨h.1, Node.withinAll_nil⟩)
  · exact .commaList (fun e he hle => (expression_proceeds hrule he (by omega)).placed) hc₁

theorem forUpdates_proceed (hc : c.Within R) (hroom : c.rest.length ≤ room + 1) :
    Proceeds R c (PlacedAll R) (forUpdates rule) (forUpdates rule') :=
  .ifCheck (fun _ => .pure hc Node.withinAll_nil) fun _ =>
    .commaList (fun _ he hle => (expression_proceeds hrule he (by omega)).placed) hc

theorem plainFor_proceeds {start : Position} (hc : c.Within R) (hroom : c.rest.length ≤ room)
    (hstart : R.place start) :
    Proceeds R c (Placed R) (plainFor rule start) (plainFor rule' start) := by
  refine .here_bind hc fun hinitStart => ?_
  refine (forInits_proceed hrule hc (by omega)).bind fun inits c₁ hc₁ hle₁ hinits => ?_
  refine (Proceeds.finish hc₁ hinitStart hinits).bind fun init c₂ hc₂ hle₂ hinit => ?_
  refine .need_bind hc₂ fun c₃ hc₃ hle₃ _ => ?_
  refine (Proceeds.optional (fun _ => rfl) hc₃ fun _ =>
    (expression_proceeds hrule hc₃ (by omega)).placed).bind fun test c₄ hc₄ hle₄ htest => ?_
  refine .need_bind hc₄ fun c₅ hc₅ hle₅ _ => .here_bind hc₅ fun hupdateStart => ?_
  refine (forUpdates_proceed hrule hc₅ (by omega)).bind fun updates c₆ hc₆ hle₆ hupdates => ?_
  refine (Proceeds.finish hc₆ hupdateStart hupdates).bind fun update c₇ hc₇ hle₇ hupdate => ?_
  refine .need_bind hc₇ fun c₈ hc₈ hle₈ _ => ?_
  refine (hrule .statement c₈ hc₈ (by omega)).bind fun body c₉ hc₉ _ hbody => ?_
  exact .finish hc₉ hstart (by simpa using ⟨hinit, htest, hupdate, hbody.1⟩)

theorem forStmt_proceeds (hc : c.Within R) (hroom : c.rest.length ≤ room + 1)
    (hfront : (c.tokenAt 0).kind = Keyword.forKw) :
    Proceeds R c (Took R c.rest.length) (forStmt rule) (forStmt rule') := by
  refine .opening_bind hc hfront fun hstart c₁ hc₁ hlt => ?_
  refine .need_bind hc₁ fun c₂ hc₂ hle₂ _ => ?_
  refine (startsEnhancedFor_proceeds hrule hc₂ (by omega)).bind fun _ c₃ hc₃ hle₃ _ => ?_
  refine .ite (fun _ => ?_) fun _ => ?_
  · exact (enhancedFor_proceeds hrule hc₃ (by omega) hstart).imp fun _ _ hle h =>
      ⟨h, fun _ => by omega⟩
  · exact (plainFor_proceeds hrule hc₃ (by omega) hstart).imp fun _ _ hle h =>
      ⟨h, fun _ => by omega⟩

theorem whileStmt_proceeds (hc : c.Within R) (hroom : c.rest.length ≤ room + 1)
    (hfront : (c.tokenAt 0).kind = Keyword.whileKw) :
    Proceeds R c (Took R c.rest.length) (whileStmt rule) (whileStmt rule') := by
  refine .opening_bind hc hfront fun hstart c₁ hc₁ hlt => ?_
  refine (condition_proceeds hrule hc₁ (by omega)).bind fun test c₂ hc₂ hle₂ htest => ?_
  refine (hrule .statement c₂ hc₂ (by omega)).bind fun body c₃ hc₃ hle₃ hbody => ?_
  exact .finish_took hc₃ hstart (by simpa using ⟨htest, hbody.1⟩) fun _ => by omega

theorem doStmt_proceeds (hc : c.Within R) (hroom : c.rest.length ≤ room + 1)
    (hfront : (c.tokenAt 0).kind = Keyword.doKw) :
    Proceeds R c (Took R c.rest.length) (doStmt rule) (doStmt rule') := by
  refine .opening_bind hc hfront fun hstart c₁ hc₁ hlt => ?_
  refine (hrule .statement c₁ hc₁ (by omega)).bind fun body c₂ hc₂ hle₂ hbody => ?_
  refine .need_bind hc₂ fun c₃ hc₃ hle₃ _ => ?_
  refine (condition_proceeds hrule hc₃ (by omega)).bind fun test c₄ hc₄ hle₄ htest => ?_
  refine .need_bind hc₄ fun c₅ hc₅ hle₅ _ => ?_
  exact .finish_took hc₅ hstart (by simpa using ⟨hbody.1, htest⟩) fun _ => by omega

end Loops

section Leaving

theorem returnStmt_proceeds (hrule : rule.Agree R room rule') (hc : c.Within R)
    (hroom : c.rest.length ≤ room + 1) (hfront : (c.tokenAt 0).kind = Keyword.returnKw) :
    Proceeds R c (Took R c.rest.length) (returnStmt rule) (returnStmt rule') := by
  refine .opening_bind hc hfront fun hstart c₁ hc₁ hlt => ?_
  refine (Proceeds.optional (fun _ => rfl) hc₁ fun _ =>
    (expression_proceeds hrule hc₁ (by omega)).placed).bind fun value c₂ hc₂ hle₂ hvalue => ?_
  refine .need_bind hc₂ fun c₃ hc₃ hle₃ _ => ?_
  exact .finish_took hc₃ hstart hvalue fun _ => by omega

theorem jumpStmt_proceeds {kind : NodeKind} {word : Keyword} (hc : c.Within R)
    (hfront : (c.tokenAt 0).kind = .keyword word) :
    Proceeds R c (Took R c.rest.length) (jumpStmt kind word) (jumpStmt kind word) := by
  refine .opening_bind hc hfront fun hstart c₁ hc₁ hlt => ?_
  refine (Proceeds.optionalLeaf hc₁).bind fun label c₂ hc₂ hle₂ hlabel => ?_
  refine .need_bind hc₂ fun c₃ hc₃ hle₃ _ => ?_
  exact .finish_took hc₃ hstart hlabel fun _ => by omega

theorem throwStmt_proceeds (hrule : rule.Agree R room rule') (hc : c.Within R)
    (hroom : c.rest.length ≤ room + 1) (hfront : (c.tokenAt 0).kind = Keyword.throwKw) :
    Proceeds R c (Took R c.rest.length) (throwStmt rule) (throwStmt rule') := by
  refine .opening_bind hc hfront fun hstart c₁ hc₁ hlt => ?_
  refine (expression_proceeds hrule hc₁ (by omega)).bind fun value c₂ hc₂ hle₂ hvalue => ?_
  refine .need_bind hc₂ fun c₃ hc₃ hle₃ _ => ?_
  exact .finish_took hc₃ hstart (by simpa using hvalue.1) fun _ => by omega

theorem assertStmt_proceeds (hrule : rule.Agree R room rule') (hc : c.Within R)
    (hroom : c.rest.length ≤ room + 1) (hfront : (c.tokenAt 0).kind = Keyword.assertKw) :
    Proceeds R c (Took R c.rest.length) (assertStmt rule) (assertStmt rule') := by
  refine .opening_bind hc hfront fun hstart c₁ hc₁ hlt => ?_
  refine (expression_proceeds hrule hc₁ (by omega)).bind fun test c₂ hc₂ hle₂ htest => ?_
  refine (Proceeds.optionalAfter hc₂
    (fun e he hlt => (expression_proceeds hrule he (by omega)).placed)).bind
    fun message c₃ hc₃ hle₃ hmessage => ?_
  refine .need_bind hc₃ fun c₄ hc₄ hle₄ _ => ?_
  exact .finish_took hc₄ hstart (by simpa using ⟨htest.1, hmessage⟩) fun _ => by omega

end Leaving

section Guarding

variable (hrule : rule.Agree R room rule') (hc : c.Within R)

include hrule hc

theorem resourceValue_proceeds (hroom : c.rest.length ≤ room + 1) :
    Proceeds R c (PlacedAll R) (resourceValue rule) (resourceValue rule') := by
  refine (Proceeds.expect hc).bind fun o c₁ hc₁ hle₁ _ => ?_
  cases o with
  | none => exact .pure hc₁ Node.withinAll_nil
  | some _ =>
    refine (expression_proceeds hrule hc₁ (by omega)).bind fun value c₂ hc₂ _ hvalue => ?_
    exact .pure hc₂ (Node.withinAll_cons.2 ⟨hvalue.1, Node.withinAll_nil⟩)

theorem tryResource_proceeds (hroom : c.rest.length ≤ room + 1) :
    Proceeds R c (Took R c.rest.length) (tryResource rule) (tryResource rule') := by
  refine (startsLocalDeclaration_proceeds hrule hc hroom).bind fun _ c₁ hc₁ hle₁ hlength => ?_
  refine .ite (fun _ => ?_) fun _ => ?_
  · refine .here_bind hc₁ fun hstart => ?_
    refine (modifiers_proceeds hrule hc₁ (by omega)).bind fun marks c₂ hc₂ hle₂ hmarks => ?_
    refine (localType_proceeds hrule hc₂ (by omega)).bind fun declared c₃ hc₃ hle₃ hdeclared => ?_
    have htook := hdeclared.2
    refine (Proceeds.name hc₃).bind fun label c₄ hc₄ hle₄ hlabel => ?_
    refine (resourceValue_proceeds hrule hc₄ (by omega)).bind fun value c₅ hc₅ hle₅ hvalue => ?_
    refine .finish_took hc₅ hstart ?_ fun _ => by omega
    simpa using ⟨hmarks, hdeclared.1, hlabel.1, hvalue⟩
  · rw [← hlength]
    exact expression_proceeds hrule hc₁ (by omega)

theorem tryResources_proceed (hroom : c.rest.length ≤ room + 1) :
    Proceeds R c (PlacedAll R) (tryResources rule) (tryResources rule') := by
  refine .ifSkip hc (fun c₁ hc₁ hlt₁ => ?_) fun _ => .pure hc Node.withinAll_nil
  refine (Proceeds.manyBefore (fun e he hle _ => ?_) hc₁).bind fun items c₂ hc₂ _ hitems => ?_
  · refine (tryResource_proceeds hrule he (by omega)).bind fun item e₁ he₁ hle₁ hitem => ?_
    have htook := hitem.2
    exact (Proceeds.skip he₁).bind fun _ e₂ he₂ hle₂ _ =>
      .pure he₂ ⟨hitem.1, fun _ => by omega⟩
  · exact .need_bind hc₂ fun c₃ hc₃ _ _ => .pure hc₃ hitems.1

theorem catchClause_proceeds (hroom : c.rest.length ≤ room + 1)
    (hfront : (c.tokenAt 0).kind = Keyword.catchKw) :
    Proceeds R c (Took R c.rest.length) (catchClause rule) (catchClause rule') := by
  refine .opening_bind hc hfront fun hstart c₁ hc₁ hlt => ?_
  refine .need_bind hc₁ fun c₂ hc₂ hle₂ _ => ?_
  refine (modifiers_proceeds hrule hc₂ (by omega)).bind fun marks c₃ hc₃ hle₃ hmarks => ?_
  refine (typeGroup_proceeds hrule hc₃ (by omega)).bind
    fun caught c₄ hc₄ hle₄ hcaught => ?_
  refine (Proceeds.name hc₄).bind fun label c₅ hc₅ hle₅ hlabel => ?_
  refine .need_bind hc₅ fun c₆ hc₆ hle₆ _ => ?_
  refine (block_proceeds hrule hc₆ (.inl (by omega))).bind fun body c₇ hc₇ hle₇ hbody => ?_
  refine .finish_took hc₇ hstart ?_ fun _ => by omega
  simpa using ⟨hmarks, hcaught, hlabel.1, hbody.1⟩

theorem finallyClause_proceeds (hroom : c.rest.length ≤ room) :
    Proceeds R c (Placed R) (finallyClause rule) (finallyClause rule') := by
  refine .here_bind hc fun hstart => .need_bind hc fun c₁ hc₁ hle₁ _ => ?_
  refine (block_proceeds hrule hc₁ (.inl (by omega))).bind fun body c₂ hc₂ _ hbody => ?_
  exact .finish hc₂ hstart (by simpa using hbody.1)

theorem tryStmt_proceeds (hroom : c.rest.length ≤ room + 1)
    (hfront : (c.tokenAt 0).kind = Keyword.tryKw) :
    Proceeds R c (Took R c.rest.length) (tryStmt rule) (tryStmt rule') := by
  refine .opening_bind hc hfront fun hstart c₁ hc₁ hlt => ?_
  refine (tryResources_proceed hrule hc₁ (by omega)).bind
    fun resources c₂ hc₂ hle₂ hresources => ?_
  refine (block_proceeds hrule hc₂ (.inl (by omega))).bind fun body c₃ hc₃ hle₃ hbody => ?_
  have hcatch : ∀ e : Cursor, ((Parser.check Keyword.catchKw).run e).1 = true →
      (e.tokenAt 0).kind = Keyword.catchKw := fun e hyes =>
    Parser.kind_of_check (Prod.ext hyes rfl)
  refine (Proceeds.manyWhile (fun _ => rfl)
    (fun e hyes => ne_eof_of_eq (hcatch e hyes))
    (fun e he hle hyes => catchClause_proceeds hrule he (by omega) (hcatch e hyes)) hc₃).bind
    fun catches c₄ hc₄ hle₄ hcatches => ?_
  refine (Proceeds.optionalCheck hc₄ fun _ =>
    finallyClause_proceeds hrule hc₄ (by omega)).bind fun last c₅ hc₅ hle₅ hlast => ?_
  have hclause : Proceeds R c₅ (fun _ _ => True) (needClause resources (catches ++ last))
      (needClause resources (catches ++ last)) :=
    .ite (fun _ => (Proceeds.expected _ hc₅).imp fun _ _ _ _ => trivial) fun _ =>
      .pure hc₅ trivial
  refine hclause.bind fun _ c₆ hc₆ hle₆ _ => ?_
  refine .finish_took hc₆ hstart ?_ fun _ => by omega
  simpa using ⟨hresources, hbody.1, hcatches.1, hlast⟩

theorem synchronizedStmt_proceeds (hroom : c.rest.length ≤ room + 1)
    (hfront : (c.tokenAt 0).kind = Keyword.synchronizedKw) :
    Proceeds R c (Took R c.rest.length) (synchronizedStmt rule) (synchronizedStmt rule') := by
  refine .opening_bind hc hfront fun hstart c₁ hc₁ hlt => ?_
  refine (condition_proceeds hrule hc₁ (by omega)).bind fun lock c₂ hc₂ hle₂ hlock => ?_
  refine (block_proceeds hrule hc₂ (.inl (by omega))).bind fun body c₃ hc₃ hle₃ hbody => ?_
  exact .finish_took hc₃ hstart (by simpa using ⟨hlock, hbody.1⟩) fun _ => by omega

end Guarding

theorem labeledStmt_proceeds (hrule : rule.Agree R room rule') (hc : c.Within R)
    (hroom : c.rest.length ≤ room + 1) (hfront : (c.tokenAt 0).kind = .identifier) :
    Proceeds R c (Took R c.rest.length) (labeledStmt rule) (labeledStmt rule') := by
  refine .here_bind hc fun hstart => ?_
  refine (Proceeds.leaf hc (ne_eof_of_eq hfront)).bind fun label c₁ hc₁ _ hlabel => ?_
  have hlt := hlabel.2
  refine .need_bind hc₁ fun c₂ hc₂ hle₂ _ => ?_
  refine (hrule .statement c₂ hc₂ (by omega)).bind fun body c₃ hc₃ hle₃ hbody => ?_
  exact .finish_took hc₃ hstart (by simpa using ⟨hlabel.1, hbody.1⟩) fun _ => by omega

theorem emptyStmt_proceeds (hc : c.Within R) (hfront : (c.tokenAt 0).kind = Symbol.semicolon) :
    Proceeds R c (Took R c.rest.length) emptyStmt emptyStmt := by
  refine .here_bind hc fun hstart => ?_
  refine (Proceeds.advance hc (ne_eof_of_eq hfront)).bind fun _ c₁ hc₁ _ htaken => ?_
  exact .finish_took hc₁ hstart Node.withinAll_nil fun _ => htaken.2.1

/-- A block that begins with its brace. -/
theorem openBlock_proceeds (hrule : rule.Agree R room rule') (hc : c.Within R)
    (hroom : c.rest.length ≤ room + 1) (hfront : (c.tokenAt 0).kind = Symbol.lbrace) :
    Proceeds R c (Took R c.rest.length) (block rule) (block rule') :=
  (block_proceeds hrule hc (.inr ⟨hfront, hroom⟩)).imp fun _ _ _ h => ⟨h.1, fun _ => h.2 hfront⟩

theorem statement_proceeds (hrule : rule.Agree R room rule') (hc : c.Within R)
    (hroom : c.rest.length ≤ room + 1) :
    Proceeds R c (Took R c.rest.length) (statement rule) (statement rule') := by
  have hsimple := simpleStmt_proceeds hrule hc hroom
  have hlocal := localClassDecl_proceeds hrule hc hroom
  refine .kindAt_bind (.kindAt_bind ?_)
  generalize hk : (c.tokenAt 0).kind = kind
  split
  · exact openBlock_proceeds hrule hc hroom hk
  · exact emptyStmt_proceeds hc hk
  · exact ifStmt_proceeds hrule hc hroom hk
  · exact forStmt_proceeds hrule hc hroom hk
  · exact whileStmt_proceeds hrule hc hroom hk
  · exact doStmt_proceeds hrule hc hroom hk
  · exact switchStmt_proceeds hrule hc hroom hk
  · exact returnStmt_proceeds hrule hc hroom hk
  · exact jumpStmt_proceeds hc hk
  · exact jumpStmt_proceeds hc hk
  · exact throwStmt_proceeds hrule hc hroom hk
  · exact tryStmt_proceeds hrule hc hroom hk
  · exact .ite (fun _ => synchronizedStmt_proceeds hrule hc hroom hk) fun _ => hsimple
  · exact assertStmt_proceeds hrule hc hroom hk
  · exact hlocal
  · exact hlocal
  · exact hlocal
  · exact hlocal
  · exact .ite (fun _ => hlocal) fun _ => hsimple
  · exact .ite (fun _ => labeledStmt_proceeds hrule hc hroom hk) fun _ => hsimple
  · exact hsimple

end Grammar

end JavaObjC
