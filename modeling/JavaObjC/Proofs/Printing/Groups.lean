import JavaObjC.Proofs.Printing.Bodies

/-!
# Reading groups and clauses

The groups of a `switch` and the clauses of a `try` are read as they are
written: a group ends where a label or the closing brace follows, and a `try`
where no further clause does. With them, by induction on what is written,
every statement is.
-/

namespace JavaObjC

open Cursor Grammar JavaObjC.Parser Node

variable {fuel : Nat} {rest : List Token} {c : Cursor} {isOpen : Bool}

section Groups

/-- Tokens in front of which a group of a `switch` ends. -/
def groupEnds : List TokenKind := [Keyword.caseKw, Keyword.defaultKw, Symbol.rbrace]

/-- A group is read with its labels and its statements. -/
theorem switchCase_lands {labels : SwitchLabels} {items : Statements} (h : items.Readable)
    (hfuel : (labels.tokens ++ items.tokens).length < fuel)
    (hlabel : Next (· ∉ labelStarts) (items.tokens ++ rest)) (hrest : Ahead (· ∈ groupEnds) rest)
    (hc : c.rest = labels.tokens ++ (items.tokens ++ rest)) :
    Lands c (· = rest) (Like (bare .switchCase (labels.trees ++ items.trees)))
      (switchCase (parse fuel)) := by
  have htokens : labels.tokens = (labels.first :: labels.more).flatMap (·.tokens) := rfl
  obtain ⟨u, us, hfront, hu⟩ := labels.first.front
  have hstart : Next (· ∈ labelStarts) c.rest := by
    rw [hc, SwitchLabels.tokens, hfront]
    exact hu
  have hneed : needLabel.run c = ((), c) := by
    rw [needLabel, bind_of_run (checkAny_yes hstart)]
    rfl
  have hbody : Ahead (· ∉ labelStarts) (items.tokens ++ rest) := by
    have hcalm := items.calming.calm hrest.calm
    cases htail : items.tokens ++ rest with
    | nil =>
      rw [htail] at hlabel
      exact hlabel.elim
    | cons t ts =>
      rw [htail] at hlabel hcalm
      exact ⟨hlabel, hcalm⟩
  have hlength : (labels.first :: labels.more).length ≤ labels.tokens.length := by
    refine length_flatMap_le (fun label => ?_) _
    obtain ⟨v, vs, hlabel, -⟩ := label.front
    rw [hlabel]
    exact List.cons_ne_nil _ _
  rw [List.length_append] at hfuel
  refine .here fun start => .glance hneed ?_
  have hlabels : Lands c (· = items.tokens ++ rest) (Likes labels.trees)
      (many (checkAny labelStarts) (switchLabel (parse fuel))) := by
    refine .many (labels_land ?_ ?_ hbody (htokens ▸ hc))
    · rw [← htokens]
      omega
    · rw [hc, List.length_append]
      omega
  refine hlabels.bind fun labels c hc hlabels => ?_
  have hitems : Lands c (· = rest) (Likes items.trees)
      (many (before groupEnds) (parse fuel .statement)) := by
    refine .many (h (by omega) ?_ (by decide) (by decide) hrest hc)
    rw [hc, List.length_append]
    omega
  refine hitems.bind fun items c hc hitems => ?_
  exact .finish_at (hlabels.append hitems) hc

/-- What follows the statements of a group. -/
theorem SwitchGroups.follow (groups : SwitchGroups) {closing : Token.Among [Symbol.rbrace]}
    (hcalm : Calm (closing.1 :: rest)) :
    Ahead (· ∈ groupEnds) (groups.tokens ++ closing.1 :: rest) := by
  have hwhole := groups.calming.calm hcalm
  have hlabels (labels : SwitchLabels) : ∃ u us, labels.tokens = u :: us ∧ u.kind ∈ groupEnds := by
    obtain ⟨u, us, hfront, hu⟩ := labels.first.front
    refine ⟨u, us ++ labels.more.flatMap (·.tokens), ?_, (by decide : labelStarts ⊆ groupEnds) hu⟩
    rw [SwitchLabels.tokens, hfront, List.cons_append]
  cases groups with
  | none => exact ⟨closing.kind_mem (by decide), hcalm⟩
  | last labels items =>
    obtain ⟨u, us, hfront, hu⟩ := hlabels labels
    rw [tokens, hfront] at hwhole ⊢
    exact ⟨hu, hwhole⟩
  | more labels s items groups =>
    obtain ⟨u, us, hfront, hu⟩ := hlabels labels
    rw [tokens, hfront] at hwhole ⊢
    exact ⟨hu, hwhole⟩

namespace SwitchGroups.Readable

/-- A switch without groups is read back. -/
theorem none : SwitchGroups.none.Readable := by
  intro fuel bound closing rest c _ hbound _ hc
  obtain ⟨bound, rfl⟩ : ∃ m, bound = m + 1 := ⟨bound - 1, by omega⟩
  have hclosing : Next (· ∈ [TokenKind.symbol .rbrace]) c.rest := by
    rw [hc]
    exact closing.2
  exact .manyUpTo_nil (before_no hclosing) hc

/-- A group goes on the repetition, since it begins with a label. -/
theorem before_group {labels : SwitchLabels} (hc : c.rest = labels.tokens ++ rest) :
    (before [Symbol.rbrace]).run c = (true, c) := by
  obtain ⟨u, us, hfront, hu⟩ := labels.first.front
  have hstart : Next (· ∉ [TokenKind.eof, .symbol .rbrace]) c.rest := by
    rw [hc, SwitchLabels.tokens, hfront]
    exact (by decide : ∀ k ∈ labelStarts, k ∉ [TokenKind.eof, .symbol .rbrace]) _ hu
  exact before_yes hstart

/-- Labels have at least one token. -/
theorem length_labels (labels : SwitchLabels) : 0 < labels.tokens.length := by
  obtain ⟨u, us, hfront, -⟩ := labels.first.front
  rw [SwitchLabels.tokens, hfront]
  exact Nat.succ_pos _

/-- The last group is read up to the brace and may have no statements. -/
theorem last {labels : SwitchLabels} {items : Statements} (h : items.Readable) :
    (SwitchGroups.last labels items).Readable := by
  intro fuel bound closing rest c hfuel hbound hcalm hc
  have hpos := length_labels labels
  simp only [SwitchGroups.tokens, List.append_assoc, List.length_append] at hc hfuel hbound
  obtain ⟨bound, rfl⟩ : ∃ m, bound = m + 2 := ⟨bound - 2, by omega⟩
  have hlabel : Next (· ∉ labelStarts) (items.tokens ++ closing.1 :: rest) := by
    cases items with
    | none => exact (by decide : ∀ k ∈ [TokenKind.symbol .rbrace], k ∉ labelStarts) _ closing.2
    | more s items =>
      rw [Statements.tokens, List.append_assoc]
      exact (s.next _).imp ((by decide : ∀ k ∈ statementStarts, k ∉ labelStarts) _)
  have hends : Ahead (· ∈ groupEnds) (closing.1 :: rest) :=
    ⟨closing.kind_mem (by decide), hcalm⟩
  refine .manyUpTo_cons (before_group hc) (.refl c)
    (switchCase_lands h (by rw [List.length_append]; omega) hlabel hends hc) fun d hd => ?_
  exact SwitchGroups.Readable.none (by rw [SwitchGroups.tokens, List.length_nil]; omega)
    (Nat.succ_pos _) hcalm hd

/-- A group before others has a statement, or its labels would belong to the next one. -/
theorem more {labels : SwitchLabels} {s : Statement isOpen} {items : Statements}
    {groups : SwitchGroups} (h : (Statements.more s items).Readable) (hgroups : groups.Readable) :
    (SwitchGroups.more labels s items groups).Readable := by
  intro fuel bound closing rest c hfuel hbound hcalm hc
  have hpos := length_labels labels
  simp only [SwitchGroups.tokens, List.append_assoc, List.length_append] at hc hfuel hbound
  obtain ⟨bound, rfl⟩ : ∃ m, bound = m + 1 := ⟨bound - 1, by omega⟩
  have hlabel : Next (· ∉ labelStarts)
      ((Statements.more s items).tokens ++ (groups.tokens ++ closing.1 :: rest)) := by
    rw [Statements.tokens, List.append_assoc]
    exact (s.next _).imp ((by decide : ∀ k ∈ statementStarts, k ∉ labelStarts) _)
  have hlength : (labels.tokens ++ (Statements.more s items).tokens).length < fuel := by
    simp only [Statements.tokens, List.length_append]
    omega
  have hfront : c.rest = labels.tokens ++
      ((Statements.more s items).tokens ++ (groups.tokens ++ closing.1 :: rest)) := by
    rw [hc, Statements.tokens, List.append_assoc]
  exact .manyUpTo_cons (before_group hc) (.refl c)
    (switchCase_lands h hlength hlabel (groups.follow hcalm) hfront)
    fun d hd => hgroups (by omega) (by omega) hcalm hd

end SwitchGroups.Readable

/-- A switch is read back when its groups are. -/
theorem Statement.Readable.switchOn {word : Token.Among [Keyword.switchKw]} {selector : Condition}
    {opening : Token.Among [Symbol.lbrace]} {groups : SwitchGroups}
    {closing : Token.Among [Symbol.rbrace]} (h : groups.Readable) :
    (Statement.switchOn word selector opening groups closing).Readable := by
  intro fuel rest c hfuel hrest hc
  simp only [tokens, List.append_assoc, List.cons_append, List.nil_append, List.length_append,
    List.length_cons] at hc hfuel
  have hclosing : Calm (closing.1 :: rest) :=
    hrest.calm.cons_barrier (closing.kind_mem (by decide))
  have hopening : Calm (opening.1 :: (groups.tokens ++ closing.1 :: rest)) :=
    (groups.calming.calm hclosing).cons_barrier (opening.kind_mem (by decide))
  refine statement_lands (p := switchStmt (parse fuel)) hc (by simp [statementParsers]) rfl
    fun start => ?_
  refine (selector.lands (by omega) hopening rfl).bind fun selector c hc hselector => ?_
  refine .step (need_past hc opening.kind_eq) ?_
  have hgroups : Lands (c.past [opening.1] (groups.tokens ++ closing.1 :: rest))
      (· = closing.1 :: rest) (Likes groups.trees)
      (manyBefore Symbol.rbrace (switchCase (parse fuel))) := by
    refine .many (h (by omega) ?_ hclosing rfl)
    rw [past_rest, List.length_append]
    omega
  refine hgroups.bind fun nodes c hc hnodes => ?_
  refine .step (need_past hc closing.kind_eq) ?_
  exact .finish_at (.cons hselector hnodes) rfl

end Groups

section Clauses

/-- A `catch` clause is read as it is written. -/
theorem catchClause_lands {head : CatchHead} {body : Block} (h : body.Readable)
    (hfuel : (head.tokens ++ body.tokens).length ≤ fuel) (hcalm : Calm rest)
    (hc : c.rest = head.tokens ++ (body.tokens ++ rest)) :
    Lands c (· = rest) (Like (bare .catchClause (head.trees ++ [body.tree])))
      (catchClause (parse fuel)) := by
  simp only [CatchHead.tokens, List.append_assoc, List.cons_append, List.nil_append,
    List.length_append, List.length_cons] at hc hfuel
  refine .here fun start => .step (need_past hc head.word.kind_eq) ?_
  refine .step (need_past rfl head.opening.kind_eq) ?_
  have hstart : Next (· ∈ plainStarts) (head.first.tokens ++
      ((head.more.flatMap fun next => next.1.1 :: next.2.tokens) ++
        head.label.1 :: head.closing.1 :: (body.tokens ++ rest))) := by
    rw [WrittenType.tokens, List.append_assoc]
    exact (head.first.type.next _).imp ((by decide : ∀ k ∈ typeStarts, k ∈ plainStarts) _)
  refine (modifiers_land hstart rfl).bind fun marks c hc hmarks => ?_
  refine (typeGroup_land head.first head.more (by rw [List.length_append]; omega) hc).bind
    fun caught c hc hcaught => ?_
  refine .step (name_past hc) ?_
  refine .step (need_past rfl head.closing.kind_eq) ?_
  refine (h (by omega) hcalm rfl).bind fun body c hc hbody => ?_
  exact .finish_at (.cons hmarks (.cons hcaught ((likes_word _).append hbody.single))) hc

namespace Handlers.Readable

/-- The last clause is read back when its block is. -/
theorem last {head : CatchHead} {body : Block} (h : body.Readable) :
    (Handlers.last head body).Readable := by
  intro fuel bound rest c hfuel hbound hrest hc
  simp only [Handlers.tokens, List.append_assoc, List.length_append] at hc hfuel hbound
  have hpos : 0 < head.tokens.length := Nat.succ_pos _
  obtain ⟨bound, rfl⟩ : ∃ m, bound = m + 2 := ⟨bound - 2, by omega⟩
  have hword : Next (· = Keyword.catchKw) c.rest := by
    rw [hc]
    exact head.word.kind_eq
  refine .manyUpTo_cons (check_yes hword) (.refl c)
    (catchClause_lands h (by rw [List.length_append]; omega) hrest.calm hc) fun d hd => ?_
  exact .manyUpTo_nil (check_no (hd ▸ hrest.next)) hd

/-- A clause is read back, then the others are. -/
theorem more {head : CatchHead} {body : Block} {handlers : Handlers} (h : body.Readable)
    (hhandlers : handlers.Readable) : (Handlers.more head body handlers).Readable := by
  intro fuel bound rest c hfuel hbound hrest hc
  simp only [Handlers.tokens, List.append_assoc, List.length_append] at hc hfuel hbound
  have hpos : 0 < head.tokens.length := Nat.succ_pos _
  obtain ⟨bound, rfl⟩ : ∃ m, bound = m + 1 := ⟨bound - 1, by omega⟩
  have hword : Next (· = Keyword.catchKw) c.rest := by
    rw [hc]
    exact head.word.kind_eq
  exact .manyUpTo_cons (check_yes hword) (.refl c)
    (catchClause_lands h (by rw [List.length_append]; omega)
      (handlers.calming.calm hrest.calm) hc)
    fun d hd => hhandlers (by omega) (by omega) hrest hd

end Handlers.Readable

namespace Finale.Readable

/-- Without the word there is no last block. -/
theorem none : Finale.none.Readable := by
  intro fuel rest c _ hrest hc
  have hc : c.rest = rest := hc
  exact .optional_none_at (check_no (hc ▸ hrest.next)) hc

/-- A last block is read back behind its word. -/
theorem clause {word : Token.Among [Keyword.finallyKw]} {body : Block} (h : body.Readable) :
    (Finale.clause word body).Readable := by
  intro fuel rest c hfuel hrest hc
  simp only [Finale.tokens, List.cons_append, List.length_cons] at hc hfuel
  have hword : Next (· = Keyword.finallyKw) c.rest := by
    rw [hc]
    exact word.kind_eq
  refine .optional_some (check_yes hword) (.refl c) ?_
  refine .here fun start => .step (need_past hc word.kind_eq) ?_
  refine (h (by omega) hrest.calm rfl).bind fun body c hc hbody => ?_
  exact .finish_at hbody.single hc

end Finale.Readable

namespace Statement.Readable

/-- A `try` is read with its clauses, of which there is one. -/
theorem try_lands {word : Token.Among [Keyword.tryKw]} {body : Block} {handlers finale : List Token}
    {caught last : List Node} (h : body.Readable) (hfuel : body.tokens.length ≤ fuel)
    (hcalm : Calm (handlers ++ (finale ++ rest))) (hclause : caught ++ last ≠ [])
    (hcaught : ∀ d : Cursor, d.rest = handlers ++ (finale ++ rest) →
      Lands d (· = finale ++ rest) (Likes caught)
        (many (check Keyword.catchKw) (catchClause (parse fuel))))
    (hlast : ∀ d : Cursor, d.rest = finale ++ rest →
      Lands d (· = rest) (Likes last)
        (optional (check Keyword.finallyKw) (finallyClause (parse fuel))))
    (hc : c.rest = word.1 :: (body.tokens ++ (handlers ++ (finale ++ rest)))) :
    Lands c (· = rest) (Like (bare .tryStmt (body.tree :: caught ++ last)))
      (Grammar.statement (parse fuel)) := by
  obtain ⟨u, us, hfront, hu⟩ := body.front
  have hresources : (tryResources (parse fuel)).run
      (c.past [word.1] (body.tokens ++ (handlers ++ (finale ++ rest)))) =
        ([], c.past [word.1] (body.tokens ++ (handlers ++ (finale ++ rest)))) := by
    have hopening : Next (· ≠ Symbol.lparen)
        (body.tokens ++ (handlers ++ (finale ++ rest))) := by
      rw [hfront]
      change u.kind ≠ _
      rw [hu]
      decide
    rw [tryResources, bind_of_run (skip_no hopening)]
    rfl
  refine statement_lands (p := tryStmt (parse fuel)) hc (by simp [statementParsers]) rfl
    fun start => ?_
  refine .glance hresources ?_
  refine (h hfuel hcalm rfl).bind fun block c hc hblock => ?_
  refine (hcaught c hc).bind fun catches c hc hcatches => ?_
  refine (hlast c hc).bind fun finales c hc hfinales => ?_
  have hclauses : Likes (caught ++ last) (catches ++ finales) := hcatches.append hfinales
  have hneed : (needClause [] (catches ++ finales)).run c = ((), c) := by
    have hsome : (catches ++ finales).isEmpty = false := by
      cases hall : catches ++ finales with
      | nil =>
        rw [hall] at hclauses
        exact absurd hclauses.symm hclause
      | cons n ns => rfl
    rw [needClause, hsome, Bool.false_and, if_neg Bool.false_ne_true]
    rfl
  refine .glance hneed ?_
  exact .finish_at ((Likes.cons hblock hcatches).append hfinales) hc

/-- A try statement with clauses is read back, its last block if it has one. -/
theorem tryCatch {word : Token.Among [Keyword.tryKw]} {body : Block} {handlers : Handlers}
    {finale : Finale} (h : body.Readable) (hhandlers : handlers.Readable)
    (hfinale : finale.Readable) : (Statement.tryCatch word body handlers finale).Readable := by
  intro fuel rest c hfuel hrest hc
  simp only [tokens, List.append_assoc, List.cons_append, List.length_append, List.length_cons]
    at hc hfuel
  have hclause : handlers.trees ++ finale.trees ≠ [] := by
    cases handlers <;> exact List.cons_ne_nil _ _
  have hafter : Ahead (· ≠ Keyword.catchKw) (finale.tokens ++ rest) := by
    cases finale with
    | none => exact hrest.imp fun h hk => h.1 (by rw [hk]; decide)
    | clause word body =>
      refine ⟨?_, (Finale.clause word body).calming.calm hrest.calm⟩
      rw [word.kind_eq]
      decide
  have hlast : Ahead (· ≠ Keyword.finallyKw) rest :=
    hrest.imp fun h hk => h.1 (by rw [hk]; decide)
  refine try_lands h (by omega) (handlers.calming.calm hafter.calm) hclause
    (fun d hd => .many (hhandlers (by omega) ?_ hafter hd))
    (fun d hd => hfinale (by omega) hlast hd) hc
  rw [hd, List.length_append]
  omega

/-- A try statement without clauses has a last block. -/
theorem tryFinally {word : Token.Among [Keyword.tryKw]} {body : Block}
    {finally' : Token.Among [Keyword.finallyKw]} {last : Block} (h : body.Readable)
    (hlast : last.Readable) : (Statement.tryFinally word body finally' last).Readable := by
  intro fuel rest c hfuel hrest hc
  simp only [tokens, List.append_assoc, List.cons_append, List.length_append, List.length_cons]
    at hc hfuel
  have hc : c.rest = word.1 ::
      (body.tokens ++ ([] ++ ((Finale.clause finally' last).tokens ++ rest))) := hc
  have hcalm : Calm ((Finale.clause finally' last).tokens ++ rest) :=
    (Finale.clause finally' last).calming.calm hrest.calm
  have hnone (d : Cursor) (hd : d.rest = (Finale.clause finally' last).tokens ++ rest) :
      (check Keyword.catchKw).run d = (false, d) := by
    have hword : Next (· ≠ Keyword.catchKw) d.rest := by
      rw [hd]
      exact finally'.next_ne (by decide)
    exact check_no hword
  have hafter : Ahead (· ≠ Keyword.finallyKw) rest :=
    hrest.imp fun h hk => h.1 (by rw [hk]; decide)
  refine try_lands h (by omega) hcalm (List.cons_ne_nil _ _)
    (fun d hd => .of_eq (q := Pure.pure []) (many_none (hnone d hd)) (.pure likes_nil hd))
    (fun d hd => Finale.Readable.clause hlast ?_ hafter hd) hc
  rw [Finale.tokens, List.length_cons]
  omega

end Statement.Readable

end Clauses

mutual

/-- Every statement is read as it is written. -/
theorem Statement.readable : ∀ {isOpen : Bool} (s : Statement isOpen), s.Readable
  | _, .block body => .block body.readable
  | _, .empty semicolon => .empty semicolon
  | _, .action a semicolon => .action a semicolon
  | _, .declaration d semicolon => .declaration d semicolon
  | _, .ifThen _ _ yes => .ifThen yes.readable
  | _, .ifElse _ _ yes _ no => .ifElse yes.readable no.readable
  | _, .forLoop _ _ body => .forLoop body.readable
  | _, .forEach _ _ body => .forEach body.readable
  | _, .whileLoop _ _ body => .whileLoop body.readable
  | _, .doLoop _ body _ _ _ => .doLoop body.readable
  | _, .switchOn _ _ _ groups _ => .switchOn groups.readable
  | _, .returnWith _ _ _ => .returnWith
  | _, .breakOut _ _ _ => .breakOut
  | _, .continueWith _ _ _ => .continueWith
  | _, .throwUp _ _ _ => .throwUp
  | _, .tryCatch _ body handlers finale =>
    .tryCatch body.readable handlers.readable finale.readable
  | _, .tryFinally _ body _ last => .tryFinally body.readable last.readable
  | _, .synchronized _ _ body => .synchronized body.readable
  | _, .assertion _ _ _ _ => .assertion
  | _, .labeled _ _ body => .labeled body.readable

theorem Block.readable : ∀ body : Block, body.Readable
  | .braces _ items _ => .braces items.readable

/-- All statements of a sequence are read as they are written. -/
theorem Statements.readable : ∀ items : Statements, items.Readable
  | .none => .none
  | .more s items => .more s.readable items.readable

/-- All groups of a `switch` are read as they are written. -/
theorem SwitchGroups.readable : ∀ groups : SwitchGroups, groups.Readable
  | .none => .none
  | .last _ items => .last items.readable
  | .more _ s items groups => .more (.more s.readable items.readable) groups.readable

/-- All `catch` clauses are read as they are written. -/
theorem Handlers.readable : ∀ handlers : Handlers, handlers.Readable
  | .last _ body => .last body.readable
  | .more _ body handlers => .more body.readable handlers.readable

/-- A `finally` clause is read as it is written. -/
theorem Finale.readable : ∀ finale : Finale, finale.Readable
  | .none => .none
  | .clause _ body => .clause body.readable

end

end JavaObjC
