import JavaObjC.Lowering.Statements
import JavaObjC.Proofs.Lowering.Expressions

/-!
# Statements up to places

Every function that generates a statement agrees with itself on nodes that
differ in places only. With the expressions this gives the meaning of every
node, so two trees that are the same without places have the same meaning.
-/

namespace JavaObjC

namespace Lowering

open Generating

variable {n m : Node} {parts parts' : Parts} {part part' : Attributed}

section Bodies

theorem sequence_agrees (h : Parts.Alike parts parts') :
    Agrees Eq (sequence parts) (sequence parts') := by
  refine (Agrees.mapM_eq h fun a b hab => hab.statements).bind ?_
  rintro statements _ ⟨rfl, -⟩
  exact .pure rfl

theorem blockBody_agrees (h : Parts.Alike parts parts') :
    Agrees Eq (blockBody parts) (blockBody parts') :=
  Lower.withScope_agrees (sequence_agrees h)

theorem body_agrees (h : part.Alike part') : Agrees Eq (body part) (body part') := by
  unfold body
  rw [h.kind_eq]
  refine Agrees.ite (fun _ => ?_) fun _ => ?_
  · exact (blockBody_agrees h.pieces.parts).bind_eq fun inner => .pure rfl
  · refine (Lower.withScope_agrees h.statements).bind_eq fun statements => ?_
    split <;> exact .pure rfl

theorem condition_agrees (h : part.Alike part') : Agrees Eq (condition part) (condition part') :=
  h.value.bind_eq fun _ => .pure rfl

end Bodies

section Locals

theorem localTypeText_sound (t : JavaType) : Sound (localTypeText t) :=
  Agrees.ite (fun _ => .pure rfl) fun _ => (Lower.mapType_sound t).bind_eq fun _ => .pure rfl

theorem startedVariable_sound (declared : JavaType) (name : Text) (start : Option Value) :
    Sound (startedVariable declared name start) :=
  (localTypeText_sound _).bind_eq fun _ =>
    (Lower.declareLocal_sound _ _).bind_eq fun _ => .pure rfl

theorem localVariable_agrees (h : part.Alike part') (declared : JavaType) :
    Agrees Eq (localVariable declared part) (localVariable declared part') := by
  have hdeclare := startedVariable_sound declared part.parts.name
  have hstart := h.pieces.parts.getElem? 1
  unfold localVariable
  rw [h.pieces.parts.name_eq]
  generalize part.parts[1]? = start at hstart ⊢
  generalize part'.parts[1]? = start' at hstart ⊢
  cases hstart with
  | none => exact Agrees.bind_eq (.pure rfl) hdeclare
  | some hvalue =>
    refine Agrees.bind_eq ((initialValue_agrees hvalue declared).map fun _ _ h => ?_) hdeclare
    rw [h]

theorem localVariables_agrees (h : Parts.Alike parts parts') (hlength : 2 ≤ parts.length) :
    Agrees Eq (localVariables parts) (localVariables parts') := by
  refine (h.child hlength).bind fun declared declared' hdeclared => ?_
  rw [hdeclared.type_eq]
  exact (Agrees.mapM_eq (h.ofKind .varDeclarator) fun a b hab =>
    localVariable_agrees hab _).mono fun _ _ h => h.1

end Locals

section Loops

theorem loopStart_agrees (h : part.Alike part') : Agrees Eq (loopStart part) (loopStart part') := by
  unfold loopStart
  rw [h.kind_eq]
  refine Agrees.ite (fun hkind => ?_) fun _ => h.value.bind_eq fun _ => .pure rfl
  exact (localVariables_agrees h.pieces.parts (h.pieces.least hkind)).bind_eq fun _ => .pure rfl

theorem loopClause_agrees (h : part.Alike part') (clauses : LoopClauses) :
    Agrees Eq (loopClause clauses part) (loopClause clauses part') := by
  have hcondition : Agrees Eq
      (do return { clauses with condition := ← condition part } : Lower LoopClauses)
      (do return { clauses with condition := ← condition part' }) :=
    (condition_agrees h).bind_eq fun _ => .pure rfl
  unfold loopClause
  rw [h.kind_eq]
  cases hkind : part.kind with
  | forInit =>
    refine (Agrees.mapM_eq h.pieces.parts fun a b hab => loopStart_agrees hab).bind ?_
    rintro starts _ ⟨rfl, -⟩
    exact .pure rfl
  | forUpdate =>
    refine (Agrees.mapM_eq h.pieces.parts fun a b hab => hab.value).bind ?_
    rintro values _ ⟨rfl, -⟩
    exact .pure rfl
  | _ => exact hcondition

theorem forLoop_agrees (h : Pieces n m parts parts') (hkind : n.kind = .forStmt) :
    Agrees Eq (forLoop parts) (forLoop parts') := by
  refine Lower.withScope_agrees ?_
  refine Agrees.bind_eq (.foldlM (S := Eq) h.parts.dropLast ?_ rfl) fun clauses => ?_
  · rintro clauses _ a b rfl hab
    exact loopClause_agrees hab clauses
  · refine (h.lastChild hkind (by decide)).bind fun inner inner' hinner => ?_
    exact (body_agrees hinner).bind_eq fun _ => .pure rfl

theorem loopType_eq (h : Parts.Alike parts parts') : loopType parts' = loopType parts := by
  have hfound := h.find? fun kind => kind = .type || kind = .arrayType
  unfold loopType
  generalize parts.find? _ = a at hfound ⊢
  generalize parts'.find? _ = b at hfound ⊢
  cases hfound with
  | none => rfl
  | some hab => simp [hab.type_eq]

theorem forEach_agrees (h : Pieces n m parts parts') (hkind : n.kind = .enhancedForStmt) :
    Agrees Eq (forEach parts) (forEach parts') := by
  have hleast : 2 ≤ parts.length := h.least hkind
  have hcollection : parts.dropLast.getLast?.isSome := by
    rw [List.getLast?_isSome]
    intro hnil
    have := congrArg List.length hnil
    rw [List.length_dropLast, List.length_nil] at this
    omega
  refine (Lower.require_agrees h.parts.dropLast.getLast? hcollection).bind
    fun collection collection' hab => hab.value.bind_eq fun v => ?_
  rw [h.parts.name_eq, loopType_eq h.parts]
  refine Lower.withScope_agrees ((Lower.declareLocal_sound _ _).bind_eq fun _ => ?_)
  refine (h.lastChild hkind (by decide)).bind fun inner inner' hinner => ?_
  refine (body_agrees hinner).bind_eq fun loopBody => .ite (fun _ => ?_) fun _ => ?_
  · refine (Lower.mapType_sound _).bind_eq fun type => ?_
    exact (Lower.refer_sound _).bind_eq fun _ => .pure rfl
  · exact (Lower.mapType_sound _).bind_eq fun type => .pure rfl

end Loops

section Branches

theorem switchLabel_agrees (h : part.Alike part') :
    Agrees Eq (switchLabel part) (switchLabel part') :=
  h.value.bind_eq fun _ => .ite (fun _ => Attributed.Alike.refuse rfl) fun _ => .pure rfl

theorem switchPart_agrees (h : part.Alike part') (group : List Text × List Stmt) :
    Agrees Eq (switchPart group part) (switchPart group part') := by
  unfold switchPart
  rw [h.kind_eq]
  refine Agrees.ite (fun _ => ?_) fun _ => h.statements.bind_eq fun _ => .pure rfl
  refine (Agrees.mapM_eq h.pieces.parts fun a b hab => switchLabel_agrees hab).bind ?_
  rintro labels _ ⟨rfl, -⟩
  exact .pure rfl

theorem switchGroup_agrees (h : part.Alike part') :
    Agrees Eq (switchGroup part) (switchGroup part') := by
  refine Agrees.bind_eq (.foldlM (S := Eq) h.pieces.parts ?_ rfl) fun group => .pure rfl
  rintro group _ a b rfl hab
  exact switchPart_agrees hab group

theorem switching_agrees (h : Pieces n m parts parts') (hkind : n.kind = .switchStmt) :
    Agrees Eq (switching parts) (switching parts') := by
  refine (h.child hkind 0 (by decide)).bind fun subject subject' hsubject => ?_
  refine hsubject.value.bind_eq fun v => ?_
  refine .ite (fun _ => Attributed.Alike.refuse rfl) fun _ => Lower.withScope_agrees ?_
  refine (Agrees.mapM_eq (h.parts.ofKind .switchCase) fun a b hab => switchGroup_agrees hab).bind ?_
  rintro groups _ ⟨rfl, -⟩
  exact .pure rfl

theorem conditional_agrees (h : Pieces n m parts parts') (hkind : n.kind = .ifStmt) :
    Agrees Eq (conditional parts) (conditional parts') := by
  refine (h.child hkind 0 (by decide)).bind fun test test' htest => ?_
  refine (condition_agrees htest).bind_eq fun test => ?_
  refine (h.child hkind 1 (by decide)).bind fun yes yes' hyes => ?_
  refine (body_agrees hyes).bind_eq fun yes => ?_
  have hno := h.parts.getElem? 2
  generalize parts[2]? = no at hno ⊢
  generalize parts'[2]? = no' at hno ⊢
  cases hno with
  | none => exact .pure rfl
  | some hno => exact (body_agrees hno).bind_eq fun _ => .pure rfl

theorem returning_agrees (h : Parts.Alike parts parts') :
    Agrees Eq (returning parts) (returning parts') := by
  refine Lower.read_sound.bind_eq fun around => ?_
  cases h with
  | nil => exact .pure rfl
  | cons hab _ => exact hab.value.bind_eq fun _ => .pure rfl

theorem jump_agrees (h : Parts.Alike parts parts') (construct : Text) (s : Stmt) :
    Agrees Eq (jump n parts construct s) (jump m parts' construct s) := by
  cases h with
  | nil => exact .pure rfl
  | cons _ _ => exact Pieces.refuse rfl

end Branches

section Exceptions

theorem caughtType_sound (first : JavaType) (others : List JavaType) :
    Sound (caughtType first others) := by
  refine Lower.read_sound.bind_eq fun around => ?_
  refine (Lower.mapType_sound first).bind_eq fun ref => ?_
  refine Agrees.foldlM (T := Eq) (List.forall₂_refl others) ?_ rfl
  rintro caught _ t _ rfl rfl
  exact (Lower.mapType_sound t).bind_eq fun _ => .pure rfl

theorem catchClause_agrees (h : part.Alike part') (hkind : part.kind = .catchClause) :
    Agrees Eq (catchClause part) (catchClause part') := by
  have hrequired : ∀ {kind}, kind ∈ NodeKind.catchClause.requiredParts →
      (part.parts.first? kind).isSome := h.pieces.required hkind
  refine (Lower.require_agrees (h.pieces.parts.first? .type) (hrequired (by decide))).bind
    fun group group' hgroup => ?_
  have htypes := (hgroup.pieces.parts.ofKind .type).map_type
  rw [htypes, hgroup.type_eq, h.pieces.parts.name_eq]
  have hclause : ∀ caught : JavaType × TypeRef, Agrees Eq
      (Lower.withScope do
        Lower.declareLocal part.parts.name caught.1
        let inner ← blockBody (← Lower.require (part.parts.first? .block)).parts
        return (⟨caught.2.render, part.parts.name, inner⟩ : CatchClause))
      (Lower.withScope do
        Lower.declareLocal part.parts.name caught.1
        let inner ← blockBody (← Lower.require (part'.parts.first? .block)).parts
        return ⟨caught.2.render, part.parts.name, inner⟩) := by
    intro caught
    refine Lower.withScope_agrees ((Lower.declareLocal_sound _ _).bind_eq fun _ => ?_)
    refine (Lower.require_agrees (h.pieces.parts.first? .block) (hrequired (by decide))).bind
      fun block block' hblock => ?_
    exact (blockBody_agrees hblock.pieces.parts).bind_eq fun _ => .pure rfl
  split
  · exact (caughtType_sound _ _).bind_eq hclause
  · exact (caughtType_sound _ _).bind_eq hclause

/-- What is tried is known after a block, and stays known. -/
theorem tryPart_agrees (h : part.Alike part') (s : TryParts) :
    Agrees (fun x y => x = y ∧ (s.tried.isSome ∨ part.kind = .block → x.tried.isSome))
      (tryPart s part) (tryPart s part') := by
  unfold tryPart
  rw [h.kind_eq]
  cases hkind : part.kind with
  | block => exact (blockBody_agrees h.pieces.parts).bind_eq fun _ => .pure ⟨rfl, by simp⟩
  | catchClause => exact (catchClause_agrees h hkind).bind_eq fun _ => .pure ⟨rfl, by simp⟩
  | finallyClause =>
    have hrequired : (part.parts.first? .block).isSome := h.pieces.required hkind (by decide)
    refine (Lower.require_agrees (h.pieces.parts.first? .block) hrequired).bind
      fun inner inner' hinner => ?_
    exact (blockBody_agrees hinner.pieces.parts).bind_eq fun _ => .pure ⟨rfl, by simp⟩
  | _ => exact .pure ⟨rfl, by simp⟩

theorem tryParts_agree (h : Parts.Alike parts parts') (s : TryParts) :
    Agrees (fun x y => x = y ∧ (s.tried.isSome ∨ (parts.first? .block).isSome → x.tried.isSome))
      (parts.foldlM tryPart s) (parts'.foldlM tryPart s) := by
  induction h generalizing s with
  | nil => exact .pure ⟨rfl, by simp [Parts.first?]⟩
  | @cons a b parts parts' hab _ ih =>
    rw [List.foldlM_cons, List.foldlM_cons]
    refine (tryPart_agrees hab s).bind ?_
    rintro s' _ ⟨rfl, hs'⟩
    refine (ih s').mono ?_
    rintro x _ ⟨rfl, hx⟩
    refine ⟨rfl, fun hsome => hx ?_⟩
    rw [Parts.first?, List.find?_cons] at hsome
    by_cases hkind : a.kind = .block
    · exact .inl (hs' (.inr hkind))
    · rw [decide_eq_false hkind] at hsome
      exact hsome.imp (fun htried => hs' (.inl htried)) id

theorem trying_agrees (h : Pieces n m parts parts') (hkind : n.kind = .tryStmt) :
    Agrees Eq (trying parts) (trying parts') := by
  unfold trying
  have hresource := h.parts.first? .localVarDecl
  generalize parts.first? .localVarDecl = resource at hresource ⊢
  generalize parts'.first? .localVarDecl = resource' at hresource ⊢
  cases hresource with
  | some hresource => exact Attributed.Alike.refuse rfl
  | none =>
    refine (tryParts_agree h.parts {}).bind ?_
    rintro s _ ⟨rfl, htried⟩
    have hsome := htried (.inr (h.required hkind (by decide)))
    refine (Lower.require_agrees (R := Eq) ?_ hsome).bind_eq fun tried => .pure rfl
    cases s.tried with
    | none => exact .none
    | some tried => exact .some rfl

end Exceptions

theorem statement_agrees (h : Pieces n m parts parts') :
    Agrees Eq (statement n parts) (statement m parts') := by
  unfold statement
  rw [h.kind_eq]
  cases hkind : n.kind with
  | block => exact (blockBody_agrees h.parts).map fun _ _ heq => congrArg Stmt.block heq
  | exprStmt => exact (h.valueAt hkind 0 (by decide)).bind_eq fun _ => .pure rfl
  | ifStmt => exact conditional_agrees h hkind
  | forStmt => exact forLoop_agrees h hkind
  | enhancedForStmt => exact forEach_agrees h hkind
  | whileStmt =>
    refine (h.child hkind 0 (by decide)).bind fun test test' htest => ?_
    refine (condition_agrees htest).bind_eq fun _ => ?_
    refine (h.child hkind 1 (by decide)).bind fun inner inner' hinner => ?_
    exact (body_agrees hinner).bind_eq fun _ => .pure rfl
  | doStmt =>
    refine (h.child hkind 0 (by decide)).bind fun inner inner' hinner => ?_
    refine (body_agrees hinner).bind_eq fun _ => ?_
    refine (h.child hkind 1 (by decide)).bind fun test test' htest => ?_
    exact (condition_agrees htest).bind_eq fun _ => .pure rfl
  | switchStmt => exact switching_agrees h hkind
  | returnStmt => exact returning_agrees h.parts
  | breakStmt => exact jump_agrees h.parts _ _
  | continueStmt => exact jump_agrees h.parts _ _
  | throwStmt => exact (h.valueAt hkind 0 (by decide)).bind_eq fun _ => .pure rfl
  | tryStmt => exact trying_agrees h hkind
  | synchronizedStmt =>
    refine (h.valueAt hkind 0 (by decide)).bind_eq fun lock => ?_
    refine (h.child hkind 1 (by decide)).bind fun inner inner' hinner => ?_
    exact (blockBody_agrees hinner.pieces.parts).bind_eq fun _ => .pure rfl
  | assertStmt => exact Pieces.refuse rfl
  | labeledStmt => exact Pieces.refuse rfl
  | localClassDecl => exact Pieces.refuse rfl
  | _ => exact h.refuseKind

theorem statements_agrees (h : Pieces n m parts parts') :
    Agrees Eq (statements n parts) (statements m parts') := by
  have hstatement : Agrees Eq (do return [← statement n parts] : Lower (List Stmt))
      (do return [← statement m parts']) :=
    (statement_agrees h).bind_eq fun _ => .pure rfl
  unfold statements
  rw [h.kind_eq]
  cases hkind : n.kind with
  | emptyStmt => exact .pure rfl
  | localVarDecl =>
    exact (localVariables_agrees h.parts (h.least hkind)).bind_eq fun _ => .pure rfl
  | _ => exact hstatement

/-- Nodes that differ in places only, with alike parts, mean the same. -/
theorem meaning_agrees (h : Pieces n m parts parts') :
    (meaning n parts).Agrees (meaning m parts') where
  value := expression_agrees h
  operands := leftOperands_agrees h
  array := arrayLiteral_agrees h.parts
  statements := statements_agrees h

/-- Trees that differ in places only mean the same throughout. -/
theorem attributed_alike (herase : n.erase = m.erase) (hshaped : n.Shaped) :
    (attributed n).Alike (attributed m) :=
  Attributed.alike_ofNode (fun _ _ _ _ h => meaning_agrees h) n m herase hshaped

end Lowering

end JavaObjC
