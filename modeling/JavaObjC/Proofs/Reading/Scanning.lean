import JavaObjC.Proofs.Reading.Combinators
import JavaObjC.Source.Grammar.Lookahead

/-!
# Parsers that take tokens as they are

Most of what a lookahead runs only moves the cursor. Such a parser scans: the
tokens it passes stand behind the cursor just as they stood ahead of it. Names,
brackets and skipped type arguments scan; annotations do not, since a value in
one can hold type arguments, and closing these takes marks off the front of
compound tokens.
-/

namespace JavaObjC

open Cursor Grammar

/-- A parser that only looks at the cursor. -/
def Stays {α : Type} (p : Parser α) : Prop := ∀ c : Cursor, (p.run c).2 = c

namespace Stays

variable {α β : Type}

theorem bind {p : Parser α} {f : α → Parser β} (hp : Stays p) (hf : ∀ a, Stays (f a)) :
    Stays (p >>= f) := fun c => (hf (p.run c).1 (p.run c).2).trans (hp c)

theorem ite {p q : Parser α} {b : Bool} (hp : Stays p) (hq : Stays q) :
    Stays (if b = true then p else q) := by
  cases b with
  | true => exact hp
  | false => exact hq

end Stays

/-- A parser that takes tokens as they are from a cursor, and what is known of its
result and of the cursor it ends at. -/
structure ScansFrom {α : Type} (c : Cursor) (Q : α → Cursor → Prop) (p : Parser α) : Prop where
  takes : c.Takes (p.run c).2
  result : Q (p.run c).1 (p.run c).2

/-- A parser that takes tokens as they are, wherever it starts. -/
def Scans {α : Type} (p : Parser α) : Prop := ∀ c : Cursor, ScansFrom c (fun _ _ => True) p

namespace ScansFrom

variable {α β : Type} {c : Cursor} {Q : α → Cursor → Prop} {S : β → Cursor → Prop}

theorem pure {a : α} (h : Q a c) : ScansFrom c Q (Pure.pure a) := ⟨.refl c, h⟩

theorem bind {p : Parser α} {f : α → Parser β} (hp : ScansFrom c Q p)
    (hf : ∀ a c', c.Takes c' → Q a c' → ScansFrom c' S (f a)) : ScansFrom c S (p >>= f) := by
  have hrest := hf _ _ hp.takes hp.result
  exact ⟨hp.takes.trans hrest.takes, hrest.result⟩

theorem ite {p q : Parser α} {b : Bool} (hp : b = true → ScansFrom c Q p)
    (hq : b = false → ScansFrom c Q q) : ScansFrom c Q (if b = true then p else q) := by
  cases b with
  | true => exact hp rfl
  | false => exact hq rfl

/-- A parser that only looks at the cursor. -/
theorem glance {p : Parser α} {f : α → Parser β} {a : α} (hp : p.run c = (a, c))
    (hf : ScansFrom c S (f a)) : ScansFrom c S (p >>= f) := by
  have hrun : (p >>= f).run c = (f a).run c := by
    change (f (p.run c).1).run (p.run c).2 = _
    rw [hp]
  exact ⟨by rw [hrun]; exact hf.takes, by rw [hrun]; exact hf.result⟩

section Branches

variable {x y : Parser β}

theorem ifCheck2 {first second : TokenKind}
    (yes : (c.tokenAt 0).kind = first → (c.tokenAt 1).kind = second → ScansFrom c S x)
    (no : ScansFrom c S y) :
    ScansFrom c S (Parser.check2 first second >>= fun b => if b = true then x else y) := by
  refine glance rfl (.ite (fun h => ?_) fun _ => no)
  have hkinds : (c.tokenAt 0).kind = first ∧ (c.tokenAt 1).kind = second := by simpa using h
  exact yes hkinds.1 hkinds.2

theorem ifCheckAny {kinds : List TokenKind} (yes : (c.tokenAt 0).kind ∈ kinds → ScansFrom c S x)
    (no : ScansFrom c S y) :
    ScansFrom c S (Parser.checkAny kinds >>= fun b => if b = true then x else y) :=
  glance rfl (.ite (fun h => yes (by simpa using h)) fun _ => no)

theorem ifCheckName (yes : (c.tokenAt 0).kind.isName = true → ScansFrom c S x)
    (no : ScansFrom c S y) :
    ScansFrom c S (Parser.checkName >>= fun b => if b = true then x else y) :=
  glance rfl (.ite yes fun _ => no)

end Branches

/-- A token that is not the end of file. -/
theorem advance (hk : (c.tokenAt 0).kind ≠ .eof) :
    ScansFrom c (fun _ c' => c'.rest.length < c.rest.length) Parser.advance :=
  ⟨step_takes hk, Nat.lt_of_succ_le (Nat.le_of_eq (step_rest_length hk))⟩

/-- A token that is not the end of file, as a leaf. -/
theorem leaf {kind : NodeKind} (hk : (c.tokenAt 0).kind ≠ .eof) :
    ScansFrom c (fun _ c' => c'.rest.length < c.rest.length) (Parser.leaf kind) :=
  (advance hk).bind fun _ _ _ h => .pure h

/-- Two tokens that are not the end of file. -/
theorem two_bind {x : Parser β} (h₀ : (c.tokenAt 0).kind ≠ .eof) (h₁ : (c.tokenAt 1).kind ≠ .eof)
    (h : ∀ c', c.Takes c' → c'.rest.length < c.rest.length → ScansFrom c' S x) :
    ScansFrom c S (Parser.advance >>= fun _ => Parser.advance >>= fun _ => x) := by
  have hstep : c.step.Takes c.step.step := step_takes (by rw [tokenAt_step]; exact h₁)
  have hrest := h c.step.step ((step_takes h₀).trans hstep)
    (Nat.lt_of_le_of_lt hstep.rest_length_le (Nat.lt_of_succ_le (Nat.le_of_eq (step_rest_length h₀))))
  exact ⟨((step_takes h₀).trans hstep).trans hrest.takes, hrest.result⟩

/-- The next token is taken if it has the kind. -/
theorem skip {kind : TokenKind} [kind.Inner] :
    ScansFrom c (fun b c' => b = true → c'.rest.length < c.rest.length) (Parser.skip kind) := by
  have hrun := Parser.skip_run kind c
  split at hrun
  · rename_i hkind
    have htoken : (c.tokenAt 0).kind ≠ .eof := by rw [hkind]; exact TokenKind.Inner.ne_eof
    refine ⟨?_, ?_⟩
    · rw [hrun]
      exact step_takes htoken
    · rw [hrun]
      exact fun _ => Nat.lt_of_succ_le (Nat.le_of_eq (step_rest_length htoken))
  · refine ⟨?_, ?_⟩
    · rw [hrun]
      exact .refl c
    · rw [hrun]
      exact nofun

/-- A case distinction by whether a token could be taken. -/
theorem ifSkip {kind : TokenKind} [kind.Inner] {x y : Parser β}
    (yes : ∀ c', c'.rest.length < c.rest.length → ScansFrom c' S x)
    (no : ∀ c' : Cursor, ScansFrom c' S y) :
    ScansFrom c S (Parser.skip kind >>= fun b => if b = true then x else y) :=
  skip.bind fun _ c' _ h => .ite (fun hb => yes c' (h hb)) fun _ => no c'

end ScansFrom

namespace Scans

variable {α β : Type}

theorem pure (a : α) : Scans (Pure.pure a : Parser α) := fun _ => .pure trivial

theorem bind {p : Parser α} {f : α → Parser β} (hp : Scans p) (hf : ∀ a, Scans (f a)) :
    Scans (p >>= f) := fun c => (hp c).bind fun a c' _ _ => hf a c'

theorem ite {p q : Parser α} {b : Bool} (hp : Scans p) (hq : Scans q) :
    Scans (if b = true then p else q) := fun c => .ite (fun _ => hp c) fun _ => hq c

/-- A parser that only looks scans. -/
theorem of_stays {p : Parser α} (h : Stays p) : Scans p := fun c =>
  ⟨by rw [h c]; exact .refl c, trivial⟩

theorem kindAt (n : Nat) : Scans (Parser.kindAt n) := .of_stays fun _ => rfl

theorem check (kind : TokenKind) : Scans (Parser.check kind) := .of_stays fun _ => rfl

theorem check2 (first second : TokenKind) : Scans (Parser.check2 first second) :=
  .of_stays fun _ => rfl

theorem checkAny (kinds : List TokenKind) : Scans (Parser.checkAny kinds) :=
  .of_stays fun _ => rfl

theorem checkName : Scans Parser.checkName := .of_stays fun _ => rfl

theorem finish (kind : NodeKind) (start : Position) (children : List Node) :
    Scans (Parser.finish kind start children) := .of_stays fun _ => rfl

theorem skip {kind : TokenKind} [kind.Inner] : Scans (Parser.skip kind) := fun _ =>
  ⟨ScansFrom.skip.takes, trivial⟩

theorem problem (message : String) (recovery expected : List TokenKind) :
    Scans (Parser.problem message recovery expected) := fun c =>
  ⟨⟨(recover_takes c recovery).moves, (recover_takes c recovery).missing,
    (recover_takes c recovery).missteps_eq⟩, trivial⟩

/-- A loop over steps that scan, and that take a token when the loop goes on. -/
theorem loop {step : α → Parser (Option α)}
    (hstep : ∀ a c, ScansFrom c (fun o c' => o.isSome = true → c'.rest.length < c.rest.length)
      (step a)) (a : α) : Scans (Parser.loop step a) := by
  have hiterate : ∀ bound a (c : Cursor), c.rest.length < bound →
      ScansFrom c (fun _ _ => True) (Parser.iterate step bound a) := by
    intro bound
    induction bound with
    | zero => exact fun a c h => absurd h (Nat.not_lt_zero _)
    | succ bound ih =>
      refine fun a c h => (hstep a c).bind fun o c' _ hshorter => ?_
      cases o with
      | none => exact .pure trivial
      | some b => exact ih b c' (by have := hshorter rfl; omega)
  exact fun c => .glance rfl (hiterate _ a c (by omega))

/-- Items that scan, while a test that scans succeeds; each item takes a token. -/
theorem many {test : Parser Bool} {item : Parser Node} (htest : Scans test)
    (hitem : ∀ c₀ c, test.run c₀ = (true, c) →
      ScansFrom c (fun _ c' => c'.rest.length < c₀.rest.length) item) :
    Scans (Parser.many test item) := by
  have hmany : ∀ bound (c : Cursor), c.rest.length < bound →
      ScansFrom c (fun _ _ => True) (Parser.manyUpTo test item bound) := by
    intro bound
    induction bound with
    | zero => exact fun c h => absurd h (Nat.not_lt_zero _)
    | succ bound ih =>
      intro c₀ h
      have hresult : ScansFrom c₀ (fun b c => test.run c₀ = (b, c)) test := ⟨(htest c₀).takes, rfl⟩
      refine hresult.bind fun b c _ hrun => .ite (fun hb => ?_) fun _ => .pure trivial
      refine (hitem c₀ c (hb ▸ hrun)).bind fun _ c' _ hshorter => ?_
      exact (ih c' (by omega)).bind fun _ _ _ _ => .pure trivial
  exact fun c => .glance rfl (hmany _ c (by omega))

/-- A question that is answered by scanning leaves no trace. -/
theorem lookahead_stays {question : Parser Bool} (h : Scans question) (c : Cursor) :
    ((Parser.lookahead question).run c).2 = c := (h c).takes.goBack

end Scans

namespace Grammar

theorem ne_eof_of_isName {kind : TokenKind} (h : kind.isName = true) : kind ≠ .eof := by
  rintro rfl
  cases h

theorem ne_eof_of_isPrimitive {kind : TokenKind} (h : kind.isPrimitive = true) :
    kind ≠ .eof := by
  rintro rfl
  cases h

/-- A kind from a list without the end of file. -/
theorem ne_eof_of_mem {kinds : List TokenKind} {kind : TokenKind} (h : kind ∈ kinds)
    (hkinds : TokenKind.eof ∉ kinds) : kind ≠ .eof := by
  rintro rfl
  exact hkinds h

/-- A kind that is known is not the end of file. -/
theorem ne_eof_of_eq {kind kind' : TokenKind} [kind'.Inner] (h : kind = kind') : kind ≠ .eof :=
  h ▸ TokenKind.Inner.ne_eof

theorem qualifiedName_scans : Scans qualifiedName := by
  refine fun c => .glance rfl (.ifCheckName (fun hname => ?_) (Scans.problem _ _ _ c))
  refine (ScansFrom.leaf (ne_eof_of_isName hname)).bind fun first c _ _ => ?_
  refine (Scans.many (.check2 _ _) (fun c₀ c hrun => ?_) c).bind
    fun more c _ _ => Scans.finish _ _ _ c
  obtain ⟨hdot, hidentifier⟩ := Parser.kinds_of_check2 hrun
  obtain ⟨-, rfl⟩ := Prod.mk.inj hrun
  have hstep : (c₀.step.tokenAt 0).kind ≠ .eof := by
    rw [tokenAt_step]
    exact ne_eof_of_eq hidentifier
  have hshorter := step_rest_length (ne_eof_of_eq hdot)
  have hleaf : ScansFrom c₀.step (fun _ c' => c'.rest.length < c₀.step.rest.length)
      (Parser.leaf .identifier) := .leaf hstep
  exact ⟨(step_takes (ne_eof_of_eq hdot)).trans hleaf.takes,
    Nat.lt_trans hleaf.result (by omega)⟩

theorem arrayBrackets_scans (element : Node) : Scans (arrayBrackets element) := by
  refine .loop (fun inner c => .ifCheck2 (fun h₀ h₁ => ?_) (.pure (by simp))) element
  refine .two_bind (ne_eof_of_eq h₀) (ne_eof_of_eq h₁) fun c' _ h => ?_
  exact (Scans.finish _ _ _ c').bind fun _ c'' htakes _ =>
    .pure fun _ => Nat.lt_of_le_of_lt htakes.rest_length_le h

theorem bracketPairs_scans : Scans bracketPairs := by
  refine .loop (fun n c => .ifCheck2 (fun h₀ h₁ => ?_) (.pure (by simp))) 0
  exact .two_bind (ne_eof_of_eq h₀) (ne_eof_of_eq h₁) fun c' _ h =>
    .pure fun _ => h

theorem skipBrackets_scans : Scans skipBrackets := bracketPairs_scans.bind fun _ => .pure _

/-- Skipping angle brackets takes tokens as they are. -/
theorem skipAngles_taken (depth : Int) (consumed rest : List Token) :
    ∃ taken, (skipAngles depth consumed rest).1 = taken.reverse ++ consumed ∧
      rest = taken ++ (skipAngles depth consumed rest).2 := by
  induction rest generalizing depth consumed with
  | nil => exact ⟨[], rfl, rfl⟩
  | cons t rest ih =>
    rw [skipAngles]
    split
    · exact ⟨[], rfl, rfl⟩
    · split
      · exact ⟨[], rfl, rfl⟩
      · obtain ⟨taken, hconsumed, hrest⟩ := ih (depth + _) (t :: consumed)
        exact ⟨t :: taken, by rw [hconsumed]; simp, by rw [List.cons_append, ← hrest]⟩

theorem pastAngles_takes (c : Cursor) : c.Takes (pastAngles c) :=
  ⟨skipAngles_taken 1 c.consumed c.rest, List.suffix_rfl, rfl⟩

theorem skipTypeArguments_scans : Scans skipTypeArguments := by
  refine .bind .skip fun _ => .ite (fun c => ⟨pastAngles_takes c, trivial⟩) (.pure _)

/-- An inner class after its dot, with the type arguments that follow it. -/
theorem innerName_scans {c₀ c : Cursor}
    (hrun : (Parser.check2 Symbol.dot .identifier).run c₀ = (true, c)) {x : Node → Parser Node}
    (hx : ∀ inner, Scans (x inner)) :
    ScansFrom c (fun _ c' => c'.rest.length < c₀.rest.length)
      (do let _ ← Parser.advance; let inner ← qualifiedName; x inner) := by
  obtain ⟨hdot, -⟩ := Parser.kinds_of_check2 hrun
  obtain ⟨-, rfl⟩ := Prod.mk.inj hrun
  refine (ScansFrom.advance (ne_eof_of_eq hdot)).bind fun _ c' _ hshorter => ?_
  refine (qualifiedName_scans c').bind fun inner c'' htakes _ => ?_
  exact ⟨(hx inner c'').takes, Nat.lt_of_le_of_lt (hx inner c'').takes.rest_length_le
    (Nat.lt_of_le_of_lt htakes.rest_length_le hshorter)⟩

theorem skipClassName_scans : Scans skipClassName := by
  refine .bind qualifiedName_scans fun _ => .bind (.check _) fun _ => .ite ?_ (.pure _)
  refine .bind skipTypeArguments_scans fun _ => .bind (.many (.check2 _ _) ?_) fun _ => .pure _
  exact fun c₀ c hrun => innerName_scans hrun fun _ =>
    .bind skipTypeArguments_scans fun _ => .pure _

theorem variableAndColon_scans : Scans startsEnhancedFor.variableAndColon := by
  refine .bind (.loop (fun _ c => ?_) ()) fun _ c => .ifCheckName (fun hname => ?_) (.pure trivial)
  · refine .ifSkip (fun c' h => ?_) fun c' => .pure nofun
    exact (Scans.skip c').bind fun _ c'' htakes _ =>
      .pure fun _ => Nat.lt_of_le_of_lt htakes.rest_length_le h
  · exact (ScansFrom.advance (ne_eof_of_isName hname)).bind fun _ c' _ _ => Scans.check _ c'

/-- A cast is recognised without a trace. -/
theorem startsCast_stays : Stays startsCast := by
  refine Scans.lookahead_stays fun c => .ifSkip (fun c _ => ?_) fun c => .pure trivial
  refine .glance rfl (.ite (fun hprimitive => ?_) fun _ => .ite (fun _ => ?_) fun _ =>
    .pure trivial)
  · refine (ScansFrom.advance (ne_eof_of_isPrimitive hprimitive)).bind fun _ c _ _ => ?_
    exact (skipBrackets_scans c).bind fun _ c _ _ => Scans.check _ c
  · refine (qualifiedName_scans c).bind fun _ c _ _ => ?_
    refine (skipTypeArguments_scans c).bind fun _ c _ _ => ?_
    refine (skipBrackets_scans c).bind fun _ c _ _ => ?_
    refine (Scans.many .skip (fun c₀ c hrun => ?_) c).bind fun _ c _ _ => ?_
    · have hskip : ScansFrom c₀ (fun b c' => b = true → c'.rest.length < c₀.rest.length)
          (Parser.skip Symbol.bitAnd) := .skip
      have hshorter := hskip.result
      rw [hrun] at hshorter
      have hname := (qualifiedName_scans.bind fun bound =>
        skipTypeArguments_scans.bind fun _ => Scans.pure bound) c
      exact ⟨hname.takes, Nat.lt_of_le_of_lt hname.takes.rest_length_le (hshorter rfl)⟩
    · exact .ifSkip (fun c _ => Scans.checkAny _ c) fun c => .pure trivial

/-- A call of a constructor is recognised without a trace. -/
theorem startsConstructorCall_stays : Stays startsConstructorCall := by
  refine Scans.lookahead_stays (.bind skipTypeArguments_scans fun _ c => ?_)
  refine .ifCheckAny (fun hword => ?_) (.pure trivial)
  exact (ScansFrom.advance (ne_eof_of_mem hword (by decide))).bind fun _ c _ _ => Scans.check _ c

/-- A lambda is recognised without moving at all. -/
theorem startsLambda_stays : Stays startsLambda := by
  have hrest : Stays (do return arrowAfterClosing 1 ((← get).rest.drop 1)) := fun _ => rfl
  refine .bind (fun _ => rfl) fun _ => .bind (fun _ => rfl) fun _ => .ite (fun _ => rfl) ?_
  exact .bind (fun _ => rfl) fun _ => .ite hrest fun _ => rfl

end Grammar

end JavaObjC
