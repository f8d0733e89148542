import JavaObjC.Proofs.Layout
import JavaObjC.Proofs.Progress.Statements
import JavaObjC.Source.Parse
import Mathlib.Data.List.TakeWhile

/-!
# Reading ends at the end of file

Class members and whole units proceed, and with them every phrase. Phrases
inside phrases begin after at least one more token, so as many levels of them
as there are tokens are never used up.

The places of a source form a region that holds all its tokens, so reading stays
inside it. The main statement says that no bound is ever reached, neither that of
a loop nor that of nested phrases, that the end of file stays ahead of the cursor
all the time, not even taken in a lookahead, and that trees and problems name
places of the source only.
-/

namespace JavaObjC

open Cursor

namespace Grammar

variable {R : Region} {room : Nat} {rule rule' : Rules} {c : Cursor} {marks : Node}
  {generics : List Node}

section Constructors

theorem calledConstructor_proceeds (hc : c.Within R) :
    Proceeds R c (PlacedAll R) calledConstructor calledConstructor := by
  have hleaf : ∀ {kind : NodeKind}, (c.tokenAt 0).kind ≠ .eof →
      Proceeds R c (PlacedAll R) (do return [← Parser.leaf kind])
        (do return [← Parser.leaf kind]) := fun hk =>
    (Proceeds.leaf hc hk).bind fun _ _ hc₁ _ h =>
      .pure hc₁ (Node.withinAll_cons.2 ⟨h.1, Node.withinAll_nil⟩)
  refine .kindAt_bind ?_
  generalize hk : (c.tokenAt 0).kind = kind
  split
  · exact hleaf (ne_eof_of_eq hk)
  · exact hleaf (ne_eof_of_eq hk)
  · exact .pure hc Node.withinAll_nil

theorem constructorCall_proceeds (hrule : rule.Agree R room rule') (hc : c.Within R)
    (hroom : c.rest.length ≤ room) :
    Proceeds R c (Placed R) (constructorCall rule) (constructorCall rule') := by
  refine .here_bind hc fun hstart => ?_
  refine (optionalTypeArguments_proceeds hrule hc (by omega)).bind
    fun typed c₁ hc₁ hle₁ htyped => ?_
  refine (calledConstructor_proceeds hc₁).bind fun target c₂ hc₂ hle₂ htarget => ?_
  refine (arguments_proceeds hrule hc₂ (.inl (by omega))).bind fun given c₃ hc₃ _ hgiven => ?_
  exact .need_bind hc₃ fun c₄ hc₄ _ _ =>
    .finish hc₄ hstart (by simpa using ⟨htyped, htarget, hgiven.1⟩)

theorem constructorBody_proceeds (hrule : rule.Agree R room rule') (hc : c.Within R)
    (hroom : c.rest.length ≤ room) :
    Proceeds R c (Placed R) (constructorBody rule) (constructorBody rule') := by
  refine .here_bind hc fun hstart => .need_bind hc fun c₁ hc₁ hle₁ _ => ?_
  refine (Proceeds.optional startsConstructorCall_stays hc₁ fun _ =>
    constructorCall_proceeds hrule hc₁ (by omega)).bind fun call c₂ hc₂ hle₂ hcall => ?_
  refine (Proceeds.manyBefore (fun e he hle _ => hrule .statement e he (by omega)) hc₂).bind
    fun statements c₃ hc₃ _ hstatements => ?_
  exact .need_bind hc₃ fun c₄ hc₄ _ _ =>
    .finish hc₄ hstart (by simpa using ⟨hcall, hstatements.1⟩)

theorem throwsList_proceeds (hrule : rule.Agree R room rule') (hc : c.Within R)
    (hroom : c.rest.length ≤ room + 1) :
    Proceeds R c (Placed R) (throwsList rule) (throwsList rule') := by
  refine .here_bind hc fun hstart => .need_bind hc fun c₁ hc₁ hle₁ _ => ?_
  refine (typeList_proceeds hrule hc₁ (by omega)).bind fun types c₂ hc₂ _ htypes => ?_
  exact .finish hc₂ hstart htypes

theorem constructorDecl_proceeds (hrule : rule.Agree R room rule') (hc : c.Within R)
    (hroom : c.rest.length ≤ room + 1) (hfront : (c.tokenAt 0).kind.isName = true)
    (hmarks : marks.Within R) (hgenerics : Node.WithinAll R generics) :
    Proceeds R c (Took R c.rest.length) (constructorDecl rule marks generics)
      (constructorDecl rule' marks generics) := by
  refine .here_bind hc fun hstart => (Proceeds.name hc).bind fun label c₁ hc₁ _ hlabel => ?_
  have hlt := hlabel.2 hfront
  refine (parameters_proceeds hrule hc₁ (by omega)).bind fun declared c₂ hc₂ hle₂ hdeclared => ?_
  refine (Proceeds.optionalCheck hc₂ fun _ => throwsList_proceeds hrule hc₂ (by omega)).bind
    fun thrown c₃ hc₃ hle₃ hthrown => ?_
  refine (constructorBody_proceeds hrule hc₃ (by omega)).bind fun body c₄ hc₄ hle₄ hbody => ?_
  refine .finish_took hc₄ hstart ?_ fun _ => by omega
  simpa using ⟨hmarks, hgenerics, hlabel.1, hdeclared, hthrown, hbody⟩

end Constructors

section Members

theorem skipResultBrackets_proceeds (hc : c.Within R) :
    Proceeds R c (fun _ _ => True) skipResultBrackets skipResultBrackets := by
  refine .loop (I := fun _ => True) (fun _ e _ he _ => ?_) trivial hc
  refine .ifSkip he (fun e₁ he₁ hlt₁ => ?_) fun _ => .pure he (by simp)
  exact .need_bind he₁ fun e₂ he₂ hle₂ _ =>
    .pure he₂ fun _ _ => ⟨trivial, by omega⟩

theorem methodEnd_proceeds (hrule : rule.Agree R room rule') (hc : c.Within R)
    (hroom : c.rest.length ≤ room) :
    Proceeds R c (PlacedAll R) (methodEnd rule) (methodEnd rule') := by
  refine .ifCheck (fun _ => ?_) fun _ => ?_
  · refine (block_proceeds hrule hc (.inl hroom)).bind fun body c₁ hc₁ _ hbody => ?_
    exact .pure hc₁ (Node.withinAll_cons.2 ⟨hbody.1, Node.withinAll_nil⟩)
  · refine .ifSkip hc (fun c₁ hc₁ hlt₁ => ?_) fun _ => ?_
    · refine (annotationValue_proceeds hrule hc₁ (by omega)).bind fun value c₂ hc₂ _ hvalue => ?_
      exact .need_bind hc₂ fun c₃ hc₃ _ _ =>
        .pure hc₃ (Node.withinAll_cons.2 ⟨hvalue.1, Node.withinAll_nil⟩)
    · exact .need_bind hc fun c₁ hc₁ _ _ => .pure hc₁ Node.withinAll_nil

theorem methodDecl_proceeds (hrule : rule.Agree R room rule') {result : Node} (hc : c.Within R)
    (hroom : c.rest.length ≤ room + 1) (hfront : (c.tokenAt 0).kind.isName = true)
    (hmarks : marks.Within R) (hgenerics : Node.WithinAll R generics)
    (hresult : result.Within R) :
    Proceeds R c (Placed R) (methodDecl rule marks generics result)
      (methodDecl rule' marks generics result) := by
  refine .here_bind hc fun hstart => (Proceeds.name hc).bind fun label c₁ hc₁ _ hlabel => ?_
  have hlt := hlabel.2 hfront
  refine (parameters_proceeds hrule hc₁ (by omega)).bind fun declared c₂ hc₂ hle₂ hdeclared => ?_
  refine (skipResultBrackets_proceeds hc₂).bind fun _ c₃ hc₃ hle₃ _ => ?_
  refine (Proceeds.optionalCheck hc₃ fun _ => throwsList_proceeds hrule hc₃ (by omega)).bind
    fun thrown c₄ hc₄ hle₄ hthrown => ?_
  refine (methodEnd_proceeds hrule hc₄ (by omega)).bind fun body c₅ hc₅ _ hbody => ?_
  refine .finish hc₅ hstart ?_
  simpa using ⟨hmarks, hgenerics, hresult, hlabel.1, hdeclared, hthrown, hbody⟩

theorem fieldDecl_proceeds (hrule : rule.Agree R room rule') {declared : Node} (hc : c.Within R)
    (hroom : c.rest.length ≤ room + 1) (hmarks : marks.Within R) (hdeclared : declared.Within R) :
    Proceeds R c (Placed R) (fieldDecl rule marks declared) (fieldDecl rule' marks declared) := by
  refine .here_bind hc fun hstart => ?_
  refine (declarators_proceed hrule hc hroom).bind fun result c₁ hc₁ _ hnodes => ?_
  obtain ⟨nodes, depth⟩ := result
  exact .need_bind hc₁ fun c₂ hc₂ _ _ => .finish hc₂ hstart
    (by simpa using ⟨hmarks, inArrays_within depth hdeclared, hnodes⟩)

theorem typedMember_proceeds (hrule : rule.Agree R room rule') (hc : c.Within R)
    (hroom : c.rest.length ≤ room + 1) (hmarks : marks.Within R)
    (hgenerics : Node.WithinAll R generics) :
    Proceeds R c (Took R c.rest.length) (typedMember rule marks generics)
      (typedMember rule' marks generics) := by
  refine .glance rfl (.glance rfl (.ite (fun hyes => ?_) fun _ => ?_))
  · rw [Bool.and_eq_true] at hyes
    exact constructorDecl_proceeds hrule hc hroom hyes.1 hmarks hgenerics
  refine (type_proceeds hrule hc hroom).bind fun declared c₁ hc₁ hle₁ hdeclared => ?_
  have htook := hdeclared.2
  by_cases herror : declared.kind = .error
  · simp only [if_pos herror]
    exact .pure hc₁ hdeclared
  simp only [if_neg herror]
  refine .glance rfl (.glance rfl (.ite (fun hyes => ?_) fun _ => .glance rfl
    (.ite (fun _ => ?_) fun _ => ?_)))
  · rw [Bool.and_eq_true] at hyes
    exact (methodDecl_proceeds hrule hc₁ (by omega) hyes.1 hmarks hgenerics hdeclared.1).imp
      fun _ _ _ h => ⟨h, fun _ => by omega⟩
  · exact (fieldDecl_proceeds hrule hc₁ (by omega) hmarks hdeclared.1).imp fun _ _ _ h =>
      ⟨h, fun _ => by omega⟩
  · exact (Proceeds.problem _ _ _ hc₁).imp fun _ _ _ h => ⟨h.1, fun _ => by omega⟩

theorem staticInitializer_proceeds (hrule : rule.Agree R room rule') (hc : c.Within R)
    (hroom : c.rest.length ≤ room + 1) (hk : (c.tokenAt 0).kind ≠ .eof) :
    Proceeds R c (Took R c.rest.length) (staticInitializer rule) (staticInitializer rule') := by
  refine .here_bind hc fun hstart => (Proceeds.leaf hc hk).bind fun word c₁ hc₁ _ hword => ?_
  have hlt := hword.2
  refine (block_proceeds hrule hc₁ (.inl (by omega))).bind fun body c₂ hc₂ hle₂ hbody => ?_
  exact .finish_took hc₂ hstart (by simpa using ⟨hword.1, hbody.1⟩) fun _ => by omega

theorem member_proceeds (hrule : rule.Agree R room rule') (hc : c.Within R)
    (hroom : c.rest.length ≤ room + 1) :
    Proceeds R c (Took R c.rest.length) (member rule) (member rule') := by
  refine .ifCheck (fun hfront => openBlock_proceeds hrule hc hroom hfront) fun _ => ?_
  refine .ifCheck2 (fun hstatic _ => staticInitializer_proceeds hrule hc hroom
    (ne_eof_of_eq hstatic)) ?_
  refine .ifCheck (fun hfront => emptyStmt_proceeds hc hfront) fun _ => ?_
  refine (modifiers_proceeds hrule hc hroom).bind fun marks c₁ hc₁ hle₁ hmarks => ?_
  refine (typeDecl_proceeds hrule hc₁ (by omega) hmarks).bind fun o c₂ hc₂ hle₂ ho => ?_
  cases o with
  | some node =>
    have hnode := ho node rfl
    exact .pure hc₂ ⟨hnode.1, fun _ => by omega⟩
  | none =>
    refine (optionalTypeParameters_proceeds hrule hc₂ (by omega)).bind
      fun generics c₃ hc₃ hle₃ hgenerics => ?_
    exact (typedMember_proceeds hrule hc₃ (by omega) hmarks hgenerics).imp fun _ _ _ h =>
      ⟨h.1, fun _ => by have := h.2; omega⟩

end Members

section Units

theorem packageDecl_proceeds (hc : c.Within R) :
    Proceeds R c (Placed R) packageDecl packageDecl := by
  refine .here_bind hc fun hstart => .need_bind hc fun c₁ hc₁ _ _ => ?_
  refine (qualifiedName_proceeds hc₁).bind fun target c₂ hc₂ _ htarget => ?_
  exact .need_bind hc₂ fun c₃ hc₃ _ _ =>
    .finish hc₃ hstart (by simpa using htarget.1)

theorem importStar_proceeds (hc : c.Within R) :
    Proceeds R c (PlacedAll R) importStar importStar := by
  refine .ifSkip hc (fun c₁ hc₁ _ => ?_) fun _ => .pure hc Node.withinAll_nil
  refine (Proceeds.expect hc₁).bind fun o c₂ hc₂ _ ho => ?_
  cases o with
  | none => exact .pure hc₂ Node.withinAll_nil
  | some t =>
    exact .pure hc₂ (Node.withinAll_cons.2 ⟨Node.within_ofToken (ho.1 t rfl), Node.withinAll_nil⟩)

theorem importDecl_proceeds (hc : c.Within R) (hfront : (c.tokenAt 0).kind = Keyword.importKw) :
    Proceeds R c (Took R c.rest.length) importDecl importDecl := by
  refine .opening_bind hc hfront fun hstart c₁ hc₁ hlt => ?_
  refine (Proceeds.optionalLeaf hc₁).bind fun static c₂ hc₂ hle₂ hstatic => ?_
  refine (qualifiedName_proceeds hc₂).bind fun target c₃ hc₃ hle₃ htarget => ?_
  refine (importStar_proceeds hc₃).bind fun star c₄ hc₄ hle₄ hstar => ?_
  refine .need_bind hc₄ fun c₅ hc₅ hle₅ _ => ?_
  exact .finish_took hc₅ hstart (by simpa using ⟨hstatic, htarget.1, hstar⟩) fun _ => by omega

theorem topLevelDecl_proceeds (hrule : rule.Agree R room rule') (hc : c.Within R)
    (hroom : c.rest.length ≤ room + 1) :
    Proceeds R c (Took R c.rest.length) (topLevelDecl rule) (topLevelDecl rule') := by
  refine (modifiers_proceeds hrule hc hroom).bind fun marks c₁ hc₁ hle₁ hmarks => ?_
  refine (typeDecl_proceeds hrule hc₁ (by omega) hmarks).bind fun o c₂ hc₂ hle₂ ho => ?_
  cases o with
  | some node =>
    have hnode := ho node rfl
    exact .pure hc₂ ⟨hnode.1, fun _ => by omega⟩
  | none =>
    refine .ite (fun _ => ?_) fun _ => ?_
    · exact (Proceeds.problem _ _ _ hc₂).imp fun _ _ _ h =>
        ⟨h.1, fun _ => by have := h.2; omega⟩
    · exact (Proceeds.problem _ _ _ hc₂).imp fun _ _ _ h =>
        ⟨h.1, fun _ => by have := h.2; omega⟩

/-- A unit is read up to the end of file. -/
theorem compilationUnit_proceeds (hrule : rule.Agree R room rule') (hc : c.Within R)
    (hroom : c.rest.length ≤ room + 1) :
    Proceeds R c (fun n e => n.Within R ∧ (e.tokenAt 0).kind = .eof) (compilationUnit rule)
      (compilationUnit rule') := by
  refine .here_bind hc fun hstart => ?_
  refine (Proceeds.optionalCheck hc fun _ => packageDecl_proceeds hc).bind
    fun package c₁ hc₁ hle₁ hpackage => ?_
  have himport : ∀ e : Cursor, ((Parser.check Keyword.importKw).run e).1 = true →
      (e.tokenAt 0).kind = Keyword.importKw := fun e hyes =>
    Parser.kind_of_check (Prod.ext hyes rfl)
  refine (Proceeds.manyWhile (fun _ => rfl)
    (fun e hyes => ne_eof_of_eq (himport e hyes))
    (fun e he _ hyes => importDecl_proceeds he (himport e hyes)) hc₁).bind
    fun imports c₂ hc₂ hle₂ himports => ?_
  refine (Proceeds.loopUntil (I := Node.WithinAll R) (E := fun e => (e.tokenAt 0).kind = .eof)
    (fun types e htypes he hle => ?_) Node.withinAll_nil hc₂).bind fun types c₃ hc₃ _ htypes => ?_
  · refine .ifCheck (fun heof => .pure he ⟨by simp, fun _ => heof⟩) fun hk => ?_
    refine .ifSkip he (fun e₁ he₁ hlt₁ => ?_) fun _ => ?_
    · refine .pure he₁ ⟨fun b hb => ?_, nofun⟩
      cases hb
      exact ⟨htypes, hlt₁⟩
    · refine (topLevelDecl_proceeds hrule he (by omega)).bind fun node e₁ he₁ _ hnode =>
        .pure he₁ ⟨fun b hb => ?_, nofun⟩
      cases hb
      exact ⟨by simpa using ⟨htypes, hnode.1⟩, hnode.2 (he.ne_eof_iff.1 hk)⟩
  · refine (Proceeds.finishWith hc₃ hstart (by simp) ?_).imp fun _ _ _ h =>
      ⟨h.1, by rw [h.2]; exact htypes.2⟩
    simpa using ⟨hpackage, himports.1, htypes.1⟩

end Units

section Nesting

/-- Phrases one level above the given parsers. -/
def level (rule : Rules) : Rules
  | .expression => expression rule
  | .ternary => ternary rule
  | .unary => unary rule
  | .initializer => initializer rule
  | .type => type rule
  | .annotationValue => annotationValue rule
  | .statement => statement rule
  | .member => member rule

/-- Phrases nested `depth` deep, with some parsers at the bottom. -/
def nested (bottom : Rules) : Nat → Rules
  | 0 => bottom
  | depth + 1 => level (nested bottom depth)

theorem parse_succ (fuel : Nat) : parse (fuel + 1) = level (parse fuel) := by
  funext phrase
  cases phrase <;> rfl

/-- Another level makes room for one more token. -/
theorem Rules.Agree.level (hrule : rule.Agree R room rule') :
    (level rule).Agree R (room + 1) (level rule') := by
  intro phrase c hc hroom
  cases phrase with
  | expression => exact expression_proceeds hrule hc hroom
  | ternary => exact ternary_proceeds hrule hc hroom
  | unary => exact unary_proceeds hrule hc hroom
  | initializer => exact initializer_proceeds hrule hc hroom
  | type => exact type_proceeds hrule hc hroom
  | annotationValue => exact annotationValue_proceeds hrule hc hroom
  | statement => exact statement_proceeds hrule hc hroom
  | member => exact member_proceeds hrule hc hroom

/-- As many levels as there are tokens ahead hide what stands at the bottom. -/
theorem parse_agree_nested (bottom : Rules) (depth : Nat) :
    (parse depth).Agree R depth (nested bottom depth) := by
  induction depth with
  | zero =>
    intro phrase c hc hroom
    have := hc.rest_length_pos
    omega
  | succ depth ih =>
    rw [parse_succ]
    exact ih.level

/-- Phrases proceed at every depth, however many tokens are ahead. -/
theorem parse_agree (fuel room : Nat) : (parse fuel).Agree R room (parse fuel) := by
  induction fuel generalizing room with
  | zero => exact fun _ _ hc _ => .problem _ _ _ hc
  | succ fuel ih =>
    rw [parse_succ]
    exact fun phrase c hc hroom => (ih room).level phrase c hc (Nat.le_succ_of_le hroom)

end Nesting

end Grammar

/-- A place of a source, with its line and its column counted from one. -/
def Position.Inside (source : Text) (p : Position) : Prop :=
  p.offset ≤ source.length ∧ 1 ≤ p.line ∧ 1 ≤ p.column

/-- Both ends of a span are places of a source. -/
def Span.Inside (source : Text) (s : Span) : Prop := s.start.Inside source ∧ s.stop.Inside source

theorem Position.Exact.inside {source : Text} {p : Position} (h : p.Exact source) :
    p.Inside source := by
  obtain ⟨hoffset, hexact⟩ := h
  have hline : p.line = 1 + (source.take p.offset).count 10 := congrArg Position.line hexact
  have hcolumn := congrArg Position.column hexact
  simp only [atEnd] at hcolumn
  exact ⟨hoffset, by omega, by omega⟩

/-- The bytes of a token stand in a source, and a symbol is spelled as its mark is. -/
def Token.Inside (source : Text) (t : Token) : Prop :=
  t.span.Inside source ∧ t.span.start.offset + t.literal.length ≤ source.length ∧
    ∀ mark, t.kind = .symbol mark → t.literal = Text.ofString mark.spelling

/-- What is left of a compound token still stands in the source. -/
theorem Token.Inside.shorten {source : Text} {t : Token} {kind : TokenKind}
    (h : t.Inside source) (hkind : Parser.remainder? t.kind = some kind) :
    (Parser.shorten t kind).Inside source := by
  obtain ⟨⟨⟨hoffset, hline, hcolumn⟩, hstop⟩, hlength, hspelled⟩ := h
  obtain ⟨mark, hmark⟩ := exists_mark_of_remainder hkind
  obtain ⟨rest, rfl, hdrop, hlong⟩ := remainder_spelling (hmark ▸ hkind)
  have hliteral := hspelled mark hmark
  rw [hliteral] at hlength
  have hshort := congrArg List.length hdrop
  rw [List.length_drop] at hshort
  refine ⟨⟨⟨?_, hline, ?_⟩, hstop⟩, ?_, ?_⟩
  · simp only [Parser.shorten]
    omega
  · simp only [Parser.shorten]
    omega
  · simp only [Parser.shorten, hliteral, List.length_drop]
    omega
  · rintro other hother
    cases hother
    simp only [Parser.shorten, hliteral, hdrop]

/-- A token that begins like a word is spelled like one to its end. -/
def Token.Lettered (t : Token) : Prop :=
  Lexeme.frontIs Lexeme.isLetter t.literal = true →
    ∀ b ∈ t.literal, Lexeme.isLetterOrDigit b = true

/-- What is left of a compound token begins with no letter. -/
theorem Token.Inside.lettered_shorten {source : Text} {t : Token} {kind : TokenKind}
    (h : t.Inside source) (hkind : Parser.remainder? t.kind = some kind) :
    (Parser.shorten t kind).Lettered := by
  have hmarks : ∀ mark : Symbol,
      Lexeme.frontIs Lexeme.isLetter (Text.ofString mark.spelling) = false := by
    intro mark
    cases mark <;> rfl
  obtain ⟨mark, hmark⟩ := exists_mark_of_remainder hkind
  obtain ⟨rest, rfl, -, -⟩ := remainder_spelling (hmark ▸ hkind)
  have hliteral := (h.shorten hkind).2.2 rest rfl
  intro hletter
  rw [hliteral, hmarks] at hletter
  cases hletter

/-- The places of a source, and tokens whose bytes stand there. -/
def Region.ofSource (source : Text) : Region where
  place := Position.Inside source
  token t := t.Inside source ∧ t.Lettered
  start h := h.1.1.1
  stop h := h.1.1.2
  shorten h hkind := ⟨h.1.shorten hkind, h.1.lettered_shorten hkind⟩

namespace Lexeme

/-- A word is taken up to the first byte that is no letter or digit. -/
theorem next_of_isLetter {b : UInt8} (hb : isLetter b = true) (rest : Text) :
    (next b rest).2 = rest.dropWhile isLetterOrDigit := by
  have hslash : ∀ other : UInt8, ([47, other] : Text).isPrefixOf (b :: rest) = false := by
    intro other
    have hne : (47 == b) = false := beq_false_of_ne fun h => by
      rw [← h] at hb
      revert hb
      decide
    simp [List.isPrefixOf, hne]
  have hspace : isSpace b = false := by
    simp only [isSpace, Bool.or_eq_false_iff, beq_eq_false_iff_ne]
    refine ⟨⟨⟨⟨?_, ?_⟩, ?_⟩, ?_⟩, ?_⟩ <;> rintro rfl <;> exact absurd hb (by decide)
  unfold next
  dsimp only
  rw [if_neg (by exact ne_true_of_eq_false (hslash 47)),
    if_neg (by exact ne_true_of_eq_false (hslash 42)), if_neg (ne_true_of_eq_false hspace),
    if_pos hb]

/-- The tokens of a source that begin like words are words. -/
theorem tokensFrom_lettered (fuel : Nat) (p : Position) (t : Text) :
    ∀ u ∈ tokensFrom fuel p t, u.Lettered := by
  induction fuel generalizing p t with
  | zero => simp [tokensFrom, Token.Lettered, frontIs]
  | succ fuel ih =>
    cases t with
    | nil => simp [tokensFrom, Token.Lettered, frontIs]
    | cons b rest =>
      have hnext : (next b rest).2 <:+ rest := next_suffix b rest
      obtain ⟨front, hfront⟩ := hnext
      have htake := take_length_sub b front (next b rest).2
      rw [hfront] at htake
      simp only [tokensFrom]
      refine List.forall_mem_cons.2 ⟨?_, ih _ _⟩
      rw [Token.Lettered]
      dsimp only
      rw [htake]
      intro hletter
      have hb : isLetter b = true := by simpa [frontIs] using hletter
      have hword : front = rest.takeWhile isLetterOrDigit := by
        rw [next_of_isLetter hb] at hfront
        exact List.append_cancel_right (hfront.trans List.takeWhile_append_dropWhile.symm)
      refine List.forall_mem_cons.2 ⟨by simp [isLetterOrDigit, hb], fun c hc => ?_⟩
      rw [hword] at hc
      exact List.mem_takeWhile_imp hc

/-- The significant tokens of a source stand at its places. -/
theorem significant_placed (source : Text) :
    ∀ t ∈ significant source, (Region.ofSource source).token t := by
  intro t ht
  have hgenuine := (significant_orderly source).genuine t ht
  have hlayout : LaidOut Position.start source (tokens source) :=
    tokensFrom_laidOut Position.start (Nat.le_refl _)
  obtain ⟨hstart, hstop, hliteral⟩ :=
    hlayout.exact [] rfl t (List.mem_of_mem_filter ht)
  simp only [List.nil_append] at hstart hstop hliteral
  refine ⟨⟨⟨hstart.inside, hstop.inside⟩, ?_, hgenuine.spelled⟩,
    tokensFrom_lettered _ _ _ t (List.mem_of_mem_filter ht)⟩
  have hoffset := hstart.1
  rw [hliteral, List.length_drop, List.length_take]
  omega

end Lexeme

/-- The front of a source is inside it. -/
theorem Cursor.within_ofTokens (source : Text) :
    (ofTokens (Lexeme.tokens source)).Within (Region.ofSource source) where
  consumed := by simp [ofTokens]
  rest := Lexeme.significant_placed source
  missing := by simp [ofTokens]
  discarded := by simp [ofTokens]
  ends := (Lexeme.significant_orderly source).ends
  open_consumed := by simp [ofTokens]

namespace Entry

/-- Reads a whole source with phrases nested as deep as there are tokens, above the given
parsers. -/
def readAbove (bottom : Grammar.Rules) (entry : Entry) (source : Text) : Node × Cursor :=
  let cursor := ofTokens (Lexeme.tokens source)
  let rules := Grammar.nested bottom cursor.rest.length
  match entry with
  | .compilationUnit => (Grammar.compilationUnit rules).run cursor
  | .expression => (Grammar.expression rules).run cursor

/-- Whatever stands below the phrases, a source is read the same way, inside its region; a
unit is read up to the end of file. -/
theorem read_proceeds (bottom : Grammar.Rules) (entry : Entry) (source : Text) :
    entry.readAbove bottom source = entry.read source ∧
      (ofTokens (Lexeme.tokens source)).Leads (Region.ofSource source) (entry.read source).2 ∧
      (entry.read source).1.Within (Region.ofSource source) ∧
      (entry = .compilationUnit → ((entry.read source).2.tokenAt 0).kind = .eof) := by
  have hfront := within_ofTokens source
  have hrule := Grammar.parse_agree_nested (R := Region.ofSource source) bottom
    (ofTokens (Lexeme.tokens source)).rest.length
  cases entry with
  | compilationUnit =>
    have hunit := Grammar.compilationUnit_proceeds hrule hfront (Nat.le_succ _)
    exact ⟨hunit.same, hunit.leads, hunit.result.1, fun _ => hunit.result.2⟩
  | expression =>
    have hexpression := Grammar.expression_proceeds hrule hfront (Nat.le_succ _)
    exact ⟨hexpression.same, hexpression.leads, hexpression.result.1, nofun⟩

end Entry

/-- Every way to move the cursor forward keeps the end of file ahead or is counted as a
misstep. -/
theorem Cursor.EndsFile.kept {c : Cursor} (h : EndsFile c.rest) :
    (c.step.missteps = c.missteps → EndsFile c.step.rest) ∧
      (∀ kinds, EndsFile (c.recover kinds).rest) ∧ EndsFile (Grammar.pastAngles c).rest := by
  refine ⟨fun hsame => h.step fun hk => ?_, h.recover, Grammar.skipAngles_endsFile 1 _ h⟩
  cases hc : c.rest with
  | nil => exact h.ne_nil hc
  | cons t rest =>
    rw [tokenAt_zero_cons hc] at hk
    simp [Cursor.step, hc, hk] at hsame

/-- Reading finishes at the right place, for both ways to read a source. Whatever stands below
phrases that are nested as deep as there are tokens is never asked, and no loop is stopped by
its bound. The end of file is never taken, not even in a lookahead: each way to move forward
keeps it ahead or counts as a misstep, and there are none. A unit ends exactly there. All nodes,
in the tree and in trees that were given up, and all missing tokens name places of the source. -/
theorem reading_finishes (entry : Entry) (source : Text) :
    (∀ bottom, entry.readAbove bottom source = entry.read source) ∧
      (entry.read source).2.missteps = 0 ∧
      (∀ c : Cursor, EndsFile c.rest →
        (c.step.missteps = c.missteps → EndsFile c.step.rest) ∧
          (∀ kinds, EndsFile (c.recover kinds).rest) ∧ EndsFile (Grammar.pastAngles c).rest) ∧
      EndsFile (entry.read source).2.rest ∧
      (entry = .compilationUnit →
        ∃ last, (entry.read source).2.rest = [last] ∧ last.kind = .eof) ∧
      (∀ n ∈ (entry.read source).1.walk, n.span.Inside source) ∧
      (∀ tree ∈ (entry.read source).2.discarded, ∀ n ∈ tree.walk, n.span.Inside source) ∧
      ∀ p ∈ (entry.read source).2.missing, p.span.Inside source := by
  obtain ⟨-, hleads, htree, hends⟩ := entry.read_proceeds (Grammar.parse 0) source
  have hwithin := hleads.within
  refine ⟨fun bottom => (entry.read_proceeds bottom source).1, hleads.missteps_eq,
    fun _ h => h.kept, hwithin.ends, fun hunit => ?_, fun n hn => (htree n hn).1,
    fun tree htree n hn => (hwithin.discarded tree htree n hn).1, hwithin.missing⟩
  have heof := hends hunit
  have hshort : ¬ 2 ≤ (entry.read source).2.rest.length := fun h => hwithin.ne_eof_iff.2 h heof
  have hone : (entry.read source).2.rest.length = 1 := by
    have := hwithin.rest_length_pos
    omega
  obtain ⟨last, hlast⟩ := List.length_eq_one_iff.1 hone
  exact ⟨last, hlast, by rw [← heof, tokenAt_zero_cons hlast]⟩

end JavaObjC
