import JavaObjC.Proofs.Printing.Methods
import JavaObjC.Proofs.TypePhrases.Recognition
import JavaObjC.Proofs.TypePhrases.Spelling

/-!
# Reading a type inverts writing it

The text of a well-formed type is written as the type of a field, of a local
variable, of the variable of an enhanced `for`, and of a cast of a name. Each of
the four sources is parsed without problems as the declaration or cast that is
meant, and the node in the place of the type stands for the same type again.
-/

namespace JavaObjC

open Cursor Grammar JavaObjC.Parser Node Lexeme

section Sources

/-- A source with one class and one member. -/
def classSource (label member : Text) : Text :=
  "class " ++ label ++ " \x7b " ++ member ++ " \x7d"

/-- A method without a result around one statement. -/
def methodSource (method statement : Text) : Text :=
  "void " ++ method ++ "() \x7b " ++ statement ++ " \x7d"

/-- A declaration of one name without a value. -/
def declarationSource (t : JavaType) (bound : Text) : Text := t.describe ++ " " ++ bound ++ ";"

/-- A loop around nothing, in which a name goes through a collection. -/
def loopSource (t : JavaType) (bound collection : Text) : Text :=
  "for (" ++ t.describe ++ " " ++ bound ++ " : " ++ collection ++ ") ;"

/-- A cast of a name. -/
def castSource (t : JavaType) (operand : Text) : Text := "(" ++ t.describe ++ ") " ++ operand

/-- An identifier at no place in particular. -/
def placelessName (name : Text) : Token := placeless .identifier name

/-- The tree of a source with one class and one member. -/
def classSourceTree (label : Text) (member : Node) : Node :=
  bare .compilationUnit [bare .classDecl
    [bare .modifiers [], Node.word (placelessName label), bare .block [member]]]

/-- The tree of a method without a result around one statement. -/
def methodSourceTree (method : Text) (statement : Node) : Node :=
  bare .methodDecl [bare .modifiers [], bare .type [Node.word (placeless Keyword.voidKw "void")],
    Node.word (placelessName method), bare .parameters [], bare .block [statement]]

/-- The tree of a field without a value. -/
def fieldTree (type : Node) (label : Token) : Node :=
  bare .fieldDecl [bare .modifiers [], type, bare .varDeclarator [Node.word label]]

/-- The tree of a loop around nothing. -/
def loopTree (type : Node) (bound collection : Token) : Node :=
  bare .enhancedForStmt
    [bare .modifiers [], type, Node.word bound, Node.word collection, bare .emptyStmt []]

/-- A source is parsed without problems, as a tree around a node for a type. -/
def ParsesAround (entry : Entry) (source : Text) (t : JavaType) (around : Node → Node) : Prop :=
  (Parsed.ofSource entry source).problems = [] ∧
    ∃ node, (Parsed.ofSource entry source).tree.erase = around node ∧ JavaType.ofNode node = t

end Sources

section Words

variable {label member method statement operand after : Text} {words : List Said}

/-- What a keyword says. -/
def saidKeyword (word : Keyword) : Said := (.keyword word, Text.ofString word.spelling)

/-- A keyword before something that continues no word is read as the keyword. -/
theorem wording_keyword (word : Keyword) (hafter : frontIs isLetterOrDigit after = false) :
    wording (Text.ofString word.spelling ++ after) = saidKeyword word :: wording after := by
  have hall : ∀ word ∈ Keyword.all, frontIs isLetter (Text.ofString word.spelling) = true ∧
      (Text.ofString word.spelling).all isLetterOrDigit = true ∧
        wordKind (Text.ofString word.spelling) = .keyword word := by decide +kernel
  obtain ⟨hfront, hinner, hkind⟩ := hall word (by cases word <;> decide)
  rw [wording_letters hfront (List.all_eq_true.1 hinner) hafter, hkind]
  rfl

/-- A text that says some words wherever a blank follows it. -/
def SaysAhead (t : Text) (words : List Said) : Prop :=
  ∀ rest, wording (t ++ 32 :: rest) = words ++ wording rest

/-- The words of a class are its frame and the words of its member. -/
theorem wording_classSource (hlabel : IsIdentifier label) (hmember : SaysAhead member words) :
    wording (classSource label member) = saidKeyword .classKw :: (.identifier, label) ::
      saidMark .lbrace :: (words ++ [saidMark .rbrace, (.eof, [])]) := by
  have hclass : Text.ofString "class " = Text.ofString Keyword.classKw.spelling ++ [32] := rfl
  have hopening : Text.ofString " \x7b " = 32 :: (Text.ofString Symbol.lbrace.spelling ++ [32]) := rfl
  have hclosing : Text.ofString " \x7d" = 32 :: Text.ofString Symbol.rbrace.spelling := rfl
  have hend : wording (Text.ofString Symbol.rbrace.spelling) = [saidMark .rbrace, (.eof, [])] := by
    decide +kernel
  simp only [classSource, hclass, hopening, hclosing, List.append_assoc, List.cons_append,
    List.nil_append]
  rw [wording_keyword .classKw rfl, wording_blank, hlabel.wording_append rfl, wording_blank,
    wording_mark_blank, hmember, hend]

/-- The words of a method are its frame and the words of its statement. -/
theorem methodSource_ahead (hmethod : IsIdentifier method) (hstatement : SaysAhead statement words) :
    SaysAhead (methodSource method statement) (saidKeyword .voidKw :: (.identifier, method) ::
      saidMark .lparen :: saidMark .rparen :: saidMark .lbrace :: (words ++ [saidMark .rbrace])) := by
  intro rest
  have hvoid : Text.ofString "void " = Text.ofString Keyword.voidKw.spelling ++ [32] := rfl
  have hopening : Text.ofString "() \x7b " = Text.ofString Symbol.lparen.spelling ++
      (Text.ofString Symbol.rparen.spelling ++
        32 :: (Text.ofString Symbol.lbrace.spelling ++ [32])) := rfl
  have hclosing : Text.ofString " \x7d" = 32 :: Text.ofString Symbol.rbrace.spelling := rfl
  simp only [methodSource, hvoid, hopening, hclosing, List.append_assoc, List.cons_append,
    List.nil_append]
  rw [wording_keyword .voidKw rfl, wording_blank, hmethod.wording_append rfl,
    wording_mark_lone _ (by decide), wording_mark_blank, wording_mark_blank, hstatement,
    wording_mark_blank]

end Words

section Types

variable {t : JavaType} {words : List Said} {bound collection operand : Text}

/-- In front of a blank, a type says its words. -/
theorem Worded.blank (h : Worded t words) (after : Text) :
    wording (t.describe ++ 32 :: after) = words ++ wording after := by
  rw [h.reads after (.inl rfl), wording_blank]

/-- The words of a declaration are those of its type, a name and a semicolon. -/
theorem Worded.declarationSource_ahead (h : Worded t words) (hbound : IsIdentifier bound) :
    SaysAhead (declarationSource t bound)
      (words ++ [(.identifier, bound), saidMark .semicolon]) := by
  intro rest
  have hend : Text.ofString ";" = Text.ofString Symbol.semicolon.spelling := rfl
  have hblank : Text.ofString " " = [32] := rfl
  simp only [declarationSource, hend, hblank, List.append_assoc, List.cons_append,
    List.nil_append]
  rw [h.blank, hbound.wording_append rfl, wording_mark_blank]

/-- The words of an enhanced loop are its frame around those of its type. -/
theorem Worded.loopSource_ahead (h : Worded t words) (hbound : IsIdentifier bound)
    (hcollection : IsIdentifier collection) :
    SaysAhead (loopSource t bound collection)
      (saidKeyword .forKw :: saidMark .lparen :: (words ++ [(.identifier, bound),
        saidMark .colon, (.identifier, collection), saidMark .rparen, saidMark .semicolon])) := by
  intro rest
  have hfor : Text.ofString "for (" = Text.ofString Keyword.forKw.spelling ++
      32 :: Text.ofString Symbol.lparen.spelling := rfl
  have hcolon : Text.ofString " : " = 32 :: (Text.ofString Symbol.colon.spelling ++ [32]) := rfl
  have hblank : Text.ofString " " = [32] := rfl
  have hclosing : Text.ofString ") ;" = Text.ofString Symbol.rparen.spelling ++
      32 :: Text.ofString Symbol.semicolon.spelling := rfl
  simp only [loopSource, hfor, hcolon, hblank, hclosing, List.append_assoc, List.cons_append,
    List.nil_append]
  rw [wording_keyword .forKw rfl, wording_blank, wording_mark_lone _ (by decide), h.blank,
    hbound.wording_append rfl, wording_blank, wording_mark_blank, hcollection.wording_append rfl,
    wording_mark_blank, wording_mark_blank]

/-- The words of a cast are those of its type in parentheses and a name. -/
theorem Worded.castSource_ahead (h : Worded t words) (hoperand : IsIdentifier operand) :
    wording (castSource t operand) = saidMark .lparen ::
      (words ++ [saidMark .rparen, (.identifier, operand), (.eof, [])]) := by
  have hopening : Text.ofString "(" = Text.ofString Symbol.lparen.spelling := rfl
  have hclosing : Text.ofString ") " = Text.ofString Symbol.rparen.spelling ++ [32] := rfl
  have hend : wording operand = [(.identifier, operand), (.eof, [])] := by
    have hlast : wording (operand ++ []) = (.identifier, operand) :: wording [] :=
      hoperand.wording_append rfl
    rwa [List.append_nil, wording_nil] at hlast
  have hclosed : wording (t.describe ++ (Text.ofString Symbol.rparen.spelling ++ 32 :: operand)) =
      words ++ wording (Text.ofString Symbol.rparen.spelling ++ 32 :: operand) :=
    h.reads _ (.inr rfl)
  simp only [castSource, hopening, hclosing, List.append_assoc, List.cons_append, List.nil_append]
  rw [wording_mark_lone _ (by decide), hclosed, wording_mark_blank, hend]

end Types

section Reading

variable {fuel : Nat} {rest : List Token} {c : Cursor}

/-- An identifier as the name of a declaration. -/
def Token.Among.asName (t : Token.Among [.identifier]) : Token.Among nameKinds :=
  ⟨t.1, t.kind_mem (by decide)⟩

/-- Where no parenthesis follows its first name, a type is not taken for a constructor. -/
theorem WrittenType.no_call (w : WrittenType) {label : Token.Among nameKinds}
    (hc : c.rest = w.tokens ++ label.1 :: rest) :
    ((c.tokenAt 0).kind.isName && (c.tokenAt 1).kind == .symbol .lparen) = false := by
  rcases w.shape with ⟨word, brackets, hshape⟩ | ⟨target, brackets, -, hshape⟩
  · rw [hshape] at hc
    rw [tokenAt_zero_cons hc, (by decide : ∀ k ∈ primitiveWords, k.isName = false) _ word.2,
      Bool.false_and]
  · rw [hshape, List.append_assoc] at hc
    obtain ⟨u, us, hfront⟩ : ∃ u us,
        target.tokens ++ (bracketTokens brackets ++ label.1 :: rest) = u :: us := ⟨_, _, rfl⟩
    have hlabel : Next (· ≠ Symbol.lparen) (label.1 :: rest) :=
      (by decide : ∀ k ∈ nameKinds, k ≠ Symbol.lparen) _ label.2
    have hsecond : Next (· ≠ Symbol.lparen) us :=
      target.second (bracketTokens_next brackets hlabel (by decide)) (by decide) (by decide) hfront
    rw [hfront] at hc
    cases us with
    | nil => exact hsecond.elim
    | cons v vs =>
      rw [tokenAt_one_cons hc, beq_eq_false_iff_ne.2 hsecond, Bool.and_false]

/-- At a written type a token that begins results is next. -/
theorem WrittenType.next (w : WrittenType) (ts : List Token) :
    Next (· ∈ resultStarts) (w.tokens ++ ts) := by
  rw [tokens, List.append_assoc]
  exact (w.type.next _).imp (List.mem_cons_of_mem _)

/-- The tree of a type is no error. -/
theorem WrittenType.tree_kind (w : WrittenType) : w.tree.kind ≠ .error := by
  have harrays (n : Nat) (parts : List Node) : (inBrackets n (bare .type parts)).kind ≠ .error := by
    cases n with
    | zero => exact NodeKind.noConfusion
    | succ n =>
      rw [inBrackets_succ]
      exact NodeKind.noConfusion
  obtain ⟨type, closing⟩ := w
  change type.tree.kind ≠ .error
  cases type with
  | primitive word brackets => exact harrays _ _
  | named name brackets => exact harrays _ _
  | generic name opening items => exact harrays 0 _
  | array name opening items closing first brackets => exact harrays _ _

/-- A type in front of a name and a semicolon is read as a field. -/
theorem WrittenType.field_lands (w : WrittenType) (label : Token.Among nameKinds)
    (semicolon : Token.Among [Symbol.semicolon]) (hfuel : w.tokens.length < fuel) :
    ReadsLike (parse fuel .member) (w.tokens ++ [label.1, semicolon.1])
      (fieldTree w.tree label.1) rest := by
  intro c hc
  obtain ⟨fuel, rfl⟩ : ∃ m, fuel = m + 1 := ⟨fuel - 1, by omega⟩
  rw [List.append_assoc] at hc
  refine member_lands (w.next _) (fun marks d hmarks hd => ?_) hc
  refine .glance (rfl : checkName.run d = ((d.tokenAt 0).kind.isName, d)) ?_
  refine .glance (rfl : (kindAt 1).run d = ((d.tokenAt 1).kind, d)) ?_
  rw [w.no_call hd, if_neg Bool.false_ne_true]
  refine (w.lands (by omega) (next_name label _) hd).bind fun declared d hd hdeclared => ?_
  have hkind : ¬ declared.kind = .error := by
    rw [hdeclared.kind_eq]
    exact w.tree_kind
  have hname : (d.tokenAt 0).kind.isName = true := by
    rw [tokenAt_zero_cons hd]
    exact (by decide : ∀ k ∈ nameKinds, k.isName = true) _ label.2
  have hsemicolon : ((d.tokenAt 1).kind == .symbol .lparen) = false := by
    rw [tokenAt_one_cons hd, semicolon.kind_eq]
    rfl
  rw [if_neg hkind]
  refine .glance (rfl : checkName.run d = ((d.tokenAt 0).kind.isName, d)) ?_
  refine .glance (rfl : (kindAt 1).run d = ((d.tokenAt 1).kind, d)) ?_
  rw [hsemicolon, Bool.and_false, if_neg Bool.false_ne_true]
  refine .glance (rfl : checkName.run d = ((d.tokenAt 0).kind.isName, d)) ?_
  rw [hname, List.isEmpty_nil, Bool.and_self, if_pos rfl]
  refine .here fun start => (declarators_name hd).bind fun p d hd hp => ?_
  obtain ⟨nodes, depth⟩ := p
  obtain ⟨hnodes, rfl⟩ := hp
  refine .step (need_past hd semicolon.kind_eq) ?_
  exact .finish_at (.cons hmarks (.cons hdeclared hnodes)) rfl

/-- Every type in parentheses in front of a name is found to be a cast. -/
theorem WrittenType.startsCast_run (w : WrittenType) {opening : Token.Among [Symbol.lparen]}
    {closing : Token.Among [Symbol.rparen]} {operand : Token.Among nameKinds}
    (hc : c.rest = opening.1 :: (w.tokens ++ closing.1 :: operand.1 :: rest)) :
    startsCast.run c = (true, c) := by
  rcases w.shape with ⟨word, brackets, hshape⟩ | ⟨target, brackets, hinners, hshape⟩
  · rw [hshape] at hc
    exact startsCast_primitive opening.kind_eq closing.kind_eq hc
  · have hoperand : castOperandStarts.contains operand.1.kind = true :=
      (by decide : ∀ k ∈ nameKinds, castOperandStarts.contains k = true) _ operand.2
    rw [hshape] at hc
    rw [startsCast_class opening.kind_eq closing.kind_eq hc, hinners, hoperand]
    rfl

/-- A cast of a name to a type is the whole expression in front of the end of file. -/
theorem WrittenType.cast_lands (w : WrittenType) (opening : Token.Among [Symbol.lparen])
    (closing : Token.Among [Symbol.rparen]) (operand : Token.Among nameKinds)
    (eof : Token.Among [.eof]) (hfuel : w.tokens.length < fuel)
    (hc : c.rest = opening.1 :: (w.tokens ++ [closing.1, operand.1, eof.1])) :
    Lands c (· = [eof.1]) (Like (castTree w.tree operand.1)) (expression (parse fuel)) := by
  have hlambda : startsLambda.run c = (false, c) := by
    refine startsLambda_of_arrowless ?_
    rw [hc]
    refine List.forall_mem_cons.2 ⟨?_, List.forall_mem_append.2 ⟨w.crosses.arrowless, ?_⟩⟩
    · rw [opening.kind_eq]
      decide
    · refine List.forall_mem_cons.2 ⟨?_, List.forall_mem_cons.2 ⟨?_, List.forall_mem_singleton.2 ?_⟩⟩
      · rw [closing.kind_eq]
        decide
      · exact (by decide : ∀ k ∈ nameKinds, k ≠ Symbol.arrow) _ operand.2
      · rw [eof.kind_eq]
        decide
  have hreads : ReadsType w.tokens w.tree := fun fuel rest d hfuel hrest hd =>
    w.lands hfuel hrest hd
  exact JavaObjC.cast_lands hreads (by omega) (by omega) (eof.kind_mem (by decide)) hlambda
    (w.startsCast_run hc) hc

/-- A word is determined by its text. -/
theorem word_eq_placelessName (t : Token.Among [.identifier]) :
    Node.word t.1 = Node.word (placelessName t.1.literal) := by
  obtain ⟨⟨kind, span, literal⟩, ht⟩ := t
  obtain rfl : kind = .identifier := List.mem_singleton.1 ht
  rfl

end Reading

section Assembly

variable {t : JavaType} {words : List Said} {label member method statement : Text}
  {bound collection operand : Text} {around : Node → Node}

/-- Tokens that say given words are a statement, whose tree is one around a node for a type. -/
def StatesAround (words : List Said) (t : JavaType) (around : Node → Node) : Prop :=
  ∀ ts, said ts = words → ∃ (s : Statement false) (node : Node),
    s.tokens = ts ∧ s.tree = around node ∧ JavaType.ofNode node = t

/-- Tokens that say given words are read as a member at the end of a class, with a tree around a
node for a type. -/
def MembersAround (words : List Said) (t : JavaType) (around : Node → Node) : Prop :=
  ∀ (frame : ClassFrame) (ts : List Token), said ts = words → Next (· ∈ resultStarts) ts ∧
    ∃ node, JavaType.ofNode node = t ∧ ∀ fuel, ts.length < fuel →
      ReadsLike (parse fuel .member) ts (around node) [frame.closing.1, frame.eof.1]

/-- A class parses around the type when its member does. -/
theorem classSource_parses (hlabel : IsIdentifier label) (hahead : SaysAhead member words)
    (hmember : MembersAround words t around) :
    ParsesAround .compilationUnit (classSource label member) t
      fun node => classSourceTree label (around node) := by
  have hwords := wording_classSource hlabel hahead
  rw [wording_eq_said] at hwords
  obtain ⟨ts, hsource⟩ : ∃ ts, significant (classSource label member) = ts := ⟨_, rfl⟩
  rw [hsource] at hwords
  obtain ⟨word, us, rfl, -, hus⟩ := exists_among_of_said hwords
  obtain ⟨name, vs, rfl, rfl, hvs⟩ := exists_among_of_said hus
  obtain ⟨opening, ws, rfl, -, hws⟩ := exists_among_of_said hvs
  obtain ⟨ts, ends, rfl, hts, hends⟩ := exists_append_of_said hws
  obtain ⟨closing, last, rfl, -, hlast⟩ := exists_among_of_said hends
  obtain ⟨eof, none, rfl, -, hnone⟩ := exists_among_of_said hlast
  obtain rfl := List.map_eq_nil_iff.1 hnone
  let frame : ClassFrame := ⟨word, name.asName, opening, closing, eof⟩
  obtain ⟨hstart, node, htype, hreads⟩ := hmember frame ts hts
  have hlength : ts.length < (frame.tokens ts).length := by
    simp only [ClassFrame.tokens, List.length_cons, List.length_append]
    omega
  have hunit : Lands { consumed := [], rest := frame.tokens ts } (· = [frame.eof.1])
      (Like (frame.tree (around node))) (Entry.compilationUnit.parser (frame.tokens ts).length) :=
    frame.compilationUnit_lands (hstart.imp ((by decide : ∀ k ∈ resultStarts,
      k ∉ [TokenKind.eof, .symbol .rbrace]) _)) (hreads _ hlength) rfl
  obtain ⟨htree, hproblems⟩ := parsed_of_lands hsource hunit
  refine ⟨hproblems, node, htree.trans ?_, htype⟩
  simp only [classSourceTree, ← word_eq_placelessName]
  rfl

/-- A method parses around the type when its statement does. -/
theorem StatesAround.inMethod (hstatement : StatesAround words t around) (method : Text) :
    MembersAround (saidKeyword .voidKw :: (.identifier, method) :: saidMark .lparen ::
        saidMark .rparen :: saidMark .lbrace :: (words ++ [saidMark .rbrace])) t
      fun node => methodSourceTree method (around node) := by
  intro frame ts hts
  obtain ⟨result, us, rfl, hliteral, hus⟩ := exists_among_of_said hts
  obtain ⟨name, vs, rfl, rfl, hvs⟩ := exists_among_of_said hus
  obtain ⟨lparen, ws, rfl, -, hws⟩ := exists_among_of_said hvs
  obtain ⟨rparen, xs, rfl, -, hxs⟩ := exists_among_of_said hws
  obtain ⟨opening, ys, rfl, -, hys⟩ := exists_among_of_said hxs
  obtain ⟨inner, last, rfl, hinner, hlast⟩ := exists_append_of_said hys
  obtain ⟨closing, none, rfl, -, hnone⟩ := exists_among_of_said hlast
  obtain rfl := List.map_eq_nil_iff.1 hnone
  obtain ⟨s, node, rfl, htree, htype⟩ := hstatement inner hinner
  let body : Block := .braces opening (.more s .none) closing
  let whole : MethodFrame := ⟨frame.word, frame.label, frame.opening, result, name.asName, lparen,
    rparen, frame.closing, frame.eof⟩
  have htokens : whole.methodTokens body = result.1 :: name.1 :: lparen.1 :: rparen.1 ::
      opening.1 :: (s.tokens ++ [closing.1]) := by
    simp only [MethodFrame.methodTokens, body, Block.tokens, Statements.tokens, List.append_nil]
    rfl
  have hmethod : whole.methodTree body = methodSourceTree name.1.literal (around node) := by
    have hresult : Node.word result.1 = Node.word (placeless Keyword.voidKw "void") := by
      obtain ⟨⟨kind, span, literal⟩, hkind⟩ := result
      obtain rfl : kind = .keyword .voidKw := List.mem_singleton.1 hkind
      obtain rfl : literal = Text.ofString "void" := hliteral
      rfl
    simp only [methodSourceTree, ← word_eq_placelessName, ← hresult, ← htree]
    rfl
  refine ⟨result.kind_mem (by decide), node, htype, fun fuel hfuel => ?_⟩
  rw [← htokens] at hfuel ⊢
  have hbody : body.tokens.length < fuel := by
    simp only [MethodFrame.methodTokens, List.length_cons] at hfuel
    omega
  dsimp only
  rw [← hmethod]
  exact whole.member_lands body hbody frame.end_calm

/-- A field parses around its type. -/
theorem Worded.field (h : Worded t words) (bound : Text) :
    MembersAround (words ++ [(.identifier, bound), saidMark .semicolon]) t
      fun node => fieldTree node (placelessName bound) := by
  intro frame ts hts
  obtain ⟨us, vs, rfl, hus, hvs⟩ := exists_append_of_said hts
  obtain ⟨w, rfl, htype⟩ := h.written us hus
  obtain ⟨name, ws, rfl, rfl, hws⟩ := exists_among_of_said hvs
  obtain ⟨semicolon, none, rfl, -, hnone⟩ := exists_among_of_said hws
  obtain rfl := List.map_eq_nil_iff.1 hnone
  refine ⟨w.next _, w.tree, htype, fun fuel hfuel => ?_⟩
  simp only [fieldTree, ← word_eq_placelessName]
  rw [List.length_append] at hfuel
  exact w.field_lands name.asName semicolon (by omega)

/-- A local declaration parses around its type. -/
theorem Worded.declaration (h : Worded t words) (bound : Text) :
    StatesAround (words ++ [(.identifier, bound), saidMark .semicolon]) t
      fun node => declarationTree node (placelessName bound) := by
  intro ts hts
  obtain ⟨us, vs, rfl, hus, hvs⟩ := exists_append_of_said hts
  obtain ⟨w, rfl, htype⟩ := h.written us hus
  obtain ⟨name, ws, rfl, rfl, hws⟩ := exists_among_of_said hvs
  obtain ⟨semicolon, none, rfl, -, hnone⟩ := exists_among_of_said hws
  obtain rfl := List.map_eq_nil_iff.1 hnone
  refine ⟨.declaration ⟨.given w, ⟨name.asName, none⟩, []⟩ semicolon, w.tree, ?_, ?_, htype⟩
  · rw [Statement.tokens, Declaration.tokens, List.append_assoc]
    rfl
  · simp only [declarationTree, ← word_eq_placelessName]
    rfl

/-- An enhanced loop parses around the type of its variable. -/
theorem Worded.loop (h : Worded t words) (bound collection : Text) :
    StatesAround (saidKeyword .forKw :: saidMark .lparen :: (words ++ [(.identifier, bound),
        saidMark .colon, (.identifier, collection), saidMark .rparen, saidMark .semicolon])) t
      fun node => loopTree node (placelessName bound) (placelessName collection) := by
  intro ts hts
  obtain ⟨word, us, rfl, -, hus⟩ := exists_among_of_said hts
  obtain ⟨opening, vs, rfl, -, hvs⟩ := exists_among_of_said hus
  obtain ⟨inner, last, rfl, hinner, hlast⟩ := exists_append_of_said hvs
  obtain ⟨w, rfl, htype⟩ := h.written inner hinner
  obtain ⟨name, ws, rfl, rfl, hws⟩ := exists_among_of_said hlast
  obtain ⟨colon, xs, rfl, -, hxs⟩ := exists_among_of_said hws
  obtain ⟨items, ys, rfl, rfl, hys⟩ := exists_among_of_said hxs
  obtain ⟨closing, zs, rfl, -, hzs⟩ := exists_among_of_said hys
  obtain ⟨semicolon, none, rfl, -, hnone⟩ := exists_among_of_said hzs
  obtain rfl := List.map_eq_nil_iff.1 hnone
  let head : EachHead := ⟨opening, .given w, name.asName, colon,
    .ofPrimary (.ofCallee (.name items.asName)), closing⟩
  refine ⟨.forEach word head (.empty semicolon), w.tree, ?_, ?_, htype⟩
  · simp only [Statement.tokens, EachHead.tokens, head, List.append_assoc, List.cons_append]
    rfl
  · simp only [loopTree, ← word_eq_placelessName]
    rfl

/-- A cast parses around its type. -/
theorem Worded.cast_parses (h : Worded t words) (hoperand : IsIdentifier operand) :
    ParsesAround .expression (castSource t operand) t
      fun node => castTree node (placelessName operand) := by
  have hwords := h.castSource_ahead hoperand
  rw [wording_eq_said] at hwords
  obtain ⟨ts, hsource⟩ : ∃ ts, significant (castSource t operand) = ts := ⟨_, rfl⟩
  rw [hsource] at hwords
  obtain ⟨opening, us, rfl, -, hus⟩ := exists_among_of_said hwords
  obtain ⟨inner, last, rfl, hinner, hlast⟩ := exists_append_of_said hus
  obtain ⟨w, rfl, htype⟩ := h.written inner hinner
  obtain ⟨closing, vs, rfl, -, hvs⟩ := exists_among_of_said hlast
  obtain ⟨name, ws, rfl, rfl, hws⟩ := exists_among_of_said hvs
  obtain ⟨eof, none, rfl, -, hnone⟩ := exists_among_of_said hws
  obtain rfl := List.map_eq_nil_iff.1 hnone
  have hlength : w.tokens.length <
      (opening.1 :: (w.tokens ++ [closing.1, name.1, eof.1])).length := by
    rw [List.length_cons, List.length_append]
    omega
  have hcast : Lands { consumed := [], rest := opening.1 ::
      (w.tokens ++ [closing.1, name.1, eof.1]) } (· = [eof.1]) (Like (castTree w.tree name.1))
      (Entry.expression.parser (opening.1 :: (w.tokens ++ [closing.1, name.1, eof.1])).length) :=
    w.cast_lands opening closing name.asName eof hlength rfl
  obtain ⟨htree, hproblems⟩ := parsed_of_lands hsource hcast
  refine ⟨hproblems, w.tree, htree.trans ?_, htype⟩
  simp only [castTree, ← word_eq_placelessName]

/-- Reading a type inverts writing it. The text of a well-formed type, written as the type of a
field, of a local variable, of the variable of an enhanced `for` and of a cast of a name, is parsed
in each place without problems, as that declaration or cast; and the node in the place of the type
stands for the type that was written. -/
theorem types_round_trip (h : t.WellFormed) (hlabel : IsIdentifier label)
    (hmethod : IsIdentifier method) (hbound : IsIdentifier bound)
    (hcollection : IsIdentifier collection) (hoperand : IsIdentifier operand) :
    ParsesAround .compilationUnit (classSource label (declarationSource t bound)) t
      (fun node => classSourceTree label (fieldTree node (placelessName bound))) ∧
    ParsesAround .compilationUnit
      (classSource label (methodSource method (declarationSource t bound))) t
      (fun node => classSourceTree label
        (methodSourceTree method (declarationTree node (placelessName bound)))) ∧
    ParsesAround .compilationUnit
      (classSource label (methodSource method (loopSource t bound collection))) t
      (fun node => classSourceTree label (methodSourceTree method
        (loopTree node (placelessName bound) (placelessName collection)))) ∧
    ParsesAround .expression (castSource t operand) t
      fun node => castTree node (placelessName operand) := by
  obtain ⟨words, htype⟩ := h.worded
  have hdeclaration := htype.declarationSource_ahead hbound
  have hloop := htype.loopSource_ahead hbound hcollection
  exact ⟨classSource_parses hlabel hdeclaration (htype.field bound),
    classSource_parses hlabel (methodSource_ahead hmethod hdeclaration)
      ((htype.declaration bound).inMethod method),
    classSource_parses hlabel (methodSource_ahead hmethod hloop)
      ((htype.loop bound collection).inMethod method),
    htype.cast_parses hoperand⟩

/-- The type `Map<K, java.util.List<V[]>>[]`. -/
def nestedType : JavaType where
  name := Text.join "." ["Map"]
  arguments := [{ name := Text.join "." ["K"] },
    { name := Text.join "." ["java", "util", "List"]
      arguments := [{ name := Text.join "." ["V"], depth := 1 }] }]
  depth := 1

/-- The words of that type and of the sources around it. -/
def nestedWords : List String := ["Map", "K", "java", "util", "List", "V", "A", "m", "x", "y"]

/-- The names in the nested type are identifiers. -/
theorem nestedWords_identifiers : ∀ word ∈ nestedWords.map Text.ofString, IsIdentifier word := by
  decide +kernel

/-- The nested type is well formed. -/
theorem nestedType_wellFormed : nestedType.WellFormed := by
  have hplain {name : Text} (hname : IsIdentifier name) (depth : Nat) :
      JavaType.WellFormed { name := Text.join "." [name], depth } :=
    .named (List.forall_mem_singleton.2 hname) (List.forall_mem_nil _) depth
  have hlist : ∀ part ∈ ["java", "util", "List"].map Text.ofString, IsIdentifier part :=
    fun part hpart => nestedWords_identifiers part (List.map_subset Text.ofString
      (by decide : ["java", "util", "List"] ⊆ nestedWords) hpart)
  refine .named (List.forall_mem_singleton.2 (nestedWords_identifiers _ (by decide)))
    (List.forall_mem_cons.2 ⟨hplain (nestedWords_identifiers _ (by decide)) 0, ?_⟩) 1
  refine List.forall_mem_singleton.2 (.named hlist ?_ 0)
  exact List.forall_mem_singleton.2 (hplain (nestedWords_identifiers _ (by decide)) 1)

theorem types_round_trip_nested :
    nestedType.describe = Text.ofString "Map<K, java.util.List<V[]>>[]" ∧
    ParsesAround .compilationUnit (classSource "A" (declarationSource nestedType "x")) nestedType
      (fun node => classSourceTree "A" (fieldTree node (placelessName "x"))) ∧
    ParsesAround .compilationUnit
      (classSource "A" (methodSource "m" (declarationSource nestedType "x"))) nestedType
      (fun node => classSourceTree "A"
        (methodSourceTree "m" (declarationTree node (placelessName "x")))) ∧
    ParsesAround .compilationUnit
      (classSource "A" (methodSource "m" (loopSource nestedType "x" "y"))) nestedType
      (fun node => classSourceTree "A" (methodSourceTree "m"
        (loopTree node (placelessName "x") (placelessName "y")))) ∧
    ParsesAround .expression (castSource nestedType "y") nestedType
      fun node => castTree node (placelessName "y") := by
  refine ⟨rfl, types_round_trip nestedType_wellFormed ?_ ?_ ?_ ?_ ?_⟩
  all_goals exact nestedWords_identifiers _ (by decide +kernel)

end Assembly

end JavaObjC
