import JavaObjC.Proofs.Printing.Types
import JavaObjC.Proofs.Wording
import JavaObjC.Signature.JavaType

/-!
# What the text of a type says

The text of a well-formed type says the words of a written type that stands for
it. The angle brackets that close nested type arguments stand in one row, of
which the longest marks are taken, so the words of a type depend on what comes
after it. What is known of a type by itself are the words in front of its last
row, and the length of that row: this is the type with the lists of its last
arguments still open. The row is split when it ends, in front of a comma, array
brackets, or whatever follows the whole type.
-/

namespace JavaObjC

open Lexeme Node

section Words

variable {word after : Text} {words : List Said} {ts : List Token}

/-- What some tokens say. -/
def said (ts : List Token) : List Said := ts.map fun t => (t.kind, t.literal)

theorem wording_eq_said (source : Text) : wording source = said (significant source) := rfl

/-- The first of some tokens, when it is known what they say. -/
theorem exists_among_of_said {kind : TokenKind} (h : said ts = (kind, word) :: words) :
    ∃ (t : Token.Among [kind]) (us : List Token),
      ts = t.1 :: us ∧ t.1.literal = word ∧ said us = words := by
  obtain ⟨t, us, rfl, ht, hus⟩ := List.map_eq_cons_iff.1 h
  obtain ⟨rfl, rfl⟩ := Prod.mk.inj ht
  exact ⟨⟨t, List.mem_singleton_self _⟩, us, rfl, rfl, hus⟩

/-- A word of letters and digits in front of any text that does not go on with it. -/
theorem wording_letters (hfront : frontIs isLetter word = true)
    (hinner : ∀ b ∈ word, isLetterOrDigit b = true)
    (hafter : frontIs isLetterOrDigit after = false) :
    wording (word ++ after) = (wordKind word, word) :: wording after := by
  cases word with
  | nil => cases hfront
  | cons b front =>
    exact wording_word hfront (fun c hc => hinner c (List.mem_cons_of_mem b hc)) hafter

/-- A word that a source is split into as an identifier. -/
structure IsIdentifier (word : Text) : Prop where
  front : frontIs isLetter word = true
  inner : ∀ b ∈ word, isLetterOrDigit b = true
  free : Keyword.ofSpelling? word = none

instance (word : Text) : Decidable (IsIdentifier word) :=
  decidable_of_iff (frontIs isLetter word = true ∧ word.all isLetterOrDigit = true ∧
    Keyword.ofSpelling? word = none)
    ⟨fun h => ⟨h.1, List.all_eq_true.1 h.2.1, h.2.2⟩, fun h => ⟨h.1, List.all_eq_true.2 h.2, h.3⟩⟩

namespace IsIdentifier

/-- An identifier before something that continues no word is read as itself. -/
theorem wording_append (h : IsIdentifier word) (hafter : frontIs isLetterOrDigit after = false) :
    wording (word ++ after) = (.identifier, word) :: wording after := by
  have hkind : wordKind word = .identifier := by
    rw [wordKind, h.free]
    rfl
  rw [wording_letters h.front h.inner hafter, hkind]

end IsIdentifier

/-- What a word begins with, the text beginning with the word does. -/
theorem frontIs_append {test : UInt8 → Bool} (h : frontIs test word = true) (after : Text) :
    frontIs test (word ++ after) = true := by
  cases word with
  | nil => cases h
  | cons b front => exact h

/-- No mark is taken together with a letter. -/
theorem wording_mark_letter (h : frontIs isLetter word = true) (mark : Symbol) :
    wording (Text.ofString mark.spelling ++ word) = saidMark mark :: wording word := by
  have hrivals : rivals.all (fun rival => rival.tail.all fun b => !isLetter b) = true := by
    decide
  refine wording_mark fun b hb hmem => ?_
  have hfront : frontIs isLetter word = isLetter b := by
    rw [frontIs, Option.mem_def.1 hb]
    rfl
  obtain ⟨rival, hrival, hb⟩ := exists_rival_of_mem_followers hmem
  have hplain := List.all_eq_true.1 (List.all_eq_true.1 hrivals rival hrival) b hb
  rw [hfront] at h
  rw [h] at hplain
  cases hplain

/-- A mark in front of a blank. -/
theorem wording_mark_blank (mark : Symbol) (t : Text) :
    wording (Text.ofString mark.spelling ++ 32 :: t) = saidMark mark :: wording t := by
  rw [wording_mark ((Breaks.blank t).frontIs.2.2 mark), wording_blank]

/-- A mark that no other one begins with. -/
theorem wording_mark_lone (mark : Symbol) (h : Lexeme.followers mark = []) (t : Text) :
    wording (Text.ofString mark.spelling ++ t) = saidMark mark :: wording t := by
  refine wording_mark fun b _ => ?_
  rw [h]
  exact List.not_mem_nil

end Words

section Names

variable {after : Text} {ts : List Token} {first : Text} {more : List Text}

/-- The words of a qualified name after its first one. -/
def furtherWords (more : List Text) : List Said :=
  more.flatMap fun part => [saidMark .dot, (.identifier, part)]

/-- The words of a qualified name. -/
def nameWords (first : Text) (more : List Text) : List Said :=
  (.identifier, first) :: furtherWords more

/-- A qualified name begins as its first word does. -/
theorem frontIs_join {test : UInt8 → Bool} (h : frontIs test first = true) (more : List Text) :
    frontIs test (Text.join "." (first :: more)) = true := by
  cases more with
  | nil => exact h
  | cons second more => exact frontIs_append (frontIs_append h _) _

/-- The words of a qualified name are its parts and dots. -/
theorem wording_name (h : ∀ part ∈ first :: more, IsIdentifier part)
    (hafter : frontIs isLetterOrDigit after = false) :
    wording (Text.join "." (first :: more) ++ after) = nameWords first more ++ wording after := by
  induction more generalizing first with
  | nil => exact (h first List.mem_cons_self).wording_append hafter
  | cons second more ih =>
    obtain ⟨hfirst, hmore⟩ := List.forall_mem_cons.1 h
    have hletter : frontIs isLetter (Text.join "." (second :: more) ++ after) = true :=
      frontIs_append (frontIs_join (hmore second List.mem_cons_self).front more) after
    have hdot : wording ("." ++ (Text.join "." (second :: more) ++ after)) =
        saidMark .dot :: wording (Text.join "." (second :: more) ++ after) :=
      wording_mark_letter hletter .dot
    have htext : Text.join "." (first :: second :: more) ++ after =
        first ++ ("." ++ (Text.join "." (second :: more) ++ after)) := by
      rw [← List.append_assoc, ← List.append_assoc]
      rfl
    rw [htext, hfirst.wording_append rfl, hdot, ih hmore]
    rfl

/-- Tokens that say a qualified name are one. -/
theorem exists_name_of_said (h : said ts = nameWords first more) :
    ∃ name : WrittenName,
      name.tokens = ts ∧ qualifiedText name.tree = Text.join "." (first :: more) := by
  obtain ⟨t, us, rfl, rfl, hus⟩ := exists_among_of_said h
  obtain ⟨parts, rfl, rfl⟩ : ∃ parts : List (Token.Among [Symbol.dot] × Token.Among [.identifier]),
      (parts.flatMap fun part => [part.1.1, part.2.1]) = us ∧
        (parts.map fun part => part.2.1.literal) = more := by
    clear h
    induction more generalizing us with
    | nil => exact ⟨[], (List.map_eq_nil_iff.1 hus).symm, rfl⟩
    | cons part more ih =>
      obtain ⟨dot, vs, rfl, -, hvs⟩ := exists_among_of_said hus
      obtain ⟨label, ws, rfl, rfl, hws⟩ := exists_among_of_said hvs
      obtain ⟨parts, rfl, rfl⟩ := ih ws hws
      exact ⟨(dot, label) :: parts, rfl, rfl⟩
  refine ⟨⟨t, parts⟩, rfl, ?_⟩
  have hliterals : (WrittenName.tree ⟨t, parts⟩).children.map Node.literal =
      t.1.literal :: parts.map fun part => part.2.1.literal := by
    simp only [WrittenName.tree, bare, List.map_cons, List.map_map]
    rfl
  rw [qualifiedText, if_neg (by exact NodeKind.noConfusion), hliterals]

end Names

section Brackets

variable {after : Text} {ts : List Token}

/-- The words of pairs of empty brackets. -/
def bracketWords (depth : Nat) : List Said :=
  (List.replicate depth [saidMark .lbracket, saidMark .rbracket]).flatten

/-- The text of pairs of empty brackets. -/
def bracketText (depth : Nat) : Text := (List.replicate depth (Text.ofString "[]")).flatten

/-- The words of brackets are the pairs of them. -/
theorem wording_brackets (depth : Nat) (after : Text) :
    wording (bracketText depth ++ after) = bracketWords depth ++ wording after := by
  induction depth with
  | zero => rfl
  | succ depth ih =>
    have htext : bracketText (depth + 1) = "[]" ++ bracketText depth := rfl
    rw [htext, List.append_assoc]
    have hpair (t : Text) : wording ("[]" ++ t) =
        saidMark .lbracket :: saidMark .rbracket :: wording t := by
      have hopen := wording_mark_lone .lbracket (by decide)
        (Text.ofString Symbol.rbracket.spelling ++ t)
      have hclosed := wording_mark_lone .rbracket (by decide) t
      rw [← hclosed, ← hopen]
      rfl
    rw [hpair, ih]
    rfl

/-- Tokens that say brackets are as many pairs. -/
theorem exists_brackets_of_said {depth : Nat} (h : said ts = bracketWords depth) :
    ∃ brackets : List BracketPair, bracketTokens brackets = ts ∧ brackets.length = depth := by
  induction depth generalizing ts with
  | zero => exact ⟨[], (List.map_eq_nil_iff.1 h).symm, rfl⟩
  | succ depth ih =>
    obtain ⟨opening, us, rfl, -, hus⟩ := exists_among_of_said h
    obtain ⟨closing, vs, rfl, -, hvs⟩ := exists_among_of_said hus
    obtain ⟨brackets, rfl, rfl⟩ := ih hvs
    exact ⟨⟨opening, closing⟩ :: brackets, rfl, rfl⟩

/-- The words of a row of closing angle brackets. -/
def closingWords : Nat → List Said
  | 0 => []
  | 1 => [saidMark .gt]
  | 2 => [saidMark .shr]
  | n + 3 => saidMark .ushr :: closingWords n

/-- A row of closing angle brackets says its longest marks, if nothing follows that could
belong to them. -/
theorem wording_closing {n : Nat} (hafter : ∀ b ∈ after.head?, b ≠ 62 ∧ b ≠ 61) :
    wording (List.replicate n 62 ++ after) = closingWords n ++ wording after := by
  have hmark (mark : Symbol) (hmark : ∀ b ∈ Lexeme.followers mark, b = 62 ∨ b = 61) :
      wording (Text.ofString mark.spelling ++ after) = saidMark mark :: wording after := by
    refine wording_mark fun b hb hmem => ?_
    rcases hmark b hmem with rfl | rfl
    · exact (hafter _ hb).1 rfl
    · exact (hafter _ hb).2 rfl
  induction n using closingWords.induct with
  | case1 => rfl
  | case2 => exact hmark .gt (by decide +kernel)
  | case3 => exact hmark .shr (by decide +kernel)
  | case4 n ih =>
    have hrow : wording (Text.ofString Symbol.ushr.spelling ++ (List.replicate n 62 ++ after)) =
        saidMark .ushr :: wording (List.replicate n 62 ++ after) := by
      have hfollowers : Lexeme.followers .ushr = [61] := by decide
      refine wording_mark fun b hb hmem => ?_
      rw [hfollowers] at hmem
      obtain rfl := List.mem_singleton.1 hmem
      cases n with
      | zero => exact (hafter _ hb).2 rfl
      | succ n => cases hb
    rw [closingWords, List.cons_append, ← ih, ← hrow]
    rfl

/-- Tokens that say a row of closing angle brackets close as many lists. -/
theorem closes_of_said {n : Nat} (h : said ts = closingWords n) : Closes n ts := by
  have hcloses {mark : Symbol} (hmark : TokenKind.symbol mark ∈ closingAngles)
      (t : Token.Among [TokenKind.symbol mark]) {m : Nat} {us : List Token} (hus : Closes m us) :
      Closes (closings mark + m) (t.1 :: us) := by
    have hcons := hus.cons (t := t.1) (by rw [t.kind_eq]; exact hmark)
    rwa [t.kind_eq] at hcons
  induction n using closingWords.induct generalizing ts with
  | case1 =>
    rw [List.map_eq_nil_iff.1 h]
    exact .nil
  | case2 =>
    obtain ⟨t, us, rfl, -, hus⟩ := exists_among_of_said h
    rw [List.map_eq_nil_iff.1 hus]
    exact hcloses (by decide) t .nil
  | case3 =>
    obtain ⟨t, us, rfl, -, hus⟩ := exists_among_of_said h
    rw [List.map_eq_nil_iff.1 hus]
    exact hcloses (by decide) t .nil
  | case4 n ih =>
    obtain ⟨t, us, rfl, -, hus⟩ := exists_among_of_said h
    have hcount : closings (.symbol .ushr) + n = n + 3 := Nat.add_comm 3 n
    have hrow : Closes (closings (.symbol .ushr) + n) (t.1 :: us) := hcloses (by decide) t (ih hus)
    rwa [hcount] at hrow

end Brackets

section Types

variable {t : JavaType} {ts : List Token} {words : List Said} {n : Nat}

/-- A type as it can be written: a primitive type, or names joined by dots with well-formed
types as arguments, of any number of array dimensions. -/
inductive JavaType.WellFormed : JavaType → Prop where
  | primitive {name : Text} (h : name ∈ JavaType.primitiveNames) (depth : Nat) :
    WellFormed { name, depth }
  | named {first : Text} {more : List Text} {arguments : List JavaType}
    (hname : ∀ part ∈ first :: more, IsIdentifier part)
    (harguments : ∀ a ∈ arguments, WellFormed a) (depth : Nat) :
    WellFormed { name := Text.join "." (first :: more), arguments, depth }

/-- The bytes with which the text after a type begins. -/
def typeEnds : List UInt8 := Text.ofString " ),>"

/-- A text in front of which the text of a type ends. -/
def EndsType (after : Text) : Prop := ∃ b ∈ after.head?, b ∈ typeEnds

/-- What ends a type continues no word. -/
theorem EndsType.frontIs {after : Text} (h : EndsType after) :
    frontIs isLetterOrDigit after = false := by
  obtain ⟨b, hb, hends⟩ := h
  cases after with
  | nil => cases hb
  | cons c after =>
    obtain rfl : c = b := Option.some_inj.1 hb
    have hall : typeEnds.all (fun b => !isLetterOrDigit b) = true := by decide
    exact (Bool.not_eq_true' _).mp (List.all_eq_true.1 hall c hends)

/-- Tokens that say two things one after the other. -/
theorem exists_append_of_said {front back : List Said} (h : said ts = front ++ back) :
    ∃ us vs, ts = us ++ vs ∧ said us = front ∧ said vs = back :=
  List.map_eq_append_iff.1 h

/-- A type whose text says given words, those of a written type with `n` lists still open, and
then a row of as many closing angle brackets. -/
structure Spelled (t : JavaType) (n : Nat) (words : List Said) : Prop where
  letter : frontIs isLetter t.describe = true
  reads : ∀ after, EndsType after →
    wording (t.describe ++ after) = words ++ wording (List.replicate n 62 ++ after)
  written : ∀ ts, said ts = words → ∃ o : OpenType n, o.tokens = ts ∧ JavaType.ofNode o.tree = t

/-- The same of type arguments with commas between them. -/
structure SpelledArguments (first : JavaType) (more : List JavaType) (n : Nat)
    (words : List Said) : Prop where
  letter : frontIs isLetter first.describe = true
  reads : ∀ after, EndsType after →
    wording (first.describe ++ (JavaType.describeMore more ++ after)) =
      words ++ wording (List.replicate n 62 ++ after)
  written : ∀ ts, said ts = words →
    ∃ items : OpenArguments n, items.tokens = ts ∧ JavaType.ofAll items.trees = first :: more

namespace JavaType

/-- Array nodes around a node add as many dimensions to its type. -/
theorem ofNode_inBrackets (depth : Nat) (node : Node) :
    ofNode (inBrackets depth node) = (ofNode node).addDepth depth := by
  induction depth generalizing node with
  | zero =>
    change ofNode node = (ofNode node).addDepth 0
    cases ofNode node
    rfl
  | succ depth ih =>
    have hcount : 1 + depth = depth + 1 := Nat.add_comm 1 depth
    rw [inBrackets, ih]
    simp only [bare, ofNode, addDepth, Nat.add_assoc, hcount]

theorem ofNode_word (t : Token) : ofNode (bare .type [.word t]) = { name := t.literal } := rfl

/-- A name stands for the type of its text. -/
theorem ofNode_named (name : WrittenName) :
    ofNode (bare .type [name.tree]) = { name := qualifiedText name.tree } := rfl

/-- A name with arguments stands for a type with theirs. -/
theorem ofNode_generic (name : WrittenName) (items : List Node) :
    ofNode (bare .type [name.tree, bare .typeArguments items]) =
      { name := qualifiedText name.tree, arguments := ofAll items } := rfl

/-- A type without arguments is described by its name and brackets. -/
theorem describe_plain (name : Text) (depth : Nat) :
    describe { name, depth } = name ++ bracketText depth := rfl

/-- A type with arguments is described with them in angles. -/
theorem describe_generic (name : Text) (head : JavaType) (others : List JavaType) (depth : Nat) :
    describe { name, arguments := head :: others, depth } =
      name ++ "<" ++ head.describe ++ describeMore others ++ ">" ++ bracketText depth := rfl

/-- Brackets before what ends a type continue no word. -/
theorem frontIs_brackets {after : Text} (h : EndsType after) (depth : Nat) :
    frontIs isLetterOrDigit (bracketText depth ++ after) = false := by
  cases depth with
  | zero => exact h.frontIs
  | succ depth => rfl

end JavaType

namespace Spelled

/-- A primitive type says its word and its brackets. -/
theorem primitive {name : Text} (h : name ∈ JavaType.primitiveNames) (depth : Nat) :
    Spelled { name, depth } 0 ((wordKind name, name) :: bracketWords depth) := by
  obtain ⟨hfront, hinner, hkind⟩ := (by decide : ∀ name ∈ JavaType.primitiveNames,
    frontIs isLetter name = true ∧ name.all isLetterOrDigit = true ∧
      wordKind name ∈ primitiveWords) name h
  refine ⟨frontIs_append hfront _, fun after hafter => ?_, fun ts hts => ?_⟩
  · rw [JavaType.describe_plain, List.append_assoc, wording_letters hfront (List.all_eq_true.1 hinner)
      (JavaType.frontIs_brackets hafter depth), wording_brackets]
    rfl
  · obtain ⟨word, us, rfl, hliteral, hus⟩ := exists_among_of_said hts
    obtain ⟨brackets, rfl, rfl⟩ := exists_brackets_of_said hus
    refine ⟨.primitive ⟨word.1, word.kind_mem (List.forall_mem_singleton.2 hkind)⟩ brackets,
      rfl, ?_⟩
    rw [OpenType.tree, JavaType.ofNode_inBrackets, JavaType.ofNode_word, hliteral]
    simp [JavaType.addDepth]

variable {first : Text} {more : List Text}

/-- A type without arguments says its name and its brackets. -/
theorem named (hname : ∀ part ∈ first :: more, IsIdentifier part) (depth : Nat) :
    Spelled { name := Text.join "." (first :: more), depth } 0
      (nameWords first more ++ bracketWords depth) := by
  have hfront := frontIs_join (hname first List.mem_cons_self).front more
  refine ⟨frontIs_append hfront _, fun after hafter => ?_, fun ts hts => ?_⟩
  · rw [JavaType.describe_plain, List.append_assoc,
      wording_name hname (JavaType.frontIs_brackets hafter depth), wording_brackets,
      List.append_assoc]
    rfl
  · obtain ⟨us, vs, rfl, hus, hvs⟩ := exists_append_of_said hts
    obtain ⟨name, rfl, htext⟩ := exists_name_of_said hus
    obtain ⟨brackets, rfl, rfl⟩ := exists_brackets_of_said hvs
    refine ⟨.named name brackets, rfl, ?_⟩
    rw [OpenType.tree, JavaType.ofNode_inBrackets, JavaType.ofNode_named, htext]
    simp [JavaType.addDepth]

variable {head : JavaType} {others : List JavaType}

/-- A name with type arguments in angle brackets says the name, the opening bracket and the
words of the arguments before its last row of closing brackets. -/
theorem wording_generic (hname : ∀ part ∈ first :: more, IsIdentifier part)
    (h : SpelledArguments head others n words) (after : Text) :
    wording (Text.join "." (first :: more) ++ "<" ++ head.describe ++
        JavaType.describeMore others ++ ">" ++ after) =
      nameWords first more ++
        saidMark .lt :: (words ++ wording (List.replicate (n + 1) 62 ++ after)) := by
  have hends : EndsType (Text.ofString ">" ++ after) := ⟨62, rfl, by decide⟩
  have hrow : List.replicate n 62 ++ (Text.ofString ">" ++ after) =
      List.replicate (n + 1) 62 ++ after := by
    rw [List.replicate_succ', List.append_assoc]
    rfl
  have hopen := wording_mark_letter
    (frontIs_append h.letter (JavaType.describeMore others ++ (">" ++ after))) .lt
  rw [h.reads _ hends, hrow] at hopen
  simp only [List.append_assoc]
  rw [wording_name hname rfl]
  exact congrArg (nameWords first more ++ ·) hopen

/-- Tokens that say a name, an opening angle bracket and type arguments. -/
theorem exists_generic_of_said (h : SpelledArguments head others n words)
    (hts : said ts = nameWords first more ++ saidMark .lt :: words) :
    ∃ (name : WrittenName) (opening : Token.Among [Symbol.lt]) (items : OpenArguments n),
      name.tokens ++ opening.1 :: items.tokens = ts ∧
        qualifiedText name.tree = Text.join "." (first :: more) ∧
          JavaType.ofAll items.trees = head :: others := by
  obtain ⟨us, vs, rfl, hus, hvs⟩ := exists_append_of_said hts
  obtain ⟨name, rfl, htext⟩ := exists_name_of_said hus
  obtain ⟨opening, ws, rfl, -, hws⟩ := exists_among_of_said hvs
  obtain ⟨items, rfl, harguments⟩ := h.written ws hws
  exact ⟨name, opening, items, rfl, htext, harguments⟩

/-- With type arguments and without array dimensions a type adds a bracket to the last row. -/
theorem generic (hname : ∀ part ∈ first :: more, IsIdentifier part)
    (h : SpelledArguments head others n words) :
    Spelled { name := Text.join "." (first :: more), arguments := head :: others } (n + 1)
      (nameWords first more ++ saidMark .lt :: words) := by
  have hfront := frontIs_join (hname first List.mem_cons_self).front more
  refine ⟨?_, fun after _ => ?_, fun ts hts => ?_⟩
  · simp only [JavaType.describe_generic, List.append_assoc]
    exact frontIs_append hfront _
  · have hplain : bracketText 0 = [] := rfl
    rw [JavaType.describe_generic, hplain, List.append_nil, wording_generic hname h after,
      List.append_assoc, List.cons_append]
  · obtain ⟨name, opening, items, rfl, htext, harguments⟩ := exists_generic_of_said h hts
    refine ⟨.generic name opening items, by rw [OpenType.tokens], ?_⟩
    rw [OpenType.tree, JavaType.ofNode_generic, htext, harguments]

/-- With array dimensions a type closes all lists that are open in it. -/
theorem array (hname : ∀ part ∈ first :: more, IsIdentifier part)
    (h : SpelledArguments head others n words) (depth : Nat) :
    Spelled ⟨Text.join "." (first :: more), head :: others, depth + 1⟩ 0
      (nameWords first more ++ saidMark .lt ::
        (words ++ (closingWords (n + 1) ++ bracketWords (depth + 1)))) := by
  have hfront := frontIs_join (hname first List.mem_cons_self).front more
  refine ⟨?_, fun after _ => ?_, fun ts hts => ?_⟩
  · simp only [JavaType.describe_generic, List.append_assoc]
    exact frontIs_append hfront _
  · have hrow : wording (List.replicate (n + 1) 62 ++ (bracketText (depth + 1) ++ after)) =
        closingWords (n + 1) ++ wording (bracketText (depth + 1) ++ after) := by
      refine wording_closing ?_
      rintro b ⟨⟩
      decide
    rw [JavaType.describe_generic, List.append_assoc _ (bracketText (depth + 1)),
      wording_generic hname h, hrow, wording_brackets]
    simp only [List.replicate_zero, List.nil_append, List.append_assoc, List.cons_append]
  · have hts : said ts = (nameWords first more ++ saidMark .lt :: words) ++
        (closingWords (n + 1) ++ bracketWords (depth + 1)) := by
      rw [hts, List.append_assoc, List.cons_append]
    obtain ⟨us, vs, rfl, hus, hvs⟩ := exists_append_of_said hts
    obtain ⟨name, opening, items, rfl, htext, harguments⟩ := exists_generic_of_said h hus
    obtain ⟨closing, ws, rfl, hclosing, hws⟩ := exists_append_of_said hvs
    obtain ⟨brackets, rfl, hlength⟩ := exists_brackets_of_said hws
    cases brackets with
    | nil => cases hlength
    | cons pair brackets =>
      obtain rfl : brackets.length = depth := Nat.succ_inj.1 hlength
      refine ⟨.array name opening items ⟨closing, closes_of_said hclosing⟩ pair brackets, ?_, ?_⟩
      · rw [OpenType.tokens, List.append_assoc, List.cons_append]
      · rw [OpenType.tree, JavaType.ofNode_inBrackets, JavaType.ofNode_generic, htext, harguments]
        simp [JavaType.addDepth]

end Spelled

namespace SpelledArguments

variable {head second : JavaType} {others : List JavaType} {m : Nat} {further : List Said}

/-- A spelled type is the last of spelled arguments. -/
theorem last (h : Spelled t n words) : SpelledArguments t [] n words where
  letter := h.letter
  reads := h.reads
  written := by
    intro ts hts
    obtain ⟨o, rfl, htree⟩ := h.written ts hts
    refine ⟨.last o, by rw [OpenArguments.tokens], ?_⟩
    rw [OpenArguments.trees, JavaType.ofAll, JavaType.ofAll, htree]

/-- An argument in front of a comma closes all lists that are open in it. -/
theorem more (h : Spelled t m words) (hmore : SpelledArguments head others n further) :
    SpelledArguments t (head :: others) n
      (words ++ (closingWords m ++ saidMark .comma :: further)) where
  letter := h.letter
  reads := by
    intro after hafter
    have hends (rest : Text) : EndsType (Text.ofString ", " ++ rest) := ⟨44, rfl, by decide⟩
    have hrow (rest : Text) : wording (List.replicate m 62 ++ (Text.ofString ", " ++ rest)) =
        closingWords m ++ saidMark .comma :: wording rest := by
      have hcomma : wording (Text.ofString ", " ++ rest) = saidMark .comma :: wording rest :=
        wording_mark_blank .comma rest
      rw [← hcomma]
      refine wording_closing ?_
      rintro b ⟨⟩
      decide
    rw [JavaType.describeMore, List.append_assoc, List.append_assoc, h.reads _ (hends _), hrow,
      hmore.reads after hafter]
    simp only [List.append_assoc, List.cons_append]
  written := by
    intro ts hts
    obtain ⟨us, vs, rfl, hus, hvs⟩ := exists_append_of_said hts
    obtain ⟨o, rfl, htree⟩ := h.written us hus
    obtain ⟨closing, ws, rfl, hclosing, hws⟩ := exists_append_of_said hvs
    obtain ⟨comma, rest, rfl, -, hrest⟩ := exists_among_of_said hws
    obtain ⟨items, rfl, harguments⟩ := hmore.written rest hrest
    refine ⟨.more o ⟨closing, closes_of_said hclosing⟩ comma items, by rw [OpenArguments.tokens], ?_⟩
    rw [OpenArguments.trees, JavaType.ofAll, htree, harguments]

/-- Types that are spelled are spelled as arguments. -/
theorem exists_of_forall (first : JavaType) (more : List JavaType)
    (h : ∀ t ∈ first :: more, ∃ n words, Spelled t n words) :
    ∃ n words, SpelledArguments first more n words := by
  induction more generalizing first with
  | nil =>
    obtain ⟨n, words, hfirst⟩ := h first List.mem_cons_self
    exact ⟨n, words, .last hfirst⟩
  | cons second more ih =>
    obtain ⟨hfirst, hmore⟩ := List.forall_mem_cons.1 h
    obtain ⟨m, words, hfirst⟩ := hfirst
    obtain ⟨n, further, hmore⟩ := ih second hmore
    exact ⟨n, _, .more hfirst hmore⟩

end SpelledArguments

/-- Every well-formed type is spelled as a written type. -/
theorem JavaType.WellFormed.spelled (h : t.WellFormed) : ∃ n words, Spelled t n words := by
  induction h with
  | primitive h depth => exact ⟨0, _, .primitive h depth⟩
  | @named first more arguments hname _ depth ih =>
    cases arguments with
    | nil => exact ⟨0, _, .named hname depth⟩
    | cons head others =>
      obtain ⟨n, words, harguments⟩ := SpelledArguments.exists_of_forall head others ih
      cases depth with
      | zero => exact ⟨n + 1, _, .generic hname harguments⟩
      | succ depth => exact ⟨0, _, .array hname harguments depth⟩

/-- A type whose text says given words in front of a blank or a closing parenthesis, those of a
written type. -/
structure Worded (t : JavaType) (words : List Said) : Prop where
  reads : ∀ ⦃b : UInt8⦄ (after : Text), b = 32 ∨ b = 41 →
    wording (t.describe ++ b :: after) = words ++ wording (b :: after)
  written : ∀ ts, said ts = words →
    ∃ w : WrittenType, w.tokens = ts ∧ JavaType.ofNode w.tree = t

/-- Every well-formed type says the words of a written type that stands for it. -/
theorem JavaType.WellFormed.worded (h : t.WellFormed) : ∃ words, Worded t words := by
  obtain ⟨n, words, hspelled⟩ := h.spelled
  refine ⟨words ++ closingWords n, fun b after hb => ?_, fun ts hts => ?_⟩
  · have hends : EndsType (b :: after) := by
      refine ⟨b, rfl, ?_⟩
      rcases hb with rfl | rfl <;> decide
    have hrow : wording (List.replicate n 62 ++ b :: after) =
        closingWords n ++ wording (b :: after) := by
      refine wording_closing ?_
      rintro c ⟨⟩
      rcases hb with rfl | rfl <;> decide
    rw [hspelled.reads _ hends, hrow, List.append_assoc]
  · obtain ⟨us, vs, rfl, hus, hvs⟩ := exists_append_of_said hts
    obtain ⟨o, rfl, htree⟩ := hspelled.written us hus
    exact ⟨⟨o, ⟨vs, closes_of_said hvs⟩⟩, rfl, htree⟩

end Types

end JavaObjC
