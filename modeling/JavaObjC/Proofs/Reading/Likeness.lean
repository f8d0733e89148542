import JavaObjC.Source.Lexeme
import JavaObjC.Source.Tree
import Mathlib.Data.List.Forall2

/-!
# Tokens and trees up to layout

Two sources that differ only in blanks and comments have the same tokens at
different places. A pairing says which places of the two correspond; tokens,
problems and trees are alike when they differ in places only and the places
that problems depend on correspond. Trees are moreover compared together with
their shape: the parts a node of each kind has to have, whether or not the
source it comes from has problems. Pairing every place with itself turns each
statement about two sources into one about a single source.
-/

namespace JavaObjC

/-- Corresponding places of two sources, which come in the same order in both. -/
structure Pairing where
  /-- Whether two places correspond. -/
  pairs : Nat → Nat → Prop
  /-- Corresponding places are ordered alike. -/
  le_iff : ∀ {a b a' b'}, pairs a b → pairs a' b' → (a ≤ a' ↔ b ≤ b')

namespace Pairing

/-- Every place of a source corresponds to itself. -/
def same : Pairing := ⟨Eq, by rintro a b a' b' rfl rfl; exact Iff.rfl⟩

/-- Corresponding places are equal in both sources or in none. -/
theorem eq_iff (r : Pairing) {a b a' b' : Nat} (h : r.pairs a b) (h' : r.pairs a' b') :
    a = a' ↔ b = b' := by
  have hle := r.le_iff h h'
  have hge := r.le_iff h' h
  omega

end Pairing

/-- Whether a text can stand between quotes of a kind, after a backslash or not: it does not end
the quotation, and no backslash is left over. -/
def Text.encloses (quote : UInt8) : Bool → Text → Bool
  | isEscaped, [] => !isEscaped
  | true, _ :: t => encloses quote false t
  | false, b :: t => b != quote && encloses quote (b == 92) t

/-- A text in quotes of a kind. -/
def IsQuotation (quote : UInt8) (t : Text) : Prop :=
  ∃ content, Text.encloses quote false content = true ∧ t = quote :: (content ++ [quote])

namespace Token

/-- A token whose text has the form of its kind: a closed quotation, or a number in front. -/
def Formed (t : Token) : Prop :=
  match t.kind with
  | .stringLiteral => IsQuotation 34 t.literal
  | .charLiteral => IsQuotation 39 t.literal
  | .intLiteral | .floatLiteral =>
    Lexeme.frontIs (fun b => Lexeme.isDigit b || b == 46) t.literal = true
  | _ => True

/-- What holds of every token that the text of a source is split into. -/
structure Genuine (t : Token) : Prop where
  /-- A mark is written the way it is spelled. -/
  spelled : ∀ mark, t.kind = .symbol mark → t.literal = Text.ofString mark.spelling
  /-- Only the end of file is written with no bytes at all. -/
  nonempty : t.kind ≠ .eof → t.literal ≠ []
  /-- A floating-point number has more than separators. -/
  digits : t.kind = .floatLiteral → ∃ b ∈ t.literal, b ≠ Text.byte '_'
  /-- Quotations are closed, and numbers begin like numbers. -/
  formed : t.Formed

/-- Tokens that differ in their places only. Each byte of one that a split can
bring to the front corresponds to the same byte of the other. -/
structure Alike (r : Pairing) (t u : Token) : Prop where
  kind_eq : u.kind = t.kind
  literal_eq : u.literal = t.literal
  genuine : t.Genuine
  places : ∀ k, k ≤ t.literal.length - 1 →
    r.pairs (t.span.start.offset + k) (u.span.start.offset + k)

/-- A token without its place. -/
def erase (t : Token) : Token := { t with span := {} }

/-- A genuine token is like itself. -/
theorem Genuine.alike {t : Token} (h : t.Genuine) : Alike Pairing.same t t :=
  ⟨rfl, rfl, h, fun _ _ => rfl⟩

/-- The starts of alike tokens correspond. -/
theorem Alike.start {r : Pairing} {t u : Token} (h : Alike r t u) :
    r.pairs t.span.start.offset u.span.start.offset := by
  simpa using h.places 0 (Nat.zero_le _)

/-- Alike tokens are the same without their places. -/
theorem Alike.erase_eq {r : Pairing} {t u : Token} (h : Alike r t u) : t.erase = u.erase := by
  simp only [erase, h.kind_eq, h.literal_eq]

end Token

namespace Problem

/-- Problems that differ in places only. -/
structure Alike (r : Pairing) (p q : Problem) : Prop where
  message_eq : q.message = p.message
  expected_eq : q.expected = p.expected
  got : Token.Alike r p.got q.got

/-- A problem without its place. -/
def erase (p : Problem) : Problem := { p with got := p.got.erase }

/-- Alike problems are the same without their places. -/
theorem Alike.erase_eq {r : Pairing} {p q : Problem} (h : Alike r p q) : p.erase = q.erase := by
  simp only [erase, h.message_eq, h.expected_eq, h.got.erase_eq]

/-- Alike problems stand at corresponding places. -/
theorem Alike.start {r : Pairing} {p q : Problem} (h : Alike r p q) :
    r.pairs p.span.start.offset q.span.start.offset := h.got.start

end Problem

namespace NodeKind

/-- How many children a node of a kind has at least. -/
def leastChildren : NodeKind → Nat
  | .fieldAccess | .newExpr | .newArrayExpr | .classLiteral | .parenExpr | .exprStmt
  | .switchStmt | .throwStmt | .forStmt => 1
  | .callExpr | .arrayAccess | .unaryExpr | .postfixExpr | .castExpr | .instanceofExpr
  | .ifStmt | .whileStmt | .doStmt | .synchronizedStmt | .enhancedForStmt | .fieldDecl
  | .localVarDecl => 2
  | .assignExpr | .binaryExpr | .ternaryExpr => 3
  | _ => 0

/-- The kinds of which a node of a kind has at least one child each. -/
def requiredParts : NodeKind → List NodeKind
  | .catchClause => [.type, .block]
  | .finallyClause | .constructorDecl | .tryStmt => [.block]
  | _ => []

end NodeKind

namespace Node

/-- What a node has to have for its kind, apart from its children's own shape. -/
structure Fits (n : Node) : Prop where
  /-- Error nodes say what is wrong. -/
  problem_isSome : n.kind = .error → n.problem.isSome
  /-- There are enough children. -/
  least : n.kind.leastChildren ≤ n.children.length
  /-- The named parts are there. -/
  required : ∀ kind ∈ n.kind.requiredParts, (n.child? kind).isSome
  /-- An operator after its operand is written with some byte. -/
  operator : n.kind = .postfixExpr → ∀ op, n.children[1]? = some op → op.literal ≠ []
  /-- A floating-point number has more than separators. -/
  digits : ∀ t, n.token = some t → t.kind = .floatLiteral → ∃ b ∈ t.literal, b ≠ Text.byte '_'

/-- Every node of a tree fits its kind. -/
def Shaped (n : Node) : Prop := ∀ m ∈ n.walk, m.Fits

/-- A node's token is one of a source: an identifier has bytes, and a literal its form. -/
structure Lexed (n : Node) : Prop where
  identifier : n.kind = .identifier → ∀ t ∈ n.token, t.literal ≠ []
  literal : n.kind = .literal → ∀ t ∈ n.token, t.Formed

mutual

/-- A tree without the places of its nodes, tokens and problems. -/
def erase : Node → Node
  | ⟨kind, _, token, problem, children⟩ =>
    ⟨kind, {}, token.map Token.erase, problem.map Problem.erase, eraseAll children⟩

/-- Several trees without their places. -/
def eraseAll : List Node → List Node
  | [] => []
  | n :: rest => erase n :: eraseAll rest

end

/-- Erasing the places of nodes, node after node. -/
theorem eraseAll_eq_map (nodes : List Node) : eraseAll nodes = nodes.map erase := by
  induction nodes with
  | nil => rfl
  | cons n rest ih => rw [eraseAll, ih, List.map_cons]

@[simp] theorem erase_kind (n : Node) : n.erase.kind = n.kind := by
  cases n
  rfl

/-- A node keeps its children without theirs. -/
@[simp] theorem erase_children (n : Node) : n.erase.children = n.children.map erase := by
  cases n
  exact eraseAll_eq_map _

@[simp] theorem erase_token (n : Node) : n.erase.token = n.token.map Token.erase := by
  cases n
  rfl

/-- A node keeps its text without places. -/
@[simp] theorem erase_literal (n : Node) : n.erase.literal = n.literal := by
  obtain ⟨_, _, token, _, _⟩ := n
  cases token <;> rfl

/-- Walking nodes, node after node. -/
theorem walkAll_eq_flatMap (nodes : List Node) : walkAll nodes = nodes.flatMap walk := by
  induction nodes with
  | nil => rfl
  | cons n rest ih => rw [walkAll, ih, List.flatMap_cons]

/-- The problems of a tree: its own, then those of its children. -/
theorem problems_eq (n : Node) :
    n.problems = n.problem.toList ++ n.children.flatMap problems := by
  obtain ⟨kind, span, token, problem, children⟩ := n
  have hchildren : (children.flatMap walk).filterMap (·.problem) = children.flatMap problems := by
    induction children with
    | nil => rfl
    | cons n rest ih =>
      rw [List.flatMap_cons, List.filterMap_append, ih, List.flatMap_cons, problems]
  cases problem <;>
    simp only [problems, walk, walkAll_eq_flatMap, List.filterMap_cons, hchildren,
      Option.toList_none, Option.toList_some, List.nil_append, List.singleton_append]

/-- A tree is shaped when its root fits its kind and its children are shaped. -/
theorem shaped_iff (n : Node) : n.Shaped ↔ n.Fits ∧ ∀ m ∈ n.children, m.Shaped := by
  obtain ⟨kind, span, token, problem, children⟩ := n
  simp only [Shaped, walk, walkAll_eq_flatMap, List.mem_cons, List.mem_flatMap, forall_eq_or_imp,
    forall_exists_index, and_imp]
  constructor
  · rintro ⟨hroot, hrest⟩
    exact ⟨hroot, fun m hm k hk => hrest k m hm hk⟩
  · rintro ⟨hroot, hrest⟩
    exact ⟨hroot, fun k m hm hk => hrest m hm k hk⟩

/-- The tokens of a tree are those of a source if those of its root and its children are. -/
theorem lexed_iff (n : Node) :
    (∀ m ∈ n.walk, m.Lexed) ↔ n.Lexed ∧ ∀ m ∈ n.children, ∀ k ∈ m.walk, k.Lexed := by
  obtain ⟨kind, span, token, problem, children⟩ := n
  simp only [walk, walkAll_eq_flatMap, List.mem_cons, List.mem_flatMap, forall_eq_or_imp,
    forall_exists_index, and_imp]
  exact and_congr_right fun _ => ⟨fun h m hm k hk => h k m hm hk, fun h k m hm hk => h m hm k hk⟩

/-- A tree that reports nothing. -/
def Clean (n : Node) : Prop := n.problems = []

/-- Trees that report nothing. -/
def CleanAll (nodes : List Node) : Prop := ∀ n ∈ nodes, n.Clean

@[simp] theorem cleanAll_nil : CleanAll [] := by simp [CleanAll]

/-- Nodes are clean when the first one and the others are. -/
@[simp] theorem cleanAll_cons (n : Node) (nodes : List Node) :
    CleanAll (n :: nodes) ↔ n.Clean ∧ CleanAll nodes := List.forall_mem_cons

/-- Nodes in a row are clean when both parts are. -/
@[simp] theorem cleanAll_append (nodes nodes' : List Node) :
    CleanAll (nodes ++ nodes') ↔ CleanAll nodes ∧ CleanAll nodes' := List.forall_mem_append

/-- A tree without a problem of its own is clean when its children are. -/
theorem clean_mk (kind : NodeKind) (span : Span) (token : Option Token) (children : List Node) :
    Clean ⟨kind, span, token, none, children⟩ ↔ CleanAll children := by
  simp only [CleanAll, Clean, problems_eq ⟨kind, span, token, none, children⟩, Option.toList_none,
    List.nil_append, List.flatMap_eq_nil_iff]

/-- A node that reports a problem is not clean. -/
theorem not_clean_ofProblem (p : Problem) : ¬ (ofProblem p).Clean := by
  simp [Clean, problems_eq, ofProblem]

/-- A leaf is clean. -/
theorem clean_ofToken (kind : NodeKind) (t : Token) : (ofToken kind t).Clean := by
  simp [ofToken, clean_mk]

/-- Trees that differ in places only, the places of their problems corresponding, that have the
shape their kinds ask for and the tokens of a source. -/
structure Alike (r : Pairing) (a b : Node) : Prop where
  erase_eq : a.erase = b.erase
  problems : List.Forall₂ (Problem.Alike r) a.problems b.problems
  shaped : a.Shaped
  lexed : ∀ m ∈ a.walk, m.Lexed

namespace Alike

variable {r : Pairing} {a b : Node}

theorem kind_eq (h : Alike r a b) : b.kind = a.kind := by
  rw [← erase_kind, ← h.erase_eq, erase_kind]

theorem fits (h : Alike r a b) : a.Fits := ((shaped_iff a).1 h.shaped).1

/-- Alike nodes have the same children without places. -/
theorem map_erase_children (h : Alike r a b) : a.children.map erase = b.children.map erase := by
  rw [← erase_children, h.erase_eq, erase_children]

/-- An error node is not clean. -/
theorem not_clean (h : Alike r a b) (hkind : a.kind = .error) : ¬ a.Clean := by
  obtain ⟨p, hp⟩ := Option.isSome_iff_exists.1 (h.fits.problem_isSome hkind)
  simp [Clean, problems_eq, hp]

end Alike

/-- Trees that are alike one by one. -/
abbrev AlikeAll (r : Pairing) : List Node → List Node → Prop := List.Forall₂ (Alike r)

namespace AlikeAll

variable {r : Pairing} {l m l' m' : List Node}

/-- Alike lists in a row are alike. -/
theorem append (h : AlikeAll r l m) (h' : AlikeAll r l' m') : AlikeAll r (l ++ l') (m ++ m') :=
  List.rel_append h h'

/-- Alike lists are the same without places. -/
theorem map_erase_eq (h : AlikeAll r l m) : l.map erase = m.map erase := by
  induction h with
  | nil => rfl
  | cons hab _ ih => rw [List.map_cons, List.map_cons, hab.erase_eq, ih]

/-- The nodes of alike lists have their shape. -/
theorem shaped (h : AlikeAll r l m) : ∀ n ∈ l, n.Shaped := by
  induction h with
  | nil => simp
  | cons hab _ ih => simpa using ⟨hab.shaped, ih⟩

/-- The leaves of alike lists come from the lexer. -/
theorem lexed (h : AlikeAll r l m) : ∀ n ∈ l, ∀ k ∈ n.walk, k.Lexed := by
  induction h with
  | nil => simp
  | cons hab _ ih => exact List.forall_mem_cons.2 ⟨hab.lexed, ih⟩

/-- The problems of alike lists correspond. -/
theorem problems (h : AlikeAll r l m) :
    List.Forall₂ (Problem.Alike r) (l.flatMap Node.problems) (m.flatMap Node.problems) := by
  induction h with
  | nil => exact .nil
  | cons hab _ ih =>
    rw [List.flatMap_cons, List.flatMap_cons]
    exact List.rel_append hab.problems ih

end AlikeAll

/-- Two nodes of one kind with alike children are alike. -/
theorem Alike.of_children {r : Pairing} {kind : NodeKind} {s s' : Span} {t t' : Option Token}
    {children children' : List Node} (ht : t.map Token.erase = t'.map Token.erase)
    (hc : AlikeAll r children children') (hfits : Fits ⟨kind, s, t, none, children⟩)
    (hlexed : Lexed ⟨kind, s, t, none, children⟩) :
    Alike r ⟨kind, s, t, none, children⟩ ⟨kind, s', t', none, children'⟩ where
  erase_eq := by
    simp only [erase, eraseAll_eq_map, ht, hc.map_erase_eq, Option.map_none]
  problems := by
    rw [problems_eq, problems_eq]
    exact hc.problems
  shaped := (shaped_iff _).2 ⟨hfits, hc.shaped⟩
  lexed := (lexed_iff _).2 ⟨hlexed, hc.lexed⟩

theorem lexed_of_none {n : Node} (h : n.token = none) : n.Lexed := by
  constructor <;> simp [h]

/-- The span of a node plays no part in the problems of its tree. -/
theorem problems_with_span (n : Node) (s : Span) : { n with span := s }.problems = n.problems := by
  rw [problems_eq, problems_eq n]

/-- Whether a node is clean does not depend on its span. -/
theorem clean_with_span (n : Node) (s : Span) : { n with span := s }.Clean ↔ n.Clean := by
  rw [Clean, problems_with_span, Clean]

/-- Alike trees stay alike when their roots get other spans. -/
theorem Alike.with_span {r : Pairing} {a b : Node} (h : Alike r a b) (s s' : Span) :
    Alike r { a with span := s } { b with span := s' } where
  erase_eq := by
    cases a
    cases b
    exact h.erase_eq
  problems := by
    rw [problems_with_span, problems_with_span]
    exact h.problems
  shaped := by
    obtain ⟨hfits, hchildren⟩ := (shaped_iff a).1 h.shaped
    refine (shaped_iff _).2 ⟨?_, hchildren⟩
    exact ⟨hfits.problem_isSome, hfits.least, hfits.required, hfits.operator, hfits.digits⟩
  lexed := by
    obtain ⟨hlexed, hchildren⟩ := (lexed_iff a).1 h.lexed
    exact (lexed_iff _).2 ⟨⟨hlexed.identifier, hlexed.literal⟩, hchildren⟩

/-- An inner node fits its kind if it has the parts that the kind asks for. -/
theorem fits_of_parts {kind : NodeKind} {children : List Node}
    (hkind : kind ≠ .error ∧ kind ≠ .postfixExpr)
    (hleast : kind.leastChildren ≤ children.length)
    (hrequired : ∀ k ∈ kind.requiredParts, ∃ n ∈ children, n.kind = k) (s : Span) :
    Fits ⟨kind, s, none, none, children⟩ where
  problem_isSome h := absurd h hkind.1
  least := hleast
  required := by
    intro k hk
    obtain ⟨n, hn, rfl⟩ := hrequired k hk
    simpa [child?] using ⟨n, hn, rfl⟩
  operator h := absurd h hkind.2
  digits := by simp

/-- An inner node of a kind that asks for a number of parts only. -/
theorem fits_of_length {kind : NodeKind} {children : List Node}
    (hkind : (kind ≠ .error ∧ kind ≠ .postfixExpr) ∧ kind.requiredParts = [])
    (hleast : kind.leastChildren ≤ children.length) (s : Span) :
    Fits ⟨kind, s, none, none, children⟩ :=
  fits_of_parts hkind.1 hleast (by simp [hkind.2]) s

/-- An inner node of a kind that asks for nothing. -/
theorem fits_of_loose {kind : NodeKind} {children : List Node}
    (hkind : ((kind ≠ .error ∧ kind ≠ .postfixExpr) ∧ kind.requiredParts = []) ∧
      kind.leastChildren = 0) (s : Span) :
    Fits ⟨kind, s, none, none, children⟩ :=
  fits_of_length hkind.1 (by simp [hkind.2]) s

/-- A leaf of a kind that asks for no parts fits it. -/
theorem fits_ofToken {kind : NodeKind} {t : Token} (hkind : kind ≠ .error)
    (hleast : kind.leastChildren = 0) (hrequired : kind.requiredParts = [])
    (ht : t.Genuine) : (ofToken kind t).Fits where
  problem_isSome h := absurd h hkind
  least := by simp [ofToken, hleast]
  required := by simp [ofToken, hrequired]
  operator := by simp [ofToken]
  digits := by
    intro u hu hk
    cases hu
    exact ht.digits hk

/-- Leaves for alike tokens are alike. -/
theorem alike_ofToken {r : Pairing} {kind : NodeKind} {t u : Token} (hkind : kind ≠ .error)
    (hleast : kind.leastChildren = 0) (hrequired : kind.requiredParts = [])
    (ht : t.kind ≠ .eof) (h : Token.Alike r t u) : Alike r (ofToken kind t) (ofToken kind u) :=
  .of_children (by simp only [Option.map_some, h.erase_eq]) .nil
    (fits_ofToken hkind hleast hrequired h.genuine)
    ⟨fun _ => by simpa using h.genuine.nonempty ht, fun _ => by simpa using h.genuine.formed⟩

/-- Error nodes for alike problems are alike. -/
theorem alike_ofProblem {r : Pairing} {p q : Problem} (h : Problem.Alike r p q) :
    Alike r (ofProblem p) (ofProblem q) where
  erase_eq := by simp only [ofProblem, erase, Option.map_some, h.erase_eq, Option.map_none]
  problems := by simpa [problems_eq, ofProblem] using h
  shaped := by
    rw [shaped_iff]
    exact ⟨⟨by simp [ofProblem], by simp [ofProblem, NodeKind.leastChildren],
      by simp [ofProblem, NodeKind.requiredParts], by simp [ofProblem],
      by simp [ofProblem]⟩, by simp [ofProblem]⟩
  lexed := (lexed_iff _).2 ⟨lexed_of_none rfl, by simp [ofProblem]⟩

end Node

end JavaObjC
