import JavaObjC.Proofs.Printing.Lookaheads

/-!
# What stands around an operand

What the first token of an expression can be, what may follow an expression at
each level, and that no lookahead mistakes an expression for a cast or a
lambda, however its comparisons, shifts and ampersands are nested in
parentheses.
-/

namespace JavaObjC

open Cursor Grammar JavaObjC.Parser

/-- Tokens that begin an expression without operators in front. -/
def primaryStarts : List TokenKind :=
  [.identifier, .keyword .varKw, .keyword .thisKw, .symbol .lparen] ++ literalKinds

/-- Tokens that begin an expression. -/
def operandStarts : List TokenKind := primaryStarts ++ prefixOperators

/-- Tokens that end any expression. -/
def closers : List TokenKind :=
  [Symbol.rparen, Symbol.rbracket, Symbol.rbrace, Symbol.comma, Symbol.colon, Symbol.semicolon,
   .eof]

/-- Tokens that end an operand with its suffixes. -/
def continuations : List TokenKind :=
  closers ++ assignOperators ++ .symbol .question :: binaryLevels.flatten

/-- Tokens that begin a suffix other than arguments. -/
def suffixStarts : List TokenKind :=
  [Symbol.increment, Symbol.decrement, Symbol.dot, Symbol.lbracket]

namespace Level

/-- Tokens that begin an expression at a level. -/
def starts : Level → List TokenKind
  | .suffixed | .callee => primaryStarts
  | _ => operandStarts

/-- A level that occurs in an expression. -/
def Regular : Level → Prop
  | .binary levels => levels <:+ binaryLevels
  | _ => True

/-- Tokens that may stand after an expression at a level: those that cannot be part of one of
its operands. -/
def Admits : Level → TokenKind → Prop
  | .assignment, kind => kind ∈ closers
  | .ternary, kind => kind ∈ closers ++ assignOperators
  | .binary levels, kind => kind ∈ continuations ∧ kind ∉ levels.tail.flatten
  | .suffixed, kind => kind ∈ suffixStarts ++ continuations
  | .callee, kind => kind ∈ .symbol .lparen :: suffixStarts ++ continuations

/-- Tokens that end an expression at a level. -/
def Ends : Level → TokenKind → Prop
  | .assignment, kind => kind ∈ closers
  | .ternary, kind => kind ∈ closers ++ assignOperators
  | .binary levels, kind => kind ∈ continuations ∧ kind ∉ levels.flatten
  | .suffixed, kind => kind ∈ continuations
  | .callee, kind => kind ∈ continuations

/-- A token that ends a level may follow it. -/
theorem Ends.admits {l : Level} {kind : TokenKind} (h : l.Ends kind) : l.Admits kind := by
  cases l with
  | assignment => exact h
  | ternary => exact h
  | binary levels =>
    refine ⟨h.1, fun hmem => h.2 ?_⟩
    obtain ⟨operators, hoperators, hkind⟩ := List.mem_flatten.1 hmem
    exact List.mem_flatten.2 ⟨operators, List.mem_of_mem_tail hoperators, hkind⟩
  | suffixed => exact List.mem_append_right _ h
  | callee => exact List.mem_append_right _ h

/-- Every level begins with a token that begins an operand. -/
theorem starts_subset (l : Level) : l.starts ⊆ operandStarts := by
  cases l with
  | suffixed => exact List.subset_append_left _ _
  | callee => exact List.subset_append_left _ _
  | assignment => exact List.Subset.refl _
  | ternary => exact List.Subset.refl _
  | binary _ => exact List.Subset.refl _

/-- Below a regular level all levels are regular. -/
theorem Regular.tighter {operators : List TokenKind} {tighter : List (List TokenKind)}
    (h : (binary (operators :: tighter)).Regular) : (binary tighter).Regular :=
  (List.suffix_cons operators tighter).trans h

/-- The operators of a level are binary operators, and of no tighter level. -/
theorem Regular.operator {operators : List TokenKind} {tighter : List (List TokenKind)}
    (h : (binary (operators :: tighter)).Regular) {kind : TokenKind} (hk : kind ∈ operators) :
    kind ∈ binaryLevels.flatten ∧ kind ∉ tighter.flatten := by
  obtain ⟨looser, hlooser⟩ := h
  have hnodup : binaryLevels.flatten.Nodup := by decide
  rw [← hlooser, List.flatten_append, List.flatten_cons] at hnodup ⊢
  refine ⟨List.mem_append_right _ (List.mem_append_left _ hk), fun htighter => ?_⟩
  have hapart := (List.nodup_append.1 (List.nodup_append.1 hnodup).2.1).2.2
  exact hapart kind hk kind htighter rfl

section Following

variable {kind : TokenKind} {operators : List TokenKind} {tighter : List (List TokenKind)}

theorem ends_ternary (h : assignment.Admits kind) : ternary.Ends kind :=
  List.mem_append_left _ h

/-- What may follow a choice ends an operation. -/
theorem ends_binary (h : ternary.Admits kind) : (binary binaryLevels).Ends kind :=
  (by decide : ∀ k ∈ closers ++ assignOperators, k ∈ continuations ∧ k ∉ binaryLevels.flatten)
    kind h

/-- What may follow a level of operations ends the tighter ones. -/
theorem ends_tighter (h : (binary (operators :: tighter)).Admits kind) :
    (binary tighter).Ends kind := h

theorem ends_suffixed (h : (binary []).Admits kind) : suffixed.Ends kind := h.1

theorem admits_callee (h : suffixed.Admits kind) : callee.Admits kind :=
  List.mem_cons_of_mem _ h

theorem ends_question : (binary binaryLevels).Ends (.symbol .question) := ⟨by decide, by decide⟩

theorem admits_opening : callee.Admits (.symbol .lparen) := List.mem_cons_self

/-- An operator may follow the operands of its level. -/
theorem admits_operator (hl : (binary (operators :: tighter)).Regular) (h : kind ∈ operators) :
    (binary (operators :: tighter)).Admits kind := by
  obtain ⟨hbinary, htighter⟩ := hl.operator h
  exact ⟨List.mem_append_right _ (List.mem_cons_of_mem _ hbinary), htighter⟩

theorem admits_suffix (h : kind ∈ suffixStarts) : suffixed.Admits kind :=
  List.mem_append_left _ h

end Following

end Level

/-- Calm tokens, the first of which has a kind of a certain sort. -/
def Ahead (sort : TokenKind → Prop) : List Token → Prop
  | [] => False
  | t :: ts => sort t.kind ∧ Calm (t :: ts)

namespace Ahead

variable {sort sort' : TokenKind → Prop} {rest : List Token}

/-- Tokens that are known to end an expression are calm. -/
theorem calm (h : Ahead sort rest) : Calm rest := by
  cases rest with
  | nil => exact h.elim
  | cons t ts => exact h.2

/-- A weaker statement about the token ahead. -/
theorem imp (h : Ahead sort rest) (himp : ∀ {kind : TokenKind}, sort kind → sort' kind) :
    Ahead sort' rest := by
  cases rest with
  | nil => exact h.elim
  | cons t ts => exact ⟨himp h.1, h.2⟩

/-- There is a token ahead. -/
theorem head (h : Ahead sort rest) : ∃ t ts, rest = t :: ts ∧ sort t.kind := by
  cases rest with
  | nil => exact h.elim
  | cons t ts => exact ⟨t, ts, rfl, h.1⟩

end Ahead

/-- The kind of a token that was built with one of some kinds. -/
theorem Token.Among.kind_mem {kinds others : List TokenKind} (t : Token.Among kinds)
    (h : kinds ⊆ others) : t.1.kind ∈ others := h t.2

/-- The kind of a token that was built with one kind. -/
theorem Token.Among.kind_eq {kind : TokenKind} (t : Token.Among [kind]) : t.1.kind = kind :=
  List.mem_singleton.1 t.2

namespace Expression

/-- An expression begins with a token that can begin one. -/
theorem front : ∀ {l : Level} (e : Expression l), ∃ t ts, e.tokens = t :: ts ∧ t.kind ∈ l.starts
  | _, .assign left _ _ => by
    obtain ⟨t, ts, htokens, ht⟩ := left.front
    exact ⟨t, _, by rw [tokens, htokens]; rfl, ht⟩
  | _, .ofTernary e => e.front
  | _, .conditional condition _ _ _ _ => by
    obtain ⟨t, ts, htokens, ht⟩ := condition.front
    exact ⟨t, _, by rw [tokens, htokens]; rfl, ht⟩
  | _, .ofBinary e => e.front
  | _, .operation left _ _ => by
    obtain ⟨t, ts, htokens, ht⟩ := left.front
    exact ⟨t, _, by rw [tokens, htokens]; rfl, ht⟩
  | _, .ofTighter e => e.front
  | _, .signed operator _ => ⟨operator.1, _, rfl, List.mem_append_right _ operator.2⟩
  | _, .ofSuffixed e => by
    obtain ⟨t, ts, htokens, ht⟩ := e.front
    exact ⟨t, ts, htokens, List.mem_append_left _ ht⟩
  | _, .counted target _ => by
    obtain ⟨t, ts, htokens, ht⟩ := target.front
    exact ⟨t, _, by rw [tokens, htokens]; rfl, ht⟩
  | _, .index target _ _ _ => by
    obtain ⟨t, ts, htokens, ht⟩ := target.front
    exact ⟨t, _, by rw [tokens, htokens]; rfl, ht⟩
  | _, .call target _ _ _ => by
    obtain ⟨t, ts, htokens, ht⟩ := target.front
    exact ⟨t, _, by rw [tokens, htokens]; rfl, ht⟩
  | _, .paren opening _ _ => ⟨opening.1, _, rfl, opening.kind_mem (by decide)⟩
  | _, .literal t => ⟨t.1, [], rfl, t.kind_mem (by decide)⟩
  | _, .this t => ⟨t.1, [], rfl, t.kind_mem (by decide)⟩
  | _, .ofCallee e => e.front
  | _, .name t => ⟨t.1, [], rfl, t.kind_mem (by decide)⟩
  | _, .field target _ _ => by
    obtain ⟨t, ts, htokens, ht⟩ := target.front
    exact ⟨t, _, by rw [tokens, htokens]; rfl, ht⟩

/-- Every expression has a token. -/
theorem tokens_ne_nil {l : Level} (e : Expression l) : e.tokens ≠ [] := by
  obtain ⟨t, ts, htokens, -⟩ := e.front
  rw [htokens]
  exact List.cons_ne_nil t ts

/-- The next token when an expression is ahead. -/
theorem head_append {l : Level} (e : Expression l) (rest : List Token) :
    ∃ t ts, e.tokens ++ rest = t :: ts ∧ t.kind ∈ l.starts ∧ t.kind ∈ operandStarts := by
  obtain ⟨t, ts, htokens, ht⟩ := e.front
  exact ⟨t, ts ++ rest, by rw [htokens]; rfl, ht, l.starts_subset ht⟩

/-- Behind an opening parenthesis an expression does not begin like the rest of a cast. -/
theorem unmarked {l : Level} (e : Expression l) (rest : List Token) :
    ∀ t ∈ (e.tokens ++ rest).head?, t.kind ∉ castMarks := by
  obtain ⟨t, ts, htokens, -, ht⟩ := e.head_append rest
  rw [htokens]
  intro u hu
  obtain rfl : t = u := by simpa using hu
  exact (by decide : ∀ k ∈ operandStarts, k ∉ castMarks) t.kind ht

/-- An operator in front of its right operand keeps tokens calm, also one that looks like a
closing angle bracket. -/
theorem calm_operator {l : Level} (right : Expression l) {operator : Token} {rest : List Token}
    (h : Calm (right.tokens ++ rest)) (hk : operator.kind ∈ binaryLevels.flatten) :
    Calm (operator :: (right.tokens ++ rest)) := by
  rcases (by decide : ∀ k ∈ binaryLevels.flatten, k ∈ closingAngles ∨ passable k = true)
    _ hk with hclosing | hpassable
  · exact h.cons_closing hclosing (right.unmarked rest)
  · exact h.cons hpassable

end Expression

/-- A token of passable kinds in front of calm tokens. -/
theorem Token.Among.calm {kinds : List TokenKind} (t : Token.Among kinds) {ts : List Token}
    (hkinds : ∀ k ∈ kinds, passable k = true) (h : Calm ts) : Calm (t.1 :: ts) :=
  h.cons (hkinds _ t.2)

mutual

/-- An expression in front of calm tokens makes calm tokens. -/
theorem Expression.calm : ∀ {l : Level} (e : Expression l) {rest : List Token}, l.Regular →
    Calm rest → Calm (e.tokens ++ rest)
  | _, .assign left operator right, rest, _, h => by
    have hright := operator.calm (by decide) (right.calm trivial h)
    simpa [Expression.tokens] using left.calm trivial hright
  | _, .ofTernary e, _, _, h => e.calm trivial h
  | _, .conditional condition question yes colon no, rest, _, h => by
    have hno := colon.calm (by decide) (no.calm trivial h)
    have hyes := question.calm (by decide) (yes.calm trivial hno)
    simpa [Expression.tokens] using condition.calm (List.suffix_refl _) hyes
  | _, .ofBinary e, _, _, h => e.calm (List.suffix_refl _) h
  | _, .operation left operator right, rest, hl, h => by
    have hkind := (hl.operator (List.mem_of_mem_filter operator.2)).1
    have hright := right.calm_operator (right.calm hl.tighter h) hkind
    simpa [Expression.tokens] using left.calm hl hright
  | _, .ofTighter e, _, hl, h => e.calm hl.tighter h
  | _, .signed operator operand, _, hl, h =>
    operator.calm (by decide) (operand.calm hl h)
  | _, .ofSuffixed e, _, _, h => e.calm trivial h
  | _, .counted target operator, _, _, h => by
    simpa [Expression.tokens] using target.calm trivial (operator.calm (by decide) h)
  | _, .index target opening place closing, _, _, h => by
    have hplace := place.calm trivial (closing.calm (by decide) h)
    simpa [Expression.tokens] using target.calm trivial (opening.calm (by decide) hplace)
  | _, .call target opening items closing, _, _, h => by
    have hitems := items.calm (closing.calm (by decide) h)
    simpa [Expression.tokens] using target.calm trivial (opening.calm (by decide) hitems)
  | _, .paren opening inner closing, _, _, h => by
    have hinner := inner.calm trivial (closing.calm (by decide) h)
    simpa [Expression.tokens] using opening.calm (by decide) hinner
  | _, .literal t, _, _, h => t.calm (by decide) h
  | _, .this t, _, _, h => t.calm (by decide) h
  | _, .ofCallee e, _, _, h => e.calm trivial h
  | _, .name t, _, _, h => t.calm (by decide) h
  | _, .field target dot label, _, _, h => by
    have hlabel := dot.calm (by decide) (label.calm (by decide) h)
    simpa [Expression.tokens] using target.calm trivial hlabel

/-- Arguments in front of calm tokens make calm tokens. -/
theorem Arguments.calm : ∀ (items : Arguments) {rest : List Token}, Calm rest →
    Calm (items.tokens ++ rest)
  | .none, _, h => h
  | .last e, _, h => e.calm trivial h
  | .more e comma items, _, h => by
    simpa [Arguments.tokens] using e.calm trivial (comma.calm (by decide) (items.calm h))

end

namespace Expression

/-- An expression is not read as the type of a cast. -/
theorem not_castTail {l : Level} (e : Expression l) (rest : List Token) :
    ¬ CastTail (e.tokens ++ rest) := by
  intro h
  obtain ⟨t, ts, htokens, -⟩ := e.head_append rest
  have hmark := e.unmarked rest t (by rw [htokens]; rfl)
  rw [htokens] at h
  exact hmark h.mark

/-- The first token of what may be a cast can be left out. -/
theorem castTail_of_single {t u : Token} {rest ts : List Token} (h : [u] ++ rest = t :: ts)
    (htail : CastTail ts) : CastTail rest := by
  obtain ⟨-, rfl⟩ := List.cons.inj h
  exact htail

/-- A lookahead for a cast that can succeed does not stand at such a token. -/
theorem not_castTail_of_unmarked {kinds : List TokenKind} (t : Token.Among kinds)
    (hkinds : ∀ k ∈ kinds, k ∉ castMarks) {rest : List Token} : ¬ CastTail (t.1 :: rest) :=
  fun h => hkinds _ t.2 h.mark

/-- A lookahead for a cast that has taken a token of an expression as a name, and that can
succeed, can only go on after the whole expression. -/
theorem castTail : ∀ {l : Level} (e : Expression l) {rest ts : List Token} {t : Token}, l.Regular →
    Calm rest → e.tokens ++ rest = t :: ts → CastTail ts → CastTail rest
  | _, .assign left operator right, rest, ts, t, _, hcalm, htokens, h => by
    have hright := operator.calm (by decide) (right.calm trivial hcalm)
    rw [tokens, List.append_assoc] at htokens
    exact absurd (left.castTail trivial hright htokens h)
      (not_castTail_of_unmarked operator (by decide))
  | _, .ofTernary e, _, _, _, _, hcalm, htokens, h => e.castTail trivial hcalm htokens h
  | _, .conditional condition question yes colon no, rest, ts, t, _, hcalm, htokens, h => by
    have hno := colon.calm (by decide) (no.calm trivial hcalm)
    have hyes := question.calm (by decide) (yes.calm trivial hno)
    simp only [tokens, List.append_assoc, List.cons_append] at htokens
    exact absurd (condition.castTail (List.suffix_refl _) hyes htokens h)
      (not_castTail_of_unmarked question (by decide))
  | _, .ofBinary e, _, _, _, _, hcalm, htokens, h =>
    e.castTail (List.suffix_refl _) hcalm htokens h
  | _, .operation left operator right, rest, ts, t, hl, hcalm, htokens, h => by
    have hkind := (hl.operator (List.mem_of_mem_filter operator.2)).1
    have hafter := right.calm hl.tighter hcalm
    rw [tokens, List.append_assoc] at htokens
    have htail := left.castTail hl (right.calm_operator hafter hkind) htokens h
    generalize hright : right.tokens ++ rest = after at htail
    cases htail with
    | close ht _ => exact absurd (ht ▸ hkind) (by decide)
    | part ht _ _ => exact absurd (ht ▸ hkind) (by decide)
    | brackets ht _ _ => exact absurd (ht ▸ hkind) (by decide)
    | bound _ htail => exact right.castTail hl.tighter hcalm hright htail
    | angles _ htail =>
      -- The search for the end of the type arguments cannot have ended at such a place.
      exfalso
      have hguarded := hafter.guarded 1 (Int.le_refl 1)
      rw [hright] at hguarded
      cases hrest : pastClosing 1 after with
      | nil => exact (hrest ▸ htail).ne_nil rfl
      | cons u us => exact hguarded u (by rw [hrest]; rfl) (hrest ▸ htail).mark
  | _, .ofTighter e, _, _, _, hl, hcalm, htokens, h => e.castTail hl.tighter hcalm htokens h
  | _, .signed operator operand, rest, ts, t, _, _, htokens, h => by
    obtain ⟨-, rfl⟩ := List.cons.inj htokens
    exact absurd h (operand.not_castTail rest)
  | _, .ofSuffixed e, _, _, _, _, hcalm, htokens, h => e.castTail trivial hcalm htokens h
  | _, .counted target operator, rest, ts, t, _, hcalm, htokens, h => by
    rw [tokens, List.append_assoc] at htokens
    exact absurd (target.castTail trivial (operator.calm (by decide) hcalm) htokens h)
      (not_castTail_of_unmarked operator (by decide))
  | _, .index target opening place closing, rest, ts, t, _, hcalm, htokens, h => by
    have hplace := place.calm trivial (closing.calm (by decide) hcalm)
    simp only [tokens, List.append_assoc, List.cons_append, List.nil_append] at htokens
    have htail := target.castTail trivial (opening.calm (by decide) hplace) htokens h
    obtain ⟨u, us, hinner, -, hu⟩ := place.head_append (closing.1 :: rest)
    have hopening := opening.kind_eq
    rw [hinner] at htail
    cases htail with
    | close ht _ => exact absurd (hopening.symm.trans ht) (by decide)
    | bound ht _ => exact absurd (hopening.symm.trans ht) (by decide)
    | part ht _ _ => exact absurd (hopening.symm.trans ht) (by decide)
    | angles ht _ => exact absurd (hopening.symm.trans ht) (by decide)
    | brackets _ hclosed _ => exact absurd (hclosed ▸ hu) (by decide)
  | _, .call target opening items closing, rest, ts, t, _, hcalm, htokens, h => by
    have hitems := items.calm (closing.calm (by decide) hcalm)
    simp only [tokens, List.append_assoc, List.cons_append, List.nil_append] at htokens
    exact absurd (target.castTail trivial (opening.calm (by decide) hitems) htokens h)
      (not_castTail_of_unmarked opening (by decide))
  | _, .paren opening inner closing, rest, ts, t, _, _, htokens, h => by
    simp only [tokens, List.append_assoc, List.cons_append, List.nil_append] at htokens
    obtain ⟨-, rfl⟩ := List.cons.inj htokens
    exact absurd h (inner.not_castTail _)
  | _, .literal _, _, _, _, _, _, htokens, h => castTail_of_single htokens h
  | _, .this _, _, _, _, _, _, htokens, h => castTail_of_single htokens h
  | _, .ofCallee e, _, _, _, _, hcalm, htokens, h => e.castTail trivial hcalm htokens h
  | _, .name _, _, _, _, _, _, htokens, h => castTail_of_single htokens h
  | _, .field target dot label, rest, ts, t, _, hcalm, htokens, h => by
    have hlabel := dot.calm (by decide) (label.calm (by decide) hcalm)
    rw [tokens, List.append_assoc] at htokens
    have hdot := dot.kind_eq
    cases target.castTail trivial hlabel htokens h with
    | close ht _ => exact absurd (hdot.symm.trans ht) (by decide)
    | bound ht _ => exact absurd (hdot.symm.trans ht) (by decide)
    | angles ht _ => exact absurd (hdot.symm.trans ht) (by decide)
    | brackets ht _ _ => exact absurd (hdot.symm.trans ht) (by decide)
    | part _ _ htail => exact htail

/-- Without an opening parenthesis nothing is like a cast. -/
theorem not_castlike_of_front {kinds : List TokenKind} {t : Token} {rest : List Token}
    (hkinds : TokenKind.symbol .lparen ∉ kinds) (ht : t.kind ∈ kinds) : ¬ Castlike (t :: rest) := by
  rintro ⟨u, v, ts, htokens, hu, -⟩
  obtain ⟨rfl, -⟩ := List.cons.inj htokens
  exact hkinds (hu ▸ ht)

/-- An expression does not begin like a cast when tokens follow that it may stand before. -/
theorem not_castlike : ∀ {l : Level} (e : Expression l) {rest : List Token}, l.Regular →
    Ahead l.Admits rest → ¬ Castlike (e.tokens ++ rest)
  | _, .assign left operator right, rest, _, h => by
    have hright := operator.calm (by decide) (right.calm trivial h.calm)
    rw [tokens, List.append_assoc]
    exact left.not_castlike trivial ⟨List.mem_append_right _ operator.2, hright⟩
  | _, .ofTernary e, _, _, h => e.not_castlike trivial (h.imp fun hk => (Level.ends_ternary hk).admits)
  | _, .conditional condition question yes colon no, rest, _, h => by
    have hno := colon.calm (by decide) (no.calm trivial h.calm)
    have hyes := question.calm (by decide) (yes.calm trivial hno)
    simp only [tokens, List.append_assoc, List.cons_append]
    refine condition.not_castlike (List.suffix_refl _) ⟨?_, hyes⟩
    rw [question.kind_eq]
    exact Level.ends_question.admits
  | _, .ofBinary e, _, _, h =>
    e.not_castlike (List.suffix_refl _) (h.imp fun hk => (Level.ends_binary hk).admits)
  | _, .operation left operator right, rest, hl, h => by
    have hoperator := List.mem_of_mem_filter operator.2
    have hright := right.calm_operator (right.calm hl.tighter h.calm) (hl.operator hoperator).1
    rw [tokens, List.append_assoc]
    exact left.not_castlike hl ⟨Level.admits_operator hl hoperator, hright⟩
  | _, .ofTighter e, _, hl, h =>
    e.not_castlike hl.tighter (h.imp fun hk => (Level.ends_tighter hk).admits)
  | _, .signed operator operand, rest, _, _ => by
    exact not_castlike_of_front (by decide) operator.2
  | _, .ofSuffixed e, _, _, h =>
    e.not_castlike trivial (h.imp fun hk => (Level.ends_suffixed hk).admits)
  | _, .counted target operator, rest, _, h => by
    rw [tokens, List.append_assoc]
    exact target.not_castlike trivial
      ⟨Level.admits_suffix (operator.kind_mem (by decide)), operator.calm (by decide) h.calm⟩
  | _, .index target opening place closing, rest, _, h => by
    have hplace := place.calm trivial (closing.calm (by decide) h.calm)
    simp only [tokens, List.append_assoc, List.cons_append, List.nil_append]
    exact target.not_castlike trivial
      ⟨Level.admits_suffix (opening.kind_mem (by decide)), opening.calm (by decide) hplace⟩
  | _, .call target opening items closing, rest, _, h => by
    have hitems := items.calm (closing.calm (by decide) h.calm)
    simp only [tokens, List.append_assoc, List.cons_append, List.nil_append]
    refine target.not_castlike trivial ⟨?_, opening.calm (by decide) hitems⟩
    rw [opening.kind_eq]
    exact Level.admits_opening
  | _, .paren opening inner closing, rest, _, h => by
    rintro ⟨t, u, ts, htokens, -, hkind⟩
    simp only [tokens, List.append_assoc, List.cons_append, List.nil_append] at htokens
    obtain ⟨-, hinner⟩ := List.cons.inj htokens
    rcases hkind with hprimitive | ⟨-, htail⟩
    · obtain ⟨v, vs, hfront, -, hv⟩ := inner.head_append (closing.1 :: rest)
      obtain ⟨rfl, -⟩ := List.cons.inj (hfront.symm.trans hinner)
      exact absurd hprimitive
        ((by decide : ∀ k ∈ operandStarts, ¬ k.isPrimitive = true) v.kind hv)
    · -- The lookahead is at the closing parenthesis, and no operand follows.
      have hclose := inner.castTail trivial (closing.calm (by decide) h.calm) hinner htail
      cases hclose with
      | close _ hu =>
        exact (by decide : ∀ k ∈ suffixStarts ++ continuations, k ∉ castOperandStarts) _ h.1 hu
      | bound ht _ => exact absurd (closing.kind_eq.symm.trans ht) (by decide)
      | part ht _ _ => exact absurd (closing.kind_eq.symm.trans ht) (by decide)
      | angles ht _ => exact absurd (closing.kind_eq.symm.trans ht) (by decide)
      | brackets ht _ _ => exact absurd (closing.kind_eq.symm.trans ht) (by decide)
  | _, .literal t, _, _, _ => not_castlike_of_front (by decide) t.2
  | _, .this t, _, _, _ => not_castlike_of_front (by decide) t.2
  | _, .ofCallee e, _, _, h => e.not_castlike trivial (h.imp Level.admits_callee)
  | _, .name t, _, _, _ => not_castlike_of_front (by decide) t.2
  | _, .field target dot label, rest, _, h => by
    have hlabel := dot.calm (by decide) (label.calm (by decide) h.calm)
    rw [tokens, List.append_assoc]
    exact target.not_castlike trivial ⟨Level.admits_suffix (dot.kind_mem (by decide)), hlabel⟩

/-- No cast is recognized where an expression is ahead. -/
theorem startsCast_run {l : Level} (e : Expression l) {rest : List Token} {c : Cursor}
    (hl : l.Regular) (h : Ahead l.Admits rest) (hc : c.rest = e.tokens ++ rest) :
    startsCast.run c = (false, c) := by
  refine Prod.ext (Bool.eq_false_iff.2 fun hcast => ?_) (startsCast_stays c)
  exact e.not_castlike hl h (hc ▸ castlike_of_startsCast hcast)

/-- No lambda is recognized where an expression is ahead. -/
theorem startsLambda_run {l : Level} (e : Expression l) {rest : List Token} {c : Cursor}
    (hl : l.Regular) (h : Ahead l.Admits rest) (hc : c.rest = e.tokens ++ rest) :
    startsLambda.run c = (false, c) :=
  startsLambda_of_arrowless (hc ▸ (e.calm hl h.calm).arrowless)

end Expression

end JavaObjC
