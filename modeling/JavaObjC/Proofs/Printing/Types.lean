import JavaObjC.Proofs.Printing.Landing

/-!
# Types as they are written

A type is a primitive word or a qualified name, with type arguments and array
brackets. One token can close several lists of type arguments at once, so a
type that is the last argument of another one need not have a token of its own
at its end. The family of types is therefore indexed by the number of lists
that are still to be closed, and a written type has the closing tokens after
it. Reading a type takes these tokens apart and leaves what the lists around
it need; a search for a closing angle bracket crosses a whole type.
-/

namespace JavaObjC

open Cursor Grammar JavaObjC.Parser Node

/-- How many lists of type arguments a token closes. -/
def closings : TokenKind → Nat
  | .symbol .gt => 1
  | .symbol .shr => 2
  | .symbol .ushr => 3
  | _ => 0

/-- How many lists of type arguments some tokens close. -/
def closedBy : List Token → Nat
  | [] => 0
  | t :: ts => closings t.kind + closedBy ts

/-- Tokens that close exactly `n` lists of type arguments. -/
structure Closes (n : Nat) (ts : List Token) : Prop where
  angles : ∀ t ∈ ts, t.kind ∈ closingAngles
  total : closedBy ts = n

namespace Closes

variable {n : Nat} {t : Token} {ts : List Token}

theorem nil : Closes 0 [] := ⟨List.forall_mem_nil _, rfl⟩

/-- A closing token before others adds the lists it closes. -/
theorem cons (ht : t.kind ∈ closingAngles) (h : Closes n ts) :
    Closes (closings t.kind + n) (t :: ts) := by
  refine ⟨List.forall_mem_cons.2 ⟨ht, h.angles⟩, ?_⟩
  rw [closedBy, h.total]

/-- The first of some closing tokens closes its own share. -/
theorem tail (h : Closes n (t :: ts)) : ∃ m, n = closings t.kind + m ∧ Closes m ts := by
  exact ⟨_, h.total.symm, fun u hu => h.angles u (List.mem_cons_of_mem t hu), rfl⟩

/-- Every closing token closes at least one list. -/
theorem one_le_closings (h : Closes n (t :: ts)) : 1 ≤ closings t.kind :=
  (by decide : ∀ k ∈ closingAngles, 1 ≤ closings k) t.kind (h.angles t List.mem_cons_self)

/-- Where no list is to be closed there is no closing token. -/
theorem eq_nil (h : Closes 0 ts) : ts = [] := by
  cases ts with
  | nil => rfl
  | cons t ts =>
    obtain ⟨m, hm, -⟩ := h.tail
    have hone := h.one_le_closings
    omega

/-- Where a list is to be closed there is a closing token. -/
theorem ne_nil (h : Closes (n + 1) ts) : ts ≠ [] := by
  rintro rfl
  have htotal : 0 = n + 1 := h.total
  omega

/-- A search for closing angle brackets passes tokens that close what lies above it. -/
theorem pastClosing_append {depth : Int} (h : Closes n ts) (hdepth : 1 ≤ depth)
    (after : List Token) : pastClosing (depth + n) (ts ++ after) = pastClosing depth after := by
  induction ts generalizing n with
  | nil =>
    obtain rfl : 0 = n := h.total
    have hlevel : depth + ((0 : Nat) : Int) = depth := by omega
    rw [List.nil_append, hlevel]
  | cons t ts ih =>
    obtain ⟨m, rfl, hm⟩ := h.tail
    have hkind := h.angles t List.mem_cons_self
    have heof : t.kind ≠ .eof := ne_eof_of_mem hkind (by decide)
    have hchange : angleChange? t.kind = some (-(closings t.kind : Int)) :=
      (by decide : ∀ k ∈ closingAngles, angleChange? k = some (-(closings k : Int))) t.kind hkind
    have hlevel : depth + ((closings t.kind + m : Nat) : Int) + -(closings t.kind : Int) =
        depth + m := by omega
    rw [List.cons_append, pastClosing_cons (ts ++ after) (by omega) heof hchange, hlevel]
    exact ih hm

end Closes

/-- Tokens that close `n` lists of type arguments, in front of given ones. -/
def Pending (n : Nat) (after ts : List Token) : Prop := ∃ run, Closes n run ∧ ts = run ++ after

namespace Pending

variable {n : Nat} {after ts : List Token} {sort : TokenKind → Prop}

/-- Where no list is pending the tokens behind come next. -/
theorem eq (h : Pending 0 after ts) : ts = after := by
  obtain ⟨run, hrun, rfl⟩ := h
  rw [hrun.eq_nil, List.nil_append]

/-- The next token is a closing angle bracket if something is to be closed. -/
theorem closing (h : Pending (n + 1) after ts) : Next (· ∈ closingAngles) ts := by
  obtain ⟨run, hrun, rfl⟩ := h
  cases run with
  | nil => exact absurd rfl hrun.ne_nil
  | cons t run => exact hrun.angles t List.mem_cons_self

end Pending

section Closing

variable {c : Cursor} {n : Nat} {after : List Token}

/-- One list is closed, by a token of its own or by the front of one that closes several. -/
theorem skipGreater_lands (h : Pending (n + 1) after c.rest) :
    Lands c (Pending n after) (· = true) skipGreater := by
  obtain ⟨run, hrun, hc⟩ := h
  cases run with
  | nil => exact absurd rfl hrun.ne_nil
  | cons t run =>
    obtain ⟨m, hm, hrest⟩ := hrun.tail
    rw [List.cons_append] at hc
    have hkind : t.kind = Symbol.gt ∨ t.kind = Symbol.shr ∨ t.kind = Symbol.ushr := by
      simpa [closingAngles] using hrun.angles t List.mem_cons_self
    rcases hkind with ht | ht
    · have hskip : (skip Symbol.gt).run c = (true, c.past [t] (run ++ after)) :=
        skip_past hc ht
      have hlast : m = n := by
        rw [ht] at hm
        simp only [closings] at hm
        omega
      subst hlast
      have htake : skipGreater.run c = (true, c.past [t] (run ++ after)) := by
        rw [skipGreater, bind_of_run hskip]
        rfl
      exact .of_past htake rfl ⟨run, hrest, rfl⟩
    · -- The token loses its first mark and stays ahead.
      have hno : (skip Symbol.gt).run c = (false, c) := by
        refine skip_stays hc ?_
        rcases ht with ht | ht <;> rw [ht] <;> decide
      obtain ⟨kind, hremainder, hclosing, hless⟩ : ∃ kind, remainder? t.kind = some kind ∧
          kind ∈ closingAngles ∧ closings t.kind = closings kind + 1 := by
        rcases ht with ht | ht <;> rw [ht]
        · exact ⟨_, rfl, by decide, rfl⟩
        · exact ⟨_, rfl, by decide, rfl⟩
      have hshort : Closes n (shorten t kind :: run) := by
        have hcons : Closes (closings kind + m) (shorten t kind :: run) :=
          Closes.cons (t := shorten t kind) hclosing hrest
        have hcount : closings kind + m = n := by omega
        exact hcount ▸ hcons
      have hrun : skipGreater.run c =
          (true, { c with rest := shorten t kind :: (run ++ after) }) := by
        rw [skipGreater, bind_of_run hno, if_neg Bool.false_ne_true]
        rw [bind_of_run (rfl : (get : Parser Cursor).run c = (c, c)), hc]
        dsimp only
        rw [hremainder]
        rfl
      refine ⟨?_, ?_, ?_⟩
      · rw [hrun]
      · rw [hrun]
        exact ⟨shorten t kind :: run, hshort, rfl⟩
      · rw [hrun]
        exact ⟨rfl, rfl, rfl⟩

/-- Nothing is skipped where no token begins with a closing angle. -/
theorem skipGreater_no (h : Next (fun k => k ≠ Symbol.gt ∧ remainder? k = none) c.rest) :
    skipGreater.run c = (false, c) := by
  have hskip : (skip Symbol.gt).run c = (false, c) := skip_no (h.imp And.left)
  rw [skipGreater, bind_of_run hskip, if_neg Bool.false_ne_true]
  rw [bind_of_run (rfl : (get : Parser Cursor).run c = (c, c))]
  cases hrest : c.rest with
  | nil => rfl
  | cons t rest =>
    rw [hrest] at h
    dsimp only
    rw [h.2]
    rfl

/-- Closing one list leaves the others pending, also within a split token. -/
theorem closeAngle_lands (h : Pending (n + 1) after c.rest) :
    Lands c (Pending n after) (fun _ => True) closeAngle := by
  refine (skipGreater_lands h).bind fun b d hd hb => ?_
  rw [hb, if_pos rfl]
  exact .pure trivial hd

end Closing

/-- A qualified name as it is written. -/
structure WrittenName where
  first : Token.Among [.identifier]
  more : List (Token.Among [Symbol.dot] × Token.Among [.identifier])

/-- The words of the primitive types. -/
def primitiveWords : List TokenKind :=
  [Keyword.booleanKw, Keyword.byteKw, Keyword.charKw, Keyword.shortKw, Keyword.intKw,
   Keyword.longKw, Keyword.floatKw, Keyword.doubleKw]

/-- A pair of empty brackets. -/
structure BracketPair where
  opening : Token.Among [Symbol.lbracket]
  closing : Token.Among [Symbol.rbracket]

/-- Tokens that close `n` lists of type arguments. -/
abbrev Closing (n : Nat) := { ts : List Token // Closes n ts }

mutual

/-- A type after which `n` lists of type arguments, its own and those of its last argument, are
still to be closed. -/
inductive OpenType : Nat → Type where
  | primitive (word : Token.Among primitiveWords) (brackets : List BracketPair) : OpenType 0
  | named (name : WrittenName) (brackets : List BracketPair) : OpenType 0
  | generic {n : Nat} (name : WrittenName) (opening : Token.Among [Symbol.lt])
      (items : OpenArguments n) : OpenType (n + 1)
  | array {n : Nat} (name : WrittenName) (opening : Token.Among [Symbol.lt])
      (items : OpenArguments n) (closing : Closing (n + 1)) (first : BracketPair)
      (brackets : List BracketPair) : OpenType 0

/-- Type arguments after the last of which `n` lists, without theirs, are still to be closed. -/
inductive OpenArguments : Nat → Type where
  | last {n : Nat} (t : OpenType n) : OpenArguments n
  | more {m n : Nat} (t : OpenType m) (closing : Closing m) (comma : Token.Among [Symbol.comma])
      (items : OpenArguments n) : OpenArguments n

end

/-- A type as it is written. -/
structure WrittenType where
  {pending : Nat}
  type : OpenType pending
  closing : Closing pending

/-- An identifier leaf without its place. -/
def Node.word (t : Token) : Node := (Node.ofToken .identifier t).erase

/-- A type in array nodes. -/
def Node.inBrackets : Nat → Node → Node
  | 0, n => n
  | k + 1, n => inBrackets k (bare .arrayType [n])

namespace WrittenName

/-- The tokens of a name in order. -/
def tokens (name : WrittenName) : List Token :=
  name.first.1 :: name.more.flatMap fun part => [part.1.1, part.2.1]

/-- The syntax tree of a name. -/
def tree (name : WrittenName) : Node :=
  bare .qualifiedName (word name.first.1 :: name.more.map fun part => word part.2.1)

end WrittenName

/-- The tokens of pairs of brackets. -/
def bracketTokens (brackets : List BracketPair) : List Token :=
  brackets.flatMap fun pair => [pair.opening.1, pair.closing.1]

mutual

/-- The tokens of a type in order, without those that close its last lists. -/
def OpenType.tokens {n : Nat} : OpenType n → List Token
  | .primitive word brackets => word.1 :: bracketTokens brackets
  | .named name brackets => name.tokens ++ bracketTokens brackets
  | .generic name opening items => name.tokens ++ opening.1 :: items.tokens
  | .array name opening items closing first brackets =>
    name.tokens ++ opening.1 :: (items.tokens ++ (closing.1 ++ bracketTokens (first :: brackets)))

/-- The tokens of type arguments in order. -/
def OpenArguments.tokens {n : Nat} : OpenArguments n → List Token
  | .last t => t.tokens
  | .more t closing comma items => t.tokens ++ (closing.1 ++ comma.1 :: items.tokens)

end

mutual

/-- The syntax tree of a type. -/
def OpenType.tree {n : Nat} : OpenType n → Node
  | .primitive word brackets => inBrackets brackets.length (bare .type [.word word.1])
  | .named name brackets => inBrackets brackets.length (bare .type [name.tree])
  | .generic name _ items => bare .type [name.tree, bare .typeArguments items.trees]
  | .array name _ items _ _ brackets =>
    inBrackets (brackets.length + 1) (bare .type [name.tree, bare .typeArguments items.trees])

/-- The syntax trees of type arguments. -/
def OpenArguments.trees {n : Nat} : OpenArguments n → List Node
  | .last t => [t.tree]
  | .more t _ _ items => t.tree :: items.trees

end

namespace WrittenType

/-- The tokens of a type in order. -/
def tokens (t : WrittenType) : List Token := t.type.tokens ++ t.closing.1

/-- The syntax tree of a type. -/
def tree (t : WrittenType) : Node := t.type.tree

end WrittenType

/-- Tokens that begin a type. -/
def typeStarts : List TokenKind := .identifier :: primitiveWords

/-- A written type begins with a word. -/
theorem OpenType.front {n : Nat} (t : OpenType n) :
    ∃ u us, t.tokens = u :: us ∧ u.kind ∈ typeStarts := by
  cases t with
  | primitive word brackets =>
    rw [OpenType.tokens]
    exact ⟨_, _, rfl, word.kind_mem (by decide)⟩
  | named name brackets =>
    rw [OpenType.tokens]
    exact ⟨_, _, rfl, name.first.kind_mem (by decide)⟩
  | generic name opening items =>
    rw [OpenType.tokens]
    exact ⟨_, _, rfl, name.first.kind_mem (by decide)⟩
  | array name opening items closing first brackets =>
    rw [OpenType.tokens]
    exact ⟨_, _, rfl, name.first.kind_mem (by decide)⟩

/-- At a written type the next token is a word. -/
theorem OpenType.next {n : Nat} (t : OpenType n) (ts : List Token) :
    Next (· ∈ typeStarts) (t.tokens ++ ts) := by
  obtain ⟨u, us, htokens, hu⟩ := t.front
  rw [htokens]
  exact hu

/-- At written type arguments the next token is a word. -/
theorem OpenArguments.next {n : Nat} (items : OpenArguments n) (ts : List Token) :
    Next (· ∈ typeStarts) (items.tokens ++ ts) := by
  cases items with
  | last t =>
    rw [OpenArguments.tokens]
    exact t.next ts
  | more t closing comma items =>
    rw [OpenArguments.tokens, List.append_assoc]
    exact t.next _

section Crossing

/-- Tokens without an arrow after which a search for closing angle brackets, begun below at
least one open bracket, has `n` more to close. -/
structure Crosses (n : Nat) (us : List Token) : Prop where
  arrowless : ∀ t ∈ us, t.kind ≠ Symbol.arrow
  passes : ∀ {depth : Int} (ts : List Token), 1 ≤ depth →
    pastClosing depth (us ++ ts) = pastClosing (depth + n) ts

namespace Crosses

variable {m n : Nat} {us vs : List Token}

/-- A search that crosses two stretches crosses them in a row, and the lists they open add up. -/
theorem append (h : Crosses m us) (h' : Crosses n vs) : Crosses (m + n) (us ++ vs) where
  arrowless := List.forall_mem_append.2 ⟨h.arrowless, h'.arrowless⟩
  passes := by
    intro depth ts hdepth
    have hlevel : depth + ((m + n : Nat) : Int) = depth + m + n := by omega
    rw [List.append_assoc, h.passes _ hdepth, h'.passes _ (by omega), hlevel]

/-- Tokens that close all open lists end a crossing. -/
theorem close (h : Crosses n us) (hclosing : Closes n vs) : Crosses 0 (us ++ vs) where
  arrowless := by
    refine List.forall_mem_append.2 ⟨h.arrowless, fun t ht => ?_⟩
    exact (by decide : ∀ k ∈ closingAngles, k ≠ Symbol.arrow) t.kind (hclosing.angles t ht)
  passes := by
    intro depth ts hdepth
    have hlevel : depth + ((0 : Nat) : Int) = depth := by omega
    rw [List.append_assoc, h.passes _ hdepth, hclosing.pastClosing_append hdepth, hlevel]

/-- Kinds of tokens in types that open and close nothing. -/
def levelKinds : List TokenKind :=
  typeStarts ++ [.symbol .dot, .symbol .comma, .symbol .lbracket, .symbol .rbracket]

/-- Tokens that neither open nor close a list are crossed at the level they stand on. -/
theorem level (h : ∀ t ∈ us, t.kind ∈ levelKinds) : Crosses 0 us := by
  induction us with
  | nil =>
    refine ⟨List.forall_mem_nil _, fun {depth} ts _ => ?_⟩
    have hlevel : depth + ((0 : Nat) : Int) = depth := by omega
    rw [List.nil_append, hlevel]
  | cons t us ih =>
    obtain ⟨ht, hus⟩ := List.forall_mem_cons.1 h
    obtain ⟨harrow, heof, hchange⟩ := (by decide : ∀ k ∈ levelKinds, k ≠ Symbol.arrow ∧ k ≠ .eof ∧
      angleChange? k = some 0) t.kind ht
    refine ⟨List.forall_mem_cons.2 ⟨harrow, (ih hus).arrowless⟩, fun {depth} ts hdepth => ?_⟩
    rw [List.cons_append, pastClosing_cons (us ++ ts) hdepth heof hchange, Int.add_zero]
    exact (ih hus).passes ts hdepth

/-- An opening angle is crossed one list deeper. -/
theorem opening {t : Token} (ht : t.kind = Symbol.lt) : Crosses 1 [t] where
  arrowless := by
    intro u hu
    rw [List.mem_singleton.1 hu, ht]
    decide
  passes := by
    intro depth ts hdepth
    have hchange : angleChange? t.kind = some 1 := by
      rw [ht]
      rfl
    have heof : t.kind ≠ .eof := by
      rw [ht]
      decide
    rw [List.singleton_append, pastClosing_cons ts hdepth heof hchange]
    rfl

/-- A calm stretch behind a finished crossing is crossed with it. -/
theorem calm {ts : List Token} (h : Crosses 0 us) (hts : Calm ts) : Calm (us ++ ts) where
  arrowless := List.forall_mem_append.2 ⟨h.arrowless, hts.arrowless⟩
  guarded := by
    intro depth hdepth
    have hlevel : depth + ((0 : Nat) : Int) = depth := by omega
    have hpast : pastClosing depth (us ++ ts) = pastClosing depth ts := by
      rw [h.passes ts hdepth, hlevel]
    rw [hpast]
    exact hts.guarded depth hdepth

end Crosses

/-- A qualified name stands on one level. -/
theorem WrittenName.crosses (name : WrittenName) : Crosses 0 name.tokens := by
  refine .level (List.forall_mem_cons.2 ⟨name.first.kind_mem (by decide), fun t ht => ?_⟩)
  obtain ⟨part, -, hpart⟩ := List.mem_flatMap.1 ht
  rcases List.mem_pair.1 hpart with rfl | rfl
  · exact part.1.kind_mem (by decide)
  · exact part.2.kind_mem (by decide)

/-- Array brackets stand on one level. -/
theorem bracketTokens_crosses (brackets : List BracketPair) :
    Crosses 0 (bracketTokens brackets) := by
  refine .level fun t ht => ?_
  obtain ⟨pair, -, hpair⟩ := List.mem_flatMap.1 ht
  rcases List.mem_pair.1 hpair with rfl | rfl
  · exact pair.opening.kind_mem (by decide)
  · exact pair.closing.kind_mem (by decide)

mutual

/-- A type is crossed with as many lists open as it leaves to be closed. -/
theorem OpenType.crosses : ∀ {n : Nat} (t : OpenType n), Crosses n t.tokens
  | _, .primitive word brackets => by
    have hword : Crosses 0 [word.1] := .level (by
      intro t ht
      rw [List.mem_singleton.1 ht]
      exact word.kind_mem (by decide))
    rw [OpenType.tokens]
    exact hword.append (bracketTokens_crosses brackets)
  | _, .named name brackets => by
    rw [OpenType.tokens]
    exact name.crosses.append (bracketTokens_crosses brackets)
  | _, .generic (n := n) name opening items => by
    have hitems := (Crosses.opening opening.kind_eq).append items.crosses
    have hcount : 0 + (1 + n) = n + 1 := by omega
    rw [OpenType.tokens]
    exact hcount ▸ name.crosses.append hitems
  | _, .array (n := n) name opening items closing first brackets => by
    have hitems := (Crosses.opening opening.kind_eq).append items.crosses
    have hcount : 0 + (1 + n) = n + 1 := by omega
    have hopen : Crosses (n + 1) (name.tokens ++ opening.1 :: items.tokens) :=
      hcount ▸ name.crosses.append hitems
    have hwhole := (hopen.close closing.2).append (bracketTokens_crosses (first :: brackets))
    simpa [OpenType.tokens] using hwhole

/-- Type arguments are crossed with as many lists open as they leave to be closed. -/
theorem OpenArguments.crosses : ∀ {n : Nat} (items : OpenArguments n), Crosses n items.tokens
  | _, .last t => by
    rw [OpenArguments.tokens]
    exact t.crosses
  | _, .more (n := n) t closing comma items => by
    have hcomma : Crosses 0 [comma.1] := .level (by
      intro u hu
      rw [List.mem_singleton.1 hu]
      exact comma.kind_mem (by decide))
    have hwhole := (t.crosses.close closing.2).append (hcomma.append items.crosses)
    have hcount : 0 + (0 + n) = n := by omega
    rw [hcount] at hwhole
    simpa [OpenArguments.tokens] using hwhole

end

theorem WrittenType.crosses (t : WrittenType) : Crosses 0 t.tokens :=
  t.type.crosses.close t.closing.2

end Crossing

section Reading

variable {c : Cursor} {rest : List Token}

/-- The parts of a qualified name are read up to the token that is no dot. -/
theorem nameParts_land {more : List (Token.Among [Symbol.dot] × Token.Among [.identifier])}
    (hrest : Next (· ≠ Symbol.dot) rest) {n : Nat} (hn : more.length < n)
    (hc : c.rest = (more.flatMap fun part => [part.1.1, part.2.1]) ++ rest) :
    Lands c (· = rest) (Likes (more.map fun part => .word part.2.1))
      (manyUpTo (check2 Symbol.dot .identifier) (advance >>= fun _ => leaf .identifier) n) := by
  induction more generalizing n c with
  | nil =>
    obtain ⟨m, rfl⟩ : ∃ m, n = m + 1 := ⟨n - 1, by omega⟩
    exact .manyUpTo_nil (check2_no (hc ▸ hrest)) hc
  | cons part more ih =>
    obtain ⟨m, rfl⟩ : ∃ m, n = m + 1 := ⟨n - 1, by omega⟩
    have hm : more.length < m := by
      rw [List.length_cons] at hn
      omega
    have hfront : c.rest = part.1.1 :: part.2.1 ::
        ((more.flatMap fun part => [part.1.1, part.2.1]) ++ rest) := hc
    have hleaf : Lands c (· = (more.flatMap fun part => [part.1.1, part.2.1]) ++ rest)
        (Like (.word part.2.1)) (advance >>= fun _ => leaf .identifier) := by
      refine .step (advance_past hfront (ne_eof_of_mem part.1.2 (by decide))) ?_
      exact .of_past (leaf_past rfl (ne_eof_of_mem part.2.2 (by decide))) rfl rfl
    exact .manyUpTo_cons (check2_yes hfront part.1.kind_eq part.2.kind_eq) (.refl c) hleaf
      fun d hd => ih hm hd

/-- Reading a qualified name gives its tree and lands behind it. -/
theorem WrittenName.lands (name : WrittenName) (hc : c.rest = name.tokens ++ rest)
    (hrest : Next (· ≠ Symbol.dot) rest) :
    Lands c (· = rest) (Like name.tree) qualifiedName := by
  have hfront : c.rest = name.first.1 ::
      ((name.more.flatMap fun part => [part.1.1, part.2.1]) ++ rest) := hc
  have hname : checkName.run c = (true, c) := by
    change ((c.tokenAt 0).kind.isName, c) = _
    rw [tokenAt_zero_cons hfront, name.first.kind_eq]
    rfl
  refine .here fun start => .glance hname ?_
  rw [if_pos rfl]
  refine .step (leaf_past hfront (ne_eof_of_mem name.first.2 (by decide))) ?_
  refine (Lands.many (nameParts_land hrest ?_ rfl)).bind fun more d hd hmore => ?_
  · have hparts := length_flatMap_le (f := fun part : Token.Among [Symbol.dot] ×
      Token.Among [.identifier] => [part.1.1, part.2.1]) (fun _ => List.cons_ne_nil _ _) name.more
    rw [past_rest, List.length_append]
    omega
  · exact .finish (.cons rfl hmore) hd

/-- A pair of brackets has two tokens. -/
theorem length_le_bracketTokens (brackets : List BracketPair) :
    brackets.length ≤ (bracketTokens brackets).length :=
  length_flatMap_le (fun _ => List.cons_ne_nil _ _) brackets

/-- Array brackets around a type that was read. -/
theorem arrayBrackets_land {sort : List Token → Prop} (brackets : List BracketPair)
    {node tree : Node} (hnode : Like tree node) (hc : c.rest = bracketTokens brackets ++ rest)
    (hrest : Next (· ≠ Symbol.lbracket) rest) (hsort : sort rest) :
    Lands c sort (Like (inBrackets brackets.length tree)) (arrayBrackets node) := by
  have hlength : brackets.length < 1 + c.rest.length := by
    have hpairs := length_le_bracketTokens brackets
    rw [hc, List.length_append]
    omega
  refine .loop ?_
  generalize 1 + c.rest.length = n at hlength
  induction brackets generalizing c n node tree with
  | nil =>
    obtain ⟨m, rfl⟩ : ∃ m, n = m + 1 := ⟨n - 1, by omega⟩
    have hstop : (check2 Symbol.lbracket Symbol.rbracket).run c = (false, c) :=
      check2_no (hc ▸ hrest)
    refine .iterate_stop ?_ hnode (hc ▸ hsort)
    rw [bind_of_run hstop]
    rfl
  | cons pair brackets ih =>
    obtain ⟨m, rfl⟩ : ∃ m, n = m + 1 := ⟨n - 1, by omega⟩
    have hm : brackets.length < m := by
      rw [List.length_cons] at hlength
      omega
    have hfront : c.rest = pair.opening.1 :: pair.closing.1 ::
      (bracketTokens brackets ++ rest) := hc
    refine .iterate_go (?_ : Lands c (· = bracketTokens brackets ++ rest)
      (fun o => ∃ b, o = some b ∧ Like (bare .arrayType [tree]) b) _) fun b d hd hb => ih hb hd m hm
    refine .glance (check2_yes hfront pair.opening.kind_eq pair.closing.kind_eq) ?_
    refine .step (advance_past hfront (ne_eof_of_mem pair.opening.2 (by decide))) ?_
    refine .step (advance_past rfl (ne_eof_of_mem pair.closing.2 (by decide))) ?_
    exact (Lands.finish_at hnode.single rfl).bind fun b d hd hb => .pure ⟨b, rfl, hb⟩ hd

/-- Tokens with which a type goes on after a name or after type arguments. -/
def typeMarks : List TokenKind := [Symbol.dot, Symbol.lt, Symbol.lbracket]

/-- Behind a type a bracket is next, or what follows the type. -/
theorem bracketTokens_next {sort : TokenKind → Prop} (brackets : List BracketPair)
    (hrest : Next sort rest) (hsort : sort Symbol.lbracket) :
    Next sort (bracketTokens brackets ++ rest) := by
  cases brackets with
  | nil => exact hrest
  | cons pair brackets =>
    have hkind : pair.opening.1.kind = Symbol.lbracket := pair.opening.kind_eq
    change sort pair.opening.1.kind
    rw [hkind]
    exact hsort

section Production

variable {rule : Rules} {sort mid : List Token → Prop} {Q : Node → Prop}

/-- A type that is a word, and what the brackets after it make of it. -/
theorem type_word {kinds : List TokenKind} {word : Token.Among kinds}
    (hkinds : ∀ k ∈ kinds, k ∈ TokenKind.keyword .voidKw :: primitiveWords)
    (hc : c.rest = word.1 :: rest)
    (hbrackets : ∀ node (d : Cursor), d.rest = rest → Like (bare .type [.word word.1]) node →
      Lands d sort Q (arrayBrackets node)) : Lands c sort Q (type rule) := by
  obtain ⟨hsign, hend, hword⟩ := (by decide : ∀ k ∈ TokenKind.keyword .voidKw :: primitiveWords,
    k ≠ Symbol.atSign ∧ k ≠ .eof ∧ (k.isPrimitive || k == .keyword .voidKw) = true) _
      (hkinds _ word.2)
  have hstart : Next (· ≠ Symbol.atSign) c.rest := by
    rw [hc]
    exact hsign
  refine .here fun start => .glance (many_none (check_no hstart)) ?_
  refine .glance (rfl : (kindAt 0).run c = ((c.tokenAt 0).kind, c)) ?_
  rw [tokenAt_zero_cons hc, if_pos hword]
  refine .step (leaf_past hc hend) ?_
  have hleaf : Like (.word word.1) (.ofToken .identifier word.1) := rfl
  exact (Lands.finish_at hleaf.single rfl).bind fun node d hd hnode => hbrackets node d hd hnode

/-- A class type with the type arguments that are given, and what the brackets after it make
of it. -/
theorem type_class {name : WrittenName} {given : List Node} (hc : c.rest = name.tokens ++ rest)
    (hrest : Next (· ≠ Symbol.dot) rest)
    (hgiven : ∀ d : Cursor, d.rest = rest →
      Lands d mid (Likes given) (optional (check Symbol.lt) (typeArguments rule)))
    (hmid : ∀ ts, mid ts → Next (· ≠ Symbol.dot) ts)
    (hbrackets : ∀ node (d : Cursor), mid d.rest → Like (bare .type (name.tree :: given)) node →
      Lands d sort Q (arrayBrackets node)) : Lands c sort Q (type rule) := by
  have hfront : c.rest = name.first.1 ::
      ((name.more.flatMap fun part => [part.1.1, part.2.1]) ++ rest) := hc
  have hstart : Next (· ≠ Symbol.atSign) c.rest := by
    rw [hfront]
    exact name.first.next_ne (by decide)
  have hword : ¬ (name.first.1.kind.isPrimitive ||
      name.first.1.kind == .keyword .voidKw) = true := by
    rw [name.first.kind_eq]
    decide
  have hname : (name.first.1.kind == .identifier) = true := beq_iff_eq.2 name.first.kind_eq
  refine .here fun start => .glance (many_none (check_no hstart)) ?_
  refine .glance (rfl : (kindAt 0).run c = ((c.tokenAt 0).kind, c)) ?_
  rw [tokenAt_zero_cons hfront, if_neg hword, if_pos hname]
  refine (name.lands hc hrest).bind fun outer d hd houter => ?_
  refine (hgiven d hd).bind fun items d hd hitems => ?_
  have hstop : (check2 Symbol.dot .identifier).run d = (false, d) := check2_no (hmid _ hd)
  refine .glance (loop_none ?_) ?_
  · rw [bind_of_run hstop]
    rfl
  · have hparts : Likes (name.tree :: given) (outer :: items) := .cons houter hitems
    exact (Lands.finish hparts hd).bind fun node d hd hnode => hbrackets node d hd hnode

/-- A list of type arguments, closed by one mark. -/
theorem typeArguments_land {opening : Token.Among [Symbol.lt]} {n : Nat} {ts after : List Token}
    {given : List Node} (hc : c.rest = opening.1 :: ts) (hfront : Next (· ∈ typeStarts) ts)
    (hgiven : ∀ d : Cursor, d.rest = ts →
      Lands d (Pending (n + 1) after) (Likes given) (commaList (typeArgument rule))) :
    Lands c (Pending n after) (Like (bare .typeArguments given)) (typeArguments rule) := by
  refine .here fun start => .step (need_past hc opening.kind_eq) ?_
  refine .glance (skipGreater_no (hfront.imp ?_)) ?_
  · exact (by decide : ∀ k ∈ typeStarts, k ≠ Symbol.gt ∧ remainder? k = none) _
  · rw [if_neg Bool.false_ne_true]
    refine (hgiven _ rfl).bind fun items d hd hitems => ?_
    exact (closeAngle_lands hd).bind fun _ d hd _ => .finish hitems hd

end Production

/-- A type is read with the marks that close its lists. The marks for the lists around it are
left; if there are none, the token after the type must not go on with it. -/
def OpenType.Readable {k : Nat} (t : OpenType k) : Prop :=
  ∀ ⦃fuel n : Nat⦄ ⦃after ts : List Token⦄ ⦃c : Cursor⦄, t.tokens.length ≤ fuel →
    (n = 0 → Next (· ∉ typeMarks) after) → Pending (k + n) after ts → c.rest = t.tokens ++ ts →
    Lands c (Pending n after) (Like t.tree) (Grammar.type (parse fuel))

/-- Type arguments are read up to the marks that close their list and those around it. -/
def OpenArguments.Readable {k : Nat} (items : OpenArguments k) : Prop :=
  ∀ ⦃fuel n : Nat⦄ ⦃after ts : List Token⦄, items.tokens.length < fuel →
    Pending (k + (n + 1)) after ts →
    Series Symbol.comma (typeArgument (parse fuel)) (Pending (n + 1) after) (items.tokens ++ ts)
      items.trees

section Types

variable {n : Nat} {after ts : List Token}

/-- A pending closing token is no mark that would continue a type. -/
theorem Pending.unmarked (h : Pending n after ts) (hafter : n = 0 → Next (· ∉ typeMarks) after) :
    Next (· ∉ typeMarks) ts := by
  cases n with
  | zero =>
    rw [h.eq]
    exact hafter rfl
  | succ n => exact h.closing.imp ((by decide : ∀ k ∈ closingAngles, k ∉ typeMarks) _)

/-- A token that continues no type is no dot. -/
theorem ne_dot_of_unmarked {kind : TokenKind} (h : kind ∉ typeMarks) : kind ≠ Symbol.dot := by
  rintro rfl
  exact h (by decide)

/-- A token that continues no type is no opening angle. -/
theorem ne_lt_of_unmarked {kind : TokenKind} (h : kind ∉ typeMarks) : kind ≠ Symbol.lt := by
  rintro rfl
  exact h (by decide)

/-- A token that continues no type is no bracket. -/
theorem ne_lbracket_of_unmarked {kind : TokenKind} (h : kind ∉ typeMarks) :
    kind ≠ Symbol.lbracket := by
  rintro rfl
  exact h (by decide)

/-- A type argument without a wildcard is a type. -/
theorem typeArgument_land {fuel k : Nat} {t : OpenType k} (h : t.Readable)
    (hfuel : t.tokens.length < fuel) (hafter : n = 0 → Next (· ∉ typeMarks) after)
    (hts : Pending (k + n) after ts) (hc : c.rest = t.tokens ++ ts) :
    Lands c (Pending n after) (Like t.tree) (typeArgument (parse fuel)) := by
  obtain ⟨m, rfl⟩ : ∃ m, fuel = m + 1 := ⟨fuel - 1, by omega⟩
  have hquestion : Next (· ≠ Symbol.question) c.rest := by
    rw [hc]
    exact (t.next ts).imp ((by decide : ∀ k ∈ typeStarts, k ≠ Symbol.question) _)
  refine .glance (check_no hquestion) ?_
  rw [if_neg Bool.false_ne_true]
  exact h (by omega) hafter hts hc

namespace OpenType.Readable

/-- A primitive type is its word and its brackets. -/
theorem primitive (word : Token.Among primitiveWords) (brackets : List BracketPair) :
    (OpenType.primitive word brackets).Readable := by
  intro fuel n after ts c _ hafter hts hc
  rw [Nat.zero_add] at hts
  rw [tokens, List.cons_append] at hc
  have hnext : Next (· ≠ Symbol.lbracket) ts := (hts.unmarked hafter).imp ne_lbracket_of_unmarked
  exact type_word (by decide) hc fun node d hd hnode =>
    arrayBrackets_land brackets hnode hd hnext hts

/-- A type without arguments is its name and its brackets. -/
theorem named (name : WrittenName) (brackets : List BracketPair) :
    (OpenType.named name brackets).Readable := by
  intro fuel n after ts c _ hafter hts hc
  rw [Nat.zero_add] at hts
  rw [tokens, List.append_assoc] at hc
  have hnext := hts.unmarked hafter
  have hdot : Next (· ≠ Symbol.dot) (bracketTokens brackets ++ ts) :=
    bracketTokens_next brackets (hnext.imp ne_dot_of_unmarked) (by decide)
  have hlt : Next (· ≠ Symbol.lt) (bracketTokens brackets ++ ts) :=
    bracketTokens_next brackets (hnext.imp ne_lt_of_unmarked) (by decide)
  have hnone (d : Cursor) (hd : d.rest = bracketTokens brackets ++ ts) :
      Lands d (· = bracketTokens brackets ++ ts) (Likes [])
        (optional (check Symbol.lt) (typeArguments (parse fuel))) :=
    .optional_none (check_no (hd ▸ hlt)) hd
  exact type_class hc hdot hnone (fun us hus => hus ▸ hdot) fun node d hd hnode =>
    arrayBrackets_land brackets hnode hd (hnext.imp ne_lbracket_of_unmarked) hts

/-- The type arguments after a name. -/
theorem arguments {k fuel : Nat} {c : Cursor} {opening : Token.Among [Symbol.lt]}
    {items : OpenArguments k} (h : items.Readable) (hfuel : items.tokens.length < fuel)
    (hts : Pending (k + (n + 1)) after ts) (hc : c.rest = opening.1 :: (items.tokens ++ ts)) :
    Lands c (Pending n after) (Likes [bare .typeArguments items.trees])
      (optional (check Symbol.lt) (typeArguments (parse fuel))) := by
  have hopening : Next (· = Symbol.lt) c.rest := by
    rw [hc]
    exact opening.kind_eq
  exact .optional_some (check_yes hopening) (.refl c)
    (typeArguments_land hc (items.next ts) fun d hd => (h hfuel hts).commaList hd)

/-- A type whose list of arguments is left open is read up to the last argument. -/
theorem generic {k : Nat} {name : WrittenName} {opening : Token.Among [Symbol.lt]}
    {items : OpenArguments k} (h : items.Readable) :
    (OpenType.generic name opening items).Readable := by
  intro fuel n after ts c hfuel hafter hts hc
  have hcount : k + 1 + n = k + (n + 1) := by omega
  simp only [tokens, List.append_assoc, List.cons_append, List.length_append, List.length_cons]
    at hc hfuel
  have hopening : Next (· ≠ Symbol.dot) (opening.1 :: (items.tokens ++ ts)) :=
    opening.next_ne (by decide)
  refine type_class hc hopening (fun d hd => arguments h (by omega) (hcount ▸ hts) hd)
    (fun us hus => (hus.unmarked hafter).imp ne_dot_of_unmarked) fun node d hd hnode => ?_
  exact arrayBrackets_land [] hnode rfl
    ((hd.unmarked hafter).imp ne_lbracket_of_unmarked) hd

/-- A type with brackets behind its arguments closes its own list first. -/
theorem array {k : Nat} {name : WrittenName} {opening : Token.Among [Symbol.lt]}
    {items : OpenArguments k} {closing : Closing (k + 1)} {first : BracketPair}
    {brackets : List BracketPair} (h : items.Readable) :
    (OpenType.array name opening items closing first brackets).Readable := by
  intro fuel n after ts c hfuel hafter hts hc
  rw [Nat.zero_add] at hts
  simp only [tokens, List.append_assoc, List.cons_append, List.length_append, List.length_cons]
    at hc hfuel
  have hopening : Next (· ≠ Symbol.dot) (opening.1 ::
      (items.tokens ++ (closing.1 ++ (bracketTokens (first :: brackets) ++ ts)))) :=
    opening.next_ne (by decide)
  have hclosing : Pending (k + (0 + 1)) (bracketTokens (first :: brackets) ++ ts)
      (closing.1 ++ (bracketTokens (first :: brackets) ++ ts)) := ⟨closing.1, closing.2, rfl⟩
  have hnext := hts.unmarked hafter
  have hdot : Next (· ≠ Symbol.dot) (bracketTokens (first :: brackets) ++ ts) :=
    bracketTokens_next _ (hnext.imp ne_dot_of_unmarked) (by decide)
  refine type_class hc hopening (fun d hd => arguments h (by omega) hclosing hd)
    (fun us hus => hus.eq ▸ hdot) fun node d hd hnode => ?_
  exact arrayBrackets_land (first :: brackets) hnode hd.eq
    (hnext.imp ne_lbracket_of_unmarked) hts

end OpenType.Readable

namespace OpenArguments.Readable

/-- The last argument leaves open what its type does. -/
theorem last {k : Nat} {t : OpenType k} (h : t.Readable) : (OpenArguments.last t).Readable := by
  intro fuel n after ts hfuel hts
  have hafter : n + 1 = 0 → Next (· ∉ typeMarks) after := fun hn => absurd hn (Nat.succ_ne_zero n)
  refine .last (fun c hc => typeArgument_land h hfuel hafter hts hc) fun us hus => ?_
  exact hus.closing.imp ((by decide : ∀ k ∈ closingAngles, k ≠ Symbol.comma) _)

/-- An argument before a comma closes all of its own lists. -/
theorem more {j k : Nat} {t : OpenType j} {closing : Closing j}
    {comma : Token.Among [Symbol.comma]} {items : OpenArguments k} (h : t.Readable)
    (hitems : items.Readable) : (OpenArguments.more t closing comma items).Readable := by
  intro fuel n after ts hfuel hts
  simp only [tokens, List.append_assoc, List.cons_append, List.length_append, List.length_cons]
    at hfuel ⊢
  have hcomma : Next (· ∉ typeMarks) (comma.1 :: (items.tokens ++ ts)) := by
    change comma.1.kind ∉ _
    rw [comma.kind_eq]
    decide
  refine .more (fun c hc => ?_) comma.kind_eq ?_ (hitems (by omega) hts)
  · have hland : Lands c (Pending 0 (comma.1 :: (items.tokens ++ ts))) (Like t.tree)
        (typeArgument (parse fuel)) :=
      typeArgument_land h (by omega) (fun _ => hcomma) ⟨closing.1, closing.2, rfl⟩ hc
    exact hland.imp (fun us hus => hus.eq) fun _ hnode => hnode
  · simp only [List.length_append, List.length_cons]
    omega

end OpenArguments.Readable

mutual

/-- Every type is read as it is written. -/
theorem OpenType.readable : ∀ {k : Nat} (t : OpenType k), t.Readable
  | _, .primitive word brackets => .primitive word brackets
  | _, .named name brackets => .named name brackets
  | _, .generic _ _ items => .generic items.readable
  | _, .array _ _ items _ _ _ => .array items.readable

/-- All type arguments are read as they are written. -/
theorem OpenArguments.readable : ∀ {k : Nat} (items : OpenArguments k), items.Readable
  | _, .last t => .last t.readable
  | _, .more t _ _ items => .more t.readable items.readable

end

/-- A type is read as it is written, in front of a token that does not go on with it. -/
theorem WrittenType.lands (t : WrittenType) {fuel : Nat} (hfuel : t.tokens.length ≤ fuel)
    (hrest : Next (· ∉ typeMarks) rest) (hc : c.rest = t.tokens ++ rest) :
    Lands c (· = rest) (Like t.tree) (Grammar.type (parse fuel)) := by
  rw [WrittenType.tokens, List.append_assoc] at hc
  rw [WrittenType.tokens, List.length_append] at hfuel
  have hland : Lands c (Pending 0 rest) (Like t.tree) (Grammar.type (parse fuel)) :=
    t.type.readable (by omega) (fun _ => hrest) ⟨t.closing.1, t.closing.2, rfl⟩ hc
  exact hland.imp (fun us hus => hus.eq) fun _ hnode => hnode

end Types

end Reading

end JavaObjC
