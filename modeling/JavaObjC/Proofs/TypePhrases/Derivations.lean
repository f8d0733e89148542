import JavaObjC.Proofs.Printing.Choices

/-!
# Type phrases

What the grammar takes for a type when no annotation is in it: a word, or a
qualified name with type arguments and, after these, further names with type
arguments of their own; arguments with wildcards among them, or none at all;
and array brackets. As one token can close several lists of type arguments at
once, a phrase is derived with the number of lists that are still open at its
end. Derived phrases are read as their trees, and a search for a closing angle
bracket crosses them.
-/

namespace JavaObjC

open Cursor Grammar JavaObjC.Parser Node

/-- Words that are types by themselves. -/
def wordTypes : List TokenKind := .keyword .voidKw :: primitiveWords

/-- Words in front of the bound of a wildcard. -/
def boundWords : List TokenKind := [Keyword.extendsKw, Keyword.superKw]

/-- The parts a type phrase is made of. -/
inductive TypePart where
  /-- A whole type. -/
  | type
  /-- Names with their type arguments. -/
  | names
  /-- Type arguments in angle brackets. -/
  | arguments
  /-- Type arguments between commas. -/
  | list
  /-- One type argument. -/
  | argument

/-- Tokens that a part begins with. -/
def TypePart.fronts : TypePart → List TokenKind
  | .type => .identifier :: wordTypes
  | .names => [.identifier]
  | .arguments => [Symbol.lt]
  | .list | .argument => .symbol .question :: .identifier :: wordTypes

/-- The tokens of a part of a type phrase and its trees. After them as many lists of type
arguments as the number says are still to be closed. -/
inductive TypePhrase : TypePart → Nat → List Token → List Node → Prop where
  | word (word : Token.Among wordTypes) (brackets : List BracketPair) :
      TypePhrase .type 0 (word.1 :: bracketTokens brackets)
        [inBrackets brackets.length (bare .type [Node.word word.1])]
  | named {n : Nat} {us : List Token} {nodes : List Node} (h : TypePhrase .names n us nodes) :
      TypePhrase .type n us [bare .type nodes]
  | array {n : Nat} {us vs : List Token} {nodes : List Node} (h : TypePhrase .names n us nodes)
      (hclosing : Closes n vs) (first : BracketPair) (brackets : List BracketPair) :
      TypePhrase .type 0 (us ++ (vs ++ bracketTokens (first :: brackets)))
        [inBrackets (brackets.length + 1) (bare .type nodes)]
  | name (name : WrittenName) : TypePhrase .names 0 name.tokens [name.tree]
  | given {n : Nat} {us : List Token} {nodes : List Node} (name : WrittenName)
      (h : TypePhrase .arguments n us nodes) :
      TypePhrase .names n (name.tokens ++ us) [name.tree, bare .typeArguments nodes]
  | inner {m n : Nat} {us vs ws : List Token} {nodes parts : List Node} (name : WrittenName)
      (h : TypePhrase .arguments m us nodes) (hclosing : Closes m vs)
      (dot : Token.Among [Symbol.dot]) (hinner : TypePhrase .names n ws parts) :
      TypePhrase .names n (name.tokens ++ (us ++ (vs ++ dot.1 :: ws)))
        (name.tree :: bare .typeArguments nodes :: parts)
  | diamond (opening : Token.Among [Symbol.lt]) : TypePhrase .arguments 1 [opening.1] []
  | listed {n : Nat} {us : List Token} {nodes : List Node} (opening : Token.Among [Symbol.lt])
      (h : TypePhrase .list n us nodes) : TypePhrase .arguments (n + 1) (opening.1 :: us) nodes
  | last {n : Nat} {us : List Token} {tree : Node} (h : TypePhrase .argument n us [tree]) :
      TypePhrase .list n us [tree]
  | more {m n : Nat} {us vs ws : List Token} {tree : Node} {nodes : List Node}
      (h : TypePhrase .argument m us [tree]) (hclosing : Closes m vs)
      (comma : Token.Among [Symbol.comma]) (hmore : TypePhrase .list n ws nodes) :
      TypePhrase .list n (us ++ (vs ++ comma.1 :: ws)) (tree :: nodes)
  | type {n : Nat} {us : List Token} {tree : Node} (h : TypePhrase .type n us [tree]) :
      TypePhrase .argument n us [tree]
  | wildcard (question : Token.Among [Symbol.question]) :
      TypePhrase .argument 0 [question.1] [bare .wildcard []]
  | bounded {n : Nat} {us : List Token} {tree : Node} (question : Token.Among [Symbol.question])
      (direction : Token.Among boundWords) (h : TypePhrase .type n us [tree]) :
      TypePhrase .argument n (question.1 :: direction.1 :: us)
        [bare .wildcard [Node.word direction.1, tree]]

namespace TypePhrase

variable {part : TypePart} {k : Nat} {us : List Token} {nodes : List Node}

/-- A phrase begins with one of the tokens of its part. -/
theorem front (h : TypePhrase part k us nodes) :
    ∃ u vs, us = u :: vs ∧ u.kind ∈ part.fronts := by
  induction h with
  | word word brackets => exact ⟨_, _, rfl, word.kind_mem (by decide)⟩
  | named _ ih =>
    obtain ⟨u, vs, rfl, hu⟩ := ih
    exact ⟨u, vs, rfl, (by decide : TypePart.names.fronts ⊆ TypePart.type.fronts) hu⟩
  | array _ _ _ _ ih =>
    obtain ⟨u, vs, rfl, hu⟩ := ih
    exact ⟨u, _, rfl, (by decide : TypePart.names.fronts ⊆ TypePart.type.fronts) hu⟩
  | name name => exact ⟨_, _, rfl, name.first.2⟩
  | given name _ _ => exact ⟨_, _, rfl, name.first.2⟩
  | inner name _ _ _ _ _ _ => exact ⟨_, _, rfl, name.first.2⟩
  | diamond opening => exact ⟨_, _, rfl, opening.2⟩
  | listed opening _ _ => exact ⟨_, _, rfl, opening.2⟩
  | last _ ih => exact ih
  | more _ _ _ _ ih _ =>
    obtain ⟨u, vs, rfl, hu⟩ := ih
    exact ⟨u, _, rfl, hu⟩
  | type _ ih =>
    obtain ⟨u, vs, rfl, hu⟩ := ih
    exact ⟨u, vs, rfl, List.mem_cons_of_mem _ hu⟩
  | wildcard question => exact ⟨_, _, rfl, question.kind_mem (by decide)⟩
  | bounded question _ _ _ => exact ⟨_, _, rfl, question.kind_mem (by decide)⟩

/-- At a phrase one of the tokens of its part is next. -/
theorem next (h : TypePhrase part k us nodes) (ts : List Token) :
    Next (· ∈ part.fronts) (us ++ ts) := by
  obtain ⟨u, vs, rfl, hu⟩ := h.front
  exact hu

/-- A name with its arguments has at most two nodes for each of its tokens. -/
theorem length_names (h : TypePhrase .names k us nodes) : nodes.length ≤ 2 * us.length := by
  generalize hpart : TypePart.names = part at h
  induction h with
  | name name =>
    rw [WrittenName.tokens]
    simp only [List.length_cons, List.length_nil]
    omega
  | given name _ _ =>
    rw [WrittenName.tokens]
    simp only [List.length_append, List.length_cons, List.length_nil]
    omega
  | inner name _ _ _ _ _ ih =>
    have hparts := ih rfl
    rw [WrittenName.tokens]
    simp only [List.length_append, List.length_cons]
    omega
  | _ => cases hpart

section Crossing

/-- A token that is no angle is crossed at its level. -/
theorem crosses_mark {t : Token} (harrow : t.kind ≠ Symbol.arrow) (heof : t.kind ≠ .eof)
    (hchange : angleChange? t.kind = some 0) : Crosses 0 [t] where
  arrowless := List.forall_mem_singleton.2 harrow
  passes := by
    intro depth ts hdepth
    rw [List.singleton_append, pastClosing_cons ts hdepth heof hchange]
    rfl

/-- A token of kinds that are no angles is crossed at its level. -/
theorem crosses_among {kinds : List TokenKind} (t : Token.Among kinds)
    (hkinds : ∀ k ∈ kinds, k ≠ Symbol.arrow ∧ k ≠ .eof ∧ angleChange? k = some 0) :
    Crosses 0 [t.1] :=
  crosses_mark (hkinds _ t.2).1 (hkinds _ t.2).2.1 (hkinds _ t.2).2.2

/-- A search for a closing angle bracket crosses a phrase. -/
theorem crosses (h : TypePhrase part k us nodes) : Crosses k us := by
  have hzero {n : Nat} {vs : List Token} (h : Crosses (0 + n) vs) : Crosses n vs :=
    Nat.zero_add n ▸ h
  induction h with
  | word word brackets =>
    exact (crosses_among word (by decide)).append (bracketTokens_crosses brackets)
  | named _ ih => exact ih
  | array _ hclosing first brackets ih =>
    rw [← List.append_assoc]
    exact (ih.close hclosing).append (bracketTokens_crosses (first :: brackets))
  | name name => exact name.crosses
  | given name _ ih => exact hzero (name.crosses.append ih)
  | inner name _ hclosing dot _ ih ih' =>
    have hrest := (ih.close hclosing).append ((crosses_among dot (by decide)).append ih')
    rw [List.append_assoc] at hrest
    exact hzero (name.crosses.append (hzero (hzero hrest)))
  | diamond opening => exact .opening opening.kind_eq
  | listed opening _ ih =>
    exact Nat.add_comm 1 _ ▸ (Crosses.opening opening.kind_eq).append ih
  | last _ ih => exact ih
  | more _ hclosing comma _ ih ih' =>
    have hrest := (ih.close hclosing).append ((crosses_among comma (by decide)).append ih')
    rw [List.append_assoc] at hrest
    exact hzero (hzero hrest)
  | type _ ih => exact ih
  | wildcard question => exact crosses_among question (by decide)
  | bounded question direction _ ih =>
    exact hzero ((crosses_among question (by decide)).append
      (hzero ((crosses_among direction (by decide)).append ih)))

end Crossing

end TypePhrase

section Names

/-- A name with type arguments if there are any. -/
def classPart (rule : Rules) : Parser (List Node) := do
  let name ← qualifiedName
  let given ← optional (check Symbol.lt) (typeArguments rule)
  return name :: given

/-- A further name behind a dot. -/
def innerPart (rule : Rules) (parts : List Node) : Parser (Option (List Node)) := do
  if ← check2 Symbol.dot .identifier then
    let _ ← advance
    let found ← classPart rule
    return some (parts ++ found)
  else return none

variable {c : Cursor} {rule : Rules} {sort mid : List Token → Prop} {nodes : List Node}

/-- The step that reads an inner class, written out. -/
theorem innerPart_eq (rule : Rules) : innerPart rule = fun parts => do
    if ← check2 Symbol.dot .identifier then
      let _ ← advance
      let inner ← qualifiedName
      let given ← optional (check Symbol.lt) (typeArguments rule)
      return some (parts ++ inner :: given)
    else return none := by
  funext parts
  simp only [innerPart, classPart, bind_assoc, pure_bind]

/-- A class type is its names, under one node, and what the brackets after it make of that. -/
theorem type_of_names {Q : Node → Prop} (hfront : Next (· = .identifier) c.rest)
    (hnames : Lands c mid (Likes nodes) (classPart rule >>= fun found =>
      loop (innerPart rule) found))
    (hbrackets : ∀ node (d : Cursor), mid d.rest → Like (bare .type nodes) node →
      Lands d sort Q (arrayBrackets node)) : Lands c sort Q (type rule) := by
  have hkind : (c.tokenAt 0).kind = .identifier := hfront.kind
  have hsign : Next (· ≠ Symbol.atSign) c.rest := hfront.imp fun hk => by rw [hk]; decide
  have hrest : Lands c sort Q ((classPart rule >>= fun found => loop (innerPart rule) found) >>=
      fun parts => finish .type (c.tokenAt 0).span.start ([] ++ parts) >>= arrayBrackets) :=
    hnames.bind fun parts d hd hparts =>
      (Lands.finish hparts hd).bind fun node d hd hnode => hbrackets node d hd hnode
  refine .glance (rfl : here.run c = ((c.tokenAt 0).span.start, c)) ?_
  refine .glance (many_none (check_no hsign)) ?_
  refine .glance (rfl : (kindAt 0).run c = ((c.tokenAt 0).kind, c)) ?_
  rw [hkind, if_neg (by decide), if_pos (by decide)]
  simpa only [classPart, innerPart_eq, bind_assoc, pure_bind] using hrest

/-- Names that are read part by part, up to tokens of a certain sort. The bound of the loop is
large enough wherever the first part ends. -/
def Spells (rule : Rules) (nodes : List Node) (c : Cursor) (sort : List Token → Prop) : Prop :=
  ∃ (mid : List Token → Prop) (P : List Node → Prop), Lands c mid P (classPart rule) ∧
    ∀ (found : List Node) (d : Cursor), mid d.rest → P found →
      nodes.length ≤ 2 * (1 + d.rest.length) ∧
        ∀ (bound : Nat) (read trees : List Node), nodes.length ≤ 2 * bound → Likes trees read →
          Lands d sort (Likes (trees ++ nodes)) (iterate (innerPart rule) bound (read ++ found))

namespace Spells

/-- The parts of a class type are read by a loop that begins with the first part. -/
theorem loop (h : Spells rule nodes c sort) :
    Lands c sort (Likes nodes) (classPart rule >>= fun found =>
      Parser.loop (innerPart rule) found) := by
  obtain ⟨mid, P, hpart, hrest⟩ := h
  refine hpart.bind fun found d hd hfound => .loop ?_
  obtain ⟨hbound, hmore⟩ := hrest found d hd hfound
  exact hmore _ [] [] hbound likes_nil

/-- The last part, after which no dot follows. -/
theorem last (hlength : 1 ≤ nodes.length ∧ nodes.length ≤ 2)
    (hpart : Lands c sort (Likes nodes) (classPart rule))
    (hdot : ∀ ts, sort ts → Next (· ≠ Symbol.dot) ts) : Spells rule nodes c sort := by
  refine ⟨sort, Likes nodes, hpart, fun found d hd hfound => ⟨by omega, ?_⟩⟩
  intro bound read trees hbound htrees
  obtain ⟨bound, rfl⟩ : ∃ m, bound = m + 1 := ⟨bound - 1, by omega⟩
  refine .iterate_stop ?_ (htrees.append hfound) hd
  rw [innerPart, bind_of_run (check2_no (hdot _ hd))]
  rfl

/-- A part in front of a dot, behind which further names follow. -/
theorem more {first : List Node} {dot u : Token} {ts : List Token}
    (hpart : Lands c (· = dot :: u :: ts) (Likes first) (classPart rule))
    (hfirst : first.length = 2) (hdot : dot.kind = Symbol.dot) (hu : u.kind = .identifier)
    (hlength : nodes.length ≤ 2 * (u :: ts).length)
    (h : ∀ d : Cursor, d.rest = u :: ts → Spells rule nodes d sort) :
    Spells rule (first ++ nodes) c sort := by
  refine ⟨_, _, hpart, fun found d hd hfound => ⟨?_, ?_⟩⟩
  · rw [hd, List.length_append, List.length_cons]
    omega
  intro bound read trees hbound htrees
  rw [List.length_append] at hbound
  obtain ⟨bound, rfl⟩ : ∃ m, bound = m + 1 := ⟨bound - 1, by omega⟩
  obtain ⟨mid, P, hnext, hrest⟩ := h (d.past [dot] (u :: ts)) rfl
  have hround : (iterate (innerPart rule) (bound + 1) (read ++ found)).run d =
      (classPart rule >>= fun more =>
        iterate (innerPart rule) bound (read ++ found ++ more)).run (d.past [dot] (u :: ts)) := by
    have htest : (check2 Symbol.dot .identifier).run d = (true, d) := check2_yes hd hdot hu
    have hadvance : advance.run d = (dot, d.past [dot] (u :: ts)) :=
      advance_past hd (by rw [hdot]; decide)
    have hstep : (innerPart rule (read ++ found)).run d =
        (classPart rule >>= fun more => Pure.pure (some (read ++ found ++ more))).run
          (d.past [dot] (u :: ts)) := by
      rw [innerPart, bind_of_run htest, if_pos rfl, bind_of_run hadvance]
    rw [iterate, StateT.run_bind, hstep]
    rfl
  refine .of_run hround (.past d _ _) (hnext.bind fun more e he hmore => ?_)
  rw [← List.append_assoc]
  exact (hrest more e he hmore).2 bound _ _ (by omega) (htrees.append hfound)

end Spells

end Names

section Reading

variable {c : Cursor} {rule : Rules} {n : Nat} {after ts : List Token}

/-- Tokens with which names go on. -/
def nameMarks : List TokenKind := [Symbol.dot, Symbol.lt]

/-- What reading a part of a phrase gives. The marks for the lists around it are left; if there
are none, the token after the part must not go on with it. -/
def TypePart.Reads (k : Nat) (us : List Token) (nodes : List Node) : TypePart → Prop
  | .type => ∀ ⦃fuel n : Nat⦄ ⦃after ts : List Token⦄ ⦃c : Cursor⦄, us.length ≤ fuel →
      (n = 0 → Next (· ∉ typeMarks) after) → Pending (k + n) after ts → c.rest = us ++ ts →
        Lands c (Pending n after) (fun node => Likes nodes [node]) (Grammar.type (parse fuel))
  | .names => ∀ ⦃fuel n : Nat⦄ ⦃after ts : List Token⦄ ⦃c : Cursor⦄, us.length ≤ fuel →
      (n = 0 → Next (· ∉ nameMarks) after) → Pending (k + n) after ts → c.rest = us ++ ts →
        Spells (parse fuel) nodes c (Pending n after)
  | .arguments => ∀ ⦃fuel n : Nat⦄ ⦃after ts : List Token⦄ ⦃c : Cursor⦄, us.length ≤ fuel →
      Pending (k + n) after ts → c.rest = us ++ ts →
        Lands c (Pending n after) (Likes [bare .typeArguments nodes])
          (optional (check Symbol.lt) (typeArguments (parse fuel)))
  | .list => ∀ ⦃fuel n : Nat⦄ ⦃after ts : List Token⦄, us.length < fuel →
      Pending (k + (n + 1)) after ts →
        Series Symbol.comma (typeArgument (parse fuel)) (Pending (n + 1) after) (us ++ ts) nodes
  | .argument => ∀ ⦃fuel n : Nat⦄ ⦃after ts : List Token⦄ ⦃c : Cursor⦄, us.length < fuel →
      (n = 0 → Next (· = Symbol.comma) after) → Pending (k + n) after ts → c.rest = us ++ ts →
        Lands c (Pending n after) (fun node => Likes nodes [node]) (typeArgument (parse fuel))

/-- Type arguments from their angle bracket on. -/
theorem optionalArguments_land {opening : Token.Among [Symbol.lt]} {us : List Token}
    {given : List Node} {mid : List Token → Prop} (hc : c.rest = opening.1 :: us)
    (h : ∀ start, Lands (c.past [opening.1] us) mid (Like (bare .typeArguments given))
      (skipGreater >>= fun empty => if empty = true then finish .typeArguments start [] else
        commaList (typeArgument rule) >>= fun items => closeAngle >>= fun _ =>
          finish .typeArguments start items)) :
    Lands c mid (Likes [bare .typeArguments given])
      (optional (check Symbol.lt) (typeArguments rule)) := by
  have hopening : Next (· = Symbol.lt) c.rest := by
    rw [hc]
    exact opening.kind_eq
  have hwhole : Lands c mid (Like (bare .typeArguments given)) (typeArguments rule) :=
    .here fun start => .step (need_past hc opening.kind_eq) (h start)
  exact .optional_some (check_yes hopening) (.refl c) hwhole

theorem Node.Likes.like {tree n : Node} (h : Likes [tree] [n]) : Like tree n :=
  (List.cons.inj h).1

/-- A token that continues no name is no dot. -/
theorem ne_dot_of_unnamed {kind : TokenKind} (h : kind ∉ nameMarks) : kind ≠ Symbol.dot := by
  rintro rfl
  exact h (by decide)

/-- A pending closing token continues no name. -/
theorem Pending.unnamed (h : Pending n after ts) (hafter : n = 0 → Next (· ∉ nameMarks) after) :
    Next (· ∉ nameMarks) ts := by
  cases n with
  | zero =>
    rw [h.eq]
    exact hafter rfl
  | succ n => exact h.closing.imp ((by decide : ∀ k ∈ closingAngles, k ∉ nameMarks) _)

namespace TypePhrase

variable {part : TypePart} {k : Nat} {us : List Token} {nodes : List Node}

section Arguments

/-- A diamond is an empty list of arguments. -/
theorem reads_diamond (opening : Token.Among [Symbol.lt]) :
    TypePart.arguments.Reads 1 [opening.1] [] := by
  intro fuel n after ts c _ hts hc
  refine optionalArguments_land hc fun start => ?_
  refine (skipGreater_lands (n := n) (Nat.add_comm 1 n ▸ hts)).bind fun b d hd hb => ?_
  rw [hb, if_pos rfl]
  exact .finish likes_nil hd

/-- A list of arguments stands between angles. -/
theorem reads_listed {opening : Token.Among [Symbol.lt]} (h : TypePhrase .list k us nodes)
    (ih : TypePart.list.Reads k us nodes) :
    TypePart.arguments.Reads (k + 1) (opening.1 :: us) nodes := by
  intro fuel n after ts c hfuel hts hc
  have hcount : k + 1 + n = k + (n + 1) := by omega
  have hseries : Series Symbol.comma (typeArgument (parse fuel)) (Pending (n + 1) after) (us ++ ts)
      nodes := ih hfuel (hcount ▸ hts)
  refine optionalArguments_land hc fun start => ?_
  refine .glance (skipGreater_no ((h.next ts).imp ?_)) ?_
  · exact (by decide : ∀ k ∈ TypePart.list.fronts, k ≠ Symbol.gt ∧ remainder? k = none) _
  rw [if_neg Bool.false_ne_true]
  refine (hseries.commaList rfl).bind fun items d hd hitems => ?_
  exact (closeAngle_lands hd).bind fun _ d hd _ => .finish hitems hd

/-- The last argument ends the list. -/
theorem reads_last {tree : Node} (ih : TypePart.argument.Reads k us [tree]) :
    TypePart.list.Reads k us [tree] := by
  intro fuel n after ts hfuel hts
  have hafter : n + 1 = 0 → Next (· = Symbol.comma) after :=
    fun hn => absurd hn (Nat.succ_ne_zero n)
  refine .last (fun c hc => ?_) fun us hus => ?_
  · exact (ih hfuel hafter hts hc).imp (fun _ hus => hus) fun _ hnode => hnode.like
  · exact hus.closing.imp ((by decide : ∀ k ∈ closingAngles, k ≠ Symbol.comma) _)

/-- Behind an argument whose own lists are closed a comma leads to the others. -/
theorem reads_more {m : Nat} {vs ws : List Token} {tree : Node}
    {comma : Token.Among [Symbol.comma]} (hclosing : Closes m vs)
    (ih : TypePart.argument.Reads m us [tree]) (ih' : TypePart.list.Reads k ws nodes) :
    TypePart.list.Reads k (us ++ (vs ++ comma.1 :: ws)) (tree :: nodes) := by
  intro fuel n after ts hfuel hts
  simp only [List.append_assoc, List.cons_append, List.length_append, List.length_cons]
    at hfuel ⊢
  refine .more (fun c hc => ?_) comma.kind_eq ?_ (ih' (by omega) hts)
  · have hpending : Pending (m + 0) (comma.1 :: (ws ++ ts)) (vs ++ comma.1 :: (ws ++ ts)) :=
      ⟨vs, hclosing, rfl⟩
    have hlength : us.length < fuel := by omega
    have hcomma : 0 = 0 → Next (· = Symbol.comma) (comma.1 :: (ws ++ ts)) :=
      fun _ => comma.kind_eq
    have hland := ih hlength hcomma hpending hc
    exact hland.imp (fun us hus => hus.eq) fun _ hnode => hnode.like
  · simp only [List.length_append, List.length_cons]
    omega

/-- A type is an argument where no wildcard begins. -/
theorem reads_type {tree : Node} (h : TypePhrase .type k us [tree])
    (ih : TypePart.type.Reads k us [tree]) : TypePart.argument.Reads k us [tree] := by
  intro fuel n after ts c hfuel hafter hts hc
  obtain ⟨m, rfl⟩ : ∃ m, fuel = m + 1 := ⟨fuel - 1, by omega⟩
  have hquestion : Next (· ≠ Symbol.question) c.rest := by
    rw [hc]
    exact (h.next ts).imp ((by decide : ∀ k ∈ TypePart.type.fronts, k ≠ Symbol.question) _)
  refine .glance (check_no hquestion) ?_
  rw [if_neg Bool.false_ne_true]
  exact ih (by omega) (fun hn => (hafter hn).imp fun hk => by rw [hk]; decide) hts hc

/-- A wildcard without bound. -/
theorem reads_wildcard (question : Token.Among [Symbol.question]) :
    TypePart.argument.Reads 0 [question.1] [bare .wildcard []] := by
  intro fuel n after ts c _ hafter hts hc
  rw [Nat.zero_add] at hts
  have hbound : Next (· ∉ boundWords) ts := by
    cases n with
    | zero => exact hts.eq ▸ (hafter rfl).imp fun hk => by rw [hk]; decide
    | succ n => exact hts.closing.imp ((by decide : ∀ k ∈ closingAngles, k ∉ boundWords) _)
  have hnone : (checkAny boundWords).run (c.past [question.1] ts) =
      (false, c.past [question.1] ts) := checkAny_no hbound
  have hquestion : Next (· = Symbol.question) c.rest := by
    rw [hc]
    exact question.kind_eq
  refine .glance (check_yes hquestion) ?_
  rw [if_pos rfl]
  refine .here fun start => .step (need_past hc question.kind_eq) ?_
  refine .glance hnone ?_
  rw [if_neg Bool.false_ne_true]
  exact (Lands.finish likes_nil hts).imp (fun _ hus => hus) fun _ hnode => hnode.single

/-- A wildcard with a bound leaves open what its bound does. -/
theorem reads_bounded {tree : Node} {question : Token.Among [Symbol.question]}
    {direction : Token.Among boundWords} (ih : TypePart.type.Reads k us [tree]) :
    TypePart.argument.Reads k (question.1 :: direction.1 :: us)
      [bare .wildcard [Node.word direction.1, tree]] := by
  intro fuel n after ts c hfuel hafter hts hc
  simp only [List.length_cons] at hfuel
  obtain ⟨m, rfl⟩ : ∃ m, fuel = m + 1 := ⟨fuel - 1, by omega⟩
  have hquestion : Next (· = Symbol.question) c.rest := by
    rw [hc]
    exact question.kind_eq
  have hdirection : (checkAny boundWords).run (c.past [question.1] (direction.1 :: (us ++ ts))) =
      (true, c.past [question.1] (direction.1 :: (us ++ ts))) := checkAny_yes direction.2
  refine .glance (check_yes hquestion) ?_
  rw [if_pos rfl]
  refine .here fun start => .step (need_past hc question.kind_eq) ?_
  refine .glance hdirection ?_
  rw [if_pos rfl]
  refine .step (leaf_past rfl (ne_eof_of_mem direction.2 (by decide))) ?_
  have hbound : Lands (((c.past [question.1] (direction.1 :: (us ++ ts)))).past [direction.1]
      (us ++ ts)) (Pending n after) (fun node => Likes [tree] [node]) (parse (m + 1) .type) :=
    ih (by omega) (fun hn => (hafter hn).imp fun hk => by rw [hk]; decide) hts rfl
  refine hbound.bind fun node d hd hnode => ?_
  exact (Lands.finish (.cons rfl hnode) hd).imp (fun _ hus => hus) fun _ hnode => hnode.single

end Arguments

section Types

/-- A name without arguments ends the parts of a class type. -/
theorem reads_name (name : WrittenName) :
    TypePart.names.Reads 0 name.tokens [name.tree] := by
  intro fuel n after ts c _ hafter hts hc
  rw [Nat.zero_add] at hts
  have hnext := hts.unnamed hafter
  have hlt : Next (· ≠ Symbol.lt) ts := hnext.imp fun hk heq => hk (by rw [heq]; decide)
  refine .last ⟨Nat.le_refl 1, Nat.le_succ 1⟩ ?_
    fun us hus => (hus.unnamed hafter).imp ne_dot_of_unnamed
  refine (name.lands hc (hnext.imp ne_dot_of_unnamed)).bind fun node d hd hnode => ?_
  refine (Lands.optional_none_at (check_no (hd ▸ hlt)) hd).bind fun given d hd hgiven => ?_
  exact .pure (.cons hnode hgiven) (hd ▸ hts)

/-- A name with arguments ends the parts of a class type. -/
theorem reads_given {name : WrittenName} (h : TypePhrase .arguments k us nodes)
    (ih : TypePart.arguments.Reads k us nodes) :
    TypePart.names.Reads k (name.tokens ++ us) [name.tree, bare .typeArguments nodes] := by
  intro fuel n after ts c hfuel hafter hts hc
  rw [List.append_assoc] at hc
  rw [List.length_append] at hfuel
  have hdot : Next (· ≠ Symbol.dot) (us ++ ts) :=
    (h.next ts).imp ((by decide : ∀ k ∈ TypePart.arguments.fronts, k ≠ Symbol.dot) _)
  refine .last ⟨Nat.le_succ 1, Nat.le_refl 2⟩ ?_
    fun us hus => (hus.unnamed hafter).imp ne_dot_of_unnamed
  refine (name.lands hc hdot).bind fun node d hd hnode => ?_
  exact (ih (by omega) hts hd).bind fun given d hd hgiven => .pure (.cons hnode hgiven) hd

/-- An inner class stands behind the arguments of the outer one. -/
theorem reads_inner {m : Nat} {vs ws : List Token} {parts : List Node} {name : WrittenName}
    {dot : Token.Among [Symbol.dot]} (h : TypePhrase .arguments m us nodes)
    (hclosing : Closes m vs) (hinner : TypePhrase .names k ws parts)
    (ih : TypePart.arguments.Reads m us nodes) (ih' : TypePart.names.Reads k ws parts) :
    TypePart.names.Reads k (name.tokens ++ (us ++ (vs ++ dot.1 :: ws)))
      (name.tree :: bare .typeArguments nodes :: parts) := by
  intro fuel n after ts c hfuel hafter hts hc
  simp only [List.append_assoc, List.cons_append, List.length_append, List.length_cons]
    at hc hfuel
  obtain ⟨u, ws, rfl, hu⟩ := hinner.front
  have hdot : Next (· ≠ Symbol.dot) (us ++ (vs ++ dot.1 :: (u :: ws ++ ts))) :=
    (h.next _).imp ((by decide : ∀ k ∈ TypePart.arguments.fronts, k ≠ Symbol.dot) _)
  have hpart : Lands c (· = dot.1 :: u :: (ws ++ ts))
      (Likes [name.tree, bare .typeArguments nodes]) (classPart (parse fuel)) := by
    refine (name.lands hc hdot).bind fun node d hd hnode => ?_
    have hpending : Pending (m + 0) (dot.1 :: (u :: ws ++ ts)) (vs ++ dot.1 :: (u :: ws ++ ts)) :=
      ⟨vs, hclosing, rfl⟩
    exact (ih (by omega) hpending hd).bind fun given d hd hgiven =>
      .pure (.cons hnode hgiven) hd.eq
  refine .more hpart rfl dot.kind_eq (List.mem_singleton.1 hu) ?_ fun d hd =>
    ih' (by omega) hafter hts hd
  have hlength := hinner.length_names
  simp only [List.length_cons, List.length_append] at hlength ⊢
  omega

/-- A word that is a type by itself, with its brackets. -/
theorem reads_word (word : Token.Among wordTypes) (brackets : List BracketPair) :
    TypePart.type.Reads 0 (word.1 :: bracketTokens brackets)
      [inBrackets brackets.length (bare .type [Node.word word.1])] := by
  intro fuel n after ts c _ hafter hts hc
  rw [Nat.zero_add] at hts
  have hnext : Next (· ≠ Symbol.lbracket) ts := (hts.unmarked hafter).imp ne_lbracket_of_unmarked
  refine type_word (fun _ hk => hk) hc fun node d hd hnode => ?_
  exact (arrayBrackets_land brackets hnode hd hnext hts).imp (fun _ hus => hus)
    fun _ hnode => hnode.single

/-- A class type without brackets. -/
theorem reads_named (h : TypePhrase .names k us nodes) (ih : TypePart.names.Reads k us nodes) :
    TypePart.type.Reads k us [bare .type nodes] := by
  intro fuel n after ts c hfuel hafter hts hc
  have hfront : Next (· = .identifier) c.rest := by
    rw [hc]
    exact (h.next ts).imp List.mem_singleton.1
  have hnames := ih hfuel (fun hn => (hafter hn).imp fun hk heq =>
    hk ((by decide : nameMarks ⊆ typeMarks) heq)) hts hc
  refine type_of_names hfront hnames.loop fun node d hd hnode => ?_
  exact (arrayBrackets_land [] hnode rfl ((hd.unmarked hafter).imp ne_lbracket_of_unmarked)
    hd).imp (fun _ hus => hus) fun _ hnode => hnode.single

/-- A class type with brackets closes its own lists first. -/
theorem reads_array {vs : List Token} {first : BracketPair} {brackets : List BracketPair}
    (h : TypePhrase .names k us nodes) (hclosing : Closes k vs)
    (ih : TypePart.names.Reads k us nodes) :
    TypePart.type.Reads 0 (us ++ (vs ++ bracketTokens (first :: brackets)))
      [inBrackets (brackets.length + 1) (bare .type nodes)] := by
  intro fuel n after ts c hfuel hafter hts hc
  rw [Nat.zero_add] at hts
  simp only [List.append_assoc, List.length_append] at hc hfuel
  have hfront : Next (· = .identifier) c.rest := by
    rw [hc]
    exact (h.next _).imp List.mem_singleton.1
  have hnext := hts.unmarked hafter
  have hbracket : Next (· ∉ nameMarks) (bracketTokens (first :: brackets) ++ ts) := by
    change first.opening.1.kind ∉ _
    rw [first.opening.kind_eq]
    decide
  have hpending : Pending (k + 0) (bracketTokens (first :: brackets) ++ ts)
      (vs ++ (bracketTokens (first :: brackets) ++ ts)) := ⟨vs, hclosing, rfl⟩
  have hlength : us.length ≤ fuel := by omega
  have hnames := ih hlength (fun _ => hbracket) hpending hc
  refine type_of_names hfront hnames.loop fun node d hd hnode => ?_
  exact (arrayBrackets_land (first :: brackets) hnode hd.eq
    (hnext.imp ne_lbracket_of_unmarked) hts).imp (fun _ hus => hus) fun _ hnode => hnode.single

end Types

/-- Every part of a phrase is read as its trees. -/
theorem reads (h : TypePhrase part k us nodes) : part.Reads k us nodes := by
  induction h with
  | word word brackets => exact reads_word word brackets
  | named h ih => exact reads_named h ih
  | array h hclosing _ _ ih => exact reads_array h hclosing ih
  | name name => exact reads_name name
  | given _ h ih => exact reads_given h ih
  | inner _ h hclosing _ hinner ih ih' => exact reads_inner h hclosing hinner ih ih'
  | diamond opening => exact reads_diamond opening
  | listed _ h ih => exact reads_listed h ih
  | last _ ih => exact reads_last ih
  | more _ hclosing _ _ ih ih' => exact reads_more hclosing ih ih'
  | type h ih => exact reads_type h ih
  | wildcard question => exact reads_wildcard question
  | bounded _ _ _ ih => exact reads_bounded ih

/-- A type is read with the marks that close its lists, in front of a token that does not go on
with it. -/
theorem lands {vs rest : List Token} {tree : Node} {fuel : Nat}
    (h : TypePhrase .type k us [tree]) (hclosing : Closes k vs) (hfuel : us.length ≤ fuel)
    (hrest : Next (· ∉ typeMarks) rest) (hc : c.rest = us ++ (vs ++ rest)) :
    Lands c (· = rest) (Like tree) (Grammar.type (parse fuel)) :=
  (h.reads (n := 0) hfuel (fun _ => hrest) ⟨vs, hclosing, rfl⟩ hc).imp (fun _ hus => hus.eq)
    fun _ hnode => hnode.like

end TypePhrase

end Reading

end JavaObjC
