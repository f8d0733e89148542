import JavaObjC.Proofs.Reading.Units
import JavaObjC.Proofs.Trees.Forms
import Mathlib.Data.List.TakeWhile

/-!
# What parsers build

The judgement that says what a parser builds. It concerns runs that find no
token missing: a run that does has a listed problem in any case. Each rule for
a combinator says what the run leaves at the cursor and what is known of the
result, given what is known of the parts that were built before.
-/

namespace JavaObjC

open Cursor

namespace TokenKind

/-- Whether tokens of the kind are spelled like words. -/
def isWord : TokenKind → Bool
  | .identifier | .keyword _ => true
  | _ => false

/-- Names are words. -/
theorem isWord_of_isName {kind : TokenKind} (h : kind.isName = true) : kind.isWord = true := by
  unfold isName at h
  split at h <;> simp_all [isWord]

/-- Primitive types are words. -/
theorem isWord_of_isPrimitive {kind : TokenKind} (h : kind.isPrimitive = true) :
    kind.isWord = true := by
  unfold isPrimitive at h
  split at h <;> simp_all [isWord]

end TokenKind

namespace Token

/-- A token that has a word's spelling if it has a word's kind. -/
def Worded (t : Token) : Prop := t.kind.isWord = true → t.IsWord

/-- What is left of a compound token is no word. -/
theorem Splits.worded {t u : Token} (h : Splits t u) : u.Worded := by
  obtain ⟨kind, hkind, rfl⟩ := h
  obtain ⟨mark, hmark⟩ := exists_mark_of_remainder hkind
  obtain ⟨rest, rfl, -, -⟩ := remainder_spelling (hmark ▸ hkind)
  exact fun hword => by cases hword

/-- What is left of a token that is split is no word and needs no text. -/
theorem Trims.worded {t u : Token} (h : Trims t u) (ht : t.Worded) : u.Worded := by
  induction h with
  | refl => exact ht
  | tail _ hlast _ => exact hlast.worded

end Token

namespace Lexeme

/-- A token that is a keyword or an identifier has letters and digits and nothing else. -/
theorem next_word {b : UInt8} {front after : Text}
    (hword : (next b (front ++ after)).1.isWord = true) (hafter : (next b (front ++ after)).2 = after) :
    ∀ c ∈ b :: front, isLetterOrDigit c = true := by
  have hletters : isLetter b = true ∧ after = (front ++ after).dropWhile isLetterOrDigit := by
    revert hword hafter
    have hquoted : ∀ {kind : TokenKind} {quote : UInt8} {t : Text}, kind.isWord = false →
        (quoted kind quote t).1.isWord = false := by
      intro kind quote t hkind
      unfold quoted
      split
      · split
        · exact hkind
        · rfl
      · rfl
    fun_cases next b (front ++ after) with
    | case5 t _ _ _ hletter => exact fun _ hafter => ⟨hletter, hafter.symm⟩
    | case6 t _ _ _ _ hguard floating =>
      intro hword
      cases floating <;> cases hword
    | case7 =>
      intro hword
      rw [hquoted rfl] at hword
      cases hword
    | case10 =>
      intro hword
      rw [hquoted rfl] at hword
      cases hword
    | _ =>
      intro hword
      cases hword
  obtain ⟨hfirst, hrest⟩ := hletters
  have hsplit : (front ++ after).takeWhile isLetterOrDigit ++ after = front ++ after := by
    conv_rhs => rw [← List.takeWhile_append_dropWhile (p := isLetterOrDigit) (l := front ++ after)]
    rw [← hrest]
  have hfront : front = (front ++ after).takeWhile isLetterOrDigit :=
    (List.append_cancel_right hsplit).symm
  intro c hc
  rcases List.mem_cons.1 hc with rfl | hc
  · simp [isLetterOrDigit, hfirst]
  · rw [hfront] at hc
    exact List.mem_takeWhile_imp hc

/-- The words of a source are spelled like words. -/
theorem tokensFrom_worded (fuel : Nat) (p : Position) (t : Text) :
    ∀ u ∈ tokensFrom fuel p t, u.Worded := by
  induction fuel generalizing p t with
  | zero => simp [tokensFrom, Token.Worded, TokenKind.isWord]
  | succ fuel ih =>
    cases t with
    | nil => simp [tokensFrom, Token.Worded, TokenKind.isWord]
    | cons b rest =>
      obtain ⟨front, hfront⟩ := next_suffix b rest
      have hword := @next_word b front (next b rest).2
      rw [hfront] at hword
      simp only [tokensFrom]
      refine List.forall_mem_cons.2 ⟨fun hkind => ?_, ih _ _⟩
      have htake := take_length_sub b front (next b rest).2
      rw [hfront] at htake
      rw [Token.IsWord]
      dsimp only
      rw [htake]
      exact ⟨List.cons_ne_nil _ _, hword hkind rfl⟩

end Lexeme

namespace Cursor

/-- A cursor where the parse of a source can be, with words spelled like words. -/
structure Ready (c : Cursor) : Prop where
  sound : c.Sound
  worded : ∀ t ∈ c.tokens, t.Worded

variable {c c' : Cursor}

/-- The cursor at the beginning of a source is ready, for the lexer gives words their texts. -/
theorem ready_ofTokens (source : Text) : (ofTokens (Lexeme.tokens source)).Ready := by
  refine ⟨sound_ofTokens source, fun t ht => ?_⟩
  have ht : t ∈ Lexeme.tokens source := by
    simp only [tokens, ofTokens, List.reverse_nil, List.nil_append] at ht
    exact List.mem_of_mem_filter ht
  exact Lexeme.tokensFrom_worded _ _ source t ht

/-- Reading keeps the words of a source. -/
theorem Ready.of_reads (hc : c.Ready) (h : c.Reads c') (hsound : c'.Sound) : c'.Ready := by
  refine ⟨hsound, fun t ht => ?_⟩
  obtain ⟨taken, hconsumed, hrest⟩ := h.moves
  rw [tokens, hconsumed, List.reverse_append, List.reverse_reverse, List.append_assoc,
    List.mem_append] at ht
  rcases ht with ht | ht
  · exact hc.worded t (List.mem_append_left _ ht)
  · clear hconsumed
    have hfrom : ∀ {l m : List Token}, List.Forall₂ Token.Trims l m → (∀ u ∈ l, u.Worded) →
        ∀ u ∈ m, u.Worded := by
      intro l m hlm hl
      induction hlm with
      | nil => simp
      | cons hfirst _ ih =>
        rw [List.forall_mem_cons] at hl ⊢
        exact ⟨hfirst.worded hl.1, ih hl.2⟩
    exact hfrom hrest (fun u hu => hc.worded u (List.mem_append_right _ hu)) t ht

/-- The next token is a word if it has a word's kind. -/
theorem Ready.word (hc : c.Ready) (hkind : (c.tokenAt 0).kind.isWord = true) :
    (c.tokenAt 0).IsWord := by
  cases hrest : c.rest with
  | nil => simp [tokenAt, hrest, TokenKind.isWord] at hkind
  | cons t rest =>
    have htoken := tokenAt_zero_cons hrest
    rw [htoken] at hkind ⊢
    exact hc.worded t (by simp [tokens, hrest]) hkind

/-- A ready cursor is ready behind a token of the file. -/
theorem Ready.step (hc : c.Ready) (hk : (c.tokenAt 0).kind ≠ .eof) : c.step.Ready :=
  hc.of_reads (step_reads c) (Similar.step hc.sound hk)

end Cursor

/-- What a run of a parser builds, provided it finds no token missing and `H` holds of what is
already built. -/
structure Gives {α : Type} (H : Prop) (Q : α → Prop) (p : Parser α) (c : Cursor) : Prop where
  sound : (p.run c).2.Sound
  reads : c.Reads (p.run c).2
  result : (p.run c).2.missing = [] → H → Q (p.run c).1

/-- What a parser builds wherever it starts. -/
def Yields {α : Type} (Q : α → Prop) (p : Parser α) : Prop :=
  ∀ c : Cursor, c.Ready → Gives True Q p c

namespace Gives

variable {α β : Type} {H H' P : Prop} {Q R : α → Prop} {S : β → Prop} {c : Cursor}

/-- A parser that gives what it should leaves the cursor ready. -/
theorem ready {p : Parser α} (h : Gives H Q p c) (hc : c.Ready) : (p.run c).2.Ready :=
  hc.of_reads h.reads h.sound

/-- What is known of the result follows from what is already built and what the run says. -/
theorem weaken {p : Parser α} (h : Gives H Q p c) (hH : H' → H) (hQ : ∀ a, H' → Q a → R a) :
    Gives H' R p c :=
  ⟨h.sound, h.reads, fun hmissing hH' => hQ _ hH' (h.result hmissing (hH hH'))⟩

/-- A run about which nothing is said but where it ends. -/
theorem of_parallel {p : Parser α} {A : Aspect α}
    (h : Parallel Pairing.same false A P p p c c) : Gives H (fun _ => True) p c :=
  ⟨h.similar, h.reads, fun _ _ => trivial⟩

/-- One parser after the other, the second one where the first one ended. -/
theorem bind_run {p : Parser α} {f : α → Parser β} (hc : c.Ready) (hp : Gives True Q p c)
    (hf : ∀ a c', p.run c = (a, c') → c'.Ready → Gives (H ∧ Q a) S (f a) c') :
    Gives H S (p >>= f) c := by
  have hrest := hf (p.run c).1 (p.run c).2 rfl (hp.ready hc)
  refine ⟨hrest.sound, hp.reads.trans hrest.reads, fun hmissing hH => ?_⟩
  have hfirst : (p.run c).2.missing = [] := by
    have hsuffix := hrest.reads.missing
    change _ <:+ (((f (p.run c).1).run (p.run c).2).2).missing at hsuffix
    rw [show ((f (p.run c).1).run (p.run c).2).2.missing = [] from hmissing] at hsuffix
    exact List.suffix_nil.1 hsuffix
  exact hrest.result hmissing ⟨hH, hp.result hfirst trivial⟩

/-- One parser after the other. -/
theorem bind {p : Parser α} {f : α → Parser β} (hc : c.Ready) (hp : Gives True Q p c)
    (hf : ∀ a c', c'.Ready → Gives (H ∧ Q a) S (f a) c') : Gives H S (p >>= f) c :=
  bind_run hc hp fun a c' _ hc' => hf a c' hc'

/-- What is already built can be made part of what is known of the result. -/
theorem given {p : Parser α} (h : Gives H Q p c) : Gives True (fun a => H → Q a) p c :=
  ⟨h.sound, h.reads, fun hmissing _ => h.result hmissing⟩

/-- One parser after the other, when the first one depends on what is already built. -/
theorem bind_given {p : Parser α} {f : α → Parser β} (hc : c.Ready) (hp : Gives H Q p c)
    (hf : ∀ a c', c'.Ready → Gives (H ∧ Q a) S (f a) c') : Gives H S (p >>= f) c :=
  bind hc hp.given fun a c' hc' =>
    (hf a c' hc').weaken (fun h => ⟨h.1, h.2 h.1⟩) fun _ _ h => h

/-- A result without reading. -/
theorem pure {a : α} (hc : c.Ready) (h : H → Q a) : Gives H Q (Pure.pure a) c :=
  ⟨hc.sound, .refl c, fun _ => h⟩

/-- Parsers that run the same way. -/
theorem of_run {p p' : Parser α} (hp : p.run c = p'.run c) (h : Gives H Q p' c) : Gives H Q p c :=
  ⟨by rw [hp]; exact h.sound, by rw [hp]; exact h.reads, by rw [hp]; exact h.result⟩

/-- A parser that only looks at the cursor. -/
theorem glance {p : Parser α} {f : α → Parser β} {a : α} (hp : p.run c = (a, c))
    (h : Gives H S (f a) c) : Gives H S (p >>= f) c := by
  refine of_run ?_ h
  change (f (p.run c).1).run (p.run c).2 = _
  rw [hp]

/-- A case distinction. -/
theorem ite {x y : Parser α} {b : Bool} (yes : b = true → Gives H Q x c)
    (no : b = false → Gives H Q y c) : Gives H Q (if b = true then x else y) c := by
  cases b with
  | true => exact yes rfl
  | false => exact no rfl

section Looking

variable {x y : Parser β}

/-- The place where a node begins does not matter to its shape. -/
theorem here_bind {f : Position → Parser β} (h : ∀ start, Gives H S (f start) c) :
    Gives H S (Parser.here >>= f) c := glance rfl (h _)

/-- What follows a look at a token may use the kind that is there. -/
theorem kindAt_bind {n : Nat} {f : TokenKind → Parser β} (h : Gives H S (f (c.tokenAt n).kind) c) :
    Gives H S (Parser.kindAt n >>= f) c := glance rfl h

/-- What follows a look for a name may use whether there is one. -/
theorem checkName_bind {f : Bool → Parser β} (h : Gives H S (f (c.tokenAt 0).kind.isName) c) :
    Gives H S (Parser.checkName >>= f) c := glance rfl h

/-- A choice by the next token may use what the token is. -/
theorem ifCheck {kind : TokenKind} (yes : (c.tokenAt 0).kind = kind → Gives H S x c)
    (no : Gives H S y c) :
    Gives H S (Parser.check kind >>= fun b => if b = true then x else y) c :=
  glance rfl (.ite (fun h => yes (by simpa using h)) fun _ => no)

/-- A choice by the next two tokens may use what they are. -/
theorem ifCheck2 {first second : TokenKind}
    (yes : (c.tokenAt 0).kind = first → (c.tokenAt 1).kind = second → Gives H S x c)
    (no : Gives H S y c) :
    Gives H S (Parser.check2 first second >>= fun b => if b = true then x else y) c := by
  refine glance rfl (.ite (fun h => ?_) fun _ => no)
  have hkinds : (c.tokenAt 0).kind = first ∧ (c.tokenAt 1).kind = second := by simpa using h
  exact yes hkinds.1 hkinds.2

/-- A choice by the next token may use that it is one of some kinds. -/
theorem ifCheckAny {kinds : List TokenKind} (yes : (c.tokenAt 0).kind ∈ kinds → Gives H S x c)
    (no : Gives H S y c) :
    Gives H S (Parser.checkAny kinds >>= fun b => if b = true then x else y) c :=
  glance rfl (.ite (fun h => yes (by simpa using h)) fun _ => no)

/-- A choice by a name may use that there is one. -/
theorem ifCheckName (yes : (c.tokenAt 0).kind.isName = true → Gives H S x c)
    (no : Gives H S y c) :
    Gives H S (Parser.checkName >>= fun b => if b = true then x else y) c :=
  glance rfl (.ite yes fun _ => no)

end Looking

section Taking

/-- What follows a token that is taken starts behind it. -/
theorem advance_bind {f : Token → Parser β} (h : Gives H S (f (c.tokenAt 0)) c.step) :
    Gives H S (Parser.advance >>= f) c :=
  ⟨h.sound, (step_reads c).trans h.reads, h.result⟩

/-- Taking two tokens and going on after them. -/
theorem two_bind {x : Parser β} (hc : c.Ready) (h₀ : (c.tokenAt 0).kind ≠ .eof)
    (h₁ : (c.tokenAt 1).kind ≠ .eof) (h : ∀ c' : Cursor, c'.Ready → Gives H S x c') :
    Gives H S (Parser.advance >>= fun _ => Parser.advance >>= fun _ => x) c :=
  advance_bind (advance_bind (h _ ((hc.step h₀).step (by rw [tokenAt_step]; exact h₁))))

/-- A token that is taken as a leaf. -/
theorem leaf {kind : NodeKind} {S : Node → Prop} (hc : c.Ready) (hk : (c.tokenAt 0).kind ≠ .eof)
    (h : H → S (Node.ofToken kind (c.tokenAt 0))) : Gives H S (Parser.leaf kind) c :=
  advance_bind (.pure (hc.step hk) h)

/-- Any token as an identifier leaf. -/
theorem mark (hc : c.Ready) (hk : (c.tokenAt 0).kind ≠ .eof) :
    Gives H (Derives .mark) (Parser.leaf .identifier) c := by
  refine leaf hc hk fun _ => ?_
  exact .node (f := { kind := .identifier, token := .present }) List.mem_cons_self rfl .nil

/-- A word as an identifier leaf. -/
theorem word (hc : c.Ready) (hk : (c.tokenAt 0).kind.isWord = true) :
    Gives H (Derives .word) (Parser.leaf .identifier) c := by
  refine leaf hc (fun heof => by rw [heof] at hk; cases hk) fun _ => ?_
  exact .node (f := { kind := .identifier, token := .word }) List.mem_cons_self
    ⟨_, rfl, hc.word hk⟩ .nil

/-- A case distinction by whether a token could be taken. -/
theorem ifSkip {kind : TokenKind} [kind.Inner] {x y : Parser β} (hc : c.Ready)
    (yes : ∀ c' : Cursor, c'.Ready → Gives H S x c') (no : Gives H S y c) :
    Gives H S (Parser.skip kind >>= fun b => if b = true then x else y) c := by
  have hrun : (Parser.skip kind >>= fun b => if b = true then x else y).run c =
      (if (c.tokenAt 0).kind = kind then x.run c.step else y.run c) := by
    rw [StateT.run_bind, Parser.skip_run]
    split <;> rfl
  by_cases hkind : (c.tokenAt 0).kind = kind
  · rw [if_pos hkind] at hrun
    have hyes := yes c.step (hc.step (by rw [hkind]; exact TokenKind.Inner.ne_eof))
    refine ⟨?_, ?_, ?_⟩
    · rw [hrun]
      exact hyes.sound
    · rw [hrun]
      exact (step_reads c).trans hyes.reads
    · rw [hrun]
      exact hyes.result
  · rw [if_neg hkind] at hrun
    exact of_run hrun no

/-- Skipping a token leaves the cursor ready. -/
theorem skip {kind : TokenKind} [kind.Inner] (hc : c.Ready) :
    Gives H (fun _ => True) (Parser.skip kind) c := of_parallel (.skip hc.sound)

/-- A missing token is on record afterwards. -/
theorem expected (kinds : List TokenKind) {Q : Unit → Prop} (hc : c.Ready) :
    Gives H Q (Parser.expected kinds) c := by
  have hrun := of_parallel (H := True) (.expected (P := True) kinds hc.sound)
  refine ⟨hrun.sound, hrun.reads, fun hmissing => ?_⟩
  change (if c.isReported then c.missing else _) = [] at hmissing
  split at hmissing
  · rename_i hreported
    simp [isReported, hmissing] at hreported
  · cases hmissing

/-- A tree in place of an optional one. -/
theorem some_of {p : Parser Node} {k : Category} (hc : c.Ready) (h : Gives H (Derives k) p c) :
    Gives H (fun o => ∀ n ∈ o, Derives k n) (p >>= fun n => Pure.pure (some n)) c := by
  refine bind_given hc h fun n c' hc' => .pure hc' fun hn => ?_
  rintro _ ⟨⟩
  exact hn.2

/-- Going on after a missing token was put on record: whatever is built is not listed. -/
theorem expected_bind (kinds : List TokenKind) {f : Unit → Parser β} (hc : c.Ready)
    (h : ∀ c' : Cursor, c'.Ready → Gives (H ∧ False) S (f ()) c') :
    Gives H S (Parser.expected kinds >>= f) c :=
  bind hc (expected kinds hc (Q := fun _ => False)) fun _ c' hc' => h c' hc'

/-- Taking a token that has to be there. -/
theorem expect {kind : TokenKind} [kind.Inner] (hc : c.Ready) :
    Gives H (fun t => t.isSome) (Parser.expect kind) c := by
  refine ((bind hc (of_parallel (.accept hc.sound)) fun t c' hc' => ?_) :
    Gives H _ (Parser.accept kind >>= _) c)
  cases t with
  | some t => exact .pure hc' fun _ => rfl
  | none => exact expected_bind _ hc' fun c'' hc'' => .pure hc'' fun h => h.2.elim

/-- Going on after a token that has to be there. -/
theorem need_bind {kind : TokenKind} [kind.Inner] {f : Unit → Parser β} (hc : c.Ready)
    (h : ∀ c' : Cursor, c'.Ready → Gives H S (f ()) c') :
    Gives H S (Parser.need kind >>= f) c :=
  bind hc (of_parallel (.need hc.sound)) fun _ c' hc' =>
    (h c' hc').weaken And.left fun _ _ h => h

/-- Taking a name, which has to be there. -/
theorem name (hc : c.Ready) :
    Gives H (fun l => ∃ n, l = [n] ∧ Derives .word n) Parser.name c := by
  refine ifCheckName (fun hname => ?_) ?_
  · refine bind hc (word hc (TokenKind.isWord_of_isName hname)) fun n c' hc' => ?_
    exact .pure hc' fun h => ⟨n, rfl, h.2⟩
  · exact expected_bind _ hc fun c' hc' => .pure hc' fun h => h.2.elim

/-- Going on after a name that has to be there. -/
theorem name_bind {f : List Node → Parser β} (hc : c.Ready)
    (h : ∀ l c', Cursor.Ready c' → Gives (H ∧ ∃ n, l = [n] ∧ Derives .word n) S (f l) c') :
    Gives H S (Parser.name >>= f) c := bind hc (name hc) h

/-- A phrase that cannot be read is of every category. -/
theorem problem (message : String) (recovery kinds : List TokenKind) {k : Category}
    (hc : c.Ready) : Gives H (Derives k) (Parser.problem message recovery kinds) c := by
  have hrun := of_parallel (H := True)
    (.problem (P := True) message recovery kinds hc.sound)
  exact ⟨hrun.sound, hrun.reads, fun _ _ => .faulty (Node.not_clean_ofProblem _)⟩

end Taking

section Ending

variable {S : Node → Prop}

/-- A node that is finished has the shape its children give it, whatever its span. -/
theorem finishWith {kind : NodeKind} {token : Option Token} {start : Position}
    {children : List Node} (hc : c.Ready)
    (h : ∀ span, H → S ⟨kind, span, token, none, children⟩) :
    Gives H S (Parser.finishWith kind token start children) c :=
  ⟨hc.sound, .refl c, fun _ => h _⟩

/-- An inner node that is finished has the shape its children give it. -/
theorem finish {kind : NodeKind} {start : Position} {children : List Node} (hc : c.Ready)
    (h : ∀ span, H → S ⟨kind, span, none, none, children⟩) :
    Gives H S (Parser.finish kind start children) c := finishWith hc h

/-- A node that was read before, ended at the last token taken. -/
theorem extend {n : Node} (hc : c.Ready) (h : ∀ span, H → S { n with span }) :
    Gives H S (Parser.extend n) c := ⟨hc.sound, .refl c, fun _ => h _⟩

/-- A node of one of the forms of a category. -/
theorem form {k : Category} {kind : NodeKind} {start : Position} {children : List Node}
    (items : List Item) (hc : c.Ready) (hform : ⟨kind, items, .absent⟩ ∈ k.forms)
    (h : H → Matches items children) : Gives H (Derives k) (Parser.finish kind start children) c :=
  finish hc fun _ hH => .node hform rfl (h hH)

end Ending

section Looping

variable {step : α → Parser (Option α)}

/-- What a loop gives when it is stopped by its bound. -/
theorem stopped {a : α} (hc : c.Ready) (h : H → Q a) :
    Gives H Q (Parser.misstep >>= fun _ => Pure.pure a) c :=
  bind hc (of_parallel (.misstep hc.sound)) fun _ _ hc' => .pure hc' fun hH => h hH.1

/-- A loop keeps what every step keeps. -/
theorem iterate (hstep : ∀ a (c : Cursor), c.Ready → Gives (Q a) (fun o => ∀ b ∈ o, Q b) (step a) c)
    (bound : Nat) {a : α} (hc : c.Ready) : Gives (Q a) Q (Parser.iterate step bound a) c := by
  induction bound generalizing a c with
  | zero => exact stopped hc id
  | succ bound ih =>
    refine ((bind_given hc (hstep a c hc) fun o c' hc' => ?_) : Gives _ _ (step a >>= _) c)
    cases o with
    | none => exact .pure hc' And.left
    | some b => exact (ih hc').weaken (fun h => h.2 b rfl) fun _ _ h => h

/-- A loop whose steps keep a property of the value gives a value with it. -/
theorem loop (hstep : ∀ a (c : Cursor), c.Ready → Gives (Q a) (fun o => ∀ b ∈ o, Q b) (step a) c)
    {a : α} (hc : c.Ready) : Gives (Q a) Q (Parser.loop step a) c :=
  glance rfl (iterate hstep _ hc)

/-- A loop from a value of which something is known. -/
theorem loop_bind {f : α → Parser β} {a : α}
    (hstep : ∀ a (c : Cursor), c.Ready → Gives (Q a) (fun o => ∀ b ∈ o, Q b) (step a) c)
    (hc : c.Ready) (h : ∀ b c', Cursor.Ready c' → Gives (H ∧ (Q a → Q b)) S (f b) c') :
    Gives H S (Parser.loop step a >>= f) c :=
  bind hc (loop hstep hc).given h

variable {test : Parser Bool} {item : Parser Node} {k : Category}

/-- Items of a category, each read where a test has succeeded. -/
theorem manyUpTo (htest : Yields (fun _ => True) test)
    (hitem : ∀ c₀ c, test.run c₀ = (true, c) → c.Ready → Gives True (Derives k) item c)
    (bound : Nat) (hc : c.Ready) : Gives H (DerivesAll k) (Parser.manyUpTo test item bound) c := by
  induction bound generalizing c H with
  | zero => exact stopped hc fun _ => .nil
  | succ bound ih =>
    refine bind_run hc (htest c hc) fun b c₁ hrun hc₁ => ?_
    refine .ite (fun hb => ?_) fun _ => .pure hc₁ fun _ => .nil
    refine bind hc₁ (hitem c c₁ (hb ▸ hrun) hc₁) fun first c₂ hc₂ => ?_
    refine bind hc₂ (ih hc₂) fun more c₃ hc₃ => ?_
    exact .pure hc₃ fun h => DerivesAll.cons_iff.2 ⟨h.1.2, h.2⟩

/-- A repetition gives trees of the category when its item does. -/
theorem many (htest : Yields (fun _ => True) test)
    (hitem : ∀ c₀ c, test.run c₀ = (true, c) → c.Ready → Gives True (Derives k) item c)
    (hc : c.Ready) : Gives H (DerivesAll k) (Parser.many test item) c :=
  glance rfl (manyUpTo htest hitem _ hc)

/-- At most one item of a category, read where a test has succeeded. -/
theorem optional (htest : Yields (fun _ => True) test)
    (hitem : ∀ c₀ c, test.run c₀ = (true, c) → c.Ready → Gives True (Derives k) item c)
    (hc : c.Ready) :
    Gives H (fun l => DerivesAll k l ∧ l.length ≤ 1) (Parser.optional test item) c := by
  refine bind_run hc (htest c hc) fun b c₁ hrun hc₁ => ?_
  refine .ite (fun hb => ?_) fun _ => .pure hc₁ fun _ => ⟨.nil, Nat.zero_le _⟩
  refine bind hc₁ (hitem c c₁ (hb ▸ hrun) hc₁) fun n c₂ hc₂ => ?_
  exact .pure hc₂ fun h => ⟨DerivesAll.cons_iff.2 ⟨h.2, .nil⟩, Nat.le_refl _⟩

/-- Going on after at most one item. -/
theorem optional_bind {f : List Node → Parser β} (htest : Yields (fun _ => True) test)
    (hitem : ∀ c₀ c, test.run c₀ = (true, c) → c.Ready → Gives True (Derives k) item c)
    (hc : c.Ready) (h : ∀ l c', Cursor.Ready c' →
      Gives (H ∧ DerivesAll k l ∧ l.length ≤ 1) S (f l) c') :
    Gives H S (Parser.optional test item >>= f) c := bind hc (optional htest hitem hc) h

end Looping

end Gives

namespace Yields

variable {test : Parser Bool} {item : Parser Node} {k : Category}

/-- Looking at a token gives no tree. -/
theorem check (kind : TokenKind) : Yields (fun _ => True) (Parser.check kind) :=
  fun _ hc => ⟨hc.sound, .refl _, fun _ _ => trivial⟩

/-- Looking away from a token gives no tree. -/
theorem checkNot (kind : TokenKind) : Yields (fun _ => True) (Parser.checkNot kind) :=
  fun _ hc => ⟨hc.sound, .refl _, fun _ _ => trivial⟩

/-- Looking at two tokens gives no tree. -/
theorem check2 (first second : TokenKind) : Yields (fun _ => True) (Parser.check2 first second) :=
  fun _ hc => ⟨hc.sound, .refl _, fun _ _ => trivial⟩

/-- Looking for one of some tokens gives no tree. -/
theorem checkAny (kinds : List TokenKind) : Yields (fun _ => True) (Parser.checkAny kinds) :=
  fun _ hc => ⟨hc.sound, .refl _, fun _ _ => trivial⟩

/-- Looking whether a repetition goes on gives no tree. -/
theorem before (kinds : List TokenKind) : Yields (fun _ => True) (Parser.before kinds) :=
  fun _ hc => ⟨hc.sound, .refl _, fun _ _ => trivial⟩

/-- Skipping a token gives no tree. -/
theorem skip {kind : TokenKind} [kind.Inner] : Yields (fun _ => True) (Parser.skip kind) :=
  fun _ hc => .skip hc

/-- A repetition up to a closing token gives trees of the category. -/
theorem manyBefore {closing : TokenKind} (hitem : Yields (Derives k) item) :
    Yields (DerivesAll k) (Parser.manyBefore closing item) := fun _ hc =>
  .many (before _) (fun _ c _ hc => hitem c hc) hc

/-- Items separated by commas; there is at least one. -/
theorem commaList (hitem : Yields (Derives k) item) :
    Yields (fun l => ∃ first more, l = first :: more ∧ Derives k first ∧ DerivesAll k more)
      (Parser.commaList item) := by
  intro c hc
  refine .bind hc (hitem c hc) fun first c hc => ?_
  refine .bind hc (.many (k := k) skip (fun _ c _ hc => hitem c hc) hc)
    fun more c hc => ?_
  exact .pure hc fun h => ⟨first, more, rfl, h.1.2, h.2⟩

/-- A bounded list with commas gives trees of the category. -/
theorem commaListUpTo {closing : TokenKind} (hitem : Yields (Derives k) item) (bound : Nat) :
    Yields (DerivesAll k) (Parser.commaListUpTo closing item bound) := by
  induction bound with
  | zero => exact fun _ hc => .stopped hc fun _ => .nil
  | succ bound ih =>
    intro c hc
    refine .bind hc (before _ c hc) fun b c hc => ?_
    refine .ite (fun _ => ?_) fun _ => .pure hc fun _ => .nil
    refine .bind hc (hitem c hc) fun first c hc => ?_
    refine .ifSkip hc (fun c hc => ?_) ?_
    · refine .bind hc (ih c hc) fun more c hc => ?_
      exact .pure hc fun h => DerivesAll.cons_iff.2 ⟨h.1.2, h.2⟩
    · exact .pure hc fun h => DerivesAll.cons_iff.2 ⟨h.2, .nil⟩

/-- A list with commas up to a closing token gives trees of the category. -/
theorem commaListBefore {closing : TokenKind} (hitem : Yields (Derives k) item) :
    Yields (DerivesAll k) (Parser.commaListBefore closing item) := fun c hc =>
  .glance rfl (commaListUpTo hitem _ c hc)

end Yields

end JavaObjC
