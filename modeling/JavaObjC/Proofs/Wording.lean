import JavaObjC.Proofs.Layout

/-!
# What a text says, piece by piece

What a text says is read off its front: a blank says nothing, and a word, a
number or a mark says itself, provided that what follows cannot be part of it.
For a mark these are the bytes that would make another mark, a comment or a
number of it. From this follows what a text says that is put together from
pieces, whatever comes after it.
-/

namespace JavaObjC.Lexeme

/-- The kind and the literal of a token. -/
abbrev Said := TokenKind × Text

/-- What a mark says. -/
def saidMark (mark : Symbol) : Said := (.symbol mark, Text.ofString mark.spelling)

/-- What a text says in full: the kinds and the literals of all its tokens. -/
def spoken (source : Text) : List Said := (tokens source).map fun t => (t.kind, t.literal)

/-- The kind of a token of letters and digits. -/
def wordKind (word : Text) : TokenKind :=
  ((Keyword.ofSpelling? word).map TokenKind.keyword).getD .identifier

section Fronts

/-- What holds of all numbers below 256 holds of all bytes. -/
theorem forall_byte {p : UInt8 → Prop} (h : ∀ n : Fin 256, p (UInt8.ofFin n)) (b : UInt8) : p b :=
  h b.toFin

/-- The front byte of a number begins nothing else. -/
theorem front_of_isDigit : ∀ b : UInt8, isDigit b = true →
    b ≠ 47 ∧ isSpace b = false ∧ isLetter b = false ∧ isLetterOrDigit b = true :=
  forall_byte (by decide +kernel)

/-- The front byte of a word begins nothing else. -/
theorem front_of_isLetter : ∀ b : UInt8, isLetter b = true → b ≠ 47 ∧ isSpace b = false :=
  forall_byte (by decide +kernel)

/-- What the tokens of a text say does not depend on where the text stands. -/
theorem said_tokensFrom (fuel : Nat) (p q : Position) (t : Text) :
    (tokensFrom fuel p t).map (fun u => (u.kind, u.literal)) =
      (tokensFrom fuel q t).map fun u => (u.kind, u.literal) := by
  induction fuel generalizing p q t with
  | zero => rfl
  | succ fuel ih =>
    cases t with
    | nil => rfl
    | cons b rest => exact congrArg (_ :: ·) (ih _ _ _)

/-- What a text says in full is what its first token says and what the text after it does. -/
theorem spoken_of_next {b : UInt8} {front after : Text} {kind : TokenKind}
    (h : next b (front ++ after) = (kind, after)) :
    spoken (b :: (front ++ after)) = (kind, b :: front) :: spoken after := by
  have hfuel : after.length ≤ (front ++ after).length := by simp
  rw [spoken, tokens, List.length_cons]
  simp only [tokensFrom, h, take_length_sub, List.map_cons]
  rw [said_tokensFrom _ _ Position.start, tokensFrom_eq _ hfuel (Nat.le_refl _)]
  rfl

/-- A text says what it says in full, without what only separates the rest. -/
theorem wording_eq_filter (t : Text) : wording t = (spoken t).filter (!·.1.isTrivia) := by
  rw [wording, significant, spoken, List.filter_map]
  rfl

theorem wording_nil : wording [] = [(.eof, [])] := rfl

/-- A text says what its first token says, unless that only separates others, and then what
the text after the token says. -/
theorem wording_of_next {b : UInt8} {front after : Text} {kind : TokenKind}
    (h : next b (front ++ after) = (kind, after)) :
    wording (b :: (front ++ after)) =
      (if kind.isTrivia then [] else [(kind, b :: front)]) ++ wording after := by
  rw [wording_eq_filter, wording_eq_filter, spoken_of_next h, List.filter_cons]
  cases hkind : kind.isTrivia with
  | true => rfl
  | false => rfl

/-- Of a text that does not begin with a slash the first byte decides what is read. -/
theorem next_of_ne_slash {b : UInt8} (h : b ≠ 47) (rest : Text) :
    Text.startsWith (b :: rest) "//" = false ∧ Text.startsWith (b :: rest) "/*" = false := by
  have hb : (47 == b) = false := by simpa using Ne.symm h
  constructor
  · change (47 == b && _) = false
    rw [hb, Bool.false_and]
  · change (47 == b && _) = false
    rw [hb, Bool.false_and]

/-- White space is one token. -/
theorem next_of_isSpace {b : UInt8} (h : isSpace b = true) (rest : Text) :
    next b rest = (.whitespace, rest.dropWhile isSpace) := by
  have hslash : b ≠ 47 := by
    rintro rfl
    exact absurd h (by decide)
  obtain ⟨hline, hblock⟩ := next_of_ne_slash hslash rest
  simp [next, hline, hblock, h]

/-- Blanks at the front of a text are the only difference they make to what it says in full. -/
theorem filter_spoken_dropWhile {kept : Said → Bool} (hblank : ∀ t, kept (.whitespace, t) = false)
    (t : Text) : (spoken (t.dropWhile isSpace)).filter kept = (spoken t).filter kept := by
  cases t with
  | nil => rfl
  | cons b rest =>
    cases hb : isSpace b with
    | false => rw [List.dropWhile_cons_of_neg (by simp [hb])]
    | true =>
      have hnext : next b (rest.takeWhile isSpace ++ rest.dropWhile isSpace) =
          (.whitespace, rest.dropWhile isSpace) := by
        rw [List.takeWhile_append_dropWhile, next_of_isSpace hb]
      have hfront := spoken_of_next hnext
      rw [List.takeWhile_append_dropWhile] at hfront
      rw [List.dropWhile_cons_of_pos hb, hfront, List.filter_cons_of_neg (by simp [hblank])]

/-- A blank at the front of a text is the only difference it makes. -/
theorem filter_spoken_blank {kept : Said → Bool} (hblank : ∀ t, kept (.whitespace, t) = false)
    (t : Text) : (spoken (32 :: t)).filter kept = (spoken t).filter kept := by
  rw [← filter_spoken_dropWhile hblank (32 :: t), List.dropWhile_cons_of_pos (by decide),
    filter_spoken_dropWhile hblank]

/-- A blank says nothing. -/
@[simp] theorem wording_blank (t : Text) : wording (32 :: t) = wording t := by
  rw [wording_eq_filter, wording_eq_filter, filter_spoken_blank fun _ => rfl]

/-- The part of a text before the first byte that fails a test, when it is known. -/
theorem dropWhile_append_of_all {test : UInt8 → Bool} (front : Text) {after : Text}
    (hfront : ∀ b ∈ front, test b = true) (hafter : frontIs test after = false) :
    (front ++ after).dropWhile test = after := by
  rw [List.dropWhile_append_of_pos hfront]
  cases after with
  | nil => rfl
  | cons b rest => exact List.dropWhile_cons_of_neg (by simpa [frontIs] using hafter)

/-- A word is read as far as there are letters and digits. -/
theorem next_of_word {b : UInt8} {front after : Text} (hb : isLetter b = true)
    (hfront : ∀ c ∈ front, isLetterOrDigit c = true)
    (hafter : frontIs isLetterOrDigit after = false) :
    next b (front ++ after) = (wordKind (b :: front), after) := by
  obtain ⟨hslash, hspace⟩ := front_of_isLetter b hb
  obtain ⟨hline, hblock⟩ := next_of_ne_slash hslash (front ++ after)
  have hword : (b :: (front ++ after)).take
      ((front ++ after).length + 1 - after.length) = b :: front := take_length_sub b front after
  simp only [next, hline, hblock, hspace, hb, if_true, Bool.false_eq_true, if_false,
    dropWhile_append_of_all front hfront hafter, List.length_cons, hword]
  rfl

/-- A word says itself when neither a letter nor a digit follows it. -/
theorem wording_word {b : UInt8} {front after : Text} (hb : isLetter b = true)
    (hfront : ∀ c ∈ front, isLetterOrDigit c = true)
    (hafter : frontIs isLetterOrDigit after = false) :
    wording (b :: (front ++ after)) = (wordKind (b :: front), b :: front) :: wording after := by
  have htrivia : (wordKind (b :: front)).isTrivia = false := by
    unfold wordKind
    cases Keyword.ofSpelling? (b :: front) <;> rfl
  rw [wording_of_next (next_of_word hb hfront hafter), htrivia]
  rfl

/-- A number of digits only, when nothing that could be part of a number follows it. -/
theorem number_digits {b : UInt8} {front after : Text}
    (hdigits : ∀ c ∈ b :: front, isDigit c = true)
    (hafter : frontIs isLetterOrDigit after = false) (hpoint : after.head? ≠ some 46) :
    number (b :: (front ++ after)) = (false, after) := by
  -- a letter that marks a number, an exponent or a base does not stand in front of `after`
  have hletter : ∀ letters : List Char, letters.all (fun c => isLetterOrDigit (Text.byte c)) = true →
      ∀ c rest, after = c :: rest → letters.any (Text.byte · == c) = false := by
    rintro letters hletters c rest rfl
    rw [← Bool.not_eq_true, List.any_eq_true]
    rintro ⟨letter, hmem, heq⟩
    obtain rfl := eq_of_beq heq
    exact absurd (List.all_eq_true.1 hletters letter hmem) (by simpa [frontIs] using hafter)
  have hdecimal : decimal (b :: (front ++ after)) = (false, after) := by
    have hdrop : (b :: (front ++ after)).dropWhile isDigitPart = after := by
      refine dropWhile_append_of_all (b :: front)
        (fun c hc => by simp [isDigitPart, hdigits c hc]) ?_
      cases after with
      | nil => rfl
      | cons c rest =>
        have hpart : ∀ c : UInt8, isLetterOrDigit c = false → isDigitPart c = false :=
          forall_byte (by decide +kernel)
        exact hpart c hafter
    have hfraction : fraction after = (false, after) := by
      unfold fraction
      split
      · exact absurd rfl hpoint
      · rfl
    have hexponent : exponent ['e', 'E'] after = (false, after) := by
      cases after with
      | nil => rfl
      | cons c rest => rw [exponent, hletter ['e', 'E'] (by decide) c rest rfl]; rfl
    simp only [decimal, hdrop, hfraction, hexponent]
    cases after with
    | nil => rfl
    | cons c rest =>
      simp only [hletter ['f', 'F', 'd', 'D'] (by decide) c rest rfl, dropOne,
        hletter ['l', 'L'] (by decide) c rest rfl]
      rfl
  -- the second byte is a digit, or what follows the number: no base is marked by it
  have hbase : ∀ c : UInt8, isDigit c = true ∨ isLetterOrDigit c = false →
      ¬ (c = 120 ∨ c = 88) ∧ ¬ (c = 98 ∨ c = 66) := forall_byte (by decide +kernel)
  unfold number
  split
  · rename_i c rest heq
    obtain ⟨rfl, hrest⟩ := List.cons_eq_cons.1 heq
    have hc : isDigit c = true ∨ isLetterOrDigit c = false := by
      cases front with
      | nil =>
        obtain rfl : after = c :: rest := hrest
        exact .inr hafter
      | cons d front =>
        obtain rfl : d = c := (List.cons_eq_cons.1 hrest).1
        exact .inl (hdigits d (by simp))
    rw [if_neg (hbase c hc).1, if_neg (hbase c hc).2]
    exact hdecimal
  · exact hdecimal

/-- A number of digits only says itself when nothing that could be part of it follows. -/
theorem wording_digits {b : UInt8} {front after : Text}
    (hdigits : ∀ c ∈ b :: front, isDigit c = true)
    (hafter : frontIs isLetterOrDigit after = false) (hpoint : after.head? ≠ some 46) :
    wording (b :: (front ++ after)) = (.intLiteral, b :: front) :: wording after := by
  have hb : isDigit b = true := hdigits b List.mem_cons_self
  obtain ⟨hslash, hspace, hletter, -⟩ := front_of_isDigit b hb
  obtain ⟨hline, hblock⟩ := next_of_ne_slash hslash (front ++ after)
  have hnext : next b (front ++ after) = (.intLiteral, after) := by
    simp [next, hline, hblock, hspace, hletter, hb, number_digits hdigits hafter hpoint]
  rw [wording_of_next hnext]
  rfl

end Fronts

section Marks

theorem mem_all (mark : Symbol) : mark ∈ Symbol.all := by
  cases mark <;> decide

/-- What is not to be taken for a mark: the other marks, comments, and numbers that begin
with a point. -/
def rivals : List Text :=
  Symbol.all.map (fun mark => Text.ofString mark.spelling) ++
    ["//", "/*", ".0", ".1", ".2", ".3", ".4", ".5", ".6", ".7", ".8", ".9"].map Text.ofString

/-- The bytes after a mark that make something else of it. -/
def followers (mark : Symbol) : List UInt8 :=
  rivals.filterMap fun rival =>
    if Text.startsWith rival mark.spelling then
      (rival.drop (Text.ofString mark.spelling).length).head?
    else none

/-- A mark is not taken for a longer rival when the byte after it is none of its followers. -/
theorem not_rival {mark : Symbol} {rival after : Text} (hrival : rival ∈ rivals)
    (hmark : ¬ rival <+: Text.ofString mark.spelling)
    (hafter : ∀ b ∈ after.head?, b ∉ followers mark) :
    ¬ rival <+: Text.ofString mark.spelling ++ after := by
  intro h
  rcases List.prefix_or_prefix_of_prefix h (List.prefix_append _ after) with hshort | hlong
  · exact hmark hshort
  · obtain ⟨more, rfl⟩ := hlong
    rw [List.prefix_append_right_inj] at h
    cases more with
    | nil => exact hmark (by simp)
    | cons b more =>
      obtain ⟨rest, rfl⟩ := h
      refine hafter b rfl (List.mem_filterMap.2 ⟨_, hrival, ?_⟩)
      have hfront : Text.startsWith (Text.ofString mark.spelling ++ b :: more) mark.spelling = true :=
        List.isPrefixOf_iff_prefix.2 (List.prefix_append _ _)
      rw [if_pos hfront, List.drop_left]
      rfl

/-- The marks that are tried before a mark. -/
def triedBefore (mark : Symbol) : List Symbol := Symbol.all.takeWhile (· ≠ mark)

/-- A byte that makes something else of a mark stands in a rival, behind its first byte. -/
theorem exists_rival_of_mem_followers {mark : Symbol} {b : UInt8} (h : b ∈ followers mark) :
    ∃ rival ∈ rivals, b ∈ rival.tail := by
  obtain ⟨rival, hrival, hb⟩ := List.mem_filterMap.1 h
  rw [Option.ite_none_right_eq_some] at hb
  obtain ⟨-, hb⟩ := hb
  obtain ⟨rest, hrest⟩ := List.head?_eq_some_iff.1 hb
  have hlength : 0 < (Text.ofString mark.spelling).length :=
    (by decide : ∀ mark ∈ Symbol.all, 0 < (Text.ofString mark.spelling).length) mark
      (mem_all mark)
  refine ⟨rival, hrival, List.mem_of_mem_drop (i := (Text.ofString mark.spelling).length - 1) ?_⟩
  rw [List.drop_tail, Nat.sub_add_cancel hlength, hrest]
  exact List.mem_cons_self

/-- The lexer tries other marks before a given one. -/
theorem all_eq_triedBefore (mark : Symbol) :
    Symbol.all = triedBefore mark ++ mark :: (Symbol.all.dropWhile (· ≠ mark)).tail := by
  have hall : ∀ mark ∈ Symbol.all, Symbol.all =
      triedBefore mark ++ mark :: (Symbol.all.dropWhile (· ≠ mark)).tail := by decide
  exact hall mark (mem_all mark)

/-- No mark begins with one that is tried before it, nor with a comment or a number. -/
theorem not_prefix_spelling (mark : Symbol) :
    (∀ other ∈ triedBefore mark,
      ¬ Text.ofString other.spelling <+: Text.ofString mark.spelling) ∧
    ∀ rival ∈ rivals.drop Symbol.all.length, ¬ rival <+: Text.ofString mark.spelling := by
  have hall : ∀ mark ∈ Symbol.all, (∀ other ∈ triedBefore mark,
      ¬ Text.ofString other.spelling <+: Text.ofString mark.spelling) ∧
      ∀ rival ∈ rivals.drop Symbol.all.length, ¬ rival <+: Text.ofString mark.spelling := by
    decide
  exact hall mark (mem_all mark)

/-- A mark that nothing lengthens is read as itself. -/
theorem atFront?_mark {mark : Symbol} {after : Text}
    (hafter : ∀ b ∈ after.head?, b ∉ followers mark) :
    Symbol.atFront? (Text.ofString mark.spelling ++ after) = some mark := by
  rw [Symbol.atFront?, List.find?_eq_some_iff_append]
  refine ⟨List.isPrefixOf_iff_prefix.2 (List.prefix_append _ _), _, _, all_eq_triedBefore mark,
    fun other hother => ?_⟩
  have hrival : Text.ofString other.spelling ∈ rivals :=
    List.mem_append_left _ (List.mem_map_of_mem ((List.takeWhile_prefix _).subset hother))
  have hnot := not_rival hrival ((not_prefix_spelling mark).1 other hother) hafter
  rw [Bool.not_eq_true', Text.startsWith, ← Bool.not_eq_true, List.isPrefixOf_iff_prefix]
  exact hnot

/-- The first byte of a mark begins neither a blank, a word, a number nor a quotation. -/
theorem spelling_front (mark : Symbol) : ∃ b front, Text.ofString mark.spelling = b :: front ∧
    isSpace b = false ∧ isLetter b = false ∧ isDigit b = false ∧ b ≠ 39 ∧ b ≠ 34 := by
  have hall : ∀ mark ∈ Symbol.all, ∃ b, b ∈ (Text.ofString mark.spelling).head? ∧
      isSpace b = false ∧ isLetter b = false ∧ isDigit b = false ∧ b ≠ 39 ∧ b ≠ 34 := by
    decide
  obtain ⟨b, hb, hplain⟩ := hall mark (mem_all mark)
  obtain ⟨front, hfront⟩ := List.head?_eq_some_iff.1 hb
  exact ⟨b, front, hfront, hplain⟩

/-- A point with a digit after it is a rival. -/
theorem point_digit_rival : ∀ b : UInt8, isDigit b = true →
    [46, b] ∈ rivals.drop Symbol.all.length := forall_byte (by decide +kernel)

/-- A mark is read when what follows makes nothing else of it. -/
theorem next_of_mark {mark : Symbol} {b : UInt8} {front after : Text}
    (hspelling : Text.ofString mark.spelling = b :: front)
    (hafter : ∀ c ∈ after.head?, c ∉ followers mark) :
    next b (front ++ after) = (.symbol mark, after) := by
  have hno : ∀ rival ∈ rivals.drop Symbol.all.length,
      Text.startsWith (Text.ofString mark.spelling ++ after) rival = false := by
    intro rival hrival
    rw [Text.startsWith, ← Bool.not_eq_true, List.isPrefixOf_iff_prefix]
    exact not_rival (List.mem_of_mem_drop hrival) ((not_prefix_spelling mark).2 rival hrival) hafter
  have hmark := atFront?_mark hafter
  obtain ⟨c, tail, hfront, hspace, hletter, hdigit, hchar, hstring⟩ := spelling_front mark
  obtain ⟨rfl, rfl⟩ := List.cons_eq_cons.1 (hspelling.symm.trans hfront)
  rw [hspelling, List.cons_append] at hmark hno
  have hpoint : (b == 46 && frontIs isDigit (front ++ after)) = false := by
    rw [← Bool.not_eq_true]
    intro h
    obtain ⟨hb, hbehind⟩ := Bool.and_eq_true_iff.1 h
    cases hrest : front ++ after with
    | nil => rw [hrest] at hbehind; cases hbehind
    | cons c rest =>
      rw [hrest] at hbehind hno
      obtain rfl := eq_of_beq hb
      have hpoint := hno [46, c] (point_digit_rival c hbehind)
      simp [Text.startsWith] at hpoint
  have hline := hno "//" (by decide)
  have hblock := hno "/*" (by decide)
  simp only [next, hline, hblock, hspace, hletter, hdigit, hpoint, hchar, hstring, hmark]
  simp [hspelling]

/-- A mark says itself when what follows makes nothing else of it. -/
theorem wording_mark {mark : Symbol} {after : Text}
    (hafter : ∀ b ∈ after.head?, b ∉ followers mark) :
    wording (Text.ofString mark.spelling ++ after) = saidMark mark :: wording after := by
  obtain ⟨b, front, hspelling, -⟩ := spelling_front mark
  rw [hspelling, List.cons_append, wording_of_next (next_of_mark hspelling hafter), saidMark,
    hspelling]
  rfl

end Marks

section Pieces

/-- What may stand after a piece of an expression: nothing, a blank or a closing parenthesis. -/
def Breaks (rest : Text) : Prop := ∀ b ∈ rest.head?, b = 32 ∨ b = 41

theorem Breaks.nil : Breaks [] := nofun

theorem Breaks.blank (t : Text) : Breaks (32 :: t) := by
  rintro b ⟨⟩
  exact .inl rfl

/-- A closing parenthesis ends every token. -/
theorem Breaks.closing (t : Text) : Breaks (Text.ofString ")" ++ t) := by
  rintro b ⟨⟩
  exact .inr rfl

/-- What breaks off an expression is part of no word, number or mark. -/
theorem Breaks.frontIs {rest : Text} (h : Breaks rest) :
    frontIs isLetterOrDigit rest = false ∧ rest.head? ≠ some 46 ∧
      ∀ mark, ∀ b ∈ rest.head?, b ∉ followers mark := by
  cases rest with
  | nil => exact ⟨rfl, nofun, nofun⟩
  | cons b rest =>
    have hrivals : ∀ rival ∈ rivals, 32 ∉ rival.tail ∧ 41 ∉ rival.tail := by decide
    rcases h b rfl with rfl | rfl
    · refine ⟨rfl, by simp, ?_⟩
      rintro mark b ⟨⟩ hb
      obtain ⟨rival, hrival, hmem⟩ := exists_rival_of_mem_followers hb
      exact (hrivals rival hrival).1 hmem
    · refine ⟨rfl, by simp, ?_⟩
      rintro mark b ⟨⟩ hb
      obtain ⟨rival, hrival, hmem⟩ := exists_rival_of_mem_followers hb
      exact (hrivals rival hrival).2 hmem

/-- Marks that an expression may begin with. -/
def openers : List UInt8 := Text.ofString "(+-!~"

/-- A text that says some words wherever a piece of an expression may stand, and begins as
the first of them does. -/
structure Says (t : Text) (words : List Said) : Prop where
  reads : ∀ rest, Breaks rest → wording (t ++ rest) = words ++ wording rest
  front : ∃ b, t.head? = some b ∧ (words.head?.bind (·.2.head?)) = some b ∧
    (isLetterOrDigit b = true ∨ b ∈ openers)

namespace Says

variable {t u : Text} {words more : List Said} {mark : Symbol}

/-- The whole of such a text says the words and nothing else. -/
theorem wording_eq (h : Says t words) : wording t = words ++ [(.eof, [])] := by
  simpa [wording_nil] using h.reads [] .nil

/-- The first byte of the words may begin an expression. -/
theorem opens (h : Says t words) {b : UInt8} (hb : b ∈ words.head?.bind (·.2.head?)) :
    isLetterOrDigit b = true ∨ b ∈ openers := by
  obtain ⟨c, -, hwords, hopen⟩ := h.front
  rw [hwords] at hb
  cases hb
  exact hopen

/-- What begins with such a text begins as its first word does. -/
theorem head?_append (h : Says t words) (rest : Text) :
    (t ++ rest).head? = words.head?.bind (·.2.head?) := by
  obtain ⟨b, hb, hwords, -⟩ := h.front
  rw [hwords, List.head?_append, hb]
  rfl

/-- A word says itself. -/
theorem word {b : UInt8} {front : Text} (hb : isLetter b = true)
    (hfront : ∀ c ∈ front, isLetterOrDigit c = true) :
    Says (b :: front) [(wordKind (b :: front), b :: front)] where
  reads rest hrest := by
    rw [List.cons_append, wording_word hb hfront hrest.frontIs.1]
    rfl
  front := ⟨b, rfl, rfl, .inl (by simp [isLetterOrDigit, hb])⟩

/-- Digits say a number. -/
theorem digits {b : UInt8} {front : Text} (h : ∀ c ∈ b :: front, isDigit c = true) :
    Says (b :: front) [(.intLiteral, b :: front)] where
  reads rest hrest := by
    rw [List.cons_append, wording_digits h hrest.frontIs.1 hrest.frontIs.2.1]
    rfl
  front := ⟨b, rfl, rfl, .inl (front_of_isDigit b (h b List.mem_cons_self)).2.2.2⟩

/-- Two pieces with a mark between them. -/
theorem between (ht : Says t words) (hu : Says u more) (mark : Symbol) :
    Says (t ++ " " ++ Text.ofString mark.spelling ++ " " ++ u)
      (words ++ saidMark mark :: more) where
  reads rest hrest := by
    have hmark : wording (Text.ofString mark.spelling ++ 32 :: (u ++ rest)) =
        saidMark mark :: wording (32 :: (u ++ rest)) :=
      wording_mark ((Breaks.blank _).frontIs.2.2 mark)
    have hleft := ht.reads (32 :: (Text.ofString mark.spelling ++ 32 :: (u ++ rest))) (.blank _)
    rw [wording_blank, hmark, wording_blank, hu.reads rest hrest] at hleft
    have hblank : Text.ofString " " = [32] := rfl
    simpa [hblank] using hleft
  front := by
    obtain ⟨b, hb, hwords, hopen⟩ := ht.front
    refine ⟨b, by simp [hb], ?_, hopen⟩
    cases words with
    | nil => cases hwords
    | cons w words => exact hwords

/-- A piece with a mark in front that its first byte makes nothing else of. -/
theorem after (h : Says t words) (mark : Symbol)
    (hmark : (Text.ofString mark.spelling).head?.all (openers.contains ·))
    (hfront : ∀ b ∈ words.head?.bind (·.2.head?), b ∉ followers mark) :
    Says (Text.ofString mark.spelling ++ t) (saidMark mark :: words) where
  reads rest hrest := by
    rw [List.append_assoc, wording_mark (by rwa [h.head?_append]), h.reads rest hrest]
    rfl
  front := by
    obtain ⟨b, front, hspelling, -⟩ := spelling_front mark
    refine ⟨b, by rw [hspelling]; rfl, by simp [saidMark, hspelling], .inr ?_⟩
    simpa [hspelling] using hmark

/-- A piece with a mark after it that is no part of its last word. -/
theorem before (ht : ∀ rest, wording (t ++ (Text.ofString mark.spelling ++ rest)) =
    words ++ wording (Text.ofString mark.spelling ++ rest)) (h : Says t words) :
    Says (t ++ Text.ofString mark.spelling) (words ++ [saidMark mark]) where
  reads rest hrest := by
    rw [List.append_assoc, ht, wording_mark (hrest.frontIs.2.2 mark)]
    simp
  front := by
    obtain ⟨b, hb, hwords, hopen⟩ := h.front
    refine ⟨b, by simp [hb], ?_, hopen⟩
    cases words with
    | nil => cases hwords
    | cons w words => exact hwords

/-- A piece in parentheses. -/
theorem paren (h : Says t words) :
    Says ("(" ++ t ++ ")") (saidMark .lparen :: (words ++ [saidMark .rparen])) := by
  have hclosed : Says (t ++ Text.ofString Symbol.rparen.spelling) (words ++ [saidMark .rparen]) :=
    before (fun rest => h.reads _ (.closing rest)) h
  have hopen : followers .lparen = [] := by decide
  rw [List.append_assoc]
  exact hclosed.after .lparen (by decide) (by simp [hopen])

end Says

end Pieces

end JavaObjC.Lexeme
