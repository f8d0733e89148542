import JavaObjC.Proofs.Reading.Cursors
import JavaObjC.Source.Lexeme
import Mathlib.Data.List.Infix

/-!
# What the tokens of a source are like

Every scanning function leaves a suffix of what it was given, and the text
after a token is a suffix of the text after the token's first byte. From this
follow the facts the parser relies on: tokens are genuine, the end of file
stands at the end and nowhere else, and each token begins where the one before
it ends or later.
-/

namespace JavaObjC.Lexeme

/-- Leaving out one byte at most leaves an end of the text. -/
theorem dropOne_suffix (options : List Char) (t : Text) : dropOne options t <:+ t := by
  cases t with
  | nil => exact List.suffix_rfl
  | cons b rest =>
    rw [dropOne]
    split
    · exact List.suffix_cons b rest
    · exact List.suffix_rfl

/-- Behind an exponent is an end of the text. -/
theorem exponent_suffix (letters : List Char) (t : Text) : (exponent letters t).2 <:+ t := by
  cases t with
  | nil => exact List.suffix_rfl
  | cons b rest =>
    rw [exponent]
    split
    · have hdigits := List.dropWhile_suffix (l := dropOne ['+', '-'] rest) isDigitPart
      exact (hdigits.trans (dropOne_suffix _ rest)).trans (List.suffix_cons b rest)
    · exact List.suffix_rfl

/-- Behind a fraction is an end of the text. -/
theorem fraction_suffix (t : Text) : (fraction t).2 <:+ t := by
  unfold fraction
  split
  · rename_i rest
    split
    · exact (List.dropWhile_suffix _).trans (List.suffix_cons _ rest)
    · split
      · exact List.suffix_rfl
      · exact List.suffix_cons _ rest
  · exact List.suffix_rfl

/-- What is left after a decimal number is left after its fraction. -/
theorem decimal_suffix (t : Text) :
    (decimal t).2 <:+ (fraction (t.dropWhile isDigitPart)).2 := by
  unfold decimal
  obtain ⟨hasFraction, afterFraction⟩ := fraction (t.dropWhile isDigitPart)
  have hexponent := exponent_suffix ['e', 'E'] afterFraction
  dsimp only
  generalize exponent ['e', 'E'] afterFraction = p at hexponent ⊢
  obtain ⟨hasExponent, afterExponent⟩ := p
  refine List.IsSuffix.trans ?_ hexponent
  cases afterExponent with
  | nil => exact List.nil_suffix
  | cons b rest =>
    dsimp only
    split
    · exact List.suffix_cons b rest
    · exact dropOne_suffix ['l', 'L'] (b :: rest)

/-- Behind a hexadecimal fraction is an end of the text. -/
theorem hexFraction_suffix (t : Text) : (hexFraction t).2 <:+ t := by
  unfold hexFraction
  split
  · exact (List.dropWhile_suffix _).trans (List.suffix_cons _ _)
  · exact List.suffix_rfl

/-- Behind a hexadecimal number is an end of the text. -/
theorem hexadecimal_suffix (t : Text) : (hexadecimal t).2 <:+ t := by
  have hfraction := (hexFraction_suffix (t.dropWhile isHexPart)).trans (List.dropWhile_suffix _)
  unfold hexadecimal
  generalize hexFraction (t.dropWhile isHexPart) = p at hfraction ⊢
  have hexponent := exponent_suffix ['p', 'P'] p.2
  refine List.IsSuffix.trans ?_ (hexponent.trans hfraction)
  dsimp only
  split <;> exact dropOne_suffix _ _

/-- A number takes at least its first byte. -/
theorem number_suffix {b : UInt8} {rest : Text}
    (h : isDigit b = true ∨ b = 46 ∧ frontIs isDigit rest = true) :
    (number (b :: rest)).2 <:+ rest := by
  have hdecimal : (decimal (b :: rest)).2 <:+ rest := by
    refine (decimal_suffix _).trans ?_
    rcases h with hdigit | ⟨rfl, hfront⟩
    · rw [List.dropWhile_cons_of_pos (by simp [isDigitPart, hdigit])]
      exact (fraction_suffix _).trans (List.dropWhile_suffix _)
    · rw [List.dropWhile_cons_of_neg (by decide)]
      simp only [fraction, hfront, if_true]
      exact List.dropWhile_suffix _
  unfold number
  split
  · rename_i b' rest' heq
    cases heq
    split
    · exact (hexadecimal_suffix rest').trans (List.suffix_cons _ _)
    · split
      · exact ((dropOne_suffix _ _).trans (List.dropWhile_suffix _)).trans (List.suffix_cons _ _)
      · exact hdecimal
  · exact hdecimal

/-- Behind the rest of a string is an end of the text. -/
theorem quotedRest_suffix (quote : UInt8) (t : Text) : quotedRest quote t <:+ t := by
  fun_induction quotedRest quote t with
  | case1 => exact List.suffix_rfl
  | case2 => exact List.suffix_rfl
  | case3 => exact List.nil_suffix
  | case4 c rest _ ih => exact (ih.trans (List.suffix_cons c rest)).trans (List.suffix_cons _ _)
  | case5 b rest _ _ ih => exact ih.trans (List.suffix_cons _ _)

/-- Behind a string is an end of the text. -/
theorem quoted_suffix (kind : TokenKind) (quote : UInt8) (t : Text) :
    (quoted kind quote t).2 <:+ t := by
  have hrest := quotedRest_suffix quote t
  unfold quoted
  split
  · rename_i b rest heq
    rw [heq] at hrest
    split
    · exact (List.suffix_cons b rest).trans hrest
    · exact hrest
  · exact List.nil_suffix

/-- Behind the rest of a text block is an end of the text. -/
theorem textBlockRest_suffix {t rest : Text} (h : textBlockRest? t = some rest) :
    rest <:+ t := by
  fun_induction textBlockRest? t with
  | case1 => cases h
  | case2 =>
    cases h
    exact List.suffix_append [34, 34, 34] _
  | case3 => cases h
  | case4 c after _ ih =>
    exact ((ih h).trans (List.suffix_cons c after)).trans (List.suffix_cons _ _)
  | case5 b after _ _ ih => exact (ih h).trans (List.suffix_cons b _)

/-- Behind the rest of a comment is an end of the text. -/
theorem commentRest_suffix {t rest : Text} (h : commentRest? t = some rest) : rest <:+ t := by
  fun_induction commentRest? t with
  | case1 => cases h
  | case2 =>
    cases h
    exact List.suffix_append [42, 47] _
  | case3 b after _ ih => exact (ih h).trans (List.suffix_cons b _)

/-- Every mark is written with at least one byte. -/
theorem one_le_spelling (mark : Symbol) : 1 ≤ (Text.ofString mark.spelling).length := by
  cases mark <;> decide +kernel

/-- A token takes at least its first byte. -/
theorem next_suffix (b : UInt8) (rest : Text) : (next b rest).2 <:+ rest := by
  fun_cases next b rest with
  | case1 => exact (List.dropWhile_suffix _).trans (List.drop_suffix 1 rest)
  | case2 t h h' after heq => exact (commentRest_suffix heq).trans (List.drop_suffix 1 rest)
  | case3 => exact List.nil_suffix
  | case4 => exact List.dropWhile_suffix _
  | case5 => exact List.dropWhile_suffix _
  | case6 t _ _ _ _ hguard floating after heq =>
    have hnumber : (number (b :: rest)).2 <:+ rest := number_suffix (by simpa using hguard)
    rw [heq] at hnumber
    exact hnumber
  | case7 => exact quoted_suffix _ _ rest
  | case8 t _ _ _ _ _ _ _ _ after heq =>
    exact (textBlockRest_suffix heq).trans (List.drop_suffix 2 rest)
  | case9 => exact List.nil_suffix
  | case10 => exact quoted_suffix _ _ rest
  | case11 t _ _ _ _ _ _ _ mark _ =>
    obtain ⟨n, hn⟩ := Nat.exists_eq_add_of_le (one_le_spelling mark)
    change (b :: rest).drop (Text.ofString mark.spelling).length <:+ rest
    rw [hn, Nat.add_comm, List.drop_succ_cons]
    exact List.drop_suffix n rest
  | case12 => exact List.suffix_rfl

/-- What the kind of a token says about the text it stands for. -/
structure Fitting (b : UInt8) (rest : Text) (kind : TokenKind) (after : Text) : Prop where
  /-- The end of file is no token of a text. -/
  ne_eof : kind ≠ .eof
  /-- A mark is written the way it is spelled. -/
  spelled : ∀ mark, kind = .symbol mark → b :: rest = Text.ofString mark.spelling ++ after
  /-- A number does not begin with a separator. -/
  front : kind = .floatLiteral → b ≠ Text.byte '_'
  /-- A quotation is closed, and a number begins like one. -/
  formed : ∀ front span, rest = front ++ after → Token.Formed ⟨kind, span, b :: front⟩

/-- Kinds that say nothing about the text they stand for. -/
theorem Fitting.of_kind {b : UInt8} {rest after : Text} {kind : TokenKind}
    (h : kind ≠ .eof ∧ (∀ mark, kind ≠ .symbol mark) ∧
      kind ∉ [.intLiteral, .floatLiteral, .charLiteral, .stringLiteral]) :
    Fitting b rest kind after := by
  obtain ⟨heof, hmark, hliteral⟩ := h
  refine ⟨heof, fun mark hkind => absurd hkind (hmark mark), ?_, fun front span _ => ?_⟩
  · rintro rfl
    simp at hliteral
  · cases kind <;> trivial

/-- What stands before the closing quote does not end a quotation. -/
theorem quotedRest_encloses {quote : UInt8} {t after : Text} (hquote : quote ≠ 92)
    (h : quotedRest quote t = quote :: after) :
    ∃ content, t = content ++ quote :: after ∧ Text.encloses quote false content = true := by
  fun_induction quotedRest quote t with
  | case1 => cases h
  | case2 b rest => exact ⟨[], h, rfl⟩
  | case3 => cases h
  | case4 b rest hends ih =>
    obtain ⟨content, rfl, hcontent⟩ := ih h
    exact ⟨92 :: b :: content, rfl, Bool.and_eq_true_iff.2 ⟨by simpa using hquote.symm, hcontent⟩⟩
  | case5 b rest hends hb ih =>
    obtain ⟨content, rfl, hcontent⟩ := ih h
    refine ⟨b :: content, rfl, Bool.and_eq_true_iff.2 ⟨?_, ?_⟩⟩
    · simp only [not_or] at hends
      simpa using hends.2.1
    · rwa [beq_eq_false_iff_ne.2 hb]

/-- A character or a string is a quotation if it is closed. -/
theorem quoted_fitting (rest : Text) {kind : TokenKind} {quote : UInt8}
    (h : kind = .charLiteral ∧ quote = 39 ∨ kind = .stringLiteral ∧ quote = 34) :
    Fitting quote rest (quoted kind quote rest).1 (quoted kind quote rest).2 := by
  have hquote : quote ≠ 92 := by
    rcases h with ⟨-, rfl⟩ | ⟨-, rfl⟩ <;> decide
  unfold quoted
  split
  · next b after hrest =>
    split
    · next hb =>
      subst hb
      obtain ⟨content, rfl, hcontent⟩ := quotedRest_encloses hquote hrest
      have hquotation : ∀ front, content ++ b :: after = front ++ after →
          IsQuotation b (b :: front) := fun front hfront => by
        have hsplit : front = content ++ [b] := by
          have happended : front ++ after = (content ++ [b]) ++ after := by
            rw [← hfront, List.append_assoc, List.singleton_append]
          exact List.append_cancel_right happended
        exact ⟨content, hcontent, by rw [hsplit]⟩
      rcases h with ⟨rfl, rfl⟩ | ⟨rfl, rfl⟩
      · exact ⟨nofun, nofun, nofun, fun front _ => hquotation front⟩
      · exact ⟨nofun, nofun, nofun, fun front _ => hquotation front⟩
    · exact .of_kind (by simp)
  · exact .of_kind (by simp)

/-- A byte that a number begins with is no separator. -/
theorem ne_separator_of_number {b : UInt8} {rest : Text}
    (h : isDigit b = true ∨ b = 46 ∧ frontIs isDigit rest = true) : b ≠ Text.byte '_' := by
  rintro rfl
  rcases h with hdigit | ⟨hpoint, -⟩
  · exact absurd hdigit (by decide)
  · exact absurd hpoint (by decide)

/-- Every token fits the front of the text it is read from. -/
theorem next_fitting (b : UInt8) (rest : Text) :
    Fitting b rest (next b rest).1 (next b rest).2 := by
  fun_cases next b rest with
  | case1 => exact .of_kind (by simp)
  | case2 => exact .of_kind (by simp)
  | case3 => exact .of_kind (by simp)
  | case4 => exact .of_kind (by simp)
  | case5 t _ _ _ _ after word =>
    cases Keyword.ofSpelling? word with
    | none => exact .of_kind (by simp)
    | some keyword => exact .of_kind (by simp)
  | case6 t _ _ _ _ hguard floating after heq =>
    have hfront : isDigit b = true ∨ b = 46 ∧ frontIs isDigit rest = true := by simpa using hguard
    have hformed : ∀ front : Text,
        frontIs (fun b => isDigit b || b == 46) (b :: front) = true := fun front => by
      rcases hfront with hdigit | ⟨hpoint, -⟩
      · exact Bool.or_eq_true_iff.2 (.inl hdigit)
      · exact Bool.or_eq_true_iff.2 (.inr (beq_iff_eq.2 hpoint))
    cases floating with
    | true =>
      exact ⟨nofun, nofun, fun _ => ne_separator_of_number hfront, fun front _ _ => hformed front⟩
    | false => exact ⟨nofun, nofun, nofun, fun front _ _ => hformed front⟩
  | case7 _ _ _ _ _ _ hquote =>
    subst hquote
    exact quoted_fitting rest (.inl ⟨rfl, rfl⟩)
  | case8 => exact .of_kind (by simp)
  | case9 => exact .of_kind (by simp)
  | case10 _ _ _ _ _ _ _ hquote =>
    subst hquote
    exact quoted_fitting rest (.inr ⟨rfl, rfl⟩)
  | case11 t _ _ _ _ _ _ _ mark hmark =>
    refine ⟨nofun, ?_, nofun, fun _ _ _ => trivial⟩
    rintro other hother
    cases hother
    have hfront : Text.startsWith t mark.spelling = true := by
      simpa using List.find?_some hmark
    obtain ⟨after, hafter⟩ := List.isPrefixOf_iff_prefix.1 hfront
    change t = Text.ofString mark.spelling ++ t.drop (Text.ofString mark.spelling).length
    rw [← hafter, List.drop_left]
  | case12 => exact .of_kind (by simp)

/-- The bytes of a token, when the text after it is known. -/
theorem take_length_sub (b : UInt8) (front after : Text) :
    (b :: (front ++ after)).take ((front ++ after).length + 1 - after.length) = b :: front := by
  have hlength : (front ++ after).length + 1 - after.length = (b :: front).length := by
    simp only [List.length_append, List.length_cons]
    omega
  rw [hlength]
  exact List.take_left

/-- A token whose kind fits its text is genuine. -/
theorem Fitting.genuine {b : UInt8} {front after : Text} {kind : TokenKind}
    (h : Fitting b (front ++ after) kind after) (span : Span) :
    Token.Genuine ⟨kind, span, b :: front⟩ where
  spelled mark hmark := by
    have hspelled : b :: front ++ after = Text.ofString mark.spelling ++ after :=
      h.spelled mark hmark
    exact List.append_cancel_right hspelled
  nonempty _ := List.cons_ne_nil b front
  digits hfloat := ⟨b, List.mem_cons_self, h.front hfloat⟩
  formed := h.formed front span rfl

/-- The end of file is genuine. -/
theorem genuine_eof (span : Span) : Token.Genuine ⟨.eof, span, []⟩ :=
  ⟨nofun, fun h => absurd rfl h, nofun, trivial⟩

/-- A place after some text is that many bytes further on. -/
theorem after_offset (p : Position) (t : Text) : (p.after t).offset = p.offset + t.length := by
  induction t generalizing p with
  | nil => rfl
  | cons b rest ih =>
    have hstep : (p.step b).offset = p.offset + 1 := by
      unfold Position.step
      split <;> rfl
    rw [Position.after, List.foldl_cons, ← Position.after, ih, hstep, List.length_cons]
    omega

/-- Every byte of one token that can come to its front stands before another token. -/
def Precedes (t u : Token) : Prop :=
  ∀ k, k ≤ t.literal.length - 1 → t.span.start.offset + k < u.span.start.offset

/-- Tokens as the text of a source is split into them: genuine, in order, and with
the end of file at their end. -/
structure Orderly (tokens : List Token) : Prop where
  genuine : ∀ t ∈ tokens, t.Genuine
  ordered : tokens.Pairwise Precedes
  ends : Cursor.EndsFile tokens

/-- The end of file alone is orderly. -/
theorem orderly_eof (p : Position) : Orderly [⟨.eof, ⟨p, p⟩, []⟩] where
  genuine := by simpa using genuine_eof _
  ordered := List.pairwise_singleton _ _
  ends := ⟨[], _, rfl, rfl, by simp⟩

/-- The text from a place on is split into orderly tokens, none of which begins before it. -/
theorem tokensFrom_orderly (fuel : Nat) (p : Position) (t : Text) :
    Orderly (tokensFrom fuel p t) ∧
      ∀ u ∈ tokensFrom fuel p t, p.offset ≤ u.span.start.offset := by
  induction fuel generalizing p t with
  | zero => exact ⟨orderly_eof p, by simp [tokensFrom]⟩
  | succ fuel ih =>
    cases t with
    | nil => exact ⟨orderly_eof p, by simp [tokensFrom]⟩
    | cons b rest =>
      obtain ⟨front, hfront⟩ := next_suffix b rest
      have hfitting := next_fitting b rest
      simp only [tokensFrom]
      generalize next b rest = token at hfront hfitting ⊢
      obtain ⟨kind, after⟩ := token
      subst hfront
      dsimp only at hfitting ⊢
      rw [take_length_sub]
      have hstop := after_offset p (b :: front)
      rw [List.length_cons] at hstop
      -- the induction hypothesis places every later token at the stop or after it
      obtain ⟨horderly, hlater⟩ := ih (p.after (b :: front)) after
      refine ⟨⟨?_, ?_, ?_⟩, ?_⟩
      · exact List.forall_mem_cons.2 ⟨hfitting.genuine _, horderly.genuine⟩
      · refine List.pairwise_cons.2 ⟨fun u hu k hk => ?_, horderly.ordered⟩
        have hu' := hlater u hu
        simp only [List.length_cons] at hk
        dsimp only
        omega
      · exact horderly.ends.cons hfitting.ne_eof
      · refine List.forall_mem_cons.2 ⟨Nat.le_refl _, fun u hu => ?_⟩
        have hu' := hlater u hu
        omega

/-- Leaving out blanks and comments keeps tokens orderly. -/
theorem Orderly.filter {tokens : List Token} (h : Orderly tokens) :
    Orderly (tokens.filter (!·.kind.isTrivia)) where
  genuine t ht := h.genuine t (List.mem_of_mem_filter ht)
  ordered := h.ordered.filter _
  ends := by
    obtain ⟨before, last, rfl, hlast, hbefore⟩ := h.ends
    refine ⟨before.filter (!·.kind.isTrivia), last, ?_, hlast, ?_⟩
    · simp [List.filter_append, hlast, TokenKind.isTrivia]
    · exact fun t ht => hbefore t (List.mem_of_mem_filter ht)

/-- The significant tokens of a source. -/
def significant (source : Text) : List Token := (tokens source).filter (!·.kind.isTrivia)

/-- The significant tokens of every source are orderly. -/
theorem significant_orderly (source : Text) : Orderly (significant source) :=
  (tokensFrom_orderly _ _ source).1.filter

/-- What a source says: the kinds and literals of its significant tokens. -/
def wording (source : Text) : List (TokenKind × Text) :=
  (significant source).map fun t => (t.kind, t.literal)

section Layouts

variable {l m : List Token}

/-- Two tokens at the same position of two lists, and how far a byte is from their fronts. -/
def Corresponds (l m : List Token) (a b : Nat) : Prop :=
  ∃ x ∈ l.zip m, ∃ k, k ≤ x.1.literal.length - 1 ∧
    a = x.1.span.start.offset + k ∧ b = x.2.span.start.offset + k

/-- Of two pairs of corresponding tokens one comes before the other in both lists,
or they are the same pair. -/
theorem zip_trichotomy (hl : l.Pairwise Precedes) (hm : m.Pairwise Precedes)
    {x y : Token × Token} (hx : x ∈ l.zip m) (hy : y ∈ l.zip m) :
    x = y ∨ (Precedes x.1 y.1 ∧ Precedes x.2 y.2) ∨ (Precedes y.1 x.1 ∧ Precedes y.2 x.2) := by
  induction l generalizing m with
  | nil => simp at hx
  | cons t l ih =>
    cases m with
    | nil => simp at hx
    | cons u m =>
      obtain ⟨ht, hl⟩ := List.pairwise_cons.1 hl
      obtain ⟨hu, hm⟩ := List.pairwise_cons.1 hm
      rw [List.zip_cons_cons, List.mem_cons] at hx hy
      rcases hx with rfl | hx <;> rcases hy with rfl | hy
      · exact .inl rfl
      · obtain ⟨hy₁, hy₂⟩ := List.of_mem_zip hy
        exact .inr (.inl ⟨ht _ hy₁, hu _ hy₂⟩)
      · obtain ⟨hx₁, hx₂⟩ := List.of_mem_zip hx
        exact .inr (.inr ⟨ht _ hx₁, hu _ hx₂⟩)
      · exact ih hl hm hx hy

/-- Tokens with the same literals pair the places of two texts. -/
def pairing (hl : l.Pairwise Precedes) (hm : m.Pairwise Precedes)
    (hliteral : ∀ x ∈ l.zip m, x.2.literal = x.1.literal) : Pairing where
  pairs := Corresponds l m
  le_iff := by
    rintro a b a' b' ⟨x, hx, k, hk, rfl, rfl⟩ ⟨y, hy, k', hk', rfl, rfl⟩
    have hxl := hliteral x hx
    have hyl := hliteral y hy
    rcases zip_trichotomy hl hm hx hy with rfl | ⟨hfirst, hsecond⟩ | ⟨hfirst, hsecond⟩
    · omega
    · have := hfirst k hk
      have := hsecond k (by rw [hxl]; exact hk)
      omega
    · have := hfirst k' hk'
      have := hsecond k' (by rw [hyl]; exact hk')
      omega

end Layouts

/-- The significant tokens of two sources that say the same are alike, for some pairing
of the places of the sources. -/
theorem exists_pairing_of_wording_eq {source source' : Text}
    (h : wording source = wording source') :
    ∃ r, List.Forall₂ (Token.Alike r) (significant source) (significant source') := by
  have horderly := significant_orderly source
  have horderly' := significant_orderly source'
  have hsame : ∀ x ∈ (significant source).zip (significant source'),
      x.2.kind = x.1.kind ∧ x.2.literal = x.1.literal := by
    have hforall : List.Forall₂ (fun t u : Token => u.kind = t.kind ∧ u.literal = t.literal)
        (significant source) (significant source') := by
      rw [wording, wording, ← List.forall₂_eq_eq_eq, List.forall₂_map_left_iff,
        List.forall₂_map_right_iff] at h
      exact h.imp fun t u htu => ⟨(Prod.ext_iff.1 htu).1.symm, (Prod.ext_iff.1 htu).2.symm⟩
    exact fun x hx => List.forall₂_zip hforall hx
  refine ⟨pairing horderly.ordered horderly'.ordered fun x hx => (hsame x hx).2,
    List.forall₂_iff_zip.2 ⟨?_, ?_⟩⟩
  · simpa [wording] using congrArg List.length h
  · intro t u htu
    obtain ⟨hkind, hliteral⟩ := hsame _ htu
    exact ⟨hkind, hliteral, horderly.genuine t (List.of_mem_zip htu).1,
      fun k hk => ⟨(t, u), htu, k, hk, rfl, rfl⟩⟩

end JavaObjC.Lexeme

namespace JavaObjC.Cursor

open Lexeme

/-- The fronts of two sources with alike tokens are similar. -/
theorem similar_ofTokens {r : Pairing} {source source' : Text}
    (h : List.Forall₂ (Token.Alike r) (significant source) (significant source')) :
    Similar r (ofTokens (tokens source)) (ofTokens (tokens source')) :=
  ⟨.nil, h, .nil, (significant_orderly source).ends, by simp [ofTokens]⟩

/-- The front of a source is similar to itself. -/
theorem similar_same (source : Text) :
    Similar Pairing.same (ofTokens (tokens source)) (ofTokens (tokens source)) :=
  similar_ofTokens (List.forall₂_same.2 fun t ht =>
    ((significant_orderly source).genuine t ht).alike)

theorem quiet_ofTokens (tokens : List Token) : (ofTokens tokens).Quiet := by
  simp [Quiet, ofTokens]

end JavaObjC.Cursor
