import JavaObjC.Proofs.Lexemes
import Mathlib.Data.List.Chain

/-!
# Where the tokens of a source stand

A text is laid out as tokens when their literals make it up from its first
byte to its last, each token begins where the one before it ends, and the end
of file stands at the end. The main statement says that every source is laid
out as its tokens, and that the places of their spans are exact: the line
counts the newlines before a place, the column the bytes since the last one.
-/

namespace JavaObjC

/-- The place at the end of a text: its bytes, its newlines, and the bytes since the last
newline. -/
def Position.atEnd (t : Text) : Position :=
  ⟨t.length, 1 + t.count 10, 1 + (t.reverse.takeWhile (· != 10)).length⟩

/-- A place as counting the bytes of a source up to it gives it. -/
def Position.Exact (source : Text) (p : Position) : Prop :=
  p.offset ≤ source.length ∧ p = .atEnd (source.take p.offset)

/-- The end of a text is an exact place in every source that begins with it. -/
theorem Position.exact_atEnd (front rest : Text) : (atEnd front).Exact (front ++ rest) := by
  refine ⟨by simp [atEnd], ?_⟩
  change atEnd front = atEnd ((front ++ rest).take front.length)
  rw [List.take_left]

namespace Lexeme

theorem after_append (p : Position) (s t : Text) : p.after (s ++ t) = (p.after s).after t :=
  List.foldl_append

/-- Counting byte by byte from the front gives the place at the end of a text. -/
theorem after_start (t : Text) : Position.start.after t = .atEnd t := by
  induction t using List.reverseRecOn with
  | nil => rfl
  | append_singleton t b ih =>
    rw [after_append, ih]
    change (Position.atEnd t).step b = _
    unfold Position.step
    by_cases hb : b = 10
    · simp [Position.atEnd, hb, Nat.add_assoc]
    · have hcount : List.count 10 [b] = 0 := by simp [hb]
      simp [Position.atEnd, hb, hcount, Nat.add_comm]

/-- A text from a place on, laid out as tokens. -/
inductive LaidOut : Position → Text → List Token → Prop where
  /-- Nothing is left but the end of file. -/
  | eof (p : Position) : LaidOut p [] [⟨.eof, ⟨p, p⟩, []⟩]
  /-- A token and what follows it. -/
  | token {kind : TokenKind} {p : Position} {literal rest : Text} {later : List Token}
    (hkind : kind ≠ .eof) (hliteral : literal ≠ []) (hlater : LaidOut (p.after literal) rest later) :
    LaidOut p (literal ++ rest) (⟨kind, ⟨p, p.after literal⟩, literal⟩ :: later)

/-- A text is laid out as the tokens it is split into when there are enough of them. -/
theorem tokensFrom_laidOut {fuel : Nat} {t : Text} (p : Position) (h : t.length ≤ fuel) :
    LaidOut p t (tokensFrom fuel p t) := by
  induction fuel generalizing p t with
  | zero =>
    obtain rfl := List.length_eq_zero_iff.1 (Nat.le_zero.1 h)
    exact .eof p
  | succ fuel ih =>
    cases t with
    | nil => exact .eof p
    | cons b rest =>
      obtain ⟨front, hfront⟩ := next_suffix b rest
      have hkind := (next_fitting b rest).ne_eof
      simp only [tokensFrom]
      generalize next b rest = token at hfront hkind ⊢
      obtain ⟨kind, after⟩ := token
      subst hfront
      dsimp only at hkind ⊢
      rw [take_length_sub]
      have hlength : after.length ≤ fuel := by
        simp only [List.length_cons, List.length_append] at h
        omega
      have hlater := ih (p.after (b :: front)) hlength
      exact .token hkind (List.cons_ne_nil b front) hlater

/-- Room for more tokens than a text has bytes changes nothing. -/
theorem tokensFrom_eq {fuel fuel' : Nat} {t : Text} (p : Position) (h : t.length ≤ fuel)
    (h' : t.length ≤ fuel') : tokensFrom fuel p t = tokensFrom fuel' p t := by
  induction fuel generalizing fuel' p t with
  | zero =>
    obtain rfl := List.length_eq_zero_iff.1 (Nat.le_zero.1 h)
    cases fuel' <;> rfl
  | succ fuel ih =>
    cases t with
    | nil => cases fuel' <;> rfl
    | cons b rest =>
      cases fuel' with
      | zero => simp at h'
      | succ fuel' =>
        have hafter := (next_suffix b rest).length_le
        rw [List.length_cons] at h h'
        simp only [tokensFrom]
        have hlater : ∀ p, tokensFrom fuel p (next b rest).2 = tokensFrom fuel' p (next b rest).2 :=
          fun p => ih p (by omega) (by omega)
        rw [hlater]

namespace LaidOut

variable {p : Position} {t : Text} {tokens : List Token}

/-- The tokens before the end of file, and the end of file. -/
theorem ends (h : LaidOut p t tokens) : ∃ before last, tokens = before ++ [last] ∧
    last.kind = .eof ∧ last.literal = [] ∧ last.span.start.offset = p.offset + t.length ∧
    last.span.stop.offset = p.offset + t.length ∧
    (∀ u ∈ before, u.kind ≠ .eof ∧ u.literal ≠ []) ∧ before.flatMap Token.literal = t := by
  induction h with
  | eof p => exact ⟨[], _, rfl, rfl, rfl, rfl, rfl, by simp, rfl⟩
  | @token kind p literal rest later hkind hliteral _ ih =>
    obtain ⟨before, last, rfl, hlast, hnil, hstart, hstop, hbefore, htext⟩ := ih
    rw [after_offset] at hstart hstop
    refine ⟨_ :: before, last, rfl, hlast, hnil, ?_, ?_, ?_, ?_⟩
    · rw [hstart, List.length_append, Nat.add_assoc]
    · rw [hstop, List.length_append, Nat.add_assoc]
    · exact List.forall_mem_cons.2 ⟨⟨hkind, hliteral⟩, hbefore⟩
    · rw [List.flatMap_cons, htext]

/-- The first token begins at the place, and each further one where the one before it ends. -/
theorem touching (h : LaidOut p t tokens) :
    tokens.head?.map (·.span.start) = some p ∧
      tokens.IsChain fun u v => v.span.start = u.span.stop := by
  induction h with
  | eof p => exact ⟨rfl, .singleton _⟩
  | token _ _ _ ih =>
    refine ⟨rfl, List.isChain_cons.2 ⟨fun v hv => ?_, ih.2⟩⟩
    have hhead := ih.1
    rw [Option.mem_def.1 hv] at hhead
    exact Option.some.inj hhead

/-- Every token stands between exact places and is the text between them. -/
theorem exact (h : LaidOut p t tokens) (front : Text) (hp : p = .atEnd front) :
    ∀ u ∈ tokens, u.span.start.Exact (front ++ t) ∧ u.span.stop.Exact (front ++ t) ∧
      u.literal = ((front ++ t).take u.span.stop.offset).drop u.span.start.offset := by
  induction h generalizing front with
  | eof p =>
    subst hp
    have hplace := Position.exact_atEnd front []
    simpa [Position.atEnd] using hplace
  | @token kind p literal rest later _ _ _ ih =>
    subst hp
    have hstop : (Position.atEnd front).after literal = .atEnd (front ++ literal) := by
      rw [← after_start, ← after_start, after_append]
    have hlater := ih _ hstop
    rw [List.append_assoc] at hlater
    refine List.forall_mem_cons.2 ⟨⟨Position.exact_atEnd front _, ?_, ?_⟩, hlater⟩
    · have hplace := Position.exact_atEnd (front ++ literal) rest
      rwa [List.append_assoc, ← hstop] at hplace
    · have htake : (front ++ (literal ++ rest)).take (front ++ literal).length = front ++ literal := by
        rw [← List.append_assoc, List.take_left]
      simp only [hstop]
      change literal = List.drop front.length (List.take (front ++ literal).length _)
      rw [htake, List.drop_left]

end LaidOut

/-- Every source is split into its tokens without loss, and their places are exact. Splitting
ends by itself: room for more tokens changes nothing. The end of file comes last and stands at
the end; every other token has bytes, and these are the bytes of its span. The spans touch from
the front of the source on, so that the literals make up the source. -/
theorem tokens_lossless (source : Text) :
    (∀ fuel, source.length ≤ fuel → tokensFrom fuel Position.start source = tokens source) ∧
      (∃ before last, tokens source = before ++ [last] ∧ last.kind = .eof ∧ last.literal = [] ∧
        last.span.start.offset = source.length ∧ last.span.stop.offset = source.length ∧
        (∀ t ∈ before, t.kind ≠ .eof ∧ t.literal ≠ []) ∧
        before.flatMap Token.literal = source) ∧
      (tokens source).head?.map (·.span.start) = some Position.start ∧
      (tokens source).IsChain (fun t u => u.span.start = t.span.stop) ∧
      ∀ t ∈ tokens source, t.span.start.Exact source ∧ t.span.stop.Exact source ∧
        t.literal = (source.take t.span.stop.offset).drop t.span.start.offset := by
  have hlayout : LaidOut Position.start source (tokens source) :=
    tokensFrom_laidOut Position.start (Nat.le_refl _)
  refine ⟨fun fuel hfuel => tokensFrom_eq _ hfuel (Nat.le_refl _), ?_, hlayout.touching.1,
    hlayout.touching.2, hlayout.exact [] rfl⟩
  simpa [Position.start] using hlayout.ends

-- two lines with a zero byte, a quote that is not closed and a byte of no character in them
example :
    (tokens [97, 0, 10, 39, 255]).map (fun t => (t.literal, t.span.start)) =
      [([97], ⟨0, 1, 1⟩), ([0], ⟨1, 1, 2⟩), ([10], ⟨2, 1, 3⟩), ([39, 255], ⟨3, 2, 1⟩),
        ([], ⟨5, 2, 3⟩)] := by
  decide +kernel

end Lexeme

end JavaObjC
