import JavaObjC.Proofs.Lexemes

/-!
# Missing tokens in order

A cursor is in order when the tokens ahead follow each other in the source, the
missing tokens were recorded from front to back, and none of them stands behind
a token ahead. Reading on keeps this, also where marks are taken off compound
tokens, and so does recording that the next token is missing, because a second
record for one place is not made.
-/

namespace JavaObjC

namespace Token

/-- Taking a mark off a compound token moves its front and nothing else. -/
theorem Splits.keeps {t u : Token} (h : Splits t u) (ht : t.Genuine) :
    u.Genuine ∧ t.span.start.offset ≤ u.span.start.offset ∧
      ∀ v, Lexeme.Precedes t v → Lexeme.Precedes u v := by
  obtain ⟨kind, hkind, rfl⟩ := h
  obtain ⟨mark, hmark⟩ := exists_mark_of_remainder hkind
  obtain ⟨rest, -, -, hlength⟩ := remainder_spelling (hmark ▸ hkind)
  have hliteral := ht.spelled mark hmark
  refine ⟨(ht.alike.shorten hkind).genuine, Nat.le_succ _, fun v hv k hk => ?_⟩
  simp only [Parser.shorten, List.length_drop] at hk ⊢
  have hfront := hv (k + 1) (by rw [hliteral] at hk ⊢; omega)
  omega

/-- Taking marks off a compound token moves its front and nothing else. -/
theorem Trims.keeps {t u : Token} (h : Trims t u) (ht : t.Genuine) :
    u.Genuine ∧ t.span.start.offset ≤ u.span.start.offset ∧
      ∀ v, Lexeme.Precedes t v → Lexeme.Precedes u v := by
  induction h with
  | refl => exact ⟨ht, Nat.le_refl _, fun _ => id⟩
  | tail _ hsplit ih =>
    obtain ⟨hgenuine, hle, hprecedes⟩ := ih
    obtain ⟨hgenuine', hle', hprecedes'⟩ := hsplit.keeps hgenuine
    exact ⟨hgenuine', hle.trans hle', fun v hv => hprecedes' v (hprecedes v hv)⟩

/-- Tokens in order stay in order when marks are taken off some of them. -/
theorem precedes_of_trims {l m : List Token} (h : List.Forall₂ Trims l m)
    (hl : ∀ t ∈ l, t.Genuine) (hordered : l.Pairwise Lexeme.Precedes) :
    (∀ u ∈ m, u.Genuine) ∧ m.Pairwise Lexeme.Precedes ∧
      ∀ u ∈ m, ∃ t ∈ l, t.span.start.offset ≤ u.span.start.offset ∧
        ∀ v, Lexeme.Precedes v t → Lexeme.Precedes v u := by
  induction h with
  | nil => simp
  | @cons t u l m htu _ ih =>
    obtain ⟨ht, hl⟩ := List.forall_mem_cons.1 hl
    obtain ⟨hfirst, hordered⟩ := List.pairwise_cons.1 hordered
    obtain ⟨hm, hmordered, hstart⟩ := ih hl hordered
    obtain ⟨hu, hle, hprecedes⟩ := htu.keeps ht
    have hlater : ∀ v, Lexeme.Precedes v t → Lexeme.Precedes v u := fun v hv k hk =>
      Nat.lt_of_lt_of_le (hv k hk) hle
    refine ⟨List.forall_mem_cons.2 ⟨hu, hm⟩, List.pairwise_cons.2 ⟨fun w hw => ?_, hmordered⟩, ?_⟩
    · obtain ⟨v, hv, -, hbehind⟩ := hstart w hw
      exact hbehind u (hprecedes v (hfirst v hv))
    · refine List.forall_mem_cons.2 ⟨⟨t, List.mem_cons_self, hle, hlater⟩, fun w hw => ?_⟩
      obtain ⟨v, hv, hw⟩ := hstart w hw
      exact ⟨v, List.mem_cons_of_mem _ hv, hw⟩

end Token

namespace Cursor

/-- The tokens ahead follow each other, and so do the missing tokens, the latest of which is
not behind any token ahead. -/
structure InOrder (c : Cursor) : Prop where
  genuine : ∀ t ∈ c.rest, t.Genuine
  ordered : c.rest.Pairwise Lexeme.Precedes
  descending : c.missing.Pairwise fun p q => q.span.start.offset < p.span.start.offset
  passed : ∀ p ∈ c.missing, ∀ t ∈ c.rest, p.span.start.offset ≤ t.span.start.offset

namespace InOrder

/-- Reading on without a further missing token keeps the order. -/
theorem of_reads {c c' : Cursor} (h : c.InOrder) (hreads : c.Reads c')
    (hmissing : c'.missing = c.missing) : c'.InOrder := by
  obtain ⟨taken, -, htrims⟩ := hreads.moves
  obtain ⟨hgenuine, hordered, hstart⟩ := Token.precedes_of_trims htrims h.genuine h.ordered
  refine ⟨fun t ht => hgenuine t (List.mem_append_right _ ht),
    (List.pairwise_append.1 hordered).2.1, by rw [hmissing]; exact h.descending, ?_⟩
  intro p hp u hu
  obtain ⟨t, ht, hle, -⟩ := hstart u (List.mem_append_right _ hu)
  exact (h.passed p (hmissing ▸ hp) t ht).trans hle

/-- Where tokens follow each other, none of those ahead begins before the next one. -/
theorem tokenAt_le {c : Cursor} (h : c.InOrder) {t : Token} (ht : t ∈ c.rest) :
    (c.tokenAt 0).span.start.offset ≤ t.span.start.offset := by
  have hordered := h.ordered
  cases hrest : c.rest with
  | nil =>
    rw [hrest] at ht
    cases ht
  | cons u rest =>
    rw [hrest] at ht hordered
    rw [tokenAt_zero_cons hrest]
    rcases List.mem_cons.1 ht with rfl | ht
    · exact Nat.le_refl _
    · exact Nat.le_of_lt ((List.pairwise_cons.1 hordered).1 t ht 0 (Nat.zero_le _))

/-- A record for the next token comes after all others, unless the last one is for the same
place and no record is made. -/
theorem expected {c : Cursor} (h : c.InOrder) (hne : c.rest ≠ []) (kinds : List TokenKind) :
    ((Parser.expected kinds).run c).2.InOrder := by
  have hhead : c.tokenAt 0 ∈ c.rest := by
    obtain ⟨t, rest, hrest⟩ := List.exists_cons_of_ne_nil hne
    rw [tokenAt_zero_cons hrest, hrest]
    exact List.mem_cons_self
  by_cases hreported : c.isReported = true
  · have hmissing : ((Parser.expected kinds).run c).2.missing = c.missing := if_pos hreported
    exact ⟨h.genuine, h.ordered, by rw [hmissing]; exact h.descending,
      by rw [hmissing]; exact h.passed⟩
  · obtain ⟨p, hp, hmissing⟩ : ∃ p : Problem, p.span = (c.tokenAt 0).span ∧
        ((Parser.expected kinds).run c).2.missing = p :: c.missing :=
      ⟨_, rfl, if_neg hreported⟩
    -- only the latest record is compared with the next token; the others are before it
    have hlast : ∀ q ∈ c.missing, q.span.start.offset < (c.tokenAt 0).span.start.offset := by
      intro q hq
      have hdescending := h.descending
      have hpassed := h.passed q hq _ hhead
      rw [isReported] at hreported
      cases hlist : c.missing with
      | nil =>
        rw [hlist] at hq
        cases hq
      | cons latest more =>
        have hle := h.passed latest (by rw [hlist]; exact List.mem_cons_self) _ hhead
        rw [hlist] at hq hdescending hreported
        have hne : latest.span.start.offset ≠ (c.tokenAt 0).span.start.offset := by
          simpa using hreported
        rcases List.mem_cons.1 hq with rfl | hq
        · omega
        · have := (List.pairwise_cons.1 hdescending).1 q hq
          omega
    refine ⟨h.genuine, h.ordered, ?_, ?_⟩
    · rw [hmissing]
      exact List.pairwise_cons.2 ⟨fun q hq => by rw [hp]; exact hlast q hq, h.descending⟩
    · rw [hmissing]
      refine List.forall_mem_cons.2 ⟨fun t ht => ?_, h.passed⟩
      rw [hp]
      exact h.tokenAt_le ht

end InOrder

/-- The front of a source is in order. -/
theorem inOrder_ofTokens (source : Text) : (ofTokens (Lexeme.tokens source)).InOrder where
  genuine := (Lexeme.significant_orderly source).genuine
  ordered := (Lexeme.significant_orderly source).ordered
  descending := .nil
  passed := nofun

end Cursor

end JavaObjC
