import JavaObjC.Proofs.Reading.Likeness
import JavaObjC.Source.Cursor
import Mathlib.Logic.Relation

/-!
# Cursors up to layout

Two relations between cursors. Similar cursors stand between the same tokens
of two sources that differ in layout only, with the end of file still ahead. A
cursor reads on to another one when it moved forward over tokens and did
nothing else to them than to take marks off the front of compound ones. Each
operation on cursors is shown to respect both.
-/

namespace JavaObjC

/-- The kinds of the tokens in front of the end of file. -/
class TokenKind.Inner (kind : TokenKind) : Prop where
  ne_eof : kind ≠ .eof

namespace TokenKind

instance (mark : Symbol) : Inner (.symbol mark) := ⟨TokenKind.noConfusion⟩

instance (word : Keyword) : Inner (.keyword word) := ⟨TokenKind.noConfusion⟩

instance : Inner .identifier := ⟨TokenKind.noConfusion⟩

end TokenKind

namespace Token

/-- One mark is taken off the front of a compound token. -/
def Splits (t u : Token) : Prop :=
  ∃ kind, Parser.remainder? t.kind = some kind ∧ u = Parser.shorten t kind

/-- Any number of marks is taken off the front of a token. -/
def Trims : Token → Token → Prop := Relation.ReflTransGen Splits

/-- A compound token is written with the mark that is taken off and what remains. -/
theorem remainder_spelling {mark : Symbol} {kind : TokenKind}
    (h : Parser.remainder? (.symbol mark) = some kind) :
    ∃ rest, kind = .symbol rest ∧
      (Text.ofString mark.spelling).drop 1 = Text.ofString rest.spelling ∧
      2 ≤ (Text.ofString mark.spelling).length := by
  cases mark <;> simp only [Parser.remainder?, Option.some.injEq, reduceCtorEq] at h <;> subst h <;>
    exact ⟨_, rfl, by decide +kernel, by decide +kernel⟩

/-- Only marks are compound. -/
theorem exists_mark_of_remainder {kind rest : TokenKind}
    (h : Parser.remainder? kind = some rest) : ∃ mark, kind = .symbol mark := by
  cases kind <;> simp_all [Parser.remainder?]

/-- Splitting alike compound tokens leaves alike tokens. -/
theorem Alike.shorten {r : Pairing} {t u : Token} {kind : TokenKind} (h : Alike r t u)
    (hk : Parser.remainder? t.kind = some kind) :
    Alike r (Parser.shorten t kind) (Parser.shorten u kind) := by
  obtain ⟨mark, hmark⟩ := exists_mark_of_remainder hk
  obtain ⟨rest, rfl, hdrop, hlength⟩ := remainder_spelling (hmark ▸ hk)
  have hliteral := h.genuine.spelled mark hmark
  refine ⟨rfl, by simp only [Parser.shorten, h.literal_eq], ⟨?_, ?_, ?_, trivial⟩, ?_⟩
  · rintro other hother
    cases hother
    simp only [Parser.shorten, hliteral, hdrop]
  · intro _ hnil
    have : ((Text.ofString mark.spelling).drop 1).length = 0 := by
      rw [← hliteral]
      exact congrArg List.length hnil
    rw [List.length_drop] at this
    omega
  · intro hfloat
    cases hfloat
  · intro k hkl
    have hplace := h.places (1 + k)
    simp only [Parser.shorten, List.length_drop] at hkl ⊢
    rw [hliteral] at hkl hplace
    have := hplace (by omega)
    simpa only [Nat.add_assoc] using this

end Token

namespace Cursor

/-- The end of file stands at the end of some tokens and nowhere else. -/
def EndsFile (tokens : List Token) : Prop :=
  ∃ before last, tokens = before ++ [last] ∧ last.kind = .eof ∧ ∀ t ∈ before, t.kind ≠ .eof

/-- Cursors between the same tokens of two sources that differ in layout only. -/
structure Similar (r : Pairing) (c d : Cursor) : Prop where
  consumed : List.Forall₂ (Token.Alike r) c.consumed d.consumed
  rest : List.Forall₂ (Token.Alike r) c.rest d.rest
  missing : List.Forall₂ (Problem.Alike r) c.missing d.missing
  /-- The end of file is ahead. -/
  ends : EndsFile c.rest
  /-- The end of file has not been taken. -/
  open_consumed : ∀ t ∈ c.consumed, t.kind ≠ .eof

/-- A cursor moves forward over tokens as they are. -/
structure Takes (c c' : Cursor) : Prop where
  moves : ∃ taken, c'.consumed = taken.reverse ++ c.consumed ∧ c.rest = taken ++ c'.rest
  missing : c.missing <:+ c'.missing
  missteps_eq : c'.missteps = c.missteps

/-- A cursor moves forward. Tokens behind it stay as they are, and tokens ahead
of it at most lose marks from their fronts. -/
structure Reads (c c' : Cursor) : Prop where
  moves : ∃ taken, c'.consumed = taken.reverse ++ c.consumed ∧
    List.Forall₂ Token.Trims c.rest (taken ++ c'.rest)
  missing : c.missing <:+ c'.missing
  raised_le : c.raised ≤ c'.raised

/-- Nothing was found missing, and no tree that was given up has a problem. -/
def Quiet (c : Cursor) : Prop := c.missing = [] ∧ Node.CleanAll c.discarded

/-- Tokens keep what they have lost nothing of. -/
theorem forall₂_trims_refl (tokens : List Token) : List.Forall₂ Token.Trims tokens tokens :=
  List.forall₂_same.2 fun _ _ => Relation.ReflTransGen.refl

/-- Taking marks off twice takes them off. -/
theorem forall₂_trims_trans {l m k : List Token} (h : List.Forall₂ Token.Trims l m)
    (h' : List.Forall₂ Token.Trims m k) : List.Forall₂ Token.Trims l k := by
  induction h generalizing k with
  | nil => exact h'
  | cons hab _ ih =>
    cases h' with
    | cons hbc hrest => exact .cons (hab.trans hbc) (ih hrest)

namespace Takes

/-- A cursor with the same tokens has not moved. -/
theorem of_eq {c c' : Cursor} (hconsumed : c'.consumed = c.consumed) (hrest : c.rest = c'.rest)
    (hmissing : c.missing <:+ c'.missing) (hmissteps : c'.missteps = c.missteps) : c.Takes c' :=
  ⟨⟨[], hconsumed, hrest⟩, hmissing, hmissteps⟩

theorem refl (c : Cursor) : c.Takes c := .of_eq rfl rfl List.suffix_rfl rfl

/-- Tokens taken on two stretches are taken on the whole way. -/
theorem trans {c c' c'' : Cursor} (h : c.Takes c') (h' : c'.Takes c'') : c.Takes c'' := by
  obtain ⟨taken, htaken, hrest⟩ := h.moves
  obtain ⟨more, hmore, hrest'⟩ := h'.moves
  refine ⟨⟨taken ++ more, ?_, ?_⟩, h.missing.trans h'.missing,
    h'.missteps_eq.trans h.missteps_eq⟩
  · rw [hmore, htaken, List.reverse_append, List.append_assoc]
  · rw [List.append_assoc, ← hrest', hrest]

/-- A cursor that moved forward has no more tokens ahead than before. -/
theorem rest_length_le {c c' : Cursor} (h : c.Takes c') : c'.rest.length ≤ c.rest.length := by
  obtain ⟨taken, -, hrest⟩ := h.moves
  rw [hrest, List.length_append]
  exact Nat.le_add_left _ _

end Takes

namespace Reads

/-- A cursor that took tokens as they are has moved forward. -/
theorem of_takes {c c' : Cursor} (h : c.Takes c') (hraised : c.raised ≤ c'.raised) :
    c.Reads c' := by
  obtain ⟨taken, hconsumed, hrest⟩ := h.moves
  exact ⟨⟨taken, hconsumed, by rw [hrest]; exact forall₂_trims_refl _⟩, h.missing, hraised⟩

theorem refl (c : Cursor) : c.Reads c := .of_takes (.refl c) (Nat.le_refl _)

/-- What is read on two stretches is read on the whole way. -/
theorem trans {c c' c'' : Cursor} (h : c.Reads c') (h' : c'.Reads c'') : c.Reads c'' := by
  obtain ⟨taken, htaken, hrest⟩ := h.moves
  obtain ⟨more, hmore, hrest'⟩ := h'.moves
  refine ⟨⟨taken ++ more, ?_, ?_⟩, h.missing.trans h'.missing,
    Nat.le_trans h.raised_le h'.raised_le⟩
  · rw [hmore, htaken, List.reverse_append, List.append_assoc]
  · rw [List.append_assoc]
    exact forall₂_trims_trans hrest (List.rel_append (forall₂_trims_refl taken) hrest')

end Reads

/-- The next token is the first of those ahead. -/
theorem tokenAt_zero_cons {c : Cursor} {t : Token} {rest : List Token} (h : c.rest = t :: rest) :
    c.tokenAt 0 = t := by
  simp [tokenAt, h]

/-- After one more token the tokens ahead are one place nearer. -/
theorem tokenAt_step {c : Cursor} (n : Nat) : c.step.tokenAt n = c.tokenAt (n + 1) := by
  cases h : c.rest with
  | nil => simp [step, tokenAt, h]
  | cons t rest => simp [step, tokenAt, h]

/-- A token that is not the end of file is taken as it is. -/
theorem step_takes {c : Cursor} (hk : (c.tokenAt 0).kind ≠ .eof) : c.Takes c.step := by
  cases h : c.rest with
  | nil => exact absurd (by simp [tokenAt, h]) hk
  | cons t rest =>
    rw [tokenAt_zero_cons h] at hk
    exact ⟨⟨[t], by simp [step, h], by simp [step, h]⟩, by simp [step, h], by simp [step, h, hk]⟩

/-- After a token that is not the end of file there is one less ahead. -/
theorem step_rest_length {c : Cursor} (hk : (c.tokenAt 0).kind ≠ .eof) :
    c.step.rest.length + 1 = c.rest.length := by
  cases h : c.rest with
  | nil => exact absurd (by simp [tokenAt, h]) hk
  | cons t rest => simp [step, h]

/-- A step misses no token. -/
@[simp] theorem step_missing (c : Cursor) : c.step.missing = c.missing := by
  cases h : c.rest <;> simp [step, h]

/-- A step raises no problem. -/
@[simp] theorem step_raised (c : Cursor) : c.step.raised = c.raised := by
  cases h : c.rest <;> simp [step, h]

/-- A step discards no node. -/
@[simp] theorem step_discarded (c : Cursor) : c.step.discarded = c.discarded := by
  cases h : c.rest <;> simp [step, h]

/-- A step reads a token. -/
theorem step_reads (c : Cursor) : c.Reads c.step := by
  cases h : c.rest with
  | nil => exact ⟨⟨[], by simp [step, h], by simp [step, h]⟩, by simp, by simp⟩
  | cons t rest =>
    exact ⟨⟨[t], by simp [step, h], by simpa [step, h] using forall₂_trims_refl (t :: rest)⟩,
      by simp, by simp⟩

theorem step_quiet (c : Cursor) : c.step.Quiet ↔ c.Quiet := by simp [Quiet]

/-- Skipping takes tokens as they are. -/
theorem skipTo_taken (kinds : List TokenKind) (consumed rest : List Token) :
    ∃ taken, (skipTo kinds consumed rest).1 = taken.reverse ++ consumed ∧
      rest = taken ++ (skipTo kinds consumed rest).2 := by
  induction rest generalizing consumed with
  | nil => exact ⟨[], rfl, rfl⟩
  | cons t rest ih =>
    rw [skipTo]
    split
    · exact ⟨[], rfl, rfl⟩
    · obtain ⟨taken, hconsumed, hrest⟩ := ih (t :: consumed)
      exact ⟨t :: taken, by simp [hconsumed], by simp [← hrest]⟩

/-- Resuming after a problem takes tokens as they are. -/
theorem recover_takes (c : Cursor) (kinds : List TokenKind) : c.Takes (c.recover kinds) := by
  have hdropped : c.Takes (if (c.tokenAt 0).kind = .eof then c else c.step) := by
    split
    · exact .refl c
    · exact step_takes ‹_›
  cases kinds with
  | nil => exact hdropped
  | cons kind kinds =>
    have hskipped := skipTo_taken (kind :: kinds)
      (if (c.tokenAt 0).kind = .eof then c else c.step).consumed
      (if (c.tokenAt 0).kind = .eof then c else c.step).rest
    exact hdropped.trans ⟨hskipped, List.suffix_rfl, rfl⟩

/-- Unreading moves a number of tokens back, the nearest first. -/
theorem unread_append (back consumed rest : List Token) :
    unread back.length (back ++ consumed) rest = (consumed, back.reverse ++ rest) := by
  induction back generalizing rest with
  | nil => rfl
  | cons t back ih => simpa [unread] using ih (t :: rest)

/-- A cursor that went forward comes back to where it was, with the tokens as they
have become on the way. -/
theorem goBack_eq {c c' : Cursor} {taken : List Token}
    (htaken : c'.consumed = taken.reverse ++ c.consumed) (hmissing : c.missing <:+ c'.missing) :
    c'.goBack c = { c with rest := taken ++ c'.rest, missteps := c'.missteps } := by
  have hcount : c'.consumed.length - c.consumed.length = taken.length := by
    rw [htaken, List.length_append, List.length_reverse]
    omega
  have hunread := unread_append taken.reverse c.consumed c'.rest
  rw [← htaken, List.length_reverse, List.reverse_reverse, ← hcount] at hunread
  simp only [goBack, rewind, hunread, ← List.suffix_iff_eq_drop.1 hmissing]

/-- A cursor that took tokens as they are comes back unchanged. -/
theorem Takes.goBack {c c' : Cursor} (h : c.Takes c') : c'.goBack c = c := by
  obtain ⟨taken, htaken, hrest⟩ := h.moves
  rw [goBack_eq htaken h.missing, ← hrest, h.missteps_eq]

namespace EndsFile

variable {t : Token} {tokens rest : List Token}

theorem ne_nil (h : EndsFile tokens) : tokens ≠ [] := by
  obtain ⟨before, last, rfl, -, -⟩ := h
  simp

/-- A token that is not the end of file is followed by it. -/
theorem tail (h : EndsFile (t :: rest)) (ht : t.kind ≠ .eof) : EndsFile rest := by
  obtain ⟨before, last, heq, hlast, hbefore⟩ := h
  cases before with
  | nil =>
    cases heq
    exact absurd hlast ht
  | cons u before =>
    cases heq
    exact ⟨before, last, rfl, hlast, fun v hv => hbefore v (List.mem_cons_of_mem _ hv)⟩

/-- A token before the end of a file. -/
theorem cons (h : EndsFile rest) (ht : t.kind ≠ .eof) : EndsFile (t :: rest) := by
  obtain ⟨before, last, rfl, hlast, hbefore⟩ := h
  exact ⟨t :: before, last, rfl, hlast, by simpa using ⟨ht, hbefore⟩⟩

/-- A first token that is not the end of file can be replaced by another such. -/
theorem replace {u : Token} (h : EndsFile (t :: rest)) (ht : t.kind ≠ .eof)
    (hu : u.kind ≠ .eof) : EndsFile (u :: rest) := (h.tail ht).cons hu

end EndsFile

namespace Similar

variable {r : Pairing} {c d : Cursor}

/-- Tokens at the same place ahead have the same kind. -/
theorem kind_eq (h : Similar r c d) (n : Nat) : (d.tokenAt n).kind = (c.tokenAt n).kind := by
  have hget : ∀ {l m : List Token}, List.Forall₂ (Token.Alike r) l m → ∀ n : Nat,
      ((m[n]?).getD ⟨.eof, {}, []⟩).kind = ((l[n]?).getD ⟨.eof, {}, []⟩).kind := by
    intro l m hlm
    induction hlm with
    | nil => simp
    | cons hab _ ih =>
      intro n
      cases n with
      | zero => simpa using hab.kind_eq
      | succ n => simpa using ih n
  exact hget h.rest n

/-- The next tokens are alike. -/
theorem head (h : Similar r c d) : Token.Alike r (c.tokenAt 0) (d.tokenAt 0) := by
  have hne := h.ends.ne_nil
  have hrest := h.rest
  cases hc : c.rest with
  | nil => exact absurd hc hne
  | cons t rest =>
    rw [hc] at hrest
    cases hd : d.rest with
    | nil =>
      rw [hd] at hrest
      cases hrest
    | cons u rest' =>
      rw [hd] at hrest
      cases hrest with
      | cons htu _ =>
        rw [tokenAt_zero_cons hc, tokenAt_zero_cons hd]
        exact htu

/-- A missing token is known at both cursors or at none. -/
theorem isReported_eq (h : Similar r c d) : d.isReported = c.isReported := by
  have hmissing := h.missing
  unfold isReported
  cases hc : c.missing with
  | nil =>
    rw [hc, List.forall₂_nil_left_iff] at hmissing
    rw [hmissing]
    rfl
  | cons p more =>
    rw [hc, List.forall₂_cons_left_iff] at hmissing
    obtain ⟨q, more', hp, -, hd⟩ := hmissing
    have heq := r.eq_iff hp.start h.head.start
    rw [hd]
    simpa [Bool.beq_eq_decide_eq] using heq.symm

theorem rest_length_eq (h : Similar r c d) : d.rest.length = c.rest.length :=
  h.rest.length_eq.symm

/-- Both cursors take a token that is not the end of file. -/
theorem step (h : Similar r c d) (hk : (c.tokenAt 0).kind ≠ .eof) :
    Similar r c.step d.step := by
  obtain ⟨consumed, rest, missing, ends, hopen⟩ := h
  obtain ⟨cc, cr, cm, craised, cdiscarded, cmissteps⟩ := c
  obtain ⟨dc, dr, dm, draised, ddiscarded, dmissteps⟩ := d
  cases rest with
  | nil => exact absurd rfl ends.ne_nil
  | cons htu hrest =>
    simp only [tokenAt, List.getElem?_cons_zero, Option.getD_some] at hk
    exact ⟨.cons htu consumed, hrest, missing, ends.tail hk,
      by simpa [Cursor.step] using ⟨hk, hopen⟩⟩

/-- Similar cursors that unread the same number of tokens stay similar. -/
theorem rewind (h : Similar r c d) (n : Nat) : Similar r (c.rewind n) (d.rewind n) := by
  have hunread : ∀ k {cc cr dc dr : List Token}, List.Forall₂ (Token.Alike r) cc dc →
      List.Forall₂ (Token.Alike r) cr dr → EndsFile cr → (∀ t ∈ cc, t.kind ≠ .eof) →
      List.Forall₂ (Token.Alike r) (unread k cc cr).1 (unread k dc dr).1 ∧
      List.Forall₂ (Token.Alike r) (unread k cc cr).2 (unread k dc dr).2 ∧
      EndsFile (unread k cc cr).2 ∧ ∀ t ∈ (unread k cc cr).1, t.kind ≠ .eof := by
    intro k
    induction k with
    | zero => exact fun hcc hcr hends hopen => ⟨hcc, hcr, hends, hopen⟩
    | succ k ih =>
      intro cc cr dc dr hcc hcr hends hopen
      cases hcc with
      | nil => exact ⟨.nil, hcr, hends, hopen⟩
      | cons htu hrest =>
        rw [List.forall_mem_cons] at hopen
        exact ih hrest (.cons htu hcr) (hends.cons hopen.1) hopen.2
  have hlength := h.consumed.length_eq
  obtain ⟨hconsumed, hrest, hends, hopen⟩ :=
    hunread (c.consumed.length - n) h.consumed h.rest h.ends h.open_consumed
  rw [hlength] at hconsumed hrest
  refine ⟨?_, ?_, h.missing, ?_, ?_⟩
  · simpa only [Cursor.rewind, hlength] using hconsumed
  · simpa only [Cursor.rewind, hlength] using hrest
  · simpa only [Cursor.rewind] using hends
  · simpa only [Cursor.rewind] using hopen

/-- Both cursors go back to places they were at before. -/
theorem goBack {saved saved' : Cursor} (h : Similar r c d) (hsaved : Similar r saved saved') :
    Similar r (c.goBack saved) (d.goBack saved') := by
  have hback := h.rewind saved.consumed.length
  nth_rewrite 2 [hsaved.consumed.length_eq] at hback
  refine ⟨hback.consumed, hback.rest, ?_, hback.ends, hback.open_consumed⟩
  simp only [Cursor.goBack, h.missing.length_eq, hsaved.missing.length_eq]
  exact List.forall₂_drop _ h.missing

/-- What was found missing may change together. -/
theorem with_missing (h : Similar r c d) {missing missing' : List Problem}
    (hmissing : List.Forall₂ (Problem.Alike r) missing missing') {n n' k k' : Nat}
    {discarded discarded' : List Node} :
    Similar r ⟨c.consumed, c.rest, missing, n, discarded, k⟩
      ⟨d.consumed, d.rest, missing', n', discarded', k'⟩ :=
  ⟨h.consumed, h.rest, hmissing, h.ends, h.open_consumed⟩

/-- Skipping tokens keeps similar tokens similar. -/
theorem skipTo (kinds : List TokenKind) {consumed consumed' rest rest' : List Token}
    (hconsumed : List.Forall₂ (Token.Alike r) consumed consumed')
    (hrest : List.Forall₂ (Token.Alike r) rest rest') (hends : EndsFile rest)
    (hopen : ∀ t ∈ consumed, t.kind ≠ .eof) :
    List.Forall₂ (Token.Alike r) (skipTo kinds consumed rest).1 (skipTo kinds consumed' rest').1 ∧
      List.Forall₂ (Token.Alike r) (skipTo kinds consumed rest).2
        (skipTo kinds consumed' rest').2 ∧
      EndsFile (skipTo kinds consumed rest).2 ∧
      ∀ t ∈ (skipTo kinds consumed rest).1, t.kind ≠ .eof := by
  induction hrest generalizing consumed consumed' with
  | nil => exact absurd rfl hends.ne_nil
  | @cons t u rest rest' htu hrest ih =>
    rw [Cursor.skipTo, Cursor.skipTo, htu.kind_eq]
    by_cases hstop : t.kind = .eof ∨ t.kind ∈ kinds
    · rw [if_pos hstop, if_pos hstop]
      exact ⟨hconsumed, .cons htu hrest, hends, hopen⟩
    · rw [if_neg hstop, if_neg hstop]
      have hk : t.kind ≠ .eof := fun h => hstop (.inl h)
      exact ih (.cons htu hconsumed) (hends.tail hk) (by simpa using ⟨hk, hopen⟩)

/-- Both cursors resume at the same token. -/
theorem recover (h : Similar r c d) (kinds : List TokenKind) :
    Similar r (c.recover kinds) (d.recover kinds) := by
  have hdropped : Similar r (if (c.tokenAt 0).kind = .eof then c else c.step)
      (if (d.tokenAt 0).kind = .eof then d else d.step) := by
    rw [h.kind_eq]
    split
    · exact h
    · exact h.step ‹_›
  cases kinds with
  | nil => exact hdropped
  | cons kind kinds =>
    obtain ⟨hconsumed, hrest, hends, hopen⟩ := skipTo (kind :: kinds) hdropped.consumed
      hdropped.rest hdropped.ends hdropped.open_consumed
    exact ⟨hconsumed, hrest, hdropped.missing, hends, hopen⟩

end Similar

end Cursor

end JavaObjC
