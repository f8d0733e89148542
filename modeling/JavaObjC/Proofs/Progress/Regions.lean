import JavaObjC.Proofs.Progress.Order

/-!
# Cursors inside a region

A region says which places of a source a tree may name and which tokens may
stand at those places. A cursor is inside a region when all its tokens,
missing tokens and discarded trees are, the end of file is ahead of it and no
end of file is behind it. A cursor leads to another one inside the region when
it moved forward without taking the end of file and kept the tokens ahead and
the missing ones in order. Every operation on cursors is shown to lead from
inside the region to inside the region.
-/

namespace JavaObjC

/-- Places, and tokens that begin and end at such places and still do so when a mark is
taken off their front. -/
structure Region where
  place : Position → Prop
  token : Token → Prop
  start : ∀ {t}, token t → place t.span.start
  stop : ∀ {t}, token t → place t.span.stop
  shorten : ∀ {t kind}, token t → Parser.remainder? t.kind = some kind →
    token (Parser.shorten t kind)

namespace Region

/-- The region of all places. -/
def everywhere : Region where
  place _ := True
  token _ := True
  start _ := trivial
  stop _ := trivial
  shorten _ _ := trivial

/-- A span between two places of the region. -/
def Placed (R : Region) (span : Span) : Prop := R.place span.start ∧ R.place span.stop

/-- The span of a token of the region is placed in it. -/
theorem placed_of_token {R : Region} {t : Token} (h : R.token t) : R.Placed t.span :=
  ⟨R.start h, R.stop h⟩

end Region

namespace Node

/-- Every node of a tree has its span in the region, and every name its token. -/
def Within (R : Region) (n : Node) : Prop :=
  ∀ m ∈ n.walk, R.Placed m.span ∧ (m.kind = .identifier → ∀ t ∈ m.token, R.token t)

/-- Every node of several trees has its span in the region, and every name its token. -/
def WithinAll (R : Region) (nodes : List Node) : Prop := ∀ n ∈ nodes, n.Within R

variable {R : Region}

@[simp] theorem withinAll_nil : WithinAll R [] := by simp [WithinAll]

/-- Nodes are within a region when the first one and the others are. -/
@[simp] theorem withinAll_cons {n : Node} {nodes : List Node} :
    WithinAll R (n :: nodes) ↔ n.Within R ∧ WithinAll R nodes := List.forall_mem_cons

/-- Nodes in a row are within a region when both parts are. -/
@[simp] theorem withinAll_append {nodes more : List Node} :
    WithinAll R (nodes ++ more) ↔ WithinAll R nodes ∧ WithinAll R more := List.forall_mem_append

/-- A tree is within a region when its root is placed there and its children are within. -/
theorem within_iff (n : Node) : n.Within R ↔
    (R.Placed n.span ∧ (n.kind = .identifier → ∀ t ∈ n.token, R.token t)) ∧
      WithinAll R n.children := by
  obtain ⟨kind, span, token, problem, children⟩ := n
  simp only [Within, WithinAll, walk, walkAll_eq_flatMap, List.mem_cons, List.mem_flatMap,
    forall_eq_or_imp, forall_exists_index, and_imp]
  exact and_congr_right fun _ => ⟨fun h n hn m hm => h m n hn hm, fun h m n hn hm => h n hn m hm⟩

/-- A node is within a region when its span, its token and its children are. -/
theorem within_mk {kind : NodeKind} {span : Span} {token : Option Token} {children : List Node}
    (hspan : R.Placed span) (htoken : kind = .identifier → ∀ t ∈ token, R.token t)
    (hchildren : WithinAll R children) : Within R ⟨kind, span, token, none, children⟩ :=
  (within_iff _).2 ⟨⟨hspan, htoken⟩, hchildren⟩

theorem Within.span {n : Node} (h : n.Within R) : R.Placed n.span := ((within_iff n).1 h).1.1

theorem Within.start {n : Node} (h : n.Within R) : R.place n.span.start := h.span.1

/-- The leaf of a token of the region is within it. -/
theorem within_ofToken {kind : NodeKind} {t : Token} (h : R.token t) :
    (ofToken kind t).Within R :=
  (within_iff _).2 ⟨⟨Region.placed_of_token h, fun _ _ hu => Option.some.inj hu ▸ h⟩, withinAll_nil⟩

/-- A problem that is placed in a region is within it. -/
theorem within_ofProblem {p : Problem} (h : R.Placed p.span) : (ofProblem p).Within R :=
  (within_iff _).2 ⟨⟨h, nofun⟩, withinAll_nil⟩

/-- A tree that ends at another place of the region. -/
theorem Within.with_stop {n : Node} (h : n.Within R) {stop : Position} (hstop : R.place stop) :
    { n with span := ⟨n.span.start, stop⟩ }.Within R := by
  have hn := (within_iff n).1 h
  rw [within_iff]
  exact ⟨⟨⟨hn.1.1.1, hstop⟩, hn.1.2⟩, hn.2⟩

end Node

namespace Cursor

/-- All that a cursor holds is in the region, and the end of file is ahead of it. -/
structure Within (R : Region) (c : Cursor) : Prop where
  consumed : ∀ t ∈ c.consumed, R.token t
  rest : ∀ t ∈ c.rest, R.token t
  missing : ∀ p ∈ c.missing, R.Placed p.span
  discarded : Node.WithinAll R c.discarded
  ends : EndsFile c.rest
  open_consumed : ∀ t ∈ c.consumed, t.kind ≠ .eof

/-- A cursor moves forward inside the region without taking the end of file, and in order. -/
structure Leads (R : Region) (c c' : Cursor) : Prop where
  reads : c.Reads c'
  within : c'.Within R
  missteps_eq : c'.missteps = c.missteps
  inOrder : c.InOrder → c'.InOrder

namespace Reads

/-- Reading on does not add tokens. -/
theorem rest_length_le {c c' : Cursor} (h : c.Reads c') : c'.rest.length ≤ c.rest.length := by
  obtain ⟨taken, -, hrest⟩ := h.moves
  have hlength := hrest.length_eq
  rw [List.length_append] at hlength
  omega

end Reads

namespace Leads

variable {R : Region} {c c' c'' : Cursor}

theorem refl (h : c.Within R) : c.Leads R c := ⟨.refl c, h, rfl, id⟩

/-- A cursor leads where it is led on to. -/
theorem trans (h : c.Leads R c') (h' : c'.Leads R c'') : c.Leads R c'' :=
  ⟨h.reads.trans h'.reads, h'.within, h'.missteps_eq.trans h.missteps_eq, h'.inOrder ∘ h.inOrder⟩

end Leads

namespace EndsFile

/-- Where the end of file is ahead, only it alone is the last token. -/
theorem two_le_length {t : Token} {rest : List Token} (h : EndsFile (t :: rest)) :
    t.kind ≠ .eof ↔ 2 ≤ (t :: rest).length := by
  constructor
  · intro hk
    have hrest := (h.tail hk).ne_nil
    have := List.length_pos_iff.2 hrest
    simp only [List.length_cons]
    omega
  · intro hlength hk
    obtain ⟨before, last, heq, -, hbefore⟩ := h
    cases before with
    | nil =>
      cases heq
      simp at hlength
    | cons u before =>
      cases heq
      exact hbefore _ List.mem_cons_self hk

/-- Tokens other than the end of file can stand in front. -/
theorem append {front rest : List Token} (h : EndsFile rest) (hfront : ∀ t ∈ front, t.kind ≠ .eof) :
    EndsFile (front ++ rest) := by
  induction front with
  | nil => exact h
  | cons t front ih =>
    have hlater := ih fun u hu => hfront u (List.mem_cons_of_mem _ hu)
    exact hlater.cons (hfront t List.mem_cons_self)

/-- Where tokens in bulk are taken, those ahead go on to end with the end of file. -/
theorem of_append {front rest : List Token} (h : EndsFile (front ++ rest))
    (hne : rest ≠ []) : EndsFile rest ∧ ∀ t ∈ front, t.kind ≠ .eof := by
  induction front with
  | nil => exact ⟨h, by simp⟩
  | cons t front ih =>
    have hlength : 2 ≤ (t :: (front ++ rest)).length := by
      have := List.length_pos_iff.2 hne
      simp only [List.length_cons, List.length_append]
      omega
    have ht : t.kind ≠ .eof := (two_le_length h).2 hlength
    obtain ⟨hrest, hfront⟩ := ih (h.tail ht)
    exact ⟨hrest, List.forall_mem_cons.2 ⟨ht, hfront⟩⟩

/-- After a token that is not the end of file, it is still ahead. -/
theorem step {c : Cursor} (h : EndsFile c.rest) (hk : (c.tokenAt 0).kind ≠ .eof) :
    EndsFile c.step.rest := by
  cases hc : c.rest with
  | nil => exact absurd hc h.ne_nil
  | cons t rest =>
    rw [hc] at h
    rw [tokenAt_zero_cons hc] at hk
    simpa [Cursor.step, hc] using h.tail hk

/-- Skipping stops at the end of file at the latest. -/
theorem skipTo {rest : List Token} (h : EndsFile rest) (kinds : List TokenKind)
    (consumed : List Token) : EndsFile (skipTo kinds consumed rest).2 := by
  induction rest generalizing consumed with
  | nil => exact absurd rfl h.ne_nil
  | cons t rest ih =>
    rw [Cursor.skipTo]
    split
    · exact h
    · rename_i hstop
      exact ih (h.tail fun hk => hstop (.inl hk)) _

/-- Resuming after a problem stops at the end of file at the latest. -/
theorem recover {c : Cursor} (h : EndsFile c.rest) (kinds : List TokenKind) :
    EndsFile (c.recover kinds).rest := by
  have hdropped : EndsFile (if (c.tokenAt 0).kind = .eof then c else c.step).rest := by
    split
    · exact h
    · exact h.step ‹_›
  cases kinds with
  | nil => exact hdropped
  | cons kind kinds => exact hdropped.skipTo _ _

end EndsFile

namespace Within

variable {R : Region} {c : Cursor}

/-- The next token is one of the region. -/
theorem head (h : c.Within R) : R.token (c.tokenAt 0) := by
  have hne := h.ends.ne_nil
  cases hc : c.rest with
  | nil => exact absurd hc hne
  | cons t rest =>
    rw [tokenAt_zero_cons hc]
    exact h.rest t (by rw [hc]; exact List.mem_cons_self)

/-- The end of file is next exactly if there is no other token. -/
theorem ne_eof_iff (h : c.Within R) : (c.tokenAt 0).kind ≠ .eof ↔ 2 ≤ c.rest.length := by
  have hends := h.ends
  cases hc : c.rest with
  | nil => exact absurd hc hends.ne_nil
  | cons t rest =>
    rw [hc] at hends
    rw [tokenAt_zero_cons hc]
    exact hends.two_le_length

theorem rest_length_pos (h : c.Within R) : 0 < c.rest.length := List.length_pos_iff.2 h.ends.ne_nil

/-- A node ends at a place of the region. -/
theorem lastStop (h : c.Within R) : R.place c.lastStop := by
  unfold Cursor.lastStop
  cases hc : c.consumed with
  | cons t more => exact R.stop (h.consumed t (by rw [hc]; exact List.mem_cons_self))
  | nil =>
    have hlast := List.getLast?_eq_some_getLast h.ends.ne_nil
    simp only [hlast, Option.map_some, Option.getD_some]
    exact R.stop (h.rest _ (List.getLast_mem h.ends.ne_nil))

/-- Tokens are taken as they are, with the end of file still ahead. -/
theorem of_takes {c' : Cursor} (h : c.Within R) (ht : c.Takes c') (hends : EndsFile c'.rest)
    (hmissing : c'.missing = c.missing) (hdiscarded : c'.discarded = c.discarded) :
    c'.Within R := by
  obtain ⟨taken, hconsumed, hrest⟩ := ht.moves
  have htaken : (∀ t ∈ taken, R.token t) ∧ ∀ t ∈ c'.rest, R.token t := by
    have hall := h.rest
    rw [hrest] at hall
    exact List.forall_mem_append.1 hall
  have hopen : ∀ t ∈ taken, t.kind ≠ .eof :=
    (EndsFile.of_append (hrest ▸ h.ends) hends.ne_nil).2
  refine ⟨?_, htaken.2, by rw [hmissing]; exact h.missing, by rw [hdiscarded]; exact h.discarded,
    hends, ?_⟩
  · rw [hconsumed]
    exact List.forall_mem_append.2 ⟨fun t ht => htaken.1 t (List.mem_reverse.1 ht), h.consumed⟩
  · rw [hconsumed]
    exact List.forall_mem_append.2 ⟨fun t ht => hopen t (List.mem_reverse.1 ht), h.open_consumed⟩

/-- A token that is not the end of file is taken. -/
theorem step (h : c.Within R) (hk : (c.tokenAt 0).kind ≠ .eof) : c.Leads R c.step := by
  have htakes := step_takes hk
  exact ⟨step_reads c, h.of_takes htakes (h.ends.step hk) (by simp) (by simp), htakes.missteps_eq,
    fun horder => horder.of_reads (step_reads c) (by simp)⟩

end Within

/-- Resuming after a problem takes tokens inside the region. -/
theorem Within.recover {R : Region} {c : Cursor} (h : c.Within R) (kinds : List TokenKind) :
    c.Leads R (c.recover kinds) := by
  have htakes := recover_takes c kinds
  have hsame : (c.recover kinds).missing = c.missing ∧ (c.recover kinds).discarded = c.discarded ∧
      (c.recover kinds).raised = c.raised := by
    cases kinds <;> by_cases hk : (c.tokenAt 0).kind = .eof <;> simp [Cursor.recover, hk]
  have hreads : c.Reads (c.recover kinds) := .of_takes htakes (Nat.le_of_eq hsame.2.2.symm)
  exact ⟨hreads, h.of_takes htakes (h.ends.recover kinds) hsame.1 hsame.2.1, htakes.missteps_eq,
    fun horder => horder.of_reads hreads hsame.1⟩

/-- Resuming takes a token unless the end of file is next. -/
theorem recover_rest_length_lt {c : Cursor} (kinds : List TokenKind)
    (hk : (c.tokenAt 0).kind ≠ .eof) : (c.recover kinds).rest.length < c.rest.length := by
  have hstep := step_rest_length hk
  cases kinds with
  | nil =>
    simp only [recover, if_neg hk, List.isEmpty_nil, if_true]
    omega
  | cons kind kinds =>
    obtain ⟨taken, -, hrest⟩ := skipTo_taken (kind :: kinds) c.step.consumed c.step.rest
    have hlength := congrArg List.length hrest
    rw [List.length_append] at hlength
    simp only [recover, if_neg hk, List.isEmpty_cons, Bool.false_eq_true, if_false]
    omega

/-- Going back after a lookahead leads to where it began, with the tokens as they have
become. -/
theorem Leads.goBack {R : Region} {c c' : Cursor} (hc : c.Within R) (h : c.Leads R c') :
    c.Leads R (c'.goBack c) ∧ (c'.goBack c).rest.length = c.rest.length := by
  obtain ⟨taken, hconsumed, hrest⟩ := h.reads.moves
  have hback := goBack_eq hconsumed h.reads.missing
  have hbehind := h.within.consumed
  have hopen := h.within.open_consumed
  rw [hconsumed] at hbehind hopen
  have htaken : ∀ t ∈ taken, R.token t := fun t ht =>
    (List.forall_mem_append.1 hbehind).1 t (List.mem_reverse.2 ht)
  have hends : EndsFile (taken ++ c'.rest) := h.within.ends.append fun t ht =>
    (List.forall_mem_append.1 hopen).1 t (List.mem_reverse.2 ht)
  rw [hback]
  have hreads : c.Reads { c with rest := taken ++ c'.rest, missteps := c'.missteps } :=
    ⟨⟨[], rfl, hrest⟩, List.suffix_rfl, Nat.le_refl _⟩
  refine ⟨⟨hreads, ?_, h.missteps_eq, fun horder => horder.of_reads hreads rfl⟩,
    hrest.length_eq.symm⟩
  exact ⟨hc.consumed, List.forall_mem_append.2 ⟨htaken, h.within.rest⟩, hc.missing, hc.discarded,
    hends, hc.open_consumed⟩

end Cursor

end JavaObjC
