import JavaObjC.Lowering.Value
import JavaObjC.Proofs.Grouping.Order

/-!
# Reading texts that are put together

How a text is read that is made of texts that can be read alone: behind a sign
or a cast, in parentheses, with an operator between them, as a choice, or in
square brackets. Within square brackets the words are kept, since the brackets
of a text that can be read match.
-/

namespace JavaObjC

namespace C

section Texts

variable {f : Frame} {s t u c : Text} {ws cs : List Text} {e l r : Expr} {op : Text} {q : Nat}

/-- The words of a text that is read, and where reading them ends. -/
theorem exists_of_read (h : read t = some e) : ∃ ws st, words t = some ws ∧
    (State.open []).readAll ws = some st ∧ st.result? = some e := by
  obtain ⟨ws, hws, h⟩ := Option.bind_eq_some_iff.1 h
  obtain ⟨st, hst, h⟩ := Option.bind_eq_some_iff.1 h
  exact ⟨ws, st, hws, hst, h⟩

/-- Words are read one after another. -/
theorem State.readAll_append (st : State) (ws cs : List Text) :
    st.readAll (ws ++ cs) = (st.readAll ws).bind (·.readAll cs) := List.foldlM_append

/-- One word is read. -/
theorem State.readAll_singleton (st : State) (w : Text) : st.readAll [w] = st.read w := by
  rw [State.readAll, List.foldlM_cons]
  cases st.read w <;> rfl

/-- What a text is read as, when its words come to an end behind an expression. -/
theorem read_of_words {k : List Frame} (hws : words t = some ws)
    (hread : (State.open []).readAll ws = some ⟨k, .after l⟩) (hs : settle 0 k l = ([], e)) :
    read t = some e := by
  rw [read, hws]
  change ((State.open []).readAll ws).bind State.result? = some e
  rw [hread, Option.bind_some, State.result?]
  dsimp only
  rw [hs]

/-- The words of a text behind an open frame. -/
theorem readAll_behind (f : Frame) (ht : read t = some e) : ∃ ws s' e', words t = some ws ∧
    (State.open [f]).readAll ws = some ⟨s', .after e'⟩ ∧
      settle 0 s' e' = if f.isOpen then ([f], e) else ([], f.plug e) := by
  obtain ⟨ws, st, hws, hst, hresult⟩ := exists_of_read ht
  obtain ⟨st', hst', hbehind⟩ := (Behind.start f).readAll hst
  obtain ⟨s', e', rfl, hs'⟩ := hbehind.result hresult
  exact ⟨ws, s', e', hws, hst', hs'⟩

/-- A text behind a frame that waits for one operand. -/
theorem read_behind (hc : words s = some cs) (hopen : (State.open []).readAll cs = some (.open [f]))
    (hf : f.isOpen = false) (hparts : (Pending.nothing.after s).Parts t) (ht : read t = some e) :
    read (s ++ t) = some (f.plug e) := by
  obtain ⟨ws, s', e', hws, hread, hs'⟩ := readAll_behind f ht
  rw [hf, if_neg (by simp)] at hs'
  refine read_of_words (words_append hc hws hparts) ?_ hs'
  rw [State.readAll_append, hopen]
  exact hread

/-- The words of a text in front of an operator that it stays one operand of. -/
theorem readAll_before (hs : read s = some l) (hfirm : l.isFirm q = true) : ∃ ws s' e',
    words s = some ws ∧ (State.open []).readAll ws = some ⟨s', .after e'⟩ ∧
      settle q s' e' = ([], l) := by
  obtain ⟨ws, ⟨s', m⟩, hws, hst, hresult⟩ := exists_of_read hs
  cases m with
  | after e' =>
    refine ⟨ws, s', e', hws, hst, ?_⟩
    have hopen : Ordered (State.open []).stack := .nil
    have hordered : Ordered s' := hopen.readAll hst
    refine hordered.settle ?_ hfirm
    unfold State.result? at hresult
    dsimp only at hresult
    split at hresult
    · next hs' => rw [hs', Option.some.inj hresult]
    · cases hresult
  | operand | type | member | nested => cases hresult

/-- Two texts with an operator between them, the first of which stays one operand. -/
theorem read_operation (hs : read s = some l) (hfirm : l.isFirm q = true)
    (hc : words c = some [op]) (hop : back op = .operator q) (hlink : IsLink c)
    (ht : read t = some r) : read (s ++ c ++ t) = some ((Frame.operation l op).plug r) := by
  obtain ⟨ws, s', e', hws, hread, hsettle⟩ := readAll_before hs hfirm
  obtain ⟨ws', s'', e'', hws', hread', hsettle'⟩ := readAll_behind (.operation l op) ht
  refine read_of_words (words_link hws hc hws' hlink) ?_ hsettle'
  have hopen : State.read ⟨s', .after e'⟩ op = some (.open [.operation l op]) := by
    change readBack s' e' op (back op) = _
    rw [hop, readBack, hsettle]
    rfl
  rw [State.readAll_append, State.readAll_append, hread, Option.bind_some, State.readAll_singleton,
    hopen]
  exact hread'

/-- A text in parentheses. -/
theorem read_group (ht : read t = some e) : read ("(" ++ t ++ ")") = some (.group e) := by
  obtain ⟨ws, s', e', hws, hread, hs'⟩ := readAll_behind .paren ht
  have hclosed : words (t ++ Text.ofString ")") = some (ws ++ [Text.ofString ")"]) :=
    words_append hws (by decide) (Pending.parts_of_break _ (by decide +kernel))
  have hwords : words (Text.ofString "(" ++ (t ++ Text.ofString ")")) =
      some ([Text.ofString "("] ++ (ws ++ [Text.ofString ")"])) :=
    words_append (by decide) hclosed (Pending.parts_of_free (by decide))
  rw [List.append_assoc]
  refine read_of_words (k := []) (l := .group e) hwords ?_ rfl
  have hclose : State.read ⟨s', .after e'⟩ ")" = some ⟨[], .after (.group e)⟩ := by
    change readBack s' e' ")" (back ")") = _
    have hback : back ")" = .closing := by decide
    rw [hback]
    change closeGroup (settle 0 s' e') = _
    rw [hs']
    rfl
  have hopen : State.read (State.open []) "(" = some (.open [.paren]) := by
    change readFront [] "(" (front "(") = _
    have hfront : front "(" = .paren := by decide
    rw [hfront]
    rfl
  rw [State.readAll_append, State.readAll_singleton, hopen, Option.bind_some, State.readAll_append,
    hread, Option.bind_some, State.readAll_singleton, hclose]

/-- A choice between two texts. -/
theorem read_choice {yes no : Expr} (hs : read s = some l) (hfirm : l.isFirm choiceLevel = true)
    (ht : read t = some yes) (hu : read u = some no) :
    read (s ++ " ? " ++ t ++ " : " ++ u) = some ((Frame.colon l yes).plug no) := by
  obtain ⟨ws, s₁, e₁, hws, hread, hsettle⟩ := readAll_before hs hfirm
  obtain ⟨ws', s₂, e₂, hws', hread', hsettle'⟩ := readAll_behind (.question l) ht
  obtain ⟨ws'', s₃, e₃, hws'', hread'', hsettle''⟩ := readAll_behind (.colon l yes) hu
  have hmark : words " ? " = some [Text.ofString "?"] := by decide
  have hcolon : words " : " = some [Text.ofString ":"] := by decide
  have hwords := words_link (words_link hws hmark hws' ⟨by decide, by decide⟩) hcolon hws''
    ⟨by decide, by decide⟩
  refine read_of_words hwords ?_ hsettle''
  have hquestion : State.read ⟨s₁, .after e₁⟩ "?" = some (.open [.question l]) := by
    change readBack s₁ e₁ "?" (back "?") = _
    have hback : back "?" = .question := by decide
    rw [hback, readBack, hsettle]
    rfl
  have hnext : State.read ⟨s₂, .after e₂⟩ ":" = some (.open [.colon l yes]) := by
    change readBack s₂ e₂ ":" (back ":") = _
    have hback : back ":" = .colon := by decide
    rw [hback]
    change nextChoice (settle 0 s₂ e₂) = _
    rw [hsettle']
    rfl
  simp only [State.readAll_append, State.readAll_singleton, hread, Option.bind_some, hquestion,
    hread', hnext, hread'']

end Texts

section Nesting

variable {s : List Frame} {e : Expr} {w : Text} {st st₁ : State} {ws : List Text} {d q : Nat}

/-- How many parentheses are open. -/
def openParens : List Frame → Nat
  | [] => 0
  | .paren :: s => openParens s + 1
  | _ :: s => openParens s

/-- How many brackets are open. -/
def State.depth (st : State) : Nat :=
  openParens st.stack +
    match st.mode with
    | .type _ => 1
    | .nested depth _ _ => depth
    | _ => 0

/-- A word that is no bracket leaves the brackets as they are. -/
theorem depthAfter_of_plain (h : (opens w || closes w) = false) (d : Nat) : depthAfter w d = d := by
  rw [Bool.or_eq_false_iff] at h
  rw [depthAfter, h.1, h.2]
  rfl

/-- Finishing frames closes no parenthesis. -/
theorem openParens_settle : openParens (settle q s e).1 = openParens s := by
  induction s generalizing e with
  | nil => rfl
  | cons f s ih =>
    rw [settle]
    by_cases hf : f.yields q = true
    · rw [if_pos hf, ih]
      cases f <;> first | rfl | cases hf
    · rw [if_neg hf]

/-- The brackets. -/
theorem mem_brackets (h : (opens w || closes w) = true) :
    w ∈ ["(", "[", "\x7b", ")", "]", "\x7d"].map Text.ofString := by
  simp only [opens, closes, Bool.or_eq_true, beq_iff_eq] at h
  simp only [List.map_cons, List.map_nil, List.mem_cons, List.not_mem_nil, or_false]
  tauto

/-- What is told apart from the brackets is none of them. -/
theorem plain_of_forall {p : Text → Bool} (h : p w = true)
    (hall : ∀ w ∈ ["(", "[", "\x7b", ")", "]", "\x7d"].map Text.ofString, p w = false) :
    (opens w || closes w) = false := by
  rw [← Bool.not_eq_true]
  exact fun hw => absurd h (by simp [hall w (mem_brackets hw)])

/-- The brackets that are open do not change with a word that is told apart from brackets. -/
theorem depthAfter_front {kind : Front} (hfront : front w = kind)
    (hkind : kind = .sign ∨ kind = .type ∨ kind = .atom) (d : Nat) : depthAfter w d = d := by
  refine depthAfter_of_plain (plain_of_forall
    (p := fun w => front w == .sign || front w == .type || front w == .atom) ?_
    (by decide)) d
  rcases hkind with rfl | rfl | rfl <;> simp [hfront]

/-- The brackets that stand where an operand is due. -/
theorem eq_of_front :
    (front w = .paren → w = Text.ofString "(") ∧ (front w = .bracket → w = Text.ofString "[") ∧
      (front w = .closing → w = Text.ofString ")") := by
  unfold front
  split_ifs <;> simp_all

/-- How the brackets that are open change in front of an operand. -/
theorem depth_readFront (hread : readFront s w (front w) = some st₁) (d : Nat) :
    depthAfter w (d + openParens s) = d + st₁.depth := by
  obtain ⟨hparen, hbracket, hclosing⟩ := eq_of_front (w := w)
  cases hfront : front w with
  | paren =>
    rw [hfront] at hread
    obtain rfl := Option.some.inj hread
    rw [hparen hfront]
    rfl
  | bracket =>
    rw [hfront] at hread
    obtain rfl := Option.some.inj hread
    rw [hbracket hfront]
    rfl
  | sign =>
    rw [hfront] at hread
    obtain rfl := Option.some.inj hread
    rw [depthAfter_front hfront (by simp)]
    rfl
  | type =>
    rw [hfront] at hread
    change openType s w = some st₁ at hread
    unfold openType at hread
    split at hread
    · obtain rfl := Option.some.inj hread
      rw [depthAfter_front hfront (by simp)]
      rfl
    · cases hread
  | closing =>
    rw [hfront] at hread
    change closePointer s = some st₁ at hread
    unfold closePointer at hread
    split at hread
    · obtain ⟨-, hread⟩ := Option.ite_none_right_eq_some.1 hread
      obtain rfl := Option.some.inj hread
      rw [hclosing hfront]
      rfl
    · cases hread
  | atom =>
    rw [hfront] at hread
    obtain rfl := Option.some.inj hread
    rw [depthAfter_front hfront (by simp)]
    rfl
  | other => rw [hfront] at hread; cases hread

/-- The brackets that are open do not change with a word that is no bracket. -/
theorem depthAfter_back {kind : Back} (hback : back w = kind)
    (hkind : kind ≠ .closing ∧ kind ≠ .opening ∧ kind ≠ .other) (d : Nat) : depthAfter w d = d := by
  refine depthAfter_of_plain (plain_of_forall
    (p := fun w => back w != .closing && back w != .opening && back w != .other) ?_
      (by decide)) d
  simp [hback, hkind]

/-- The brackets that stand behind an operand. -/
theorem eq_of_back :
    (back w = .closing → w = Text.ofString ")") ∧
      (back w = .opening → w = Text.ofString "(" ∨ w = Text.ofString "[") := by
  unfold back
  split
  · simp
  · split_ifs <;> simp_all

/-- How the brackets that are open change behind an operand. -/
theorem depth_readBack (hread : readBack s e w (back w) = some st₁) (d : Nat) :
    depthAfter w (d + openParens s) = d + st₁.depth := by
  obtain ⟨hclosing, hopening⟩ := eq_of_back (w := w)
  have hsettled : ∀ {r : List Frame} {e' : Expr}, settle 0 s e = (r, e') →
      openParens s = openParens r := fun hs => by
    rw [← openParens_settle (q := 0) (s := s) (e := e), hs]
  cases hback : back w with
  | operator q =>
    rw [hback] at hread
    obtain rfl := Option.some.inj hread
    rw [depthAfter_back hback (by simp), ← openParens_settle (q := q) (s := s) (e := e)]
    rfl
  | question =>
    rw [hback] at hread
    obtain rfl := Option.some.inj hread
    rw [depthAfter_back hback (by simp), ← openParens_settle (q := choiceLevel) (s := s) (e := e)]
    rfl
  | colon =>
    rw [hback] at hread
    change nextChoice (settle 0 s e) = some st₁ at hread
    unfold nextChoice at hread
    split at hread
    · next hs =>
      obtain rfl := Option.some.inj hread
      rw [depthAfter_back hback (by simp), hsettled hs]
      rfl
    · cases hread
  | closing =>
    rw [hback] at hread
    change closeGroup (settle 0 s e) = some st₁ at hread
    unfold closeGroup at hread
    split at hread
    · next hs =>
      obtain rfl := Option.some.inj hread
      rw [hclosing hback, hsettled hs]
      rfl
    · cases hread
  | opening =>
    rw [hback] at hread
    obtain rfl := Option.some.inj hread
    rcases hopening hback with rfl | rfl <;> rfl
  | point | step =>
    rw [hback] at hread
    obtain rfl := Option.some.inj hread
    rw [depthAfter_back hback (by simp)]
    rfl
  | other => rw [hback] at hread; cases hread

/-- Inside brackets the depth counts those of the text and those around. -/
theorem depth_bracketMode (s : List Frame) (ws : List Text) (e : Option Expr) (n : Nat) :
    State.depth ⟨s, bracketMode ws e n⟩ = openParens s + n := by cases n <;> rfl

/-- How the brackets that are open change with a word. -/
theorem depth_read (hm : st.mode.isWhole = true) (hread : st.read w = some st₁) (d : Nat) :
    depthAfter w (d + st.depth) = d + st₁.depth := by
  obtain ⟨s, m⟩ := st
  cases m with
  | operand => exact depth_readFront hread d
  | after e => exact depth_readBack hread d
  | type ws =>
    rcases read_type hread with ⟨rfl, rfl⟩ | ⟨-, hbracket, rfl⟩
    · rfl
    · rw [depthAfter_of_plain hbracket]
      rfl
  | member e point =>
    obtain ⟨hw, hread⟩ := Option.ite_none_right_eq_some.1 hread
    obtain rfl := Option.some.inj hread
    rw [depthAfter_of_plain (plain_of_forall hw (by decide))]
    rfl
  | nested depth ws e =>
    obtain rfl := Option.some.inj hread
    have hdepth : depth ≠ 0 := by simpa [Mode.isWhole] using hm
    rw [depth_bracketMode]
    change depthAfter w (d + (openParens s + depth)) = _
    unfold depthAfter
    dsimp only
    split_ifs <;> omega

/-- Reading keeps whole what stands behind an operand. -/
theorem isWhole_readAll (hread : (State.open []).readAll ws = some st) :
    st.mode.isWhole = true := by
  obtain ⟨st', -, hbehind⟩ := (Behind.start .paren).readAll hread
  cases hbehind with
  | waiting _ hm | filled _ hm => exact hm

/-- The words of a text within brackets are kept, and the brackets stay open. -/
theorem nested_readAll {a : List Text} {o : Option Expr}
    (hread : (State.open []).readAll ws = some st) (hd : 1 ≤ d) :
    State.readAll ⟨s, .nested d a o⟩ ws = some ⟨s, .nested (d + st.depth) (a ++ ws) o⟩ := by
  induction ws using List.reverseRecOn generalizing st with
  | nil =>
    obtain rfl := Option.some.inj hread
    rw [List.append_nil]
    rfl
  | append_singleton ws w ih =>
    rw [State.readAll_append] at hread ⊢
    obtain ⟨st₂, hfirst, hlast⟩ := Option.bind_eq_some_iff.1 hread
    rw [State.readAll_singleton] at hlast
    have hdepth : depthAfter w (d + st₂.depth) = d + st.depth :=
      depth_read (isWhole_readAll hfirst) hlast d
    obtain ⟨n, hn⟩ : ∃ n, d + st.depth = n + 1 := ⟨d + st.depth - 1, by omega⟩
    rw [ih hfirst, Option.bind_some, State.readAll_singleton, State.read]
    dsimp only
    rw [hdepth, hn, List.append_assoc]
    rfl

/-- When all is read, no bracket is open. -/
theorem depth_of_result (h : st.result? = some e) : st.depth = 0 := by
  obtain ⟨s, m⟩ := st
  cases m with
  | after e' =>
    unfold State.result? at h
    dsimp only at h
    split at h
    · next hs =>
      have hnone : openParens (settle 0 s e').1 = openParens s := openParens_settle
      rw [hs] at hnone
      exact hnone.symm
    · cases h
  | operand | type | member | nested => cases h

/-- Words that are no brackets are kept within brackets. -/
theorem plain_readAll {a : List Text} {o : Option Expr}
    (hws : ∀ w ∈ ws, (opens w || closes w) = false) :
    State.readAll ⟨s, .nested 1 a o⟩ ws = some ⟨s, .nested 1 (a ++ ws) o⟩ := by
  induction ws generalizing a with
  | nil =>
    rw [List.append_nil]
    rfl
  | cons w ws ih =>
    rw [List.forall_mem_cons] at hws
    have hw : State.read ⟨s, .nested 1 a o⟩ w = some ⟨s, .nested 1 (a ++ [w]) o⟩ := by
      rw [State.read]
      dsimp only
      rw [depthAfter_of_plain hws.1]
      rfl
    rw [State.readAll, List.foldlM_cons, hw]
    change State.readAll _ ws = _
    rw [ih hws.2, List.append_assoc, List.singleton_append]

/-- A text and some words in square brackets. -/
theorem read_bracketed {t c : Text} {cs : List Text} (ht : read t = some e)
    (hc : words c = some (cs ++ [Text.ofString "]"])) (hfront : ∀ b ∈ c.head?, isBreak b = true)
    (hcs : ∀ w ∈ cs, (opens w || closes w) = false) : ∃ ws, words t = some ws ∧
      read ("[" ++ t ++ c) =
        some (.bracketed (Text.ofString "[" :: (ws ++ cs ++ [Text.ofString "]"]))) := by
  obtain ⟨ws, st, hws, hst, hresult⟩ := exists_of_read ht
  refine ⟨ws, hws, ?_⟩
  have htail : words (t ++ c) = some (ws ++ (cs ++ [Text.ofString "]"])) :=
    words_append hws hc (Pending.parts_of_break _ hfront)
  have hwords : words (Text.ofString "[" ++ (t ++ c)) =
      some ([Text.ofString "["] ++ (ws ++ (cs ++ [Text.ofString "]"]))) :=
    words_append (by decide) htail (Pending.parts_of_free (by decide))
  have hopen : State.read (State.open []) "[" = some ⟨[], .nested 1 [Text.ofString "["] none⟩ := by
    change readFront [] "[" (front "[") = _
    have hmark : front "[" = .bracket := by decide
    rw [hmark]
    rfl
  have hinner := nested_readAll (s := []) (a := [Text.ofString "["]) (o := none) hst (le_refl 1)
  rw [depth_of_result hresult, Nat.add_zero] at hinner
  rw [List.append_assoc]
  refine read_of_words (k := []) hwords ?_ rfl
  rw [State.readAll_append, State.readAll_singleton, hopen, Option.bind_some, State.readAll_append,
    hinner, Option.bind_some, State.readAll_append, plain_readAll hcs, Option.bind_some,
    State.readAll_singleton]
  have hclose : ∀ acc : List Text, State.read ⟨[], .nested 1 acc none⟩ "]" =
      some ⟨[], .after (.bracketed (acc ++ [Text.ofString "]"]))⟩ := fun acc => rfl
  rw [hclose]
  simp only [List.cons_append, List.nil_append, List.append_assoc]

/-- A selector that is one word. -/
def IsSelector (selector : Text) : Prop :=
  words (" " ++ selector ++ "]") = some [selector, Text.ofString "]"] ∧
    (opens selector || closes selector) = false

instance (selector : Text) : Decidable (IsSelector selector) := inferInstanceAs (Decidable (_ ∧ _))

/-- A message to a text. -/
theorem read_message {t selector : Text} (ht : read t = some e) (hselector : IsSelector selector) :
    ∃ ws, words t = some ws ∧ read (message t selector) =
      some (.bracketed (Text.ofString "[" :: (ws ++ [selector] ++ [Text.ofString "]"]))) := by
  obtain ⟨hwords, hplain⟩ := hselector
  have hmessage : message t selector = "[" ++ t ++ (" " ++ selector ++ "]") := by
    simp [message]
  have hwords : words (" " ++ selector ++ "]") = some ([selector] ++ [Text.ofString "]"]) := hwords
  rw [hmessage]
  exact read_bracketed ht hwords (fun b hb => Option.mem_some_iff.1 hb ▸ rfl)
    (by simpa using hplain)

end Nesting

end C

end JavaObjC
