import JavaObjC.Proofs.Batch.Declarations
import JavaObjC.Proofs.Links.Answers

/-!
# The labels of a switch

A switch is printed with one group for each group of the source, in order: a
line for each of its case labels and then its statements. A group without case
labels is printed as the default, and this is the only way to print one. So a
group of the source that is the default next to case labels loses its default
line, and a selector that equals no label is no longer led to it; in every other
switch each selector reaches the statements that it reaches in the source.
-/

namespace JavaObjC

open Generating

/-- A group of a switch: its case labels, whether it is the default, and the statements it
leads to. -/
structure Arm (α β : Type) where
  labels : List α
  isDefault : Bool
  body : List β

namespace Arm

variable {α β : Type} {arms before after : List (Arm α β)} {a : Arm α β} {hit : α → Bool}

/-- The groups from the one on that a selector enters: the first one with a label that the
selector hits, and the default if there is no such label. -/
def entered (hit : α → Bool) (arms : List (Arm α β)) : List (Arm α β) :=
  if arms.any (·.labels.any hit) then arms.dropWhile (fun a => !a.labels.any hit)
  else arms.dropWhile (fun a => !a.isDefault)

/-- The statements that a selector reaches, from one group on into the next. -/
def reached (hit : α → Bool) (arms : List (Arm α β)) : List β :=
  (entered hit arms).flatMap body

/-- A group as it is printed, where the default is the group without case labels. -/
def printed (a : Arm α β) : Arm α β := { a with isDefault := a.labels.isEmpty }

/-- A group that is the default next to case labels. -/
def IsMixed (a : Arm α β) : Prop := a.isDefault = true ∧ a.labels ≠ []

/-- Groups as the language has them: each has a label, and at most one is the default. -/
structure Lawful (arms : List (Arm α β)) : Prop where
  labeled : ∀ a ∈ arms, a.isDefault = true ∨ a.labels ≠ []
  single : arms.Pairwise fun a b => ¬ (a.isDefault = true ∧ b.isDefault = true)

theorem printed_eq_self (h : a.isDefault = a.labels.isEmpty) : a.printed = a := by
  rw [printed, ← h]

/-- A group with a label that is not the default next to others says so by its labels. -/
theorem isDefault_eq (hlabeled : a.isDefault = true ∨ a.labels ≠ []) (hmixed : ¬ a.IsMixed) :
    a.isDefault = a.labels.isEmpty := by
  rw [IsMixed, not_and_not_right] at hmixed
  cases hdefault : a.isDefault with
  | true => simp [hmixed hdefault]
  | false => simpa [hdefault] using hlabeled

/-- A selector that hits a label enters the same group whichever group is the default. -/
theorem reached_printed_of_hit (h : arms.any (·.labels.any hit) = true) :
    reached hit (arms.map printed) = reached hit arms := by
  have hprinted : (arms.map printed).any (·.labels.any hit) = true := by
    rw [List.any_map]
    exact h
  have hsame : (arms.map printed).dropWhile (fun a => !a.labels.any hit) =
      (arms.dropWhile fun a => !a.labels.any hit).map printed := by
    rw [List.dropWhile_map]
    rfl
  rw [reached, reached, entered, entered, if_pos hprinted, if_pos h, hsame, List.flatMap_map]
  rfl

/-- A selector that hits no label reaches nothing if no group is the default. -/
theorem reached_of_no_default (hmiss : arms.any (·.labels.any hit) = false)
    (hdefault : ∀ a ∈ arms, a.isDefault = false) : reached hit arms = [] := by
  have hall : arms.dropWhile (fun a => !a.isDefault) = [] := by
    simpa [List.dropWhile_eq_nil_iff] using hdefault
  simp [reached, entered, hmiss, hall]

/-- A selector that hits no label reaches the first group that is the default, and goes on from
there. -/
theorem reached_of_default (hmiss : (before ++ a :: after).any (·.labels.any hit) = false)
    (hbefore : ∀ b ∈ before, b.isDefault = false) (ha : a.isDefault = true) :
    reached hit (before ++ a :: after) = (a :: after).flatMap body := by
  have hskip : (before ++ a :: after).dropWhile (fun b => !b.isDefault) = a :: after := by
    rw [List.dropWhile_append_of_pos (by simpa using hbefore),
      List.dropWhile_cons_of_neg (by simp [ha])]
  simp only [reached, entered, hmiss, hskip, Bool.false_eq_true, if_false]

/-- No group next to the default is the default. -/
theorem Lawful.others (h : Lawful (before ++ a :: after)) (ha : a.isDefault = true) :
    (∀ b ∈ before, b.isDefault = false) ∧ ∀ b ∈ after, b.isDefault = false := by
  obtain ⟨-, hafter, hbetween⟩ := List.pairwise_append.1 h.single
  constructor
  · intro b hb
    simpa [ha] using hbetween b hb a List.mem_cons_self
  · intro b hb
    simpa [ha] using (List.pairwise_cons.1 hafter).1 b hb

/-- No group is printed as the default if the default has case labels next to it. -/
theorem Lawful.printed_no_default (h : Lawful (before ++ a :: after)) (ha : a.IsMixed) :
    ∀ b ∈ (before ++ a :: after).map printed, b.isDefault = false := by
  obtain ⟨hbefore, hafter⟩ := h.others ha.1
  intro b hb
  obtain ⟨c, hc, rfl⟩ := List.mem_map.1 hb
  have hlabels : c.labels ≠ [] := by
    rcases List.mem_append.1 hc with hmem | hmem
    · exact (h.labeled c hc).resolve_left (by simp [hbefore c hmem])
    · rcases List.mem_cons.1 hmem with rfl | hmem
      · exact ha.2
      · exact (h.labeled c hc).resolve_left (by simp [hafter c hmem])
  simpa [printed] using hlabels

/-- Every selector reaches in the printed groups what it reaches in those of the source, exactly if
nothing follows a default that has case labels next to it. -/
theorem reached_printed_iff (h : Lawful arms) :
    (∀ hit, reached hit (arms.map printed) = reached hit arms) ↔
      ∀ before a after, arms = before ++ a :: after → a.IsMixed →
        (a :: after).flatMap body = [] := by
  have hlost : ∀ {hit : α → Bool} {before a after}, arms = before ++ a :: after → a.IsMixed →
      arms.any (·.labels.any hit) = false →
        reached hit (arms.map printed) = [] ∧ reached hit arms = (a :: after).flatMap body := by
    rintro hit before a after rfl ha hmiss
    refine ⟨reached_of_no_default ?_ (h.printed_no_default ha),
      reached_of_default hmiss (h.others ha.1).1 ha.1⟩
    rw [List.any_map]
    exact hmiss
  constructor
  · intro hsame before a after harms ha
    have hmiss : arms.any (·.labels.any fun _ => false) = false := by simp
    obtain ⟨hnone, hrest⟩ := hlost harms ha hmiss
    rw [← hrest, ← hsame, hnone]
  · intro hnothing hit
    by_cases hhit : arms.any (·.labels.any hit) = true
    · exact reached_printed_of_hit hhit
    · rw [Bool.not_eq_true] at hhit
      by_cases hmixed : ∃ a ∈ arms, a.IsMixed
      · obtain ⟨a, hmem, ha⟩ := hmixed
        obtain ⟨before, after, harms⟩ := List.append_of_mem hmem
        obtain ⟨hnone, hrest⟩ := hlost harms ha hhit
        rw [hnone, hrest, hnothing before a after harms ha]
      · have hall : arms.map printed = arms := by
          have hself : ∀ a ∈ arms, a.printed = a := fun a ha =>
            printed_eq_self (isDefault_eq (h.labeled a ha) fun hm => hmixed ⟨a, ha, hm⟩)
          simpa using List.map_congr_left hself
        rw [hall]

end Arm

namespace Node

/-- The labels of a group of a switch. -/
def groupLabels (g : Node) : List Node := g.childrenOf .switchLabel

/-- The values of the case labels of a group, in order. -/
def caseValues (g : Node) : List Node := g.groupLabels.flatMap Node.children

/-- Whether one of the labels of a group is that of the default, which has no value. -/
def carriesDefault (g : Node) : Bool := g.groupLabels.any (·.children.isEmpty)

/-- The statements of a group. -/
def groupStatements (g : Node) : List Node := g.children.filter (·.kind ≠ .switchLabel)

end Node

section Trees

variable {c : Category} {n g : Node}

/-- A switch has a selector and groups, wherever it stands. -/
theorem Derives.switch_children (hn : Derives c n) (hclean : n.Clean) (hkind : n.kind = .switchStmt) :
    ∃ subject groups, n.children = subject :: groups ∧ Derives .expression subject ∧
      DerivesAll .switchCase groups := by
  have hitems : Matches [.one .expression, .many .switchCase] n.children :=
    hn.items_of_kind hclean hkind (by cases c <;> decide)
  simp only [Matches.one_iff, Matches.many_iff, Matches.nil_iff] at hitems
  obtain ⟨subject, _, hchildren, hsubject, groups, _, rfl, hgroups, rfl⟩ := hitems
  exact ⟨subject, groups, by rw [hchildren, List.append_nil], hsubject, hgroups⟩

/-- A group has its labels in front of its statements. -/
theorem Derives.group_children (hg : Derives .switchCase g) (hclean : g.Clean) :
    g.kind = .switchCase ∧ g.children = g.groupLabels ++ g.groupStatements := by
  obtain ⟨f, hf, hkind, -, hitems⟩ := hg.form hclean
  obtain rfl := List.mem_singleton.1 hf
  simp only [Matches.many_iff, Matches.nil_iff] at hitems
  obtain ⟨labels, _, hchildren, hlabels, statements, _, rfl, hstatements, rfl⟩ := hitems
  rw [List.append_nil] at hchildren
  have hclean' : ∀ m ∈ labels ++ statements, m.Clean := fun m hm =>
    hclean.child (hchildren ▸ hm)
  have hlabel : ∀ m ∈ labels, m.kind = .switchLabel := fun m hm => by
    simpa [Category.forms] using (hlabels m hm).kind_mem (hclean' m (by simp [hm]))
  have hstatement : ∀ m ∈ statements, m.kind ≠ .switchLabel := fun m hm =>
    (hstatements m hm).kind_ne (hclean' m (by simp [hm])) (by decide)
  have hfirst : g.groupLabels = labels := by
    rw [Node.groupLabels, Node.childrenOf, hchildren, List.filter_append,
      List.filter_eq_self.2 (by simpa using hlabel),
      List.filter_eq_nil_iff.2 (by simpa using hstatement), List.append_nil]
  have hrest : g.groupStatements = statements := by
    rw [Node.groupStatements, hchildren, List.filter_append,
      List.filter_eq_nil_iff.2 (by simpa using hlabel),
      List.filter_eq_self.2 (by simpa using hstatement), List.nil_append]
  rw [hfirst, hrest, hchildren]
  exact ⟨hkind, rfl⟩

end Trees

namespace Lowering

section Groups

variable {around : Surroundings} {s s' : BodyState} {nodes : List Node} {n g : Node}

/-- Groups of a switch that become groups with labels and statements: the values of the labels and
then the statements are generated in order, each in the state that the one before it leaves. -/
inductive GroupsBecome (around : Surroundings) :
    BodyState → List Node → List (Arm Text Stmt) → BodyState → Prop where
  | nil (s : BodyState) : GroupsBecome around s [] [] s
  | cons {s s₁ s₂ s₃ : BodyState} {g : Node} {groups : List Node} {labels : List Text}
      {bodies : List (List Stmt)} {arms : List (Arm Text Stmt)}
      (hlabels : result (g.caseValues.mapM fun m => switchLabel (attributed m)) around s =
        (.ok labels, s₁))
      (hbodies : result (g.groupStatements.mapM fun m => (attributed m).statements) around s₁ =
        (.ok bodies, s₂))
      (hrest : GroupsBecome around s₂ groups arms s₃) :
      GroupsBecome around s (g :: groups) (⟨labels, g.carriesDefault, bodies.flatten⟩ :: arms) s₃

/-- The labels of a group, one after the other. -/
theorem foldlM_labels (hkinds : ∀ m ∈ nodes, m.kind = .switchLabel)
    (group : List Text × List Stmt) :
    (nodes.map attributed).foldlM switchPart group = (do
      let labels ← (nodes.flatMap Node.children).mapM fun m => switchLabel (attributed m)
      return (group.1 ++ labels, group.2)) := by
  induction nodes generalizing group with
  | nil => simp
  | cons n nodes ih =>
    obtain ⟨hkind, hkinds⟩ := List.forall_mem_cons.1 hkinds
    have hfirst : switchPart group (attributed n) = (do
        let labels ← n.children.mapM fun m => switchLabel (attributed m)
        return (group.1 ++ labels, group.2)) := by
      simp only [switchPart, attributed_kind, hkind, if_true, attributed_parts, List.mapM_map]
      rfl
    rw [List.map_cons, List.foldlM_cons, hfirst]
    simp [ih hkinds, List.mapM_append]

/-- The statements of a group, one after the other. -/
theorem foldlM_statements (hkinds : ∀ m ∈ nodes, m.kind ≠ .switchLabel)
    (group : List Text × List Stmt) :
    (nodes.map attributed).foldlM switchPart group = (do
      let bodies ← nodes.mapM fun m => (attributed m).statements
      return (group.1, group.2 ++ bodies.flatten)) := by
  induction nodes generalizing group with
  | nil => simp
  | cons n nodes ih =>
    obtain ⟨hkind, hkinds⟩ := List.forall_mem_cons.1 hkinds
    have hfirst : switchPart group (attributed n) = (do
        let body ← (attributed n).statements
        return (group.1, group.2 ++ body)) := by
      simp only [switchPart, attributed_kind, hkind, if_false]
    rw [List.map_cons, List.foldlM_cons, hfirst]
    simp [ih hkinds, List.mapM_cons]

/-- A group becomes its case labels and then its statements. -/
theorem switchGroup_eq (hclean : g.Clean) (hg : Derives .switchCase g) :
    switchGroup (attributed g) = (do
      let labels ← g.caseValues.mapM fun m => switchLabel (attributed m)
      let bodies ← g.groupStatements.mapM fun m => (attributed m).statements
      return ⟨labels, bodies.flatten⟩) := by
  have hlabels : ∀ m ∈ g.groupLabels, m.kind = .switchLabel := fun m hm => by
    simpa using (List.mem_filter.1 hm).2
  have hstatements : ∀ m ∈ g.groupStatements, m.kind ≠ .switchLabel := fun m hm => by
    simpa using (List.mem_filter.1 hm).2
  rw [switchGroup, attributed_parts, (hg.group_children hclean).2, List.map_append,
    List.foldlM_append, foldlM_labels hlabels]
  simp [foldlM_statements hstatements, Node.caseValues]

/-- Groups of a switch that are generated become groups with labels and statements. -/
theorem mapM_switchGroup_ok {printed : List SwitchGroup} (hclean : Node.CleanAll nodes)
    (hnodes : DerivesAll .switchCase nodes)
    (h : result ((nodes.map attributed).mapM switchGroup) around s = (.ok printed, s')) :
    ∃ arms, GroupsBecome around s nodes arms s' ∧
      printed = arms.map fun a => ⟨a.labels, a.body⟩ := by
  induction nodes generalizing s printed with
  | nil =>
    obtain ⟨rfl, rfl⟩ := pure_ok (by simpa using h)
    exact ⟨[], .nil _, rfl⟩
  | cons g nodes ih =>
    rw [Node.cleanAll_cons] at hclean
    rw [DerivesAll.cons_iff] at hnodes
    rw [List.map_cons, List.mapM_cons, switchGroup_eq hclean.1 hnodes.1] at h
    simp only [bind_assoc, pure_bind] at h
    obtain ⟨labels, s₁, hlabels, h⟩ := bind_ok h
    obtain ⟨bodies, s₂, hbodies, h⟩ := bind_ok h
    obtain ⟨more, s₃, hmore, h⟩ := bind_ok h
    obtain ⟨rfl, rfl⟩ := pure_ok h
    obtain ⟨arms, harms, rfl⟩ := ih hclean.2 hnodes.2 hmore
    exact ⟨_ :: arms, .cons hlabels hbodies harms, rfl⟩

/-- Each group has a label for each case label of its source, and is the default as it is there. -/
theorem GroupsBecome.forall₂ {arms : List (Arm Text Stmt)} (h : GroupsBecome around s nodes arms s') :
    List.Forall₂ (fun g a => a.labels.length = g.caseValues.length ∧
      a.isDefault = g.carriesDefault) nodes arms := by
  induction h with
  | nil => exact .nil
  | cons hlabels _ _ ih => exact .cons ⟨length_of_mapM_ok hlabels, rfl⟩ ih

end Groups

end Lowering

section Printing

variable {k : Nat} {labels : List Text} {isDefault : Bool}

/-- The lines of case labels. -/
def caseLines (k : Nat) (labels : List Text) : Text :=
  labels.flatMap fun label => indented k ("case " ++ label ++ ":")

/-- A line for each case label in order, and among them one for the default exactly if it is
carried. -/
def IsLabelPart (k : Nat) (labels : List Text) (isDefault : Bool) (text : Text) : Prop :=
  ∃ front back, labels = front ++ back ∧
    text = caseLines k front ++ (if isDefault then indented k "default:" else []) ++
      caseLines k back

theorem caseLines_append (k : Nat) (front back : List Text) :
    caseLines k (front ++ back) = caseLines k front ++ caseLines k back := List.flatMap_append

/-- The printed lines are those of the labels exactly if the default is the group without case
labels. -/
theorem isLabelPart_labelLines_iff :
    IsLabelPart k labels isDefault (Stmt.labelLines k labels) ↔ isDefault = labels.isEmpty := by
  have hline : (indented k "default:").length ≠ 0 := by
    have hbreak : (Text.ofString "\n").length = 1 := rfl
    simp only [indented, List.length_append, hbreak]
    omega
  have hlines : Stmt.labelLines k labels =
      (if labels.isEmpty then indented k "default:" else []) ++ caseLines k labels := by
    cases labels <;> simp [Stmt.labelLines, caseLines]
  constructor
  · rintro ⟨front, back, hlabels, htext⟩
    -- the case lines are the same on both sides, so the length tells whether there is a default line
    have hlength := congrArg List.length (hlines.symm.trans htext)
    rw [hlabels, caseLines_append, ← hlabels] at hlength
    simp only [List.length_append] at hlength
    cases hempty : labels.isEmpty <;> cases isDefault <;>
      simp only [hempty, Bool.false_eq_true, if_false, if_true, List.length_nil] at hlength ⊢ <;>
      omega
  · rintro rfl
    exact ⟨[], labels, rfl, hlines⟩

/-- A switch on lines of its own. -/
theorem lines_switching (selector : Text) (groups : List SwitchGroup) (k : Nat) :
    Stmt.lines [.switching selector groups] k =
      indented k ("switch (" ++ selector ++ ") \x7b") ++ Stmt.groupLines groups k ++
        indented k "\x7d" := by
  simp [Stmt.lines, Stmt.layout, Layout.ofOwn]

/-- The groups of a switch are printed one after the other. -/
theorem groupLines_eq_flatMap (arms : List (Arm Text Stmt)) (k : Nat) :
    Stmt.groupLines (arms.map fun a => ⟨a.labels, a.body⟩) k = arms.flatMap fun a =>
      Stmt.labelLines k a.labels ++
        Stmt.groupBody (a.body.any Stmt.isDeclaration) (Stmt.lines a.body) (k + 1) := by
  induction arms with
  | nil => rfl
  | cons a arms ih => rw [List.map_cons, Stmt.groupLines, ih, List.flatMap_cons]

end Printing

section Switches

open Lowering

variable {around : Surroundings} {s s' : BodyState} {n : Node} {sts : List Stmt}

/-- A scope is opened before an action and closed after it. -/
theorem Lower.withScope_ok {α : Type} {x : Lower α} {a : α}
    (h : result (Lower.withScope x) around s = (.ok a, s')) :
    ∃ s₁, result x around { s with scopes := [] :: s.scopes } = (.ok a, s₁) ∧
      s' = { s₁ with scopes := s₁.scopes.drop 1 } := by
  cases hx : result x around { s with scopes := [] :: s.scopes } with
  | mk outcome s₁ =>
    have hresult : result (Lower.withScope x) around s =
        (outcome, { s₁ with scopes := s₁.scopes.drop 1 }) := by
      have hrun : result (Lower.withScope x) around s =
          ((result x around { s with scopes := [] :: s.scopes }).1,
            { (result x around { s with scopes := [] :: s.scopes }).2 with
              scopes := (result x around { s with scopes := [] :: s.scopes }).2.scopes.drop 1 }) :=
        rfl
      rw [hrun, hx]
    rw [hresult] at h
    obtain ⟨rfl, rfl⟩ := Prod.mk.inj h
    exact ⟨s₁, rfl, rfl⟩

/-- A switch that is generated is one of the groups that those of the source become. -/
theorem switching_ok {subject : Node} {groups : List Node} {st : Stmt} (hclean : n.Clean)
    (hsubject : Derives .expression subject) (hgroups : DerivesAll .switchCase groups)
    (hchildren : n.children = subject :: groups)
    (h : result (switching (n.children.map attributed)) around s = (.ok st, s')) :
    ∃ v s₁ arms s₂, result (attributed subject).value around s = (.ok v, s₁) ∧
      GroupsBecome around { s₁ with scopes := [] :: s₁.scopes } groups arms s₂ ∧
      st = .switching v.unboxed (arms.map fun a => ⟨a.labels, a.body⟩) := by
  have hclean' : ∀ m ∈ subject :: groups, m.Clean := fun m hm => hclean.child (hchildren ▸ hm)
  have hsubject₀ : subject.kind ≠ .switchCase :=
    hsubject.kind_ne (hclean' subject (by simp)) (by decide)
  have hgroup₀ : ∀ m ∈ groups, m.kind = .switchCase := fun m hm =>
    ((hgroups m hm).group_children (hclean' m (by simp [hm]))).1
  have hfilter : n.children.filter (·.kind = .switchCase) = groups := by
    rw [hchildren, List.filter_cons_of_neg (by simpa using hsubject₀),
      List.filter_eq_self.2 (by simpa using hgroup₀)]
  rw [switching, ofKind_map, hfilter, hchildren] at h
  simp only [List.map_cons, child_zero, pure_bind] at h
  obtain ⟨v, s₁, hv, h⟩ := bind_ok h
  cases hstring : isStringType v.type with
  | true =>
    rw [hstring, if_pos rfl] at h
    cases h
  | false =>
    rw [hstring, if_neg Bool.false_ne_true] at h
    obtain ⟨s₂, h, -⟩ := Lower.withScope_ok h
    obtain ⟨printed, s₃, hprinted, h⟩ := bind_ok h
    obtain ⟨rfl, rfl⟩ := pure_ok h
    obtain ⟨arms, harms, rfl⟩ :=
      mapM_switchGroup_ok (fun m hm => hclean' m (by simp [hm])) hgroups hprinted
    exact ⟨v, s₁, arms, s₃, hv, harms, rfl⟩

/-- A switch keeps its groups, its case labels and its statements, and its default unless that
stands next to case labels. Each group of the source becomes one group in order, with the values
of its case labels and its statements; the label lines of a group are those of the source exactly
if it is the default or has case labels, but not both. If this holds of all groups, every selector
reaches the statements that it reaches in the source. In general this is so exactly if nothing
follows a default that stands next to case labels. -/
theorem switch_groups_printed {path source : Text} {cu : Node}
    (hparsed : parseForGeneration path source = .ok cu) (hn : n ∈ cu.walk)
    (hkind : n.kind = .switchStmt)
    (h : result (attributed n).statements around s = (.ok sts, s')) :
    ∃ subject groups v s₁ arms s₂, n.children = subject :: groups ∧
      result (attributed subject).value around s = (.ok v, s₁) ∧
      GroupsBecome around { s₁ with scopes := [] :: s₁.scopes } groups arms s₂ ∧
      (∀ k, Stmt.lines sts k =
        indented k ("switch (" ++ v.unboxed ++ ") \x7b") ++
          (arms.flatMap fun a => Stmt.labelLines k a.labels ++
            Stmt.groupBody (a.body.any Stmt.isDeclaration) (Stmt.lines a.body) (k + 1)) ++
          indented k "\x7d") ∧
      List.Forall₂ (fun g a => ∀ k,
        IsLabelPart k a.labels g.carriesDefault (Stmt.labelLines k a.labels) ↔
          g.carriesDefault = g.caseValues.isEmpty) groups arms ∧
      ((∀ g ∈ groups, g.carriesDefault = g.caseValues.isEmpty) →
        ∀ hit, Arm.reached hit (arms.map Arm.printed) = Arm.reached hit arms) ∧
      (Arm.Lawful arms →
        ((∀ hit, Arm.reached hit (arms.map Arm.printed) = Arm.reached hit arms) ↔
          ∀ before a after, arms = before ++ a :: after → a.IsMixed →
            (a :: after).flatMap Arm.body = [])) := by
  obtain ⟨htree, hclean⟩ := derives_of_parseForGeneration hparsed
  obtain ⟨hclean, c, hderives⟩ := htree.of_mem_walk cu hclean n hn
  obtain ⟨subject, groups, hchildren, hsubject, hgroups⟩ := hderives.switch_children hclean hkind
  rw [attributed_statements, statements] at h
  simp only [hkind, statement] at h
  obtain ⟨st, s₀, hst, h⟩ := bind_ok h
  obtain ⟨rfl, rfl⟩ := pure_ok h
  obtain ⟨v, s₁, arms, s₂, hv, harms, rfl⟩ := switching_ok hclean hsubject hgroups hchildren hst
  have hkept := harms.forall₂
  have hlabels : List.Forall₂ (fun g (a : Arm Text Stmt) =>
      a.labels.isEmpty = g.caseValues.isEmpty ∧ a.isDefault = g.carriesDefault) groups arms := by
    refine hkept.imp fun g a hsame => ⟨?_, hsame.2⟩
    rw [Bool.eq_iff_iff, List.isEmpty_iff_length_eq_zero, List.isEmpty_iff_length_eq_zero, hsame.1]
  refine ⟨subject, groups, v, s₁, arms, s₂, hchildren, hv, harms, fun k => ?_, ?_, ?_,
    Arm.reached_printed_iff⟩
  · rw [lines_switching, groupLines_eq_flatMap]
  · refine hlabels.imp fun g a hsame k => ?_
    rw [isLabelPart_labelLines_iff, hsame.1]
  · intro hplain hit
    have hself : ∀ a ∈ arms, a.printed = a := by
      intro a ha
      obtain ⟨g, hg, hempty, hdefault⟩ := exists_of_mem_forall₂ hlabels ha
      exact Arm.printed_eq_self (by rw [hempty, hdefault, hplain g hg])
    have hall : arms.map Arm.printed = arms := by simpa using List.map_congr_left hself
    rw [hall]

/-- A class whose method has a switch with the default next to a case label. -/
def mixedSource : Text :=
  "class A \x7b int f(int x) \x7b switch (x) \x7b case 1: default: return 1; \x7d \x7d \x7d"

/-- The default next to the case label is not printed. -/
theorem switch_groups_printed_mixed :
    ∃ cu n sts s', parseForGeneration "A.java" mixedSource = .ok cu ∧ n ∈ cu.walk ∧
      n.kind = .switchStmt ∧
      result (attributed n).statements {} { scopes := [[("x", .named "int")]] } = (.ok sts, s') ∧
      Stmt.lines sts 0 = "switch (x) \x7b\ncase 1:\n    return 1;\n\x7d\n" ∧
      ∃ arms : List (Arm Text Stmt), arms.length = 1 ∧
        ∀ a ∈ arms, ¬ IsLabelPart 0 a.labels true (Stmt.labelLines 0 a.labels) := by
  -- one evaluation, so that the source is read once
  obtain ⟨haccepted, hfacts⟩ :
      (Parsed.ofSource .compilationUnit mixedSource).problems = [] ∧
      ((Entry.compilationUnit.read mixedSource).1.walk.find? (·.kind = .switchStmt)).map (fun n =>
        (n.children.tail.map fun g => (g.carriesDefault, g.caseValues.isEmpty),
          (result (attributed n).statements {}
            { scopes := [[("x", .named "int")]] }).1.toOption.map (Stmt.lines · 0))) =
        some ([(true, false)],
          some (Text.ofString "switch (x) \x7b\ncase 1:\n    return 1;\n\x7d\n")) := by
    decide +kernel
  have hparsed := Generator.parseForGeneration_of_accepted "A.java" haccepted
  obtain ⟨n, hfound, hfacts⟩ := Option.map_eq_some_iff.1 hfacts
  obtain ⟨hgroups, hlines⟩ := Prod.mk.inj hfacts
  have hkind : n.kind = .switchStmt := by simpa using List.find?_some hfound
  have hn := List.mem_of_find?_eq_some hfound
  cases hresult : result (attributed n).statements {} { scopes := [[("x", .named "int")]] } with
  | mk outcome s' =>
    rw [hresult] at hlines
    cases outcome with
    | error refusal => cases hlines
    | ok sts =>
      refine ⟨_, n, sts, s', hparsed, hn, hkind, hresult, Option.some.inj hlines, ?_⟩
      obtain ⟨subject, groups, v, s₁, arms, s₂, hchildren, -, -, -, hlabels, -⟩ :=
        switch_groups_printed hparsed hn hkind hresult
      rw [hchildren, List.tail_cons] at hgroups
      obtain ⟨g, rfl, hg⟩ := List.map_eq_singleton_iff.1 hgroups
      obtain ⟨hdefault, hvalues⟩ := Prod.mk.inj hg
      cases hlabels with
      | @cons _ a _ _ hlabel hrest =>
        cases hrest
        refine ⟨[a], rfl, List.forall_mem_singleton.2 fun hpart => ?_⟩
        rw [← hdefault, hlabel, hdefault, hvalues] at hpart
        cases hpart

end Switches

end JavaObjC
