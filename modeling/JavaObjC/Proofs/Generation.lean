import JavaObjC.Generator.Unit
import JavaObjC.Proofs.Lowering.Drafts
import JavaObjC.Proofs.Lowering.Units
import JavaObjC.Proofs.Reading.Units

/-!
# What becomes of a source

The way of a source through reading and generating, put together. The first
main statement says how it can end: a source with a problem is rejected; any
other one gives a unit, is refused for a construct that has no counterpart, or
declares no class. A malformed tree never arises, and every generated method
has the keywords that its parameters need. The second one says that layout
does not matter: sources that say the same have the same tree, the same
problems in the same order, and the same answer from every generator.
-/

namespace JavaObjC

open Cursor Generating

section Reading

variable {r : Pairing} {source source' : Text}

/-- Sources with alike tokens are read alike. -/
theorem Entry.read_alike
    (h : List.Forall₂ (Token.Alike r) (Lexeme.significant source) (Lexeme.significant source'))
    (entry : Entry) :
    Node.Alike r (entry.read source).1 (entry.read source').1 ∧
      List.Forall₂ (Problem.Alike r) (entry.read source).2.missing
        (entry.read source').2.missing := by
  have hsize : (ofTokens (Lexeme.tokens source')).rest.length =
      (ofTokens (Lexeme.tokens source)).rest.length := h.length_eq.symm
  have hparallel := Entry.parser_tracks r entry
    (ofTokens (Lexeme.tokens source)).rest.length _ _ (similar_ofTokens h)
  unfold Entry.read
  dsimp only
  rw [hsize]
  exact ⟨hparallel.alike, hparallel.similar.missing⟩

/-- Sorting alike problems by place keeps them alike. -/
theorem Problem.alike_mergeSort {l m : List Problem} (h : List.Forall₂ (Problem.Alike r) l m) :
    List.Forall₂ (Problem.Alike r)
      (l.mergeSort fun a b => a.span.start.offset ≤ b.span.start.offset)
      (m.mergeSort fun a b => a.span.start.offset ≤ b.span.start.offset) := by
  have halike : ∀ x ∈ l.zip m, Problem.Alike r x.1 x.2 := fun x hx => List.forall₂_zip h hx
  -- both lists are projections of one list of pairs, sorted by the places of the first
  have hfirst := List.map_mergeSort (f := Prod.fst) (l := l.zip m)
    (r := fun x y => decide (x.1.span.start.offset ≤ y.1.span.start.offset))
    (s := fun a b => decide (a.span.start.offset ≤ b.span.start.offset)) fun _ _ _ _ => rfl
  have hsecond := List.map_mergeSort (f := Prod.snd) (l := l.zip m)
    (r := fun x y => decide (x.1.span.start.offset ≤ y.1.span.start.offset))
    (s := fun a b => decide (a.span.start.offset ≤ b.span.start.offset)) fun x hx y hy =>
      decide_eq_decide.2 (r.le_iff (halike x hx).start (halike y hy).start)
  rw [List.map_fst_zip h.length_eq.le] at hfirst
  rw [List.map_snd_zip h.length_eq.ge] at hsecond
  rw [← hfirst, ← hsecond, List.forall₂_map_left_iff, List.forall₂_map_right_iff,
    List.forall₂_same]
  exact fun x hx => halike x (List.mem_mergeSort.1 hx)

/-- Sources with alike tokens have alike problems. -/
theorem Parsed.problems_alike
    (h : List.Forall₂ (Token.Alike r) (Lexeme.significant source) (Lexeme.significant source'))
    (entry : Entry) :
    List.Forall₂ (Problem.Alike r) (Parsed.ofSource entry source).problems
      (Parsed.ofSource entry source').problems := by
  obtain ⟨htree, hmissing⟩ := Entry.read_alike h entry
  exact Problem.alike_mergeSort (List.rel_append htree.problems (List.rel_reverse hmissing))

/-- Alike problems have the same messages. -/
theorem Problem.map_message_eq {l m : List Problem} (h : List.Forall₂ (Problem.Alike r) l m) :
    l.map Problem.message = m.map Problem.message := by
  induction h with
  | nil => rfl
  | cons hab _ ih => rw [List.map_cons, List.map_cons, hab.message_eq, ih]

/-- The tree of every source has the shape its nodes ask for. -/
theorem Entry.read_shaped (entry : Entry) (source : Text) : (entry.read source).1.Shaped :=
  (Entry.parser_tracks Pairing.same entry _ _ _ (similar_same source)).alike.shaped

/-- The names and literals in the tree of every source are tokens as the source has them. -/
theorem Entry.read_lexed (entry : Entry) (source : Text) :
    ∀ m ∈ (entry.read source).1.walk, m.Lexed :=
  (Entry.parser_tracks Pairing.same entry _ _ _ (similar_same source)).alike.lexed

/-- A compilation unit is read as one. -/
theorem Entry.read_kind (source : Text) :
    (Entry.compilationUnit.read source).1.kind = .compilationUnit := rfl

end Reading

section Answers

variable {g : Generator} {path : Text} {cu cu' : Node}

/-- A generated unit, from the outcome of its members and the draft they leave. -/
def unitOf (g : Generator) (path : Text) (outcome : Except Refusal Unit) (d : UnitDraft) :
    Except Failure GeneratedUnit := do
  outcome.mapError (UnitDraft.failure path)
  let model ← d.currentClass.1
  return { path, model, package := d.currentClass.2.package
           pending := d.currentClass.2.pending g.registry }

/-- A unit is generated in two steps: its members, and its class. -/
theorem generateUnit_eq (hkind : cu.kind = .compilationUnit) (hclean : cu.problems = []) :
    g.generateUnit path cu =
      unitOf g path (result (Lowering.compilationUnit cu) g.surroundings { file := path }).1
        (result (Lowering.compilationUnit cu) g.surroundings { file := path }).2 := by
  have hvisit : UnitDraft.visit { file := path } g.surroundings cu =
      ((result (Lowering.compilationUnit cu) g.surroundings { file := path }).1.mapError
        (UnitDraft.failure path),
        (result (Lowering.compilationUnit cu) g.surroundings { file := path }).2) := by
    simp only [UnitDraft.visit, hkind, hclean, ne_eq, not_true_eq_false, if_false]
    rfl
  unfold Generator.generateUnit
  rw [hvisit]
  rfl

/-- Answers that a caller cannot tell apart but for the text of a failure: the same unit, and
so the same files, or failures of one kind. -/
def SameAnswer : Except Failure GeneratedUnit → Except Failure GeneratedUnit → Prop
  | .ok unit, .ok unit' => unit = unit'
  | .error f, .error f' => f.kind = f'.kind
  | _, _ => False

theorem SameAnswer.refl (answer : Except Failure GeneratedUnit) : SameAnswer answer answer := by
  cases answer <;> rfl

/-- Units that differ in places only are answered alike. -/
theorem generateUnit_sameAnswer (h : cu.Twins cu') (hkind : cu.kind = .compilationUnit)
    (hclean : cu.problems = []) (hclean' : cu'.problems = []) :
    SameAnswer (g.generateUnit path cu) (g.generateUnit path cu') := by
  obtain ⟨houtcome, hstate⟩ := Lowering.compilationUnit_agrees h g.surroundings { file := path }
  rw [generateUnit_eq hkind hclean, generateUnit_eq (h.kind_eq.trans hkind) hclean', hstate]
  generalize (result (Lowering.compilationUnit cu) g.surroundings { file := path }).1 = outcome
    at houtcome ⊢
  generalize (result (Lowering.compilationUnit cu') g.surroundings { file := path }).1 = outcome'
    at houtcome ⊢
  cases houtcome with
  | ok _ => exact .refl _
  | refused _ _ _ => exact rfl

/-- What an accepted unit can be answered with. -/
inductive UnitAnswer (cu : Node) : Except Failure GeneratedUnit → Prop where
  /-- A unit, if a class or interface is declared. -/
  | generated (unit : GeneratedUnit) (h : ∃ n ∈ cu.children, Lowering.declaresType n) :
    UnitAnswer cu (.ok unit)
  /-- A construct without a counterpart. -/
  | unsupported (f : Failure) (h : f.kind = .unsupported) : UnitAnswer cu (.error f)
  /-- No class and no interface. -/
  | noType (f : Failure) (h : f.kind = .precondition)
    (hnone : ¬ ∃ n ∈ cu.children, Lowering.declaresType n) : UnitAnswer cu (.error f)

/-- Every accepted unit is answered. -/
theorem generateUnit_answer (hshaped : cu.Shaped) (hkind : cu.kind = .compilationUnit)
    (hclean : cu.problems = []) : UnitAnswer cu (g.generateUnit path cu) := by
  have houtcome := (Lowering.compilationUnit_agrees ⟨rfl, hshaped⟩ g.surroundings
    { file := path }).1
  have hleads := Lowering.compilationUnit_leads cu g.surroundings { file := path }
  rw [generateUnit_eq hkind hclean]
  generalize result (Lowering.compilationUnit cu) g.surroundings { file := path } = p
    at houtcome hleads ⊢
  obtain ⟨outcome, d⟩ := p
  cases houtcome with
  | refused construct place _ => exact .unsupported _ rfl
  | ok _ =>
    rcases hleads _ d ⟨rfl, rfl⟩ rfl with ⟨hstage, hdeclared⟩ | ⟨hstage, hnone⟩
    · obtain ⟨model, hmodel⟩ := hstage.currentClass_ok
      simp only [unitOf, hmodel]
      exact .generated _ hdeclared
    · simp only [unitOf, hstage.currentClass_error]
      exact .noType _ rfl hnone

/-- A source without problems is generated from its tree. -/
theorem generateSource_of_accepted {source : Text} (g : Generator) (path : Text)
    (h : (Parsed.ofSource .compilationUnit source).problems = []) :
    g.generateSource path source =
      g.generateParsed path (Entry.compilationUnit.read source).1 := by
  simp only [Generator.generateSource, parseForGeneration, parseUnit, h]
  rfl

/-- A source with problems is rejected, and the generator stays as it is. -/
theorem generateSource_of_rejected {source : Text} (g : Generator) (path : Text)
    (h : (Parsed.ofSource .compilationUnit source).problems ≠ []) :
    ∃ e, g.generateSource path source = (.error (.rejected e), g) := by
  obtain ⟨first, more, hproblems⟩ := List.exists_cons_of_ne_nil h
  refine ⟨⟨path, first :: more⟩, ?_⟩
  simp only [Generator.generateSource, parseForGeneration, parseUnit, hproblems]

/-- The answer for a parsed unit is that of the generator that knows its class. -/
theorem generateParsed_answer (g : Generator) (path : Text) (cu : Node) :
    (g.generateParsed path cu).1 = (g.declareUnit cu).generateUnit path cu := by
  unfold Generator.generateParsed
  dsimp only
  cases (g.declareUnit cu).generateUnit path cu <;> rfl

/-- Parsed units that differ in places only are answered alike and leave the same generator. -/
theorem generateParsed_sameAnswer (h : cu.Twins cu') (hkind : cu.kind = .compilationUnit)
    (hclean : cu.problems = []) (hclean' : cu'.problems = []) :
    SameAnswer (g.generateParsed path cu).1 (g.generateParsed path cu').1 ∧
      (g.generateParsed path cu').2 = (g.generateParsed path cu).2 := by
  have hdeclared : g.declareUnit cu' = g.declareUnit cu := by
    unfold Generator.declareUnit
    rw [← Registry.declareUnit_erase _ cu', ← h.erase_eq, Registry.declareUnit_erase]
  have hsame : SameAnswer ((g.declareUnit cu).generateUnit path cu)
      ((g.declareUnit cu).generateUnit path cu') :=
    generateUnit_sameAnswer h hkind hclean hclean'
  unfold Generator.generateParsed
  dsimp only
  rw [hdeclared]
  generalize (g.declareUnit cu).generateUnit path cu = answer at hsame ⊢
  generalize (g.declareUnit cu).generateUnit path cu' = answer' at hsame ⊢
  cases answer <;> cases answer'
  case ok.ok unit unit' =>
    subst hsame
    exact ⟨rfl, rfl⟩
  case error.error => exact ⟨hsame, rfl⟩
  case ok.error => exact hsame.elim
  case error.ok => exact hsame.elim

end Answers

/-- How a source can end. It is rejected exactly if it has a problem. Any other source
gives a unit, or is refused for an unsupported construct, or declares no class and no
interface; its tree has the shape its nodes ask for, and generating from it never meets a
part that is not there. Each method of a unit has a keyword for each of its parameters,
and at least one. -/
theorem generateSource_outcome (g : Generator) (path source : Text) :
    ((∃ f, (g.generateSource path source).1 = .error f ∧ f.kind = .parse) ↔
        (Parsed.ofSource .compilationUnit source).problems ≠ []) ∧
      ((Parsed.ofSource .compilationUnit source).problems = [] →
        UnitAnswer (Parsed.ofSource .compilationUnit source).tree
            (g.generateSource path source).1 ∧
          (Parsed.ofSource .compilationUnit source).tree.Shaped ∧
          ∀ around draft, ((Lowering.compilationUnit
            (Parsed.ofSource .compilationUnit source).tree).run' around draft).1 ≠
              .error .malformed) ∧
      ∀ unit, (g.generateSource path source).1 = .ok unit →
        ∀ m ∈ unit.model.methods ++ unit.model.definedMethods,
          m.keywords.length = max 1 m.parameters.length := by
  have htree : (Parsed.ofSource .compilationUnit source).tree =
      (Entry.compilationUnit.read source).1 := rfl
  have hshaped := Entry.read_shaped .compilationUnit source
  rw [htree]
  have hanswer : (Parsed.ofSource .compilationUnit source).problems = [] →
      UnitAnswer (Entry.compilationUnit.read source).1 (g.generateSource path source).1 := by
    intro hproblems
    have hclean := ((Parsed.problems_eq_nil_iff _ _).1 hproblems).1
    rw [generateSource_of_accepted g path hproblems, generateParsed_answer]
    exact generateUnit_answer hshaped (Entry.read_kind source) hclean
  refine ⟨⟨?_, ?_⟩, fun hproblems => ⟨hanswer hproblems, hshaped, ?_⟩, ?_⟩
  · rintro ⟨f, hf, hkind⟩ hproblems
    have hunit := hanswer hproblems
    rw [hf] at hunit
    cases hunit with
    | unsupported _ h => exact absurd (h.symm.trans hkind) (by decide)
    | noType _ h _ => exact absurd (h.symm.trans hkind) (by decide)
  · intro hproblems
    obtain ⟨e, he⟩ := generateSource_of_rejected g path hproblems
    exact ⟨_, by rw [he], rfl⟩
  · intro around draft hmalformed
    have houtcome := (Lowering.compilationUnit_agrees ⟨rfl, hshaped⟩ around draft).1
    change (result (Lowering.compilationUnit (Entry.compilationUnit.read source).1)
      around draft).1 = _ at hmalformed
    rw [hmalformed] at houtcome
    cases houtcome
  · intro unit _ m _
    rw [TargetMethod.keywords, Lowering.length_selectorKeywords, TargetMethod.parameterNames,
      List.length_map]

/-- A class whose method adds its two parameters. -/
def additionSource : Text := "class A \x7b int f(int a, int b) \x7b return a + b; \x7d \x7d"

/-- The source of the addition has no problems, and its unit is generated. -/
theorem generateSource_outcome_addition :
    (Parsed.ofSource .compilationUnit additionSource).problems = [] ∧
      ∃ unit, (({} : Generator).generateSource "A.java" additionSource).1 = .ok unit ∧
        ∀ m ∈ unit.model.methods ++ unit.model.definedMethods,
          m.keywords.length = max 1 m.parameters.length := by
  obtain ⟨hproblems, hsupported⟩ :
      (Parsed.ofSource .compilationUnit additionSource).problems = [] ∧
      (({} : Generator).generateSource "A.java" additionSource).1.isOk = true := by decide +kernel
  obtain ⟨-, haccepted, hkeywords⟩ := generateSource_outcome {} "A.java" additionSource
  refine ⟨hproblems, ?_⟩
  have hanswer := (haccepted hproblems).1
  generalize (({} : Generator).generateSource "A.java" additionSource).1 = answer
    at hsupported hanswer hkeywords ⊢
  cases hanswer with
  | generated unit _ => exact ⟨unit, rfl, hkeywords unit rfl⟩
  | unsupported _ _ => exact absurd hsupported Bool.false_ne_true
  | noType _ _ _ => exact absurd hsupported Bool.false_ne_true

/-- Layout does not matter. Sources that say the same have the same tree but for places, the
same messages in the same order, and from every generator the same unit or a failure of
the same kind; and they leave the same generator behind. -/
theorem layout_irrelevant {source source' : Text}
    (h : Lexeme.wording source = Lexeme.wording source') :
    (∀ entry, (Parsed.ofSource entry source).tree.erase =
          (Parsed.ofSource entry source').tree.erase ∧
        (Parsed.ofSource entry source).problems.map Problem.message =
          (Parsed.ofSource entry source').problems.map Problem.message) ∧
      ∀ (g : Generator) (path : Text),
        SameAnswer (g.generateSource path source).1 (g.generateSource path source').1 ∧
          (g.generateSource path source').2 = (g.generateSource path source).2 := by
  obtain ⟨r, htokens⟩ := Lexeme.exists_pairing_of_wording_eq h
  have hproblems := fun entry => Parsed.problems_alike htokens entry
  refine ⟨fun entry => ⟨(Entry.read_alike htokens entry).1.erase_eq,
    Problem.map_message_eq (hproblems entry)⟩, fun g path => ?_⟩
  have hlength := (hproblems .compilationUnit).length_eq
  by_cases hclean : (Parsed.ofSource .compilationUnit source).problems = []
  · have hclean' : (Parsed.ofSource .compilationUnit source').problems = [] :=
      List.length_eq_zero_iff.1 (hlength.symm.trans (List.length_eq_zero_iff.2 hclean))
    obtain ⟨htree, -⟩ := Entry.read_alike htokens .compilationUnit
    rw [generateSource_of_accepted g path hclean, generateSource_of_accepted g path hclean']
    exact generateParsed_sameAnswer ⟨htree.erase_eq, htree.shaped⟩ (Entry.read_kind source)
      ((Parsed.problems_eq_nil_iff _ _).1 hclean).1 ((Parsed.problems_eq_nil_iff _ _).1 hclean').1
  · have hproblems' : (Parsed.ofSource .compilationUnit source').problems ≠ [] := by
      intro hnil
      exact hclean (List.length_eq_zero_iff.1 (hlength.trans (List.length_eq_zero_iff.2 hnil)))
    obtain ⟨e, he⟩ := generateSource_of_rejected g path hclean
    obtain ⟨e', he'⟩ := generateSource_of_rejected g path hproblems'
    rw [he, he']
    exact ⟨rfl, rfl⟩

/-- Blanks and a comment between the tokens of a field change nothing in the tree. -/
theorem layout_irrelevant_field :
    Lexeme.wording "class A\x7bList<List<A>>x;\x7d" =
        Lexeme.wording "class A \x7b\n  List< List<A>> x; // all\n\x7d" ∧
      ∀ entry, (Parsed.ofSource entry "class A\x7bList<List<A>>x;\x7d").tree.erase =
        (Parsed.ofSource entry "class A \x7b\n  List< List<A>> x; // all\n\x7d").tree.erase := by
  have hwording : Lexeme.wording "class A\x7bList<List<A>>x;\x7d" =
      Lexeme.wording "class A \x7b\n  List< List<A>> x; // all\n\x7d" := by decide +kernel
  exact ⟨hwording, fun entry => ((layout_irrelevant hwording).1 entry).1⟩

end JavaObjC
