import JavaObjC.Editor.Session
import JavaObjC.Proofs.Links.Consistency

/-!
# What an editor is told depends on what is open

A workspace goes through a history of updates and closes. What it says about a
document depends on the texts that are open in the end, and not on the order in
which they were opened or on what was open before: the classes of the other
documents can be declared in any order as long as they have different names.
Documents that do not parse declare nothing, so they do not count at all.
-/

namespace JavaObjC

namespace Generator

/-- Declaring sources in order declares the signatures of those that parse. -/
theorem declareSources_eq (g : Generator) (sources : List (Text × Text)) :
    (g.declareSources sources).2 =
      { g with registry := g.registry.declareAll (signatures (parsedSources sources)) } := by
  rw [← declareAll_eq]
  induction sources generalizing g with
  | nil => rfl
  | cons document rest ih =>
    obtain ⟨path, source⟩ := document
    change ((g.declareSource path source).2.declareSources rest).2 = _
    rw [ih]
    unfold declareSource parsedSources declareAll
    rw [List.map_cons, List.foldl_cons]
    dsimp only
    cases parseForGeneration path source <;> rfl

/-- A source is generated the same way by generators that know alike classes. -/
theorem generateSource_of_alike {g g' : Generator} (hregistry : g.registry.Alike g'.registry)
    (hmapper : g'.mapper = g.mapper) (path source : Text) :
    (g'.generateSource path source).1 = (g.generateSource path source).1 := by
  unfold generateSource
  cases parseForGeneration path source with
  | error f => rfl
  | ok cu =>
    have hdeclared : (g.declareUnit cu).registry.Alike (g'.declareUnit cu).registry := by
      unfold declareUnit Registry.declareUnit
      cases Registry.unitSignature? cu with
      | none => exact hregistry
      | some s => exact hregistry.declareSignature (.refl s)
    have hunit : (g'.declareUnit cu).generateUnit path cu = (g.declareUnit cu).generateUnit path cu :=
      generateUnit_of_alike hdeclared hmapper path cu
    simp only [generateParsed, hunit]
    cases (g.declareUnit cu).generateUnit path cu <;> rfl

end Generator

open Generator

namespace Workspace

/-- What an editor does to the documents of a workspace. -/
inductive Edit where
  | update (path source : Text)
  | close (path : Text)

/-- The workspace after an edit. -/
def perform (w : Workspace) : Edit → Workspace
  | .update path source => w.update path source
  | .close path => w.close path

/-- A workspace with configured types after a history of edits. -/
def after (typeMap : List (Text × Text)) (history : List Edit) : Workspace :=
  history.foldl perform { typeMap }

/-- Whether a document parses. -/
def parses (document : Text × Text) : Bool :=
  (parseForGeneration document.1 document.2).toOption.isSome

variable {typeMap : List (Text × Text)} {history history' : List Edit} {path : Text}

theorem after_typeMap : (after typeMap history).typeMap = typeMap := by
  have hkeeps : ∀ w : Workspace, (history.foldl perform w).typeMap = w.typeMap := by
    induction history with
    | nil => exact fun _ => rfl
    | cons edit rest ih =>
      intro w
      rw [List.foldl_cons, ih]
      cases edit <;> rfl
  exact hkeeps _

/-- An edit keeps the paths of the open documents distinct. -/
theorem perform_nodup {w : Workspace} (h : (w.documents.map Prod.fst).Nodup) (edit : Edit) :
    ((w.perform edit).documents.map Prod.fst).Nodup := by
  cases edit with
  | update path source => exact nodup_keys_setKey path source h
  | close path => exact h.sublist (List.filter_sublist.map Prod.fst)

/-- After every history each path is open once at most. -/
theorem after_nodup (typeMap : List (Text × Text)) (history : List Edit) :
    ((after typeMap history).documents.map Prod.fst).Nodup := by
  have hkeeps : ∀ w : Workspace, (w.documents.map Prod.fst).Nodup →
      ((history.foldl perform w).documents.map Prod.fst).Nodup := by
    induction history with
    | nil => exact fun _ h => h
    | cons edit rest ih => exact fun w h => ih _ (perform_nodup h edit)
  exact hkeeps _ List.nodup_nil

/-- Documents that do not parse declare nothing. -/
theorem signatures_parsedSources (documents : List (Text × Text)) :
    signatures (parsedSources documents) =
      (documents.filter parses).filterMap fun d =>
        fileSignature? (d.1, parseForGeneration d.1 d.2) := by
  unfold signatures parsedSources
  rw [List.filterMap_map, List.filterMap_filter]
  refine congrArg (List.filterMap · documents) (funext fun d => ?_)
  change fileSignature? (d.1, parseForGeneration d.1 d.2) = _
  unfold parses fileSignature?
  cases parseForGeneration d.1 d.2 <;> rfl

/-- Histories that leave the same other documents open, as far as they parse, leave the same
documents to declare, in some order. -/
theorem parsed_others_perm
    (h : ∀ document, document.1 ≠ path → parses document = true →
      (document ∈ (after typeMap history').documents ↔
        document ∈ (after typeMap history).documents)) :
    (((after typeMap history).others path).filter parses).Perm
      (((after typeMap history').others path).filter parses) := by
  have hnodup : ∀ history, (((after typeMap history).others path).filter parses).Nodup := by
    intro history
    have hdocuments := List.Nodup.of_map Prod.fst (after_nodup typeMap history)
    exact (hdocuments.filter _).filter _
  rw [List.perm_ext_iff_of_nodup (hnodup history) (hnodup history')]
  intro document
  simp only [others, dropKey, List.mem_filter, decide_eq_true_eq]
  constructor
  · rintro ⟨⟨hmem, hne⟩, hparses⟩
    exact ⟨⟨(h document hne hparses).2 hmem, hne⟩, hparses⟩
  · rintro ⟨⟨hmem, hne⟩, hparses⟩
    exact ⟨⟨(h document hne hparses).1 hmem, hne⟩, hparses⟩

/-- The language server's answers depend on what is open and on nothing else. Take two histories
of a workspace after which a document has the same text, and the same other documents are open as
far as these parse. If the classes that the other documents declare have different names, then the
document is generated as the same unit, or fails in the same way; so it gets the same diagnostics
and the same header, and hovering shows the same. -/
theorem analysis_of_open_documents
    (hsame : (after typeMap history').source? path = (after typeMap history).source? path)
    (hothers : ∀ document, document.1 ≠ path → parses document = true →
      (document ∈ (after typeMap history').documents ↔
        document ∈ (after typeMap history).documents))
    (hnames : ((signatures (parsedSources ((after typeMap history).others path))).map
      ClassSignature.name).Nodup) :
    (after typeMap history').analyze path = (after typeMap history).analyze path ∧
      Diagnostic.ofResult ((after typeMap history').analyze path) =
        Diagnostic.ofResult ((after typeMap history).analyze path) ∧
      ∀ version uri, Uri.path? uri = some path →
        EditorSession.hover? ⟨version, after typeMap history'⟩ uri =
          EditorSession.hover? ⟨version, after typeMap history⟩ uri := by
  have hanalyze : (after typeMap history').analyze path = (after typeMap history).analyze path := by
    unfold analyze
    rw [hsame]
    cases (after typeMap history).source? path with
    | none => rfl
    | some source =>
      dsimp only
      refine generateSource_of_alike ?_ ?_ path source
      · rw [declareSources_eq, declareSources_eq, after_typeMap, after_typeMap]
        refine Registry.declareAll_perm (ofOptions_distinct _) ?_ hnames
        rw [signatures_parsedSources, signatures_parsedSources]
        exact (parsed_others_perm hothers).filterMap _
      · rw [declareSources_eq, declareSources_eq, after_typeMap, after_typeMap]
  refine ⟨hanalyze, congrArg Diagnostic.ofResult hanalyze, fun version uri huri => ?_⟩
  have hheader : (after typeMap history').header? path = (after typeMap history).header? path := by
    rw [header?, header?, hanalyze]
  unfold EditorSession.hover?
  rw [huri]
  change ((after typeMap history').header? path >>= _) = ((after typeMap history).header? path >>= _)
  rw [hheader]

/-- A document with a class that reads a field it inherits. -/
def heir : Text × Text := ("A.java", "class A extends B\x7bint f()\x7breturn x;\x7d\x7d")

/-- A document with the class that declares the field. -/
def ancestor : Text × Text := ("B.java", "class B\x7bint x;\x7d")

/-- A document that does not parse. -/
def unfinished : Text × Text := ("X.java", "class")

/-- The heir opened first, and a document that does not parse next to it. -/
def heirFirst : List Edit :=
  [.update heir.1 heir.2, .update unfinished.1 unfinished.2, .update ancestor.1 ancestor.2]

/-- The heir opened last, after changes of other documents. -/
def heirLast : List Edit :=
  [.update "C.java" ancestor.2, .update ancestor.1 "class B\x7b\x7d", .close "C.java",
    .update ancestor.1 ancestor.2, .update heir.1 [], .update heir.1 heir.2]

/-- Both histories say the same about the heir. -/
theorem analysis_of_open_documents_heir :
    ((after [] heirLast).source? heir.1 = (after [] heirFirst).source? heir.1 ∧
      (∀ document, document.1 ≠ heir.1 → parses document = true →
        (document ∈ (after [] heirLast).documents ↔ document ∈ (after [] heirFirst).documents)) ∧
      ((signatures (parsedSources ((after [] heirFirst).others heir.1))).map
        ClassSignature.name).Nodup) ∧
    (after [] heirLast).analyze heir.1 = (after [] heirFirst).analyze heir.1 := by
  have hsame : (after [] heirLast).source? heir.1 = (after [] heirFirst).source? heir.1 := by
    decide +kernel
  have hnames : ((signatures (parsedSources ((after [] heirFirst).others heir.1))).map
      ClassSignature.name).Nodup := by decide +kernel
  have hunparsed : parses unfinished = false := by decide +kernel
  have hfirst : (after [] heirFirst).documents = [heir, unfinished, ancestor] := by decide +kernel
  have hlast : (after [] heirLast).documents = [ancestor, heir] := by decide +kernel
  have hothers : ∀ document, document.1 ≠ heir.1 → parses document = true →
      (document ∈ (after [] heirLast).documents ↔ document ∈ (after [] heirFirst).documents) := by
    intro document _ hparses
    have hne : document ≠ unfinished := fun heq => by
      rw [heq, hunparsed] at hparses
      cases hparses
    rw [hfirst, hlast]
    simp only [List.mem_cons, List.not_mem_nil, or_false, hne, false_or]
    exact or_comm
  exact ⟨⟨hsame, hothers, hnames⟩, (analysis_of_open_documents hsame hothers hnames).1⟩

end Workspace

end JavaObjC
