import JavaObjC.Generator.Batch
import JavaObjC.Proofs.Lowering.Steadiness

/-!
# What the units of a batch see of each other

A batch declares the classes of all its files before it generates any of them.
What a name stands for afterwards is decided by the signatures that were
declared, and by nothing else of the files. So a file is generated the same way
in two batches whose other files declare alike signatures, and in any two orders
of files that declare different names.
-/

namespace JavaObjC

open Generating

namespace Registry

variable {r r' : Registry} {s s' : ClassSignature}

/-- The entry a declared class gets, given what was known of its name. -/
def declaredEntry (known : Option RegistryEntry) (s : ClassSignature) : RegistryEntry :=
  let fresh := ClassRef.placeholder s.name s.isInterface
  match known with
  | some e =>
    if suits e s.isInterface then { e with signature := some s }
    else { e with target := fresh, signature := some s }
  | none => { target := fresh, signature := some s }

/-- An entry that was set is found. -/
theorem entry?_setEntry_self (r : Registry) (name : Text) (e : RegistryEntry) :
    entry? (r.setEntry name e) name = some e := getKey?_setKey_self name e r.entries

/-- Other entries are found as before. -/
theorem entry?_setEntry_of_ne {name other : Text} (h : other ≠ name) (r : Registry)
    (e : RegistryEntry) : entry? (r.setEntry name e) other = r.entry? other :=
  getKey?_setKey_of_ne h e r.entries

/-- A declared class is known under its name. -/
theorem entry?_declareSignature_self (r : Registry) (s : ClassSignature) :
    entry? (r.declareSignature s) s.name = some (declaredEntry (r.entry? s.name) s) := by
  unfold declareSignature declare declaredEntry
  dsimp only
  cases hentry : r.entry? s.name with
  | none => simp only [entry?_setEntry_self]
  | some e =>
    by_cases hsuits : suits e s.isInterface = true
    · simp only [hsuits, if_true, hentry, entry?_setEntry_self]
    · simp only [hsuits, if_false, entry?_setEntry_self, Bool.false_eq_true]

/-- Declaring a class leaves the other names alone. -/
theorem entry?_declareSignature_of_ne {name : Text} (h : name ≠ s.name) (r : Registry) :
    entry? (r.declareSignature s) name = r.entry? name := by
  have hdeclare : entry? (r.declare s.name s.isInterface) name = r.entry? name := by
    unfold declare
    dsimp only
    cases r.entry? s.name with
    | none => exact entry?_setEntry_of_ne h r _
    | some e =>
      dsimp only
      split
      · rfl
      · exact entry?_setEntry_of_ne h r _
  unfold declareSignature
  dsimp only
  split
  · rw [entry?_setEntry_of_ne h, hdeclare]
  · exact hdeclare

/-- Alike entries declare alike signatures to alike entries. -/
theorem declaredEntry_alike {known known' : Option RegistryEntry}
    (hknown : Option.Rel RegistryEntry.Alike known known') (hs : s.Alike s') :
    (declaredEntry known s).Alike (declaredEntry known' s') := by
  unfold declaredEntry
  cases hknown with
  | none =>
    dsimp only
    rw [hs.name_eq, hs.isInterface_eq]
    exact ⟨rfl, rfl, .some hs⟩
  | @some e e' he =>
    have hsuits : suits e' s'.isInterface = suits e s.isInterface := by
      rw [suits, suits, he.isDefined_eq, he.target_eq, hs.isInterface_eq]
    dsimp only
    rw [hsuits, hs.name_eq, hs.isInterface_eq]
    split
    · exact ⟨he.target_eq, he.isDefined_eq, .some hs⟩
    · exact ⟨rfl, he.isDefined_eq, .some hs⟩

/-- Alike signatures declared in alike registries leave alike registries. -/
theorem Alike.declareSignature (h : r.Alike r') (hs : s.Alike s') :
    (r.declareSignature s).Alike (r'.declareSignature s') := by
  refine ⟨fun name => ?_, declareSignature_distinct h.distinct s,
    declareSignature_distinct h.distinct' s'⟩
  by_cases hname : name = s.name
  · have hself := entry?_declareSignature_self r' s'
    rw [hs.name_eq] at hself
    rw [hname, entry?_declareSignature_self, hself]
    exact .some (declaredEntry_alike (h.entry s.name) hs)
  · rw [entry?_declareSignature_of_ne hname,
      entry?_declareSignature_of_ne (by rw [hs.name_eq]; exact hname)]
    exact h.entry name

/-- Several declared signatures, one after the other. -/
def declareAll (r : Registry) (signatures : List ClassSignature) : Registry :=
  signatures.foldl declareSignature r

/-- Declaring signatures keeps the names apart. -/
theorem declareAll_distinct (h : r.Distinct) (signatures : List ClassSignature) :
    (r.declareAll signatures).Distinct := by
  induction signatures generalizing r with
  | nil => exact h
  | cons s rest ih => exact ih (declareSignature_distinct h s)

/-- Alike registries stay so when alike signatures are declared. -/
theorem Alike.declareAll (h : r.Alike r') {signatures signatures' : List ClassSignature}
    (hs : List.Forall₂ ClassSignature.Alike signatures signatures') :
    (r.declareAll signatures).Alike (r'.declareAll signatures') := by
  induction hs generalizing r r' with
  | nil => exact h
  | cons hs _ ih => exact ih (h.declareSignature hs)

/-- Names that are not declared stay as they are. -/
theorem entry?_declareAll_of_notMem {name : Text} {signatures : List ClassSignature}
    (h : name ∉ signatures.map ClassSignature.name) (r : Registry) :
    entry? (r.declareAll signatures) name = r.entry? name := by
  induction signatures generalizing r with
  | nil => rfl
  | cons s rest ih =>
    rw [List.map_cons, List.mem_cons, not_or] at h
    exact (ih h.2 _).trans (entry?_declareSignature_of_ne h.1 r)

/-- Among signatures with different names each one decides what its own name stands for. -/
theorem entry?_declareAll_of_mem {signatures : List ClassSignature}
    (hnames : (signatures.map ClassSignature.name).Nodup) (hs : s ∈ signatures) (r : Registry) :
    entry? (r.declareAll signatures) s.name = some (declaredEntry (r.entry? s.name) s) := by
  induction signatures generalizing r with
  | nil => cases hs
  | cons t rest ih =>
    rw [List.map_cons, List.nodup_cons] at hnames
    rcases List.mem_cons.1 hs with rfl | hrest
    · exact (entry?_declareAll_of_notMem hnames.1 _).trans (entry?_declareSignature_self r s)
    · have hne : s.name ≠ t.name := fun heq =>
        hnames.1 (heq ▸ List.mem_map_of_mem (f := ClassSignature.name) hrest)
      have hrest := ih hnames.2 hrest (r.declareSignature t)
      rwa [entry?_declareSignature_of_ne hne] at hrest

/-- Different names can be declared in any order. -/
theorem declareAll_perm (h : r.Distinct) {signatures signatures' : List ClassSignature}
    (hperm : signatures.Perm signatures') (hnames : (signatures.map ClassSignature.name).Nodup) :
    (r.declareAll signatures).Alike (r.declareAll signatures') := by
  have hnames' : (signatures'.map ClassSignature.name).Nodup :=
    (hperm.map ClassSignature.name).nodup_iff.1 hnames
  have hrefl : ∀ e : RegistryEntry, e.Alike e := by
    intro e
    refine ⟨rfl, rfl, ?_⟩
    cases e.signature with
    | none => exact .none
    | some s => exact .some (.refl s)
  have hentry : ∀ name, entry? (r.declareAll signatures') name =
      entry? (r.declareAll signatures) name := by
    intro name
    by_cases hname : name ∈ signatures.map ClassSignature.name
    · obtain ⟨s, hs, rfl⟩ := List.mem_map.1 hname
      rw [entry?_declareAll_of_mem hnames hs, entry?_declareAll_of_mem hnames' (hperm.mem_iff.1 hs)]
    · rw [entry?_declareAll_of_notMem hname,
        entry?_declareAll_of_notMem (fun h => hname ((hperm.map _).mem_iff.2 h))]
  refine ⟨fun name => ?_, declareAll_distinct h signatures, declareAll_distinct h signatures'⟩
  rw [hentry]
  cases entry? (r.declareAll signatures) name with
  | none => exact .none
  | some e => exact .some (hrefl e)

end Registry

namespace Generator

variable {g g' : Generator}

/-- A unit is generated the same way by generators that know alike classes. -/
theorem generateUnit_of_alike (hregistry : g.registry.Alike g'.registry)
    (hmapper : g'.mapper = g.mapper) (path : Text) (cu : Node) :
    g'.generateUnit path cu = g.generateUnit path cu := by
  have haround : g.surroundings.Alike g'.surroundings :=
    ⟨hregistry, hmapper, rfl, rfl, rfl, rfl, rfl⟩
  have hvisit : ∀ d : UnitDraft, d.visit g'.surroundings cu = d.visit g.surroundings cu := by
    intro d
    have hunit := Lowering.compilationUnit_steady cu _ _ haround d
    change (Lowering.compilationUnit cu).run' g'.surroundings d =
      (Lowering.compilationUnit cu).run' g.surroundings d at hunit
    unfold UnitDraft.visit
    rw [hunit]
  have hpending : ∀ d : UnitDraft, d.pending g'.registry = d.pending g.registry := by
    intro d
    simp only [UnitDraft.pending, hregistry.lookup_eq]
  simp only [generateUnit, hvisit, hpending]

/-- The signature that a file of a batch declares, if it could be parsed and declares one. -/
def fileSignature? (parsed : Text × Except Failure Node) : Option ClassSignature :=
  match parsed.2 with
  | .ok cu => Registry.unitSignature? cu
  | .error _ => none

/-- The signatures that the files of a batch declare. -/
def signatures (parsed : List (Text × Except Failure Node)) : List ClassSignature :=
  parsed.filterMap fileSignature?

/-- A batch declares the signatures of its files. -/
theorem declareAll_eq (g : Generator) (parsed : List (Text × Except Failure Node)) :
    g.declareAll parsed = { g with registry := g.registry.declareAll (signatures parsed) } := by
  unfold declareAll signatures
  induction parsed generalizing g with
  | nil => rfl
  | cons file rest ih =>
    obtain ⟨path, outcome⟩ := file
    rw [List.foldl_cons, ih]
    cases outcome with
    | error f => rfl
    | ok cu =>
      cases hs : Registry.unitSignature? cu with
      | none =>
        simp only [declareUnit, Registry.declareUnit, List.filterMap_cons, fileSignature?, hs]
      | some s =>
        simp only [declareUnit, Registry.declareUnit, List.filterMap_cons, fileSignature?, hs]
        rfl

/-- The files of a batch, parsed. -/
def parsedFiles (d : Directory) (paths : List Text) : List (Text × Except Failure Node) :=
  paths.map fun path => (path, parseFile d path)

/-- What a batch makes of each of its files before it writes anything. -/
def translations (g : Generator) (d : Directory) (paths : List Text) :
    List (Text × Except Failure GeneratedUnit) :=
  (g.declareAll (parsedFiles d paths)).generateAll (parsedFiles d paths)

/-- A file that other files see the same way in two directories: it reads the same, or it parses
in both and declares alike signatures or none. -/
def SeenAlike (d d' : Directory) (path : Text) : Prop :=
  readSource d' path = readSource d path ∨
    ∃ cu cu', parseFile d path = .ok cu ∧ parseFile d' path = .ok cu' ∧
      Option.Rel ClassSignature.Alike (Registry.unitSignature? cu) (Registry.unitSignature? cu')

/-- What a file is parsed to depends on its content only. -/
theorem parseFile_eq {d d' : Directory} {path : Text}
    (h : readSource d' path = readSource d path) : parseFile d' path = parseFile d path := by
  rw [parseFile, parseFile, h]

/-- A source without problems is parsed. -/
theorem parseForGeneration_of_accepted (path : Text) {source : Text}
    (h : (Parsed.ofSource .compilationUnit source).problems = []) :
    parseForGeneration path source = .ok (Entry.compilationUnit.read source).1 := by
  simp only [parseForGeneration, parseUnit, h]
  rfl

/-- A file that reads as a source without problems is parsed. -/
theorem parseFile_of_accepted {d : Directory} {path source : Text}
    (hread : readSource d path = .ok source)
    (h : (Parsed.ofSource .compilationUnit source).problems = []) :
    parseFile d path = .ok (Entry.compilationUnit.read source).1 := by
  rw [parseFile, hread]
  exact parseForGeneration_of_accepted path h

/-- Files that are seen alike declare alike signatures or none. -/
theorem SeenAlike.fileSignature {d d' : Directory} {path : Text} (h : SeenAlike d d' path) :
    Option.Rel ClassSignature.Alike (fileSignature? (path, parseFile d path))
      (fileSignature? (path, parseFile d' path)) := by
  rcases h with hsame | ⟨cu, cu', hcu, hcu', hsignature⟩
  · rw [parseFile_eq hsame]
    cases fileSignature? (path, parseFile d path) with
    | none => exact .none
    | some s => exact .some (.refl s)
  · simp only [fileSignature?, hcu, hcu']
    exact hsignature

/-- Batches whose files are seen alike declare alike signatures. -/
theorem signatures_alike {d d' : Directory} {paths : List Text}
    (h : ∀ path ∈ paths, SeenAlike d d' path) :
    List.Forall₂ ClassSignature.Alike (signatures (parsedFiles d paths))
      (signatures (parsedFiles d' paths)) := by
  unfold signatures parsedFiles
  induction paths with
  | nil => exact .nil
  | cons path rest ih =>
    rw [List.forall_mem_cons] at h
    have hfirst := h.1.fileSignature
    rw [List.map_cons, List.map_cons, List.filterMap_cons, List.filterMap_cons]
    generalize fileSignature? (path, parseFile d path) = s at hfirst ⊢
    generalize fileSignature? (path, parseFile d' path) = s' at hfirst ⊢
    cases hfirst with
    | none => exact ih h.2
    | some hs => exact .cons hs (ih h.2)

/-- A fresh generator knows no class. -/
theorem ofOptions_distinct (options : GeneratorOptions) :
    (ofOptions options).registry.Distinct := List.nodup_nil

/-- Units see each other through signatures only. Take two batches over the same paths, run by
fresh generators with the same configured types, and a path that reads the same in both. If
every other path reads the same in both directories too, or parses in both and declares alike
signatures, then the path gets the same unit, with the same texts, package and pending names,
or the same failure. -/
theorem translation_sees_signatures {options options' : GeneratorOptions}
    (hmap : options'.typeMap = options.typeMap) {d d' : Directory} {paths : List Text}
    {path : Text} (hsame : readSource d' path = readSource d path)
    (hothers : ∀ other ∈ paths, other ≠ path → SeenAlike d d' other) {i : Nat}
    (hi : paths[i]? = some path) :
    ((ofOptions options').translations d' paths)[i]? =
      ((ofOptions options).translations d paths)[i]? := by
  have hseen : ∀ other ∈ paths, SeenAlike d d' other := by
    intro other hother
    by_cases heq : other = path
    · exact .inl (heq ▸ hsame)
    · exact hothers other hother heq
  have hregistry : ((ofOptions options).declareAll (parsedFiles d paths)).registry.Alike
      ((ofOptions options').declareAll (parsedFiles d' paths)).registry := by
    rw [declareAll_eq, declareAll_eq]
    have hfresh : (ofOptions options).registry.Alike (ofOptions options').registry :=
      ⟨fun _ => .none, ofOptions_distinct options, ofOptions_distinct options'⟩
    exact hfresh.declareAll (signatures_alike hseen)
  have hmapper : ((ofOptions options').declareAll (parsedFiles d' paths)).mapper =
      ((ofOptions options).declareAll (parsedFiles d paths)).mapper := by
    rw [declareAll_eq, declareAll_eq]
    exact congrArg TypeMapper.ofEntries hmap
  unfold translations generateAll
  simp only [List.getElem?_map, parsedFiles, hi, Option.map_some, parseFile_eq hsame]
  have hunit : ((ofOptions options').declareAll (parsedFiles d' paths)).generateUnit path =
      ((ofOptions options).declareAll (parsedFiles d paths)).generateUnit path :=
    funext fun cu => generateUnit_of_alike hregistry hmapper path cu
  exact congrArg (fun f => some (path, (parseFile d path).bind f)) hunit

/-- A class that reads an inherited field, and the class that declares it with an initial value. -/
def inheritedField (value : Text) : Directory :=
  { entries :=
      [([Text.ofString "A.java"],
        .file "class A extends B\x7bint f()\x7breturn x;\x7d\x7d"),
       ([Text.ofString "B.java"], .file ("class B\x7bint x=" ++ value ++ ";\x7d"))] }

/-- The initial value of an inherited field makes no difference to the class that reads it. -/
theorem translation_sees_signatures_initial_value :
    (readSource (inheritedField "2") "A.java" = readSource (inheritedField "1") "A.java" ∧
        SeenAlike (inheritedField "1") (inheritedField "2") "B.java") ∧
      ((ofOptions {}).translations (inheritedField "2") ["A.java", "B.java"])[0]? =
        ((ofOptions {}).translations (inheritedField "1") ["A.java", "B.java"])[0]? := by
  have hread : ∀ value, readSource (inheritedField value) "A.java" =
      .ok "class A extends B\x7bint f()\x7breturn x;\x7d\x7d" := fun _ => rfl
  have hsame : readSource (inheritedField "2") "A.java" = readSource (inheritedField "1") "A.java" :=
    (hread "2").trans (hread "1").symm
  have hother : ∀ value, readSource (inheritedField value) "B.java" =
      .ok ("class B\x7bint x=" ++ value ++ ";\x7d") := fun _ => rfl
  obtain ⟨hsignature, hone, htwo⟩ :
      Registry.unitSignature?
          (Entry.compilationUnit.read ("class B\x7bint x=" ++ "1" ++ ";\x7d")).1 =
        Registry.unitSignature?
          (Entry.compilationUnit.read ("class B\x7bint x=" ++ "2" ++ ";\x7d")).1 ∧
      (Parsed.ofSource .compilationUnit ("class B\x7bint x=" ++ "1" ++ ";\x7d")).problems = [] ∧
      (Parsed.ofSource .compilationUnit ("class B\x7bint x=" ++ "2" ++ ";\x7d")).problems = [] := by
    decide +kernel
  have hseen : SeenAlike (inheritedField "1") (inheritedField "2") "B.java" := by
    refine .inr ⟨_, _, parseFile_of_accepted (hother "1") hone,
      parseFile_of_accepted (hother "2") htwo, ?_⟩
    rw [hsignature]
    cases Registry.unitSignature? _ with
    | none => exact .none
    | some s => exact .some (.refl s)
  refine ⟨⟨hsame, hseen⟩, translation_sees_signatures rfl hsame ?_ rfl⟩
  intro other hmem hne
  have heq : other = "B.java" := by simpa [hne] using hmem
  exact heq ▸ hseen

end Generator

end JavaObjC
