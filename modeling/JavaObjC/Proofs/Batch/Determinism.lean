import JavaObjC.Proofs.Batch.Declarations
import JavaObjC.Proofs.Batch.Emission
import JavaObjC.Proofs.Links.Members
import JavaObjC.Proofs.Links.Names
import Mathlib.Algebra.GroupWithZero.Nat

/-!
# What a batch answers does not depend on chance

A phase of a batch has one task for each file. At most a given number of tasks
run at once; apart from that, tasks start and finish in any order. All of them
see the same state, which a task may change when it finishes. Tasks that leave
the state alone give the same results in every order, and no order gets stuck.
A batch whose two phases run like this does the same as one that works through
its files one after the other.

In whatever order the tasks of a batch run, it answers the same and leaves the
same directory. In whatever order the paths are given, each path gets the same
outcome and every location holds the same in the end, as long as the files
declare different names. The reason why an output directory cannot be made is
the only thing that may change.
-/

namespace JavaObjC

/-- The place of a task in a phase, and its result once it is done. -/
inductive Slot (ι α : Type) where
  | waiting (input : ι)
  | running (input : ι)
  | done (result : α)

/-- The tasks of a phase and the state they share. -/
structure Pool (σ ι α : Type) where
  shared : σ
  slots : List (Slot ι α)

namespace Slot

variable {ι α : Type}

/-- Whether a task is running. -/
def isRunning : Slot ι α → Bool
  | running _ => true
  | _ => false

/-- How many steps a task still takes. -/
def stepsLeft : Slot ι α → Nat
  | waiting _ => 2
  | running _ => 1
  | done _ => 0

/-- The result a task has or will have. -/
def outcome (work : ι → α) : Slot ι α → α
  | waiting i => work i
  | running i => work i
  | done a => a

end Slot

namespace Pool

open Slot

variable {σ ι α : Type}

/-- One step of a phase: a task starts while fewer than `jobs` are running, or a running task
finishes. -/
inductive Step (jobs : Nat) (work : σ → ι → α × σ) : Pool σ ι α → Pool σ ι α → Prop
  | start (shared : σ) (front back : List (Slot ι α)) (i : ι)
      (hfree : (front ++ waiting i :: back).countP isRunning < jobs) :
      Step jobs work ⟨shared, front ++ waiting i :: back⟩ ⟨shared, front ++ running i :: back⟩
  | finish (shared : σ) (front back : List (Slot ι α)) (i : ι) :
      Step jobs work ⟨shared, front ++ running i :: back⟩
        ⟨(work shared i).2, front ++ done (work shared i).1 :: back⟩

/-- The steps of a phase, any number of them. -/
def Steps (jobs : Nat) (work : σ → ι → α × σ) : Pool σ ι α → Pool σ ι α → Prop :=
  Relation.ReflTransGen (Step jobs work)

/-- The phase in which all tasks are done. -/
def finished (shared : σ) (results : List α) : Pool σ ι α := ⟨shared, results.map done⟩

/-- The results that the tasks have or will have. -/
def outcomes (work : σ → ι → α × σ) (p : Pool σ ι α) : List α :=
  p.slots.map (outcome fun i => (work p.shared i).1)

/-- How many steps a phase still takes. -/
def stepsLeft (p : Pool σ ι α) : Nat := (p.slots.map Slot.stepsLeft).sum

variable {jobs : Nat} {work : σ → ι → α × σ} {p q : Pool σ ι α}

/-- A finished pool has the results it ended with. -/
@[simp] theorem outcomes_finished (shared : σ) (results : List α) :
    (finished shared results : Pool σ ι α).outcomes work = results := by
  simp only [outcomes, finished, List.map_map, Function.comp_def, outcome, List.map_id_fun', id]

/-- Every step brings the end of the phase nearer. -/
theorem Step.stepsLeft_lt (h : Step jobs work p q) : q.stepsLeft < p.stepsLeft := by
  cases h with
  | start => simp [Pool.stepsLeft, Slot.stepsLeft]
  | finish => simp [Pool.stepsLeft, Slot.stepsLeft]

/-- A step of tasks that leave the state alone changes neither the state nor the results. -/
theorem Step.outcomes_eq (hwork : ∀ s i, (work s i).2 = s) (h : Step jobs work p q) :
    q.shared = p.shared ∧ q.outcomes work = p.outcomes work := by
  cases h with
  | start => exact ⟨rfl, by simp [outcomes, outcome]⟩
  | finish => exact ⟨hwork _ _, by simp [outcomes, outcome, hwork]⟩

/-- Steps that leave what they share leave the outcomes they will have. -/
theorem Steps.outcomes_eq (hwork : ∀ s i, (work s i).2 = s) (h : Steps jobs work p q) :
    q.shared = p.shared ∧ q.outcomes work = p.outcomes work := by
  induction h with
  | refl => exact ⟨rfl, rfl⟩
  | tail _ hstep ih =>
    obtain ⟨hshared, houtcomes⟩ := hstep.outcomes_eq hwork
    exact ⟨hshared.trans ih.1, houtcomes.trans ih.2⟩

/-- Tasks that neither wait nor run are done. -/
theorem exists_map_done {slots : List (Slot ι α)} (hwaiting : ∀ i, waiting i ∉ slots)
    (hrunning : ∀ i, running i ∉ slots) : ∃ results : List α, slots = results.map done := by
  induction slots with
  | nil => exact ⟨[], rfl⟩
  | cons slot rest ih =>
    obtain ⟨results, rfl⟩ := ih (fun i hi => hwaiting i (List.mem_cons_of_mem slot hi))
      fun i hi => hrunning i (List.mem_cons_of_mem slot hi)
    cases slot with
    | waiting i => exact absurd List.mem_cons_self (hwaiting i)
    | running i => exact absurd List.mem_cons_self (hrunning i)
    | done a => exact ⟨a :: results, rfl⟩

/-- A phase with room for a task is finished, or some task can start or finish. -/
theorem finished_or_step (hjobs : 1 ≤ jobs) (work : σ → ι → α × σ) (p : Pool σ ι α) :
    (∃ results, p = finished p.shared results) ∨ ∃ q, Step jobs work p q := by
  obtain ⟨shared, slots⟩ := p
  by_cases hrunning : ∃ i, running i ∈ slots
  · obtain ⟨i, hi⟩ := hrunning
    obtain ⟨front, back, rfl⟩ := List.append_of_mem hi
    exact .inr ⟨_, .finish shared front back i⟩
  · by_cases hwaiting : ∃ i, waiting i ∈ slots
    · obtain ⟨i, hi⟩ := hwaiting
      have hnone : slots.countP isRunning = 0 := by
        rw [List.countP_eq_zero]
        rintro (j | j | a) hj
        · exact Bool.false_ne_true
        · exact absurd ⟨j, hj⟩ hrunning
        · exact Bool.false_ne_true
      obtain ⟨front, back, rfl⟩ := List.append_of_mem hi
      exact .inr ⟨_, .start shared front back i (by omega)⟩
    · obtain ⟨results, rfl⟩ := exists_map_done (not_exists.1 hwaiting) (not_exists.1 hrunning)
      exact .inl ⟨results, rfl⟩

/-- However far a phase has come, it can be finished. -/
theorem exists_steps_finished (hjobs : 1 ≤ jobs) (work : σ → ι → α × σ) (p : Pool σ ι α) :
    ∃ shared results, Steps jobs work p (finished shared results) := by
  induction hleft : p.stepsLeft using Nat.strongRecOn generalizing p with
  | ind n ih =>
    rcases finished_or_step hjobs work p with ⟨results, hp⟩ | ⟨q, hstep⟩
    · exact ⟨p.shared, results, hp ▸ .refl⟩
    · obtain ⟨shared, results, hrest⟩ := ih q.stepsLeft (hleft ▸ hstep.stepsLeft_lt) q rfl
      exact ⟨shared, results, .head hstep hrest⟩

/-- Tasks that leave the state alone have the same results in every order. -/
theorem steps_finished_iff (hjobs : 1 ≤ jobs) (work : σ → ι → α × σ)
    (hwork : ∀ s i, (work s i).2 = s) (p : Pool σ ι α) (shared : σ) (results : List α) :
    Steps jobs work p (finished shared results) ↔
      shared = p.shared ∧ results = p.outcomes work := by
  constructor
  · intro h
    obtain ⟨hshared, houtcomes⟩ := h.outcomes_eq hwork
    rw [outcomes_finished] at houtcomes
    exact ⟨hshared, houtcomes⟩
  · rintro ⟨rfl, rfl⟩
    obtain ⟨shared, results, h⟩ := exists_steps_finished hjobs work p
    obtain ⟨hshared, houtcomes⟩ := h.outcomes_eq hwork
    rw [outcomes_finished] at houtcomes
    rw [← houtcomes, ← show shared = p.shared from hshared]
    exact h

end Pool

namespace Generator

variable {g : Generator} {d : Directory} {paths : List Text} {jobs : Nat}

/-- The task that parses a file. It reads the directory. -/
def parseTask (state : Generator × Directory) (path : Text) :
    Except Failure Node × Generator × Directory := (parseFile state.2 path, state)

/-- The task that generates a parsed file. It reads what the generator knows. -/
def generateTask (state : Generator × Directory) (file : Text × Node) :
    Except Failure GeneratedUnit × Generator × Directory :=
  (state.1.generateUnit file.1 file.2, state)

/-- The place of a file in the second phase. One that could not be parsed has failed already. -/
def generateSlot (file : Text × Except Failure Node) :
    Slot (Text × Node) (Except Failure GeneratedUnit) :=
  match file.2 with
  | .ok cu => .waiting (file.1, cu)
  | .error f => .done (.error f)

/-- What a batch may do when the tasks of each phase run side by side. The files are parsed; when
all are, those that could be parsed are declared; then these are generated; and when all are, they
are recorded and written in order. -/
def Phases (jobs : Nat) (g : Generator) (d : Directory) (paths : List Text)
    (result : Except Failure Report × Generator × Directory) : Prop :=
  ∃ g₁ d₁ parsed g₂ d₂ generated,
    Pool.Steps jobs parseTask ⟨(g, d), paths.map .waiting⟩ (.finished (g₁, d₁) parsed) ∧
    Pool.Steps jobs generateTask ⟨(g₁.declareAll (paths.zip parsed), d₁),
      (paths.zip parsed).map generateSlot⟩ (.finished (g₂, d₂) generated) ∧
    result =
      let (outcomes, g, d) := g₂.emitAll d₂ (paths.zip generated)
      (.ok { outcomes }, g, d)

/-- What a batch that nobody cancels may answer. All paths are checked before any task starts. -/
def MayAnswer (jobs : Nat) (g : Generator) (d : Directory) (paths : List Text)
    (result : Except Failure Report × Generator × Directory) : Prop :=
  if paths.isEmpty then result = (.error .noInput, g, d)
  else match paths.forM checkPath with
    | .error f => result = (.error f, g, d)
    | .ok () => Phases jobs g d paths result

/-- Parsed files come with their paths. -/
theorem zip_parsedFiles (d : Directory) (paths : List Text) :
    paths.zip (paths.map (parseFile d)) = parsedFiles d paths := by
  refine (List.zip_of_prod ?_ ?_).symm <;> simp [parsedFiles, Function.comp_def]

/-- Translations come with their paths. -/
theorem zip_translations (g : Generator) (d : Directory) (paths : List Text) :
    paths.zip ((g.translations d paths).map Prod.snd) = g.translations d paths := by
  refine (List.zip_of_prod ?_ rfl).symm
  simp [translations, generateAll, parsedFiles, Function.comp_def]

/-- The tasks of the second phase give what generating the files in order gives. -/
theorem outcomes_generateTask (g : Generator) (d : Directory)
    (parsed : List (Text × Except Failure Node)) :
    (⟨(g, d), parsed.map generateSlot⟩ : Pool _ _ _).outcomes generateTask =
      (g.generateAll parsed).map Prod.snd := by
  simp only [Pool.outcomes, generateAll, List.map_map]
  refine List.map_congr_left ?_
  rintro ⟨path, outcome⟩ -
  cases outcome with
  | ok cu => rfl
  | error f => rfl

/-- What a batch answers after the check. -/
def answer (g : Generator) (d : Directory) (paths : List Text) :
    Except Failure Report × Generator × Directory :=
  let (outcomes, g, d) := (g.declareAll (parsedFiles d paths)).emitAll d (g.translations d paths)
  (.ok { outcomes }, g, d)

/-- The phases of a batch have one result, whatever the order of their tasks. -/
theorem phases_iff (hjobs : 1 ≤ jobs) (g : Generator) (d : Directory) (paths : List Text)
    (result : Except Failure Report × Generator × Directory) :
    Phases jobs g d paths result ↔ result = g.answer d paths := by
  have hparsed : (⟨(g, d), paths.map .waiting⟩ : Pool _ _ _).outcomes parseTask =
      paths.map (parseFile d) := by
    simp only [Pool.outcomes, List.map_map]
    rfl
  have hparse := Pool.steps_finished_iff hjobs parseTask (fun _ _ => rfl)
    ⟨(g, d), paths.map .waiting⟩
  have hgenerate := Pool.steps_finished_iff hjobs generateTask (fun _ _ => rfl)
    ⟨(g.declareAll (parsedFiles d paths), d), (parsedFiles d paths).map generateSlot⟩
  rw [hparsed] at hparse
  rw [outcomes_generateTask, ← translations] at hgenerate
  constructor
  · rintro ⟨g₁, d₁, parsed, g₂, d₂, generated, hfirst, hsecond, rfl⟩
    obtain ⟨hstate, rfl⟩ := (hparse _ _).1 hfirst
    obtain ⟨rfl, rfl⟩ := Prod.mk.inj hstate
    rw [zip_parsedFiles] at hsecond
    obtain ⟨hstate', rfl⟩ := (hgenerate _ _).1 hsecond
    obtain ⟨rfl, rfl⟩ := Prod.mk.inj hstate'
    rw [zip_translations]
    rfl
  · rintro rfl
    refine ⟨g, d, paths.map (parseFile d), g.declareAll (parsedFiles d paths), d,
      (g.translations d paths).map Prod.snd, (hparse _ _).2 ⟨rfl, rfl⟩, ?_, ?_⟩
    · rw [zip_parsedFiles]
      exact (hgenerate _ _).2 ⟨rfl, rfl⟩
    · rw [zip_translations]
      rfl

/-- A batch that is not refused is answered. -/
theorem run_of_checked (hne : paths ≠ []) (hpaths : paths.forM checkPath = .ok ()) :
    g.run d paths false = g.answer d paths := by
  simp only [run, hpaths, List.isEmpty_iff, hne]
  rfl

/-- A batch does the same in whatever order the tasks of its phases start and finish. -/
theorem mayAnswer_iff (hjobs : 1 ≤ jobs) (g : Generator) (d : Directory) (paths : List Text)
    (result : Except Failure Report × Generator × Directory) :
    MayAnswer jobs g d paths result ↔ result = g.run d paths false := by
  unfold MayAnswer
  split
  · next hempty => simp only [run, hempty, if_true]
  · next hne =>
    split
    · next f hcheck => simp only [run, hne, hcheck, if_false, Bool.false_eq_true]
    · next hcheck =>
      rw [run_of_checked (by simpa using hne) hcheck]
      exact phases_iff hjobs g d paths result

end Generator

namespace Generator

variable {g : Generator} {d : Directory} {paths paths' : List Text}
  {parsed : List (Text × Except Failure Node)}

/-- A parsed file is a clean tree of a unit. -/
theorem derives_of_parsedFiles {path : Text} {cu : Node}
    (h : (path, .ok cu) ∈ parsedFiles d paths) : Derives .unit cu ∧ cu.Clean := by
  obtain ⟨_, -, heq⟩ := List.mem_map.1 h
  have hparse : parseFile d path = .ok cu := (Prod.mk.inj heq).1 ▸ (Prod.mk.inj heq).2
  unfold parseFile at hparse
  cases hread : readSource d path with
  | error f =>
    rw [hread] at hparse
    cases hparse
  | ok source =>
    rw [hread] at hparse
    exact derives_of_parseForGeneration hparse

/-- A generated class has the name of the signature of its file, which is a word. -/
theorem generateUnit_name {path : Text} {cu : Node} {unit : GeneratedUnit}
    (htree : Derives .unit cu) (hclean : cu.Clean) (h : g.generateUnit path cu = .ok unit) :
    ∃ s, Registry.unitSignature? cu = some s ∧ unit.model.name = s.name ∧ s.name.IsWord := by
  have hkind := htree.unit_kind hclean
  obtain ⟨decl, _, hsignature, hdecl, hdeclares, hname, -, -⟩ := generateUnit_model hkind hclean h
  have hword := declaredName_of_typeDecl (Lowering.derives_typeDecl hclean htree hdecl hdeclares)
    (hclean.child hdecl)
  refine ⟨_, hsignature, ?_, ?_⟩
  · rw [hname, ClassSignature.ofDecl_name]
  · rw [ClassSignature.ofDecl_name]
    exact hword

/-- The names of the generated classes are among the declared ones, in order, and are words. -/
theorem models_generateAll (g : Generator)
    (hparsed : ∀ path cu, (path, .ok cu) ∈ parsed → Derives .unit cu ∧ cu.Clean) :
    ((models (g.generateAll parsed)).map ClassModel.name).Sublist
        ((signatures parsed).map ClassSignature.name) ∧
      ∀ m ∈ models (g.generateAll parsed), m.name.IsWord := by
  induction parsed with
  | nil => exact ⟨.slnil, nofun⟩
  | cons file rest ih =>
    obtain ⟨path, outcome⟩ := file
    obtain ⟨hnames, hwords⟩ := ih fun path cu hmem => hparsed path cu (List.mem_cons_of_mem _ hmem)
    cases outcome with
    | error f => exact ⟨hnames, hwords⟩
    | ok cu =>
      obtain ⟨htree, hclean⟩ := hparsed path cu List.mem_cons_self
      have hmore : ((signatures rest).map ClassSignature.name).Sublist
          ((signatures ((path, .ok cu) :: rest)).map ClassSignature.name) := by
        refine (List.Sublist.filterMap _ ?_).map _
        exact List.sublist_cons_self _ _
      cases hunit : g.generateUnit path cu with
      | error f =>
        have hmodels : models (g.generateAll ((path, .ok cu) :: rest)) =
            models (g.generateAll rest) := by
          simp only [generateAll, List.map_cons, Except.bind, hunit, models_cons_error]
        rw [hmodels]
        exact ⟨hnames.trans hmore, hwords⟩
      | ok unit =>
        obtain ⟨s, hs, hname, hword⟩ := generateUnit_name htree hclean hunit
        have hmodels : models (g.generateAll ((path, .ok cu) :: rest)) =
            unit.model :: models (g.generateAll rest) := by
          simp only [generateAll, List.map_cons, Except.bind, hunit, models_cons_ok]
        have hsignatures : signatures ((path, .ok cu) :: rest) = s :: signatures rest := by
          simp only [signatures, List.filterMap_cons, fileSignature?, hs]
        rw [hmodels, hsignatures, List.map_cons, List.map_cons, hname, List.forall_mem_cons]
        exact ⟨hnames.cons_cons _, hname ▸ hword, hwords⟩

/-- Files that declare different names are generated the same way in any order. -/
theorem translations_perm (hg : g.registry.Distinct) (hperm : paths.Perm paths')
    (hnames : ((signatures (parsedFiles d paths)).map ClassSignature.name).Nodup) :
    (g.translations d paths).Perm (g.translations d paths') := by
  have hparsed : (parsedFiles d paths).Perm (parsedFiles d paths') := hperm.map _
  have hregistry : (g.declareAll (parsedFiles d paths)).registry.Alike
      (g.declareAll (parsedFiles d paths')).registry := by
    rw [declareAll_eq, declareAll_eq]
    exact Registry.declareAll_perm hg (hparsed.filterMap _) hnames
  have hmapper : (g.declareAll (parsedFiles d paths')).mapper =
      (g.declareAll (parsedFiles d paths)).mapper := by rw [declareAll_eq, declareAll_eq]
  have hunit : (g.declareAll (parsedFiles d paths')).generateUnit =
      (g.declareAll (parsedFiles d paths)).generateUnit :=
    funext₂ fun path cu => generateUnit_of_alike hregistry hmapper path cu
  unfold translations generateAll
  rw [hunit]
  exact hparsed.map _

/-- A batch answers with the outcomes of its files and leaves what they leave. -/
theorem answer_eq (g : Generator) (d : Directory) (paths : List Text) :
    (g.answer d paths).1 = .ok { outcomes := (g.emitted d (g.translations d paths)).1 } ∧
      (g.answer d paths).2.2 = (g.emitted d (g.translations d paths)).2 := by
  have hdir : (g.declareAll (parsedFiles d paths)).outputDir = g.outputDir := by rw [declareAll_eq]
  obtain ⟨houtcomes, hdirectory⟩ := emitAll_eq hdir d (g.translations d paths)
  rw [← houtcomes, ← hdirectory]
  exact ⟨rfl, rfl⟩

/-- Every path has an outcome, in order. -/
theorem emitted_paths (g : Generator) (d : Directory)
    (files : List (Text × Except Failure GeneratedUnit)) :
    (g.emitted d files).1.map Outcome.path = files.map Prod.fst := by
  induction files generalizing d with
  | nil => rfl
  | cons file rest ih =>
    have hpath : (outcomeOf g (fun m => (g.write d m).1) file).path = file.1 := by
      unfold outcomeOf
      split
      · rfl
      · split <;> rfl
    simp only [emitted, List.map_cons, hpath, ih]

/-- Two answers to the same paths in different orders, in a directory. Either both are the same
refusal, or every path has the same outcome, but for the reason why the output directory cannot be
made, and every location holds the same. -/
def SameButOrder (g : Generator) (d : Directory)
    (result result' : Except Failure Report × Generator × Directory) : Prop :=
  match result.1, result'.1 with
  | .ok report, .ok report' =>
    (∃ outcomes, report.outcomes.Perm outcomes ∧
      List.Forall₂ (SameButReason g.outputDir) outcomes report'.outcomes) ∧
    ((d.makeFolders g.outputDir).1 = .ok () → report.outcomes.Perm report'.outcomes) ∧
    result'.2.2.content? = result.2.2.content?
  | .error f, .error f' => f' = f ∧ result'.2.2 = result.2.2
  | _, _ => False

/-- Paths that are checked one by one are checked together. -/
theorem forM_checkPath (h : ∀ path ∈ paths, checkPath path = .ok ()) :
    paths.forM checkPath = .ok () := by
  induction paths with
  | nil => rfl
  | cons path rest ih =>
    rw [List.forall_mem_cons] at h
    change (checkPath path >>= fun _ => rest.forM checkPath) = .ok ()
    rw [h.1]
    exact ih h.2

/-- A generator has an output folder, if only the current one. -/
theorem outputDir_ofOptions (options : GeneratorOptions) : (ofOptions options).outputDir ≠ [] := by
  change outputDirectory options.outputDir ≠ []
  unfold outputDirectory
  split
  · decide
  · next hne => simpa using hne

/-- What a batch does depends neither on the order in which its tasks run nor on the order of its
paths. Take a fresh generator and paths of sources whose files declare different names. With any
number of jobs and in every order in which tasks start and finish, the batch answers the same and
leaves the same directory, with one outcome for each path. With the paths in another order, the
outcomes are permuted and every location holds the same; only where the output directory cannot be
made, the reason that an outcome gives for it may differ. -/
theorem run_independent_of_order (options : GeneratorOptions) (d : Directory)
    (hpaths : ∀ path ∈ paths, checkPath path = .ok ())
    (hnames : ((signatures (parsedFiles d paths)).map ClassSignature.name).Nodup) :
    (∀ jobs, 1 ≤ jobs → ∀ result, MayAnswer jobs (ofOptions options) d paths result ↔
      result = (ofOptions options).run d paths false) ∧
    (paths ≠ [] → ∃ report, ((ofOptions options).run d paths false).1 = .ok report ∧
      report.outcomes.map Outcome.path = paths) ∧
    ∀ paths', paths.Perm paths' → SameButOrder (ofOptions options) d
      ((ofOptions options).run d paths false) ((ofOptions options).run d paths' false) := by
  refine ⟨fun jobs hjobs => mayAnswer_iff hjobs _ d paths, fun hne => ?_, fun paths' hperm => ?_⟩
  · rw [run_of_checked hne (forM_checkPath hpaths)]
    refine ⟨_, (answer_eq _ d paths).1, ?_⟩
    rw [emitted_paths]
    simp [translations, generateAll, parsedFiles, Function.comp_def]
  · by_cases hne : paths = []
    · subst hne
      obtain rfl := hperm.nil_eq
      exact ⟨rfl, rfl⟩
    · have hne' : paths' ≠ [] := fun heq => hne (heq ▸ hperm).eq_nil
      have hpaths' : ∀ path ∈ paths', checkPath path = .ok () :=
        fun path hpath => hpaths path (hperm.mem_iff.2 hpath)
      rw [run_of_checked hne (forM_checkPath hpaths), run_of_checked hne' (forM_checkPath hpaths')]
      obtain ⟨hreport, hdirectory⟩ := answer_eq (ofOptions options) d paths
      obtain ⟨hreport', hdirectory'⟩ := answer_eq (ofOptions options) d paths'
      have hparsed : ∀ path cu, (path, .ok cu) ∈ parsedFiles d paths →
          Derives .unit cu ∧ cu.Clean := fun path cu => derives_of_parsedFiles
      obtain ⟨hsublist, hwords⟩ := models_generateAll
        ((ofOptions options).declareAll (parsedFiles d paths)) hparsed
      have hemitted := emitted_perm (outputDir_ofOptions options)
        (translations_perm (ofOptions_distinct options) hperm hnames)
        (fun m hm => (hwords m hm).notMem (by decide)) (hnames.sublist hsublist) d
      unfold SameButOrder
      rw [hreport, hreport', hdirectory, hdirectory']
      exact hemitted

/-- Both sources have the extension of one. -/
theorem checkPath_twoSources :
    ∀ path ∈ [Text.ofString "A.java", Text.ofString "B.java"], checkPath path = .ok () := by
  simp only [List.mem_cons, List.not_mem_nil, or_false, forall_eq_or_imp, forall_eq]
  exact ⟨rfl, rfl⟩

/-- A class that reads an inherited field and the class that declares it are generated the same way
in both orders, with three jobs as with one. -/
theorem run_independent_of_order_inherited :
    ((∀ path ∈ [Text.ofString "A.java", Text.ofString "B.java"], checkPath path = .ok ()) ∧
      ((signatures (parsedFiles (inheritedField "1") ["A.java", "B.java"])).map
        ClassSignature.name).Nodup) ∧
    (∀ result result', MayAnswer 1 (ofOptions {}) (inheritedField "1") ["A.java", "B.java"] result →
      MayAnswer 3 (ofOptions {}) (inheritedField "1") ["A.java", "B.java"] result' →
      result = result') ∧
    SameButOrder (ofOptions {}) (inheritedField "1")
      ((ofOptions {}).run (inheritedField "1") ["A.java", "B.java"] false)
      ((ofOptions {}).run (inheritedField "1") ["B.java", "A.java"] false) := by
  have hnames : ((signatures (parsedFiles (inheritedField "1") ["A.java", "B.java"])).map
      ClassSignature.name).Nodup := by decide +kernel
  obtain ⟨hanswer, -, horder⟩ := run_independent_of_order {} (inheritedField "1")
    checkPath_twoSources hnames
  refine ⟨⟨checkPath_twoSources, hnames⟩, fun result result' hresult hresult' => ?_,
    horder _ (.swap _ _ _)⟩
  exact ((hanswer 1 (by decide) result).1 hresult).trans
    ((hanswer 3 (by decide) result').1 hresult').symm

/-- Two classes, and a file in the place of a folder. -/
def blockedDirectory : Directory :=
  { entries :=
      [([Text.ofString "f"], .file "x"),
       ([Text.ofString "A.java"], .file "class A \x7b \x7d"),
       ([Text.ofString "B.java"], .file "class B \x7b \x7d")] }

/-- An output directory that cannot be made, since a file is in the way. -/
def blockedOptions : GeneratorOptions := { outputDir := "n/../f/z" }

/-- The first file finds that a file is in the way of the output directory, and the later ones that
the path leads through it. So the paths in another order have other outcomes. -/
theorem reason_depends_on_order :
    ((∀ path ∈ [Text.ofString "A.java", Text.ofString "B.java"], checkPath path = .ok ()) ∧
      ((signatures (parsedFiles blockedDirectory ["A.java", "B.java"])).map
        ClassSignature.name).Nodup) ∧
    ∃ report report',
      ((ofOptions blockedOptions).run blockedDirectory ["A.java", "B.java"] false).1 = .ok report ∧
      ((ofOptions blockedOptions).run blockedDirectory ["B.java", "A.java"] false).1 = .ok report' ∧
      ¬ report.outcomes.Perm report'.outcomes := by
  refine ⟨⟨checkPath_twoSources, by decide +kernel⟩, _, _, rfl, rfl, fun hperm => ?_⟩
  have hmessages := (hperm.filterMap Outcome.failure).map Failure.message
  revert hmessages
  decide +kernel

end Generator

end JavaObjC
