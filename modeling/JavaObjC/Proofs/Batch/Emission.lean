import JavaObjC.Proofs.Batch.Files
import Mathlib.Data.List.Nodup
import Mathlib.Data.List.Perm.Basic
import Mathlib.Logic.Function.Basic

/-!
# The order in which classes are written

Writing a class touches its two files and nothing else, and what happens
depends on folders, which writing never adds or removes. So classes of
different names can be written in any order: every location ends up with the
same content and every file with the same outcome. The one exception is an
output directory that cannot be made. Then nothing is written in any order, but
the first attempt may find another reason than the later ones.
-/

namespace JavaObjC

namespace Directory

variable {d d' e : Directory}

/-- Directories with the same folders. -/
structure SameFolders (d d' : Directory) : Prop where
  home_eq : d'.home = d.home
  folder_iff : ∀ l, d'.content? l = some .folder ↔ d.content? l = some .folder

theorem SameFolders.refl (d : Directory) : SameFolders d d := ⟨rfl, fun _ => Iff.rfl⟩

/-- Directories with the same folders as a third one have the same. -/
theorem SameFolders.trans (h : SameFolders d d') (h' : SameFolders d' e) : SameFolders d e :=
  ⟨h'.home_eq.trans h.home_eq, fun l => (h'.folder_iff l).trans (h.folder_iff l)⟩

/-- A directory with the same folders keeps them in particular. -/
theorem SameFolders.keeps (h : SameFolders d d') : KeepsFolders d d' :=
  ⟨h.home_eq, fun l hl => (h.folder_iff l).2 hl⟩

/-- Putting a file where no folder is keeps the folders. -/
theorem sameFolders_put {l : Location} (hl : l ≠ []) (h : d.content? l ≠ some .folder)
    (text : Text) : SameFolders d (d.put l (.file text)) := by
  refine ⟨rfl, fun l' => ?_⟩
  rw [content?_put hl]
  split
  · rename_i heq
    simp [heq, h]
  · exact Iff.rfl

/-- Removing something that is no folder keeps the folders. -/
theorem sameFolders_erase {l : Location} (hl : l ≠ []) (h : d.content? l ≠ some .folder) :
    SameFolders d (d.erase l) := by
  refine ⟨rfl, fun l' => ?_⟩
  rw [content?_erase hl]
  split
  · rename_i heq
    simp [heq, h]
  · exact Iff.rfl

end Directory

namespace ClassModel

/-- Where the header of a class lies in a folder. -/
def headerAt (m : ClassModel) (l : Location) : Location := l ++ [m.headerFile]

/-- Where the implementation of a class lies in a folder. -/
def implementationAt (m : ClassModel) (l : Location) : Location := l ++ [m.implementationFile]

variable {m m' : ClassModel} {l : Location}

/-- Two names with endings of one byte after the point are equal if both parts are. -/
theorem ending_inj {name name' : Text} {a b : UInt8} (h : name ++ [46, a] = name' ++ [46, b]) :
    name = name' ∧ a = b := by
  obtain ⟨hname, hending⟩ := List.append_inj' h rfl
  exact ⟨hname, by simpa using hending⟩

theorem headerFile_eq (m : ClassModel) : m.headerFile = m.name ++ [46, 104] := rfl

theorem implementationFile_eq (m : ClassModel) : m.implementationFile = m.name ++ [46, 109] := rfl

/-- The two files of a class, and the files of different classes, lie at different places. -/
theorem headerAt_ne_implementationAt (m m' : ClassModel) (l : Location) :
    m.headerAt l ≠ m'.implementationAt l := by
  intro h
  have hname := List.append_cancel_left h
  rw [List.cons.injEq, headerFile_eq, implementationFile_eq] at hname
  exact absurd (ending_inj hname.1).2 (by decide)

/-- Classes of different names have different headers. -/
theorem headerAt_ne (h : m.name ≠ m'.name) : m.headerAt l ≠ m'.headerAt l := by
  intro heq
  have hname := List.append_cancel_left heq
  rw [List.cons.injEq, headerFile_eq, headerFile_eq] at hname
  exact h (ending_inj hname.1).1

/-- Classes of different names have different implementations. -/
theorem implementationAt_ne (h : m.name ≠ m'.name) :
    m.implementationAt l ≠ m'.implementationAt l := by
  intro heq
  have hname := List.append_cancel_left heq
  rw [List.cons.injEq, implementationFile_eq, implementationFile_eq] at hname
  exact h (ending_inj hname.1).1

/-- A name without a slash and with an ending is a plain one. -/
theorem plain_ending {name : Text} (h : Path.separator ∉ name) {a : UInt8}
    (ha : a ≠ 46 ∧ a ≠ Path.separator) : Path.Plain (name ++ [46, a]) := by
  have hlast : ∀ t : Text, t.getLast? ≠ some a → name ++ [46, a] ≠ t := by
    rintro t ht rfl
    exact ht (by simp)
  have hpoint : some (46 : UInt8) ≠ some a := fun h => ha.1 (Option.some.inj h).symm
  refine ⟨by simp, hlast Path.here hpoint, hlast Path.above hpoint, ?_⟩
  · simp only [List.mem_append, List.mem_cons, List.not_mem_nil, or_false, not_or]
    exact ⟨h, by decide, fun heq => ha.2 heq.symm⟩

/-- A header is named by one component when its class has no separator in its name. -/
theorem plain_headerFile (h : Path.separator ∉ m.name) : Path.Plain m.headerFile :=
  plain_ending h (by decide)

/-- An implementation is named by one component when its class has no separator in its name. -/
theorem plain_implementationFile (h : Path.separator ∉ m.name) :
    Path.Plain m.implementationFile := plain_ending h (by decide)

end ClassModel

namespace Generator

open Directory

variable {g g' : Generator} {d d' e made : Directory} {m m' : ClassModel} {l : Location}

section Writing

/-- What writing a class answers, by the folders in the way. -/
def writeAnswer (g : Generator) (d : Directory) (l : Location) (m : ClassModel) :
    Except Failure Unit :=
  if d.content? (m.headerAt l) = some .folder then
    .error (notCreated (g.headerPath m) ⟨"open", g.headerPath m, .isDirectory⟩)
  else if d.content? (m.implementationAt l) = some .folder then
    .error (notCreated (g.implementationPath m) ⟨"open", g.implementationPath m, .isDirectory⟩)
  else .ok ()

/-- What locations hold after writing a class, by the folders in the way. -/
def writeEffect (d : Directory) (l : Location) (m : ClassModel)
    (contents : Location → Option Content) : Location → Option Content :=
  if d.content? (m.headerAt l) = some .folder then contents
  else if d.content? (m.implementationAt l) = some .folder then
    Function.update contents (m.headerAt l) none
  else
    Function.update (Function.update contents (m.headerAt l) (some (.file m.header)))
      (m.implementationAt l) (some (.file m.implementation))

/-- Whether a class can be written depends on the folders only. -/
theorem writeAnswer_of_sameFolders (h : SameFolders d d') (hdir : g'.outputDir = g.outputDir)
    (l : Location) (m : ClassModel) : writeAnswer g' d' l m = writeAnswer g d l m := by
  simp only [writeAnswer, h.folder_iff, headerPath, implementationPath, hdir]

/-- What writing a class changes depends on the folders only. -/
theorem writeEffect_of_sameFolders (h : SameFolders d d') (l : Location) (m : ClassModel) :
    writeEffect d' l m = writeEffect d l m := by
  funext contents
  simp only [writeEffect, h.folder_iff]

/-- Writing classes of different names touches different locations. -/
theorem writeEffect_comm (h : m.name ≠ m'.name) (d : Directory) (l : Location)
    (contents : Location → Option Content) :
    writeEffect d l m' (writeEffect d l m contents) =
      writeEffect d l m (writeEffect d l m' contents) := by
  have hheader := ClassModel.headerAt_ne (l := l) h
  have himplementation := ClassModel.implementationAt_ne (l := l) h
  have hmixed := ClassModel.headerAt_ne_implementationAt m m' l
  have hmixed' := ClassModel.headerAt_ne_implementationAt m' m l
  unfold writeEffect
  split
  · rfl
  · split
    · split
      · rfl
      · split
        · exact Function.update_comm hheader _ _ _
        · rw [Function.update_comm hmixed'.symm, Function.update_comm hheader]
    · split
      · rfl
      · split
        · rw [Function.update_comm hheader, Function.update_comm hmixed]
        · rw [Function.update_comm hmixed'.symm, Function.update_comm hheader,
            Function.update_comm himplementation, Function.update_comm hmixed]

/-- A header stands in the output folder. -/
theorem locate_headerPath (hdir : g.outputDir ≠ []) (hname : Path.separator ∉ m.name) :
    d.locate (g.headerPath m) = (d.folderAt g.outputDir).map m.headerAt :=
  locate_join hdir (ClassModel.plain_headerFile hname)

/-- An implementation stands in the output folder. -/
theorem locate_implementationPath (hdir : g.outputDir ≠ []) (hname : Path.separator ∉ m.name) :
    d.locate (g.implementationPath m) = (d.folderAt g.outputDir).map m.implementationAt :=
  locate_join hdir (ClassModel.plain_implementationFile hname)

/-- Without an output folder nothing is written. -/
theorem writePair_of_error (hdir : g.outputDir ≠ []) (hname : Path.separator ∉ m.name)
    {fault : FileFault} (h : d.folderAt g.outputDir = .error fault) :
    g.writePair d m =
      (.error (notCreated (g.headerPath m) ⟨"open", g.headerPath m, fault⟩), d) := by
  have hlocate : d.locate (g.headerPath m) = .error fault := by
    rw [locate_headerPath hdir hname, h]
    rfl
  simp only [writePair, Directory.write, hlocate]

/-- What writing a class can do when its paths lead to two places: a folder in the place of the
header stops it at once, one in the place of the implementation takes the header back. -/
theorem writePair_cases {first second : Location}
    (hfirst : d.locate (g.headerPath m) = .ok first)
    (hsecond : d.locate (g.implementationPath m) = .ok second) (hne : first ≠ second) :
    (d.content? first = some .folder ∧
      g.writePair d m =
        (.error (notCreated (g.headerPath m) ⟨"open", g.headerPath m, .isDirectory⟩), d)) ∨
    (d.content? first ≠ some .folder ∧ d.content? second = some .folder ∧
      g.writePair d m =
        (.error (notCreated (g.implementationPath m)
            ⟨"open", g.implementationPath m, .isDirectory⟩),
          (d.put first (.file m.header)).erase first)) ∨
    (d.content? first ≠ some .folder ∧ d.content? second ≠ some .folder ∧
      g.writePair d m =
        (.ok (), (d.put first (.file m.header)).put second (.file m.implementation))) := by
  by_cases hblocked : d.content? first = some .folder
  · refine .inl ⟨hblocked, ?_⟩
    simp only [writePair, Directory.write, hfirst, if_pos hblocked]
  · have hnil : first ≠ [] := by
      rintro rfl
      exact hblocked rfl
    have hput := sameFolders_put hnil hblocked m.header
    have hsecond' : (d.put first (.file m.header)).content? second = d.content? second := by
      rw [content?_put hnil, if_neg hne.symm]
    by_cases hblocked' : d.content? second = some .folder
    · refine .inr (.inl ⟨hblocked, hblocked', ?_⟩)
      have hwritten : (d.put first (.file m.header)).content? first = some (.file m.header) := by
        rw [content?_put hnil, if_pos rfl]
      have herase : SameFolders (d.put first (.file m.header))
          ((d.put first (.file m.header)).erase first) :=
        sameFolders_erase hnil (by rw [hwritten]; simp)
      have hkept : ((d.put first (.file m.header)).erase first).content? second =
          some .folder := by
        rw [content?_erase hnil, if_neg hne.symm, hsecond', hblocked']
      simp only [writePair, Directory.write, hfirst, if_neg hblocked, hput.keeps.locate hsecond,
        hsecond', if_pos hblocked', Directory.discard, hput.keeps.locate hfirst, hwritten,
        (hput.trans herase).keeps.locate hsecond, hkept]
    · refine .inr (.inr ⟨hblocked, hblocked', ?_⟩)
      simp only [writePair, Directory.write, hfirst, if_neg hblocked, hput.keeps.locate hsecond,
        hsecond', if_neg hblocked']

/-- A header that was written and taken back leaves its place empty. -/
theorem takenBack_effect {l : Location} (h : d.content? l ≠ some .folder) (text : Text) :
    SameFolders d ((d.put l (.file text)).erase l) ∧
      ((d.put l (.file text)).erase l).content? = Function.update d.content? l none := by
  have hnil : l ≠ [] := by
    rintro rfl
    exact h rfl
  have hwritten : (d.put l (.file text)).content? l = some (.file text) := by
    rw [content?_put hnil, if_pos rfl]
  refine ⟨(sameFolders_put hnil h text).trans
    (sameFolders_erase hnil (by rw [hwritten]; simp)), funext fun x => ?_⟩
  rw [content?_erase hnil, content?_put hnil, Function.update_apply]
  split <;> rfl

/-- Two files that were written are there. -/
theorem written_effect {first second : Location} (hne : first ≠ second)
    (hfirst : d.content? first ≠ some .folder) (hsecond : d.content? second ≠ some .folder)
    (text text' : Text) :
    SameFolders d ((d.put first (.file text)).put second (.file text')) ∧
      ((d.put first (.file text)).put second (.file text')).content? =
        Function.update (Function.update d.content? first (some (.file text))) second
          (some (.file text')) := by
  have hnil : first ≠ [] := by
    rintro rfl
    exact hfirst rfl
  have hnil' : second ≠ [] := by
    rintro rfl
    exact hsecond rfl
  have hkept : (d.put first (.file text)).content? second ≠ some .folder := by
    rw [content?_put hnil, if_neg hne.symm]
    exact hsecond
  refine ⟨(sameFolders_put hnil hfirst text).trans (sameFolders_put hnil' hkept text'),
    funext fun x => ?_⟩
  rw [content?_put hnil', content?_put hnil, Function.update_apply, Function.update_apply]

/-- Writing a class into a folder touches its two files and keeps all folders. -/
theorem writePair_of_ok (hdir : g.outputDir ≠ []) (hname : Path.separator ∉ m.name)
    (h : d.folderAt g.outputDir = .ok l) :
    (g.writePair d m).1 = writeAnswer g d l m ∧ SameFolders d (g.writePair d m).2 ∧
      (g.writePair d m).2.content? = writeEffect d l m d.content? := by
  have hfirst : d.locate (g.headerPath m) = .ok (m.headerAt l) := by
    rw [locate_headerPath hdir hname, h]
    rfl
  have hsecond : d.locate (g.implementationPath m) = .ok (m.implementationAt l) := by
    rw [locate_implementationPath hdir hname, h]
    rfl
  have hne := ClassModel.headerAt_ne_implementationAt m m l
  rcases writePair_cases hfirst hsecond hne with
    ⟨hblocked, hpair⟩ | ⟨hfree, hblocked, hpair⟩ | ⟨hfree, hfree', hpair⟩
  · rw [hpair]
    simp only [writeAnswer, writeEffect, if_pos hblocked]
    exact ⟨trivial, .refl d, trivial⟩
  · rw [hpair]
    simp only [writeAnswer, writeEffect, if_neg hfree, if_pos hblocked]
    exact ⟨trivial, takenBack_effect hfree m.header⟩
  · rw [hpair]
    simp only [writeAnswer, writeEffect, if_neg hfree, if_neg hfree']
    exact ⟨trivial, written_effect hne hfree hfree' m.header m.implementation⟩

end Writing

section Emitting

/-- The outcome of a file, given what writing its class answers. -/
def outcomeOf (g : Generator) (answer : ClassModel → Except Failure Unit)
    (file : Text × Except Failure GeneratedUnit) : Outcome :=
  match file.2 with
  | .error f => { path := file.1, failure := some (f.withPath file.1) }
  | .ok unit =>
    match answer unit.model with
    | .error f => { path := file.1, failure := some (f.withPath file.1) }
    | .ok () =>
      { path := file.1
        type := unit.model.name
        header := g.headerPath unit.model
        implementation := g.implementationPath unit.model }

/-- The directory after writing the class of a file, if it has one. -/
def directoryAfter (g : Generator) (d : Directory) (file : Text × Except Failure GeneratedUnit) :
    Directory :=
  match file.2 with
  | .error _ => d
  | .ok unit => (g.write d unit.model).2

/-- Files written one after the other: their outcomes and what is left. Classes that are recorded
on the way play no part in it. -/
def emitted (g : Generator) (d : Directory) :
    List (Text × Except Failure GeneratedUnit) → List Outcome × Directory
  | [] => ([], d)
  | file :: rest =>
    let later := g.emitted (g.directoryAfter d file) rest
    (outcomeOf g (fun m => (g.write d m).1) file :: later.1, later.2)

/-- Of a generator only the output folder matters to where files are written. -/
theorem write_of_outputDir_eq (h : g'.outputDir = g.outputDir) (d : Directory) (m : ClassModel) :
    g'.write d m = g.write d m := by
  simp only [write, writePair, headerPath, implementationPath, h]

/-- What emitting a file answers and changes, and that it keeps the output folder. -/
theorem emit_eq (h : g'.outputDir = g.outputDir) (d : Directory) (path : Text)
    (result : Except Failure GeneratedUnit) :
    (g'.emit d path result).1 = outcomeOf g (fun m => (g.write d m).1) (path, result) ∧
      (g'.emit d path result).2.1.outputDir = g.outputDir ∧
      (g'.emit d path result).2.2 = g.directoryAfter d (path, result) := by
  cases result with
  | error f => exact ⟨rfl, h, rfl⟩
  | ok unit =>
    simp only [emit, outcomeOf, directoryAfter, write_of_outputDir_eq h]
    cases g.write d unit.model with
    | mk answer after =>
      cases answer with
      | error f => exact ⟨rfl, h, rfl⟩
      | ok done =>
        refine ⟨?_, h, rfl⟩
        simp only [headerPath, implementationPath, h]

/-- What a batch writes does not depend on the classes its generator knows. -/
theorem emitAll_eq (h : g'.outputDir = g.outputDir) (d : Directory)
    (files : List (Text × Except Failure GeneratedUnit)) :
    (g'.emitAll d files).1 = (g.emitted d files).1 ∧
      (g'.emitAll d files).2.2 = (g.emitted d files).2 := by
  induction files generalizing g' d with
  | nil => exact ⟨rfl, rfl⟩
  | cons file rest ih =>
    obtain ⟨path, result⟩ := file
    obtain ⟨houtcome, hdir, hdirectory⟩ := emit_eq h d path result
    obtain ⟨houtcomes, hlast⟩ := ih hdir (g'.emit d path result).2.2
    simp only [emitAll, emitted]
    rw [houtcome, houtcomes, hlast, hdirectory]
    exact ⟨rfl, rfl⟩

/-- The classes of the files that could be generated. -/
def models (files : List (Text × Except Failure GeneratedUnit)) : List ClassModel :=
  files.filterMap fun file => match file.2 with
    | .ok unit => some unit.model
    | .error _ => none

/-- A generated unit has a class to write. -/
theorem models_cons_ok (path : Text) (unit : GeneratedUnit)
    (rest : List (Text × Except Failure GeneratedUnit)) :
    models ((path, .ok unit) :: rest) = unit.model :: models rest := rfl

/-- A file that failed has no class to write. -/
theorem models_cons_error (path : Text) (f : Failure)
    (rest : List (Text × Except Failure GeneratedUnit)) :
    models ((path, .error f) :: rest) = models rest := rfl

/-- What holds of all classes to write holds of the first and of the others. -/
theorem forall_models_cons {P : ClassModel → Prop} {path : Text}
    {result : Except Failure GeneratedUnit} {rest : List (Text × Except Failure GeneratedUnit)}
    (h : ∀ m ∈ models ((path, result) :: rest), P m) :
    (∀ unit, result = .ok unit → P unit.model) ∧ ∀ m ∈ models rest, P m := by
  cases result with
  | error f => exact ⟨nofun, h⟩
  | ok unit =>
    rw [models_cons_ok, List.forall_mem_cons] at h
    refine ⟨?_, h.2⟩
    rintro _ ⟨⟩
    exact h.1

/-- When writing never changes the directory and always answers the same, so does a batch. -/
theorem emitted_of_fixed {answer : ClassModel → Except Failure Unit}
    {files : List (Text × Except Failure GeneratedUnit)}
    (h : ∀ m ∈ models files, g.write d m = (answer m, d)) :
    g.emitted d files = (files.map (outcomeOf g answer), d) := by
  induction files with
  | nil => rfl
  | cons file rest ih =>
    obtain ⟨path, result⟩ := file
    obtain ⟨hfirst, hrest⟩ := forall_models_cons h
    cases result with
    | error f => simp only [emitted, directoryAfter, ih hrest, List.map_cons, outcomeOf]
    | ok unit =>
      simp only [emitted, directoryAfter, hfirst unit rfl, ih hrest, List.map_cons, outcomeOf]

/-- Into a folder that is there a batch writes the same in any directory with the same folders. -/
theorem emitted_of_folder (hdir : g.outputDir ≠ [])
    (hlookup : made.lookup g.outputDir = .ok .folder) (hfolder : made.folderAt g.outputDir = .ok l)
    {files : List (Text × Except Failure GeneratedUnit)}
    (hnames : ∀ m ∈ models files, Path.separator ∉ m.name) (hd : SameFolders made d) :
    (g.emitted d files).1 = files.map (outcomeOf g (writeAnswer g made l)) ∧
      (g.emitted d files).2.content? =
        (models files).foldl (fun contents m => writeEffect made l m contents) d.content? := by
  induction files generalizing d with
  | nil => exact ⟨rfl, rfl⟩
  | cons file rest ih =>
    obtain ⟨path, result⟩ := file
    obtain ⟨hfirst, hrest⟩ := forall_models_cons hnames
    cases result with
    | error f =>
      obtain ⟨houtcomes, hcontents⟩ := ih hrest hd
      simp only [emitted, directoryAfter, List.map_cons, outcomeOf, houtcomes]
      exact ⟨trivial, hcontents⟩
    | ok unit =>
      have hwrite : g.write d unit.model = g.writePair d unit.model := by
        rw [write, makeFolders_of_folder (hd.keeps.lookup hlookup)]
      obtain ⟨hanswer, hsame, hcontents⟩ :=
        writePair_of_ok hdir (hfirst unit rfl) (hd.keeps.folderAt hfolder)
      obtain ⟨houtcomes, hlast⟩ := ih hrest (hd.trans hsame)
      rw [writeAnswer_of_sameFolders hd rfl] at hanswer
      rw [writeEffect_of_sameFolders hd] at hcontents
      simp only [emitted, directoryAfter, List.map_cons, outcomeOf, hwrite, hanswer, houtcomes]
      exact ⟨trivial, hlast.trans (by rw [hcontents]; rfl)⟩

/-- An outcome that says that the output directory cannot be made, for some reason. -/
def NotMade (dir : Text) (o : Outcome) : Prop :=
  ∃ problem, o = { path := o.path, failure := some ((notCreated dir problem).withPath o.path) }

/-- Outcomes that are equal, or both say of one path that the output directory cannot be made. -/
def SameButReason (dir : Text) (o o' : Outcome) : Prop :=
  o = o' ∨ o.path = o'.path ∧ NotMade dir o ∧ NotMade dir o'

namespace SameButReason

variable {dir : Text} {o o' o'' : Outcome}

theorem refl (dir : Text) (o : Outcome) : SameButReason dir o o := .inl rfl

/-- To be the same but for the reason goes both ways. -/
theorem symm (h : SameButReason dir o o') : SameButReason dir o' o := by
  rcases h with rfl | ⟨hpath, hmade, hmade'⟩
  · exact refl dir o
  · exact .inr ⟨hpath.symm, hmade', hmade⟩

/-- To be the same but for the reason goes on. -/
theorem trans (h : SameButReason dir o o') (h' : SameButReason dir o' o'') :
    SameButReason dir o o'' := by
  rcases h with rfl | ⟨hpath, hmade, hmade'⟩
  · exact h'
  · rcases h' with rfl | ⟨hpath', -, hmade''⟩
    · exact .inr ⟨hpath, hmade, hmade'⟩
    · exact .inr ⟨hpath.trans hpath', hmade, hmade''⟩

end SameButReason

/-- Lists that pairwise agree with two permuted lists are permuted up to that agreement. -/
theorem permuted_of_forall₂ {dir : Text} {outcomes outcomes' middle middle' : List Outcome}
    (h : List.Forall₂ (SameButReason dir) outcomes middle) (hperm : middle.Perm middle')
    (h' : List.Forall₂ (SameButReason dir) outcomes' middle') :
    ∃ permuted, outcomes.Perm permuted ∧ List.Forall₂ (SameButReason dir) permuted outcomes' := by
  have hcomp : Relation.Comp (List.Forall₂ (SameButReason dir)) List.Perm outcomes middle' :=
    ⟨middle, h, hperm⟩
  rw [List.forall₂_comp_perm_eq_perm_comp_forall₂] at hcomp
  obtain ⟨permuted, hpermuted, hsame⟩ := hcomp
  refine ⟨permuted, hpermuted, ?_⟩
  clear hpermuted h hperm
  induction hsame generalizing outcomes' with
  | nil =>
    cases h'
    exact .nil
  | cons hfirst _ ih =>
    cases h' with
    | cons hfirst' hrest' => exact .cons (hfirst.trans hfirst'.symm) (ih hrest')

/-- A batch that starts in a directory whose first write leaves another one goes on as from
there. -/
theorem emitted_from {Q : Outcome → Outcome → Prop} (hrefl : ∀ o, Q o o)
    (hstate : ∀ m, (g.write d m).2 = (g.write e m).2)
    (houtcome : ∀ file, Q (outcomeOf g (fun m => (g.write d m).1) file)
      (outcomeOf g (fun m => (g.write e m).1) file))
    (files : List (Text × Except Failure GeneratedUnit)) :
    List.Forall₂ Q (g.emitted d files).1 (g.emitted e files).1 ∧
      (models files ≠ [] → (g.emitted d files).2 = (g.emitted e files).2) ∧
      (models files = [] → (g.emitted d files).2 = d) := by
  have hforall : ∀ l : List Outcome, List.Forall₂ Q l l :=
    fun l => List.forall₂_same.2 fun o _ => hrefl o
  induction files with
  | nil => exact ⟨.nil, fun h => absurd rfl h, fun _ => rfl⟩
  | cons file rest ih =>
    obtain ⟨path, result⟩ := file
    cases result with
    | error f => exact ⟨.cons (houtcome _) ih.1, ih.2⟩
    | ok unit =>
      have hafter : g.directoryAfter d (path, .ok unit) = g.directoryAfter e (path, .ok unit) :=
        hstate unit.model
      simp only [emitted, hafter]
      refine ⟨.cons (houtcome _) (hforall _), fun _ => trivial, fun hnone => ?_⟩
      rw [models_cons_ok] at hnone
      cases hnone

variable {files files' : List (Text × Except Failure GeneratedUnit)}

theorem models_perm (h : files.Perm files') : (models files).Perm (models files') :=
  h.filterMap _

/-- Files in another order have no classes to write exactly if they have none. -/
theorem models_eq_nil_iff (h : files.Perm files') : models files' = [] ↔ models files = [] := by
  rw [← List.length_eq_zero_iff, ← (models_perm h).length_eq, List.length_eq_zero_iff]

/-- Where the output directory cannot be made, nothing changes any more after the first attempt, so
files can be written in any order. -/
theorem emitted_perm_of_error {problem : FileProblem}
    (hmake : d.makeFolders g.outputDir = (.error problem, made)) (hperm : files.Perm files') :
    (∃ outcomes, (g.emitted d files).1.Perm outcomes ∧
        List.Forall₂ (SameButReason g.outputDir) outcomes (g.emitted d files').1) ∧
      (g.emitted d files').2.content? = (g.emitted d files).2.content? := by
  obtain ⟨problem', hagain⟩ := makeFolders_error hmake
  have hwrite : ∀ m, g.write d m = (.error (notCreated g.outputDir problem), made) := by
    intro m
    rw [write, hmake]
  have hwriteMade : ∀ m, g.write made m = (.error (notCreated g.outputDir problem'), made) := by
    intro m
    rw [write, hagain]
  have hfrom := emitted_from (g := g) (d := d) (e := made) (Q := SameButReason g.outputDir)
    (.refl _) (fun m => by rw [hwrite, hwriteMade]) (by
      rintro ⟨path, result⟩
      cases result with
      | error f => exact .refl _ _
      | ok unit =>
        simp only [outcomeOf, hwrite, hwriteMade]
        exact .inr ⟨rfl, ⟨problem, rfl⟩, problem', rfl⟩)
  have hfixed : ∀ files, g.emitted made files =
      (files.map (outcomeOf g fun _ => .error (notCreated g.outputDir problem')), made) :=
    fun files => emitted_of_fixed fun m _ => hwriteMade m
  obtain ⟨hsame, hleft, hnothing⟩ := hfrom files
  obtain ⟨hsame', hleft', hnothing'⟩ := hfrom files'
  rw [hfixed] at hsame hsame'
  refine ⟨permuted_of_forall₂ hsame (hperm.map _) hsame', ?_⟩
  by_cases hempty : models files = []
  · rw [hnothing hempty, hnothing' ((models_eq_nil_iff hperm).2 hempty)]
  · rw [hleft hempty, hleft' (hempty ∘ (models_eq_nil_iff hperm).1), hfixed, hfixed]

/-- Into an output directory that is there, files whose classes have different names can be written
in any order. -/
theorem emitted_perm_of_lookup (hdir : g.outputDir ≠ []) (hperm : files.Perm files')
    (hnames : ∀ m ∈ models files, Path.separator ∉ m.name)
    (hdistinct : ((models files).map ClassModel.name).Nodup)
    (hlookup : made.lookup g.outputDir = .ok .folder) :
    (g.emitted made files).1.Perm (g.emitted made files').1 ∧
      (g.emitted made files').2.content? = (g.emitted made files).2.content? := by
  have hmodels := models_perm hperm
  have hnames' : ∀ m ∈ models files', Path.separator ∉ m.name :=
    fun m hm => hnames m (hmodels.mem_iff.2 hm)
  cases hfolder : made.folderAt g.outputDir with
  | error fault =>
    have hfixed : ∀ files, (∀ m ∈ models files, Path.separator ∉ m.name) →
        g.emitted made files = (files.map (outcomeOf g fun m => .error
          (notCreated (g.headerPath m) ⟨"open", g.headerPath m, fault⟩)), made) := by
      refine fun files hfiles => emitted_of_fixed fun m hm => ?_
      rw [write, makeFolders_of_folder hlookup]
      exact writePair_of_error hdir (hfiles m hm) hfolder
    rw [hfixed files hnames, hfixed files' hnames']
    exact ⟨hperm.map _, rfl⟩
  | ok l =>
    obtain ⟨houtcomes, hcontents⟩ := emitted_of_folder hdir hlookup hfolder hnames (.refl made)
    obtain ⟨houtcomes', hcontents'⟩ := emitted_of_folder hdir hlookup hfolder hnames' (.refl made)
    rw [houtcomes, houtcomes', hcontents, hcontents']
    refine ⟨hperm.map _, (hmodels.foldl_eq' ?_ _).symm⟩
    intro m hm m' hm' contents
    by_cases heq : m = m'
    · rw [heq]
    · refine writeEffect_comm (fun hname => heq ?_) made l contents
      exact List.inj_on_of_nodup_map hdistinct hm hm' hname

/-- Files whose classes have different names can be written in any order. Each location holds
the same in the end, and the outcomes are permuted; only the reason why an output directory
cannot be made may change. -/
theorem emitted_perm (hdir : g.outputDir ≠ []) (hperm : files.Perm files')
    (hnames : ∀ m ∈ models files, Path.separator ∉ m.name)
    (hdistinct : ((models files).map ClassModel.name).Nodup) (d : Directory) :
    (∃ outcomes, (g.emitted d files).1.Perm outcomes ∧
        List.Forall₂ (SameButReason g.outputDir) outcomes (g.emitted d files').1) ∧
      ((d.makeFolders g.outputDir).1 = .ok () →
        (g.emitted d files).1.Perm (g.emitted d files').1) ∧
      (g.emitted d files').2.content? = (g.emitted d files).2.content? := by
  cases hmake : d.makeFolders g.outputDir with
  | mk answer made =>
    cases answer with
    | error problem =>
      obtain ⟨houtcomes, hcontents⟩ := emitted_perm_of_error hmake hperm
      exact ⟨houtcomes, (fun h => by cases h), hcontents⟩
    | ok done =>
      have hlookup := (makeFolders_ok hmake).2
      have hmade := emitted_perm_of_lookup hdir hperm hnames hdistinct hlookup
      have hwrite : ∀ m, g.write d m = g.write made m := by
        intro m
        rw [write, write, hmake, makeFolders_of_folder hlookup]
      -- the first write makes the directory, so the batch goes on as if it had been there
      have hfrom := emitted_from (g := g) (d := d) (e := made) (Q := Eq) (fun _ => rfl)
        (fun m => by rw [hwrite]) (fun file => by simp only [hwrite])
      have hequal : ∀ files, (g.emitted d files).1 = (g.emitted made files).1 := fun files =>
        List.forall₂_eq_eq_eq ▸ (hfrom files).1
      rw [hequal, hequal]
      refine ⟨⟨_, hmade.1, List.forall₂_same.2 fun o _ => .refl _ o⟩, fun _ => hmade.1, ?_⟩
      have hnil := models_eq_nil_iff hperm
      by_cases hempty : models files = []
      · rw [(hfrom files).2.2 hempty, (hfrom files').2.2 (hnil.2 hempty)]
      · rw [(hfrom files).2.1 hempty, (hfrom files').2.1 (hempty ∘ hnil.1)]
        exact hmade.2

end Emitting

end Generator

end JavaObjC
