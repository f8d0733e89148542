import JavaObjC.Proofs.Batch.Emission

/-!
# Headers and implementations come in pairs

Writing a class leaves both of its files or, once its header was created, none.
Nothing else changes: locations keep what they hold, paths lead where they led,
and what is new is a folder on the way to the output directory. A batch with no
path, or with one that is no Java source, is refused before anything is done.
-/

namespace JavaObjC

namespace Path

/-- What follows the last separator of a text, and what comes before it. -/
theorem exists_last_separator {name : Text} (h : separator ∈ name) :
    ∃ folder base, name = folder ++ separator :: base ∧ separator ∉ base := by
  obtain ⟨base, folder, hsplit, hnot⟩ := List.eq_append_cons_of_mem (List.mem_reverse.2 h)
  refine ⟨folder.reverse, base.reverse, ?_, fun hmem => hnot (List.mem_reverse.1 hmem)⟩
  have hname := congrArg List.reverse hsplit
  simpa using hname

/-- A path below a folder is joined to it element by element. -/
theorem join_append {folder name : Text} (inner : Text) (hfolder : folder ≠ [])
    (hname : name ≠ []) :
    join [folder, inner ++ separator :: name] = join [folder ++ separator :: inner, name] := by
  have hslash : Text.ofString "/" = [separator] := rfl
  have hkept : [folder, inner ++ separator :: name].filter (!·.isEmpty) =
      [folder, inner ++ separator :: name] := by simp [hfolder]
  have hkept' : [folder ++ separator :: inner, name].filter (!·.isEmpty) =
      [folder ++ separator :: inner, name] := by simp [hname]
  rw [join, join, hkept, hkept']
  simp [hslash, Text.join]

/-- The folder above is a front of the path. -/
theorem parent?_prefix {p up : Text} (h : parent? p = some up) : up <+: p := by
  unfold parent? at h
  split at h
  · rename_i a b rest heq
    obtain rfl := Option.some.inj h
    have hsuffix : b :: rest <:+ p.reverse := by
      have hdropped := (List.dropWhile_suffix (fun c => decide (c ≠ separator))).trans
        (List.dropWhile_suffix (fun c => decide (c = separator)) (l := p.reverse))
      rw [heq] at hdropped
      exact (List.suffix_cons a (b :: rest)).trans hdropped
    have hfront := List.reverse_prefix.2 hsuffix
    rwa [List.reverse_reverse] at hfront
  · cases h

/-- Without trailing separators a path is a front of itself. -/
theorem withoutTrailing_prefix (p : Text) : withoutTrailing p <+: p := by
  have hsuffix := List.dropWhile_suffix (fun b => decide (b = separator)) (l := p.reverse)
  have hfront := List.reverse_prefix.2 hsuffix
  rwa [List.reverse_reverse] at hfront

end Path

namespace Directory

variable {d d' e : Directory} {path : Text}

/-- A directory that differs from another one at most by folders that were made along a path. -/
structure Widens (path : Text) (d d' : Directory) : Prop where
  home_eq : d'.home = d.home
  kept_or_made : ∀ l, d'.content? l = d.content? l ∨
    d.content? l = none ∧ d'.content? l = some .folder ∧ ∃ up, up <+: path ∧ d'.locate up = .ok l

namespace Widens

theorem refl (path : Text) (d : Directory) : Widens path d d := ⟨rfl, fun _ => .inl rfl⟩

/-- Widening keeps the folders. -/
theorem keeps (h : Widens path d d') : KeepsFolders d d' := by
  refine ⟨h.home_eq, fun l hl => ?_⟩
  rcases h.kept_or_made l with hkept | ⟨-, hmade, -⟩
  · exact hkept.trans hl
  · exact hmade

/-- Widening along a path and then along a longer one widens along the longer one. -/
theorem trans {shorter : Text} (hfront : shorter <+: path) (h : Widens shorter d d')
    (h' : Widens path d' e) : Widens path d e := by
  refine ⟨h'.home_eq.trans h.home_eq, fun l => ?_⟩
  rcases h.kept_or_made l, h'.kept_or_made l with
    ⟨hkept | ⟨hnone, hmade, up, hup, hlocate⟩, hkept' | ⟨hnone', hmade', hpath⟩⟩
  · exact .inl (hkept'.trans hkept)
  · exact .inr ⟨hkept.symm.trans hnone', hmade', hpath⟩
  · exact .inr ⟨hnone, hkept'.trans hmade, up, hup.trans hfront, h'.keeps.locate hlocate⟩
  · rw [hmade] at hnone'
    cases hnone'

end Widens

/-- Making a folder adds folders on its path only. -/
theorem makeFolder_widens {made : Directory} (h : d.makeFolder path = .ok made) :
    Widens path d made := by
  have hkeeps := (makeFolder_ok h).1
  unfold makeFolder at h
  cases hlocate : d.locate (Path.withoutTrailing path) with
  | error fault =>
    rw [hlocate] at h
    cases h
  | ok l =>
    rw [hlocate] at h
    dsimp only at h
    split at h
    · cases h
    · rename_i hnone
      obtain rfl := Except.ok.inj h
      have hl : l ≠ [] := by
        rintro rfl
        exact hnone rfl
      refine ⟨rfl, fun l' => ?_⟩
      rw [content?_put hl]
      split
      · rename_i heq
        subst heq
        refine .inr ⟨by simpa using hnone, rfl, _, Path.withoutTrailing_prefix path, ?_⟩
        exact hkeeps.locate hlocate
      · exact .inl rfl

/-- Ensuring a folder adds folders on its path only, also when it fails. -/
theorem ensureFolder_widens (d : Directory) (path : Text) :
    Widens path d (d.ensureFolder path).2 := by
  unfold ensureFolder
  cases hmake : d.makeFolder path with
  | ok made => exact makeFolder_widens hmake
  | error problem => exact .refl path d

/-- Making the folders of a path makes folders along it and nothing else, also when it fails. -/
theorem makeFolders_widens (d : Directory) (path : Text) :
    Widens path d (d.makeFolders path).2 := by
  induction hlength : path.length using Nat.strongRecOn generalizing path d with
  | _ n ih =>
    subst hlength
    rw [makeFolders]
    split
    · exact .refl path d
    · exact .refl path d
    · split
      · rename_i up hup
        have hwidens := ih up.length (Path.length_parent?_lt hup) d up rfl
        have hfront := Path.parent?_prefix hup
        cases hmake : d.makeFolders up with
        | mk answer made =>
          rw [hmake] at hwidens
          cases answer with
          | error problem => exact hwidens.trans hfront (.refl path made)
          | ok done => exact hwidens.trans hfront (ensureFolder_widens made path)
      · exact ensureFolder_widens d path

/-- Nothing can be made at the empty path. -/
theorem makeFolders_nil (d : Directory) : (d.makeFolders []).1 ≠ .ok () := by
  rw [makeFolders]
  simp [lookup, locate, Path.parent?, ensureFolder, makeFolder, Path.withoutTrailing, isFolder]

/-- A path at which a file can be created: it leads somewhere, and not to a folder. -/
def Creatable (d : Directory) (path : Text) : Prop :=
  ∃ l, d.locate path = .ok l ∧ d.content? l ≠ some .folder

/-- Where a path leads a file can be created unless a folder is there. -/
theorem creatable_iff {l : Location} (h : d.locate path = .ok l) :
    d.Creatable path ↔ d.content? l ≠ some .folder := by
  refine ⟨?_, fun hfree => ⟨l, h, hfree⟩⟩
  rintro ⟨l', hlocate, hl⟩
  rw [h] at hlocate
  obtain rfl := Except.ok.inj hlocate
  exact hl

/-- A path that leads to no regular file. -/
def HasNoFile (d : Directory) (path : Text) : Prop := ∀ text, d.read path ≠ .ok text

/-- A file that is found is read. -/
theorem read_of_file {l : Location} {text : Text} (hlocate : d.locate path = .ok l)
    (hfile : d.content? l = some (.file text)) : d.read path = .ok text := by
  rw [read, lookup, hlocate]
  simp only [hfile]

/-- Where no file is found there is none to read. -/
theorem hasNoFile_of_content? {l : Location} (hlocate : d.locate path = .ok l)
    (hfile : ∀ text, d.content? l ≠ some (.file text)) : d.HasNoFile path := by
  intro text hread
  rw [read, lookup, hlocate] at hread
  cases hcontent : d.content? l with
  | none => simp [hcontent] at hread
  | some c =>
    cases c with
    | file text' => exact hfile text' hcontent
    | folder => simp [hcontent] at hread

end Directory

namespace Generator

open Directory

variable {g : Generator} {d made : Directory} {m : ClassModel}

/-- The two paths of a class, whatever its name, are two names in one folder. -/
theorem paths_eq_join (hdir : g.outputDir ≠ []) (m : ClassModel) :
    ∃ folder base, folder ≠ [] ∧ Path.separator ∉ base ∧
      g.headerPath m = Path.join [folder, base ++ [46, 104]] ∧
      g.implementationPath m = Path.join [folder, base ++ [46, 109]] := by
  by_cases hslash : Path.separator ∈ m.name
  · obtain ⟨inner, base, hname, hbase⟩ := Path.exists_last_separator hslash
    refine ⟨g.outputDir ++ Path.separator :: inner, base, by simp, hbase, ?_, ?_⟩
    · rw [headerPath, ClassModel.headerFile_eq, hname, List.append_assoc, List.cons_append,
        Path.join_append inner hdir (by simp)]
    · rw [implementationPath, ClassModel.implementationFile_eq, hname, List.append_assoc,
        List.cons_append, Path.join_append inner hdir (by simp)]
  · exact ⟨g.outputDir, m.name, hdir, hslash, rfl, rfl⟩

/-- Both paths of a class lead nowhere, or they lead to two places. -/
theorem locate_paths (hdir : g.outputDir ≠ []) (m : ClassModel) (d : Directory) :
    (∃ fault, d.locate (g.headerPath m) = .error fault ∧
        d.locate (g.implementationPath m) = .error fault) ∨
      ∃ first second, d.locate (g.headerPath m) = .ok first ∧
        d.locate (g.implementationPath m) = .ok second ∧ first ≠ second := by
  obtain ⟨folder, base, hfolder, hbase, hheader, himplementation⟩ := paths_eq_join hdir m
  rw [hheader, himplementation, locate_join hfolder (ClassModel.plain_ending hbase (by decide)),
    locate_join hfolder (ClassModel.plain_ending hbase (by decide))]
  cases d.folderAt folder with
  | error fault => exact .inl ⟨fault, rfl, rfl⟩
  | ok l =>
    refine .inr ⟨_, _, rfl, rfl, fun heq => ?_⟩
    have hnames := List.append_cancel_left heq
    rw [List.cons.injEq] at hnames
    exact absurd (ClassModel.ending_inj hnames.1).2 (by decide)

/-- What writing a class does to a directory. The attempt to make the output folder comes with the
directory it leaves, and so does the whole attempt to write. -/
structure WritesPair (g : Generator) (m : ClassModel) (d : Directory)
    (making : Except FileProblem Unit × Directory) (writing : Except Failure Unit × Directory) :
    Prop where
  /-- Writing succeeds exactly when the folder can be made and both files can be created. -/
  succeeds_iff : writing.1 = .ok () ↔
    making.1 = .ok () ∧ making.2.Creatable (g.headerPath m) ∧
      making.2.Creatable (g.implementationPath m)
  /-- After success, the files hold the two renderings of the class. -/
  pair : writing.1 = .ok () →
    writing.2.read (g.headerPath m) = .ok m.header ∧
      writing.2.read (g.implementationPath m) = .ok m.implementation
  /-- After a failure once the header was created, neither file is there. -/
  neither : writing.1 ≠ .ok () → making.1 = .ok () → making.2.Creatable (g.headerPath m) →
    writing.2.HasNoFile (g.headerPath m) ∧ writing.2.HasNoFile (g.implementationPath m)
  /-- As long as no header was created, at most folders were made. -/
  untouched : ¬ (making.1 = .ok () ∧ making.2.Creatable (g.headerPath m)) →
    Widens g.outputDir d writing.2
  /-- Every path that led somewhere still leads there. -/
  paths : ∀ path l, d.locate path = .ok l → writing.2.locate path = .ok l
  /-- Other locations keep what they hold, and what is new there is a folder on the way to the
  output directory. -/
  frame : ∀ l, writing.2.locate (g.headerPath m) ≠ .ok l →
    writing.2.locate (g.implementationPath m) ≠ .ok l →
    writing.2.content? l = d.content? l ∨
      d.content? l = none ∧ writing.2.content? l = some .folder ∧
        ∃ up, up <+: g.outputDir ∧ writing.2.locate up = .ok l

/-- An attempt that ends before the header is created. -/
theorem WritesPair.of_refused {making : Except FileProblem Unit × Directory} {f : Failure}
    (hwidens : Widens g.outputDir d making.2)
    (hrefused : ¬ (making.1 = .ok () ∧ making.2.Creatable (g.headerPath m))) :
    WritesPair g m d making (.error f, making.2) where
  succeeds_iff := by
    refine ⟨(fun h => by cases h), fun ⟨hmade, hcreatable, _⟩ => ?_⟩
    exact absurd ⟨hmade, hcreatable⟩ hrefused
  pair := fun h => by cases h
  neither := fun _ hmade hcreatable => absurd ⟨hmade, hcreatable⟩ hrefused
  untouched := fun _ => hwidens
  paths := fun _ _ hlocate => hwidens.keeps.locate hlocate
  frame := fun l _ _ => hwidens.kept_or_made l

/-- A change of two places of a directory that was widened changes nothing else. -/
theorem frame_of_sameFolders (first second : Location) {after : Directory} {path : Text}
    (hwidens : Widens path d made) (hsame : SameFolders made after)
    (hkept : ∀ l, l ≠ first → l ≠ second → after.content? l = made.content? l)
    {l : Location} (hfirst : l ≠ first) (hsecond : l ≠ second) :
    after.content? l = d.content? l ∨
      d.content? l = none ∧ after.content? l = some .folder ∧
        ∃ up, up <+: path ∧ after.locate up = .ok l := by
  rw [hkept l hfirst hsecond]
  rcases hwidens.kept_or_made l with hold | ⟨hnone, hfolder, up, hup, hlocate⟩
  · exact .inl hold
  · exact .inr ⟨hnone, hfolder, up, hup, hsame.keeps.locate hlocate⟩

section Made

variable {first second : Location}

/-- An attempt that creates the header, finds a folder where the implementation file would be, and
takes the header back. -/
theorem WritesPair.of_takenBack {f : Failure} (hwidens : Widens g.outputDir d made)
    (hfirst : made.locate (g.headerPath m) = .ok first)
    (hsecond : made.locate (g.implementationPath m) = .ok second) (hne : first ≠ second)
    (hfree : made.content? first ≠ some .folder) (hblocked : made.content? second = some .folder) :
    WritesPair g m d (.ok (), made)
      (.error f, (made.put first (.file m.header)).erase first) := by
  obtain ⟨hsame, hcontent⟩ := takenBack_effect hfree m.header
  generalize (made.put first (.file m.header)).erase first = after at hsame hcontent ⊢
  have hfirst' := hsame.keeps.locate hfirst
  have hsecond' := hsame.keeps.locate hsecond
  constructor
  case succeeds_iff =>
    refine ⟨(fun h => by cases h), fun h => ?_⟩
    exact absurd hblocked ((creatable_iff hsecond).1 h.2.2)
  case pair => exact fun h => by cases h
  case neither =>
    intro _ _ _
    refine ⟨hasNoFile_of_content? hfirst' fun text => ?_,
      hasNoFile_of_content? hsecond' fun text => ?_⟩
    · rw [hcontent, Function.update_self]
      simp
    · rw [hcontent, Function.update_of_ne hne.symm, hblocked]
      simp
  case untouched => exact fun h => absurd ⟨rfl, (creatable_iff hfirst).2 hfree⟩ h
  case paths => exact fun path l h => hsame.keeps.locate (hwidens.keeps.locate h)
  case frame =>
    intro l hl hl'
    refine frame_of_sameFolders first second hwidens hsame ?_
      (fun h => hl (h ▸ hfirst')) (fun h => hl' (h ▸ hsecond'))
    intro l' hl' _
    rw [hcontent, Function.update_of_ne hl']

/-- An attempt that writes both files. -/
theorem WritesPair.of_written (hwidens : Widens g.outputDir d made)
    (hfirst : made.locate (g.headerPath m) = .ok first)
    (hsecond : made.locate (g.implementationPath m) = .ok second) (hne : first ≠ second)
    (hfree : made.content? first ≠ some .folder) (hfree' : made.content? second ≠ some .folder) :
    WritesPair g m d (.ok (), made)
      (.ok (), (made.put first (.file m.header)).put second (.file m.implementation)) := by
  have hcreatable := (creatable_iff hfirst).2 hfree
  obtain ⟨hsame, hcontent⟩ := written_effect hne hfree hfree' m.header m.implementation
  generalize (made.put first (.file m.header)).put second (.file m.implementation) = after
    at hsame hcontent ⊢
  have hfirst' := hsame.keeps.locate hfirst
  have hsecond' := hsame.keeps.locate hsecond
  constructor
  case succeeds_iff =>
    exact ⟨fun _ => ⟨rfl, hcreatable, (creatable_iff hsecond).2 hfree'⟩, fun _ => rfl⟩
  case pair =>
    intro _
    refine ⟨read_of_file hfirst' ?_, read_of_file hsecond' ?_⟩
    · rw [hcontent, Function.update_of_ne hne, Function.update_self]
    · rw [hcontent, Function.update_self]
  case neither => exact fun h => absurd rfl h
  case untouched => exact fun h => absurd ⟨rfl, hcreatable⟩ h
  case paths => exact fun path l h => hsame.keeps.locate (hwidens.keeps.locate h)
  case frame =>
    intro l hl hl'
    refine frame_of_sameFolders first second hwidens hsame ?_
      (fun h => hl (h ▸ hfirst')) (fun h => hl' (h ▸ hsecond'))
    intro l' hfirst hsecond
    rw [hcontent, Function.update_of_ne hsecond, Function.update_of_ne hfirst]

end Made

/-- Writing into an output folder that is there. -/
theorem writesPair_of_made (hdir : g.outputDir ≠ []) (hwidens : Widens g.outputDir d made) :
    WritesPair g m d (.ok (), made) (g.writePair made m) := by
  rcases locate_paths hdir m made with ⟨fault, hheader, -⟩ | ⟨first, second, hfirst, hsecond, hne⟩
  · have hpair : g.writePair made m =
        (.error (notCreated (g.headerPath m) ⟨"open", g.headerPath m, fault⟩), made) := by
      simp only [writePair, Directory.write, hheader]
    rw [hpair]
    refine .of_refused hwidens ?_
    rintro ⟨-, l, hlocate, -⟩
    rw [hheader] at hlocate
    cases hlocate
  · rcases writePair_cases hfirst hsecond hne with
      ⟨hblocked, hpair⟩ | ⟨hfree, hblocked, hpair⟩ | ⟨hfree, hfree', hpair⟩
    · rw [hpair]
      exact .of_refused hwidens fun h => (creatable_iff hfirst).1 h.2 hblocked
    · rw [hpair]
      exact .of_takenBack hwidens hfirst hsecond hne hfree hblocked
    · rw [hpair]
      exact .of_written hwidens hfirst hsecond hne hfree hfree'

/-- Writing a class leaves both files or none, and changes nothing else. -/
theorem writesPair (g : Generator) (m : ClassModel) (d : Directory) :
    WritesPair g m d (d.makeFolders g.outputDir) (g.write d m) := by
  have hwidens := makeFolders_widens d g.outputDir
  unfold write
  cases hmake : d.makeFolders g.outputDir with
  | mk answer made =>
    rw [hmake] at hwidens
    cases answer with
    | error problem => exact .of_refused hwidens fun ⟨h, _⟩ => by cases h
    | ok done =>
      have hdir : g.outputDir ≠ [] := by
        intro hnil
        refine makeFolders_nil d ?_
        rw [← hnil, hmake]
      exact writesPair_of_made hdir hwidens

/-- The first path that is no Java source fails the check of all paths. -/
theorem forM_checkPath_of_find {paths : List Text} {path : Text}
    (h : paths.find? (Path.extension · ≠ sourceExtension) = some path) :
    paths.forM checkPath = .error (.notJava path) := by
  induction paths with
  | nil => cases h
  | cons first rest ih =>
    have hstep : (first :: rest).forM checkPath =
        (checkPath first).bind fun _ => rest.forM checkPath := rfl
    rw [hstep, checkPath]
    by_cases hext : Path.extension first = sourceExtension
    · rw [List.find?_cons_of_neg (by simpa using hext)] at h
      rw [if_pos hext]
      exact ih h
    · rw [List.find?_cons_of_pos (by simpa using hext)] at h
      obtain rfl := Option.some.inj h
      rw [if_neg hext]
      rfl

/-- Why a batch is refused before any work: it has no path, or one that is no Java source. -/
def refusal? (paths : List Text) : Option Failure :=
  if paths.isEmpty then some .noInput
  else (paths.find? (Path.extension · ≠ sourceExtension)).map .notJava

/-- A batch that is refused is so for its input. -/
theorem refusal?_kind {paths : List Text} {f : Failure} (h : refusal? paths = some f) :
    f.kind = .precondition := by
  unfold refusal? at h
  split at h
  · obtain rfl := Option.some.inj h
    simp [Failure.kind]
  · obtain ⟨path, -, rfl⟩ := Option.map_eq_some_iff.1 h
    simp [Failure.kind]

/-- An empty batch and one with a file that is no source are refused. -/
theorem refusal?_isSome {paths : List Text}
    (h : paths = [] ∨ ∃ path ∈ paths, Path.extension path ≠ sourceExtension) :
    ∃ f, refusal? paths = some f := by
  unfold refusal?
  rcases h with rfl | ⟨path, hmem, hext⟩
  · exact ⟨.noInput, rfl⟩
  · have hfound : (paths.find? (Path.extension · ≠ sourceExtension)).isSome := by
      rw [List.find?_isSome]
      exact ⟨path, hmem, by simpa using hext⟩
    obtain ⟨first, hfirst⟩ := Option.isSome_iff_exists.1 hfound
    have hne : paths.isEmpty = false := by
      cases paths with
      | nil => cases hmem
      | cons _ _ => rfl
    exact ⟨.notJava first, by rw [hne, hfirst]; rfl⟩

/-- A batch that is refused changes neither the generator nor the directory. -/
theorem run_of_refusal {paths : List Text} {f : Failure} (h : refusal? paths = some f)
    (g : Generator) (d : Directory) (isCancelled : Bool) :
    g.run d paths isCancelled = (.error f, g, d) := by
  unfold refusal? at h
  unfold run
  split at h
  · rename_i hempty
    obtain rfl := Option.some.inj h
    rw [if_pos hempty]
  · rename_i hempty
    obtain ⟨path, hfind, rfl⟩ := Option.map_eq_some_iff.1 h
    rw [if_neg hempty, forM_checkPath_of_find hfind]

/-- Output files come in pairs: writing a class leaves its two renderings or, once the header was
created, neither file, and touches nothing else; and a batch with no path or with one that is no
Java source fails for a violated precondition and changes nothing at all. -/
theorem output_in_pairs (g : Generator) (d : Directory) :
    (∀ m, WritesPair g m d (d.makeFolders g.outputDir) (g.write d m)) ∧
      ∀ paths isCancelled,
        (paths = [] ∨ ∃ path ∈ paths, Path.extension path ≠ sourceExtension) →
        ∃ f, f.kind = .precondition ∧ g.run d paths isCancelled = (.error f, g, d) := by
  refine ⟨fun m => writesPair g m d, fun paths isCancelled h => ?_⟩
  obtain ⟨f, hf⟩ := refusal?_isSome h
  exact ⟨f, refusal?_kind hf, run_of_refusal hf g d isCancelled⟩

/-- A folder in the place of an implementation: the header that was there is gone as well, and the
folder stays. -/
theorem output_in_pairs_of_blocked :
    let g : Generator := { outputDir := "out" }
    let m : ClassModel := { name := "A" }
    let d : Directory :=
      { entries := [(["out"], .folder), (["out", "A.h"], .file "old"), (["out", "A.m"], .folder)] }
    (g.write d m).1 ≠ .ok () ∧ (g.write d m).2.HasNoFile "out/A.h" ∧
      (g.write d m).2.HasNoFile "out/A.m" ∧
      ∃ f, f.kind = .precondition ∧ g.run d ["A.java", "B.txt"] false = (.error f, g, d) := by
  intro g m d
  obtain ⟨hwrite, hrun⟩ := output_in_pairs g d
  have hmade : d.makeFolders g.outputDir = (.ok (), d) := makeFolders_of_folder rfl
  have hheader : d.Creatable (g.headerPath m) := ⟨["out", "A.h"], rfl, by decide⟩
  have hblocked : ¬ d.Creatable (g.implementationPath m) := by
    rintro ⟨l, hlocate, hl⟩
    have hl' : l = ["out", "A.m"] := (Except.ok.inj hlocate).symm
    exact hl (by rw [hl']; rfl)
  have hpair := hwrite m
  rw [hmade] at hpair
  have hfailed : (g.write d m).1 ≠ .ok () := fun h => hblocked (hpair.succeeds_iff.1 h).2.2
  obtain ⟨hnoHeader, hnoImplementation⟩ := hpair.neither hfailed rfl hheader
  exact ⟨hfailed, hnoHeader, hnoImplementation,
    hrun ["A.java", "B.txt"] false (.inr ⟨"B.txt", by simp, by decide⟩)⟩

end Generator

end JavaObjC
