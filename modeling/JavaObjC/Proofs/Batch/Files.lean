import JavaObjC.Generator.Batch
import Mathlib.Data.List.Basic

/-!
# Where generated files go

The files of a class lie in the output folder under names of their own. The
path of such a file is cleaned, so it leads to the location of the folder with
the name added, or nowhere at all, and which of the two depends on folders
alone. Making the output directory either leaves a folder that later attempts
find, or fails for a file in the way that makes later attempts fail too; the
reason that is given may then be another one.
-/

namespace JavaObjC

namespace Text

variable {b : UInt8}

/-- Splitting always gives a part. -/
theorem splitOn_ne_nil (b : UInt8) (t : Text) : splitOn b t ≠ [] := by
  cases t with
  | nil => simp [splitOn]
  | cons c rest =>
    rw [splitOn]
    split
    · simp
    · split <;> simp

/-- A separator splits a text into the parts before and the parts after it. -/
theorem splitOn_append (b : UInt8) (s t : Text) :
    splitOn b (s ++ b :: t) = splitOn b s ++ splitOn b t := by
  induction s with
  | nil => simp [splitOn]
  | cons c s ih =>
    rw [List.cons_append, splitOn, splitOn]
    split
    · rw [ih, List.cons_append]
    · rw [ih]
      obtain ⟨first, others, hsplit⟩ := List.exists_cons_of_ne_nil (splitOn_ne_nil b s)
      rw [hsplit]
      rfl

/-- Without the separator a text is one part. -/
theorem splitOn_of_notMem {t : Text} (h : b ∉ t) : splitOn b t = [t] := by
  induction t with
  | nil => rfl
  | cons c t ih =>
    rw [List.mem_cons, not_or] at h
    rw [splitOn, if_neg fun hc => h.1 hc.symm, ih h.2]

/-- No part has the separator in it. -/
theorem notMem_of_mem_splitOn {t part : Text} (h : part ∈ splitOn b t) : b ∉ part := by
  induction t generalizing part with
  | nil =>
    rw [splitOn, List.mem_singleton] at h
    simp [h]
  | cons c t ih =>
    rw [splitOn] at h
    split at h
    · rcases List.mem_cons.1 h with rfl | h
      · simp
      · exact ih h
    · rename_i hc
      obtain ⟨first, others, hsplit⟩ := List.exists_cons_of_ne_nil (splitOn_ne_nil b t)
      rw [hsplit] at h ih
      rcases List.mem_cons.1 h with rfl | h
      · rw [List.mem_cons, not_or]
        exact ⟨fun heq => hc heq.symm, ih (List.mem_cons_self ..)⟩
      · exact ih (List.mem_cons_of_mem _ h)

/-- Parts without the separator are found again after they were joined. -/
theorem splitOn_join {parts : List Text} (hne : parts ≠ []) (h : ∀ part ∈ parts, b ∉ part) :
    splitOn b (join [b] parts) = parts := by
  induction parts with
  | nil => exact absurd rfl hne
  | cons part rest ih =>
    rw [List.forall_mem_cons] at h
    cases rest with
    | nil => exact splitOn_of_notMem h.1
    | cons next rest =>
      have hjoin : join [b] (part :: next :: rest) = part ++ b :: join [b] (next :: rest) := by
        simp [join]
      rw [hjoin, splitOn_append, splitOn_of_notMem h.1, ih (by simp) h.2]
      rfl

end Text

namespace Path

/-- A name that leads one step down and no further. -/
structure Plain (name : Text) : Prop where
  nonempty : name ≠ []
  ne_here : name ≠ here
  ne_above : name ≠ above
  separator_notMem : separator ∉ name

/-- The elements of a path that count, the last one first. -/
def stack (p : Text) : List Text := (elements p).foldl (push (isRooted p)) []

/-- A plain name is one more element of a path. -/
theorem push_plain {name : Text} (h : Plain name) (rooted : Bool) (elements : List Text) :
    push rooted elements name = name :: elements := by
  have hempty : name.isEmpty = false := by simpa using h.nonempty
  simp [push, hempty, h.ne_here, h.ne_above]

/-- No element that counts is empty or has a separator in it. -/
theorem mem_foldl_push {rooted : Bool} {names elements : List Text}
    (hnames : ∀ name ∈ names, separator ∉ name)
    (helements : ∀ element ∈ elements, element ≠ [] ∧ separator ∉ element) :
    ∀ element ∈ names.foldl (push rooted) elements, element ≠ [] ∧ separator ∉ element := by
  induction names generalizing elements with
  | nil => exact helements
  | cons name rest ih =>
    rw [List.forall_mem_cons] at hnames
    refine ih hnames.2 ?_
    by_cases hkept : name.isEmpty = true ∨ name = here
    · simpa only [push, Bool.or_eq_true, decide_eq_true_eq, if_pos hkept] using helements
    · have hpushed : ∀ element ∈ name :: elements, element ≠ [] ∧ separator ∉ element := by
        rw [List.forall_mem_cons]
        refine ⟨⟨?_, hnames.1⟩, helements⟩
        intro hnil
        exact hkept (.inl (by simp [hnil]))
      simp only [push, Bool.or_eq_true, decide_eq_true_eq, if_neg hkept]
      split
      · exact hpushed
      · split
        · rename_i top rest'
          split
          · exact hpushed
          · exact fun element helement => helements element (List.mem_cons_of_mem _ helement)
        · split
          · simp
          · exact hpushed

/-- The elements of a path are not empty and have no separator. -/
theorem mem_stack {p element : Text} (h : element ∈ stack p) :
    element ≠ [] ∧ separator ∉ element :=
  mem_foldl_push (fun _ hname => Text.notMem_of_mem_splitOn hname) (by simp) element h

/-- The elements of the path of a name in a folder are not empty and have no separator. -/
theorem mem_stack_append {name : Text} (hname : Plain name) (folder : Text) :
    ∀ part ∈ (stack folder).reverse ++ [name], part ≠ [] ∧ separator ∉ part := by
  intro part hpart
  rcases List.mem_append.1 hpart with h | h
  · exact mem_stack (List.mem_reverse.1 h)
  · rw [List.mem_singleton] at h
    exact h ▸ ⟨hname.nonempty, hname.separator_notMem⟩

/-- Such elements with slashes between them do not begin with a slash. -/
theorem join_front {parts : List Text} (hparts : ∀ part ∈ parts, part ≠ [] ∧ separator ∉ part)
    (hne : parts ≠ []) :
    ∃ byte tail, Text.join [separator] parts = byte :: tail ∧ byte ≠ separator := by
  obtain ⟨first, rest, rfl⟩ := List.exists_cons_of_ne_nil hne
  obtain ⟨hfirst, hseparator⟩ := hparts first List.mem_cons_self
  obtain ⟨byte, more, rfl⟩ := List.exists_cons_of_ne_nil hfirst
  have hbyte : byte ≠ separator := fun heq => hseparator (heq ▸ List.mem_cons_self)
  cases rest with
  | nil => exact ⟨byte, more, rfl, hbyte⟩
  | cons next rest => exact ⟨byte, _, rfl, hbyte⟩

/-- The path of a name in a folder is written with the elements that count and the name. -/
theorem join_eq {folder name : Text} (hfolder : folder ≠ []) (hname : Plain name) :
    join [folder, name] = if isRooted folder then
      separator :: Text.join [separator] ((stack folder).reverse ++ [name])
      else Text.join [separator] ((stack folder).reverse ++ [name]) := by
  have hslash : Text.ofString "/" = [separator] := rfl
  have hrooted : isRooted (folder ++ separator :: name) = isRooted folder := by
    obtain ⟨first, rest, rfl⟩ := List.exists_cons_of_ne_nil hfolder
    rfl
  have hstack : ((elements (folder ++ separator :: name)).foldl
      (push (isRooted folder)) []).reverse = (stack folder).reverse ++ [name] := by
    rw [elements, Text.splitOn_append, Text.splitOn_of_notMem hname.separator_notMem,
      List.foldl_append, List.foldl_cons, List.foldl_nil, push_plain hname, List.reverse_cons]
    rfl
  have hkept : [folder, name].filter (!·.isEmpty) = [folder, name] := by
    simp [hfolder, hname.nonempty]
  have hjoined : Text.join [separator] [folder, name] = folder ++ separator :: name := by
    simp [Text.join]
  obtain ⟨byte, tail, hbody, -⟩ := join_front (mem_stack_append hname folder) (by simp)
  rw [join, hkept]
  simp only [hslash, hjoined, clean, hrooted, hstack, hbody, List.isEmpty_cons,
    Bool.false_eq_true, if_false]

/-- The path of a name in a folder leads along the elements that count and then to the name. -/
theorem join_plain {folder name : Text} (hfolder : folder ≠ []) (hname : Plain name) :
    isRooted (join [folder, name]) = isRooted folder ∧ join [folder, name] ≠ [] ∧
      elements (join [folder, name]) =
        (if isRooted folder then [[]] else []) ++ (stack folder).reverse ++ [name] := by
  have hparts := mem_stack_append hname folder
  obtain ⟨byte, tail, hbody, hbyte⟩ := join_front hparts (by simp)
  have helements :
      Text.splitOn separator (Text.join [separator] ((stack folder).reverse ++ [name])) =
        (stack folder).reverse ++ [name] :=
    Text.splitOn_join (by simp) fun part hpart => (hparts part hpart).2
  rw [join_eq hfolder hname]
  cases hroot : isRooted folder with
  | true =>
    simp only [if_true]
    refine ⟨rfl, by simp, ?_⟩
    have hsplit := Text.splitOn_append separator [] (Text.join [separator]
      ((stack folder).reverse ++ [name]))
    rw [List.nil_append, helements] at hsplit
    exact hsplit
  | false =>
    simp only [Bool.false_eq_true, if_false]
    refine ⟨?_, by rw [hbody]; simp, helements⟩
    rw [hbody, isRooted]
    simpa using hbyte

/-- A path goes on from the path to its folder. -/
theorem elements_of_parent? {p up : Text} (h : parent? p = some up) :
    isRooted p = isRooted up ∧ up ≠ [] ∧
      ∃ name rest, elements p = elements up ++ name :: rest := by
  unfold parent? at h
  split at h
  · rename_i a b rest heq
    obtain rfl := Option.some.inj h
    have ha : a = separator := by
      have hstop := List.head?_dropWhile_not (fun b => decide (b ≠ separator))
        (p.reverse.dropWhile fun b => decide (b = separator))
      rw [heq] at hstop
      simpa using hstop
    obtain ⟨seps, hseps⟩ := List.dropWhile_suffix (· = separator) (l := p.reverse)
    obtain ⟨name, hname⟩ := List.dropWhile_suffix (· ≠ separator)
      (l := p.reverse.dropWhile (· = separator))
    rw [heq] at hname
    rw [← hname] at hseps
    have hp : p = (b :: rest).reverse ++ separator :: (name.reverse ++ seps.reverse) := by
      have := congrArg List.reverse hseps
      simpa [ha] using this.symm
    have hne : (b :: rest).reverse ≠ [] := by simp
    refine ⟨?_, hne, ?_⟩
    · obtain ⟨first, more, hcons⟩ := List.exists_cons_of_ne_nil hne
      rw [hp, hcons]
      rfl
    · obtain ⟨first, more, hcons⟩ := List.exists_cons_of_ne_nil
        (Text.splitOn_ne_nil separator (name.reverse ++ seps.reverse))
      exact ⟨first, more, by rw [hp, elements, Text.splitOn_append, hcons]; rfl⟩
  · simp at h

/-- Separators at the end of a path are empty elements. -/
theorem elements_eq_withoutTrailing (p : Text) :
    ∃ n, elements p = elements (withoutTrailing p) ++ List.replicate n [] := by
  have hseparators : ∀ n, Text.splitOn separator (List.replicate n separator) =
      List.replicate (n + 1) [] := by
    intro n
    induction n with
    | zero => rfl
    | succ n ih => rw [List.replicate_succ, Text.splitOn, if_pos rfl, ih, ← List.replicate_succ]
  have hsplit := List.takeWhile_append_dropWhile (p := fun b => decide (b = separator))
    (l := p.reverse)
  have htaken : p.reverse.takeWhile (fun b => decide (b = separator)) =
      List.replicate (p.reverse.takeWhile fun b => decide (b = separator)).length separator :=
    List.eq_replicate_iff.2 ⟨rfl, fun b hb => by
      simpa using List.all_eq_true.1 List.all_takeWhile b hb⟩
  generalize (p.reverse.takeWhile fun b => decide (b = separator)).length = n at htaken
  have hp : p = withoutTrailing p ++ List.replicate n separator := by
    rw [htaken] at hsplit
    have := congrArg List.reverse hsplit
    simpa [withoutTrailing] using this.symm
  cases n with
  | zero => exact ⟨0, by simpa using congrArg elements hp⟩
  | succ n =>
    refine ⟨n + 1, ?_⟩
    calc elements p
        = Text.splitOn separator (withoutTrailing p ++ separator :: List.replicate n separator) :=
          congrArg elements hp
      _ = elements (withoutTrailing p) ++ List.replicate (n + 1) [] := by
          rw [Text.splitOn_append, hseparators, elements]

/-- Trailing separators do not decide whether a path is rooted, unless it has nothing else. -/
theorem isRooted_withoutTrailing {p : Text} (h : withoutTrailing p ≠ []) :
    p ≠ [] ∧ isRooted p = isRooted (withoutTrailing p) := by
  have hsuffix := List.dropWhile_suffix (fun b => decide (b = separator)) (l := p.reverse)
  have hprefix : withoutTrailing p <+: p := by
    have := List.reverse_prefix.2 hsuffix
    rwa [List.reverse_reverse] at this
  obtain ⟨rest, hrest⟩ := hprefix
  obtain ⟨first, more, hcons⟩ := List.exists_cons_of_ne_nil h
  rw [hcons] at hrest ⊢
  rw [← hrest]
  exact ⟨by simp, rfl⟩

end Path

namespace Directory

variable {d d' : Directory}

/-- A directory with the same folders as another one, and possibly more. -/
structure KeepsFolders (d d' : Directory) : Prop where
  home_eq : d'.home = d.home
  folder : ∀ l, d.content? l = some .folder → d'.content? l = some .folder

theorem KeepsFolders.refl (d : Directory) : KeepsFolders d d := ⟨rfl, fun _ h => h⟩

/-- Folders that are kept twice are kept. -/
theorem KeepsFolders.trans {e : Directory} (h : KeepsFolders d d') (h' : KeepsFolders d' e) :
    KeepsFolders d e :=
  ⟨h'.home_eq.trans h.home_eq, fun l hl => h'.folder l (h.folder l hl)⟩

/-- What stands at a place after something was put at one. -/
theorem content?_put {l : Location} (hl : l ≠ []) (d : Directory) (c : Content) (l' : Location) :
    (d.put l c).content? l' = if l' = l then some c else d.content? l' := by
  by_cases heq : l' = l
  · subst heq
    have hempty : l'.isEmpty = false := by simpa using hl
    simp [content?, hempty, put, getKey?_setKey_self]
  · simp only [content?, put, getKey?_setKey_of_ne heq, heq, if_false]

/-- What stands at a place after something was erased at one. -/
theorem content?_erase {l : Location} (hl : l ≠ []) (d : Directory) (l' : Location) :
    (d.erase l).content? l' = if l' = l then none else d.content? l' := by
  by_cases heq : l' = l
  · subst heq
    have hempty : l'.isEmpty = false := by simpa using hl
    simp [content?, hempty, erase, getKey?_dropKey_self]
  · simp only [content?, erase, getKey?_dropKey_of_ne heq, heq, if_false]

section Following

/-- A path is followed part after part. -/
theorem follow_append (d : Directory) (l : Location) (path more : List Text) :
    d.follow l (path ++ more) = (d.follow l path).bind fun l' => d.follow l' more := by
  induction path generalizing l with
  | nil => rfl
  | cons element rest ih =>
    rw [List.cons_append, follow, follow]
    cases d.content? l with
    | none => rfl
    | some c =>
      cases c with
      | file text => rfl
      | folder =>
        dsimp only
        split
        · exact ih l
        · split
          · exact ih _
          · exact ih _

/-- A path that leads somewhere leads there in every directory with the same folders. -/
theorem KeepsFolders.follow (h : KeepsFolders d d') {l r : Location} {path : List Text}
    (hfollow : d.follow l path = .ok r) : d'.follow l path = .ok r := by
  induction path generalizing l with
  | nil => exact hfollow
  | cons element rest ih =>
    rw [Directory.follow] at hfollow ⊢
    cases hcontent : d.content? l with
    | none =>
      rw [hcontent] at hfollow
      cases hfollow
    | some c =>
      rw [hcontent] at hfollow
      cases c with
      | file text => cases hfollow
      | folder =>
        rw [h.folder l hcontent]
        dsimp only at hfollow ⊢
        by_cases hstay : (element.isEmpty || decide (element = Path.here)) = true
        · rw [if_pos hstay] at hfollow ⊢
          exact ih hfollow
        · rw [if_neg hstay] at hfollow ⊢
          by_cases habove : element = Path.above
          · rw [if_pos habove] at hfollow ⊢
            exact ih hfollow
          · rw [if_neg habove] at hfollow ⊢
            exact ih hfollow

/-- Only from a folder does a path go on. -/
theorem folder_of_follow {l r : Location} {element : Text} {rest : List Text}
    (h : d.follow l (element :: rest) = .ok r) : d.content? l = some .folder := by
  rw [follow] at h
  cases hcontent : d.content? l with
  | none =>
    rw [hcontent] at h
    cases h
  | some c =>
    cases c with
    | folder => rfl
    | file text =>
      rw [hcontent] at h
      cases h

/-- Empty parts lead nowhere from a folder. -/
theorem follow_replicate {l : Location} (h : d.content? l = some .folder) (n : Nat) :
    d.follow l (List.replicate n []) = .ok l := by
  induction n with
  | zero => rfl
  | succ n ih => simpa [List.replicate_succ, follow, h] using ih

/-- A path starts at the root or at home. -/
theorem startOf_of_home_eq (h : d'.home = d.home) (path : Text) :
    d'.startOf path = d.startOf path := by
  rw [startOf, startOf, h]

/-- A path that leads somewhere still does when folders are kept. -/
theorem KeepsFolders.locate (h : KeepsFolders d d') {path : Text} {l : Location}
    (hlocate : d.locate path = .ok l) : d'.locate path = .ok l := by
  rw [Directory.locate] at hlocate ⊢
  split at hlocate
  · cases hlocate
  · rename_i hempty
    rw [if_neg hempty, startOf_of_home_eq h.home_eq]
    exact h.follow hlocate

/-- A path leads to a folder exactly if it leads to a location that holds one. -/
theorem lookup_eq_folder {path : Text} :
    d.lookup path = .ok .folder ↔ ∃ l, d.locate path = .ok l ∧ d.content? l = some .folder := by
  unfold lookup
  cases d.locate path with
  | error fault => simp
  | ok l => cases hcontent : d.content? l <;> simp [hcontent]

/-- A folder that is found still is when folders are kept. -/
theorem KeepsFolders.lookup (h : KeepsFolders d d') {path : Text}
    (hlookup : d.lookup path = .ok .folder) : d'.lookup path = .ok .folder := by
  obtain ⟨l, hlocate, hfolder⟩ := lookup_eq_folder.1 hlookup
  exact lookup_eq_folder.2 ⟨l, h.locate hlocate, h.folder l hfolder⟩

/-- What a path leads to lies in the folder that the path to its folder leads to. -/
theorem lookup_parent {path up : Text} (hup : Path.parent? path = some up) {l : Location}
    (h : d.locate path = .ok l) : d.lookup up = .ok .folder := by
  obtain ⟨hrooted, hne, name, rest, helements⟩ := Path.elements_of_parent? hup
  rw [locate] at h
  split at h
  · cases h
  · rw [helements, follow_append] at h
    cases hfollow : d.follow (d.startOf path) (Path.elements up) with
    | error fault =>
      rw [hfollow] at h
      cases h
    | ok l' =>
      rw [hfollow] at h
      have hstart : d.startOf up = d.startOf path := by rw [startOf, startOf, hrooted]
      refine lookup_eq_folder.2 ⟨l', ?_, folder_of_follow h⟩
      rw [locate, if_neg (by simpa using hne), hstart, hfollow]

end Following

section Making

/-- Making a folder keeps the others and makes it. -/
theorem makeFolder_ok {path : Text} {made : Directory} (h : d.makeFolder path = .ok made) :
    KeepsFolders d made ∧ made.lookup path = .ok .folder := by
  unfold makeFolder at h
  cases hlocate : d.locate (Path.withoutTrailing path) with
  | error fault =>
    rw [hlocate] at h
    cases h
  | ok l =>
    rw [hlocate] at h
    dsimp only at h
    split at h
    · cases h
    · rename_i hnone
      obtain rfl := Except.ok.inj h
      have hl : l ≠ [] := by
        rintro rfl
        exact hnone rfl
      have hkeeps : KeepsFolders d (d.put l .folder) := by
        refine ⟨rfl, fun l' hl' => ?_⟩
        rw [content?_put hl]
        split
        · rfl
        · exact hl'
      refine ⟨hkeeps, lookup_eq_folder.2 ⟨l, ?_, by rw [content?_put hl, if_pos rfl]⟩⟩
      have hwithout : Path.withoutTrailing path ≠ [] := by
        intro hnil
        rw [hnil] at hlocate
        cases hlocate
      obtain ⟨hpath, hrooted⟩ := Path.isRooted_withoutTrailing hwithout
      obtain ⟨n, helements⟩ := Path.elements_eq_withoutTrailing path
      have hfollow := hkeeps.locate hlocate
      rw [locate, if_neg (by simpa using hwithout)] at hfollow
      have hstart : ∀ e : Directory, e.startOf path = e.startOf (Path.withoutTrailing path) := by
        intro e
        rw [startOf, startOf, hrooted]
      rw [locate, if_neg (by simpa using hpath), helements, follow_append, hstart, hfollow]
      exact follow_replicate (by rw [content?_put hl, if_pos rfl]) n

/-- Ensuring a folder keeps the others, and the folder is there. -/
theorem ensureFolder_ok {path : Text} {made : Directory}
    (h : d.ensureFolder path = (.ok (), made)) :
    KeepsFolders d made ∧ made.lookup path = .ok .folder := by
  unfold ensureFolder at h
  cases hmake : d.makeFolder path with
  | ok made' =>
    rw [hmake] at h
    cases h
    exact makeFolder_ok hmake
  | error problem =>
    rw [hmake] at h
    dsimp only at h
    cases hfolder : d.isFolder path with
    | false =>
      rw [hfolder] at h
      cases h
    | true =>
      rw [hfolder] at h
      cases h
      refine ⟨.refl d, ?_⟩
      unfold isFolder at hfolder
      split at hfolder
      · assumption
      · cases hfolder

/-- A folder that cannot be made is not there, and nothing has changed. -/
theorem ensureFolder_error {path : Text} {problem : FileProblem} {made : Directory}
    (h : d.ensureFolder path = (.error problem, made)) :
    made = d ∧ d.lookup path ≠ .ok .folder := by
  unfold ensureFolder at h
  cases hmake : d.makeFolder path with
  | ok made' =>
    rw [hmake] at h
    cases h
  | error problem' =>
    rw [hmake] at h
    dsimp only at h
    obtain ⟨hanswer, rfl⟩ := Prod.mk.inj h
    refine ⟨rfl, fun hfolder => ?_⟩
    rw [isFolder, hfolder] at hanswer
    cases hanswer

/-- A folder that is there already is not made. -/
theorem makeFolders_of_folder {path : Text} (h : d.lookup path = .ok .folder) :
    d.makeFolders path = (.ok (), d) := by
  rw [makeFolders, h]

/-- A missing folder is made after those on the way to it. -/
theorem makeFolders_of_parent {path up : Text} (h : ∀ c, d.lookup path ≠ .ok c)
    (hup : Path.parent? path = some up) :
    d.makeFolders path = match d.makeFolders up with
      | (.ok (), made) => made.ensureFolder path
      | (.error problem, made) => (.error problem, made) := by
  rw [makeFolders]
  split
  · next hc => exact absurd hc (h _)
  · next hc => exact absurd hc (h _)
  · split
    · next up' hup' =>
      obtain rfl := Option.some.inj (hup.symm.trans hup')
      rfl
    · next hnone => cases hup.symm.trans hnone

/-- A folder that was made is there. -/
theorem makeFolders_ok {path : Text} {made : Directory}
    (h : d.makeFolders path = (.ok (), made)) :
    KeepsFolders d made ∧ made.lookup path = .ok .folder := by
  induction hlength : path.length using Nat.strongRecOn generalizing path d made with
  | _ n ih =>
    subst hlength
    rw [makeFolders] at h
    split at h
    · rename_i hlookup
      cases h
      exact ⟨.refl d, hlookup⟩
    · cases h
    · split at h
      · rename_i up hup
        cases hmake : d.makeFolders up with
        | mk answer made' =>
          rw [hmake] at h
          cases answer with
          | error problem => cases h
          | ok done =>
            obtain ⟨hkeeps, -⟩ := ih up.length (Path.length_parent?_lt hup) hmake rfl
            obtain ⟨hkeeps', hlookup⟩ := ensureFolder_ok h
            exact ⟨hkeeps.trans hkeeps', hlookup⟩
      · exact ensureFolder_ok h

/-- A folder that could not be made cannot be made later either, and what was made on the way
stays as it is. The reason may be another one. -/
theorem makeFolders_error {path : Text} {problem : FileProblem} {made : Directory}
    (h : d.makeFolders path = (.error problem, made)) :
    ∃ problem', made.makeFolders path = (.error problem', made) := by
  induction hlength : path.length using Nat.strongRecOn
    generalizing path d problem made with
  | _ n ih =>
    subst hlength
    have hfirst := h
    rw [makeFolders] at h
    split at h
    · cases h
    · cases h
      exact ⟨_, hfirst⟩
    · split at h
      · rename_i up hup
        cases hmake : d.makeFolders up with
        | mk answer made' =>
          rw [hmake] at h
          cases answer with
          | error problem' =>
            cases h
            obtain ⟨again, hagain⟩ := ih up.length (Path.length_parent?_lt hup) hmake rfl
            -- nothing lies in a folder that cannot be made
            have hlookup : ∀ c, made.lookup path ≠ .ok c := by
              intro c hc
              unfold lookup at hc
              cases hlocate : made.locate path with
              | error fault =>
                rw [hlocate] at hc
                cases hc
              | ok l =>
                rw [makeFolders_of_folder (lookup_parent hup hlocate)] at hagain
                cases hagain
            exact ⟨again, by rw [makeFolders_of_parent hlookup hup, hagain]⟩
          | ok done =>
            obtain ⟨rfl, hnot⟩ := ensureFolder_error h
            obtain ⟨-, hlookup⟩ := makeFolders_ok hmake
            cases hc : made.lookup path with
            | error fault =>
              refine ⟨problem, ?_⟩
              rw [makeFolders_of_parent (by simp [hc]) hup, makeFolders_of_folder hlookup]
              exact h
            | ok content =>
              cases content with
              | folder => exact absurd hc hnot
              | file bytes => exact ⟨_, by rw [makeFolders, hc]⟩
      · obtain ⟨rfl, -⟩ := ensureFolder_error h
        exact ⟨problem, hfirst⟩

end Making

section Placing

/-- The folder that the elements of a path that count lead to. -/
def folderAt (d : Directory) (path : Text) : Except FileFault Location :=
  match d.follow (d.startOf path) (Path.stack path).reverse with
  | .ok l => match d.content? l with
    | some .folder => .ok l
    | some (.file _) => .error .notDirectory
    | none => .error .notFound
  | .error fault => .error fault

/-- A folder still stands where it did when folders are kept. -/
theorem KeepsFolders.folderAt (h : KeepsFolders d d') {path : Text} {l : Location}
    (hl : d.folderAt path = .ok l) : d'.folderAt path = .ok l := by
  unfold Directory.folderAt at hl ⊢
  cases hfollow : d.follow (d.startOf path) (Path.stack path).reverse with
  | error fault =>
    rw [hfollow] at hl
    cases hl
  | ok l' =>
    rw [hfollow] at hl
    rw [startOf_of_home_eq h.home_eq, h.follow hfollow]
    dsimp only at hl ⊢
    cases hcontent : d.content? l' with
    | none =>
      rw [hcontent] at hl
      cases hl
    | some c =>
      cases c with
      | file text =>
        rw [hcontent] at hl
        cases hl
      | folder =>
        rw [h.folder l' hcontent]
        rw [hcontent] at hl
        exact hl

/-- A name in a folder is found below the location of the folder. -/
theorem locate_join {folder name : Text} (hfolder : folder ≠ []) (hname : Path.Plain name) :
    d.locate (Path.join [folder, name]) = (d.folderAt folder).map (· ++ [name]) := by
  obtain ⟨hrooted, hne, helements⟩ := Path.join_plain hfolder hname
  have hstart : d.startOf (Path.join [folder, name]) = d.startOf folder := by
    rw [startOf, startOf, hrooted]
  have hlast : ∀ l, d.follow l [name] = match d.content? l with
      | some .folder => .ok (l ++ [name])
      | some (.file _) => .error .notDirectory
      | none => .error .notFound := by
    intro l
    have hempty : name.isEmpty = false := by simpa using hname.nonempty
    cases hcontent : d.content? l with
    | none => simp only [follow, hcontent]
    | some c =>
      cases c <;> simp [follow, hcontent, hempty, hname.ne_here, hname.ne_above]
  have hfollow : d.locate (Path.join [folder, name]) =
      d.follow (d.startOf folder) ((Path.stack folder).reverse ++ [name]) := by
    rw [locate, if_neg (by simpa using hne), hstart, helements]
    cases hroot : Path.isRooted folder with
    | false => rfl
    | true => simp [startOf, hroot, follow, content?]
  rw [hfollow, follow_append, folderAt]
  cases d.follow (d.startOf folder) (Path.stack folder).reverse with
  | error fault => rfl
  | ok l =>
    rw [Except.bind, hlast l]
    dsimp only
    cases d.content? l with
    | none => rfl
    | some c => cases c <;> rfl

end Placing

end Directory

end JavaObjC
