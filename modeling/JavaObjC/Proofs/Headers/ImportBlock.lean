import JavaObjC.Proofs.Workshop.Records
import JavaObjC.Target.Header
import Mathlib.Data.List.Perm.Basic

/-!
# The import block of a header

A header starts with one line for Foundation, if it depends on any system
class, and one line for every other class it depends on, in the order of their
names. When a class is a system class exactly if its name is predefined, its
line depends on its name alone, and the block holds the line of every class
that the model depends on.
-/

namespace JavaObjC

namespace Text

variable {s t u : Text}

/-- No text comes before itself. -/
theorem before_irrefl (t : Text) : before t t = false := by
  induction t with
  | nil => rfl
  | cons b t ih => simpa [before] using ih

/-- What comes before a text comes before those behind it. -/
theorem before_trans (h : before s t = true) (h' : before t u = true) : before s u = true := by
  induction s generalizing t u with
  | nil =>
    cases t with
    | nil => cases h
    | cons b t =>
      cases u with
      | nil => cases h'
      | cons c u => rfl
  | cons a s ih =>
    cases t with
    | nil => cases h
    | cons b t =>
      cases u with
      | nil => cases h'
      | cons c u =>
        simp only [before] at h h' ⊢
        by_cases hab : a < b
        · by_cases hbc : b < c
          · rw [if_pos (UInt8.lt_trans hab hbc)]
          · by_cases hcb : c < b
            · simp [hbc, hcb] at h'
            · have heq : b = c := UInt8.le_antisymm (UInt8.not_lt.1 hcb) (UInt8.not_lt.1 hbc)
              rw [← heq, if_pos hab]
        · by_cases hba : b < a
          · simp [hab, hba] at h
          · have heq : a = b := UInt8.le_antisymm (UInt8.not_lt.1 hba) (UInt8.not_lt.1 hab)
            subst heq
            rw [if_neg hab, if_neg hab] at h
            by_cases hac : a < c
            · rw [if_pos hac]
            · by_cases hca : c < a
              · simp [hac, hca] at h'
              · rw [if_neg hac, if_neg hca] at h' ⊢
                exact ih h h'

/-- Of two different texts one comes before the other. -/
theorem before_total (s t : Text) : before s t = true ∨ s = t ∨ before t s = true := by
  induction s generalizing t with
  | nil => cases t <;> simp [before]
  | cons a s ih =>
    cases t with
    | nil => exact .inr (.inr rfl)
    | cons b t =>
      simp only [before]
      by_cases hab : a < b
      · exact .inl (by rw [if_pos hab])
      · by_cases hba : b < a
        · exact .inr (.inr (by rw [if_pos hba]))
        · have heq : a = b := UInt8.le_antisymm (UInt8.not_lt.1 hba) (UInt8.not_lt.1 hab)
          subst heq
          simpa [hab] using ih t

/-- Items of different keys are sorted into strictly increasing order. -/
theorem sortBy_strict {α : Type} (key : α → Text) {items : List α}
    (h : (items.map key).Nodup) :
    ((sortBy key items).map key).Pairwise fun s t => before s t = true := by
  have hsorted : (sortBy key items).Pairwise fun a b => (!before (key b) (key a)) = true := by
    refine List.pairwise_mergeSort (fun a b c hab hbc => ?_) (fun a b => ?_) items
    · rw [Bool.not_eq_true'] at hab hbc ⊢
      rcases before_total (key c) (key b) with hcb | heq | hbc'
      · rw [hcb] at hbc
        cases hbc
      · rw [heq]
        exact hab
      · by_contra hca
        have hba := before_trans hbc' (by simpa using hca)
        rw [hba] at hab
        cases hab
    · rcases before_total (key a) (key b) with hab | heq | hba
      · by_cases hba : before (key b) (key a) = true
        · have hirrefl := before_trans hab hba
          rw [before_irrefl] at hirrefl
          cases hirrefl
        · simp [hba]
      · simp [heq, before_irrefl]
      · by_cases hab : before (key a) (key b) = true
        · have hirrefl := before_trans hab hba
          rw [before_irrefl] at hirrefl
          cases hirrefl
        · simp [hab]
  have hnodup : ((sortBy key items).map key).Nodup :=
    ((List.mergeSort_perm items _).map key).nodup_iff.2 h
  rw [List.Nodup, List.pairwise_map] at hnodup
  rw [List.pairwise_map]
  refine (hsorted.and hnodup).imp fun {a b} hab => ?_
  rcases before_total (key a) (key b) with hbefore | heq | hafter
  · exact hbefore
  · exact absurd heq hab.2
  · rw [hafter] at hab
    cases hab.1

/-- Sorting keeps the items. -/
theorem mem_sortBy {α : Type} {key : α → Text} {items : List α} {a : α} :
    a ∈ sortBy key items ↔ a ∈ items := List.mem_mergeSort

end Text

section Lines

variable {α κ : Type} [DecidableEq κ]

/-- Where no key occurs twice every item is the first of its key. -/
theorem firstBy_of_nodup {key : α → κ} {items : List α} (h : (items.map key).Nodup) :
    firstBy key items = items := by
  induction items with
  | nil => rfl
  | cons a rest ih =>
    rw [List.map_cons, List.nodup_cons] at h
    have hkept : rest.filter (key · ≠ key a) = rest := by
      refine List.filter_eq_self.2 fun b hb => ?_
      have hne : key b ≠ key a := fun heq => h.1 (heq ▸ List.mem_map_of_mem hb)
      simpa using hne
    rw [firstBy_cons, hkept, ih h.2]

end Lines

section Blanks

theorem exists_withBlank (t : Text) : ∃ rest, withBlank t = t ++ rest := by
  rw [withBlank]
  split
  · exact ⟨[], by simp⟩
  · exact ⟨_, rfl⟩

/-- The banner ends in an empty line. -/
theorem withBlank_banner (fileName : Text) : withBlank (banner fileName) = banner fileName := by
  have hend : Text.endsWith (banner fileName) "\n\n" = true := by
    refine List.isSuffixOf_iff_suffix.2 ⟨line ("// " ++ fileName) ++
      (pad 0 ++ ("// Generated by java2objc. Do not edit." : Text)), ?_⟩
    rw [banner, line, line, indented, indented]
    simp only [List.append_assoc]
    rfl
  rw [withBlank, hend, Bool.or_true, if_pos rfl]

/-- A line with anything on it is followed by an empty one. -/
theorem withBlank_of_ne {b : UInt8} (hb : b ≠ Text.byte '\n') (start : Text) :
    withBlank (start ++ [b] ++ ("\n" : Text)) = start ++ [b] ++ ("\n" : Text) ++ "\n" := by
  have hend : Text.endsWith (start ++ [b] ++ ("\n" : Text)) "\n\n" = false := by
    rw [Bool.eq_false_iff]
    intro h
    obtain ⟨before, heq⟩ := List.isSuffixOf_iff_suffix.1 h
    have hlast : before ++ [Text.byte '\n'] ++ [Text.byte '\n'] =
        start ++ [b] ++ [Text.byte '\n'] := by
      rw [List.append_assoc]
      exact heq
    have hbefore := List.append_inj_left' hlast rfl
    exact hb (List.cons.inj (List.append_inj_right' hbefore rfl)).1.symm
  have hempty : (start ++ [b] ++ ("\n" : Text)).isEmpty = false := by
    rw [List.isEmpty_eq_false_iff, List.append_assoc]
    exact List.append_ne_nil_of_right_ne_nil _ (List.cons_ne_nil _ _)
  rw [withBlank, hend, hempty, Bool.or_false, if_neg (by decide)]

/-- A line that has a last byte. -/
theorem line_concat (content : Text) (b : UInt8) :
    line (content ++ [b]) = content ++ [b] ++ ("\n" : Text) := rfl

end Blanks

namespace ClassRef

/-- The line that makes the system classes visible. -/
def foundationLine : Text := "#import <Foundation/Foundation.h>"

/-- The line that makes a class of a name visible that is no system class. -/
def classLine (name : Text) : Text := "#import \"" ++ (name ++ ".h") ++ "\""

variable {c c' : ClassRef}

/-- A class of the system is imported with the framework. -/
theorem importDirective_of_system (h : c.isSystem = true) : c.importDirective = foundationLine := by
  rw [importDirective, if_pos h]
  rfl

/-- A class of the program is imported by its own header. -/
theorem importDirective_of_not_system (h : c.isSystem = false) :
    c.importDirective = classLine c.name := by
  rw [importDirective, if_neg (by simp [h])]
  rfl

/-- Classes of different names have different imports. -/
theorem classLine_inj {name name' : Text} (h : classLine name = classLine name') :
    name = name' := by
  have hname := List.append_cancel_left (List.append_cancel_right h)
  exact List.append_cancel_right hname

/-- No class of the program is imported like the framework. -/
theorem classLine_ne_foundationLine (name : Text) : classLine name ≠ foundationLine := by
  intro h
  -- the bytes after the directive differ: a quote and an angle bracket
  have hbyte := congrArg (·[8]?) h
  have hquote : (classLine name)[8]? = some (Text.byte '"') := rfl
  rw [hquote] at hbyte
  exact absurd hbyte (by decide)

/-- An import line ends in a quote or an angle bracket. -/
theorem importDirective_eq_concat (c : ClassRef) :
    ∃ start b, b ≠ Text.byte '\n' ∧ c.importDirective = start ++ [b] := by
  cases hsystem : c.isSystem with
  | true =>
    rw [importDirective_of_system hsystem]
    exact ⟨"#import <Foundation/Foundation.h", Text.byte '>', by decide, rfl⟩
  | false =>
    rw [importDirective_of_not_system hsystem]
    exact ⟨"#import \"" ++ (c.name ++ ".h"), Text.byte '"', by decide, rfl⟩

/-- A class that belongs to the system exactly if its name is predefined. -/
def Canonical (c : ClassRef) : Prop := c.isSystem = (predefined? c.name).isSome

/-- Canonical classes of one name are both `id` or neither. -/
theorem Canonical.isId_eq (h : c.Canonical) (h' : c'.Canonical) (hname : c'.name = c.name) :
    c'.isId = c.isId := by
  have hsystem : c'.isSystem = c.isSystem := by rw [h, h', hname]
  simp only [isId, hsystem, hname]

/-- The line of such a class depends on its name alone. -/
theorem Canonical.importDirective_eq (h : c.Canonical) (h' : c'.Canonical)
    (hname : c'.name = c.name) : c'.importDirective = c.importDirective := by
  have hsystem : c'.isSystem = c.isSystem := by rw [h, h', hname]
  simp only [importDirective, headerFile, hsystem, hname]

end ClassRef

namespace ClassModel

open ClassRef

/-- The import lines of a header. -/
def importBlock (m : ClassModel) : List Text :=
  firstPerKey id (m.dependencies.map ClassRef.importDirective)

/-- No line of the block is there twice. -/
theorem importBlock_nodup (m : ClassModel) : m.importBlock.Nodup := by
  rw [importBlock, firstPerKey_eq]
  simpa using firstBy_keys_nodup id (m.dependencies.map importDirective)

/-- The system classes come first, and then the others in the order of their names. -/
theorem dependencies_eq (m : ClassModel) :
    ∃ systems users, m.dependencies = systems ++ users ∧
      (∀ c ∈ systems, c.isSystem = true) ∧ (∀ c ∈ users, c.isSystem = false) ∧
      (users.map ClassRef.name).Pairwise fun s t => Text.before s t = true := by
  have hnodup := firstBy_keys_nodup ClassRef.name
    ((m.base :: m.protocols ++ m.imports).filter (!·.isId))
  rw [← firstPerKey_eq] at hnodup
  unfold dependencies sortImports
  dsimp only
  generalize firstPerKey ClassRef.name ((m.base :: m.protocols ++ m.imports).filter (!·.isId)) =
    distinct at hnodup ⊢
  have hstrict := Text.sortBy_strict ClassRef.name
    (hnodup.sublist ((List.filter_sublist (p := (!·.isSystem))).map ClassRef.name))
  refine ⟨_, _, List.filter_append .., fun c hc => ?_, fun c hc => ?_,
    hstrict.sublist (List.filter_sublist.map ClassRef.name)⟩
  · have hmem := Text.mem_sortBy.1 (List.mem_filter.1 hc).1
    exact (List.mem_filter.1 hmem).2
  · have hmem := Text.mem_sortBy.1 (List.mem_filter.1 hc).1
    simpa using (List.mem_filter.1 hmem).2

/-- Every class that a model names in its declaration or imports is among its dependencies by name,
apart from the type of any object and the class itself. -/
theorem exists_mem_dependencies {m : ClassModel} {c : ClassRef}
    (hc : c ∈ m.base :: m.protocols ++ m.imports) (hid : c.isId = false)
    (hown : c.name ≠ m.name) : ∃ c' ∈ m.dependencies, c'.name = c.name := by
  have hkept : c ∈ (m.base :: m.protocols ++ m.imports).filter (!·.isId) :=
    List.mem_filter.2 ⟨hc, by simp [hid]⟩
  obtain ⟨c', hc', hname⟩ := (exists_mem_firstBy ClassRef.name).2 ⟨c, hkept, rfl⟩
  refine ⟨c', List.mem_filter.2 ⟨?_, by simpa [hname] using hown⟩, hname⟩
  rw [sortImports, firstPerKey_eq, List.mem_append, Text.mem_sortBy, Text.mem_sortBy,
    List.mem_filter, List.mem_filter]
  cases hsystem : c'.isSystem with
  | true => exact .inl ⟨hc', rfl⟩
  | false => exact .inr ⟨hc', rfl⟩

/-- A dependency is the class above, a protocol or an import, and not the class itself. -/
theorem mem_of_mem_dependencies {m : ClassModel} {c : ClassRef} (h : c ∈ m.dependencies) :
    c ∈ m.base :: m.protocols ++ m.imports ∧ c.name ≠ m.name := by
  obtain ⟨hsorted, hown⟩ := List.mem_filter.1 h
  refine ⟨?_, by simpa using hown⟩
  rw [sortImports, firstPerKey_eq, List.mem_append, Text.mem_sortBy, Text.mem_sortBy,
    List.mem_filter, List.mem_filter] at hsorted
  have hdistinct := hsorted.elim And.left And.left
  exact (List.mem_filter.1 ((firstBy_sublist _ _).subset hdistinct)).1

/-- The lines of the block are the imports of the dependencies. -/
theorem mem_importBlock {m : ClassModel} {text : Text} :
    text ∈ m.importBlock ↔ ∃ c ∈ m.dependencies, c.importDirective = text := by
  rw [importBlock, firstPerKey_eq, ← List.mem_map]
  have hkey := exists_mem_firstBy id (k := text) (l := m.dependencies.map importDirective)
  simpa using hkey

/-- What separates the import block from the declaration: the banner ends in an empty line already,
and a block is followed by one. -/
def blockEnd (m : ClassModel) : Text := if m.importBlock = [] then [] else "\n"

/-- The line that opens the declaration of a class or a protocol. -/
def openingLine (m : ClassModel) : Text := if m.isProtocol then m.protocolLine else m.interfaceLine

/-- What stands before the declaration. -/
theorem withBlank_importLines (m : ClassModel) :
    withBlank (banner m.headerFile ++ m.importLines) =
      banner m.headerFile ++ m.importBlock.flatMap line ++ m.blockEnd := by
  have hblock : m.importLines = m.importBlock.flatMap line := rfl
  rw [hblock, blockEnd]
  rcases List.eq_nil_or_concat m.importBlock with hnil | ⟨first, last, hlast⟩
  · rw [hnil, if_pos rfl, List.flatMap_nil, List.append_nil, List.append_nil, withBlank_banner]
  · have hmem : last ∈ m.importBlock := by rw [hlast]; simp
    obtain ⟨c, -, hdirective⟩ := mem_importBlock.1 hmem
    obtain ⟨start, b, hb, hline⟩ := importDirective_eq_concat c
    have hne : m.importBlock ≠ [] := List.ne_nil_of_mem hmem
    rw [if_neg hne, hlast, List.concat_eq_append, List.flatMap_append, List.flatMap_singleton,
      ← hdirective, hline, line_concat, ← List.append_assoc, ← List.append_assoc,
      ← List.append_assoc]
    exact withBlank_of_ne hb _

/-- A class declares after everything before it in the file. -/
theorem classDeclaration_eq (m : ClassModel) (before : Text) :
    ∃ rest, m.classDeclaration before = before ++ m.interfaceLine ++ rest := by
  unfold classDeclaration
  dsimp only
  obtain ⟨rest, hrest⟩ := exists_withBlank (before ++ m.interfaceLine ++ m.ivarLines)
  rw [hrest]
  split
  · exact ⟨_, by simp only [List.append_assoc]; rfl⟩
  · obtain ⟨rest', hrest'⟩ := exists_withBlank
      (before ++ m.interfaceLine ++ m.ivarLines ++ rest ++ m.publicPrototypes)
    rw [hrest']
    exact ⟨_, by simp only [List.append_assoc]; rfl⟩

/-- A header is the banner, the import block, and the declaration after an empty line. -/
theorem header_eq (m : ClassModel) :
    ∃ rest, m.header = banner m.headerFile ++ m.importBlock.flatMap line ++ m.blockEnd ++
      m.openingLine ++ rest := by
  rw [header, withBlank_importLines, openingLine]
  cases m.isProtocol with
  | true =>
    rw [if_pos rfl, if_pos rfl, protocolDeclaration]
    exact ⟨_, by simp only [List.append_assoc]; rfl⟩
  | false =>
    rw [if_neg (by decide), if_neg (by decide)]
    exact m.classDeclaration_eq _

/-- Lines of which some first ones are the same and the others differ from it and from each other,
each once. -/
theorem firstBy_repeated {first others : List Text} {text : Text}
    (hfirst : ∀ t ∈ first, t = text) (hother : text ∉ others) (hnodup : others.Nodup) :
    firstBy id (first ++ others) = (if first.isEmpty then [] else [text]) ++ others := by
  have hothers : firstBy id others = others := firstBy_of_nodup (by simpa using hnodup)
  cases first with
  | nil => exact hothers
  | cons t rest =>
    rw [List.forall_mem_cons] at hfirst
    obtain ⟨rfl, hrest⟩ := hfirst
    have hnone : rest.filter (id · ≠ id t) = [] :=
      List.filter_eq_nil_iff.2 fun t' ht' => by simp [hrest t' ht']
    have hall : others.filter (id · ≠ id t) = others := by
      refine List.filter_eq_self.2 fun t' ht' => ?_
      have hne : t' ≠ t := fun heq => hother (heq ▸ ht')
      simpa using hne
    rw [List.cons_append, firstBy_cons, List.filter_append, hnone, hall, List.nil_append, hothers]
    rfl

/-- The block is the line of Foundation, if it is needed, and the lines of the other classes in
strictly increasing order of their names. -/
theorem importBlock_eq (m : ClassModel) :
    ∃ foundation, ∃ users : List Text, m.importBlock = foundation ++ users.map classLine ∧
      (foundation = [] ∨ foundation = [foundationLine]) ∧
      users.Pairwise (fun s t => Text.before s t = true) ∧
      ∀ name ∈ users, ∃ c ∈ m.dependencies, c.name = name ∧ c.isSystem = false := by
  obtain ⟨systems, users, hsplit, hsystem, huser, hstrict⟩ := m.dependencies_eq
  have hlines : m.dependencies.map importDirective =
      systems.map importDirective ++ (users.map ClassRef.name).map classLine := by
    rw [hsplit, List.map_append, List.map_map]
    refine congrArg _ (List.map_congr_left fun c hc => ?_)
    exact importDirective_of_not_system (huser c hc)
  have hnodup : (users.map ClassRef.name).Nodup := by
    refine hstrict.imp fun {s t} hst heq => ?_
    rw [heq, Text.before_irrefl] at hst
    cases hst
  refine ⟨if (systems.map importDirective).isEmpty then [] else [foundationLine],
    users.map ClassRef.name, ?_, ?_, hstrict, ?_⟩
  · rw [importBlock, firstPerKey_eq, hlines]
    refine firstBy_repeated (fun text htext => ?_) (fun hmem => ?_)
      (hnodup.map fun _ _ => classLine_inj)
    · obtain ⟨c, hc, rfl⟩ := List.mem_map.1 htext
      exact importDirective_of_system (hsystem c hc)
    · obtain ⟨name, -, hname⟩ := List.mem_map.1 hmem
      exact classLine_ne_foundationLine name hname
  · split
    · exact .inl rfl
    · exact .inr rfl
  · intro name hname
    obtain ⟨c, hc, rfl⟩ := List.mem_map.1 hname
    exact ⟨c, by rw [hsplit]; exact List.mem_append_right _ hc, rfl, huser c hc⟩

end ClassModel

end JavaObjC
