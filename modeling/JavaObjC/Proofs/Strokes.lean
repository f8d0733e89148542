import JavaObjC.Target.Statement
import Mathlib.Data.List.Basic
import Mathlib.Data.List.Nodup

/-!
# How statements are laid out

A printer draws a statement stroke by stroke. Its pen keeps an indentation and
knows whether it stands at the start of a line: the first piece of a line is
written behind the blanks of the indentation, the others right behind each
other. The layout of a statement is what the pen writes.

The braces that the printer writes itself are pieces of their own, so they can
be told from those in the texts of expressions. They are balanced, each line is
indented by the braces that are open before it, the bodies of statements stand
in braces, and an `else` stands right behind the braced body of the `if` it was
made for.
-/

namespace JavaObjC

namespace Printer

open Stmt

/-- Where a statement stands in another one: the numbers of the parts that lead to it, the
innermost first. -/
abbrev Place := List Nat

/-- What a printer writes at a time. -/
inductive Piece where
  | words (t : Text)
  /-- A label of a switch. -/
  | label (t : Text)
  /-- What stands in front of a body. -/
  | head (t : Text)
  /-- The head of the `if` at a place. -/
  | condition (p : Place) (t : Text)
  /-- The `else` of the `if` at a place. -/
  | otherwise (p : Place)
  | opening
  | closing
  deriving DecidableEq

/-- What a printer does at a time. -/
inductive Stroke where
  | piece (c : Piece)
  | lineEnd
  | deeper
  | shallower
  deriving DecidableEq

namespace Piece

/-- What is written for a piece. -/
def text : Piece → Text
  | .words t | .label t | .head t => t
  | .condition _ t => "if (" ++ t ++ ") "
  | .otherwise _ => " else "
  | .opening => "\x7b"
  | .closing => "\x7d"

/-- How many steps a line that begins with a piece stands to the left of the others. -/
def outdent : Piece → Nat
  | .label _ | .closing => 1
  | _ => 0

end Piece

namespace Stroke

/-- What a stroke adds to a line. -/
def text : Stroke → Text
  | .piece c => c.text
  | _ => []

/-- The place of the `if` that a stroke is the head of. -/
def condition? : Stroke → Option Place
  | .piece (.condition p _) => some p
  | _ => none

end Stroke

/-- The pen of a printer. -/
structure Pen where
  indent : Nat
  /-- Whether it stands at the start of a line. -/
  fresh : Bool

/-- The blanks in front of a piece. -/
def margin (fresh : Bool) (indent : Nat) : Text := if fresh then pad indent else []

namespace Pen

/-- What a stroke writes, and the pen after it. -/
def step (pen : Pen) : Stroke → Text × Pen
  | .piece c => (margin pen.fresh pen.indent ++ c.text, ⟨pen.indent, false⟩)
  | .lineEnd => ("\n", ⟨pen.indent, true⟩)
  | .deeper => ([], ⟨pen.indent + 1, pen.fresh⟩)
  | .shallower => ([], ⟨pen.indent - 1, pen.fresh⟩)

/-- What some strokes write, and the pen after them. -/
def run (pen : Pen) : List Stroke → Text × Pen
  | [] => ([], pen)
  | c :: rest => ((pen.step c).1 ++ ((pen.step c).2.run rest).1, ((pen.step c).2.run rest).2)

/-- Drawing strokes in two parts is drawing them in a row. -/
theorem run_append (pen : Pen) (l l' : List Stroke) :
    pen.run (l ++ l') = ((pen.run l).1 ++ ((pen.run l).2.run l').1, ((pen.run l).2.run l').2) := by
  induction l generalizing pen with
  | nil => rfl
  | cons c rest ih => simp [run, ih]

end Pen

/-- The strokes of a statement. -/
structure Drawing where
  /-- On lines of its own. -/
  own : List Stroke
  /-- As the content of a braced body. -/
  inside : List Stroke
  /-- After the body of the `if` at a place. -/
  afterElse : Place → List Stroke

namespace Drawing

/-- Strokes between braces. -/
def inBraces (l : List Stroke) : List Stroke := .piece .opening :: (l ++ [.piece .closing])

/-- Content in braces. -/
def braced (inside : List Stroke) : List Stroke :=
  inBraces (.lineEnd :: .deeper :: (inside ++ [.shallower]))

/-- The strokes of a statement that looks the same inside braces. -/
def ofOwn (own : List Stroke) : Drawing :=
  ⟨own, own, fun p => .piece (.otherwise p) :: braced own⟩

/-- The strokes of a statement on a single line. -/
def ofLine (content : Text) : Drawing := ofOwn [.piece (.words content), .lineEnd]

end Drawing

/-- The strokes of a switch group's labels. -/
def labelStrokes (labels : List Text) : List Stroke :=
  if labels.isEmpty then [.piece (.label "default:"), .lineEnd]
  else labels.flatMap fun label => [.piece (.label ("case " ++ label ++ ":")), .lineEnd]

/-- The strokes of the body of a switch group. -/
def groupStrokes (declares : Bool) (inside : List Stroke) : List Stroke :=
  if declares then Drawing.braced inside ++ [.lineEnd] else inside

mutual

/-- How the statement at a place is drawn. -/
def drawing (p : Place) : Stmt → Drawing
  | .nothing => ⟨[], [], fun _ => []⟩
  | .block body =>
    ⟨Drawing.braced (drawings p 0 body) ++ [.lineEnd], drawings p 0 body,
      fun q => .piece (.otherwise q) :: Drawing.braced (drawings p 0 body)⟩
  | .expression value => .ofLine (value ++ ";")
  | .declare type name init => .ofLine (declarationText type name init ++ ";")
  | .returning value =>
    .ofLine (if value.isEmpty then "return;" else "return " ++ value ++ ";")
  | .ifElse condition yes no =>
    let content := .piece (.condition p condition) ::
      (Drawing.braced (drawing (0 :: p) yes).inside ++ (drawing (1 :: p) no).afterElse p)
    let own := content ++ [.lineEnd]
    ⟨own, own, fun q => .piece (.otherwise q) :: content⟩
  | .forLoop init condition update body =>
    .ofOwn (.piece (.head ("for (" ++ init ++ "; " ++ condition ++ "; " ++ update ++ ") ")) ::
      (Drawing.braced (drawing (0 :: p) body).inside ++ [.lineEnd]))
  | .forIn type name collection body =>
    .ofOwn (.piece (.head ("for (" ++ joinDeclaration type name ++ " in " ++ collection ++ ") ")) ::
      (Drawing.braced (drawing (0 :: p) body).inside ++ [.lineEnd]))
  | .whileLoop condition body =>
    .ofOwn (.piece (.head ("while (" ++ condition ++ ") ")) ::
      (Drawing.braced (drawing (0 :: p) body).inside ++ [.lineEnd]))
  | .doWhile body condition =>
    .ofOwn (.piece (.head "do ") :: (Drawing.braced (drawing (0 :: p) body).inside ++
      [.piece (.words (" while (" ++ condition ++ ");")), .lineEnd]))
  | .switching selector groups =>
    .ofOwn (.piece (.words ("switch (" ++ selector ++ ") ")) ::
      (Drawing.inBraces (.lineEnd :: groupDrawings p 0 groups) ++ [.lineEnd]))
  | .breaking => .ofLine "break;"
  | .continuing => .ofLine "continue;"
  | .throwing value =>
    .ofLine (if value.isEmpty then "@throw;" else "@throw " ++ value ++ ";")
  | .trying body catches last =>
    .ofOwn (.piece (.head "@try ") :: (Drawing.braced (drawings (0 :: p) 0 body) ++
      (catchDrawings (1 :: p) 0 catches ++
        ((match last with
          | some final => .piece (.head " @finally ") :: Drawing.braced (drawings (2 :: p) 0 final)
          | none => []) ++ [.lineEnd]))))
  | .synchronizing lock body =>
    .ofOwn (.piece (.head ("@synchronized (" ++ lock ++ ") ")) ::
      (Drawing.braced (drawings p 0 body) ++ [.lineEnd]))
  | .raw line => .ofLine line

/-- The strokes of statements on lines of their own, at a place from a number on. -/
def drawings (p : Place) (i : Nat) : List Stmt → List Stroke
  | [] => []
  | s :: rest => (drawing (i :: p) s).own ++ drawings p (i + 1) rest

/-- The strokes of the groups of a switch. -/
def groupDrawings (p : Place) (i : Nat) : List SwitchGroup → List Stroke
  | [] => []
  | ⟨labels, body⟩ :: rest =>
    labelStrokes labels ++ (.deeper ::
      (groupStrokes (body.any isDeclaration) (drawings (i :: p) 0 body) ++ [.shallower]) ++
        groupDrawings p (i + 1) rest)

/-- The strokes of the catch clauses of a try. -/
def catchDrawings (p : Place) (i : Nat) : List CatchClause → List Stroke
  | [] => []
  | ⟨type, name, body⟩ :: rest =>
    .piece (.head (" @catch (" ++ joinDeclaration type name ++ ") ")) ::
      (Drawing.braced (drawings (i :: p) 0 body) ++ catchDrawings p (i + 1) rest)

end

/-- The strokes that draw a statement by itself. -/
def strokes (s : Stmt) : List Stroke := (drawing [] s).own

mutual

/-- The texts in a statement. -/
def texts : Stmt → List Text
  | .nothing | .breaking | .continuing => []
  | .block body => allTexts body
  | .expression value | .returning value | .throwing value => [value]
  | .declare type name init => [type, name, init]
  | .ifElse condition yes no => condition :: (texts yes ++ texts no)
  | .forLoop init condition update body => init :: condition :: update :: texts body
  | .forIn type name collection body => type :: name :: collection :: texts body
  | .whileLoop condition body | .doWhile body condition => condition :: texts body
  | .switching selector groups => selector :: groupTexts groups
  | .trying body catches last =>
    allTexts body ++ catchTexts catches ++ (match last with
      | some final => allTexts final
      | none => [])
  | .synchronizing lock body => lock :: allTexts body
  | .raw line => [line]

/-- The texts in some statements. -/
def allTexts : List Stmt → List Text
  | [] => []
  | s :: rest => texts s ++ allTexts rest

/-- The texts in the groups of a switch. -/
def groupTexts : List SwitchGroup → List Text
  | [] => []
  | ⟨labels, body⟩ :: rest => labels ++ allTexts body ++ groupTexts rest

/-- The texts in the catch clauses of a try. -/
def catchTexts : List CatchClause → List Text
  | [] => []
  | ⟨type, name, body⟩ :: rest => type :: name :: (allTexts body ++ catchTexts rest)

end

/-- Braces in strokes that close what was opened before, and all of it. -/
structure Balanced (l : List Stroke) : Prop where
  closings_le : ∀ front, front <+: l →
    front.count (.piece .closing) ≤ front.count (.piece .opening)
  closings_eq : l.count (.piece .closing) = l.count (.piece .opening)

/-- How many braces are open behind some strokes. -/
def depth (l : List Stroke) : Nat := l.count (.piece .opening) - l.count (.piece .closing)

/-- How far to the left of the others a line stands, by its first piece. -/
def outdent : List Stroke → Nat
  | .piece c :: _ => c.outdent
  | .deeper :: rest | .shallower :: rest => outdent rest
  | _ => 0

/-- Strokes that begin with a body in braces. -/
def Embraced (l : List Stroke) : Prop :=
  ∃ body rest, l = .piece .opening :: (body ++ .piece .closing :: rest) ∧ Balanced body

/-- What stands behind a piece: behind each head a body in braces, and behind an `else` that or
another `if`. -/
def Piece.Followed (l : List Stroke) : Piece → Prop
  | .head _ | .condition .. => Embraced l
  | .otherwise _ => Embraced l ∨ ∃ p t rest, l = .piece (.condition p t) :: rest
  | _ => True

/-- Strokes that end with an `if` at a place whose body stands in braces. -/
def EndsWithIf (p : Place) (l : List Stroke) : Prop :=
  ∃ front t body, l = front ++ .piece (.condition p t) :: .piece .opening ::
    (body ++ [.piece .closing]) ∧ Balanced body

/-- The places of the `if`s in some strokes. -/
def conditions (l : List Stroke) : List Place := l.filterMap Stroke.condition?

/-- Strokes that lay out a text by the braces in it, drawn at an indentation. -/
structure LaidOutBy (k : Nat) (l : List Stroke) (t : Text) : Prop where
  /-- They write the text, and leave the pen at the start of a line where it was. -/
  written : Pen.run ⟨k, true⟩ l = (t, ⟨k, true⟩)
  balanced : Balanced l
  /-- Each line of the text is drawn as a line, indented by the braces open before it. -/
  indented : ∀ before line after, t = before ++ line ++ 10 :: after →
    (before = [] ∨ ∃ front, before = front ++ [10]) → 10 ∉ line →
    ∃ drawn strokes rest d, l = drawn ++ strokes ++ .lineEnd :: rest ∧
      (Pen.run ⟨k, true⟩ drawn).1 = before ∧ .lineEnd ∉ strokes ∧
      d + outdent strokes = depth drawn ∧ line = pad (k + d) ++ strokes.flatMap Stroke.text
  /-- Each head is followed by a body in braces. -/
  followed : ∀ before c after, l = before ++ .piece c :: after → c.Followed after
  /-- Each `else` stands right behind the body of its `if`. -/
  paired : ∀ before p after, l = before ++ .piece (.otherwise p) :: after → EndsWithIf p before
  distinct : (conditions l).Nodup

/-- What the braces and the moves of some strokes have led to: the open braces, the steps by which
lines are indented, and whether nothing stands on the line yet. -/
structure Frame where
  depth : Nat
  level : Nat
  fresh : Bool

namespace Frame

/-- A stroke goes on from a frame if it closes only what is open, moves back only from where it has
moved to, ends no empty line, and begins a line at the step that the open braces ask for. -/
def step? (f : Frame) : Stroke → Option Frame
  | .piece c =>
    if (f.fresh = true → f.depth = f.level + c.outdent) ∧ (c = .closing → 0 < f.depth) then
      some ⟨if c = .opening then f.depth + 1 else if c = .closing then f.depth - 1 else f.depth,
        f.level, false⟩
    else none
  | .lineEnd => if f.fresh then none else some ⟨f.depth, f.level, true⟩
  | .deeper => some ⟨f.depth, f.level + 1, f.fresh⟩
  | .shallower => if f.level = 0 then none else some ⟨f.depth, f.level - 1, f.fresh⟩

/-- Some strokes, one after the other. -/
def run? (f : Frame) (l : List Stroke) : Option Frame := l.foldlM step? f

/-- A frame that goes through strokes in two parts goes through them in a row. -/
theorem run?_append (f : Frame) (l l' : List Stroke) :
    f.run? (l ++ l') = (f.run? l).bind (·.run? l') := List.foldlM_append

/-- A frame goes through the first stroke and then through the others. -/
theorem run?_cons (f : Frame) (c : Stroke) (l : List Stroke) :
    f.run? (c :: l) = (f.step? c).bind (·.run? l) := rfl

variable {f g : Frame} {c : Stroke} {l : List Stroke}

/-- One stroke keeps count of the open braces. -/
theorem depth_of_step? (h : f.step? c = some g) :
    g.depth + [c].count (.piece .closing) = f.depth + [c].count (.piece .opening) := by
  cases c with
  | piece c =>
    simp only [step?] at h
    split at h
    · next hc =>
      cases h
      cases c <;> simp at hc ⊢
      omega
    · cases h
  | lineEnd =>
    simp only [step?] at h
    split at h <;> cases h
    rfl
  | deeper =>
    cases h
    rfl
  | shallower =>
    simp only [step?] at h
    split at h <;> cases h
    rfl

/-- So do some strokes. -/
theorem depth_of_run? (h : f.run? l = some g) :
    g.depth + l.count (.piece .closing) = f.depth + l.count (.piece .opening) := by
  induction l generalizing f with
  | nil =>
    cases h
    rfl
  | cons c rest ih =>
    rw [run?_cons] at h
    obtain ⟨f', hstep, hrest⟩ := Option.bind_eq_some_iff.1 h
    have hfirst := depth_of_step? hstep
    have hlast := ih hrest
    have hcount : ∀ s : Stroke, (c :: rest).count s = [c].count s + rest.count s := fun s => by
      rw [← List.singleton_append, List.count_append]
    rw [hcount, hcount]
    omega

/-- The pen at an indentation, moved as a frame says. -/
def pen (k : Nat) (f : Frame) : Pen := ⟨k + f.level, f.fresh⟩

/-- A pen follows its frame: the frame knows its indentation and whether the line is fresh. -/
theorem pen_of_step? {k : Nat} (h : f.step? c = some g) : ((f.pen k).step c).2 = g.pen k := by
  cases c with
  | piece c =>
    simp only [step?] at h
    split at h <;> cases h
    rfl
  | lineEnd =>
    simp only [step?] at h
    split at h <;> cases h
    rfl
  | deeper =>
    cases h
    rfl
  | shallower =>
    simp only [step?] at h
    split at h
    · cases h
    · next hlevel =>
      cases h
      simp only [pen, Pen.step]
      congr 1
      omega

/-- The pen goes where the frame says. -/
theorem pen_of_run? {k : Nat} (h : f.run? l = some g) : ((f.pen k).run l).2 = g.pen k := by
  induction l generalizing f with
  | nil =>
    cases h
    rfl
  | cons c rest ih =>
    rw [run?_cons] at h
    obtain ⟨f', hstep, hrest⟩ := Option.bind_eq_some_iff.1 h
    rw [Pen.run, pen_of_step? hstep, ih hrest]

/-- On a line that has been begun pieces stand right behind each other. -/
theorem run_begun {i : Nat} (hl : .lineEnd ∉ l) :
    ((⟨i, false⟩ : Pen).run l).1 = l.flatMap Stroke.text := by
  induction l generalizing i with
  | nil => rfl
  | cons c rest ih =>
    rw [List.mem_cons, not_or] at hl
    rw [List.flatMap_cons]
    cases c with
    | piece c => exact congrArg (c.text ++ ·) (ih hl.2)
    | lineEnd => exact absurd rfl hl.1
    | deeper => exact ih hl.2
    | shallower => exact ih hl.2

/-- A line is indented by the braces that are open before it. -/
theorem run_line {k d level : Nat} (h : (⟨d, level, true⟩ : Frame).run? l = some g)
    (hbegun : g.fresh = false) (hl : .lineEnd ∉ l) : ∃ e, e + outdent l = d ∧
      ((⟨k + level, true⟩ : Pen).run l).1 = pad (k + e) ++ l.flatMap Stroke.text := by
  induction l generalizing level with
  | nil =>
    cases h
    cases hbegun
  | cons c rest ih =>
    rw [List.mem_cons, not_or] at hl
    rw [run?_cons] at h
    obtain ⟨f', hstep, hrest⟩ := Option.bind_eq_some_iff.1 h
    cases c with
    | piece c =>
      simp only [step?] at hstep
      split at hstep
      · next hc =>
        refine ⟨level, (hc.1 trivial).symm, ?_⟩
        rw [List.flatMap_cons, Pen.run]
        dsimp only [Pen.step, margin, Stroke.text]
        rw [run_begun hl.2, if_pos rfl, List.append_assoc]
      · cases hstep
    | lineEnd => exact absurd rfl hl.1
    | deeper =>
      cases hstep
      exact ih hrest hl.2
    | shallower =>
      simp only [step?] at hstep
      split at hstep
      · cases hstep
      · next hlevel =>
        cases hstep
        have hpen : k + level - 1 = k + (level - 1) := by omega
        rw [Pen.run]
        dsimp only [Pen.step]
        rw [hpen]
        exact ih hrest hl.2

end Frame

section Lines

variable {t : Text} {before line after before' line' after' : Text}

/-- The first line of a text, up to its first newline. -/
theorem first_line_inj (hline : 10 ∉ line) (hline' : 10 ∉ line')
    (h : line ++ 10 :: after = line' ++ 10 :: after') : line = line' ∧ after = after' := by
  induction line generalizing line' with
  | nil =>
    cases line' with
    | nil => exact ⟨rfl, (List.cons_eq_cons.1 h).2⟩
    | cons b line' => exact absurd (List.mem_cons.2 (.inl (List.cons_eq_cons.1 h).1)) hline'
  | cons b line ih =>
    cases line' with
    | nil => exact absurd (List.mem_cons.2 (.inl (List.cons_eq_cons.1 h).1.symm)) hline
    | cons b' line' =>
      obtain ⟨rfl, hrest⟩ := List.cons_eq_cons.1 h
      obtain ⟨rfl, rfl⟩ := ih (List.not_mem_of_not_mem_cons hline)
        (List.not_mem_of_not_mem_cons hline') hrest
      exact ⟨rfl, rfl⟩

/-- A line of a text is its first line, or a line of what follows that. -/
theorem line_cases (hfirst : 10 ∉ line') (hline : 10 ∉ line)
    (hbefore : before = [] ∨ ∃ front, before = front ++ [10])
    (h : before ++ line ++ 10 :: after = line' ++ 10 :: after') :
    (before = [] ∧ line = line') ∨ ∃ later, before = line' ++ 10 :: later ∧
      after' = later ++ line ++ 10 :: after ∧ (later = [] ∨ ∃ front, later = front ++ [10]) := by
  rcases hbefore with rfl | ⟨front, rfl⟩
  · exact .inl ⟨rfl, (first_line_inj hline hfirst h).1⟩
  · right
    -- the newline at the end of `before` is the first one or a later one
    obtain ⟨first, later, heq, hnone⟩ := List.eq_append_cons_of_mem
      (List.mem_append_right front (List.mem_singleton_self (10 : UInt8)))
    rw [heq, List.append_assoc, List.append_assoc, List.cons_append] at h
    obtain ⟨rfl, rfl⟩ := first_line_inj hnone hfirst h
    refine ⟨later, heq, by rw [List.append_assoc], ?_⟩
    rcases List.eq_nil_or_concat later with rfl | ⟨inner, last, rfl⟩
    · exact .inl rfl
    · rw [List.concat_eq_append, ← List.cons_append, ← List.append_assoc] at heq
      exact .inr ⟨inner, by rw [List.concat_eq_append, (List.append_inj_right' heq rfl)]⟩

end Lines

namespace Frame

variable {f g : Frame} {l : List Stroke}

/-- A newline is written by ending a line when no piece holds one. -/
theorem lineEnd_mem_of_newline {pen : Pen} (hpieces : ∀ c, .piece c ∈ l → 10 ∉ c.text)
    (h : 10 ∈ (pen.run l).1) : .lineEnd ∈ l := by
  by_contra hl
  obtain ⟨i, b⟩ := pen
  induction l generalizing i b with
  | nil => cases h
  | cons c rest ih =>
    rw [List.mem_cons, not_or] at hl
    have hrest : ∀ c, .piece c ∈ rest → 10 ∉ c.text := fun c hc =>
      hpieces c (List.mem_cons_of_mem _ hc)
    rw [Pen.run, List.mem_append] at h
    rcases h with h | h
    · cases c with
      | piece c =>
        dsimp only [Pen.step, margin] at h
        rcases List.mem_append.1 h with h | h
        · split at h
          · exact absurd (List.eq_of_mem_replicate h) (by decide)
          · cases h
        · exact hpieces c List.mem_cons_self h
      | lineEnd => exact hl.1 rfl
      | deeper => cases h
      | shallower => cases h
    · exact ih hrest hl.2 _ _ h

/-- The lines of what is written are drawn line by line. -/
theorem lines_of_run? {k d level n : Nat} {before line after : Text} (hn : l.length ≤ n)
    (h : (⟨d, level, true⟩ : Frame).run? l = some g) (hpieces : ∀ c, .piece c ∈ l → 10 ∉ c.text)
    (ht : ((⟨k + level, true⟩ : Pen).run l).1 = before ++ line ++ 10 :: after)
    (hbefore : before = [] ∨ ∃ front, before = front ++ [10]) (hline : 10 ∉ line) :
    ∃ drawn strokes rest e, l = drawn ++ strokes ++ .lineEnd :: rest ∧
      ((⟨k + level, true⟩ : Pen).run drawn).1 = before ∧ .lineEnd ∉ strokes ∧
      e + outdent strokes + drawn.count (.piece .closing) = d + drawn.count (.piece .opening) ∧
      line = pad (k + e) ++ strokes.flatMap Stroke.text := by
  induction n generalizing l d level before with
  | zero =>
    obtain rfl := List.length_eq_zero_iff.1 (Nat.le_zero.1 hn)
    simp [Pen.run] at ht
  | succ n ih =>
    have hend : .lineEnd ∈ l := lineEnd_mem_of_newline hpieces (by rw [ht]; simp)
    obtain ⟨first, rest, rfl, hfirst⟩ := List.eq_append_cons_of_mem hend
    rw [run?_append] at h
    obtain ⟨f, hf, h⟩ := Option.bind_eq_some_iff.1 h
    rw [run?_cons] at h
    obtain ⟨f', hstep, hrest⟩ := Option.bind_eq_some_iff.1 h
    have hbegun : f.fresh = false ∧ f' = ⟨f.depth, f.level, true⟩ := by
      simp only [step?] at hstep
      split at hstep <;> cases hstep
      next hfresh => exact ⟨by simpa using hfresh, rfl⟩
    obtain ⟨hbegun, rfl⟩ := hbegun
    obtain ⟨e, hdepth, hdrawn⟩ := run_line (k := k) hf hbegun hfirst
    have hpen : ((⟨k + level, true⟩ : Pen).run first).2 = f.pen k := pen_of_run? hf
    have hfree : 10 ∉ pad (k + e) ++ first.flatMap Stroke.text := by
      rw [← hdrawn]
      exact fun hmem => hfirst (lineEnd_mem_of_newline
        (fun c hc => hpieces c (List.mem_append_left _ hc)) hmem)
    have hwritten : ((⟨k + level, true⟩ : Pen).run (first ++ .lineEnd :: rest)).1 =
        pad (k + e) ++ first.flatMap Stroke.text ++
          10 :: ((⟨k + f.level, true⟩ : Pen).run rest).1 := by
      rw [Pen.run_append, hdrawn, hpen]
      rfl
    rw [hwritten] at ht
    rcases line_cases hfree hline hbefore ht.symm with ⟨rfl, rfl⟩ | ⟨later, rfl, hlater, hend⟩
    · exact ⟨[], first, rest, e, rfl, rfl, hfirst, hdepth, rfl⟩
    · have hshort : rest.length ≤ n := by
        simp only [List.length_append, List.length_cons] at hn
        omega
      obtain ⟨drawn, strokes, rest', e', rfl, hbefore', hstrokes, hdepth', hline'⟩ :=
        ih hshort hrest (fun c hc => hpieces c (by simp [hc])) hlater hend
      refine ⟨first ++ .lineEnd :: drawn, strokes, rest', e', by simp, ?_, hstrokes, ?_, hline'⟩
      · rw [Pen.run_append, hdrawn, hpen, ← hbefore']
        rfl
      · have hcount := depth_of_run? hf
        simp only [List.count_append, List.count_cons, beq_iff_eq, reduceCtorEq, if_false] at hcount ⊢
        omega

end Frame

section Braces

variable {l l' body : List Stroke} {c : Stroke}

namespace Balanced

/-- No strokes are balanced. -/
theorem nil : Balanced [] where
  closings_le front h := by simp [List.prefix_nil.1 h]
  closings_eq := rfl

/-- Balanced strokes in a row are balanced. -/
theorem append (h : Balanced l) (h' : Balanced l') : Balanced (l ++ l') where
  closings_le front hfront := by
    rw [List.prefix_iff_eq_take.1 hfront, List.take_append, List.count_append, List.count_append]
    exact Nat.add_le_add (h.closings_le _ (List.take_prefix _ _))
      (h'.closings_le _ (List.take_prefix _ _))
  closings_eq := by rw [List.count_append, List.count_append, h.closings_eq, h'.closings_eq]

/-- A stroke that is no brace is balanced. -/
theorem single (hopening : c ≠ .piece .opening) (hclosing : c ≠ .piece .closing) :
    Balanced [c] where
  closings_le front h := by
    rw [List.count_eq_zero.2 fun hmem => hclosing (List.mem_singleton.1 (h.subset hmem)).symm]
    exact Nat.zero_le _
  closings_eq := by simp [hopening, hclosing]

/-- A stroke that is no brace may stand before balanced strokes. -/
theorem cons (hopening : c ≠ .piece .opening) (hclosing : c ≠ .piece .closing) (h : Balanced l) :
    Balanced (c :: l) := (single hopening hclosing).append h

/-- A stroke that is no brace may stand behind balanced strokes. -/
theorem concat (hopening : c ≠ .piece .opening) (hclosing : c ≠ .piece .closing)
    (h : Balanced l) : Balanced (l ++ [c]) := h.append (single hopening hclosing)

/-- Braces around balanced strokes. -/
theorem braces (h : Balanced l) : Balanced (.piece .opening :: (l ++ [.piece .closing])) where
  closings_le front hfront := by
    rw [List.prefix_iff_eq_take.1 hfront]
    cases front.length with
    | zero => simp
    | succ n =>
      rw [List.take_succ_cons, List.take_append]
      have hinner := h.closings_le _ (List.take_prefix n l)
      have hlast := (List.take_sublist (n - l.length) [Stroke.piece .closing]).count_le
        (.piece .closing)
      simp only [List.count_cons, List.count_append, beq_iff_eq, reduceCtorEq, if_false, if_true,
        Stroke.piece.injEq, List.count_nil] at hlast ⊢
      omega
  closings_eq := by
    have hinner := h.closings_eq
    simp only [List.count_cons, List.count_append, beq_iff_eq, reduceCtorEq, if_false, if_true,
      Stroke.piece.injEq, List.count_nil]
    omega

end Balanced

/-- Balanced strokes between braces are embraced, whatever follows. -/
theorem embraced_braced (h : Balanced l) (rest : List Stroke) :
    Embraced (Drawing.braced l ++ rest) := by
  refine ⟨.lineEnd :: .deeper :: (l ++ [.shallower]), rest, by
    simp [Drawing.braced, Drawing.inBraces], ?_⟩
  exact ((h.concat (by decide) (by decide)).cons (by decide) (by decide)).cons (by decide)
    (by decide)

end Braces

section Heads

variable {l l' : List Stroke} {c : Piece} {p : Place}

/-- What has to follow a piece still does when more strokes follow. -/
theorem Piece.Followed.append (h : c.Followed l) (l' : List Stroke) : c.Followed (l ++ l') := by
  have hembraced : Embraced l → Embraced (l ++ l') := by
    rintro ⟨body, rest, rfl, hbody⟩
    exact ⟨body, rest ++ l', by simp, hbody⟩
  cases c with
  | head t => exact hembraced h
  | condition p t => exact hembraced h
  | otherwise p =>
    refine Or.imp hembraced ?_ h
    rintro ⟨q, t, rest, rfl⟩
    exact ⟨q, t, rest ++ l', rfl⟩
  | _ => trivial

/-- What stands behind the pieces in some strokes. -/
def AllFollowed (l : List Stroke) : Prop := ∀ c after, .piece c :: after <:+ l → c.Followed after

/-- To check that all pieces are followed as they must be, check the first and the rest. -/
theorem AllFollowed.cons {c : Stroke} (hc : ∀ c', c = .piece c' → c'.Followed l)
    (h : AllFollowed l) : AllFollowed (c :: l) := by
  intro c' after hafter
  rcases List.suffix_cons_iff.1 hafter with heq | hafter
  · obtain ⟨rfl, rfl⟩ := List.cons_eq_cons.1 heq
    exact hc c' rfl
  · exact h c' after hafter

/-- Pieces that are followed as they must be inside two parts are so in a row. -/
theorem AllFollowed.append (h : AllFollowed l) (h' : AllFollowed l') : AllFollowed (l ++ l') := by
  induction l with
  | nil => exact h'
  | cons c rest ih =>
    refine .cons ?_ (ih fun c' after hafter => h c' after (hafter.trans (List.suffix_cons _ _)))
    rintro c' rfl
    exact (h c' rest List.suffix_rfl).append l'

/-- A last piece must be one that asks for nothing behind it. -/
theorem AllFollowed.concat {c : Stroke} (h : AllFollowed l)
    (hc : ∀ c', c = .piece c' → c'.Followed []) : AllFollowed (l ++ [c]) :=
  h.append (.cons hc fun c' after hafter => by simp at hafter)

/-- The `else`s in some strokes stand behind the `if`s they were made for; the first stroke may
belong to an `if` that ends right before. -/
def AllPaired (E : Place → Prop) (l : List Stroke) : Prop :=
  ∀ before p after, l = before ++ .piece (.otherwise p) :: after →
    EndsWithIf p before ∨ before = [] ∧ E p

/-- What strokes end with does not depend on what stands before them. -/
theorem EndsWithIf.append_left (h : EndsWithIf p l') (l : List Stroke) : EndsWithIf p (l ++ l') := by
  obtain ⟨front, t, body, rfl, hbody⟩ := h
  exact ⟨l ++ front, t, body, by simp, hbody⟩

/-- A stroke of two runs of strokes is one of the first or of the second. -/
theorem cons_of_append {c : Stroke} {before after : List Stroke}
    (h : l ++ l' = before ++ c :: after) : (∃ rest, l = before ++ c :: rest) ∨
      ∃ between, before = l ++ between ∧ l' = between ++ c :: after := by
  rcases List.append_eq_append_iff.1 h with ⟨between, hbefore, hrest⟩ | ⟨between, hl, hrest⟩
  · exact .inr ⟨between, hbefore, hrest⟩
  · rcases List.cons_eq_append_iff.1 hrest with ⟨rfl, hl'⟩ | ⟨rest, rfl, -⟩
    · exact .inr ⟨[], by rw [hl, List.append_nil, List.append_nil], hl'⟩
    · exact .inl ⟨rest, hl⟩

/-- An alternative in the second part may belong to a conditional that ends the first. -/
theorem AllPaired.append {E E' : Place → Prop} (h : AllPaired E l) (h' : AllPaired E' l')
    (hE : ∀ p, E' p → EndsWithIf p l) : AllPaired E (l ++ l') := by
  intro before p after heq
  rcases cons_of_append heq with ⟨rest, hl⟩ | ⟨between, rfl, hl'⟩
  · exact h before p rest hl
  · rcases h' between p after hl' with hends | ⟨rfl, hp⟩
    · exact .inl (hends.append_left l)
    · rw [List.append_nil]
      exact .inl (hE p hp)

/-- An alternative that comes first belongs to a conditional outside. -/
theorem AllPaired.cons {E : Place → Prop} {c : Stroke}
    (hc : ∀ p, c = .piece (.otherwise p) → E p) (h : AllPaired (fun _ => False) l) :
    AllPaired E (c :: l) := by
  intro before p after heq
  rcases List.cons_eq_append_iff.1 heq with ⟨rfl, hcons⟩ | ⟨before', rfl, hl⟩
  · exact .inr ⟨rfl, hc p (List.cons_eq_cons.1 hcons).1.symm⟩
  · rcases h before' p after hl with hends | ⟨-, hp⟩
    · exact .inl (hends.append_left [c])
    · exact hp.elim

/-- A stroke that is no alternative needs no conditional. -/
theorem AllPaired.concat {E : Place → Prop} {c : Stroke} (h : AllPaired E l)
    (hc : ∀ p, c ≠ .piece (.otherwise p)) : AllPaired E (l ++ [c]) :=
  h.append (.cons (E := fun _ => False) (fun p heq => hc p heq)
    fun before p after heq => by simp at heq) fun _ h => h.elim

end Heads

/-- Whether a place is the one of a statement or inside it. -/
def Under (p q : Place) : Prop := p <:+ q

/-- Whether a place is under one of the parts of a statement, from a number on. -/
def UnderFrom (p : Place) (i : Nat) (q : Place) : Prop := ∃ j, i ≤ j ∧ (j :: p) <:+ q

section Places

variable {p q : Place} {i j : Nat}

/-- A place is under one part of a statement only. -/
theorem number_eq (h : (i :: p) <:+ q) (h' : (j :: p) <:+ q) : i = j := by
  have heq := (List.suffix_of_suffix_length_le h h' (Nat.le_refl _)).eq_of_length rfl
  exact (List.cons_eq_cons.1 heq).1

theorem Under.from (h : Under (i :: p) q) : UnderFrom p i q := ⟨i, Nat.le_refl i, h⟩

/-- What stands under the later children stands under the children from here on. -/
theorem UnderFrom.later (h : UnderFrom p (i + 1) q) : UnderFrom p i q := by
  obtain ⟨j, hj, h⟩ := h
  exact ⟨j, by omega, h⟩

/-- What stands under some children stands under the parent. -/
theorem UnderFrom.under (h : UnderFrom p i q) : Under p q := by
  obtain ⟨j, -, h⟩ := h
  exact (List.suffix_cons j p).trans h

/-- What stands under one child does not stand under the later ones. -/
theorem not_underFrom_of_under (h : Under (i :: p) q) : ¬ UnderFrom p (i + 1) q := by
  rintro ⟨j, hj, h'⟩
  have hij := number_eq h h'
  omega

/-- A place does not stand under its own children. -/
theorem not_underFrom_self (p : Place) : ¬ UnderFrom p i p := by
  rintro ⟨j, -, h⟩
  have hlength := h.length_le
  rw [List.length_cons] at hlength
  omega

end Places

/-- Strokes that lead from a line, begun or not, to another one, and write a text at each
indentation. The open braces are some more than the steps of the indentation, the `if`s stand at
some places, and the first stroke may be the `else` of some `if`. -/
structure Passage (extra : Nat) (E P : Place → Prop) (b b' : Bool) (l : List Stroke)
    (t : Nat → Text) : Prop where
  written : ∀ k, (⟨k, b⟩ : Pen).run l = (t k, ⟨k, b'⟩)
  fits : ∀ d, (⟨d + extra, d, b⟩ : Frame).run? l = some ⟨d + extra, d, b'⟩
  balanced : Balanced l
  bare : ∀ c, .piece c ∈ l → 10 ∉ c.text
  followed : AllFollowed l
  paired : AllPaired E l
  places : ∀ q ∈ conditions l, P q
  distinct : (conditions l).Nodup

/-- No place. -/
def nowhere : Place → Prop := fun _ => False

namespace Passage

variable {extra : Nat} {E E' P Q R : Place → Prop} {b b' b'' : Bool} {l l' : List Stroke}
  {t t' : Nat → Text} {c : Piece} {p : Place} {i : Nat}

/-- A passage draws every text that is equal to its own at each indentation. -/
theorem congr (h : Passage extra E P b b' l t) (ht : ∀ k, t k = t' k) :
    Passage extra E P b b' l t' := funext ht ▸ h

/-- A passage that tests within some places tests within more of them. -/
theorem imp (h : Passage extra E P b b' l t) (hP : ∀ q, P q → Q q) : Passage extra E Q b b' l t :=
  { h with places := fun q hq => hP q (h.places q hq) }

/-- The empty passage draws nothing and may stand in a line or before one. -/
theorem nil : Passage extra E P b b [] fun _ => [] where
  written _ := rfl
  fits _ := rfl
  balanced := .nil
  bare _ h := absurd h List.not_mem_nil
  followed c after h := by simp at h
  paired before p after h := by simp at h
  places _ h := absurd h List.not_mem_nil
  distinct := List.nodup_nil

/-- A line end takes the pen to a fresh line. -/
theorem lineEnd : Passage extra E P false true [.lineEnd] fun _ => "\n" where
  written _ := rfl
  fits _ := rfl
  balanced := .single (by decide) (by decide)
  bare c h := by simp at h
  followed c after h := by simp [List.suffix_cons_iff] at h
  paired := .cons (by simp) fun before p after h => by simp at h
  places _ h := absurd h List.not_mem_nil
  distinct := List.nodup_nil

/-- Two passages in a row, when an alternative in the second belongs to the first and their
conditionals have different places. -/
theorem append_of (h : Passage extra E P b b' l t) (h' : Passage extra E' Q b' b'' l' t')
    (hE : ∀ p, E' p → EndsWithIf p l) (hP : ∀ q, P q → R q) (hQ : ∀ q, Q q → R q)
    (hdisjoint : ∀ q, P q → ¬ Q q) :
    Passage extra E R b b'' (l ++ l') fun k => t k ++ t' k where
  written k := by rw [Pen.run_append, h.written, h'.written]
  fits d := by rw [Frame.run?_append, h.fits, Option.bind_some, h'.fits]
  balanced := h.balanced.append h'.balanced
  bare c hc := (List.mem_append.1 hc).elim (h.bare c) (h'.bare c)
  followed := h.followed.append h'.followed
  paired := h.paired.append h'.paired hE
  places q hq := by
    rw [conditions, List.filterMap_append] at hq
    exact (List.mem_append.1 hq).elim (fun hq => hP q (h.places q hq)) fun hq =>
      hQ q (h'.places q hq)
  distinct := by
    rw [conditions, List.filterMap_append]
    exact h.distinct.append h'.distinct fun q hq hq' =>
      hdisjoint q (h.places q hq) (h'.places q hq')

/-- Strokes without an `if` behind others. -/
theorem append (h : Passage extra E P b b' l t) (h' : Passage extra nowhere nowhere b' b'' l' t') :
    Passage extra E P b b'' (l ++ l') fun k => t k ++ t' k :=
  h.append_of h' (fun _ h => h.elim) (fun _ h => h) (fun _ h => h.elim) fun _ _ h => h

/-- The parts of a statement, one after the other. -/
theorem append_from (h : Passage extra E (Under (i :: p)) b b' l t)
    (h' : Passage extra nowhere (UnderFrom p (i + 1)) b' b'' l' t') :
    Passage extra E (UnderFrom p i) b b'' (l ++ l') fun k => t k ++ t' k :=
  h.append_of h' (fun _ h => h.elim) (fun _ h => h.from) (fun _ h => h.later)
    fun _ h => not_underFrom_of_under h

/-- A piece that is no brace in front of others. -/
theorem cons (h : Passage extra nowhere P false b' l t) (hopening : c ≠ .opening)
    (hclosing : c ≠ .closing) (hoff : b = true → c.outdent = extra) (hbare : 10 ∉ c.text)
    (hfollowed : c.Followed l) (hE : ∀ q, c = .otherwise q → E q)
    (hP : ∀ q, P q → Q q) (hQ : ∀ q, Stroke.condition? (.piece c) = some q → Q q ∧ ¬ P q) :
    Passage extra E Q b b' (.piece c :: l) fun k => margin b k ++ (c.text ++ t k) where
  written k := by
    rw [Pen.run, Pen.step, h.written, List.append_assoc]
  fits d := by
    rw [Frame.run?_cons, Frame.step?, if_pos ⟨fun hb => by rw [hoff hb], fun hc => absurd hc hclosing⟩,
      Option.bind_some, if_neg hopening, if_neg hclosing, h.fits]
  balanced := h.balanced.cons (by simpa) (by simpa)
  bare c' hc' := by
    rcases List.mem_cons.1 hc' with heq | hc'
    · cases heq
      exact hbare
    · exact h.bare c' hc'
  followed := h.followed.cons fun c' heq => by
    cases heq
    exact hfollowed
  paired := h.paired.cons fun q heq => by
    cases heq
    exact hE q rfl
  places q hq := by
    rw [conditions, List.filterMap_cons] at hq
    split at hq
    · exact hP q (h.places q hq)
    · next place hplace =>
      rcases List.mem_cons.1 hq with rfl | hq
      · exact (hQ q hplace).1
      · exact hP q (h.places q hq)
  distinct := by
    rw [conditions, List.filterMap_cons]
    split
    · exact h.distinct
    · next place hplace =>
      exact List.nodup_cons.2 ⟨fun hmem => (hQ place hplace).2 (h.places place hmem), h.distinct⟩

/-- Braces around strokes test nothing. -/
theorem conditions_between {c c' : Stroke} (hc : c.condition? = none) (hc' : c'.condition? = none) :
    conditions (c :: (l ++ [c'])) = conditions l := by
  rw [conditions, List.filterMap_cons_none hc, List.filterMap_append, List.filterMap_cons_none hc',
    List.filterMap_nil, List.append_nil]
  rfl

/-- A piece of text or a label. -/
theorem piece {s : Text} (hc : c = .words s ∨ c = .label s) (hoff : b = true → c.outdent = extra)
    (hbare : 10 ∉ s) (h : Passage extra nowhere P false b' l t) :
    Passage extra E P b b' (.piece c :: l) fun k => margin b k ++ (s ++ t k) := by
  rcases hc with rfl | rfl <;>
    exact h.cons (by simp) (by simp) hoff hbare trivial (by simp) (fun _ h => h)
      (by simp [Stroke.condition?])

/-- Strokes one step to the right. -/
theorem deep (h : Passage 0 nowhere P true true l t) :
    Passage 1 nowhere P true true (.deeper :: (l ++ [.shallower])) fun k => t (k + 1) where
  written k := by
    rw [Pen.run, Pen.step, Pen.run_append, h.written]
    simp [Pen.run, Pen.step]
  fits d := by
    rw [Frame.run?_cons, Frame.step?, Option.bind_some, Frame.run?_append, h.fits]
    rfl
  balanced := (h.balanced.concat (by decide) (by decide)).cons (by decide) (by decide)
  bare c hc := h.bare c (by simpa using hc)
  followed := (h.followed.concat (by simp)).cons (by simp)
  paired := (h.paired.concat (by simp)).cons (by simp)
  places := by
    rw [conditions_between rfl rfl]
    exact h.places
  distinct := by
    rw [conditions_between rfl rfl]
    exact h.distinct

/-- Strokes in braces. -/
theorem braces (h : Passage 1 nowhere P false true l t) :
    Passage 0 E P b false (Drawing.inBraces l) fun k =>
      margin b k ++ ("\x7b" ++ (t k ++ (pad k ++ "\x7d"))) where
  written k := by
    rw [Drawing.inBraces, Pen.run, Pen.step, Pen.run_append, h.written]
    simp [Pen.run, Pen.step, margin, Piece.text]
  fits d := by
    rw [Drawing.inBraces, Frame.run?_cons, Frame.step?,
      if_pos ⟨fun _ => rfl, fun hc => by cases hc⟩, Option.bind_some]
    have hinner := h.fits d
    simp only [if_true] at hinner ⊢
    rw [Frame.run?_append, hinner, Option.bind_some, Frame.run?_cons, Frame.step?,
      if_pos ⟨fun _ => rfl, fun _ => Nat.succ_pos d⟩]
    rfl
  balanced := h.balanced.braces
  bare c hc := by
    rcases List.mem_cons.1 hc with heq | hc
    · cases heq
      decide
    · rcases List.mem_append.1 hc with hc | hc
      · exact h.bare c hc
      · cases List.mem_singleton.1 hc
        decide
  followed := (h.followed.concat fun c heq => by cases heq; trivial).cons fun c heq => by
    cases heq
    trivial
  paired := (h.paired.concat (by simp)).cons (by simp)
  places := by
    rw [Drawing.inBraces, conditions_between rfl rfl]
    exact h.places
  distinct := by
    rw [Drawing.inBraces, conditions_between rfl rfl]
    exact h.distinct

/-- A body in braces. -/
theorem braced (h : Passage 0 nowhere P true true l t) :
    Passage 0 E P b false (Drawing.braced l) fun k => margin b k ++ Layout.braced t k := by
  have hinner : Passage 1 nowhere P false true (.lineEnd :: (.deeper :: (l ++ [.shallower])))
      fun k => "\n" ++ t (k + 1) :=
    (lineEnd (P := nowhere)).append_of h.deep (fun _ h => h.elim) (fun _ h => h.elim)
      (fun _ h => h) fun _ h => h.elim
  have hopening : Text.ofString "\x7b\n" = Text.ofString "\x7b" ++ "\n" := rfl
  exact hinner.braces.congr fun k => by simp [Layout.braced, hopening]

/-- A head and the body behind it. -/
theorem headed {s : Text} (hs : 10 ∉ s) (hoff : b = true → extra = 0)
    (h : Passage extra nowhere P false b' l t) (hbody : Embraced l) :
    Passage extra E P b b' (.piece (.head s) :: l) fun k => margin b k ++ (s ++ t k) :=
  h.cons (by simp) (by simp) (fun hb => (hoff hb).symm) hs hbody (by simp) (fun _ h => h)
    (by simp [Stroke.condition?])

end Passage

/-- Strokes that draw the statement at a place as it is laid out. -/
structure Draws (p : Place) (d : Drawing) (l : Layout) : Prop where
  own : Passage 0 nowhere (Under p) true true d.own l.own
  inside : Passage 0 nowhere (Under p) true true d.inside l.inside
  afterElse : ∀ q, Passage 0 (· = q) (Under p) false false (d.afterElse q) l.afterElse

section Statements

variable {P : Place → Prop} {p : Place} {l : List Stroke} {s : Text} {t t' : Nat → Text}

/-- An `else` and what stands behind it. -/
theorem Passage.otherwise (q : Place) (h : Passage 0 nowhere P false false l t)
    (hbody : Embraced l ∨ ∃ p' s' rest, l = .piece (.condition p' s') :: rest) :
    Passage 0 (· = q) P false false (.piece (.otherwise q) :: l) fun k => " else " ++ t k :=
  h.cons (b := false) (by simp) (by simp) (by simp)
    (show 10 ∉ Text.ofString " else " by decide) hbody (by simp) (fun _ h => h)
    (by simp [Stroke.condition?])

/-- A passage in braces is embraced. -/
theorem embraced_of_braced (h : Passage 0 nowhere P true true l t) (rest : List Stroke) :
    Embraced (Drawing.braced l ++ rest) := embraced_braced h.balanced rest

/-- An `else` and a body in braces. -/
theorem Passage.otherwise_braced (q : Place) (h : Passage 0 nowhere P true true l t) :
    Passage 0 (· = q) P false false (.piece (.otherwise q) :: Drawing.braced l)
      fun k => " else " ++ Layout.braced t k :=
  h.braced.otherwise q (.inl (List.append_nil (Drawing.braced l) ▸ embraced_of_braced h []))

/-- A statement that has one layout only is drawn by a passage of its own. -/
theorem draws_ofOwn (h : Passage 0 nowhere (Under p) true true l t) :
    Draws p (.ofOwn l) (.ofOwn t) := ⟨h, h, fun q => h.otherwise_braced q⟩

/-- A statement of one line is drawn by its words and a line end. -/
theorem draws_ofLine (hs : 10 ∉ s) : Draws p (.ofLine s) (.ofLine s) := by
  refine draws_ofOwn ((Passage.lineEnd.piece (.inl rfl) (fun _ => rfl) hs).congr fun k => ?_)
  simp [margin, indented]

/-- A statement with one body. -/
theorem draws_headed (hs : 10 ∉ s) (h : Passage 0 nowhere (Under p) true true l t) :
    Draws p (.ofOwn (.piece (.head s) :: (Drawing.braced l ++ [.lineEnd])))
      (.ofOwn fun k => indented k (s ++ Layout.braced t k)) := by
  have hbody := (h.braced (E := nowhere) (b := false)).append .lineEnd
  refine draws_ofOwn ((hbody.headed hs (fun _ => rfl) (embraced_of_braced h _)).congr fun k => ?_)
  simp [margin, indented]

/-- A conditional and the line it stands on, from its `if` on. -/
theorem conditional_passage {E : Place → Prop} {b : Bool} {yes no : List Stroke} (hs : 10 ∉ s)
    (hyes : Passage 0 nowhere (Under (0 :: p)) true true yes t)
    (hno : Passage 0 (· = p) (Under (1 :: p)) false false no t') :
    Passage 0 E (Under p) b false (.piece (.condition p s) :: (Drawing.braced yes ++ no))
      fun k => margin b k ++ ("if (" ++ s ++ ") " ++ Layout.braced t k ++ t' k) := by
  have hif : Passage 0 E (fun q => q = p ∨ Under (0 :: p) q) b false
      (.piece (.condition p s) :: Drawing.braced yes)
      fun k => margin b k ++ ("if (" ++ s ++ ") " ++ Layout.braced t k) := by
    refine hyes.braced.cons (by simp) (by simp) (fun _ => rfl) ?_
      (List.append_nil (Drawing.braced yes) ▸ embraced_of_braced hyes []) (by simp)
      (fun _ => .inr) ?_
    · simp only [Piece.text, List.mem_append, not_or]
      exact ⟨⟨by decide, hs⟩, by decide⟩
    · intro q hq
      cases hq
      exact ⟨.inl rfl, fun h => not_underFrom_self p h.from⟩
  refine (hif.append_of hno ?_ ?_ (fun _ h => h.from.under) ?_).congr fun k => by simp
  · rintro _ rfl
    refine ⟨[], s, .lineEnd :: .deeper :: (yes ++ [.shallower]), rfl, ?_⟩
    exact ((hyes.balanced.concat (by decide) (by decide)).cons (by decide) (by decide)).cons
      (by decide) (by decide)
  · rintro q (rfl | h)
    · exact List.suffix_rfl
    · exact h.from.under
  · rintro q (rfl | h) h'
    · exact not_underFrom_self q h'.from
    · exact absurd (number_eq h h') (by decide)

/-- Labels are drawn one step outside the statements behind them. -/
theorem labelStrokes_passage {labels : List Text} (hlabels : ∀ t ∈ labels, 10 ∉ t) :
    Passage 1 nowhere nowhere true true (labelStrokes labels)
      fun k => labelLines k labels := by
  have hlabel : ∀ {s : Text}, 10 ∉ s → Passage 1 nowhere nowhere true true
      [.piece (.label s), .lineEnd] fun k => indented k s := fun hs =>
    (Passage.lineEnd.piece (.inr rfl) (fun _ => rfl) hs).congr fun k => by simp [margin, indented]
  have hcases : ∀ labels : List Text, (∀ t ∈ labels, 10 ∉ t) → Passage 1 nowhere nowhere true true
      (labels.flatMap fun label => [.piece (.label ("case " ++ label ++ ":")), .lineEnd])
      fun k => labels.flatMap fun label => indented k ("case " ++ label ++ ":") := by
    intro labels hlabels
    induction labels with
    | nil => exact .nil
    | cons label rest ih =>
      rw [List.forall_mem_cons] at hlabels
      have hbare : 10 ∉ "case " ++ label ++ ":" := by
        simp only [List.mem_append, not_or]
        exact ⟨⟨by decide, hlabels.1⟩, by decide⟩
      exact (hlabel hbare).append (ih hlabels.2)
  unfold labelStrokes labelLines
  split
  · exact hlabel (by decide)
  · exact hcases labels hlabels

/-- The statements of a group are drawn one step deeper, in braces when they declare locals. -/
theorem groupStrokes_passage (declares : Bool) (h : Passage 0 nowhere P true true l t) :
    Passage 1 nowhere P true true (.deeper :: (groupStrokes declares l ++ [.shallower]))
      fun k => groupBody declares t (k + 1) := by
  cases declares with
  | false => exact h.deep
  | true =>
    exact ((h.braced (b := true)).append .lineEnd).deep.congr fun k => by
      simp [groupBody, margin]

theorem bare_append {s t : Text} (hs : 10 ∉ s) (ht : 10 ∉ t) : 10 ∉ s ++ t := by
  simpa using ⟨hs, ht⟩

/-- A text without a line end has none in its frame. -/
theorem bare_around {a s z : Text} (ha : 10 ∉ a) (hs : 10 ∉ s) (hz : 10 ∉ z) :
    10 ∉ a ++ s ++ z := bare_append (bare_append ha hs) hz

/-- A declaration has no line end when neither its type nor its name has one. -/
theorem bare_joinDeclaration {type name : Text} (htype : 10 ∉ type) (hname : 10 ∉ name) :
    10 ∉ joinDeclaration type name := by
  unfold joinDeclaration
  split
  · exact bare_append htype hname
  · exact bare_append (bare_append htype (by decide)) hname

/-- The body of a statement. -/
theorem draws_body {i : Nat} {d : Drawing} {l : Layout} (h : Draws (i :: p) d l) :
    Passage 0 nowhere (Under p) true true d.inside l.inside := h.inside.imp fun _ h => h.from.under

/-- A body that is tried, the clauses that catch, and the last one. -/
theorem draws_try {body catches last : List Stroke} {t t' t'' : Nat → Text}
    (hbody : Passage 0 nowhere (Under (0 :: p)) true true body t)
    (hcatches : Passage 0 nowhere (Under (1 :: p)) false false catches t')
    (hlast : Passage 0 nowhere (UnderFrom p 2) false false last t'') :
    Draws p (.ofOwn (.piece (.head "@try ") :: (Drawing.braced body ++
        (catches ++ (last ++ [.lineEnd])))))
      (.ofOwn fun k => indented k ("@try " ++ Layout.braced t k ++ t' k ++ t'' k)) := by
  have hclauses := hcatches.append_from (hlast.append .lineEnd)
  have htry := ((hbody.braced.append_from hclauses).imp fun _ h => h.under).headed (E := nowhere)
    (b := true) (s := "@try ") (by decide) (fun _ => rfl) (embraced_of_braced hbody _)
  exact draws_ofOwn (htry.congr fun k => by simp [margin, indented])

mutual

/-- The strokes of a statement draw it. -/
theorem drawing_draws (p : Place) : ∀ s : Stmt, (∀ t ∈ texts s, 10 ∉ t) →
    Draws p (drawing p s) s.layout
  | .nothing, _ => ⟨.nil, .nil, fun _ => .nil⟩
  | .block body, h => by
    have hbody := (drawings_draw p 0 body h).imp fun _ h => h.under
    refine ⟨?_, hbody, fun q => hbody.otherwise_braced q⟩
    exact (hbody.braced.append .lineEnd).congr fun k => by simp [layout, margin]
  | .expression value, h => by
    rw [texts, List.forall_mem_singleton] at h
    exact draws_ofLine (bare_append h (by decide))
  | .declare type name init, h => by
    simp only [texts, List.forall_mem_cons] at h
    refine draws_ofLine (bare_append ?_ (by decide))
    unfold declarationText
    split
    · exact bare_joinDeclaration h.1 h.2.1
    · exact bare_append (bare_append (bare_joinDeclaration h.1 h.2.1) (by decide)) h.2.2.1
  | .returning value, h => by
    rw [texts, List.forall_mem_singleton] at h
    refine draws_ofLine ?_
    split
    · decide
    · exact bare_append (bare_append (by decide) h) (by decide)
  | .ifElse condition yes no, h => by
    simp only [texts, List.forall_mem_cons, List.forall_mem_append] at h
    have hyes := (drawing_draws (0 :: p) yes h.2.1).inside
    have hno := (drawing_draws (1 :: p) no h.2.2).afterElse p
    have hcontent := fun (E : Place → Prop) b => conditional_passage (E := E) (b := b) h.1 hyes hno
    have hown := (hcontent nowhere true).append .lineEnd
    have hlines : Passage 0 nowhere (Under p) true true _ (Stmt.ifElse condition yes no).layout.own :=
      hown.congr fun k => by simp [layout, margin, indented]
    exact ⟨hlines, hlines, fun q => ((hcontent nowhere false).otherwise q
      (.inr ⟨p, condition, _, rfl⟩)).congr fun k => by simp [layout, margin]⟩
  | .forLoop init condition update body, h => by
    simp only [texts, List.forall_mem_cons] at h
    exact draws_headed (bare_around (bare_around (bare_around (by decide) h.1 (by decide)) h.2.1
      (by decide)) h.2.2.1 (by decide)) (draws_body (drawing_draws (0 :: p) body h.2.2.2))
  | .forIn type name collection body, h => by
    simp only [texts, List.forall_mem_cons] at h
    exact draws_headed (bare_around (bare_around (by decide) (bare_joinDeclaration h.1 h.2.1)
      (by decide)) h.2.2.1 (by decide)) (draws_body (drawing_draws (0 :: p) body h.2.2.2))
  | .whileLoop condition body, h => by
    simp only [texts, List.forall_mem_cons] at h
    exact draws_headed (bare_around (by decide) h.1 (by decide))
      (draws_body (drawing_draws (0 :: p) body h.2))
  | .doWhile body condition, h => by
    simp only [texts, List.forall_mem_cons] at h
    have hbody := draws_body (drawing_draws (0 :: p) body h.2)
    have htest : Passage 0 nowhere nowhere false true
        [.piece (.words (" while (" ++ condition ++ ");")), .lineEnd] fun k => margin false k ++ _ :=
      Passage.lineEnd.piece (.inl rfl) (by simp) (bare_around (by decide) h.1 (by decide))
    have hloop := (hbody.braced.append htest).headed (E := nowhere) (b := true)
      (s := "do ") (by decide) (fun _ => rfl) (embraced_of_braced hbody _)
    exact draws_ofOwn (hloop.congr fun k => by simp [margin, indented])
  | .switching selector groups, h => by
    simp only [texts, List.forall_mem_cons] at h
    have hgroups := (groupDrawings_draw p 0 groups h.2).imp fun _ h => h.under
    have hinner := (Passage.lineEnd (E := nowhere) (P := nowhere)).append_of hgroups (fun _ h => h.elim)
      (fun _ h => h.elim) (fun _ h => h) fun _ h => h.elim
    have hswitch := ((hinner.braces (E := nowhere) (b := false)).append .lineEnd).piece
      (E := nowhere) (b := true) (.inl rfl) (fun _ => rfl)
      (bare_around (a := "switch (") (by decide) h.1 (by decide : 10 ∉ Text.ofString ") "))
    refine draws_ofOwn (hswitch.congr fun k => ?_)
    have hopening : Text.ofString ") \x7b" = Text.ofString ") " ++ "\x7b" := rfl
    simp [margin, indented, hopening]
  | .breaking, _ => draws_ofLine (by decide)
  | .continuing, _ => draws_ofLine (by decide)
  | .throwing value, h => by
    rw [texts, List.forall_mem_singleton] at h
    refine draws_ofLine ?_
    split
    · decide
    · exact bare_append (bare_append (by decide) h) (by decide)
  | .trying body catches none, h => by
    simp only [texts, List.forall_mem_append] at h
    exact draws_try ((drawings_draw (0 :: p) 0 body h.1.1).imp fun _ h => h.under)
      ((catchDrawings_draw (1 :: p) 0 catches h.1.2).imp fun _ h => h.under) .nil
  | .trying body catches (some last), h => by
    simp only [texts, List.forall_mem_append] at h
    have hlast := (drawings_draw (2 :: p) 0 last h.2).imp fun _ h => h.under
    have hfinally := hlast.braced.headed (E := nowhere) (b := false) (s := " @finally ") (by decide)
      (fun _ => rfl) (List.append_nil (Drawing.braced _) ▸ embraced_of_braced hlast [])
    exact draws_try ((drawings_draw (0 :: p) 0 body h.1.1).imp fun _ h => h.under)
      ((catchDrawings_draw (1 :: p) 0 catches h.1.2).imp fun _ h => h.under)
      (hfinally.imp fun _ h => h.from)
  | .synchronizing lock body, h => by
    simp only [texts, List.forall_mem_cons] at h
    exact draws_headed (bare_around (by decide) h.1 (by decide))
      ((drawings_draw p 0 body h.2).imp fun _ h => h.under)
  | .raw line, h => by
    rw [texts, List.forall_mem_singleton] at h
    exact draws_ofLine h

/-- The statements of a body are drawn one after another, each at its own place. -/
theorem drawings_draw (p : Place) (i : Nat) : ∀ body : List Stmt, (∀ t ∈ allTexts body, 10 ∉ t) →
    Passage 0 nowhere (UnderFrom p i) true true (drawings p i body) (lines body)
  | [], _ => .nil
  | s :: rest, h => by
    rw [allTexts, List.forall_mem_append] at h
    exact (drawing_draws (i :: p) s h.1).own.append_from (drawings_draw p (i + 1) rest h.2)

/-- The groups of a switch are drawn one after another. -/
theorem groupDrawings_draw (p : Place) (i : Nat) : ∀ groups : List SwitchGroup,
    (∀ t ∈ groupTexts groups, 10 ∉ t) →
      Passage 1 nowhere (UnderFrom p i) true true (groupDrawings p i groups) (groupLines groups)
  | [], _ => .nil
  | ⟨labels, body⟩ :: rest, h => by
    simp only [groupTexts, List.forall_mem_append] at h
    have hbody := groupStrokes_passage (body.any isDeclaration)
      ((drawings_draw (i :: p) 0 body h.1.2).imp fun _ h => h.under)
    have hgroup := (labelStrokes_passage h.1.1).append_of
      (hbody.append_from (groupDrawings_draw p (i + 1) rest h.2))
      (fun _ h => h.elim) (fun _ h => h.elim) (fun _ h => h) fun _ h => h.elim
    exact hgroup.congr fun k => by simp [groupLines]

/-- The clauses of a try statement are drawn in the line of the brace before. -/
theorem catchDrawings_draw (p : Place) (i : Nat) : ∀ catches : List CatchClause,
    (∀ t ∈ catchTexts catches, 10 ∉ t) →
      Passage 0 nowhere (UnderFrom p i) false false (catchDrawings p i catches) (catchText catches)
  | [], _ => .nil
  | ⟨type, name, body⟩ :: rest, h => by
    simp only [catchTexts, List.forall_mem_cons, List.forall_mem_append] at h
    have hbody := (drawings_draw (i :: p) 0 body h.2.2.1).imp fun _ h => h.under
    have hclause := (hbody.braced.append_from (catchDrawings_draw p (i + 1) rest h.2.2.2)).headed
      (E := nowhere) (b := false) (bare_around (a := " @catch (") (by decide) (bare_joinDeclaration h.1 h.2.1)
        (by decide : 10 ∉ Text.ofString ") ")) (fun _ => rfl) (embraced_of_braced hbody _)
    exact hclause.congr fun k => by simp [catchText, margin]

end

end Statements

/-- A whole statement that a passage draws is laid out by its strokes. -/
theorem Passage.laidOutBy {P : Place → Prop} {l : List Stroke} {t : Nat → Text}
    (h : Passage 0 nowhere P true true l t) (k : Nat) : LaidOutBy k l (t k) where
  written := h.written k
  balanced := h.balanced
  indented before line after ht hbefore hline := by
    have hwritten : ((⟨k + 0, true⟩ : Pen).run l).1 = before ++ line ++ 10 :: after := by
      rw [Nat.add_zero, h.written k, ht]
    obtain ⟨drawn, strokes, rest, d, hl, hdrawn, hstrokes, hdepth, hindented⟩ :=
      Frame.lines_of_run? (Nat.le_refl _) (h.fits 0) h.bare hwritten hbefore hline
    refine ⟨drawn, strokes, rest, d, hl, hdrawn, hstrokes, ?_, hindented⟩
    rw [depth]
    omega
  followed before c after heq := h.followed c after ⟨before, heq.symm⟩
  paired before p after heq := (h.paired before p after heq).resolve_right fun h => h.2
  distinct := h.distinct

/-- The layout of a statement whose texts stand on one line each is drawn stroke by stroke: the
braces of the printer are balanced, each line is indented by those open before it, bodies stand in
braces, and each `else` follows the `if` it was made for. -/
theorem statement_laid_out_by_braces (s : Stmt) (k : Nat) (h : ∀ t ∈ texts s, 10 ∉ t) :
    LaidOutBy k (strokes s) (s.layout.own k) := (drawing_draws [] s h).own.laidOutBy k

/-- A chain of conditionals around a switch with a local of its own. -/
def chain : Stmt :=
  .ifElse "a"
    (.switching "x" [⟨["1", "2"], [.declare "int" "y" "0", .breaking]⟩, ⟨[], [.nothing]⟩])
    (.ifElse "b" .nothing (.doWhile (.expression "f()") "c"))

theorem statement_laid_out_by_braces_chain : (∀ t ∈ texts chain, 10 ∉ t) ∧
    LaidOutBy 1 (strokes chain) (chain.layout.own 1) :=
  have h : ∀ t ∈ texts chain, 10 ∉ t := by decide
  ⟨h, statement_laid_out_by_braces chain 1 h⟩

end Printer

end JavaObjC
