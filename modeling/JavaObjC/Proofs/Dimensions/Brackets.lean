import JavaObjC.Proofs.Printing.Exactness
import JavaObjC.Signature.ClassSignature
import JavaObjC.Source.Grammar.Members
import Mathlib.Algebra.GroupWithZero.Nat
import Mathlib.Data.Prod.Basic

/-!
# Brackets behind names

Pairs of brackets may stand behind a declared name. They are counted up to the
first token that does not belong to a pair. The type of a declaration becomes an
array type once for each pair behind any of its names: the declared names are
read with the pairs behind each of them, and only their sum is kept.
-/

namespace JavaObjC

open Cursor JavaObjC.Parser JavaObjC.Grammar

/-- The pairs of brackets at the front of some tokens. -/
def leadingPairs : List Token → Nat
  | opening :: closing :: rest =>
    if opening.kind = Symbol.lbracket ∧ closing.kind = Symbol.rbracket then leadingPairs rest + 1
    else 0
  | _ => 0

/-- The pairs of brackets behind the name at the front of some tokens, which may be missing. -/
def pairsBehindName : List Token → Nat
  | t :: rest => if t.kind.isName then leadingPairs rest else leadingPairs (t :: rest)
  | [] => 0

section Counting

variable {c : Cursor}

/-- The step that counts a pair. -/
def countPair (n : Nat) : Parser (Option Nat) := do
  if ← check2 Symbol.lbracket Symbol.rbracket then
    let _ ← advance
    let _ ← advance
    return some (n + 1)
  else return none

/-- One pair of brackets is counted if it is there. -/
theorem countPair_run (n : Nat) (c : Cursor) :
    (countPair n).run c =
      if ((c.tokenAt 0).kind == .symbol .lbracket && (c.tokenAt 1).kind == .symbol .rbracket) then
        (some (n + 1), c.step.step)
      else (none, c) := by
  have hrun : (check2 Symbol.lbracket Symbol.rbracket).run c =
      ((c.tokenAt 0).kind == .symbol .lbracket && (c.tokenAt 1).kind == .symbol .rbracket, c) := rfl
  rw [countPair, bind_of_run hrun]
  split <;> rfl

/-- As many pairs are counted as lead the tokens ahead. -/
theorem iterate_countPair (bound n : Nat) (c : Cursor) (hbound : c.rest.length < bound) :
    ((iterate countPair bound n).run c).1 = n + leadingPairs c.rest := by
  induction bound generalizing n c with
  | zero => exact absurd hbound (Nat.not_lt_zero _)
  | succ bound ih =>
    have hnone : (countPair n).run c = (none, c) →
        ((iterate countPair (bound + 1) n).run c).1 = n := fun hrun => by
      rw [iterate, bind_of_run hrun]
      rfl
    have hrun := countPair_run n c
    rcases hrest : c.rest with _ | ⟨opening, _ | ⟨closing, rest⟩⟩
    · refine hnone (hrun.trans (if_neg ?_))
      simp [tokenAt, hrest]
    · refine hnone (hrun.trans (if_neg ?_))
      simp [tokenAt, hrest]
    · by_cases hpair : opening.kind = Symbol.lbracket ∧ closing.kind = Symbol.rbracket
      · have hfront : ((c.tokenAt 0).kind == .symbol .lbracket &&
            (c.tokenAt 1).kind == .symbol .rbracket) = true := by
          simp [tokenAt, hrest, hpair]
        have hahead : c.step.step.rest = rest := by simp [step, hrest]
        rw [if_pos hfront] at hrun
        rw [iterate, bind_of_run hrun]
        have hcount := ih (n + 1) c.step.step (by
          rw [hahead]
          simp only [hrest, List.length_cons] at hbound
          omega)
        rw [hahead] at hcount
        rw [leadingPairs, if_pos hpair]
        exact hcount.trans (by omega)
      · rw [leadingPairs, if_neg hpair, Nat.add_zero]
        refine hnone (hrun.trans (if_neg ?_))
        simpa [tokenAt, hrest] using hpair

/-- The pairs of brackets that follow are counted. -/
theorem bracketPairs_count (c : Cursor) : (bracketPairs.run c).1 = leadingPairs c.rest := by
  have hcount := iterate_countPair (1 + c.rest.length) 0 c (by omega)
  rw [Nat.zero_add] at hcount
  exact hcount

/-- A name is taken if it is there. -/
theorem name_run (c : Cursor) : (name.run c).2.rest =
    if (c.tokenAt 0).kind.isName then c.step.rest else c.rest := by
  have hrun : checkName.run c = ((c.tokenAt 0).kind.isName, c) := rfl
  rw [name, bind_of_run hrun]
  split <;> rfl

/-- A name is read if it is there. -/
theorem name_nodes (c : Cursor) : (name.run c).1 =
    if (c.tokenAt 0).kind.isName then [Node.ofToken .identifier (c.tokenAt 0)] else [] := by
  have hrun : checkName.run c = ((c.tokenAt 0).kind.isName, c) := rfl
  rw [name, bind_of_run hrun]
  split <;> rfl

/-- Behind a name the pairs are those behind the name. -/
theorem leadingPairs_name (c : Cursor) :
    leadingPairs (name.run c).2.rest = pairsBehindName c.rest := by
  rw [name_run]
  cases hrest : c.rest with
  | nil =>
    have heof : (c.tokenAt 0).kind.isName = false := by
      simp [tokenAt, hrest, TokenKind.isName]
    rw [if_neg (by simp [heof])]
    rfl
  | cons t rest =>
    have hstep : c.step.rest = rest := by simp [step, hrest]
    rw [tokenAt_zero_cons hrest, pairsBehindName, hstep]
    split <;> rfl

end Counting

/-- A loop goes on for at most as many rounds as there are tokens ahead, and one more. -/
theorem loop_run {α : Type} (step : α → Parser (Option α)) (a : α) (c : Cursor) :
    (loop step a).run c = (iterate step (1 + c.rest.length) a).run c := rfl

section Declarators

variable {rule : Rules} {c : Cursor}

/-- The declared names from a cursor on, each with the pairs of brackets behind it: the first one
stands at the cursor, and each further one behind the one before it and a comma. -/
inductive Declares (rule : Rules) : Cursor → List (Node × Nat) → Prop where
  | last (c : Cursor) : Declares rule c [(((declarator rule).run c).1.1, pairsBehindName c.rest)]
  | more {c : Cursor} {declared : List (Node × Nat)}
      (hcomma : (((declarator rule).run c).2.tokenAt 0).kind = Symbol.comma)
      (hrest : Declares rule ((declarator rule).run c).2.step declared) :
      Declares rule c ((((declarator rule).run c).1.1, pairsBehindName c.rest) :: declared)

/-- The pairs of brackets behind all names of a declaration. -/
def totalPairs (declared : List (Node × Nat)) : Nat := (declared.map Prod.snd).sum

/-- The pairs behind a declared name are counted. -/
theorem declarator_depth (rule : Rules) (c : Cursor) :
    ((declarator rule).run c).1.2 = pairsBehindName c.rest := by
  have hrun : ((declarator rule).run c).1.2 = (bracketPairs.run (name.run c).2).1 := rfl
  rw [hrun, bracketPairs_count, leadingPairs_name]

/-- What is declared are declarators. -/
theorem Declares.kind_eq {declared : List (Node × Nat)} (h : Declares rule c declared) :
    ∀ p ∈ declared, p.1.kind = .varDeclarator := by
  induction h with
  | last c => exact List.forall_mem_singleton.2 rfl
  | more _ _ ih => exact List.forall_mem_cons.2 ⟨rfl, ih⟩

/-- The step that reads a further name. -/
def furtherName (rule : Rules) : List Node × Nat → Parser (Option (List Node × Nat)) :=
  fun (nodes, total) => do
    if ← skip Symbol.comma then
      let (node, depth) ← declarator rule
      return some (nodes ++ [node], total + depth)
    else return none

/-- A further name is read behind a comma. -/
theorem furtherName_run (rule : Rules) (read : List Node × Nat) (c : Cursor) :
    (furtherName rule read).run c =
      if (c.tokenAt 0).kind = Symbol.comma then
        (some (read.1 ++ [((declarator rule).run c.step).1.1],
          read.2 + pairsBehindName c.step.rest), ((declarator rule).run c.step).2)
      else (none, c) := by
  have hskip := skip_run Symbol.comma c
  obtain ⟨nodes, total⟩ := read
  rw [← declarator_depth rule]
  by_cases hcomma : (c.tokenAt 0).kind = Symbol.comma
  · rw [if_pos hcomma] at hskip
    rw [if_pos hcomma, furtherName, bind_of_run hskip]
    rfl
  · rw [if_neg hcomma] at hskip
    rw [if_neg hcomma, furtherName, bind_of_run hskip]
    rfl

/-- Names that were read and those that follow them. -/
theorem iterate_furtherName (rule : Rules) (bound : Nat) (read : List Node × Nat) (c : Cursor) :
    ((iterate (furtherName rule) bound read).run c).1 = read ∨
      ∃ declared, (c.tokenAt 0).kind = Symbol.comma ∧ Declares rule c.step declared ∧
        ((iterate (furtherName rule) bound read).run c).1 =
          (read.1 ++ declared.map Prod.fst, read.2 + totalPairs declared) := by
  induction bound generalizing read c with
  | zero => exact .inl rfl
  | succ bound ih =>
    have hrun := furtherName_run rule read c
    by_cases hcomma : (c.tokenAt 0).kind = Symbol.comma
    · rw [if_pos hcomma] at hrun
      rw [iterate, bind_of_run hrun]
      refine .inr ?_
      rcases ih (read.1 ++ [((declarator rule).run c.step).1.1],
        read.2 + pairsBehindName c.step.rest) ((declarator rule).run c.step).2 with
        hend | ⟨declared, hnext, hdeclared, hmore⟩
      · refine ⟨_, hcomma, .last c.step, hend.trans ?_⟩
        simp [totalPairs]
      · refine ⟨_, hcomma, .more hnext hdeclared, hmore.trans ?_⟩
        simp [totalPairs, Nat.add_assoc]
    · rw [if_neg hcomma] at hrun
      rw [iterate, bind_of_run hrun]
      exact .inl rfl

/-- The declared names are read one after the other, and the pairs behind all of them are added
up. -/
theorem declarators_run (rule : Rules) (c : Cursor) :
    ∃ declared c', Declares rule c declared ∧
      (declarators rule).run c = ((declared.map Prod.fst, totalPairs declared), c') := by
  have hfirst : (declarator rule).run c =
      ((((declarator rule).run c).1.1, pairsBehindName c.rest), ((declarator rule).run c).2) :=
    Prod.fst_eq_iff.1 (Prod.snd_eq_iff.1 (declarator_depth rule c))
  have hrun : (declarators rule).run c =
      (loop (furtherName rule) ([((declarator rule).run c).1.1], pairsBehindName c.rest)).run
        ((declarator rule).run c).2 := by
    rw [declarators, bind_of_run hfirst]
    rfl
  suffices hread : ∃ declared, Declares rule c declared ∧
      ((declarators rule).run c).1 = (declared.map Prod.fst, totalPairs declared) by
    obtain ⟨declared, hdeclared, hread⟩ := hread
    exact ⟨declared, _, hdeclared, Prod.fst_eq_iff.1 hread⟩
  rw [hrun, loop_run]
  rcases iterate_furtherName rule (1 + ((declarator rule).run c).2.rest.length)
    ([((declarator rule).run c).1.1], pairsBehindName c.rest) ((declarator rule).run c).2 with
    hend | ⟨declared, hcomma, hdeclared, hmore⟩
  · exact ⟨_, .last c, hend.trans (by simp [totalPairs])⟩
  · exact ⟨_, .more hcomma hdeclared, hmore.trans (by simp [totalPairs])⟩

end Declarators

section Types

variable {t : Node}

/-- A type node has one of two kinds. -/
def IsTypeNode (t : Node) : Prop := t.kind = .type ∨ t.kind = .arrayType

theorem JavaType.addDepth_zero (t : JavaType) : t.addDepth 0 = t := by
  cases t
  rfl

/-- Inside arrays a type stays one and gains a dimension for each of them. -/
theorem inArrays_type (depth : Nat) (h : IsTypeNode t) :
    IsTypeNode (inArrays depth t) ∧
      JavaType.ofNode (inArrays depth t) = (JavaType.ofNode t).addDepth depth := by
  induction depth generalizing t with
  | zero =>
    have hsame : inArrays 0 t = t := rfl
    rw [hsame]
    exact ⟨h, (JavaType.addDepth_zero _).symm⟩
  | succ depth ih =>
    have harray : IsTypeNode ⟨.arrayType, t.span, none, none, [t]⟩ := .inr rfl
    obtain ⟨hkind, htype⟩ := ih harray
    have hone : JavaType.ofNode ⟨.arrayType, t.span, none, none, [t]⟩ =
        (JavaType.ofNode t).addDepth 1 := by rw [JavaType.ofNode]
    have hwrapped : inArrays (depth + 1) t =
        inArrays depth ⟨.arrayType, t.span, none, none, [t]⟩ := if_pos h
    rw [hwrapped]
    refine ⟨hkind, htype.trans ?_⟩
    rw [hone, JavaType.addDepth, JavaType.addDepth, JavaType.addDepth, Nat.add_assoc,
      Nat.add_comm 1]

/-- Array dimensions can be told apart by their number. -/
theorem JavaType.addDepth_inj {t : JavaType} {a b : Nat} :
    t.addDepth a = t.addDepth b ↔ a = b := by
  simp [JavaType.addDepth]

/-- A declared name has the type with the pairs behind it alone exactly if there are no pairs behind
any other name of the declaration. -/
theorem addDepth_totalPairs_iff {t : JavaType} {before after : List (Node × Nat)}
    {p : Node × Nat} :
    t.addDepth (totalPairs (before ++ p :: after)) = t.addDepth p.2 ↔
      ∀ q ∈ before ++ after, q.2 = 0 := by
  have htotal : totalPairs (before ++ p :: after) = p.2 + totalPairs (before ++ after) := by
    simp [totalPairs]
    omega
  rw [JavaType.addDepth_inj, htotal, Nat.add_eq_left, totalPairs, List.sum_eq_zero_iff_forall_eq_nat,
    List.forall_mem_map]

end Types

end JavaObjC
