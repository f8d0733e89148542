import JavaObjC.Proofs.Progress.Units

/-!
# Reports of a faulty source

The reader records at most one missing token for a place, and the records stand
in the order of the source. The problems of a source that does not parse are
those of its error nodes and these records, sorted by place; at one place the
error nodes come first.
-/

namespace JavaObjC

open Cursor

namespace Problem

/-- Where a problem begins. -/
def offset (p : Problem) : Nat := p.span.start.offset

/-- Rows of problems by place: a rearrangement in which problems at the same place keep their
order. -/
structure Sorts (rows sorted : List Problem) : Prop where
  perm : sorted.Perm rows
  ordered : sorted.Pairwise fun p q => p.offset ≤ q.offset
  stable : ∀ place, sorted.filter (·.offset = place) = rows.filter (·.offset = place)

/-- Sorting by merging keeps the order of problems at the same place. -/
theorem sorts_mergeSort (rows : List Problem) :
    Sorts rows (rows.mergeSort fun p q => p.offset ≤ q.offset) := by
  have htrans : ∀ p q r : Problem, decide (p.offset ≤ q.offset) = true →
      decide (q.offset ≤ r.offset) = true → decide (p.offset ≤ r.offset) = true := by
    intro p q r hpq hqr
    rw [decide_eq_true_eq] at hpq hqr ⊢
    exact hpq.trans hqr
  have htotal : ∀ p q : Problem,
      (decide (p.offset ≤ q.offset) || decide (q.offset ≤ p.offset)) = true := by
    intro p q
    simpa using Nat.le_total p.offset q.offset
  have hperm := List.mergeSort_perm rows fun p q => p.offset ≤ q.offset
  refine ⟨hperm, (List.pairwise_mergeSort htrans htotal rows).imp of_decide_eq_true,
    fun place => ?_⟩
  -- the problems at one place are sorted already, so the sorted row has them in this order
  have hsame : (rows.filter (·.offset = place)).Pairwise fun p q =>
      decide (p.offset ≤ q.offset) = true := by
    refine List.pairwise_iff_forall_sublist.2 fun {p q} hpq => ?_
    have hplace : ∀ r ∈ [p, q], r.offset = place := fun r hr =>
      of_decide_eq_true (List.mem_filter.1 (hpq.subset hr)).2
    rw [decide_eq_true_eq, hplace p (by simp), hplace q (by simp)]
  have hsublist := (List.sublist_mergeSort htrans htotal hsame List.filter_sublist).filter
    (·.offset = place)
  simp only [List.filter_filter, Bool.and_self] at hsublist
  exact (hsublist.eq_of_length (hperm.filter _).length_eq.symm).symm

end Problem

namespace Parsed

/-- At most one missing token is recorded for a place, and the records are in the order of the
source. -/
theorem missing_increasing (entry : Entry) (source : Text) :
    (ofSource entry source).missing.Pairwise fun p q => p.offset < q.offset := by
  have hleads := (entry.read_proceeds (Grammar.parse 0) source).2.1
  exact List.pairwise_reverse.2 (hleads.inOrder (inOrder_ofTokens source)).descending

/-- The problems of a source by place, where error nodes come before missing tokens. -/
theorem sorts_problems (p : Parsed) : Problem.Sorts (p.tree.problems ++ p.missing) p.problems :=
  Problem.sorts_mergeSort _

end Parsed

/-- Missing tokens are recorded once for a place and in order, however a source is read. A unit
with neither error nodes nor such records parses; otherwise its problems are both of them,
sorted by where they begin, and of those that begin at the same place the error nodes come
first, in the order of the tree. -/
theorem reports_in_order (file source : Text) :
    (∀ entry, (Parsed.ofSource entry source).missing.Pairwise fun p q => p.offset < q.offset) ∧
      match parseUnit file source with
      | .ok tree =>
        tree = (Parsed.ofSource .compilationUnit source).tree ∧ tree.problems = [] ∧
          (Parsed.ofSource .compilationUnit source).missing = []
      | .error e =>
        e.file = file ∧
          Problem.Sorts ((Parsed.ofSource .compilationUnit source).tree.problems ++
            (Parsed.ofSource .compilationUnit source).missing) e.problems ∧
          e.problems ≠ [] := by
  refine ⟨fun entry => Parsed.missing_increasing entry source, ?_⟩
  have hsorts := (Parsed.ofSource .compilationUnit source).sorts_problems
  cases hproblems : (Parsed.ofSource .compilationUnit source).problems with
  | nil =>
    rw [hproblems] at hsorts
    have hunit : parseUnit file source = .ok (Parsed.ofSource .compilationUnit source).tree := by
      simp only [parseUnit, hproblems]
    rw [hunit]
    exact ⟨rfl, List.append_eq_nil_iff.1 (List.nil_perm.1 hsorts.perm)⟩
  | cons first more =>
    rw [hproblems] at hsorts
    have hunit : parseUnit file source = .error ⟨file, first :: more⟩ := by
      simp only [parseUnit, hproblems]
    rw [hunit]
    exact ⟨rfl, hsorts, List.cons_ne_nil _ _⟩

end JavaObjC
