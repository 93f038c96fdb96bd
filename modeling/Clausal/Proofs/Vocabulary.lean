import Mathlib.Data.Finset.Powerset
import Clausal.Proofs.Distinct

/-!
The vocabulary of a clause set: the literals that occur in it. As sets of literals its
clauses are subsets of the vocabulary, and no two of them are the same, so there are at
most as many clauses as subsets.
-/

namespace Clausal

theorem length_le_card_of_nodup {α : Type} [DecidableEq α] {items : List α} {bound : Finset α}
    (hnodup : items.Nodup) (hbound : ∀ item ∈ items, item ∈ bound) :
    items.length ≤ bound.card := by
  rw [← List.toFinset_card_of_nodup hnodup]
  apply Finset.card_le_card
  intro item hitem
  exact hbound item (List.mem_toFinset.mp hitem)

/-- The literals of the clause, whatever their order. -/
def Clause.support (clause : Clause) : Finset Literal := clause.literals.toFinset

theorem Clause.mem_support {clause : Clause} {literal : Literal} :
    literal ∈ clause.support ↔ literal ∈ clause :=
  List.mem_toFinset

theorem Clause.support_eq_iff {first second : Clause} :
    first.support = second.support ↔ first.SetEqual second := by
  simp only [Finset.ext_iff, mem_support]
  rfl

theorem Clause.among_iff {clause : Clause} {clauses : List Clause} :
    clause.Among clauses ↔ clause.support ∈ clauses.map support := by
  simp [Among, support_eq_iff]

namespace ClauseSet

/-- The literals that occur in the clauses. -/
def vocabulary (set : ClauseSet) : Finset Literal :=
  (set.clauses.flatMap Clause.literals).toFinset

/-- The size of the largest clause. -/
def width (set : ClauseSet) : Nat := (set.clauses.map Clause.size).max?.getD 0

/-- The clauses in their order, each without the order of its literals. -/
def supports (set : ClauseSet) : List (Finset Literal) := set.clauses.map Clause.support

theorem mem_vocabulary {set : ClauseSet} {literal : Literal} :
    literal ∈ set.vocabulary ↔ ∃ clause ∈ set.clauses, literal ∈ clause := by
  rw [vocabulary, List.mem_toFinset, List.mem_flatMap]
  rfl

theorem size_le_width {set : ClauseSet} {clause : Clause} (hclause : clause ∈ set.clauses) :
    clause.size ≤ set.width :=
  List.le_max?_getD_of_mem (List.mem_map_of_mem hclause)

@[simp] theorem length_supports (set : ClauseSet) : set.supports.length = set.size :=
  List.length_map _

theorem Distinct.nodup_supports {set : ClauseSet} (h : set.Distinct) : set.supports.Nodup := by
  refine List.pairwise_map.mpr (h.apart.imp ?_)
  intro first second hapart hsame
  exact hapart (Clause.support_eq_iff.mp hsame)

/-- Without repetitions there are at most as many clauses as there are sets of
literals. -/
theorem Distinct.size_le_two_pow {set : ClauseSet} (h : set.Distinct)
    {literals : Finset Literal}
    (hliterals : ∀ clause ∈ set.clauses, ∀ literal ∈ clause, literal ∈ literals) :
    set.size ≤ 2 ^ literals.card := by
  have hbound : ∀ members ∈ set.supports, members ∈ literals.powerset := by
    intro members hmembers
    obtain ⟨clause, hclause, rfl⟩ := List.mem_map.mp hmembers
    rw [Finset.mem_powerset]
    intro literal hliteral
    exact hliterals clause hclause literal (Clause.mem_support.mp hliteral)
  calc set.size = set.supports.length := set.length_supports.symm
    _ ≤ literals.powerset.card := length_le_card_of_nodup h.nodup_supports hbound
    _ = 2 ^ literals.card := Finset.card_powerset literals

end ClauseSet

end Clausal
