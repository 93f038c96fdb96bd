import Mathlib.Data.Finset.Basic
import Mathlib.Data.Finset.Dedup
import Mathlib.Order.Minimal
import Clausal.Semantics

/-!
Refutation of a branch. Some clauses refute a set of literals when no assignment
satisfies all of both. Of the clauses that do, a smallest selection has no waste:
none of its clauses shares a literal with the branch, every one of them can be
spent on the branch, and if the last literal of the branch is to blame then some
clause answers it with its complement.
-/

namespace Clausal

/-- No assignment satisfies all the clauses and makes the whole branch true. -/
def Refutes (clauses : Finset Clause) (branch : Set Literal) : Prop :=
  ∀ assignment, (∀ clause ∈ clauses, clause.Holds assignment) →
    ¬ ∀ literal ∈ branch, literal.Holds assignment

/-- The assignment that makes the literal true and agrees elsewhere. -/
def Assignment.adopt (assignment : Assignment) (literal : Literal) : Assignment :=
  fun name => if name = literal.name then !literal.negated else assignment name

theorem Literal.holds_adopt_self (assignment : Assignment) (literal : Literal) :
    literal.Holds (assignment.adopt literal) := by
  simp [Holds, Assignment.adopt]

/-- Adopting a literal makes nothing false but its complement. -/
theorem Literal.holds_adopt {assignment : Assignment} {literal other : Literal}
    (hother : other.Holds assignment) (hne : other ≠ literal.complement) :
    other.Holds (assignment.adopt literal) := by
  obtain ⟨name, negated⟩ := literal
  obtain ⟨otherName, otherNegated⟩ := other
  simp only [Holds, Assignment.adopt, complement, ne_eq, Literal.mk.injEq] at hother hne ⊢
  split
  · next hname => cases negated <;> cases otherNegated <;> simp_all
  · exact hother

/-- No literal stands beside its complement. -/
def Consistent (branch : Set Literal) : Prop :=
  ∀ literal ∈ branch, literal.complement ∉ branch

theorem consistent_empty : Consistent ∅ := fun _ h => absurd h (Set.notMem_empty _)

theorem Consistent.insert {branch : Set Literal} {literal : Literal} (h : Consistent branch)
    (hnew : literal.complement ∉ branch) : Consistent (insert literal branch) := by
  rintro other (rfl | hother) (hsame | hmember)
  · exact Literal.complement_ne other hsame
  · exact hnew hmember
  · rw [← hsame, Literal.complement_complement] at hnew
    exact hnew hother
  · exact h other hother hmember

/-- What does not contradict itself can be made true. -/
theorem Consistent.exists_assignment {branch : Set Literal} (h : Consistent branch) :
    ∃ assignment : Assignment, ∀ literal ∈ branch, literal.Holds assignment := by
  classical
  refine ⟨fun name => decide (Literal.positive name ∈ branch), ?_⟩
  rintro ⟨name, negated⟩ hliteral
  cases negated with
  | false => exact decide_eq_true hliteral
  | true => exact decide_eq_false (h _ hliteral)

/-- Clauses without a model refute even the empty branch. -/
theorem ClauseSet.Unsatisfiable.refutes {set : ClauseSet} (h : set.Unsatisfiable) :
    Refutes set.clauses.toFinset ∅ := by
  intro assignment hclauses _
  exact h assignment fun clause hclause => hclauses clause (List.mem_toFinset.mpr hclause)

namespace Refutes

variable {clauses needed : Finset Clause} {branch : Set Literal} {clause : Clause}
  {literal : Literal}

theorem mono (hrefutes : Refutes needed branch) (hsubset : needed ⊆ clauses) :
    Refutes clauses branch :=
  fun assignment hclauses => hrefutes assignment fun clause hclause =>
    hclauses clause (hsubset hclause)

/-- A branch that does not contradict itself is refuted by some clause. -/
theorem nonempty (hrefutes : Refutes clauses branch) (hconsistent : Consistent branch) :
    clauses.Nonempty := by
  rw [Finset.nonempty_iff_ne_empty]
  rintro rfl
  obtain ⟨assignment, hbranch⟩ := hconsistent.exists_assignment
  exact hrefutes assignment (by simp) hbranch

theorem exists_minimal (hrefutes : Refutes clauses branch) :
    ∃ needed ⊆ clauses, Minimal (Refutes · branch) needed :=
  exists_minimal_le_of_wellFoundedLT (Refutes · branch) clauses hrefutes

/-- A clause can be traded for any of its literals. -/
theorem erase (hrefutes : Refutes clauses branch) (hliteral : literal ∈ clause) :
    Refutes (clauses.erase clause) (insert literal branch) := by
  intro assignment hclauses hbranch
  apply hrefutes assignment
  · intro other hother
    by_cases hsame : other = clause
    · subst hsame
      exact ⟨literal, hliteral, hbranch literal (Set.mem_insert _ _)⟩
    · exact hclauses other (Finset.mem_erase.mpr ⟨hsame, hother⟩)
  · intro other hother
    exact hbranch other (Set.mem_insert_of_mem _ hother)

theorem not_erase (hminimal : Minimal (Refutes · branch) needed) (hclause : clause ∈ needed) :
    ¬ Refutes (needed.erase clause) branch := by
  intro hrefutes
  have hle : needed ≤ needed.erase clause := hminimal.2 hrefutes (Finset.erase_subset _ _)
  exact Finset.notMem_erase clause needed (hle hclause)

/-- A clause that is needed has no literal on the branch. -/
theorem notMem_of_minimal (hminimal : Minimal (Refutes · branch) needed)
    (hclause : clause ∈ needed) (hliteral : literal ∈ clause) : literal ∉ branch := by
  intro hbranch
  apply not_erase hminimal hclause
  intro assignment hclauses hholds
  refine hminimal.1 assignment ?_ hholds
  intro other hother
  by_cases hsame : other = clause
  · subst hsame
    exact ⟨literal, hliteral, hholds literal hbranch⟩
  · exact hclauses other (Finset.mem_erase.mpr ⟨hsame, hother⟩)

/-- If the branch is only refuted with its last literal, some clause holds the
complement of that literal. -/
theorem exists_complement (hrefutes : Refutes clauses (insert literal branch))
    (hneeded : ¬ Refutes clauses branch) (hfresh : literal.complement ∉ branch) :
    ∃ clause ∈ clauses, literal.complement ∈ clause := by
  by_contra hnone
  push Not at hnone
  apply hneeded
  intro assignment hclauses hbranch
  apply hrefutes (assignment.adopt literal)
  · intro clause hclause
    obtain ⟨other, hother, htrue⟩ := hclauses clause hclause
    refine ⟨other, hother, Literal.holds_adopt htrue ?_⟩
    rintro rfl
    exact hnone clause hclause hother
  · intro other hother
    rcases hother with rfl | hother
    · exact Literal.holds_adopt_self assignment other
    · refine Literal.holds_adopt (hbranch other hother) ?_
      rintro rfl
      exact hfresh hother

/-- The next clause of a refutation: each of its literals leaves a branch that
fewer clauses refute, and none of them is on the branch yet. -/
structure Next (clauses : Finset Clause) (branch : Set Literal) (clause : Clause)
    (rest : Finset Clause) : Prop where
  mem : clause ∈ clauses
  subset : rest ⊂ clauses
  fresh : ∀ literal ∈ clause, literal ∉ branch
  refutes : ∀ literal ∈ clause, Refutes rest (insert literal branch)
  needed : ¬ Refutes rest branch

theorem next_of_minimal (hminimal : Minimal (Refutes · branch) needed)
    (hsubset : needed ⊆ clauses) (hclause : clause ∈ needed) :
    Next clauses branch clause (needed.erase clause) where
  mem := hsubset hclause
  subset := lt_of_lt_of_le (Finset.erase_ssubset hclause) hsubset
  fresh := fun _ => notMem_of_minimal hminimal hclause
  refutes := fun _ => hminimal.1.erase
  needed := not_erase hminimal hclause

theorem exists_next (hrefutes : Refutes clauses ∅) :
    ∃ clause rest, Next clauses ∅ clause rest := by
  obtain ⟨needed, hsubset, hminimal⟩ := hrefutes.exists_minimal
  obtain ⟨clause, hclause⟩ := hminimal.1.nonempty consistent_empty
  exact ⟨clause, _, next_of_minimal hminimal hsubset hclause⟩

/-- Below a literal that is to blame, the next clause can be chosen to hold its
complement. -/
theorem exists_connected_next (hrefutes : Refutes clauses (insert literal branch))
    (hneeded : ¬ Refutes clauses branch) (hfresh : literal.complement ∉ branch) :
    ∃ clause rest, literal.complement ∈ clause ∧
      Next clauses (insert literal branch) clause rest := by
  obtain ⟨needed, hsubset, hminimal⟩ := hrefutes.exists_minimal
  have hstill : ¬ Refutes needed branch := fun h => hneeded (h.mono hsubset)
  obtain ⟨clause, hclause, hcomplement⟩ := hminimal.1.exists_complement hstill hfresh
  exact ⟨clause, _, hcomplement, next_of_minimal hminimal hsubset hclause⟩

end Refutes

end Clausal
