import Clausal.ClauseSet

/-!
Truth of literals, clauses and clause sets under an assignment of truth values
to names. A clause is a disjunction and a clause set a conjunction, so the
empty clause holds nowhere and the empty clause set holds everywhere.
-/

namespace Clausal

abbrev Assignment := String → Bool

def Literal.Holds (assignment : Assignment) (literal : Literal) : Prop :=
  assignment literal.name = !literal.negated

def Clause.Holds (assignment : Assignment) (clause : Clause) : Prop :=
  ∃ literal ∈ clause, literal.Holds assignment

def ClauseSet.Holds (assignment : Assignment) (set : ClauseSet) : Prop :=
  ∀ clause ∈ set.clauses, clause.Holds assignment

def ClauseSet.Unsatisfiable (set : ClauseSet) : Prop :=
  ∀ assignment, ¬ set.Holds assignment

instance (assignment : Assignment) (literal : Literal) :
    Decidable (literal.Holds assignment) :=
  inferInstanceAs (Decidable (_ = _))

theorem Literal.holds_complement (assignment : Assignment) (literal : Literal) :
    literal.complement.Holds assignment ↔ ¬ literal.Holds assignment := by
  simp [Literal.Holds, Literal.complement]

theorem Clause.empty_not_holds (assignment : Assignment) :
    ¬ Clause.empty.Holds assignment := by
  rintro ⟨literal, hmem, -⟩
  exact absurd hmem (by simp [Clause.empty, ← Clause.mem_literals])

end Clausal
