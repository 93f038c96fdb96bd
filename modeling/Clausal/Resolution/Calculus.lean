import Clausal.Calculus
import Clausal.Resolution.Step

/-!
The resolution calculus as a calculus. A proof is closed when the empty clause
is among its clauses, and scores the higher the fewer clauses it has, hidden
ones included.
-/

namespace Clausal.Resolution

/-- What can be chosen when a proof starts. -/
structure Options where
  visualHelp : VisualHelp
  deriving DecidableEq

namespace State

def verdict (state : State) : Verdict :=
  if state.clauses.hasEmptyClause then ⟨true, "The proof is closed and valid"⟩
  else ⟨false, "The proof is not closed"⟩

def clauseCount (state : State) : Nat := state.clauses.size + state.hidden.size

def score (state : State) : Int := max 0 (1000 - 10 * (state.clauseCount : Int))

def summary? (state : State) : Option Summary :=
  if state.clauses.hasEmptyClause then
    some
      { formula := state.formula
        score := state.score
        details := .record
          [("clauses", .ofNat state.clauseCount), ("hidden", .ofNat state.hidden.size)] }
  else none

instance : Calculus State Move Options where
  defaults := ⟨.off⟩
  start clauses formula options := State.start clauses formula options.visualHelp
  basis := State.basis
  stamp := State.stamp
  withStamp state stamp := { state with stamp }
  defect? _ := none
  step := State.step
  verdict := State.verdict
  summary? := State.summary?

end State

end Clausal.Resolution
