import Clausal.Calculus
import Clausal.Tableau.Step

/-!
The tableau calculus as a calculus. Its proofs are closed when their tree is; a
closed proof scores the higher the fewer nodes it has, and less if moves were
undone.
-/

namespace Clausal.Tableau.State

def verdict (state : State) : Verdict :=
  if !state.tree.isClosed then ⟨false, "The proof tree is not closed"⟩
  else if state.usedUndo then
    ⟨true, "The proof tree is closed and valid, backtracking was used"⟩
  else ⟨true, "The proof tree is closed and valid"⟩

def score (state : State) : Int :=
  max 0 (1000 - 10 * ((state.tree.size : Int) - 1) - if state.usedUndo then 100 else 0)

def summary? (state : State) : Option Summary :=
  if state.tree.isClosed then
    some
      { formula := state.formula
        score := state.score
        details := .record
          [("moves", .ofNat state.history.length), ("nodes", .ofNat state.tree.size),
            ("used_backtracking", .bool state.usedUndo)] }
  else none

instance : Calculus State Move Rules where
  defaults := .free
  start := State.start
  basis := State.basis
  stamp := State.stamp
  withStamp state stamp := { state with stamp }
  defect? state := state.tree.defect?.map .malformedTree
  step := State.step
  verdict := State.verdict
  summary? := State.summary?

end Clausal.Tableau.State
