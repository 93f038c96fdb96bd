import Clausal.Basis

/-!
Proof states of the resolution calculus: the clauses derived so far, those the
player has put aside, and two hints for display that are not part of the proof.
-/

namespace Clausal.Resolution

inductive VisualHelp where
  | off
  | highlight
  deriving DecidableEq

namespace VisualHelp

def all : List VisualHelp := [.off, .highlight]

def name : VisualHelp → String
  | .off => "Off"
  | .highlight => "Highlight"

end VisualHelp

inductive Move where
  /-- Resolves two clauses, on the named literal if one is given. -/
  | resolve (first second : Nat) (name : Option String)
  /-- Puts a clause aside. -/
  | hide (clause : Nat)
  /-- Brings back every hidden clause. -/
  | unhide
  deriving DecidableEq

structure State where
  formula : String
  clauses : ClauseSet
  hidden : ClauseSet
  visualHelp : VisualHelp
  /-- The clause of the latest resolvent. -/
  newest : Option Nat
  /-- The seal that the state carries, right or wrong. -/
  stamp : String
  deriving DecidableEq

namespace State

/-- The state before the first move. -/
def start (clauses : ClauseSet) (formula : String) (visualHelp : VisualHelp) : State :=
  { formula, clauses, hidden := .empty, visualHelp, newest := none, stamp := "" }

/-- Everything but the hints for display and the stamp. -/
def basis (state : State) : String :=
  "resolution|" ++ Text.quote state.formula ++ "|" ++ state.clauses.basis ++ "|" ++
    state.hidden.basis

end State

end Clausal.Resolution
