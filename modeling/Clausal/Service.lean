import Clausal.Exchange
import Clausal.Leaderboard
import Clausal.Tableau.Calculus
import Clausal.Wire.Resolution
import Clausal.Wire.Tableau

/-!
The service offers both calculi under their names. A name that is not known is
refused before anything else is looked at.
-/

namespace Clausal

/-- The calculi on offer. -/
inductive ProofSystem where
  | tableau
  | resolution
  deriving DecidableEq

namespace ProofSystem

def all : List ProofSystem := [.tableau, .resolution]

def name : ProofSystem → String
  | .tableau => "prop-tableaux"
  | .resolution => "prop-resolution"

def names : List String := all.map name

def find (wanted : String) : Except Error ProofSystem :=
  match all.find? (·.name == wanted) with
  | some system => .ok system
  | none => .error (.misuse (.unknownCalculus wanted))

end ProofSystem

/-- A service reads formulas over its alphabet. -/
structure Service where
  alphabet : Alphabet

namespace Service

def standard : Service := ⟨.identifier⟩

def parse (service : Service) (calculus formula : String) (options : Option String) :
    Except Error String := do
  match ← ProofSystem.find calculus with
  | .tableau => Exchange.parse Tableau.State service.alphabet formula options
  | .resolution => Exchange.parse Resolution.State service.alphabet formula options

def applyMove (calculus state move : String) : Except Error String := do
  match ← ProofSystem.find calculus with
  | .tableau => Exchange.applyMove Tableau.State state move
  | .resolution => Exchange.applyMove Resolution.State state move

def checkClose (calculus state : String) : Except Error String := do
  match ← ProofSystem.find calculus with
  | .tableau => Exchange.checkClose Tableau.State state
  | .resolution => Exchange.checkClose Resolution.State state

def summary (calculus state : String) : Except Error (Option Summary) := do
  match ← ProofSystem.find calculus with
  | .tableau => Exchange.summary Tableau.State state
  | .resolution => Exchange.summary Resolution.State state

/-- Records the summary of a closed proof, and says whether it was recorded. -/
def record (keeper : Leaderboard.Keeper) (board : Leaderboard) (calculus state : String) :
    Except Error (Bool × Leaderboard) := do
  match ← summary calculus state with
  | some result => return board.record keeper result
  | none => return (false, board)

end Service

end Clausal
