import Clausal.Error
import Clausal.Resolution.State

/-!
The moves of the resolution calculus. Two clauses are resolved on a literal that
the first one has and whose complement the second one has; clauses can be put
aside and brought back.
-/

namespace Clausal.Resolution

/-- The first literal of the first clause whose complement is in the second, of
this name if one is given. -/
def pivot? (first second : Clause) (name : Option String) : Option Literal :=
  first.literals.find? fun literal =>
    literal.complement ∈ second && name.all (· == literal.name)

/-- What is left of the two clauses without the pivot and its complement. -/
def resolvent (first second : Clause) (pivot : Literal) : Clause :=
  (first.erase pivot).union (second.erase pivot.complement)

namespace State

def requireClause (state : State) (id : Nat) : Except IllegalMove Clause :=
  match state.clauses.get? id with
  | none => .error (.unknownClause id)
  | some clause => .ok clause

/-- Adds a derived clause, unless it is there already, and marks it as newest. -/
def derive (state : State) (clause : Clause) : State :=
  match state.clauses.indexOf? clause with
  | some index => { state with newest := some index }
  | none =>
      { state with
        clauses := state.clauses.insert clause
        newest := some state.clauses.size }

def noPivot : Option String → IllegalMove
  | some name => .noOppositeLiteral name
  | none => .noComplementaryLiterals

def resolve (state : State) (firstId secondId : Nat) (name : Option String) :
    Except IllegalMove State := do
  if firstId = secondId then throw .sameClause
  let first ← state.requireClause firstId
  let second ← state.requireClause secondId
  match pivot? first second name with
  | none => throw (noPivot name)
  | some pivot => return state.derive (resolvent first second pivot)

def hide (state : State) (id : Nat) : Except IllegalMove State :=
  match state.clauses.remove? id with
  | none => .error (.unknownClause id)
  | some (clause, rest) =>
      .ok { state with clauses := rest, hidden := state.hidden.insert clause, newest := none }

def unhide (state : State) : State :=
  { state with
    clauses := state.clauses.insertAll state.hidden.clauses
    hidden := .empty
    newest := none }

def step (state : State) : Move → Except IllegalMove State
  | .resolve first second name => state.resolve first second name
  | .hide clause => state.hide clause
  | .unhide => .ok state.unhide

end State

end Clausal.Resolution
