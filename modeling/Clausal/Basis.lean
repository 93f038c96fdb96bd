import Clausal.ClauseSet
import Clausal.Text.Quoted

/-!
The basis of a value is its canonical description, from which seals are
computed. Names are quoted and every list is bracketed, so that different values
have different bases.
-/

namespace Clausal

namespace Basis

def list {α : Type} (basis : α → String) (items : List α) : String :=
  "[" ++ ",".intercalate (items.map basis) ++ "]"

def flag (value : Bool) : String := if value then "true" else "false"

def optional (value : Option Nat) : String :=
  match value with
  | none => "None"
  | some number => "Some(" ++ toString number ++ ")"

end Basis

def Literal.basis (literal : Literal) : String :=
  (if literal.negated then "-" else "+") ++ Text.quote literal.name

def Clause.basis (clause : Clause) : String := Basis.list Literal.basis clause.literals

def ClauseSet.basis (set : ClauseSet) : String := Basis.list Clause.basis set.clauses

end Clausal
