import Clausal.Basis
import Clausal.Tableau.Tree

/-!
Proof states of the tableau calculus: the clauses to refute, the rules that the
player has agreed to, the tree so far and the moves that made it.
-/

namespace Clausal.Tableau

/-- What an expansion must have to do with the leaf it expands. -/
inductive Connectedness where
  | unrestricted
  | weak
  | strong
  deriving DecidableEq

namespace Connectedness

def all : List Connectedness := [.unrestricted, .weak, .strong]

def name : Connectedness → String
  | .unrestricted => "Unconnected"
  | .weak => "WeaklyConnected"
  | .strong => "StronglyConnected"

end Connectedness

structure Rules where
  connectedness : Connectedness
  /-- Whether no branch may carry a literal twice. -/
  regular : Bool
  /-- Whether moves may be undone. -/
  backtracking : Bool
  deriving DecidableEq

def Rules.free : Rules := ⟨.unrestricted, false, false⟩

inductive Move where
  | expand (leaf clause : Nat)
  | close (leaf node : Nat)
  | undo
  deriving DecidableEq

def Move.text : Move → String
  | .expand leaf clause => "expand(" ++ toString leaf ++ "," ++ toString clause ++ ")"
  | .close leaf node => "close(" ++ toString leaf ++ "," ++ toString node ++ ")"
  | .undo => "undo"

structure State where
  clauses : ClauseSet
  formula : String
  rules : Rules
  tree : Tree
  /-- The moves that made the tree, without those that were undone. -/
  history : List Move
  usedUndo : Bool
  /-- The seal that the state carries, right or wrong. -/
  stamp : String
  deriving DecidableEq

namespace State

/-- The state before the first move. -/
def start (clauses : ClauseSet) (formula : String) (rules : Rules) : State :=
  { clauses, formula, rules, tree := .start, history := [], usedUndo := false, stamp := "" }

end State

def Node.basis (node : Node) : String :=
  "(" ++ Basis.optional node.parent ++ ";" ++ Text.quote node.literal.name ++ ";" ++
    Basis.flag node.literal.negated ++ ";" ++ Basis.flag node.closed ++ ";" ++
    Basis.optional node.target ++ ";" ++ Basis.list toString node.children ++ ")"

/-- Everything but the stamp. -/
def State.basis (state : State) : String :=
  "tableaux|" ++ state.rules.connectedness.name ++ "|" ++ Basis.flag state.rules.regular ++ "|" ++
    Basis.flag state.rules.backtracking ++ "|" ++ Basis.flag state.usedUndo ++ "|" ++
    Text.quote state.formula ++ "|" ++ state.clauses.basis ++ "|" ++
    Basis.list Node.basis state.tree.nodes ++ "|" ++ Basis.list Move.text state.history

end Clausal.Tableau
