import Clausal.Error
import Clausal.Tableau.Growth
import Clausal.Tableau.State

/-!
The moves of the tableau calculus. An expansion hangs the literals of a clause
below an open leaf, a closure closes an open leaf against a complementary
ancestor, and an undo takes back the last of these. A move that breaks a rule is
refused with the first rule it breaks.
-/

namespace Clausal.Tableau

namespace Tree

def requireNode (tree : Tree) (id : Nat) : Except IllegalMove Node :=
  match tree.node? id with
  | none => .error (.unknownNode id)
  | some node => .ok node

def requireOpenLeaf (tree : Tree) (id : Nat) : Except IllegalMove Node := do
  let node ← tree.requireNode id
  if !node.isLeaf then throw (.notLeaf id)
  if node.closed then throw (.closedLeaf id)
  return node

end Tree

namespace State

def requireClause (state : State) (id : Nat) : Except IllegalMove Clause :=
  match state.clauses.get? id with
  | none => .error (.unknownClause id)
  | some clause => .ok clause

/-- Under strong connectedness no inner node may be left unconnected. -/
def checkStrong (state : State) : Except IllegalMove Unit :=
  if state.rules.connectedness = .strong then
    match state.tree.unconnectedNode? with
    | some node => .error (.unconnectedNode node)
    | none => .ok ()
  else .ok ()

/-- In a regular tableau no literal of the clause may be on the branch yet. -/
def checkRegular (state : State) (leaf : Nat) (clause : Clause) : Except IllegalMove Unit :=
  if state.rules.regular then
    match clause.literals.find? (state.tree.branchCarries leaf) with
    | some literal => .error (.repeatedLiteral literal)
    | none => .ok ()
  else .ok ()

/-- Below the root a connected tableau is expanded only by clauses with a literal
that is complementary to the leaf. -/
def checkConnected (state : State) (leaf : Nat) (node : Node) (clause : Clause) :
    Except IllegalMove Unit :=
  if state.rules.connectedness ≠ .unrestricted ∧ leaf ≠ 0 ∧
      !clause.literals.any (·.complements node.literal) then
    .error (.unconnectedClause clause leaf)
  else .ok ()

def expand (state : State) (leaf clauseId : Nat) : Except IllegalMove State := do
  let node ← state.tree.requireOpenLeaf leaf
  let clause ← state.requireClause clauseId
  state.checkStrong
  state.checkRegular leaf clause
  state.checkConnected leaf node clause
  return { state with
    tree := state.tree.extend leaf clause.literals
    history := state.history ++ [.expand leaf clauseId] }

def close (state : State) (leaf target : Nat) : Except IllegalMove State := do
  let node ← state.tree.requireOpenLeaf leaf
  let above ← state.tree.requireNode target
  if target = 0 then throw .rootTarget
  if !state.tree.isAncestor target leaf then throw (.notAncestor target leaf)
  if !node.complements above then throw (.notComplementary leaf target)
  return { state with
    tree := state.tree.close leaf target
    history := state.history ++ [.close leaf target] }

/-- The tree before a move of the history. -/
def takeBack (tree : Tree) : Move → Except IllegalMove Tree
  | .expand leaf _ => do
      let node ← tree.requireNode leaf
      match tree.retract? leaf node with
      | none => throw .laterExpansion
      | some smaller => return smaller
  | .close leaf _ => do
      let _ ← tree.requireNode leaf
      return tree.reopen leaf
  | .undo => throw .undoInHistory

def undo (state : State) : Except IllegalMove State := do
  if !state.rules.backtracking then throw .undoDisabled
  match state.history.getLast? with
  | none => throw .nothingToUndo
  | some last =>
      let tree ← takeBack state.tree last
      return { state with tree, history := state.history.dropLast, usedUndo := true }

def step (state : State) : Move → Except IllegalMove State
  | .expand leaf clause => state.expand leaf clause
  | .close leaf node => state.close leaf node
  | .undo => state.undo

end State

end Clausal.Tableau
