import Clausal.Tableau.Tree

/-!
The structure of proof trees. The first node is the only root, every other node
is listed by a parent in front of it, every listed child names its parent, and
whatever a node is closed against exists. In such a tree every walk upwards ends
at the root.
-/

namespace Clausal.Tableau

inductive Defect where
  | noRoot
  | invalidParent (node : Nat)
  | foreignChild (node child : Nat)
  | missingTarget (node : Nat)
  deriving DecidableEq

namespace Defect

def message : Defect → String
  | .noRoot => "node 0 is not a root"
  | .invalidParent node => "node " ++ toString node ++ " has an invalid parent"
  | .foreignChild node child =>
      "node " ++ toString node ++ " lists foreign child " ++ toString child
  | .missingTarget node => "node " ++ toString node ++ " closes against a missing node"

end Defect

namespace Tree

def hasRoot (tree : Tree) : Bool :=
  match tree.node? 0 with
  | none => false
  | some root => root.parent.isNone

/-- Whether the node has a parent in front of it that lists it. -/
def isLinked (tree : Tree) (id : Nat) (node : Node) : Bool :=
  match node.parent with
  | none => false
  | some parent => parent < id && (tree.node? parent).any (·.children.contains id)

def defectAt? (tree : Tree) (id : Nat) (node : Node) : Option Defect :=
  if 0 < id && !tree.isLinked id node then some (.invalidParent id)
  else
    match node.children.find? fun child => tree.parent? child != some id with
    | some child => some (.foreignChild id child)
    | none => if node.target.any (tree.size ≤ ·) then some (.missingTarget id) else none

/-- The first defect of a tree, if it has any. -/
def defect? (tree : Tree) : Option Defect :=
  if tree.hasRoot then tree.nodes.zipIdx.findSome? fun (node, id) => tree.defectAt? id node
  else some .noRoot

end Tree

end Clausal.Tableau
