import Clausal.Clause

/-!
Proof trees of the tableau calculus. A tree is a list of nodes; the index of a
node in the list identifies it, and nodes refer to their parents and children by
index. The root carries no literal of its own. Walks from a node to the root
make at most as many steps as there are nodes, which is enough in every tree
whose parents form no cycle.
-/

namespace Clausal.Tableau

structure Node where
  parent : Option Nat
  literal : Literal
  closed : Bool
  /-- The node that this one was closed against. -/
  target : Option Nat
  children : List Nat
  deriving DecidableEq

namespace Node

def root : Node := ⟨none, .positive "true", false, none, []⟩

/-- A new leaf below the parent. -/
def leaf (parent : Nat) (literal : Literal) : Node := ⟨some parent, literal, false, none, []⟩

def isLeaf (node : Node) : Bool := node.children.isEmpty

def carries (node : Node) (literal : Literal) : Bool := node.literal == literal

def complements (first second : Node) : Bool := first.literal.complements second.literal

end Node

structure Tree where
  nodes : List Node
  deriving DecidableEq

namespace Tree

/-- The tree of a root alone. -/
def start : Tree := ⟨[.root]⟩

def size (tree : Tree) : Nat := tree.nodes.length

def node? (tree : Tree) (id : Nat) : Option Node := tree.nodes[id]?

def parent? (tree : Tree) (id : Nat) : Option Nat := (tree.node? id).bind Node.parent

/-- The parents above a node, nearest first, for at most so many steps. -/
def climb (tree : Tree) : Nat → Nat → List Nat
  | 0, _ => []
  | steps + 1, id =>
      match tree.parent? id with
      | none => []
      | some parent => parent :: climb tree steps parent

def ancestors (tree : Tree) (id : Nat) : List Nat := tree.climb tree.size id

def isAncestor (tree : Tree) (ancestor id : Nat) : Bool := ancestor ∈ tree.ancestors id

/-- The nodes from a node up to the root, without the root. -/
def branch (tree : Tree) (id : Nat) : List Nat := (id :: tree.ancestors id).dropLast

def branchCarries (tree : Tree) (id : Nat) (literal : Literal) : Bool :=
  (tree.branch id).any fun ancestor => (tree.node? ancestor).any (·.carries literal)

/-- Whether the node exists and is closed. -/
def isClosedAt (tree : Tree) (id : Nat) : Bool := (tree.node? id).any Node.closed

/-- A tree is closed when its root is. -/
def isClosed (tree : Tree) : Bool := tree.isClosedAt 0

/-- Whether some child of the node was closed against the node itself. -/
def isConnectedAt (tree : Tree) (id : Nat) (node : Node) : Bool :=
  node.children.any fun child =>
    (tree.node? child).any fun below => below.closed && below.target == some id

/-- The first inner node below the root without a child closed against it. -/
def unconnectedNode? (tree : Tree) : Option Nat :=
  (List.range' 1 (tree.size - 1)).find? fun id =>
    (tree.node? id).any fun node => !node.isLeaf && !tree.isConnectedAt id node

end Tree

end Clausal.Tableau
