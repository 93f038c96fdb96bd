import Clausal.Tableau.Tree

/-!
How proof trees change. A tree grows by leaves below a leaf, a closed leaf closes
every ancestor all of whose children are closed, and both changes can be taken
back.
-/

namespace Clausal.Tableau.Tree

def modify (tree : Tree) (id : Nat) (change : Node → Node) : Tree :=
  ⟨tree.nodes.modify id change⟩

/-- Hangs one new leaf below the node for each literal. -/
def extend (tree : Tree) (id : Nat) (literals : List Literal) : Tree :=
  let fresh := List.range' tree.size literals.length
  let grown := tree.modify id fun node => { node with children := node.children ++ fresh }
  ⟨grown.nodes ++ literals.map (Node.leaf id)⟩

/-- Closes the node and its ancestors as long as all their children are closed,
for at most so many steps. -/
def closeUpward (tree : Tree) : Nat → Option Nat → Tree
  | 0, _ => tree
  | _ + 1, none => tree
  | steps + 1, some id =>
      match tree.node? id with
      | none => tree
      | some node =>
          if node.children.all tree.isClosedAt then
            (tree.modify id fun node => { node with closed := true }).closeUpward steps
              node.parent
          else tree

/-- Closes the leaf against the target. -/
def close (tree : Tree) (leaf target : Nat) : Tree :=
  let marked := tree.modify leaf fun node => { node with closed := true, target := some target }
  marked.closeUpward marked.size (marked.parent? leaf)

/-- Opens the leaf again, and with it all its ancestors. -/
def reopen (tree : Tree) (leaf : Nat) : Tree :=
  let opened := tree.modify leaf fun node => { node with closed := false, target := none }
  (tree.ancestors leaf).foldl
    (fun tree id => tree.modify id fun node => { node with closed := false }) opened

/-- Takes off the children of the node, if they are the last nodes of the tree. -/
def retract? (tree : Tree) (id : Nat) (node : Node) : Option Tree :=
  let first := tree.size - node.children.length
  if node.children = List.range' first (tree.size - first) then
    some ⟨(tree.modify id fun node => { node with children := [] }).nodes.take first⟩
  else none

end Clausal.Tableau.Tree
