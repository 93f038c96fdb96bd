import Mathlib.Algebra.Order.BigOperators.Group.Finset
import Clausal.Proofs.Tableau.Progress
import Clausal.Proofs.Vocabulary

/-!
Counting nodes and moves. A node has at most as many children as the largest clause
has literals, so every level of a tree is at most that many times as large as the level
above it. Every expansion and every closure spends one open leaf, and no leaf is spent
twice, so there are as many moves in the history as there are spent nodes.
-/

namespace Clausal.Tableau

namespace Tree

variable {clauses : ClauseSet} {tree : Tree}

def childrenOf (tree : Tree) (id : Nat) : List Nat := (tree.node? id).elim [] Node.children

/-- The nodes at this distance from the root. -/
def level (tree : Tree) (distance : Nat) : Finset Nat :=
  (Finset.range tree.size).filter fun id => (tree.branch id).length = distance

/-- The number of nodes of a tree of this depth in which every node above the last level
has this many children. -/
def fullSize (width depth : Nat) : Nat := ∑ distance ∈ Finset.range (depth + 1), width ^ distance

theorem mem_level {distance id : Nat} :
    id ∈ tree.level distance ↔ id < tree.size ∧ (tree.branch id).length = distance := by
  rw [level, Finset.mem_filter, Finset.mem_range]

theorem Linked.level_zero_subset (hlinked : tree.Linked) : tree.level 0 ⊆ {0} := by
  intro id hid
  obtain ⟨hsize, hlength⟩ := mem_level.mp hid
  rcases Nat.eq_zero_or_pos id with rfl | hpositive
  · exact Finset.mem_singleton_self 0
  · obtain ⟨parent, hparent⟩ := hlinked.exists_parent? hsize hpositive
    rw [hlinked.branch_of_parent? hparent] at hlength
    cases hlength

theorem Linked.level_succ_subset (hlinked : tree.Linked) (distance : Nat) :
    tree.level (distance + 1) ⊆
      (tree.level distance).biUnion fun id => (tree.childrenOf id).toFinset := by
  intro id hid
  obtain ⟨hsize, hlength⟩ := mem_level.mp hid
  have hpositive : 0 < id := by
    rw [Nat.pos_iff_ne_zero]
    rintro rfl
    rw [hlinked.branch_zero] at hlength
    cases hlength
  obtain ⟨parent, hparent⟩ := hlinked.exists_parent? hsize hpositive
  obtain ⟨above, habove, hmember⟩ := hlinked.exists_listing hparent
  rw [hlinked.branch_of_parent? hparent, List.length_cons] at hlength
  refine Finset.mem_biUnion.mpr ⟨parent, mem_level.mpr ⟨node?_eq_some_lt habove, ?_⟩, ?_⟩
  · omega
  · rw [List.mem_toFinset, childrenOf, habove]
    exact hmember

theorem Linked.card_level_le (hlinked : tree.Linked) {width : Nat}
    (hwidth : ∀ id, (tree.childrenOf id).length ≤ width) (distance : Nat) :
    (tree.level distance).card ≤ width ^ distance := by
  induction distance with
  | zero => exact Finset.card_le_card hlinked.level_zero_subset
  | succ distance ih =>
      calc (tree.level (distance + 1)).card
          ≤ ((tree.level distance).biUnion fun id => (tree.childrenOf id).toFinset).card :=
            Finset.card_le_card (hlinked.level_succ_subset distance)
        _ ≤ (tree.level distance).card * width :=
            Finset.card_biUnion_le_card_mul _ _ _ fun id _ =>
              (List.toFinset_card_le _).trans (hwidth id)
        _ ≤ width ^ distance * width := Nat.mul_le_mul_right width ih
        _ = width ^ (distance + 1) := (pow_succ width distance).symm

/-- A tree whose branches are no longer than the depth is no larger than the full tree. -/
theorem Linked.size_le_fullSize (hlinked : tree.Linked) {width depth : Nat}
    (hwidth : ∀ id, (tree.childrenOf id).length ≤ width)
    (hdepth : ∀ id < tree.size, (tree.branch id).length ≤ depth) :
    tree.size ≤ fullSize width depth := by
  have hcover : Finset.range tree.size ⊆
      (Finset.range (depth + 1)).biUnion tree.level := by
    intro id hid
    have hsize := Finset.mem_range.mp hid
    have hlength := hdepth id hsize
    exact Finset.mem_biUnion.mpr
      ⟨_, Finset.mem_range.mpr (Nat.lt_succ_of_le hlength), mem_level.mpr ⟨hsize, rfl⟩⟩
  calc tree.size = (Finset.range tree.size).card := (Finset.card_range _).symm
    _ ≤ ((Finset.range (depth + 1)).biUnion tree.level).card := Finset.card_le_card hcover
    _ ≤ ∑ distance ∈ Finset.range (depth + 1), (tree.level distance).card :=
        Finset.card_biUnion_le
    _ ≤ fullSize width depth :=
        Finset.sum_le_sum fun distance _ => hlinked.card_level_le hwidth distance

theorem Shaped.length_childrenOf_le (hshaped : tree.Shaped clauses) (id : Nat) :
    (tree.childrenOf id).length ≤ clauses.width := by
  unfold childrenOf
  cases hnode : tree.node? id with
  | none => exact Nat.zero_le _
  | some node =>
      change node.children.length ≤ clauses.width
      by_cases hleaf : node.children = []
      · rw [hleaf]
        exact Nat.zero_le _
      · obtain ⟨clause, hclause, first, hchildren, -⟩ := hshaped.clause hnode hleaf
        rw [hchildren, List.length_range']
        exact ClauseSet.size_le_width hclause

end Tree

/-- An expanded or closed node, where no further move is possible. -/
def Node.isSpent (node : Node) : Bool := !node.isLeaf || node.closed

namespace Tree

variable {clauses : ClauseSet} {tree : Tree} {leaf : Nat} {node : Node}

def spent (tree : Tree) : Finset Nat :=
  (Finset.range tree.size).filter fun id => (tree.node? id).any Node.isSpent

theorem mem_spent {id : Nat} :
    id ∈ tree.spent ↔ ∃ node, tree.node? id = some node ∧
      (node.children ≠ [] ∨ node.closed = true) := by
  have hspent : (tree.node? id).any Node.isSpent = true ↔ ∃ node, tree.node? id = some node ∧
      (node.children ≠ [] ∨ node.closed = true) := by
    simp [Option.any_eq_true, Node.isSpent, Node.isLeaf]
  rw [spent, Finset.mem_filter, Finset.mem_range, hspent]
  constructor
  · exact And.right
  · rintro ⟨node, hnode, hspent⟩
    exact ⟨node?_eq_some_lt hnode, node, hnode, hspent⟩

theorem OpenLeaf.notMem_spent (hopen : tree.OpenLeaf leaf node) : leaf ∉ tree.spent := by
  rw [mem_spent]
  rintro ⟨found, hfound, hspent⟩
  cases hopen.found.symm.trans hfound
  rcases hspent with hinner | hclosed
  · exact hinner hopen.leaf
  · cases hopen.mark.symm.trans hclosed

/-- An expansion spends the leaf and adds nodes that are not spent. -/
theorem OpenLeaf.spent_extend (hopen : tree.OpenLeaf leaf node) {literals : List Literal}
    (hliterals : literals ≠ []) : (tree.extend leaf literals).spent = insert leaf tree.spent := by
  ext id
  rw [Finset.mem_insert, mem_spent, mem_spent]
  constructor
  · rintro ⟨after, hafter, hspent⟩
    rcases node?_extend_cases hafter with
      ⟨before, hbefore, -, rfl⟩ | ⟨before, hbefore, rfl, rfl⟩ | ⟨_, _, -, -, rfl⟩
    · exact .inr ⟨after, hbefore, hspent⟩
    · exact .inl rfl
    · simp [Node.leaf] at hspent
  · rintro (rfl | ⟨before, hbefore, hspent⟩)
    · obtain ⟨after, hafter, -, -, -, -, hchildren⟩ :=
        exists_node?_extend hopen.found id literals
      refine ⟨after, hafter, .inl ?_⟩
      rw [hchildren, if_pos rfl, hopen.leaf, List.nil_append, Ne, List.range'_eq_nil_iff,
        List.length_eq_zero_iff]
      exact hliterals
    · obtain ⟨after, hafter, -, -, hclosed, -, hchildren⟩ :=
        exists_node?_extend hbefore leaf literals
      refine ⟨after, hafter, ?_⟩
      rw [hclosed, hchildren]
      exact hspent.imp_left fun hinner => List.append_ne_nil_of_left_ne_nil hinner _

/-- A closure spends the leaf: what it closes above the leaf was expanded before. -/
theorem OpenLeaf.spent_close (hopen : tree.OpenLeaf leaf node) (hlinked : tree.Linked)
    (target : Nat) : (tree.close leaf target).spent = insert leaf tree.spent := by
  ext id
  rw [Finset.mem_insert, mem_spent, mem_spent]
  by_cases hid : id = leaf
  · subst hid
    have hself := hlinked.node?_close_self hopen.found target
    exact ⟨fun _ => .inl rfl, fun _ => ⟨_, hself, .inr rfl⟩⟩
  · rw [or_iff_right hid]
    constructor
    · rintro ⟨after, hafter, hspent⟩
      obtain ⟨before, hbefore, -, -, hchildren⟩ := exists_before_close hafter
      by_cases hleaf : before.children = []
      · -- A leaf is not above another one, so its mark is the old one.
        have habove : ¬ tree.Above id leaf := hlinked.not_above_leaf hbefore hleaf
        rw [node?_close habove, node?_modify_ne (Ne.symm hid)] at hafter
        exact ⟨after, hafter, hspent⟩
      · exact ⟨before, hbefore, .inl hleaf⟩
    · rintro ⟨before, hbefore, hspent⟩
      obtain ⟨after, hafter, hsame, hmark⟩ := exists_node?_close target hid hbefore
      refine ⟨after, hafter, ?_⟩
      rw [(Node.skeleton_eq_iff.mp hsame).2.2.2]
      exact hspent.imp_right hmark

theorem card_spent_le (tree : Tree) : tree.spent.card ≤ tree.size :=
  (Finset.card_filter_le _ _).trans (Finset.card_range _).le

end Tree

namespace State

open Calculus

variable {clauses : ClauseSet} {formula : String} {rules : Rules} {state : State}

/-- Every move of the history has spent a leaf of its own. -/
theorem Replays.length_history (hreplays : (start clauses formula rules).Replays state)
    (hnonempty : ∀ clause ∈ clauses.clauses, ∃ literal, literal ∈ clause) :
    state.history.length = state.tree.spent.card := by
  refine hreplays.induction
    (motive := fun tree history => history.length = tree.spent.card) rfl ?_ ?_
  · intro tree history leaf clauseId node clause _ hlength hopen hclause _ _ _
    obtain ⟨literal, hliteral⟩ := hnonempty clause (List.mem_of_getElem? hclause)
    rw [hopen.spent_extend (List.ne_nil_of_mem hliteral),
      Finset.card_insert_of_notMem hopen.notMem_spent, List.length_append, hlength]
    rfl
  · intro tree history leaf target node hsound hlength hopen _
    rw [hopen.spent_close hsound.toLinked target,
      Finset.card_insert_of_notMem hopen.notMem_spent, List.length_append, hlength]
    rfl

/-- Without undos the history is the list of all moves. -/
theorem history_of_rehearse {final : State} {moves : List Move}
    (hsound : state.tree.Sound state.clauses) (hmoves : .undo ∉ moves)
    (hrun : rehearse state moves = .ok final) : final.history = state.history ++ moves := by
  induction moves generalizing state with
  | nil =>
      cases hrun
      exact (List.append_nil _).symm
  | cons move rest ih =>
      obtain ⟨next, hnext, hrest⟩ := rehearse_cons_eq_ok.mp hrun
      obtain ⟨hmove, hothers⟩ := List.ne_and_not_mem_of_not_mem_cons hmoves
      have hforward := forward_of_step hsound hmove.symm (advance_eq_ok.mp hnext).2
      have hhistory : next.history = state.history ++ [move] := congrArg history hforward.effect
      rw [ih (hforward.clauses_eq ▸ hforward.sound) hothers hrest, hhistory, List.append_assoc]
      rfl

end State

end Clausal.Tableau
