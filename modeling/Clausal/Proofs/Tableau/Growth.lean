import Clausal.Proofs.Tableau.Walk
import Clausal.Tableau.Growth

/-!
What the changes of a proof tree do to its nodes. Growth appends leaves and lists
them at one node, and closing and reopening touch nothing but the marks of a leaf
and of the nodes above it. The skeleton of a tree is what is left of it when all
marks of closure are forgotten; it decides every walk.
-/

namespace Clausal.Tableau

def Node.skeleton (node : Node) : Node := { node with closed := false }

def Node.closedAgainst (node : Node) (target : Nat) : Node :=
  { node with closed := true, target := some target }

def Node.reopened (node : Node) : Node := { node with closed := false, target := none }

theorem Node.skeleton_eq_iff {first second : Node} :
    first.skeleton = second.skeleton ↔ first.parent = second.parent ∧
      first.literal = second.literal ∧ first.target = second.target ∧
      first.children = second.children := by
  simp [Node.skeleton]

theorem Node.eq_of_skeleton {first second : Node} (hskeleton : first.skeleton = second.skeleton)
    (hclosed : first.closed = second.closed) : first = second := by
  cases first
  cases second
  simp_all [Node.skeleton]

namespace Tree

def skeleton (tree : Tree) : List Node := tree.nodes.map Node.skeleton

/-- The node is where a branch can still be continued or closed. -/
structure OpenLeaf (tree : Tree) (id : Nat) (node : Node) : Prop where
  found : tree.node? id = some node
  leaf : node.children = []
  mark : node.closed = false

@[ext] theorem ext_node? {first second : Tree} (h : ∀ id, first.node? id = second.node? id) :
    first = second := by
  cases first
  cases second
  exact congrArg Tree.mk (List.ext_getElem? h)

/-- If a change keeps the number of nodes, whatever it keeps of the nodes after it, it
keeps of the nodes before it. -/
theorem exists_changed {tree changed : Tree} {Kept : Nat → Node → Node → Prop}
    (hsize : changed.size = tree.size)
    (hnodes : ∀ id after, changed.node? id = some after → ∃ before,
      tree.node? id = some before ∧ Kept id before after)
    {id : Nat} {before : Node} (hbefore : tree.node? id = some before) :
    ∃ after, changed.node? id = some after ∧ Kept id before after := by
  obtain ⟨after, hafter⟩ := exists_node? (hsize ▸ node?_eq_some_lt hbefore)
  obtain ⟨other, hother, hkept⟩ := hnodes id after hafter
  cases hbefore.symm.trans hother
  exact ⟨after, hafter, hkept⟩

theorem node?_modify (tree : Tree) (id other : Nat) (change : Node → Node) :
    (tree.modify id change).node? other =
      if id = other then (tree.node? other).map change else tree.node? other := by
  simp only [node?, modify, List.getElem?_modify]
  split <;> simp

@[simp] theorem size_modify (tree : Tree) (id : Nat) (change : Node → Node) :
    (tree.modify id change).size = tree.size := by
  simp [size, modify]

theorem node?_modify_self {tree : Tree} {id : Nat} {node : Node} {change : Node → Node}
    (hnode : tree.node? id = some node) :
    (tree.modify id change).node? id = some (change node) := by
  simp [node?_modify, hnode]

theorem node?_modify_ne {tree : Tree} {id other : Nat} {change : Node → Node}
    (hne : id ≠ other) : (tree.modify id change).node? other = tree.node? other := by
  simp [node?_modify, hne]

theorem isClosedAt_eq_true {tree : Tree} {id : Nat} :
    tree.isClosedAt id = true ↔ ∃ node, tree.node? id = some node ∧ node.closed = true := by
  simp [isClosedAt, Option.any_eq_true]

theorem isClosedAt_eq {tree : Tree} {id : Nat} {node : Node} (hnode : tree.node? id = some node) :
    tree.isClosedAt id = node.closed := by
  simp [isClosedAt, hnode]

theorem exists_node?_of_skeleton {first second : Tree} (h : first.skeleton = second.skeleton)
    {id : Nat} {node : Node} (hnode : first.node? id = some node) :
    ∃ other, second.node? id = some other ∧ other.skeleton = node.skeleton := by
  have hmapped : (second.nodes.map Node.skeleton)[id]? = some node.skeleton := by
    have hsecond : second.nodes.map Node.skeleton = first.nodes.map Node.skeleton := h.symm
    rw [hsecond, List.getElem?_map]
    exact congrArg (Option.map Node.skeleton) hnode
  rw [List.getElem?_map] at hmapped
  exact Option.map_eq_some_iff.mp hmapped

theorem Within.of_skeleton {first second : Tree} (h : first.skeleton = second.skeleton) :
    first.Within second := by
  intro id before hbefore
  obtain ⟨after, hafter, hsame⟩ := exists_node?_of_skeleton h hbefore
  obtain ⟨hparent, hliteral, -⟩ := Node.skeleton_eq_iff.mp hsame
  exact ⟨after, hafter, hparent, hliteral⟩

theorem size_of_skeleton {first second : Tree} (h : first.skeleton = second.skeleton) :
    first.size = second.size := by
  simpa [skeleton, size] using congrArg List.length h

theorem skeleton_modify_map {tree : Tree} {id : Nat} {change bare : Node → Node}
    (hchange : ∀ node, (change node).skeleton = bare node.skeleton) :
    (tree.modify id change).skeleton = tree.skeleton.modify id bare := by
  apply List.ext_getElem?
  intro other
  simp only [skeleton, modify, List.getElem?_map, List.getElem?_modify, Option.map_eq_map,
    Option.map_map]
  congr 1
  funext node
  by_cases hid : id = other <;> simp [hid, hchange]

theorem skeleton_modify {tree : Tree} {id : Nat} {change : Node → Node}
    (hchange : ∀ node, (change node).skeleton = node.skeleton) :
    (tree.modify id change).skeleton = tree.skeleton := by
  have hkept : (tree.modify id change).skeleton = tree.skeleton.modify id fun node => node :=
    skeleton_modify_map hchange
  rw [hkept]
  exact List.modify_id id tree.skeleton

theorem skeleton_closeUpward (tree : Tree) (steps : Nat) (start : Option Nat) :
    (tree.closeUpward steps start).skeleton = tree.skeleton := by
  fun_induction closeUpward tree steps start with
  | case1 => rfl
  | case2 => rfl
  | case3 => rfl
  | case4 tree steps id node hnode hall ih =>
      rw [ih]
      exact skeleton_modify fun _ => rfl
  | case5 => rfl

/-- Closing upward leaves alone whatever is not on the way up. -/
theorem node?_closeUpward {tree : Tree} (steps : Nat) (start other : Nat)
    (hother : other ≠ start) (habove : ¬ tree.Above other start) :
    (tree.closeUpward steps (some start)).node? other = tree.node? other := by
  induction steps generalizing tree start with
  | zero => rfl
  | succ steps ih =>
      rw [closeUpward]
      cases hnode : tree.node? start with
      | none => rfl
      | some node =>
          simp only
          split
          · have hskeleton : (tree.modify start fun node => { node with closed := true }).skeleton =
                tree.skeleton := skeleton_modify fun _ => rfl
            cases hparent : node.parent with
            | none =>
                cases steps <;> exact node?_modify_ne hother.symm
            | some parent =>
                have hlink : tree.parent? start = some parent := (parent?_eq hnode).trans hparent
                rw [ih parent, node?_modify_ne hother.symm]
                · rintro rfl
                  exact habove (.single hlink)
                · intro h
                  exact habove (.head hlink ((Within.of_skeleton hskeleton).above h))
          · rfl

theorem isClosedAt_closeUpward {tree : Tree} {steps : Nat} {start : Option Nat} {other : Nat}
    (hclosed : tree.isClosedAt other = true) :
    (tree.closeUpward steps start).isClosedAt other = true := by
  fun_induction closeUpward tree steps start with
  | case1 => exact hclosed
  | case2 => exact hclosed
  | case3 => exact hclosed
  | case4 tree steps id node hnode hall ih =>
      apply ih
      obtain ⟨before, hbefore, hmark⟩ := isClosedAt_eq_true.mp hclosed
      rw [isClosedAt, node?_modify, hbefore]
      split
      · rfl
      · exact hmark
  | case5 => exact hclosed

theorem within_modify {tree : Tree} {id : Nat} {change : Node → Node}
    (hchange : ∀ node, (change node).parent = node.parent ∧ (change node).literal = node.literal) :
    tree.Within (tree.modify id change) ∧ (tree.modify id change).Within tree := by
  constructor
  · intro other before hbefore
    rw [node?_modify, hbefore]
    split
    · exact ⟨change before, rfl, hchange before⟩
    · exact ⟨before, rfl, rfl, rfl⟩
  · intro other after hafter
    rw [node?_modify] at hafter
    split at hafter
    · obtain ⟨before, hbefore, rfl⟩ := Option.map_eq_some_iff.mp hafter
      exact ⟨before, hbefore, (hchange before).1.symm, (hchange before).2.symm⟩
    · exact ⟨after, hafter, rfl, rfl⟩

@[simp] theorem closeUpward_none (tree : Tree) (steps : Nat) :
    tree.closeUpward steps none = tree := by
  cases steps <;> rfl

theorem within_closedAgainst (tree : Tree) (leaf target : Nat) :
    tree.Within (tree.modify leaf (·.closedAgainst target)) ∧
      (tree.modify leaf (·.closedAgainst target)).Within tree :=
  within_modify fun _ => ⟨rfl, rfl⟩

theorem close_eq (tree : Tree) (leaf target : Nat) :
    tree.close leaf target =
      (tree.modify leaf (·.closedAgainst target)).closeUpward tree.size (tree.parent? leaf) := by
  have hparent : (tree.modify leaf (·.closedAgainst target)).parent? leaf = tree.parent? leaf := by
    simp only [parent?, node?_modify]
    cases tree.node? leaf <;> rfl
  rw [← hparent, ← size_modify tree leaf (·.closedAgainst target)]
  rfl

/-- Closing a leaf changes the leaf and possibly the marks of the nodes above it,
and nothing else. -/
theorem node?_close {tree : Tree} {leaf target other : Nat} (habove : ¬ tree.Above other leaf) :
    (tree.close leaf target).node? other =
      (tree.modify leaf (·.closedAgainst target)).node? other := by
  rw [close_eq]
  cases hparent : tree.parent? leaf with
  | none => rw [closeUpward_none]
  | some parent =>
      apply node?_closeUpward
      · rintro rfl
        exact habove (.single hparent)
      · intro h
        exact habove (.head hparent ((within_closedAgainst tree leaf target).2.above h))

theorem Linked.node?_close_self {tree : Tree} (hlinked : tree.Linked) {leaf : Nat} {node : Node}
    (hnode : tree.node? leaf = some node) (target : Nat) :
    (tree.close leaf target).node? leaf = some (node.closedAgainst target) := by
  have hself : ¬ tree.Above leaf leaf := fun h => Nat.lt_irrefl _ (hlinked.above_lt h)
  rw [node?_close hself, node?_modify_self hnode]

theorem skeleton_close (tree : Tree) (leaf target : Nat) :
    (tree.close leaf target).skeleton =
      (tree.modify leaf (·.closedAgainst target)).skeleton := by
  rw [close_eq, skeleton_closeUpward]

theorem within_close (tree : Tree) (leaf target : Nat) :
    tree.Within (tree.close leaf target) ∧ (tree.close leaf target).Within tree := by
  have hmarked := within_closedAgainst tree leaf target
  have hskeleton := skeleton_close tree leaf target
  exact ⟨hmarked.1.trans (.of_skeleton hskeleton.symm),
    (Within.of_skeleton hskeleton).trans hmarked.2⟩

theorem exists_node?_close {tree : Tree} {leaf other : Nat} {before : Node} (target : Nat)
    (hne : other ≠ leaf) (hbefore : tree.node? other = some before) :
    ∃ after, (tree.close leaf target).node? other = some after ∧
      after.skeleton = before.skeleton ∧ (before.closed = true → after.closed = true) := by
  have hmarked : (tree.modify leaf (·.closedAgainst target)).node? other = some before := by
    rw [node?_modify_ne hne.symm, hbefore]
  obtain ⟨after, hafter, hsame⟩ :=
    exists_node?_of_skeleton (skeleton_close tree leaf target).symm hmarked
  refine ⟨after, hafter, hsame, ?_⟩
  intro hclosed
  rw [← isClosedAt_eq hafter, close_eq]
  exact isClosedAt_closeUpward ((isClosedAt_eq hmarked).trans hclosed)

/-- Closing a leaf adds no node and changes no link and no literal. -/
theorem exists_before_close {tree : Tree} {leaf target id : Nat} {after : Node}
    (hafter : (tree.close leaf target).node? id = some after) :
    ∃ before, tree.node? id = some before ∧ after.parent = before.parent ∧
      after.literal = before.literal ∧ after.children = before.children := by
  obtain ⟨before, hbefore, hparent, hliteral⟩ := (within_close tree leaf target).2 id after hafter
  obtain ⟨marked, hmarked, hsame⟩ :=
    exists_node?_of_skeleton (skeleton_close tree leaf target) hafter
  have hkept : marked.children = before.children := by
    rw [node?_modify, hbefore] at hmarked
    split at hmarked <;> cases hmarked <;> rfl
  exact ⟨before, hbefore, hparent.symm, hliteral.symm,
    (Node.skeleton_eq_iff.mp hsame).2.2.2.symm.trans hkept⟩

theorem target_close {tree : Tree} {leaf target id : Nat} {before after : Node}
    (hbefore : tree.node? id = some before)
    (hafter : (tree.close leaf target).node? id = some after) :
    after.target = if leaf = id then some target else before.target := by
  obtain ⟨marked, hmarked, hsame⟩ :=
    exists_node?_of_skeleton (skeleton_close tree leaf target) hafter
  rw [← (Node.skeleton_eq_iff.mp hsame).2.2.1]
  rw [node?_modify, hbefore] at hmarked
  by_cases hid : leaf = id
  · rw [if_pos hid] at hmarked ⊢
    cases hmarked
    rfl
  · rw [if_neg hid] at hmarked ⊢
    cases hmarked
    rfl

theorem size_close (tree : Tree) (leaf target : Nat) :
    (tree.close leaf target).size = tree.size := by
  rw [size_of_skeleton (skeleton_close tree leaf target), size_modify]

private theorem node?_foldl_skeleton (tree : Tree) (ids : List Nat) (other : Nat) :
    (ids.foldl (fun tree id => tree.modify id Node.skeleton) tree).node? other =
      if other ∈ ids then (tree.node? other).map Node.skeleton else tree.node? other := by
  induction ids generalizing tree with
  | nil => simp
  | cons id rest ih =>
      rw [List.foldl_cons, ih, node?_modify]
      by_cases hid : id = other
      · subst hid
        have hidempotent : Node.skeleton ∘ Node.skeleton = Node.skeleton := rfl
        by_cases hrest : id ∈ rest <;> simp [hrest, Option.map_map, hidempotent]
      · simp [hid, Ne.symm hid]

/-- Reopening a leaf opens everything above it. -/
theorem node?_reopen (tree : Tree) (leaf other : Nat) :
    (tree.reopen leaf).node? other =
      if other ∈ tree.ancestors leaf then
        ((tree.modify leaf Node.reopened).node? other).map Node.skeleton
      else (tree.modify leaf Node.reopened).node? other :=
  node?_foldl_skeleton (tree.modify leaf Node.reopened) (tree.ancestors leaf) other

/-- Opening a leaf again gives every node the look it had, or opens it, or opens it and
takes its target away. -/
theorem exists_before_reopen {tree : Tree} {leaf id : Nat} {after : Node}
    (hafter : (tree.reopen leaf).node? id = some after) :
    ∃ before, tree.node? id = some before ∧
      (after = before ∨ after = before.skeleton ∨ after = before.reopened) := by
  rw [node?_reopen, node?_modify] at hafter
  cases hbefore : tree.node? id with
  | none => simp [hbefore] at hafter
  | some before =>
      refine ⟨before, rfl, ?_⟩
      rw [hbefore] at hafter
      split at hafter
      · split at hafter
        · cases hafter
          exact .inr (.inr rfl)
        · cases hafter
          exact .inr (.inl rfl)
      · split at hafter
        · cases hafter
          exact .inr (.inr rfl)
        · cases hafter
          exact .inl rfl

theorem size_reopen (tree : Tree) (leaf : Nat) : (tree.reopen leaf).size = tree.size := by
  have hfold (ids : List Nat) (tree : Tree) :
      (ids.foldl (fun tree id => tree.modify id Node.skeleton) tree).size = tree.size := by
    induction ids generalizing tree with
    | nil => rfl
    | cons id rest ih => rw [List.foldl_cons, ih, size_modify]
  exact (hfold (tree.ancestors leaf) _).trans (size_modify tree leaf Node.reopened)

theorem within_reopen (tree : Tree) (leaf : Nat) : tree.Within (tree.reopen leaf) := by
  have hnodes (id : Nat) (after : Node) (hafter : (tree.reopen leaf).node? id = some after) :
      ∃ before, tree.node? id = some before ∧ after.parent = before.parent ∧
        after.literal = before.literal := by
    obtain ⟨before, hbefore, rfl | rfl | rfl⟩ := exists_before_reopen hafter
    · exact ⟨_, hbefore, rfl, rfl⟩
    · exact ⟨before, hbefore, rfl, rfl⟩
    · exact ⟨before, hbefore, rfl, rfl⟩
  intro id before hbefore
  exact exists_changed (size_reopen tree leaf) hnodes hbefore

@[simp] theorem size_extend (tree : Tree) (id : Nat) (literals : List Literal) :
    (tree.extend id literals).size = tree.size + literals.length := by
  simp [extend, size, modify]

theorem node?_extend_old {tree : Tree} {id other : Nat} {literals : List Literal}
    (hother : other < tree.size) :
    (tree.extend id literals).node? other =
      (tree.modify id fun node => { node with
        children := node.children ++ List.range' tree.size literals.length }).node? other := by
  simp only [extend, node?, modify]
  rw [List.getElem?_append_left (by simpa [size] using hother)]

theorem node?_extend_new {tree : Tree} {id index : Nat} {literals : List Literal} :
    (tree.extend id literals).node? (tree.size + index) =
      literals[index]?.map (Node.leaf id) := by
  simp only [extend, node?, modify, size]
  rw [List.getElem?_append_right (by simp)]
  simp

theorem openLeaf_extend {tree : Tree} {id index : Nat} {literals : List Literal}
    {literal : Literal} (hliteral : literals[index]? = some literal) :
    (tree.extend id literals).OpenLeaf (tree.size + index) (.leaf id literal) := by
  refine ⟨?_, rfl, rfl⟩
  rw [node?_extend_new, hliteral]
  rfl

/-- The new nodes are open leaves that carry the new literals. -/
theorem exists_openLeaf_extend {tree : Tree} {literals : List Literal} {child : Nat}
    (hchild : child ∈ List.range' tree.size literals.length) (id : Nat) :
    ∃ literal ∈ literals, (tree.extend id literals).OpenLeaf child (.leaf id literal) := by
  obtain ⟨hfirst, hlast⟩ := List.mem_range'_1.mp hchild
  obtain ⟨index, rfl⟩ := Nat.exists_eq_add_of_le hfirst
  have hindex : index < literals.length := by omega
  exact ⟨literals[index], List.getElem_mem hindex,
    openLeaf_extend (List.getElem?_eq_getElem hindex)⟩

theorem node?_extend_cases {tree : Tree} {id other : Nat} {literals : List Literal} {node : Node}
    (hnode : (tree.extend id literals).node? other = some node) :
    (∃ before, tree.node? other = some before ∧ other ≠ id ∧ node = before) ∨
    (∃ before, tree.node? id = some before ∧ other = id ∧ node = { before with
      children := before.children ++ List.range' tree.size literals.length }) ∨
    ∃ index literal, other = tree.size + index ∧ literals[index]? = some literal ∧
      node = Node.leaf id literal := by
  rcases Nat.lt_or_ge other tree.size with hlt | hge
  · rw [node?_extend_old hlt] at hnode
    by_cases hid : id = other
    · subst hid
      obtain ⟨before, hbefore⟩ := exists_node? hlt
      rw [node?_modify_self hbefore] at hnode
      exact .inr (.inl ⟨before, hbefore, rfl, (Option.some.inj hnode).symm⟩)
    · rw [node?_modify_ne hid] at hnode
      exact .inl ⟨node, hnode, Ne.symm hid, rfl⟩
  · obtain ⟨index, rfl⟩ := Nat.exists_eq_add_of_le hge
    rw [node?_extend_new] at hnode
    obtain ⟨literal, hliteral, rfl⟩ := Option.map_eq_some_iff.mp hnode
    exact .inr (.inr ⟨index, literal, rfl, hliteral, rfl⟩)

theorem exists_node?_extend {tree : Tree} {other : Nat} {before : Node}
    (hbefore : tree.node? other = some before) (id : Nat) (literals : List Literal) :
    ∃ after, (tree.extend id literals).node? other = some after ∧
      after.parent = before.parent ∧ after.literal = before.literal ∧
      after.closed = before.closed ∧ after.target = before.target ∧
      after.children = before.children ++
        if id = other then List.range' tree.size literals.length else [] := by
  rw [node?_extend_old (node?_eq_some_lt hbefore), node?_modify, hbefore]
  by_cases hid : id = other
  · simp [hid]
  · simp [hid]

theorem within_extend (tree : Tree) (id : Nat) (literals : List Literal) :
    tree.Within (tree.extend id literals) := by
  intro other before hbefore
  obtain ⟨after, hafter, hparent, hliteral, -⟩ := exists_node?_extend hbefore id literals
  exact ⟨after, hafter, hparent, hliteral⟩

theorem isClosedAt_extend {tree : Tree} {other : Nat} (hother : other < tree.size) (id : Nat)
    (literals : List Literal) :
    (tree.extend id literals).isClosedAt other = tree.isClosedAt other := by
  obtain ⟨before, hbefore⟩ := exists_node? hother
  obtain ⟨after, hafter, -, -, hclosed, -⟩ := exists_node?_extend hbefore id literals
  rw [isClosedAt_eq hafter, isClosedAt_eq hbefore, hclosed]

/-- Taking off the leaves that were just hung below a leaf gives back the tree. -/
theorem retract?_extend {tree : Tree} {id : Nat} {literals : List Literal} {before node : Node}
    (hbefore : tree.node? id = some before) (hleaf : before.children = [])
    (hnode : (tree.extend id literals).node? id = some node) :
    (tree.extend id literals).retract? id node = some tree := by
  have hchildren : node.children = List.range' tree.size literals.length := by
    rw [node?_extend_old (node?_eq_some_lt hbefore), node?_modify_self hbefore] at hnode
    cases hnode
    simp [hleaf]
  have hfirst : (tree.extend id literals).size - node.children.length = tree.size := by
    simp [hchildren]
  have hrange : node.children =
      List.range' tree.size ((tree.extend id literals).size - tree.size) := by
    simp [hchildren]
  simp only [retract?, hfirst]
  rw [if_pos hrange, Option.some_inj]
  ext1 other
  simp only [node?, List.getElem?_take]
  split
  · next hlt =>
      change ((tree.extend id literals).modify id _).node? other = tree.node? other
      rw [node?_modify, node?_extend_old hlt]
      by_cases hid : id = other
      · subst hid
        rw [if_pos rfl, node?_modify_self hbefore, hbefore]
        cases before
        simp_all
      · rw [if_neg hid, node?_modify_ne hid]
  · next hge =>
      exact (List.getElem?_eq_none (by simpa [size] using hge)).symm

end Tree

end Clausal.Tableau
