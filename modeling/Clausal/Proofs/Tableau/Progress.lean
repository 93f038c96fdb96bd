import Clausal.Proofs.Tableau.Replay

/-!
Working on one leaf. An expansion or a closure at a leaf leaves every other open
leaf as it is, so the branches of a tree can be settled one after the other, in
any order. The connectedness that strong rules ask for is lost only at the node
that was just expanded, and comes back when one of its children is closed
against it.
-/

namespace Clausal.Tableau

namespace Tree

variable {clauses : ClauseSet} {tree : Tree}

/-- The second tree results from the first by work at the touched leaves and below
them. -/
structure Continues (before after : Tree) (touched : List Nat) : Prop where
  within : before.Within after
  closed : ∀ {id node}, before.node? id = some node → node.closed = true →
    ∃ later, after.node? id = some later ∧ later.closed = true ∧ later.target = node.target
  inner : ∀ {id node}, before.node? id = some node → node.children ≠ [] →
    ∃ later, after.node? id = some later ∧ later.children = node.children
  untouched : ∀ {id node}, before.OpenLeaf id node → id ∉ touched → after.OpenLeaf id node

namespace Continues

variable {first second third : Tree} {touched later : List Nat}

theorem refl (tree : Tree) : tree.Continues tree [] :=
  ⟨.refl tree, fun hnode hclosed => ⟨_, hnode, hclosed, rfl⟩, fun hnode _ => ⟨_, hnode, rfl⟩,
    fun hopen _ => hopen⟩

theorem trans (hfirst : first.Continues second touched)
    (hsecond : second.Continues third later) : first.Continues third (touched ++ later) := by
  refine ⟨hfirst.within.trans hsecond.within, ?_, ?_, ?_⟩
  · intro id node hnode hclosed
    obtain ⟨middle, hmiddle, hmarked, htarget⟩ := hfirst.closed hnode hclosed
    obtain ⟨final, hfinal, hstill, hsame⟩ := hsecond.closed hmiddle hmarked
    exact ⟨final, hfinal, hstill, hsame.trans htarget⟩
  · intro id node hnode hinner
    obtain ⟨middle, hmiddle, hchildren⟩ := hfirst.inner hnode hinner
    obtain ⟨final, hfinal, hsame⟩ := hsecond.inner hmiddle (hchildren ▸ hinner)
    exact ⟨final, hfinal, hsame.trans hchildren⟩
  · intro id node hopen hid
    rw [List.mem_append, not_or] at hid
    exact hsecond.untouched (hfirst.untouched hopen hid.1) hid.2

/-- Nodes that came later need not be named. -/
theorem mono (h : first.Continues second touched)
    (htouched : ∀ id ∈ touched, id < first.size → id ∈ later) :
    first.Continues second later := by
  refine ⟨h.within, h.closed, h.inner, ?_⟩
  intro id node hopen hid
  exact h.untouched hopen fun hmember =>
    hid (htouched id hmember (node?_eq_some_lt hopen.found))

theorem isClosedAt (h : first.Continues second touched) {id : Nat}
    (hclosed : first.isClosedAt id = true) : second.isClosedAt id = true := by
  obtain ⟨node, hnode, hmark⟩ := isClosedAt_eq_true.mp hclosed
  obtain ⟨after, hafter, hstill, -⟩ := h.closed hnode hmark
  exact isClosedAt_eq_true.mpr ⟨after, hafter, hstill⟩

theorem connectedAt (h : first.Continues second touched) {id : Nat} {node after : Node}
    (hconnected : first.ConnectedAt id node) (hchildren : after.children = node.children) :
    second.ConnectedAt id after := by
  obtain ⟨child, hchild, below, hbelow, hclosed, htarget⟩ := hconnected
  obtain ⟨reached, hreached, hstill, hsame⟩ := h.closed hbelow hclosed
  exact ⟨child, hchildren ▸ hchild, reached, hreached, hstill, hsame.trans htarget⟩

end Continues

theorem OpenLeaf.continues_extend {leaf : Nat} {node : Node} (hopen : tree.OpenLeaf leaf node)
    (literals : List Literal) : tree.Continues (tree.extend leaf literals) [leaf] := by
  refine ⟨within_extend tree leaf literals, ?_, ?_, ?_⟩
  · intro id before hbefore hclosed
    obtain ⟨after, hafter, -, -, hmark, htarget, -⟩ := exists_node?_extend hbefore leaf literals
    exact ⟨after, hafter, hmark.trans hclosed, htarget⟩
  · intro id before hbefore hinner
    have hother : leaf ≠ id := by
      rintro rfl
      cases hopen.found.symm.trans hbefore
      exact hinner hopen.leaf
    obtain ⟨after, hafter, -, -, -, -, hchildren⟩ := exists_node?_extend hbefore leaf literals
    exact ⟨after, hafter, by simp [hchildren, hother]⟩
  · intro id before hbefore hid
    have hother : leaf ≠ id := fun h => hid (by simp [h])
    refine ⟨?_, hbefore.leaf, hbefore.mark⟩
    rw [node?_extend_old (node?_eq_some_lt hbefore.found), node?_modify_ne hother]
    exact hbefore.found

theorem Linked.parent?_ne_of_leaf (hlinked : tree.Linked) {leaf : Nat} {node : Node}
    (hnode : tree.node? leaf = some node) (hleaf : node.children = []) (child : Nat) :
    tree.parent? child ≠ some leaf := by
  intro hparent
  obtain ⟨above, habove, hmember⟩ := hlinked.exists_listing hparent
  cases hnode.symm.trans habove
  rw [hleaf] at hmember
  cases hmember

theorem Linked.not_above_leaf (hlinked : tree.Linked) {leaf lower : Nat} {node : Node}
    (hnode : tree.node? leaf = some node) (hleaf : node.children = []) :
    ¬ tree.Above leaf lower := by
  have hlink := hlinked.parent?_ne_of_leaf hnode hleaf
  intro habove
  cases habove with
  | single hparent => exact hlink _ hparent
  | tail _ hparent => exact hlink _ hparent

theorem OpenLeaf.continues_close {leaf : Nat} {node : Node} (hopen : tree.OpenLeaf leaf node)
    (hlinked : tree.Linked) (target : Nat) :
    tree.Continues (tree.close leaf target) [leaf] := by
  refine ⟨(within_close tree leaf target).1, ?_, ?_, ?_⟩
  · intro id before hbefore hclosed
    have hother : id ≠ leaf := by
      rintro rfl
      cases hopen.found.symm.trans hbefore
      cases hopen.mark.symm.trans hclosed
    obtain ⟨after, hafter, hsame, hmark⟩ := exists_node?_close target hother hbefore
    exact ⟨after, hafter, hmark hclosed, (Node.skeleton_eq_iff.mp hsame).2.2.1⟩
  · intro id before hbefore hinner
    have hother : id ≠ leaf := by
      rintro rfl
      cases hopen.found.symm.trans hbefore
      exact hinner hopen.leaf
    obtain ⟨after, hafter, hsame, -⟩ := exists_node?_close target hother hbefore
    exact ⟨after, hafter, (Node.skeleton_eq_iff.mp hsame).2.2.2⟩
  · intro id before hbefore hid
    have hother : leaf ≠ id := fun h => hid (by simp [h])
    have habove : ¬ tree.Above id leaf := hlinked.not_above_leaf hbefore.found hbefore.leaf
    refine ⟨?_, hbefore.leaf, hbefore.mark⟩
    rw [node?_close habove, node?_modify_ne hother]
    exact hbefore.found

/-- The expanded leaf is closed as soon as all its children are. -/
theorem OpenLeaf.isClosedAt_of_extend {leaf : Nat} {node : Node} {literals : List Literal}
    {later : Tree} {touched : List Nat} (hopen : tree.OpenLeaf leaf node)
    (hgrown : (tree.extend leaf literals).Continues later touched) (hsound : later.Sound clauses)
    (hnonempty : literals ≠ [])
    (hall : ∀ child ∈ List.range' tree.size literals.length, later.isClosedAt child = true) :
    later.isClosedAt leaf = true := by
  obtain ⟨inner, hinner, -, -, -, -, hlisted⟩ := exists_node?_extend hopen.found leaf literals
  rw [hopen.leaf, if_pos rfl, List.nil_append] at hlisted
  have hchildren : inner.children ≠ [] := by
    rw [hlisted, Ne, List.range'_eq_nil_iff, List.length_eq_zero_iff]
    exact hnonempty
  obtain ⟨after, hafter, hsame⟩ := hgrown.inner hinner hchildren
  rw [isClosedAt_eq hafter]
  apply hsound.settled.up hafter (hsame ▸ hchildren) (by simp)
  rw [hsame, hlisted]
  exact hall

/-- Every inner node below the root is connected, but the hole need not be. -/
def ConnectedExcept (tree : Tree) (hole : Nat) : Prop :=
  ∀ id node, tree.node? id = some node → 0 < id → id ≠ hole → node.children ≠ [] →
    tree.ConnectedAt id node

theorem ConnectedExcept.fill {hole : Nat} (h : tree.ConnectedExcept hole)
    (hhole : 0 < hole → ∀ node, tree.node? hole = some node → tree.ConnectedAt hole node) :
    tree.Connected := by
  intro id node hnode hpositive hinner
  by_cases hid : id = hole
  · subst hid
    exact hhole hpositive node hnode
  · exact h id node hnode hpositive hid hinner

theorem Connected.extend {leaf : Nat} {node : Node} (hconnected : tree.Connected)
    (hopen : tree.OpenLeaf leaf node) (literals : List Literal) :
    (tree.extend leaf literals).ConnectedExcept leaf := by
  intro id after hafter hpositive hid hinner
  rcases node?_extend_cases hafter with
    ⟨before, hbefore, -, rfl⟩ | ⟨_, -, rfl, -⟩ | ⟨_, _, -, -, rfl⟩
  · exact (hopen.continues_extend literals).connectedAt
      (hconnected id after hbefore hpositive hinner) rfl
  · exact absurd rfl hid
  · exact absurd rfl hinner

theorem ConnectedExcept.close {leaf target hole : Nat} {node : Node}
    (h : tree.ConnectedExcept hole) (hlinked : tree.Linked)
    (hopen : tree.OpenLeaf leaf node) : (tree.close leaf target).ConnectedExcept hole := by
  intro id after hafter hpositive hid hinner
  obtain ⟨before, hbefore, -, -, hchildren⟩ := exists_before_close hafter
  exact (hopen.continues_close hlinked target).connectedAt
    (h id before hbefore hpositive hid (hchildren ▸ hinner)) hchildren

theorem Connected.close {leaf target : Nat} {node : Node} (hconnected : tree.Connected)
    (hlinked : tree.Linked) (hopen : tree.OpenLeaf leaf node) :
    (tree.close leaf target).Connected := by
  have hexcept : tree.ConnectedExcept 0 := fun id node hnode hpositive _ =>
    hconnected id node hnode hpositive
  exact (hexcept.close hlinked hopen).fill fun hzero => absurd hzero (Nat.lt_irrefl 0)

/-- Closing a new child against the node that was expanded makes up for the
expansion. -/
theorem Connected.extend_close {leaf index : Nat} {node : Node} {literals : List Literal}
    {literal : Literal} (hconnected : tree.Connected) (hlinked : tree.Linked)
    (hopen : tree.OpenLeaf leaf node) (hliteral : literals[index]? = some literal) :
    ((tree.extend leaf literals).close (tree.size + index) leaf).Connected := by
  have hgrown := hlinked.extend hopen.found literals
  have hchild : (tree.extend leaf literals).OpenLeaf (tree.size + index) (.leaf leaf literal) :=
    openLeaf_extend hliteral
  have hindex := (List.getElem?_eq_some_iff.mp hliteral).1
  refine ((hconnected.extend hopen literals).close hgrown hchild).fill ?_
  intro _ after hafter
  refine ⟨tree.size + index, ?_, _, hgrown.node?_close_self hchild.found _, rfl, rfl⟩
  obtain ⟨inner, hinner, -, -, -, -, hchildren⟩ := exists_node?_extend hopen.found leaf literals
  have hmember : tree.size + index ∈ inner.children := by
    rw [hchildren, if_pos rfl, List.mem_append]
    exact .inr (List.mem_range'_1.mpr ⟨by omega, by omega⟩)
  obtain ⟨later, hlater, hsame⟩ :=
    (hchild.continues_close hgrown leaf).inner hinner (List.ne_nil_of_mem hmember)
  cases hafter.symm.trans hlater
  rw [hsame]
  exact hmember

end Tree

namespace State

open Calculus

/-- The second state is reached from the first by expansions and closures at the
touched leaves and below them. -/
structure Advances (state next : State) (touched : List Nat) : Prop where
  run : ∃ moves, .undo ∉ moves ∧ rehearse state moves = .ok next
  clauses_eq : next.clauses = state.clauses
  rules_eq : next.rules = state.rules
  tree : state.tree.Continues next.tree touched

namespace Advances

variable {first second third : State} {touched later : List Nat}

theorem refl (state : State) : state.Advances state [] :=
  ⟨⟨[], List.not_mem_nil, rfl⟩, rfl, rfl, .refl _⟩

theorem trans (hfirst : first.Advances second touched)
    (hsecond : second.Advances third later) : first.Advances third (touched ++ later) := by
  obtain ⟨moves, hmoves, hrun⟩ := hfirst.run
  obtain ⟨others, hothers, hrest⟩ := hsecond.run
  refine ⟨⟨moves ++ others, ?_, rehearse_append_eq_ok.mpr ⟨_, hrun, hrest⟩⟩,
    hsecond.clauses_eq.trans hfirst.clauses_eq, hsecond.rules_eq.trans hfirst.rules_eq,
    hfirst.tree.trans hsecond.tree⟩
  rw [List.mem_append, not_or]
  exact ⟨hmoves, hothers⟩

theorem mono (h : first.Advances second touched)
    (htouched : ∀ id ∈ touched, id < first.tree.size → id ∈ later) :
    first.Advances second later :=
  ⟨h.run, h.clauses_eq, h.rules_eq, h.tree.mono htouched⟩

theorem of_step {move : Move} (hsound : first.tree.Sound first.clauses) (hmove : move ≠ .undo)
    (hstep : first.step move = .ok second) (htree : first.tree.Continues second.tree touched) :
    first.Advances second touched := by
  have hadvance : advance first move = .ok second :=
    advance_eq_ok.mpr ⟨defect?_eq_none.mpr hsound.toLinked, hstep⟩
  have hforward := forward_of_step hsound hmove hstep
  refine ⟨⟨[move], ?_, rehearse_cons_eq_ok.mpr ⟨_, hadvance, rfl⟩⟩, hforward.clauses_eq,
    hforward.rules_eq, htree⟩
  rw [List.mem_singleton]
  exact hmove.symm

end Advances

/-- A state in which every rule about connectedness lets the next expansion pass. -/
structure Ready (state : State) : Prop where
  sound : state.tree.Sound state.clauses
  connected : state.tree.Connected

variable {state : State} {leaf : Nat} {node : Node}

theorem exists_expand (hsound : state.tree.Sound state.clauses)
    (hopen : state.tree.OpenLeaf leaf node) {clause : Clause}
    (hclause : clause ∈ state.clauses.clauses)
    (hstrong : state.rules.connectedness = .strong → state.tree.Connected)
    (hregular : state.rules.regular = true →
      ∀ literal ∈ clause, state.tree.branchCarries leaf literal = false)
    (hconnected : state.rules.connectedness ≠ .unrestricted → leaf ≠ 0 →
      node.literal.complement ∈ clause) :
    ∃ next, state.Advances next [leaf] ∧ next.tree = state.tree.extend leaf clause.literals ∧
      next.tree.Sound next.clauses := by
  obtain ⟨clauseId, hfound⟩ := List.getElem?_of_mem hclause
  have hstep : state.step (.expand leaf clauseId) = .ok { state with
      tree := state.tree.extend leaf clause.literals
      history := state.history ++ [.expand leaf clauseId] } :=
    expand_eq_ok.mpr ⟨node, clause, hopen, hfound, hstrong, hregular, hconnected, rfl⟩
  exact ⟨_, .of_step hsound (by simp) hstep (hopen.continues_extend _), rfl,
    hsound.extend hopen hclause⟩

theorem exists_close (hsound : state.tree.Sound state.clauses)
    (hopen : state.tree.OpenLeaf leaf node) {target : Nat}
    (htarget : state.tree.Contradicts target leaf) :
    ∃ next, state.Advances next [leaf] ∧ next.tree = state.tree.close leaf target ∧
      next.tree.Sound next.clauses ∧ next.tree.isClosedAt leaf = true := by
  have hstep : state.step (.close leaf target) = .ok { state with
      tree := state.tree.close leaf target
      history := state.history ++ [.close leaf target] } :=
    (close_eq_ok hsound.toLinked).mpr ⟨⟨node, hopen⟩, htarget, rfl⟩
  exact ⟨_, .of_step hsound (by simp) hstep (hopen.continues_close hsound.toLinked target), rfl,
    hsound.close hopen htarget, Tree.isClosedAt_eq_true.mpr
      ⟨_, hsound.toLinked.node?_close_self hopen.found target, rfl⟩⟩

theorem Ready.close (hready : state.Ready) (hopen : state.tree.OpenLeaf leaf node)
    {target : Nat} (htarget : state.tree.Contradicts target leaf) :
    ∃ next, state.Advances next [leaf] ∧ next.Ready ∧ next.tree.isClosedAt leaf = true := by
  obtain ⟨next, hadvances, htree, hsound, hclosed⟩ := exists_close hready.sound hopen htarget
  refine ⟨next, hadvances, ⟨hsound, ?_⟩, hclosed⟩
  rw [htree]
  exact hready.connected.close hready.sound.toLinked hopen

/-- A clause that is fresh on the branch and holds the complement of the leaf can be
hung below it, whatever the rules are. Below the root, the child that carries the
complement is closed at once, which leaves the tree connected. -/
theorem Ready.expand (hready : state.Ready) (hopen : state.tree.OpenLeaf leaf node)
    {clause : Clause} (hclause : clause ∈ state.clauses.clauses)
    (hfresh : ∀ literal ∈ clause, state.tree.branchCarries leaf literal = false)
    (hlink : leaf ≠ 0 → node.literal.complement ∈ clause) :
    ∃ next touched, state.Advances next [leaf] ∧ next.Ready ∧
      (state.tree.extend leaf clause.literals).Continues next.tree touched ∧
      ∀ id ∈ touched, next.tree.isClosedAt id = true := by
  obtain ⟨grown, hexpanded, hgrown, hsound⟩ :=
    exists_expand hready.sound hopen hclause (fun _ => hready.connected) (fun _ => hfresh)
      (fun _ => hlink)
  rw [← hgrown]
  rcases Nat.eq_zero_or_pos leaf with rfl | hpositive
  · have hconnected : grown.tree.Connected := by
      rw [hgrown]
      exact (hready.connected.extend hopen _).fill fun hzero => absurd hzero (Nat.lt_irrefl 0)
    exact ⟨grown, [], hexpanded, ⟨hsound, hconnected⟩, .refl _, by simp⟩
  · obtain ⟨index, hindex⟩ := List.getElem?_of_mem (hlink (Nat.ne_of_gt hpositive))
    have hchild : grown.tree.OpenLeaf (state.tree.size + index)
        (.leaf leaf node.literal.complement) := by
      rw [hgrown]
      exact Tree.openLeaf_extend hindex
    have htarget : grown.tree.Contradicts leaf (state.tree.size + index) := by
      obtain ⟨above, habove, -, hliteral⟩ := hexpanded.tree.within leaf node hopen.found
      refine ⟨hpositive, .single (Tree.parent?_eq hchild.found), _, above, hchild.found,
        habove, ?_⟩
      rw [Node.complements, Literal.complements_iff, hliteral]
      exact (Literal.complement_complement _).symm
    obtain ⟨next, hadvances, htree, hnext, hclosed⟩ := exists_close hsound hchild htarget
    refine ⟨next, [state.tree.size + index], ?_, ⟨hnext, ?_⟩, hadvances.tree, ?_⟩
    · apply (hexpanded.trans hadvances).mono
      intro id hid hlt
      simp only [List.mem_append, List.mem_singleton] at hid
      rcases hid with rfl | rfl
      · exact List.mem_singleton_self _
      · omega
    · rw [htree, hgrown]
      exact hready.connected.extend_close hready.sound.toLinked hopen hindex
    · intro id hid
      rw [List.mem_singleton.mp hid]
      exact hclosed

end State

end Clausal.Tableau
