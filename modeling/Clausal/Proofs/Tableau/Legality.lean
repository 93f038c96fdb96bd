import Clausal.Proofs.Play
import Clausal.Proofs.Tableau.Sound
import Clausal.Tableau.Calculus

/-!
Which moves of the tableau calculus are accepted, and what an accepted move does.
The checks of a move are read off its definition once, here; everything that is
known of runs is derived from these equivalences.
-/

namespace Clausal.Tableau

namespace Tree

/-- The node has a child that was closed against it. -/
def ConnectedAt (tree : Tree) (id : Nat) (node : Node) : Prop :=
  ∃ child ∈ node.children, ∃ below, tree.node? child = some below ∧
    below.closed = true ∧ below.target = some id

/-- Every inner node below the root has a child that was closed against it. -/
def Connected (tree : Tree) : Prop :=
  ∀ id node, tree.node? id = some node → 0 < id → node.children ≠ [] →
    tree.ConnectedAt id node

theorem requireNode_eq_ok {tree : Tree} {id : Nat} {node : Node} :
    tree.requireNode id = .ok node ↔ tree.node? id = some node := by
  unfold requireNode
  cases tree.node? id <;> simp

theorem requireOpenLeaf_eq_ok {tree : Tree} {id : Nat} {node : Node} :
    tree.requireOpenLeaf id = .ok node ↔ tree.OpenLeaf id node := by
  simp only [requireOpenLeaf, bind_eq_ok, refuse_eq_ok, requireNode_eq_ok]
  constructor
  · rintro ⟨found, hnode, hleaf, hopen, hfound⟩
    cases hfound
    exact ⟨hnode, by simpa [Node.isLeaf] using hleaf, by simpa using hopen⟩
  · rintro ⟨hnode, hleaf, hopen⟩
    exact ⟨node, hnode, by simp [Node.isLeaf, hleaf], by simp [hopen], rfl⟩

theorem isConnectedAt_eq_true {tree : Tree} {id : Nat} {node : Node} :
    tree.isConnectedAt id node = true ↔ tree.ConnectedAt id node := by
  simp [isConnectedAt, ConnectedAt, Option.any_eq_true]

theorem unconnectedNode?_eq_none {tree : Tree} :
    tree.unconnectedNode? = none ↔ tree.Connected := by
  unfold unconnectedNode?
  rw [List.find?_eq_none]
  constructor
  · intro h id node hnode hpositive hinner
    have hsize := node?_eq_some_lt hnode
    have hrange : id ∈ List.range' 1 (tree.size - 1) :=
      List.mem_range'_1.mpr ⟨by omega, by omega⟩
    have hcheck := h id hrange
    rw [hnode] at hcheck
    simpa [Node.isLeaf, hinner, isConnectedAt_eq_true] using hcheck
  · intro h id hrange
    obtain ⟨hpositive, -⟩ := List.mem_range'_1.mp hrange
    cases hnode : tree.node? id with
    | none => simp
    | some node =>
        by_cases hinner : node.children = []
        · simp [Node.isLeaf, hinner]
        · have hconnected := isConnectedAt_eq_true.mpr (h id node hnode hpositive hinner)
          simp [hconnected]

end Tree

namespace State

theorem requireClause_eq_ok {state : State} {id : Nat} {clause : Clause} :
    state.requireClause id = .ok clause ↔ state.clauses.get? id = some clause := by
  unfold requireClause
  cases state.clauses.get? id <;> simp

theorem checkStrong_eq_ok {state : State} :
    state.checkStrong = .ok () ↔
      (state.rules.connectedness = .strong → state.tree.Connected) := by
  rw [← Tree.unconnectedNode?_eq_none]
  unfold checkStrong
  by_cases hstrong : state.rules.connectedness = .strong
  · rw [if_pos hstrong]
    cases state.tree.unconnectedNode? <;> simp [hstrong]
  · simp [hstrong]

theorem checkRegular_eq_ok {state : State} {leaf : Nat} {clause : Clause} :
    state.checkRegular leaf clause = .ok () ↔ (state.rules.regular = true →
      ∀ literal ∈ clause, state.tree.branchCarries leaf literal = false) := by
  unfold checkRegular
  by_cases hregular : state.rules.regular = true
  · rw [if_pos hregular]
    cases hfind : clause.literals.find? (state.tree.branchCarries leaf) with
    | none =>
        have hnone := List.find?_eq_none.mp hfind
        simpa [hregular, ← Clause.mem_literals] using hnone
    | some literal =>
        have hcarries := List.find?_some hfind
        have hmember := List.mem_of_find?_eq_some hfind
        simp only [reduceCtorEq, hregular, forall_const, false_iff]
        intro h
        rw [h literal hmember] at hcarries
        cases hcarries
  · simp [hregular]

theorem checkConnected_eq_ok {state : State} {leaf : Nat} {node : Node} {clause : Clause} :
    state.checkConnected leaf node clause = .ok () ↔
      (state.rules.connectedness ≠ .unrestricted → leaf ≠ 0 →
        node.literal.complement ∈ clause) := by
  have hany : clause.literals.any (·.complements node.literal) = true ↔
      node.literal.complement ∈ clause := by
    simp only [List.any_eq_true, Literal.complements_iff]
    constructor
    · rintro ⟨literal, hmember, heq⟩
      rw [heq, Literal.complement_complement]
      exact hmember
    · intro hmember
      exact ⟨_, hmember, (Literal.complement_complement _).symm⟩
  unfold checkConnected
  rw [← hany]
  split
  · next h =>
      obtain ⟨hconnected, hleaf, hnone⟩ := h
      simp only [reduceCtorEq, false_iff]
      intro hall
      rw [hall hconnected hleaf] at hnone
      cases hnone
  · next h => simpa using h

/-- The exact conditions of an expansion, and its effect. -/
theorem expand_eq_ok {state next : State} {leaf clauseId : Nat} :
    state.expand leaf clauseId = .ok next ↔ ∃ node clause,
      state.tree.OpenLeaf leaf node ∧ state.clauses.get? clauseId = some clause ∧
      (state.rules.connectedness = .strong → state.tree.Connected) ∧
      (state.rules.regular = true →
        ∀ literal ∈ clause, state.tree.branchCarries leaf literal = false) ∧
      (state.rules.connectedness ≠ .unrestricted → leaf ≠ 0 →
        node.literal.complement ∈ clause) ∧
      next = { state with
        tree := state.tree.extend leaf clause.literals
        history := state.history ++ [.expand leaf clauseId] } := by
  simp only [expand, bind_eq_ok, Tree.requireOpenLeaf_eq_ok, requireClause_eq_ok]
  constructor
  · rintro ⟨node, hopen, clause, hclause, ⟨⟩, hstrong, ⟨⟩, hregular, ⟨⟩, hconnected, hnext⟩
    exact ⟨node, clause, hopen, hclause, checkStrong_eq_ok.mp hstrong,
      checkRegular_eq_ok.mp hregular, checkConnected_eq_ok.mp hconnected,
      (Except.ok.inj hnext).symm⟩
  · rintro ⟨node, clause, hopen, hclause, hstrong, hregular, hconnected, rfl⟩
    exact ⟨node, hopen, clause, hclause, (), checkStrong_eq_ok.mpr hstrong, (),
      checkRegular_eq_ok.mpr hregular, (), checkConnected_eq_ok.mpr hconnected, rfl⟩

/-- The exact conditions of a closure in a linked tree, and its effect. -/
theorem close_eq_ok {state next : State} (hlinked : state.tree.Linked) {leaf target : Nat} :
    state.close leaf target = .ok next ↔
      (∃ node, state.tree.OpenLeaf leaf node) ∧ state.tree.Contradicts target leaf ∧
      next = { state with
        tree := state.tree.close leaf target
        history := state.history ++ [.close leaf target] } := by
  simp only [close, bind_eq_ok, refuse_eq_ok, Tree.requireOpenLeaf_eq_ok,
    Tree.requireNode_eq_ok]
  constructor
  · rintro ⟨node, hopen, above, habove, hroot, hancestor, hcomplement, hnext⟩
    have hpath : state.tree.Above target leaf :=
      hlinked.isAncestor_iff.mp (by simpa using hancestor)
    exact ⟨⟨node, hopen⟩, ⟨Nat.pos_of_ne_zero hroot, hpath, node, above, hopen.found, habove,
      by simpa using hcomplement⟩, (Except.ok.inj hnext).symm⟩
  · rintro ⟨⟨node, hopen⟩, ⟨hpositive, hpath, found, above, hfound, habove, hcomplement⟩, rfl⟩
    cases hopen.found.symm.trans hfound
    exact ⟨node, hopen, above, habove, Nat.ne_of_gt hpositive,
      by simp [hlinked.isAncestor_iff.mpr hpath], by simp [hcomplement], rfl⟩

/-- The exact conditions of an undo, and its effect. -/
theorem undo_eq_ok {state next : State} :
    state.undo = .ok next ↔ state.rules.backtracking = true ∧
      ∃ earlier last tree, state.history = earlier ++ [last] ∧
        takeBack state.tree last = .ok tree ∧
        next = { state with tree, history := earlier, usedUndo := true } := by
  simp only [undo, refuse_eq_ok, Bool.not_eq_true', Bool.not_eq_false]
  refine and_congr_right fun _ => ?_
  cases hlast : state.history.getLast? with
  | none =>
      have hempty := List.getLast?_eq_none_iff.mp hlast
      simp [hempty, throw, throwThe, MonadExceptOf.throw]
  | some last =>
      obtain ⟨earlier, hhistory⟩ := List.getLast?_eq_some_iff.mp hlast
      simp only [bind_eq_ok, hhistory, List.dropLast_concat]
      constructor
      · rintro ⟨tree, htree, hnext⟩
        exact ⟨earlier, last, tree, rfl, htree, (Except.ok.inj hnext).symm⟩
      · rintro ⟨other, found, tree, hsplit, htree, rfl⟩
        obtain ⟨rfl, hsame⟩ := List.append_inj' hsplit rfl
        cases hsame
        exact ⟨tree, htree, rfl⟩

end State

end Clausal.Tableau
