import Clausal.Proofs.Formula
import Clausal.Proofs.Tableau.Replay

/-!
Soundness of the tableau calculus. An assignment that satisfies the clauses makes
some child of every inner node true, so from the root of a sound tree it leads
along true literals down to a leaf. A closed leaf contradicts its own branch;
hence a closed tree leaves no satisfying assignment.
-/

namespace Clausal.Tableau

namespace Tree

variable {clauses : ClauseSet} {tree : Tree}

/-- The children of an inner node carry the literals of a clause, each at some
child. -/
theorem Shaped.exists_child (hshaped : tree.Shaped clauses) {id : Nat} {node : Node}
    (hnode : tree.node? id = some node) (hinner : node.children ≠ []) :
    ∃ clause ∈ clauses.clauses, ∀ literal ∈ clause, ∃ child ∈ node.children, ∃ below,
      tree.node? child = some below ∧ below.parent = some id ∧ below.literal = literal := by
  obtain ⟨clause, hclause, first, -, hliterals⟩ := hshaped.clause hnode hinner
  refine ⟨clause, hclause, ?_⟩
  intro literal hliteral
  have hmember : some literal ∈ node.children.map tree.literal? := by
    rw [hliterals]
    exact List.mem_map_of_mem hliteral
  obtain ⟨child, hchild, hfound⟩ := List.mem_map.mp hmember
  obtain ⟨below, hbelow, hcarried⟩ := Option.map_eq_some_iff.mp hfound
  have hparent := hshaped.child hnode hchild
  rw [parent?_eq hbelow] at hparent
  exact ⟨child, hchild, below, hbelow, hparent, hcarried⟩

theorem Linked.branchCarries_above (hlinked : tree.Linked) {upper lower : Nat} {node : Node}
    (hnode : tree.node? upper = some node) (hpositive : 0 < upper)
    (hlower : lower < tree.size) (habove : upper = lower ∨ tree.Above upper lower) :
    tree.branchCarries lower node.literal = true := by
  have hmember : upper ∈ tree.branch lower := (hlinked.mem_branch hlower).mpr ⟨hpositive, habove⟩
  rw [branchCarries, List.any_eq_true]
  exact ⟨upper, hmember, by simp [hnode, Node.carries]⟩

/-- Every assignment that satisfies the clauses makes a literal false on the branch
of every closed node. -/
theorem Sound.closed_branch_fails (hsound : tree.Sound clauses) {assignment : Assignment}
    (hholds : clauses.Holds assignment) {id : Nat} (hclosed : tree.isClosedAt id = true) :
    ∃ literal, tree.branchCarries id literal = true ∧ ¬ literal.Holds assignment := by
  obtain ⟨found, hfound, -⟩ := isClosedAt_eq_true.mp hclosed
  revert hclosed
  refine hsound.toLinked.induction_up (motive := fun id => tree.isClosedAt id = true →
    ∃ literal, tree.branchCarries id literal = true ∧ ¬ literal.Holds assignment)
    ?_ id (node?_eq_some_lt hfound)
  intro id node hnode ih hclosed
  have hid := node?_eq_some_lt hnode
  have hmark : node.closed = true := (isClosedAt_eq hnode).symm.trans hclosed
  by_cases hleaf : node.children = []
  · have htarget := (hsound.settled.leaf hnode hleaf).mp hmark
    obtain ⟨target, htarget⟩ := Option.isSome_iff_exists.mp htarget
    obtain ⟨-, hpositive, habove, found, above, hfound, hreached, hcomplement⟩ :=
      hsound.closure hnode htarget
    cases hnode.symm.trans hfound
    have hlt := hsound.toLinked.above_lt habove
    have hown := hsound.toLinked.branchCarries_above hnode (by omega) hid (.inl rfl)
    have hupper := hsound.toLinked.branchCarries_above hreached hpositive hid (.inr habove)
    rw [Literal.complements_iff.mp hcomplement] at hupper
    by_cases htrue : node.literal.Holds assignment
    · refine ⟨_, hupper, ?_⟩
      rw [Literal.holds_complement]
      exact not_not_intro htrue
    · exact ⟨_, hown, htrue⟩
  · obtain ⟨clause, hclause, hchildren⟩ := hsound.toShaped.exists_child hnode hleaf
    obtain ⟨literal, hliteral, htrue⟩ := hholds clause hclause
    obtain ⟨child, hchild, below, hbelow, hparent, rfl⟩ := hchildren literal hliteral
    have hbelowClosed := hsound.settled.down hnode hleaf hmark child hchild
    obtain ⟨failing, hcarried, hfalse⟩ := ih child hchild hbelowClosed
    refine ⟨failing, ?_, hfalse⟩
    rcases (hsound.toLinked.branchCarries_of_parent hbelow hparent failing).mp hcarried with
      rfl | hcarried
    · exact absurd htrue hfalse
    · exact hcarried

theorem Sound.unsatisfiable_of_isClosed (hsound : tree.Sound clauses)
    (hclosed : tree.isClosed = true) : clauses.Unsatisfiable := by
  intro assignment hholds
  obtain ⟨literal, hcarried, -⟩ := hsound.closed_branch_fails hholds hclosed
  rw [hsound.toLinked.branchCarries_zero] at hcarried
  cases hcarried

end Tree

theorem State.verdict_closed {state : State} :
    state.verdict.closed = true ↔ state.tree.isClosed = true := by
  unfold verdict
  cases state.tree.isClosed <;> cases state.usedUndo <;> simp

/-- Soundness: whatever moves were made and undone, a proof that is found closed
refutes the clauses of its formula. -/
theorem closed_tableau_refutes {alphabet : Alphabet} {formula : String} {rules : Rules}
    {clauses : ClauseSet} {first final : State} {moves : List Move} {result : Verdict}
    (hformula : Formula.parse alphabet formula = .ok clauses)
    (hparse : Calculus.parse alphabet formula rules = .ok first)
    (hplay : Calculus.play first moves = .ok final)
    (hcheck : Calculus.checkClose final = .ok result) (hclosed : result.closed = true) :
    clauses.Unsatisfiable := by
  obtain ⟨bare, hrun, rfl⟩ := Calculus.rehearse_of_play hformula hparse hplay
  have hverdict : bare.verdict = result := Calculus.verdict_of_checkClose hcheck
  have hsound := State.sound_of_rehearse hrun
  apply hsound.unsatisfiable_of_isClosed
  rw [← State.verdict_closed, hverdict, hclosed]

/-- A proof under the strictest rules, with an expansion that is undone and made
again. -/
theorem closed_tableau_refutes_deniedDisjunction :
    ∃ first final result,
      Formula.parse .identifier "a,b;!a;!b" = .ok Formula.deniedDisjunction ∧
      Calculus.parse .identifier "a,b;!a;!b" (⟨.strong, true, true⟩ : Rules) = .ok first ∧
      Calculus.play first [.expand 0 0, .expand 1 1, .undo, .expand 1 1, .close 3 1,
        .expand 2 2, .close 4 2] = .ok (final : State) ∧
      Calculus.checkClose final = .ok result ∧ result.closed = true ∧
      Formula.deniedDisjunction.Unsatisfiable := by
  have hformula := Formula.parse_deniedDisjunction
  have hparse : Calculus.parse .identifier "a,b;!a;!b" (⟨.strong, true, true⟩ : Rules) =
      .ok (Calculus.reseal (State.start Formula.deniedDisjunction "a,b;!a;!b"
        ⟨.strong, true, true⟩)) := Calculus.parse_eq_ok.mpr ⟨_, hformula, rfl⟩
  obtain ⟨final, hrun, hsound, hclosed⟩ : ∃ final,
      Calculus.rehearse (State.start Formula.deniedDisjunction "a,b;!a;!b"
        ⟨.strong, true, true⟩) [.expand 0 0, .expand 1 1, .undo, .expand 1 1, .close 3 1,
        .expand 2 2, .close 4 2] = .ok final ∧ Calculus.defect? final = none ∧
      (Calculus.verdict final).closed = true := ⟨_, rfl, rfl, rfl⟩
  obtain ⟨hplay, hcheck⟩ := Calculus.play_of_rehearse hrun hsound
  exact ⟨_, _, _, hformula, hparse, hplay, hcheck, hclosed,
    closed_tableau_refutes hformula hparse hplay hcheck hclosed⟩

end Clausal.Tableau
