import Clausal.Proofs.Formula
import Clausal.Proofs.Tableau.Replay

/-!
The rules of the tableau calculus, said of the tree. The checks of a move return early,
scan all nodes and walk up branches. On a tree without defects, forged or not, they come
to this: an open leaf may be expanded by a clause if strong connectedness holds
everywhere, regularity finds none of the literals on the path to the root and the clause
answers the leaf; it may be closed against an ancestor below the root that spells its
name with the other polarity. Whatever else is tried is an illegal move and nothing
worse.
-/

namespace Clausal.Tableau

namespace Tree

/-- The node is on the way from the lower one up to the root, without the root. -/
def OnPath (tree : Tree) (id lower : Nat) : Prop :=
  0 < id ∧ (id = lower ∨ tree.Above id lower)

/-- The leaf may be closed against the target. -/
structure MayClose (tree : Tree) (leaf target : Nat) (node above : Node) : Prop where
  openLeaf : tree.OpenLeaf leaf node
  found : tree.node? target = some above
  belowRoot : target ≠ 0
  ancestor : tree.Above target leaf
  spelling : above.literal.name = node.literal.name
  polarity : above.literal.negated ≠ node.literal.negated

variable {tree : Tree}

theorem Linked.branchCarries_eq_false (hlinked : tree.Linked) {leaf : Nat}
    (hleaf : leaf < tree.size) {literal : Literal} :
    tree.branchCarries leaf literal = false ↔
      ∀ id, tree.OnPath id leaf → tree.literal? id ≠ some literal := by
  rw [branchCarries, List.any_eq_false]
  refine forall_congr' fun id => ?_
  rw [hlinked.mem_branch hleaf]
  refine imp_congr_right fun _ => ?_
  unfold literal?
  cases tree.node? id <;> simp [Node.carries]

theorem exists_mayClose_iff {leaf target : Nat} :
    (∃ node above, tree.MayClose leaf target node above) ↔
      (∃ node, tree.OpenLeaf leaf node) ∧ tree.Contradicts target leaf := by
  constructor
  · rintro ⟨node, above, h⟩
    have hcomplement : node.complements above = true := by
      simp [Node.complements, Literal.complements, h.spelling, h.polarity.symm]
    exact ⟨⟨node, h.openLeaf⟩, Nat.pos_of_ne_zero h.belowRoot, h.ancestor, node, above,
      h.openLeaf.found, h.found, hcomplement⟩
  · rintro ⟨⟨node, hopen⟩, hpositive, hpath, found, above, hfound, habove, hcomplement⟩
    cases hopen.found.symm.trans hfound
    have hliteral := Literal.complements_iff.mp hcomplement
    refine ⟨node, above, hopen, habove, Nat.ne_of_gt hpositive, hpath, ?_, ?_⟩
    · rw [hliteral, Literal.name_complement]
    · simp [hliteral, Literal.complement]

end Tree

namespace State

open Calculus

/-- The leaf may be expanded by the clause. -/
structure MayExpand (state : State) (leaf : Nat) (node : Node) (clause : Clause) : Prop where
  openLeaf : state.tree.OpenLeaf leaf node
  connected : state.rules.connectedness = .strong → state.tree.Connected
  fresh : state.rules.regular = true → ∀ literal ∈ clause, ∀ id, state.tree.OnPath id leaf →
    state.tree.literal? id ≠ some literal
  answered : state.rules.connectedness ≠ .unrestricted →
    leaf = 0 ∨ node.literal.complement ∈ clause

theorem expand_accepted_iff {state : State} (hlinked : state.tree.Linked)
    {leaf clauseId : Nat} :
    (∃ next, state.expand leaf clauseId = .ok next) ↔ ∃ node clause,
      state.clauses.get? clauseId = some clause ∧ state.MayExpand leaf node clause := by
  simp only [expand_eq_ok]
  constructor
  · rintro ⟨next, node, clause, hopen, hclause, hstrong, hregular, hlink, -⟩
    have hleaf := Tree.node?_eq_some_lt hopen.found
    refine ⟨node, clause, hclause, hopen, hstrong, ?_, ?_⟩
    · intro hrule literal hliteral
      exact (hlinked.branchCarries_eq_false hleaf).mp (hregular hrule literal hliteral)
    · intro hrule
      exact Decidable.or_iff_not_imp_left.mpr (hlink hrule)
  · rintro ⟨node, clause, hclause, h⟩
    have hleaf := Tree.node?_eq_some_lt h.openLeaf.found
    refine ⟨_, node, clause, h.openLeaf, hclause, h.connected, ?_, ?_, rfl⟩
    · intro hrule literal hliteral
      exact (hlinked.branchCarries_eq_false hleaf).mpr (h.fresh hrule literal hliteral)
    · intro hrule
      exact Decidable.or_iff_not_imp_left.mp (h.answered hrule)

theorem close_accepted_iff {state : State} (hlinked : state.tree.Linked) {leaf target : Nat} :
    (∃ next, state.close leaf target = .ok next) ↔
      ∃ node above, state.tree.MayClose leaf target node above := by
  rw [Tree.exists_mayClose_iff]
  simp only [close_eq_ok hlinked]
  exact ⟨fun ⟨_, hopen, htarget, _⟩ => ⟨hopen, htarget⟩,
    fun ⟨hopen, htarget⟩ => ⟨_, hopen, htarget, rfl⟩⟩

end State

/-- The exact rules: in every accepted state, whether it was played or forged, an
expansion and a closure are accepted if and only if the tree admits them, and otherwise
refused as illegal moves. -/
theorem rules_exact {state : State} (haccept : Calculus.accept state = .ok ()) :
    (∀ leaf clauseId, (∃ next, Calculus.applyMove state (.expand leaf clauseId) = .ok next) ↔
      ∃ node clause, state.clauses.get? clauseId = some clause ∧
        state.MayExpand leaf node clause) ∧
    (∀ leaf target, (∃ next, Calculus.applyMove state (.close leaf target) = .ok next) ↔
      ∃ node above, state.tree.MayClose leaf target node above) ∧
    ∀ move, (¬ ∃ next, Calculus.applyMove state move = .ok next) →
      ∃ error, Calculus.applyMove state move = .error error ∧ error.kind = "IllegalMove" := by
  have hlinked := (State.accept_eq_ok.mp haccept).2
  refine ⟨?_, ?_, ?_⟩
  · intro leaf clauseId
    exact (Calculus.exists_applyMove_iff haccept).trans (State.expand_accepted_iff hlinked)
  · intro leaf target
    exact (Calculus.exists_applyMove_iff haccept).trans (State.close_accepted_iff hlinked)
  · intro move hrefused
    cases hmove : Calculus.applyMove state move with
    | ok next => exact absurd ⟨next, hmove⟩ hrefused
    | error error =>
        obtain ⟨cause, -, rfl⟩ := (Calculus.applyMove_eq_error haccept).mp hmove
        exact ⟨_, rfl, rfl⟩

/-- Under the strictest rules a new leaf may be closed against the node it was hung below,
and before that no other leaf may be expanded. -/
theorem rules_exact_deniedDisjunction :
    ∃ (first state : State),
      Calculus.parse .identifier "a,b;!a;!b" (⟨.strong, true, true⟩ : Rules) = .ok first ∧
      Calculus.play first [.expand 0 0, .expand 1 1] = .ok state ∧
      Calculus.accept state = .ok () ∧
      (∃ node above, state.tree.MayClose 3 1 node above) ∧
      (¬ ∃ node clause, state.clauses.get? 2 = some clause ∧ state.MayExpand 2 node clause) ∧
      ∃ error, Calculus.applyMove state (.expand 2 2) = .error error ∧
        error.kind = "IllegalMove" := by
  have hparse := State.parse_of_formula Formula.parse_deniedDisjunction ⟨.strong, true, true⟩
  obtain ⟨state, next, hrun, hsound, hclose, hexpand⟩ : ∃ state next : State,
      Calculus.rehearse (State.start Formula.deniedDisjunction "a,b;!a;!b"
        ⟨.strong, true, true⟩) [.expand 0 0, .expand 1 1] = .ok state ∧
      Calculus.checkStructure state = .ok () ∧
      Calculus.advance state (.close 3 1) = .ok next ∧
      Calculus.advance state (.expand 2 2) = .error (.illegal (.unconnectedNode 1)) :=
    ⟨_, _, rfl, rfl, rfl, rfl⟩
  have haccept : Calculus.accept (Calculus.reseal state) = .ok () :=
    (Calculus.accept_reseal state).trans hsound
  have hclosed : Calculus.applyMove (Calculus.reseal state) (.close 3 1) =
      .ok (Calculus.reseal next) := Calculus.applyMove_reseal_eq_ok.mpr ⟨next, hclose, rfl⟩
  have hrefused : ¬ ∃ next, Calculus.applyMove (Calculus.reseal state) (.expand 2 2) =
      .ok next := by
    rw [Calculus.applyMove_reseal, hexpand]
    rintro ⟨_, hnext⟩
    cases hnext
  obtain ⟨hexpansions, hclosures, hillegal⟩ := rules_exact haccept
  exact ⟨_, _, hparse, Calculus.play_reseal_eq_ok.mpr ⟨state, hrun, rfl⟩, haccept,
    (hclosures 3 1).mp ⟨_, hclosed⟩, fun hlegal => hrefused ((hexpansions 2 2).mpr hlegal),
    hillegal _ hrefused⟩

end Clausal.Tableau
