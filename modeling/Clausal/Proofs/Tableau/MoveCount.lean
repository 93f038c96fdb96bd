import Clausal.Proofs.Formula
import Clausal.Proofs.Tableau.Census
import Clausal.Proofs.Tableau.Closure

/-!
The balance of moves and nodes. The history and the tree are changed separately, by
expansions, closures and undos, yet there are always as many moves in the history as there
are inner nodes and closed leaves together. In a closed tree these are all the nodes, so
the summary of a closed proof reports as many moves as nodes.
-/

namespace Clausal.Tableau

namespace Tree

variable {clauses : ClauseSet} {tree : Tree}

/-- The number of nodes that have children. -/
def innerCount (tree : Tree) : Nat := tree.nodes.countP (!·.isLeaf)

def closedLeafCount (tree : Tree) : Nat :=
  tree.nodes.countP fun node => node.isLeaf && node.closed

theorem map_node?_range (tree : Tree) :
    (List.range tree.size).map tree.node? = tree.nodes.map some := by
  apply List.ext_getElem?
  intro id
  rw [List.getElem?_map, List.getElem?_map]
  rcases Nat.lt_or_ge id tree.size with hlt | hge
  · obtain ⟨node, hnode⟩ := exists_node? hlt
    have hat : tree.nodes[id]? = some node := hnode
    rw [List.getElem?_range hlt, hat]
    exact congrArg some hnode
  · have hnone : tree.nodes[id]? = none := List.getElem?_eq_none hge
    rw [hnone, List.getElem?_eq_none (by simpa using hge)]
    rfl

theorem card_spent (tree : Tree) : tree.spent.card = tree.nodes.countP Node.isSpent := by
  have hlist : tree.spent.card =
      (List.range tree.size).countP fun id => decide ((tree.node? id).any Node.isSpent = true) :=
    List.countP_eq_length_filter.symm
  simp only [Bool.decide_eq_true] at hlist
  calc tree.spent.card
      = (List.range tree.size).countP (Option.any Node.isSpent ∘ tree.node?) := hlist
    _ = ((List.range tree.size).map tree.node?).countP (Option.any Node.isSpent) :=
        List.countP_map.symm
    _ = (tree.nodes.map some).countP (Option.any Node.isSpent) := by rw [map_node?_range]
    _ = tree.nodes.countP Node.isSpent := List.countP_map

/-- A spent node is either an inner node or a closed leaf. -/
theorem countP_isSpent (tree : Tree) :
    tree.nodes.countP Node.isSpent = tree.innerCount + tree.closedLeafCount := by
  rw [List.countP_eq_countP_filter_add tree.nodes Node.isSpent (!·.isLeaf), List.countP_filter,
    List.countP_filter, innerCount, closedLeafCount]
  congr 2
  · funext node
    cases hleaf : node.isLeaf <;> simp [Node.isSpent, hleaf]
  · funext node
    cases hleaf : node.isLeaf <;> simp [Node.isSpent, hleaf]

/-- In a closed tree no node is left to be expanded or closed. -/
theorem Sound.countP_isSpent_of_isClosed (hsound : tree.Sound clauses)
    (hclosed : tree.isClosed = true) : tree.nodes.countP Node.isSpent = tree.size := by
  refine List.countP_eq_length.mpr fun node hmember => ?_
  obtain ⟨id, hnode⟩ := List.mem_iff_getElem?.mp hmember
  by_cases hleaf : node.children = []
  · have hmark := hsound.isClosed_iff.mp hclosed id node hnode hleaf
    simp [Node.isSpent, hmark]
  · simp [Node.isSpent, Node.isLeaf, hleaf]

end Tree

namespace State

open Calculus

theorem history_reseal (state : State) : (reseal state).history = state.history := rfl

theorem tree_reseal (state : State) : (reseal state).tree = state.tree := rfl

/-- The summary of a closed proof reports how many moves and how many nodes it has. -/
theorem checkSummary_of_isClosed {state : State} (haccept : accept state = .ok ())
    (hclosed : state.tree.isClosed = true) :
    ∃ summary, checkSummary state = .ok (some summary) ∧
      summary.details.member? "moves" = some (.ofNat state.history.length) ∧
      summary.details.member? "nodes" = some (.ofNat state.tree.size) := by
  have hverdict : (Calculus.verdict state).closed = true := verdict_closed.mpr hclosed
  have hsummary : checkSummary state = .ok state.summary? := by
    simp only [checkSummary, checkClose, haccept, Except.map, hverdict, if_true]
    rfl
  rw [hsummary, summary?, if_pos hclosed]
  exact ⟨_, rfl, rfl, rfl⟩

end State

/-- In every state of a run, whatever was undone, the history is as long as there are inner
nodes and closed leaves. A closed proof therefore has as many moves as nodes, and its
summary says so. -/
theorem moves_match_nodes {alphabet : Alphabet} {formula : String} {rules : Rules}
    {first final : State} {moves : List Move}
    (hparse : Calculus.parse alphabet formula rules = .ok first)
    (hplay : Calculus.play first moves = .ok final) :
    final.history.length = final.tree.innerCount + final.tree.closedLeafCount ∧
    (final.tree.isClosed = true →
      final.history.length = final.tree.size ∧
      ∃ summary, Calculus.checkSummary final = .ok (some summary) ∧
        summary.details.member? "moves" = some (.ofNat final.history.length) ∧
        summary.details.member? "nodes" = some (.ofNat final.tree.size) ∧
        summary.details.member? "moves" = summary.details.member? "nodes") := by
  obtain ⟨clauses, bare, hformula, hrun, rfl⟩ := Calculus.exists_bare_run hparse hplay
  have hreplays := State.replays_of_rehearse hrun
  have hsound := hreplays.sound
  have hlength : bare.history.length = bare.tree.nodes.countP Node.isSpent :=
    (hreplays.length_history (Formula.parse_nonempty hformula)).trans bare.tree.card_spent
  have haccept : Calculus.accept (Calculus.reseal bare) = .ok () :=
    State.accept_eq_ok.mpr ⟨Calculus.isSealed_reseal bare, hsound.toLinked⟩
  rw [State.history_reseal, State.tree_reseal]
  refine ⟨hlength.trans bare.tree.countP_isSpent, ?_⟩
  intro hclosed
  have hsame : bare.history.length = bare.tree.size :=
    hlength.trans (hsound.countP_isSpent_of_isClosed hclosed)
  obtain ⟨summary, hsummary, hmoves, hnodes⟩ := State.checkSummary_of_isClosed haccept hclosed
  rw [State.history_reseal] at hmoves
  rw [State.tree_reseal] at hnodes
  exact ⟨hsame, summary, hsummary, hmoves, hnodes, by rw [hmoves, hnodes, hsame]⟩

/-- A closure that is undone and made again counts once: three inner nodes and two closed
leaves take five moves. -/
theorem moves_match_nodes_deniedDisjunction :
    ∃ (first final : State) (summary : Summary),
      Calculus.parse .identifier "a,b;!a;!b" (⟨.strong, true, true⟩ : Rules) = .ok first ∧
      Calculus.play first [.expand 0 0, .expand 1 1, .close 3 1, .undo, .close 3 1,
        .expand 2 2, .close 4 2] = .ok final ∧
      final.tree.isClosed = true ∧ final.tree.innerCount = 3 ∧
      final.tree.closedLeafCount = 2 ∧ final.history.length = 3 + 2 ∧
      Calculus.checkSummary final = .ok (some summary) ∧
      summary.details.member? "moves" = some (.ofNat 5) ∧
      summary.details.member? "nodes" = some (.ofNat 5) := by
  have hparse := State.parse_of_formula Formula.parse_deniedDisjunction ⟨.strong, true, true⟩
  obtain ⟨final, hrun, hsound, hclosed, hinner, hleaves⟩ : ∃ final : State,
      Calculus.rehearse (State.start Formula.deniedDisjunction "a,b;!a;!b"
        ⟨.strong, true, true⟩) [.expand 0 0, .expand 1 1, .close 3 1, .undo, .close 3 1,
        .expand 2 2, .close 4 2] = .ok final ∧ Calculus.defect? final = none ∧
      final.tree.isClosed = true ∧ final.tree.innerCount = 3 ∧
      final.tree.closedLeafCount = 2 := ⟨_, rfl, rfl, rfl, rfl, rfl⟩
  have hplay := (Calculus.play_of_rehearse hrun hsound).1
  obtain ⟨hlength, hwhole⟩ := moves_match_nodes hparse hplay
  obtain ⟨-, summary, hsummary, hmoves, -, hsame⟩ := hwhole hclosed
  have hcount : (Calculus.reseal final).history.length = 3 + 2 := by
    rw [hlength, State.tree_reseal, hinner, hleaves]
  rw [hcount] at hmoves
  exact ⟨_, _, summary, hparse, hplay, hclosed, hinner, hleaves, hcount, hsummary, hmoves,
    hsame ▸ hmoves⟩

end Clausal.Tableau
