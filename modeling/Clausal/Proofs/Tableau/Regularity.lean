import Clausal.Proofs.Formula
import Clausal.Proofs.Tableau.Census

/-!
Regular tableaux. An expansion compares its clause with one branch only, yet in every
regular tableau that can be played no branch carries a literal twice. A branch is
therefore no longer than the vocabulary is large, which bounds the tree, and with it the
number of moves that can be made without undoing any.
-/

namespace Clausal.Tableau

namespace Tree

variable {clauses : ClauseSet} {tree : Tree}

/-- No node carries a literal that is on the branch above it. -/
def Fresh (tree : Tree) : Prop :=
  ∀ id node parent, tree.node? id = some node → node.parent = some parent →
    tree.branchCarries parent node.literal = false

theorem fresh_start : Tree.start.Fresh := by
  intro id node parent hnode hparent
  rw [(start_node? hnode).2] at hparent
  cases hparent

/-- Branches of the smaller tree carry nothing new in the larger one. -/
theorem Fresh.within {grown : Tree} {id parent : Nat} {before after : Node} (h : tree.Fresh)
    (hlinked : tree.Linked) (hgrown : grown.Linked) (hwithin : tree.Within grown)
    (hbefore : tree.node? id = some before) (hsame : after.parent = before.parent)
    (hliteral : after.literal = before.literal) (hparent : after.parent = some parent) :
    grown.branchCarries parent after.literal = false := by
  have hlink : before.parent = some parent := hsame.symm.trans hparent
  have hlt := hlinked.parent?_lt ((parent?_eq hbefore).trans hlink)
  have hsize := node?_eq_some_lt hbefore
  rw [hwithin.branchCarries hlinked hgrown (by omega), hliteral]
  exact h id before parent hbefore hlink

theorem Fresh.extend {leaf : Nat} {node : Node} {literals : List Literal} (h : tree.Fresh)
    (hlinked : tree.Linked) (hopen : tree.OpenLeaf leaf node)
    (hnew : ∀ literal ∈ literals, tree.branchCarries leaf literal = false) :
    (tree.extend leaf literals).Fresh := by
  have hgrown := hlinked.extend hopen.found literals
  have hwithin := within_extend tree leaf literals
  intro id after parent hafter hparent
  rcases node?_extend_cases hafter with
    ⟨before, hbefore, -, rfl⟩ | ⟨before, hbefore, rfl, rfl⟩ | ⟨index, literal, -, hliteral, rfl⟩
  · exact h.within hlinked hgrown hwithin hbefore rfl rfl hparent
  · exact h.within hlinked hgrown hwithin hbefore rfl rfl hparent
  · cases hparent
    rw [hwithin.branchCarries hlinked hgrown (node?_eq_some_lt hopen.found)]
    exact hnew literal (List.mem_of_getElem? hliteral)

theorem Fresh.close {leaf target : Nat} (h : tree.Fresh) (hlinked : tree.Linked)
    (hclosed : (tree.close leaf target).Linked) : (tree.close leaf target).Fresh := by
  intro id after parent hafter hparent
  obtain ⟨before, hbefore, hsame, hliteral, -⟩ := exists_before_close hafter
  exact h.within hlinked hclosed (within_close tree leaf target).1 hbefore hsame hliteral hparent

theorem mem_map_literal? {id : Nat} {literal : Literal} :
    some literal ∈ (tree.branch id).map tree.literal? ↔
      tree.branchCarries id literal = true := by
  simp [branchCarries, literal?, Node.carries, Option.any_eq_true]

/-- In a tree where every node is fresh no branch carries a literal twice. -/
theorem Linked.nodup_branch (hlinked : tree.Linked) (hfresh : tree.Fresh) {id : Nat}
    (hid : id < tree.size) : ((tree.branch id).map tree.literal?).Nodup := by
  refine hlinked.induction_down
    (motive := fun id => ((tree.branch id).map tree.literal?).Nodup) ?_ ?_ id hid
  · rw [hlinked.branch_zero]
    exact List.nodup_nil
  · intro id parent hparent ih
    obtain ⟨node, hnode, hlink⟩ := exists_node?_of_parent? hparent
    rw [hlinked.branch_of_parent? hparent, List.map_cons, literal?_eq hnode, List.nodup_cons]
    refine ⟨?_, ih⟩
    rw [mem_map_literal?, hfresh id node parent hnode hlink]
    exact Bool.false_ne_true

theorem Shaped.literal_mem_vocabulary (hshaped : tree.Shaped clauses) {id : Nat} {node : Node}
    (hnode : tree.node? id = some node) (hpositive : 0 < id) :
    node.literal ∈ clauses.vocabulary := by
  obtain ⟨parent, above, -, -, habove, hmember⟩ := hshaped.parent hnode hpositive
  obtain ⟨clause, hclause, -, -, hliterals⟩ :=
    hshaped.clause habove (List.ne_nil_of_mem hmember)
  have hcarried : tree.literal? id ∈ clause.literals.map some := by
    rw [← hliterals]
    exact List.mem_map_of_mem hmember
  rw [literal?_eq hnode] at hcarried
  obtain ⟨literal, hliteral, hsame⟩ := List.mem_map.mp hcarried
  cases hsame
  exact ClauseSet.mem_vocabulary.mpr ⟨clause, hclause, hliteral⟩

/-- A branch without repetitions is no longer than the vocabulary is large. -/
theorem Shaped.length_branch_le (hshaped : tree.Shaped clauses) (hfresh : tree.Fresh) {id : Nat}
    (hid : id < tree.size) : (tree.branch id).length ≤ clauses.vocabulary.card := by
  have hbound : ∀ carried ∈ (tree.branch id).map tree.literal?,
      carried ∈ clauses.vocabulary.image some := by
    intro carried hcarried
    obtain ⟨other, hother, rfl⟩ := List.mem_map.mp hcarried
    obtain ⟨hpositive, hupper⟩ := (hshaped.toLinked.mem_branch hid).mp hother
    have hsize : other < tree.size := by
      rcases hupper with rfl | habove
      · exact hid
      · exact Nat.lt_trans (hshaped.toLinked.above_lt habove) hid
    obtain ⟨node, hnode⟩ := exists_node? hsize
    rw [literal?_eq hnode]
    exact Finset.mem_image_of_mem some (hshaped.literal_mem_vocabulary hnode hpositive)
  calc (tree.branch id).length = ((tree.branch id).map tree.literal?).length :=
        (List.length_map _).symm
    _ ≤ (clauses.vocabulary.image some).card :=
        length_le_card_of_nodup (hshaped.toLinked.nodup_branch hfresh hid) hbound
    _ ≤ clauses.vocabulary.card := Finset.card_image_le

end Tree

theorem State.Replays.fresh {clauses : ClauseSet} {formula : String} {rules : Rules}
    {state : State} (hreplays : (State.start clauses formula rules).Replays state)
    (hregular : rules.regular = true) : state.tree.Fresh := by
  refine hreplays.induction (motive := fun tree _ => tree.Fresh) Tree.fresh_start ?_ ?_
  · intro tree history leaf clauseId node clause hsound hfresh hopen _ _ hnew _
    exact hfresh.extend hsound.toLinked hopen (hnew hregular)
  · intro tree history leaf target node hsound hfresh hopen htarget
    exact hfresh.close hsound.toLinked (hsound.close hopen htarget).toLinked

/-- Regular proofs are free of repetitions and bounded. No branch carries a literal
twice, so none is longer than the vocabulary; the tree is no larger than the full tree of
that depth, the history no longer than the tree is large, and a run without undos no
longer than that. -/
theorem regular_tableau_bounded {alphabet : Alphabet} {formula : String} {rules : Rules}
    {first final : State} {moves : List Move}
    (hparse : Calculus.parse alphabet formula rules = .ok first)
    (hplay : Calculus.play first moves = .ok final) (hregular : rules.regular = true) :
    (∀ id < final.tree.size, ((final.tree.branch id).map final.tree.literal?).Nodup ∧
      (final.tree.branch id).length ≤ final.clauses.vocabulary.card) ∧
    final.tree.size ≤ Tree.fullSize final.clauses.width final.clauses.vocabulary.card ∧
    final.history.length ≤ final.tree.size ∧
    (.undo ∉ moves →
      moves.length ≤ Tree.fullSize final.clauses.width final.clauses.vocabulary.card) := by
  obtain ⟨clauses, bare, hformula, hrun, rfl⟩ := Calculus.exists_bare_run hparse hplay
  have hreplays := State.replays_of_rehearse hrun
  have hshaped := hreplays.sound.toShaped
  have hfresh := hreplays.fresh hregular
  have hdepth (id : Nat) (hid : id < bare.tree.size) :
      (bare.tree.branch id).length ≤ bare.clauses.vocabulary.card :=
    hshaped.length_branch_le hfresh hid
  have hsize : bare.tree.size ≤
      Tree.fullSize bare.clauses.width bare.clauses.vocabulary.card :=
    hshaped.toLinked.size_le_fullSize hshaped.length_childrenOf_le hdepth
  have hhistory : bare.history.length ≤ bare.tree.size := by
    rw [hreplays.length_history (Formula.parse_nonempty hformula)]
    exact bare.tree.card_spent_le
  refine ⟨?_, hsize, hhistory, ?_⟩
  · intro id hid
    exact ⟨hshaped.toLinked.nodup_branch hfresh hid, hdepth id hid⟩
  · intro hmoves
    have hplayed : bare.history = moves :=
      State.history_of_rehearse (Tree.Sound.start clauses) hmoves hrun
    exact hplayed ▸ hhistory.trans hsize

/-- A closed regular proof of five moves. Four literals and clauses of at most two of them
admit trees of thirty-one nodes. -/
theorem regular_tableau_bounded_deniedDisjunction :
    ∃ first final : State,
      Calculus.parse .identifier "a,b;!a;!b" (⟨.strong, true, true⟩ : Rules) = .ok first ∧
      Calculus.play first [.expand 0 0, .expand 1 1, .close 3 1, .expand 2 2, .close 4 2] =
        .ok final ∧
      Tree.fullSize final.clauses.width final.clauses.vocabulary.card = 31 ∧
      ((final.tree.branch 4).map final.tree.literal?).Nodup ∧ final.history.length = 5 ∧
      final.history.length ≤ final.tree.size ∧ final.tree.size ≤ 31 := by
  have hparse := State.parse_of_formula Formula.parse_deniedDisjunction ⟨.strong, true, true⟩
  obtain ⟨final, hrun, hsound, hbound, hsize, hhistory⟩ : ∃ final : State,
      Calculus.rehearse (State.start Formula.deniedDisjunction "a,b;!a;!b"
        ⟨.strong, true, true⟩) [.expand 0 0, .expand 1 1, .close 3 1, .expand 2 2,
        .close 4 2] = .ok final ∧ Calculus.defect? final = none ∧
      Tree.fullSize final.clauses.width final.clauses.vocabulary.card = 31 ∧
      4 < final.tree.size ∧ final.history.length = 5 :=
    ⟨_, rfl, rfl, by decide, by decide, rfl⟩
  have hplay := (Calculus.play_of_rehearse hrun hsound).1
  obtain ⟨hbranch, hnodes, hmoves, -⟩ := regular_tableau_bounded hparse hplay rfl
  exact ⟨_, _, hparse, hplay, hbound, (hbranch 4 hsize).1, hhistory, hmoves,
    hnodes.trans_eq hbound⟩

end Clausal.Tableau
