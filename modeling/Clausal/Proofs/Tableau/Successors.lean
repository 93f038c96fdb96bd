import Clausal.Proofs.Tableau.Replay

/-!
The states that moves hand out. Every move but one leaves a tree without defects
behind, wherever the tree before it came from: growth and closing add only links and
targets that exist, and opening a leaf again takes a target away. Taking back an
expansion cuts the tree off at its end. What is left hangs together, since the nodes
cut off are exactly the children of one node, but nothing looks at the targets: a
forged tree may have closed a node against one of those that go. Where every node is
closed against nodes above it, as in every proof that was played, this cannot happen.
-/

namespace Clausal.Tableau

def Node.childless (node : Node) : Node := { node with children := [] }

namespace Tree

/-- Whatever a node is closed against exists. -/
def TargetsExist (tree : Tree) : Prop :=
  ∀ id node target, tree.node? id = some node → node.target = some target → target < tree.size

/-- Nodes are closed only against nodes above them. -/
def TargetsAbove (tree : Tree) : Prop :=
  ∀ id node target, tree.node? id = some node → node.target = some target →
    tree.Above target id

variable {clauses : ClauseSet} {tree smaller : Tree} {id leaf target : Nat} {node : Node}

theorem Linked.close (hlinked : tree.Linked) (htarget : target < tree.size) (leaf : Nat) :
    (tree.close leaf target).Linked := by
  refine hlinked.relabel (size_close tree leaf target) ?_
  intro id after hafter
  obtain ⟨before, hbefore, hparent, -, hchildren⟩ := exists_before_close hafter
  refine ⟨before, hbefore, hparent, hchildren, ?_⟩
  intro other hother
  rw [target_close hbefore hafter] at hother
  split at hother
  · cases hother
    exact htarget
  · exact hlinked.target hbefore hother

theorem Linked.reopen (hlinked : tree.Linked) (leaf : Nat) : (tree.reopen leaf).Linked := by
  refine hlinked.relabel (size_reopen tree leaf) ?_
  intro id after hafter
  obtain ⟨before, hbefore, hcases⟩ := exists_before_reopen hafter
  refine ⟨before, hbefore, ?_⟩
  rcases hcases with rfl | rfl | rfl
  · exact ⟨rfl, rfl, fun _ htarget => hlinked.target hbefore htarget⟩
  · exact ⟨rfl, rfl, fun _ htarget => hlinked.target hbefore htarget⟩
  · exact ⟨rfl, rfl, fun _ htarget => nomatch htarget⟩

/-- What is left after the children of a node were cut off. -/
structure CutOff (tree : Tree) (id : Nat) (node : Node) (smaller : Tree) : Prop where
  children : node.children = List.range' smaller.size (tree.size - smaller.size)
  size_le : smaller.size ≤ tree.size
  kept : ∀ other, other < smaller.size →
    smaller.node? other = (tree.modify id Node.childless).node? other

theorem cutOff_of_retract? (hretract : tree.retract? id node = some smaller) :
    tree.CutOff id node smaller := by
  unfold retract? at hretract
  simp only at hretract
  split at hretract
  · next hlast =>
      have hsize : smaller.size = tree.size - node.children.length := by
        rw [← Option.some.inj hretract, size, List.length_take]
        exact Nat.min_eq_left ((size_modify tree id Node.childless).symm ▸ Nat.sub_le _ _)
      refine ⟨hsize ▸ hlast, by omega, ?_⟩
      intro other hother
      rw [← Option.some.inj hretract, node?, List.getElem?_take, if_pos (hsize ▸ hother)]
      rfl
  · cases hretract

namespace CutOff

/-- The nodes that are cut off are the children of the node. -/
theorem mem_children_iff (hcut : tree.CutOff id node smaller) {other : Nat} :
    other ∈ node.children ↔ smaller.size ≤ other ∧ other < tree.size := by
  have hle := hcut.size_le
  rw [hcut.children, List.mem_range'_1]
  omega

theorem notMem_children_iff (hcut : tree.CutOff id node smaller) {other : Nat}
    (hother : other < tree.size) : other ∉ node.children ↔ other < smaller.size := by
  rw [hcut.mem_children_iff]
  omega

theorem parent?_eq (hcut : tree.CutOff id node smaller) {other : Nat}
    (hother : other < smaller.size) : smaller.parent? other = tree.parent? other := by
  rw [parent?, parent?, hcut.kept other hother, node?_modify]
  split
  · cases tree.node? other <;> rfl
  · rfl

/-- A node that is left had the same parent and target before, and the same children
unless it is the one that lost them. -/
theorem exists_before (hcut : tree.CutOff id node smaller) {other : Nat} {after : Node}
    (hafter : smaller.node? other = some after) :
    ∃ before, tree.node? other = some before ∧ after.parent = before.parent ∧
      after.target = before.target ∧
      after.children = if id = other then [] else before.children := by
  rw [hcut.kept other (node?_eq_some_lt hafter), node?_modify] at hafter
  split at hafter
  · next hid =>
      obtain ⟨before, hbefore, rfl⟩ := Option.map_eq_some_iff.mp hafter
      exact ⟨before, hbefore, rfl, rfl, (if_pos hid).symm⟩
  · next hid => exact ⟨after, hafter, rfl, rfl, (if_neg hid).symm⟩

/-- The first node is the child of none, so it stays. -/
theorem size_pos (hcut : tree.CutOff id node smaller) (hlinked : tree.Linked)
    (hnode : tree.node? id = some node) : 0 < smaller.size := by
  obtain ⟨root, hroot, -⟩ := hlinked.root
  apply Nat.pos_of_ne_zero
  intro hempty
  have hchild : 0 ∈ node.children :=
    hcut.mem_children_iff.mpr ⟨Nat.le_of_eq hempty, node?_eq_some_lt hroot⟩
  cases hlinked.parent?_zero.symm.trans (hlinked.child hnode hchild)

/-- The links of what is left are sound, so only targets can be missing. -/
theorem linked_iff (hcut : tree.CutOff id node smaller) (hlinked : tree.Linked)
    (hnode : tree.node? id = some node) : smaller.Linked ↔ smaller.TargetsExist := by
  constructor
  · intro h id node target
    exact h.target
  intro htargets
  constructor
  · obtain ⟨root, hroot⟩ := exists_node? (hcut.size_pos hlinked hnode)
    have hparent := hcut.parent?_eq (hcut.size_pos hlinked hnode)
    rw [Tree.parent?_eq hroot, hlinked.parent?_zero] at hparent
    exact ⟨root, hroot, hparent⟩
  · intro other after hafter hpositive
    obtain ⟨before, hbefore, hparent, -⟩ := hcut.exists_before hafter
    obtain ⟨parent, above, hlink, hlt, habove, hmember⟩ := hlinked.parent hbefore hpositive
    have hother := node?_eq_some_lt hafter
    have hne : id ≠ parent := by
      rintro rfl
      cases hnode.symm.trans habove
      have hgone := (hcut.mem_children_iff.mp hmember).1
      omega
    have hkept := hcut.kept parent (Nat.lt_trans hlt hother)
    rw [node?_modify_ne hne, habove] at hkept
    exact ⟨parent, above, hparent.trans hlink, hlt, hkept, hmember⟩
  · intro other after child hafter hchild
    obtain ⟨before, hbefore, -, -, hchildren⟩ := hcut.exists_before hafter
    rw [hchildren] at hchild
    split at hchild
    · cases hchild
    · next hne =>
        have hparent := hlinked.child hbefore hchild
        have hstays : child < smaller.size := by
          rw [← hcut.notMem_children_iff (hlinked.child_lt hbefore hchild)]
          intro hlost
          exact hne (Option.some.inj ((hlinked.child hnode hlost).symm.trans hparent))
        rw [hcut.parent?_eq hstays, hparent]
  · intro other after target
    exact htargets other after target

/-- No target is missing exactly if no node that stays was closed against one that is cut
off. -/
theorem targetsExist_iff (hcut : tree.CutOff id node smaller) (hlinked : tree.Linked) :
    smaller.TargetsExist ↔ ∀ other before target, tree.node? other = some before →
      other ∉ node.children → before.target = some target → target ∉ node.children := by
  constructor
  · intro h other before target hbefore hstays htarget
    have hother := (hcut.notMem_children_iff (node?_eq_some_lt hbefore)).mp hstays
    obtain ⟨after, hafter⟩ := exists_node? hother
    obtain ⟨found, hfound, -, hsame, -⟩ := hcut.exists_before hafter
    cases hbefore.symm.trans hfound
    rw [hcut.notMem_children_iff (hlinked.target hbefore htarget)]
    exact h other after target hafter (hsame.trans htarget)
  · intro h other after target hafter htarget
    obtain ⟨before, hbefore, -, hsame, -⟩ := hcut.exists_before hafter
    rw [hsame] at htarget
    rw [← hcut.notMem_children_iff (hlinked.target hbefore htarget)]
    refine h other before target hbefore ?_ htarget
    exact (hcut.notMem_children_iff (node?_eq_some_lt hbefore)).mpr (node?_eq_some_lt hafter)

/-- Nothing above a node that stays is cut off. -/
theorem above (hcut : tree.CutOff id node smaller) (hlinked : tree.Linked) {upper lower : Nat}
    (hlower : lower < smaller.size) (habove : tree.Above upper lower) :
    smaller.Above upper lower := by
  induction habove using Relation.TransGen.head_induction_on with
  | single hparent => exact .single ((hcut.parent?_eq hlower).trans hparent)
  | head hparent _ ih =>
      have hlt := hlinked.parent?_lt hparent
      exact .head ((hcut.parent?_eq hlower).trans hparent) (ih (Nat.lt_trans hlt hlower))

/-- A node above one that stays is left, so no target of such a kind is missing. -/
theorem targetsExist (hcut : tree.CutOff id node smaller) (hlinked : tree.Linked)
    (habove : tree.TargetsAbove) : smaller.TargetsExist := by
  intro other after target hafter htarget
  obtain ⟨before, hbefore, -, hsame, -⟩ := hcut.exists_before hafter
  have hpath := habove other before target hbefore (hsame.symm.trans htarget)
  exact Nat.lt_trans (hlinked.above_lt hpath) (node?_eq_some_lt hafter)

end CutOff

theorem TargetsAbove.close (h : tree.TargetsAbove) (habove : tree.Above target leaf) :
    (tree.close leaf target).TargetsAbove := by
  intro id after other hafter hother
  obtain ⟨before, hbefore, -⟩ := exists_before_close hafter
  apply (within_close tree leaf target).1.above
  rw [target_close hbefore hafter] at hother
  split at hother
  · next hid =>
      cases hother
      exact hid ▸ habove
  · exact h id before other hbefore hother

theorem TargetsAbove.extend (h : tree.TargetsAbove) (leaf : Nat) (literals : List Literal) :
    (tree.extend leaf literals).TargetsAbove := by
  intro id after other hafter hother
  apply (within_extend tree leaf literals).above
  rcases node?_extend_cases hafter with
    ⟨before, hbefore, -, rfl⟩ | ⟨before, hbefore, rfl, rfl⟩ | ⟨_, _, -, -, rfl⟩
  · exact h id after other hbefore hother
  · exact h id before other hbefore hother
  · cases hother

theorem TargetsAbove.reopen (h : tree.TargetsAbove) (leaf : Nat) :
    (tree.reopen leaf).TargetsAbove := by
  intro id after other hafter hother
  apply (within_reopen tree leaf).above
  obtain ⟨before, hbefore, rfl | rfl | rfl⟩ := exists_before_reopen hafter
  · exact h id _ other hbefore hother
  · exact h id before other hbefore hother
  · cases hother

theorem TargetsAbove.cutOff (h : tree.TargetsAbove) (hlinked : tree.Linked)
    (hcut : tree.CutOff id node smaller) : smaller.TargetsAbove := by
  intro other after target hafter htarget
  obtain ⟨before, hbefore, -, hsame, -⟩ := hcut.exists_before hafter
  apply hcut.above hlinked (node?_eq_some_lt hafter)
  exact h other before target hbefore (hsame.symm.trans htarget)

theorem Sound.targetsAbove (hsound : tree.Sound clauses) : tree.TargetsAbove :=
  fun _ _ _ hnode htarget => (hsound.closure hnode htarget).2.2.1

/-- The tree after work that takes no node away. -/
inductive Worked (tree : Tree) : Tree → Prop
  | extend {leaf : Nat} {node : Node} (literals : List Literal) :
      tree.node? leaf = some node → Worked tree (tree.extend leaf literals)
  | close {leaf target : Nat} : target < tree.size → tree.Above target leaf →
      Worked tree (tree.close leaf target)
  | reopen (leaf : Nat) : Worked tree (tree.reopen leaf)

variable {next : Tree}

theorem Worked.linked (h : tree.Worked next) (hlinked : tree.Linked) : next.Linked := by
  cases h with
  | extend literals hnode => exact hlinked.extend hnode literals
  | close htarget _ => exact hlinked.close htarget _
  | reopen leaf => exact hlinked.reopen leaf

theorem Worked.targetsAbove (h : tree.Worked next) (habove : tree.TargetsAbove) :
    next.TargetsAbove := by
  cases h with
  | extend literals _ => exact habove.extend _ literals
  | close _ hpath => exact habove.close hpath
  | reopen leaf => exact habove.reopen leaf

end Tree

namespace State

open Calculus

variable {state next : State} {move : Move}

/-- The nodes that the move takes away: the children of a leaf whose expansion is undone. -/
def takenAway (state : State) (move : Move) : List Nat :=
  match move, state.history.getLast? with
  | .undo, some (.expand leaf _) => ((state.tree.node? leaf).map Node.children).getD []
  | _, _ => []

/-- No node that stays is closed against one that the move takes away. -/
def KeepsTargets (state : State) (move : Move) : Prop :=
  ∀ id node target, state.tree.node? id = some node → id ∉ state.takenAway move →
    node.target = some target → target ∉ state.takenAway move

/-- What a step does to the tree: an undo of an expansion cuts off the children of its
leaf, and everything else takes no node away. -/
theorem step_cases (hlinked : state.tree.Linked) (hstep : state.step move = .ok next) :
    state.takenAway move = [] ∧ state.tree.Worked next.tree ∨
      ∃ leaf node, state.takenAway move = node.children ∧
        state.tree.node? leaf = some node ∧ state.tree.CutOff leaf node next.tree := by
  cases move with
  | expand leaf clauseId =>
      obtain ⟨node, clause, hopen, -, -, -, -, rfl⟩ := expand_eq_ok.mp hstep
      exact .inl ⟨rfl, .extend clause.literals hopen.found⟩
  | close leaf target =>
      obtain ⟨-, ⟨-, habove, _, _, -, htarget, -⟩, rfl⟩ := (close_eq_ok hlinked).mp hstep
      exact .inl ⟨rfl, .close (Tree.node?_eq_some_lt htarget) habove⟩
  | undo =>
      obtain ⟨-, earlier, last, tree, hhistory, htree, rfl⟩ := undo_eq_ok.mp hstep
      have hlast : state.history.getLast? = some last := by simp [hhistory]
      cases last with
      | expand leaf clauseId =>
          simp only [takeBack, bind_eq_ok, Tree.requireNode_eq_ok] at htree
          obtain ⟨node, hnode, hretract⟩ := htree
          refine .inr ⟨leaf, node, ?_, hnode, Tree.cutOff_of_retract? ?_⟩
          · simp [takenAway, hlast, hnode]
          cases hsmaller : state.tree.retract? leaf node with
          | none =>
              rw [hsmaller] at hretract
              cases hretract
          | some smaller =>
              rw [hsmaller] at hretract
              exact congrArg some (Except.ok.inj hretract)
      | close leaf target =>
          simp only [takeBack, bind_eq_ok] at htree
          obtain ⟨-, -, hreopen⟩ := htree
          cases hreopen
          exact .inl ⟨by simp [takenAway, hlast], .reopen leaf⟩
      | undo => cases htree

/-- A step leaves the structure sound unless it takes away what a node was closed
against. -/
theorem linked_iff_of_step (hlinked : state.tree.Linked) (hstep : state.step move = .ok next) :
    next.tree.Linked ↔ state.KeepsTargets move := by
  rcases step_cases hlinked hstep with ⟨hnone, hworked⟩ | ⟨leaf, node, htaken, hnode, hcut⟩
  · have hkeeps : state.KeepsTargets move := by simp [KeepsTargets, hnone]
    exact ⟨fun _ => hkeeps, fun _ => hworked.linked hlinked⟩
  · rw [hcut.linked_iff hlinked hnode, hcut.targetsExist_iff hlinked, KeepsTargets, htaken]

/-- If nodes are closed only against nodes above them, every step leaves the structure
sound and this as it is. -/
theorem targetsAbove_of_step (hlinked : state.tree.Linked) (habove : state.tree.TargetsAbove)
    (hstep : state.step move = .ok next) : next.tree.Linked ∧ next.tree.TargetsAbove := by
  rcases step_cases hlinked hstep with ⟨-, hworked⟩ | ⟨leaf, node, -, hnode, hcut⟩
  · exact ⟨hworked.linked hlinked, hworked.targetsAbove habove⟩
  · have hexist := hcut.targetsExist hlinked habove
    exact ⟨(hcut.linked_iff hlinked hnode).mpr hexist, habove.cutOff hlinked hcut⟩

theorem targetsAbove_of_play {alphabet : Alphabet} {formula : String} {rules : Rules}
    {first : State} {moves : List Move} (hparse : parse alphabet formula rules = .ok first)
    (hplay : play first moves = .ok state) : state.tree.TargetsAbove := by
  obtain ⟨clauses, bare, -, hrun, rfl⟩ := exists_bare_run hparse hplay
  exact (sound_of_rehearse hrun).targetsAbove

end State

/-- What a move hands out. Whatever accepted state it is applied to, the new state is
sealed, and it is accepted exactly if no node that stays was closed against one that the
move takes away. Only the undo of an expansion takes nodes away. If nodes are closed only
against nodes above them, none of them misses its target, and this remains so. It is so in
every proof that was played from a formula. -/
theorem successor_accepted {state next : State} {move : Move}
    (hmove : Calculus.applyMove state move = .ok next) :
    Calculus.isSealed next = true ∧
    (Calculus.accept next = .ok () ↔ state.KeepsTargets move) ∧
    (state.tree.TargetsAbove → Calculus.accept next = .ok () ∧ next.tree.TargetsAbove) ∧
    ∀ (alphabet : Alphabet) (formula : String) (rules : Rules) (first : State)
      (moves : List Move), Calculus.parse alphabet formula rules = .ok first →
      Calculus.play first moves = .ok state → Calculus.accept next = .ok () := by
  obtain ⟨haccept, bare, hstep, rfl⟩ := Calculus.applyMove_eq_ok.mp hmove
  have hlinked := (State.accept_eq_ok.mp haccept).2
  have hsealed : Calculus.isSealed (Calculus.reseal bare) = true := Calculus.isSealed_reseal bare
  have hiff : Calculus.accept (Calculus.reseal bare) = .ok () ↔ bare.tree.Linked :=
    State.accept_eq_ok.trans (and_iff_right hsealed)
  refine ⟨hsealed, hiff.trans (State.linked_iff_of_step hlinked hstep), ?_, ?_⟩
  · intro habove
    obtain ⟨hnext, hstill⟩ := State.targetsAbove_of_step hlinked habove hstep
    exact ⟨hiff.mpr hnext, hstill⟩
  · intro alphabet formula rules first moves hparse hplay
    have habove := State.targetsAbove_of_play hparse hplay
    exact hiff.mpr (State.targetsAbove_of_step hlinked habove hstep).1

/-- A forged state that is accepted: the root pretends to be closed against its child. -/
def rootAgainstChild : State :=
  { State.start ⟨[⟨[.positive "a"]⟩]⟩ "a" ⟨.unrestricted, false, true⟩ with
    tree := ⟨[⟨none, .positive "true", false, some 1, [1]⟩, .leaf 0 (.positive "a")]⟩
    history := [.expand 0 0] }

/-- The forged target survives an expansion and keeps being accepted. -/
theorem successor_accepted_rootAgainstChild :
    ∃ next : State,
      Calculus.accept (Calculus.reseal rootAgainstChild) = .ok () ∧
      Calculus.applyMove (Calculus.reseal rootAgainstChild) (.expand 1 0) = .ok next ∧
      (Calculus.reseal rootAgainstChild).KeepsTargets (.expand 1 0) ∧
      Calculus.isSealed next = true ∧ Calculus.accept next = .ok () := by
  have hmove : Calculus.applyMove (Calculus.reseal rootAgainstChild) (.expand 1 0) =
      .ok (Calculus.reseal { rootAgainstChild with
        tree := rootAgainstChild.tree.extend 1 [.positive "a"]
        history := [.expand 0 0, .expand 1 0] }) :=
    Calculus.applyMove_reseal_eq_ok.mpr ⟨_, rfl, rfl⟩
  have hkeeps : (Calculus.reseal rootAgainstChild).KeepsTargets (.expand 1 0) := by
    simp [State.KeepsTargets, State.takenAway]
  obtain ⟨hsealed, hiff, -⟩ := successor_accepted hmove
  exact ⟨_, Calculus.accept_reseal _, hmove, hkeeps, hsealed, hiff.mpr hkeeps⟩

/-- The undo of an expansion leaves the root closed against a node that is gone, and seals
a state that is then refused. -/
theorem undone_expansion_refused :
    ∃ next : State,
      Calculus.accept (Calculus.reseal rootAgainstChild) = .ok () ∧
      Calculus.applyMove (Calculus.reseal rootAgainstChild) .undo = .ok next ∧
      Calculus.isSealed next = true ∧
      Calculus.accept next = .error (.tampered (.malformedTree (.missingTarget 0))) := by
  refine ⟨Calculus.reseal { rootAgainstChild with
    tree := ⟨[⟨none, .positive "true", false, some 1, []⟩]⟩, history := [], usedUndo := true },
    Calculus.accept_reseal _, ?_, Calculus.isSealed_reseal _, Calculus.accept_reseal _⟩
  exact Calculus.applyMove_reseal_eq_ok.mpr ⟨_, rfl, rfl⟩

end Clausal.Tableau
