import Clausal.Proofs.Tableau.Soundness

/-!
What the marks of closure mean. They are written by one walk upwards, erased by
another and never computed anew, yet in every proof that can be played a leaf is
marked exactly if it was closed against a node that contradicts it, and an inner
node exactly if all its children are marked. The mark of the root is therefore
the verdict on all the leaves.
-/

namespace Clausal.Tableau

namespace Tree

/-- The links, targets and marks of a tree that was grown from the clauses. -/
structure WellMarked (clauses : ClauseSet) (tree : Tree) : Prop where
  /-- The children of an inner node stand side by side and spell out a clause. -/
  clause : ∀ {id node}, tree.node? id = some node → node.children ≠ [] →
    ∃ clause ∈ clauses.clauses, ∃ first,
      node.children = List.range' first clause.size ∧
      node.children.map tree.literal? = clause.literals.map some
  leaf : ∀ {id node}, tree.node? id = some node → node.children = [] →
    (node.closed = true ↔
      ∃ target, node.target = some target ∧ tree.Contradicts target id)
  /-- Only leaves are closed against another node. -/
  untargeted : ∀ {id node}, tree.node? id = some node → node.children ≠ [] →
    node.target = none
  inner : ∀ {id node}, tree.node? id = some node → node.children ≠ [] →
    (node.closed = true ↔ ∀ child ∈ node.children, tree.isClosedAt child = true)

def LeavesClosed (tree : Tree) : Prop :=
  ∀ id node, tree.node? id = some node → node.children = [] → node.closed = true

variable {clauses : ClauseSet} {tree : Tree}

theorem Sound.closed_leaf_iff (hsound : tree.Sound clauses) {id : Nat} {node : Node}
    (hnode : tree.node? id = some node) (hleaf : node.children = []) :
    node.closed = true ↔
      ∃ target, node.target = some target ∧ tree.Contradicts target id := by
  rw [hsound.settled.leaf hnode hleaf, Option.isSome_iff_exists]
  constructor
  · rintro ⟨target, htarget⟩
    exact ⟨target, htarget, (hsound.closure hnode htarget).2⟩
  · rintro ⟨target, htarget, -⟩
    exact ⟨target, htarget⟩

theorem Sound.closed_inner_iff (hsound : tree.Sound clauses) {id : Nat} {node : Node}
    (hnode : tree.node? id = some node) (hinner : node.children ≠ []) :
    node.closed = true ↔ ∀ child ∈ node.children, tree.isClosedAt child = true :=
  ⟨hsound.settled.down hnode hinner, hsound.settled.up hnode hinner (by simp)⟩

theorem Sound.wellMarked (hsound : tree.Sound clauses) : tree.WellMarked clauses where
  clause := hsound.clause
  leaf := hsound.closed_leaf_iff
  untargeted := by
    intro id node hnode hinner
    cases htarget : node.target with
    | none => rfl
    | some target => exact absurd (hsound.closure hnode htarget).1 hinner
  inner := hsound.closed_inner_iff

theorem Linked.root_above (hlinked : tree.Linked) {id : Nat} (hid : id < tree.size)
    (hpositive : 0 < id) : tree.Above 0 id := by
  have hroot : id = 0 ∨ tree.Above 0 id := by
    refine hlinked.induction_down (motive := fun id => id = 0 ∨ tree.Above 0 id)
      (.inl rfl) ?_ id hid
    rintro id parent hparent (rfl | habove)
    · exact .inr (.single hparent)
    · exact .inr (.head hparent habove)
  exact hroot.resolve_left (Nat.ne_of_gt hpositive)

/-- The mark of the root tells whether all leaves are closed, wherever they are. -/
theorem Sound.isClosed_iff (hsound : tree.Sound clauses) :
    tree.isClosed = true ↔ tree.LeavesClosed := by
  constructor
  · intro hclosed id node hnode _
    cases hmark : node.closed with
    | true => rfl
    | false =>
        -- An open leaf would have left the root open.
        have hopen : tree.isClosedAt id = false := (isClosedAt_eq hnode).trans hmark
        have hroot : tree.isClosedAt 0 = false := by
          rcases Nat.eq_zero_or_pos id with rfl | hpositive
          · exact hopen
          · have habove := hsound.toLinked.root_above (node?_eq_some_lt hnode) hpositive
            exact hsound.open_above habove hopen
        exact hroot.symm.trans hclosed
  · intro hleaves
    obtain ⟨root, hroot, -⟩ := hsound.root
    refine hsound.toLinked.induction_up (motive := fun id => tree.isClosedAt id = true)
      ?_ 0 (node?_eq_some_lt hroot)
    intro id node hnode hbelow
    rw [isClosedAt_eq hnode]
    by_cases hleaf : node.children = []
    · exact hleaves id node hnode hleaf
    · exact (hsound.closed_inner_iff hnode hleaf).mpr hbelow

end Tree

/-- Whatever was expanded, closed and undone, the marks of the tree are exact, and
the verdict is that of its leaves. -/
theorem closure_marks_exact {alphabet : Alphabet} {formula : String} {rules : Rules}
    {first final : State} {moves : List Move}
    (hparse : Calculus.parse alphabet formula rules = .ok first)
    (hplay : Calculus.play first moves = .ok final) :
    final.tree.WellMarked final.clauses ∧
      ∃ result, Calculus.checkClose final = .ok result ∧
        (result.closed = true ↔ final.tree.LeavesClosed) := by
  obtain ⟨clauses, bare, -, hrun, rfl⟩ := Calculus.exists_bare_run hparse hplay
  have hsound := (State.replays_of_rehearse hrun).sound
  have hstructure : Calculus.checkStructure bare = .ok () :=
    Calculus.checkStructure_eq_ok.mpr (State.defect?_eq_none.mpr hsound.toLinked)
  refine ⟨hsound.wellMarked, bare.verdict, ?_, ?_⟩
  · rw [Calculus.checkClose_reseal, hstructure]
    rfl
  · rw [State.verdict_closed]
    exact hsound.isClosed_iff

/-- A closure that is undone and made again leaves one side of the tree closed and
the other one open. -/
theorem closure_marks_exact_deniedDisjunction :
    ∃ first final : State,
      Calculus.parse .identifier "a,b;!a;!b" (⟨.strong, true, true⟩ : Rules) = .ok first ∧
      Calculus.play first [.expand 0 0, .expand 1 1, .close 3 1, .undo, .close 3 1,
        .expand 2 2] = .ok final ∧
      final.tree.WellMarked final.clauses ∧
      ∃ result, Calculus.checkClose final = .ok result ∧
        (result.closed = true ↔ final.tree.LeavesClosed) := by
  have hparse := State.parse_of_formula Formula.parse_deniedDisjunction ⟨.strong, true, true⟩
  obtain ⟨final, hrun, hsound⟩ : ∃ final,
      Calculus.rehearse (State.start Formula.deniedDisjunction "a,b;!a;!b"
        ⟨.strong, true, true⟩) [.expand 0 0, .expand 1 1, .close 3 1, .undo, .close 3 1,
        .expand 2 2] = .ok final ∧ Calculus.defect? final = none := ⟨_, rfl, rfl⟩
  have hplay := (Calculus.play_of_rehearse hrun hsound).1
  exact ⟨_, _, hparse, hplay, closure_marks_exact hparse hplay⟩

end Clausal.Tableau
