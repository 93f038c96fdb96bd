import Clausal.Proofs.Tableau.Closure
import Clausal.Proofs.Tableau.Progress

/-!
Connected tableaux. Under either connected rule every inner node below the root has
a child that contradicts it, for no other clause is admitted below a leaf. The strong
rule asks for a child that is closed against the node, but only before the next
expansion: the node that was expanded last may lack one, and no other node does. In a
closed proof even that node has a contradicting child that is a closed leaf, since
nothing was expanded below it.
-/

namespace Clausal.Tableau

/-- The leaf that a move expands. -/
def Move.expanded? : Move → Option Nat
  | .expand leaf _ => some leaf
  | .close _ _ => none
  | .undo => none

/-- The leaf of the last expansion among the moves. -/
def lastExpanded? (history : List Move) : Option Nat := history.reverse.findSome? Move.expanded?

@[simp] theorem lastExpanded?_expand (history : List Move) (leaf clauseId : Nat) :
    lastExpanded? (history ++ [.expand leaf clauseId]) = some leaf := by
  simp [lastExpanded?, List.findSome?_cons, Move.expanded?]

@[simp] theorem lastExpanded?_close (history : List Move) (leaf target : Nat) :
    lastExpanded? (history ++ [.close leaf target]) = lastExpanded? history := by
  simp [lastExpanded?, List.findSome?_cons, Move.expanded?]

structure Node.ClosedLeaf (node : Node) : Prop where
  leaf : node.children = []
  mark : node.closed = true

namespace Tree

/-- The node is below the root and has been expanded. -/
structure Inner (tree : Tree) (id : Nat) (node : Node) : Prop where
  found : tree.node? id = some node
  positive : 0 < id
  expanded : node.children ≠ []

/-- Some child of the node is of this kind. -/
def HasChild (tree : Tree) (node : Node) (Kind : Node → Prop) : Prop :=
  ∃ child ∈ node.children, ∃ below, tree.node? child = some below ∧ Kind below

/-- Some child of the node is a leaf that was closed against it. -/
def Secured (tree : Tree) (id : Nat) (node : Node) : Prop :=
  tree.HasChild node fun below => below.ClosedLeaf ∧ below.target = some id

/-- Every inner node below the root has a child that contradicts it. -/
def Answered (tree : Tree) : Prop :=
  ∀ id node, tree.Inner id node → tree.HasChild node (node.complements ·)

/-- The children of the parent are leaves. -/
def ChildrenAreLeaves (tree : Tree) (parent : Nat) : Prop :=
  ∀ id node, tree.node? id = some node → node.parent = some parent → node.children = []

variable {clauses : ClauseSet} {tree : Tree}

theorem HasChild.mono {node : Node} {Kind Other : Node → Prop} (h : tree.HasChild node Kind)
    (himp : ∀ child ∈ node.children, ∀ below, tree.node? child = some below → Kind below →
      Other below) : tree.HasChild node Other := by
  obtain ⟨child, hchild, below, hbelow, hkind⟩ := h
  exact ⟨child, hchild, below, hbelow, himp child hchild below hbelow hkind⟩

theorem HasChild.within {grown : Tree} {node after : Node}
    (h : tree.HasChild node (node.complements ·)) (hwithin : tree.Within grown)
    (hliteral : after.literal = node.literal) (hchildren : after.children = node.children) :
    grown.HasChild after (after.complements ·) := by
  obtain ⟨child, hchild, below, hbelow, hcomplement⟩ := h
  obtain ⟨reached, hreached, -, hcarried⟩ := hwithin child below hbelow
  have hstill : after.complements reached = true := by
    rwa [Node.complements, hliteral, hcarried]
  exact ⟨child, hchildren ▸ hchild, reached, hreached, hstill⟩

theorem Answered.extend {leaf : Nat} {node : Node} {literals : List Literal}
    (h : tree.Answered) (hopen : tree.OpenLeaf leaf node)
    (hlink : leaf ≠ 0 → node.literal.complement ∈ literals) :
    (tree.extend leaf literals).Answered := by
  intro id after hinner
  rcases node?_extend_cases hinner.found with
    ⟨before, hbefore, -, rfl⟩ | ⟨before, hbefore, rfl, rfl⟩ | ⟨_, _, -, -, rfl⟩
  · have hanswer := h id after ⟨hbefore, hinner.positive, hinner.expanded⟩
    exact hanswer.within (within_extend tree leaf literals) rfl rfl
  · -- The expanded leaf: the complement stands somewhere in the clause.
    cases hopen.found.symm.trans hbefore
    obtain ⟨index, hindex⟩ := List.getElem?_of_mem (hlink (Nat.ne_of_gt hinner.positive))
    have hlt := (List.getElem?_eq_some_iff.mp hindex).1
    refine ⟨tree.size + index, ?_, _, (openLeaf_extend hindex).found, ?_⟩
    · rw [List.mem_append, List.mem_range'_1]
      exact .inr ⟨by omega, by omega⟩
    · exact Literal.complements_iff.mpr rfl
  · exact absurd rfl hinner.expanded

theorem Answered.close (h : tree.Answered) (leaf target : Nat) :
    (tree.close leaf target).Answered := by
  intro id after hinner
  obtain ⟨before, hbefore, -, hliteral, hchildren⟩ := exists_before_close hinner.found
  have hanswer := h id before ⟨hbefore, hinner.positive, hchildren ▸ hinner.expanded⟩
  exact hanswer.within (within_close tree leaf target).1 hliteral hchildren

theorem Linked.childrenAreLeaves_extend (hlinked : tree.Linked) {leaf : Nat} {node : Node}
    (hopen : tree.OpenLeaf leaf node) (literals : List Literal) :
    (tree.extend leaf literals).ChildrenAreLeaves leaf := by
  -- A leaf had no child before, so all its children are new.
  have hnone (id : Nat) (before : Node) (hbefore : tree.node? id = some before) :
      before.parent ≠ some leaf := by
    rw [← parent?_eq hbefore]
    exact hlinked.parent?_ne_of_leaf hopen.found hopen.leaf id
  intro id after hafter hparent
  rcases node?_extend_cases hafter with
    ⟨before, hbefore, -, rfl⟩ | ⟨before, hbefore, rfl, rfl⟩ | ⟨_, _, -, -, rfl⟩
  · exact absurd hparent (hnone id after hbefore)
  · exact absurd hparent (hnone id before hbefore)
  · rfl

theorem ChildrenAreLeaves.close {parent : Nat} (h : tree.ChildrenAreLeaves parent)
    (leaf target : Nat) : (tree.close leaf target).ChildrenAreLeaves parent := by
  intro id after hafter hparent
  obtain ⟨before, hbefore, hsame, -, hchildren⟩ := exists_before_close hafter
  rw [hchildren]
  exact h id before hbefore (hsame.symm.trans hparent)

/-- The connection of the nodes of a tree that was played by the rules. -/
structure Threaded (rules : Rules) (tree : Tree) (history : List Move) : Prop where
  answered : rules.connectedness ≠ .unrestricted → tree.Answered
  connected : rules.connectedness = .strong →
    tree.ConnectedExcept ((lastExpanded? history).getD 0)
  fringe : ∀ leaf, lastExpanded? history = some leaf → tree.ChildrenAreLeaves leaf

theorem threaded_start (rules : Rules) : Tree.start.Threaded rules [] where
  answered := by
    intro _ id node hinner
    exact absurd (start_node? hinner.found).1 (Nat.ne_of_gt hinner.positive)
  connected := by
    intro _ id node hnode hpositive
    exact absurd (start_node? hnode).1 (Nat.ne_of_gt hpositive)
  fringe := by
    intro leaf hlast
    cases hlast

end Tree

theorem State.Replays.threaded {clauses : ClauseSet} {formula : String} {rules : Rules}
    {state : State} (hreplays : (State.start clauses formula rules).Replays state) :
    state.tree.Threaded rules state.history := by
  refine hreplays.induction (motive := fun tree history => tree.Threaded rules history)
    (Tree.threaded_start rules) ?_ ?_
  · intro tree history leaf clauseId node clause hsound hthreaded hopen _ hstrong _ hlink
    refine ⟨?_, ?_, ?_⟩
    · intro hconnected
      exact (hthreaded.answered hconnected).extend hopen (hlink hconnected)
    · intro hrule
      rw [lastExpanded?_expand]
      exact (hstrong hrule).extend hopen _
    · intro last hlast
      rw [lastExpanded?_expand] at hlast
      cases hlast
      exact hsound.toLinked.childrenAreLeaves_extend hopen _
  · intro tree history leaf target node hsound hthreaded hopen _
    refine ⟨?_, ?_, ?_⟩
    · intro hconnected
      exact (hthreaded.answered hconnected).close leaf target
    · intro hrule
      rw [lastExpanded?_close]
      exact (hthreaded.connected hrule).close hsound.toLinked hopen
    · intro last hlast
      rw [lastExpanded?_close] at hlast
      exact (hthreaded.fringe last hlast).close leaf target

namespace Tree

variable {clauses : ClauseSet} {tree : Tree} {rules : Rules} {history : List Move}
  {id : Nat} {node : Node}

/-- Every inner node but the one that was expanded last has a leaf that was closed
against it. -/
theorem Threaded.secured (hthreaded : tree.Threaded rules history) (hsound : tree.Sound clauses)
    (hstrong : rules.connectedness = .strong) (hinner : tree.Inner id node)
    (hlast : lastExpanded? history ≠ some id) : tree.Secured id node := by
  have hid : id ≠ (lastExpanded? history).getD 0 := by
    cases hexpanded : lastExpanded? history with
    | none => exact Nat.ne_of_gt hinner.positive
    | some leaf =>
        rintro rfl
        exact hlast hexpanded
  have hconnected : tree.HasChild node fun below =>
      below.closed = true ∧ below.target = some id :=
    hthreaded.connected hstrong id node hinner.found hinner.positive hid hinner.expanded
  refine hconnected.mono ?_
  rintro child - below hbelow ⟨hclosed, htarget⟩
  exact ⟨⟨(hsound.closure hbelow htarget).1, hclosed⟩, htarget⟩

/-- In a closed tree every inner node has a contradicting child that is a closed leaf,
also the node that was expanded last. -/
theorem Threaded.closed_answer (hthreaded : tree.Threaded rules history)
    (hsound : tree.Sound clauses) (hstrong : rules.connectedness = .strong)
    (hclosed : tree.isClosed = true) (hinner : tree.Inner id node) :
    tree.HasChild node fun below => node.complements below = true ∧ below.ClosedLeaf := by
  by_cases hlast : lastExpanded? history = some id
  · have hanswered : tree.HasChild node (node.complements ·) :=
      hthreaded.answered (by simp [hstrong]) id node hinner
    refine hanswered.mono ?_
    intro child hchild below hbelow hcomplement
    have hparent : below.parent = some id :=
      (parent?_eq hbelow).symm.trans (hsound.child hinner.found hchild)
    have hleaf : below.children = [] :=
      hthreaded.fringe id hlast child below hbelow hparent
    exact ⟨hcomplement, hleaf, hsound.isClosed_iff.mp hclosed child below hbelow hleaf⟩
  · have hsecured := hthreaded.secured hsound hstrong hinner hlast
    refine HasChild.mono hsecured ?_
    rintro child - below hbelow ⟨hleaf, htarget⟩
    obtain ⟨-, -, -, found, above, hfound, habove, hcomplement⟩ := hsound.closure hbelow htarget
    cases hbelow.symm.trans hfound
    cases hinner.found.symm.trans habove
    refine ⟨?_, hleaf⟩
    have hliteral := Literal.complements_iff.mp hcomplement
    refine Literal.complements_iff.mpr ?_
    rw [hliteral, Literal.complement_complement]

end Tree

/-- Connectedness: whatever was expanded, closed and undone under a connected rule,
every inner node below the root has a child that contradicts it. Under the strong rule
every such node but the last one expanded has a leaf that was closed against it, so at
most one lacks it, and in a closed proof every one has a contradicting child that is a
closed leaf. -/
theorem connected_nodes_answered {alphabet : Alphabet} {formula : String} {rules : Rules}
    {first final : State} {moves : List Move}
    (hparse : Calculus.parse alphabet formula rules = .ok first)
    (hplay : Calculus.play first moves = .ok final)
    (hconnected : rules.connectedness ≠ .unrestricted) :
    (∀ id node, final.tree.Inner id node →
      final.tree.HasChild node (node.complements ·)) ∧
    (rules.connectedness = .strong →
      (∀ id node, final.tree.Inner id node → lastExpanded? final.history ≠ some id →
        final.tree.Secured id node) ∧
      (∀ id node other second, final.tree.Inner id node → final.tree.Inner other second →
        ¬ final.tree.Secured id node → ¬ final.tree.Secured other second → id = other) ∧
      ∃ result, Calculus.checkClose final = .ok result ∧ (result.closed = true →
        ∀ id node, final.tree.Inner id node → final.tree.HasChild node fun below =>
          node.complements below = true ∧ below.ClosedLeaf)) := by
  obtain ⟨clauses, bare, -, hrun, rfl⟩ := Calculus.exists_bare_run hparse hplay
  have hreplays := State.replays_of_rehearse hrun
  have hsound := hreplays.sound
  have hthreaded := hreplays.threaded
  refine ⟨hthreaded.answered hconnected, ?_⟩
  intro hstrong
  have hlast (id : Nat) (node : Node) (hinner : bare.tree.Inner id node)
      (hlacking : ¬ bare.tree.Secured id node) : lastExpanded? bare.history = some id :=
    Decidable.byContradiction fun hother =>
      hlacking (hthreaded.secured hsound hstrong hinner hother)
  refine ⟨?_, ?_, bare.verdict, ?_, ?_⟩
  · intro id node hinner hother
    exact hthreaded.secured hsound hstrong hinner hother
  · intro id node other second hinner hsecond hlacks hlacking
    have hsame := (hlast id node hinner hlacks).symm.trans (hlast other second hsecond hlacking)
    exact Option.some.inj hsame
  · exact (Calculus.play_of_rehearse hrun (State.defect?_eq_none.mpr hsound.toLinked)).2
  · intro hclosed id node hinner
    exact hthreaded.closed_answer hsound hstrong (State.verdict_closed.mp hclosed) hinner

/-- A closure is undone and made again before the second leaf is expanded: the first
node is secured, the second one is the last one expanded. -/
theorem connected_nodes_answered_deniedDisjunction :
    ∃ (first final : State) (node : Node),
      Calculus.parse .identifier "a,b;!a;!b" (⟨.strong, true, true⟩ : Rules) = .ok first ∧
      Calculus.play first [.expand 0 0, .expand 1 1, .close 3 1, .undo, .close 3 1,
        .expand 2 2] = .ok final ∧
      lastExpanded? final.history = some 2 ∧ final.tree.Inner 1 node ∧
      final.tree.HasChild node (node.complements ·) ∧ final.tree.Secured 1 node := by
  have hparse := State.parse_of_formula Formula.parse_deniedDisjunction ⟨.strong, true, true⟩
  obtain ⟨final, node, hrun, hsound, hlast, hnode, hexpanded⟩ : ∃ final node,
      Calculus.rehearse (State.start Formula.deniedDisjunction "a,b;!a;!b"
        ⟨.strong, true, true⟩) [.expand 0 0, .expand 1 1, .close 3 1, .undo, .close 3 1,
        .expand 2 2] = .ok final ∧ Calculus.defect? final = none ∧
      lastExpanded? final.history = some 2 ∧ final.tree.node? 1 = some node ∧
      node.children ≠ [] := ⟨_, _, rfl, rfl, rfl, rfl, by decide⟩
  have hplay := (Calculus.play_of_rehearse hrun hsound).1
  have hinner : final.tree.Inner 1 node := ⟨hnode, Nat.one_pos, hexpanded⟩
  have hother : lastExpanded? final.history ≠ some 1 := by simp [hlast]
  obtain ⟨hanswered, hstrong⟩ := connected_nodes_answered hparse hplay (by decide)
  exact ⟨_, _, node, hparse, hplay, hlast, hinner, hanswered 1 node hinner,
    (hstrong rfl).1 1 node hinner hother⟩

end Clausal.Tableau
