import Clausal.ClauseSet
import Clausal.Proofs.Tableau.Growth

/-!
The invariant of the proof trees of a clause set. A tree is shaped by the clauses
when the children of every inner node spell out one of them and every target
contradicts the leaf that was closed against it. Its marks are settled when a
leaf is closed exactly if it has a target, and an inner node exactly if all its
children are closed. Growth and closing keep both, although closing only looks at
the nodes above the leaf.
-/

namespace Clausal.Tableau.Tree

def literal? (tree : Tree) (id : Nat) : Option Literal := (tree.node? id).map Node.literal

theorem literal?_eq {tree : Tree} {id : Nat} {node : Node} (hnode : tree.node? id = some node) :
    tree.literal? id = some node.literal := by
  rw [literal?, hnode]
  rfl

/-- The target lies above the node, below the root, and carries the complementary
literal. -/
def Contradicts (tree : Tree) (target id : Nat) : Prop :=
  0 < target ∧ tree.Above target id ∧ ∃ node above, tree.node? id = some node ∧
    tree.node? target = some above ∧ node.complements above = true

structure Shaped (clauses : ClauseSet) (tree : Tree) : Prop extends Linked tree where
  clause : ∀ {id node}, tree.node? id = some node → node.children ≠ [] →
    ∃ clause ∈ clauses.clauses, ∃ first,
      node.children = List.range' first clause.size ∧
      node.children.map tree.literal? = clause.literals.map some
  closure : ∀ {id node target}, tree.node? id = some node → node.target = some target →
    node.children = [] ∧ tree.Contradicts target id

/-- The marks of the tree are right, but the hole may be open although all its
children are closed. -/
structure SettledExcept (tree : Tree) (hole : Option Nat) : Prop where
  leaf : ∀ {id node}, tree.node? id = some node → node.children = [] →
    (node.closed = true ↔ node.target.isSome = true)
  down : ∀ {id node}, tree.node? id = some node → node.children ≠ [] → node.closed = true →
    ∀ child ∈ node.children, tree.isClosedAt child = true
  up : ∀ {id node}, tree.node? id = some node → node.children ≠ [] → some id ≠ hole →
    (∀ child ∈ node.children, tree.isClosedAt child = true) → node.closed = true

structure Sound (clauses : ClauseSet) (tree : Tree) : Prop extends Shaped clauses tree where
  settled : tree.SettledExcept none

variable {clauses : ClauseSet} {tree : Tree}

theorem Contradicts.within {grown : Tree} {target id : Nat}
    (h : tree.Contradicts target id) (hwithin : tree.Within grown) :
    grown.Contradicts target id := by
  obtain ⟨hpositive, habove, node, above, hnode, htarget, hcomplement⟩ := h
  obtain ⟨after, hafter, -, hliteral⟩ := hwithin id node hnode
  obtain ⟨reached, hreached, -, hother⟩ := hwithin target above htarget
  refine ⟨hpositive, hwithin.above habove, after, reached, hafter, hreached, ?_⟩
  rwa [Node.complements, hliteral, hother]

/-- A change of marks and targets keeps the links if every target exists. -/
theorem Linked.relabel {changed : Tree} (hlinked : tree.Linked)
    (hsize : changed.size = tree.size)
    (hnodes : ∀ id after, changed.node? id = some after → ∃ before,
      tree.node? id = some before ∧ after.parent = before.parent ∧
      after.children = before.children ∧
      ∀ target, after.target = some target → target < tree.size) :
    changed.Linked := by
  constructor
  · obtain ⟨node, hnode, hparent⟩ := hlinked.root
    obtain ⟨after, hafter, hsame, -⟩ := exists_changed hsize hnodes hnode
    exact ⟨after, hafter, hsame.trans hparent⟩
  · intro id after hafter hpositive
    obtain ⟨before, hbefore, hsame, -⟩ := hnodes id after hafter
    obtain ⟨parent, above, hparent, hlt, habove, hmember⟩ := hlinked.parent hbefore hpositive
    obtain ⟨reached, hreached, -, hchildren, -⟩ := exists_changed hsize hnodes habove
    exact ⟨parent, reached, hsame.trans hparent, hlt, hreached, hchildren ▸ hmember⟩
  · intro id after child hafter hchild
    obtain ⟨before, hbefore, -, hchildren, -⟩ := hnodes id after hafter
    have hparent := hlinked.child hbefore (hchildren ▸ hchild)
    obtain ⟨below, hbelow, hlink⟩ := exists_node?_of_parent? hparent
    obtain ⟨reached, hreached, hsame, -⟩ := exists_changed hsize hnodes hbelow
    rw [parent?_eq hreached, hsame, hlink]
  · intro id after target hafter htarget
    obtain ⟨-, -, -, -, htargets⟩ := hnodes id after hafter
    rw [hsize]
    exact htargets target htarget

/-- A change of marks and targets keeps the shape if every new target contradicts
its leaf. -/
theorem Shaped.relabel {changed : Tree} (hshaped : tree.Shaped clauses)
    (hsize : changed.size = tree.size)
    (hnodes : ∀ id after, changed.node? id = some after → ∃ before,
      tree.node? id = some before ∧ after.parent = before.parent ∧
      after.literal = before.literal ∧ after.children = before.children ∧
      ∀ target, after.target = some target →
        before.target = some target ∨ before.children = [] ∧ tree.Contradicts target id) :
    changed.Shaped clauses := by
  have hwithin : tree.Within changed := by
    intro id before hbefore
    obtain ⟨after, hafter, hparent, hliteral, -⟩ := exists_changed hsize hnodes hbefore
    exact ⟨after, hafter, hparent, hliteral⟩
  have hliterals : changed.literal? = tree.literal? := by
    funext id
    unfold literal?
    cases hbefore : tree.node? id with
    | none =>
        cases hafter : changed.node? id with
        | none => rfl
        | some after =>
            obtain ⟨before, hfound, -⟩ := hnodes id after hafter
            cases hbefore.symm.trans hfound
    | some before =>
        obtain ⟨after, hafter, -, hliteral, -⟩ := exists_changed hsize hnodes hbefore
        simp [hafter, hliteral]
  refine ⟨hshaped.toLinked.relabel hsize ?_, ?_, ?_⟩
  · intro id after hafter
    obtain ⟨before, hbefore, hparent, -, hchildren, htargets⟩ := hnodes id after hafter
    refine ⟨before, hbefore, hparent, hchildren, ?_⟩
    intro target htarget
    rcases htargets target htarget with hold | ⟨-, -, -, -, above, -, habove, -⟩
    · exact hshaped.target hbefore hold
    · exact node?_eq_some_lt habove
  · intro id after hafter hinner
    obtain ⟨before, hbefore, -, -, hchildren, -⟩ := hnodes id after hafter
    rw [hliterals, hchildren]
    exact hshaped.clause hbefore (hchildren ▸ hinner)
  · intro id after target hafter htarget
    obtain ⟨before, hbefore, -, -, hchildren, htargets⟩ := hnodes id after hafter
    rw [hchildren]
    rcases htargets target htarget with hold | ⟨hleaf, hnew⟩
    · obtain ⟨hleaf, hcontradicts⟩ := hshaped.closure hbefore hold
      exact ⟨hleaf, hcontradicts.within hwithin⟩
    · exact ⟨hleaf, hnew.within hwithin⟩

theorem Shaped.of_skeleton {changed : Tree} (hshaped : tree.Shaped clauses)
    (hskeleton : changed.skeleton = tree.skeleton) : changed.Shaped clauses := by
  refine hshaped.relabel (size_of_skeleton hskeleton) ?_
  intro id after hafter
  obtain ⟨before, hbefore, hsame⟩ := exists_node?_of_skeleton hskeleton hafter
  obtain ⟨hparent, hliteral, htarget, hchildren⟩ := Node.skeleton_eq_iff.mp hsame
  refine ⟨before, hbefore, hparent.symm, hliteral.symm, hchildren.symm, ?_⟩
  intro target hfound
  exact .inl (htarget.trans hfound)

/-- Closing a node whose children are all closed moves the hole to its parent. -/
theorem SettledExcept.mark (hlinked : tree.Linked) {id : Nat} {node : Node}
    {change : Node → Node} (hsettled : tree.SettledExcept (some id))
    (hnode : tree.node? id = some node) (hclosed : (change node).closed = true)
    (hchildren : (change node).children = node.children)
    (hleaf : node.children = [] → (change node).target.isSome = true)
    (hall : ∀ child ∈ node.children, tree.isClosedAt child = true) :
    (tree.modify id change).SettledExcept (tree.parent? id) := by
  have hself : (tree.modify id change).node? id = some (change node) :=
    node?_modify_self hnode
  have hmono (other : Nat) (h : tree.isClosedAt other = true) :
      (tree.modify id change).isClosedAt other = true := by
    by_cases hid : id = other
    · subst hid
      rw [isClosedAt_eq hself, hclosed]
    · rw [isClosedAt, node?_modify_ne hid]
      exact h
  constructor
  · intro other after hafter hempty
    by_cases hid : id = other
    · subst hid
      cases hself.symm.trans hafter
      simp [hclosed, hleaf (hchildren ▸ hempty)]
    · rw [node?_modify_ne hid] at hafter
      exact hsettled.leaf hafter hempty
  · intro other after hafter hinner hmarked child hchild
    apply hmono
    by_cases hid : id = other
    · subst hid
      cases hself.symm.trans hafter
      exact hall child (hchildren ▸ hchild)
    · rw [node?_modify_ne hid] at hafter
      exact hsettled.down hafter hinner hmarked child hchild
  · intro other after hafter hinner hhole hbelow
    by_cases hid : id = other
    · subst hid
      cases hself.symm.trans hafter
      exact hclosed
    · rw [node?_modify_ne hid] at hafter
      refine hsettled.up hafter hinner (by simpa using Ne.symm hid) ?_
      intro child hchild
      -- The new mark is no child of this node, for this node is not its parent.
      have hother : id ≠ child := by
        rintro rfl
        exact hhole (hlinked.child hafter hchild).symm
      have hbelow' := hbelow child hchild
      rwa [isClosedAt, node?_modify_ne hother] at hbelow'

theorem SettledExcept.closeUpward (hshaped : tree.Shaped clauses) {start : Option Nat}
    {steps : Nat} (hsettled : tree.SettledExcept start)
    (hstart : ∀ id, start = some id → id < steps ∧ ∃ child, tree.parent? child = some id) :
    (tree.closeUpward steps start).SettledExcept none := by
  induction steps generalizing tree start with
  | zero =>
      cases start with
      | none => exact hsettled
      | some id => exact absurd (hstart id rfl).1 (Nat.not_lt_zero id)
  | succ steps ih =>
      cases start with
      | none => exact hsettled
      | some id =>
          obtain ⟨hsteps, child, hchild⟩ := hstart id rfl
          obtain ⟨node, hnode, hmember⟩ := hshaped.toLinked.exists_listing hchild
          have hinner : node.children ≠ [] := List.ne_nil_of_mem hmember
          rw [Tree.closeUpward, hnode]
          simp only
          split
          · next hall =>
              have hskeleton :
                  (tree.modify id fun node => { node with closed := true }).skeleton =
                    tree.skeleton := skeleton_modify fun _ => rfl
              have hmarked :
                  (tree.modify id fun node => { node with closed := true }).SettledExcept
                    (tree.parent? id) :=
                hsettled.mark hshaped.toLinked hnode rfl rfl
                  (fun hempty => absurd hempty hinner) (List.all_eq_true.mp hall)
              rw [parent?_eq hnode] at hmarked
              refine ih (hshaped.of_skeleton hskeleton) hmarked ?_
              intro upper hupper
              have hlinkUp : tree.parent? id = some upper := (parent?_eq hnode).trans hupper
              have hlt := hshaped.toLinked.parent?_lt hlinkUp
              exact ⟨by omega, id, (Within.of_skeleton hskeleton.symm).parent? hlinkUp⟩
          · next hopen =>
              refine ⟨hsettled.leaf, hsettled.down, ?_⟩
              intro other after hafter hother _ hbelow'
              by_cases hid : other = id
              · subst hid
                cases hnode.symm.trans hafter
                exact absurd (List.all_eq_true.mpr hbelow') hopen
              · exact hsettled.up hafter hother (by simpa using hid) hbelow'

/-- Closing an open leaf against a node that contradicts it keeps the invariant. -/
theorem Sound.close (hsound : tree.Sound clauses) {leaf target : Nat} {node : Node}
    (hopen : tree.OpenLeaf leaf node) (htarget : tree.Contradicts target leaf) :
    (tree.close leaf target).Sound clauses := by
  obtain ⟨hnode, hleaf, -⟩ := hopen
  have hself : (tree.modify leaf (·.closedAgainst target)).node? leaf =
      some (node.closedAgainst target) := node?_modify_self hnode
  have hmarked : (tree.modify leaf (·.closedAgainst target)).Shaped clauses := by
    refine hsound.toShaped.relabel (size_modify _ _ _) ?_
    intro id after hafter
    by_cases hid : leaf = id
    · subst hid
      cases hself.symm.trans hafter
      refine ⟨node, hnode, rfl, rfl, rfl, ?_⟩
      intro other hother
      cases hother
      exact .inr ⟨hleaf, htarget⟩
    · rw [node?_modify_ne hid] at hafter
      exact ⟨after, hafter, rfl, rfl, rfl, fun _ => .inl⟩
  have hsettled : (tree.modify leaf (·.closedAgainst target)).SettledExcept
      (tree.parent? leaf) := by
    refine SettledExcept.mark hsound.toLinked ?_ hnode rfl rfl (fun _ => rfl) (by simp [hleaf])
    exact ⟨hsound.settled.leaf, hsound.settled.down,
      fun hafter hinner _ => hsound.settled.up hafter hinner (by simp)⟩
  refine ⟨hmarked.of_skeleton (skeleton_close tree leaf target), ?_⟩
  rw [close_eq]
  refine hsettled.closeUpward hmarked ?_
  intro id hid
  have hlt := hsound.toLinked.parent?_lt hid
  have hsize := node?_eq_some_lt hnode
  exact ⟨by omega, leaf, (within_closedAgainst tree leaf target).1.parent? hid⟩

theorem SettledExcept.target_eq_none {hole : Option Nat} (hsettled : tree.SettledExcept hole)
    {id : Nat} {node : Node} (hopen : tree.OpenLeaf id node) : node.target = none := by
  have hmark := hsettled.leaf hopen.found hopen.leaf
  rw [hopen.mark] at hmark
  cases htarget : node.target with
  | none => rfl
  | some target => simp [htarget] at hmark

theorem Linked.child_lt (hlinked : tree.Linked) {id child : Nat} {node : Node}
    (hnode : tree.node? id = some node) (hchild : child ∈ node.children) :
    child < tree.size := by
  obtain ⟨below, hbelow, -⟩ := exists_node?_of_parent? (hlinked.child hnode hchild)
  exact node?_eq_some_lt hbelow

theorem Linked.extend (hlinked : tree.Linked) {leaf : Nat} {node : Node}
    (hnode : tree.node? leaf = some node) (literals : List Literal) :
    (tree.extend leaf literals).Linked := by
  have hwithin := within_extend tree leaf literals
  constructor
  · obtain ⟨root, hroot, hparent⟩ := hlinked.root
    obtain ⟨after, hafter, hsame, -⟩ := hwithin 0 root hroot
    exact ⟨after, hafter, hsame.trans hparent⟩
  · intro id after hafter hpositive
    rcases Nat.lt_or_ge id tree.size with hold | hnew
    · obtain ⟨before, hbefore⟩ := exists_node? hold
      obtain ⟨other, hother, hsame, -⟩ := hwithin id before hbefore
      cases hafter.symm.trans hother
      obtain ⟨parent, above, hparent, hlt, habove, hmember⟩ := hlinked.parent hbefore hpositive
      obtain ⟨reached, hreached, -, -, -, -, hchildren⟩ :=
        exists_node?_extend habove leaf literals
      refine ⟨parent, reached, hsame.trans hparent, hlt, hreached, ?_⟩
      rw [hchildren]
      exact List.mem_append_left _ hmember
    · obtain ⟨index, rfl⟩ := Nat.exists_eq_add_of_le hnew
      rw [node?_extend_new] at hafter
      obtain ⟨literal, hliteral, rfl⟩ := Option.map_eq_some_iff.mp hafter
      obtain ⟨reached, hreached, -, -, -, -, hchildren⟩ :=
        exists_node?_extend hnode leaf literals
      have hlt := node?_eq_some_lt hnode
      have hindex := (List.getElem?_eq_some_iff.mp hliteral).1
      refine ⟨leaf, reached, rfl, by omega, hreached, ?_⟩
      rw [hchildren, if_pos rfl, List.mem_append]
      exact .inr (List.mem_range'_1.mpr ⟨by omega, by omega⟩)
  · intro id after child hafter hchild
    rcases node?_extend_cases hafter with
      ⟨before, hbefore, -, rfl⟩ | ⟨before, hbefore, rfl, rfl⟩ | ⟨_, _, -, -, rfl⟩
    · exact hwithin.parent? (hlinked.child hbefore hchild)
    · rcases List.mem_append.mp hchild with hold | hnew
      · exact hwithin.parent? (hlinked.child hbefore hold)
      · obtain ⟨literal, -, hopen⟩ := exists_openLeaf_extend hnew id
        exact parent?_eq hopen.found
    · cases hchild
  · intro id after target hafter htarget
    rw [size_extend]
    rcases node?_extend_cases hafter with
      ⟨before, hbefore, -, rfl⟩ | ⟨before, hbefore, rfl, rfl⟩ | ⟨_, _, -, -, rfl⟩
    · exact Nat.lt_add_right _ (hlinked.target hbefore htarget)
    · exact Nat.lt_add_right _ (hlinked.target hbefore htarget)
    · cases htarget

theorem literal?_extend_old {id other : Nat} (hother : other < tree.size)
    (literals : List Literal) :
    (tree.extend id literals).literal? other = tree.literal? other := by
  obtain ⟨before, hbefore⟩ := exists_node? hother
  obtain ⟨after, hafter, -, hliteral⟩ := within_extend tree id literals other before hbefore
  simp [literal?, hbefore, hafter, hliteral]

theorem map_literal?_extend_new (id : Nat) (literals : List Literal) :
    (List.range' tree.size literals.length).map (tree.extend id literals).literal? =
      literals.map some := by
  apply List.ext_getElem?
  intro index
  rcases Nat.lt_or_ge index literals.length with hlt | hge
  · simp [literal?, node?_extend_new, hlt, Node.leaf]
  · simp [hge]

theorem Shaped.extend (hshaped : tree.Shaped clauses) {leaf : Nat} {node : Node}
    {clause : Clause} (hnode : tree.node? leaf = some node) (hleaf : node.children = [])
    (htarget : node.target = none) (hclause : clause ∈ clauses.clauses) :
    (tree.extend leaf clause.literals).Shaped clauses := by
  have hwithin := within_extend tree leaf clause.literals
  refine ⟨hshaped.toLinked.extend hnode _, ?_, ?_⟩
  · intro id after hafter hinner
    rcases node?_extend_cases hafter with
      ⟨before, hbefore, -, rfl⟩ | ⟨before, hbefore, rfl, rfl⟩ | ⟨_, _, -, -, rfl⟩
    · obtain ⟨other, hother, first, hfirst, hliterals⟩ := hshaped.clause hbefore hinner
      refine ⟨other, hother, first, hfirst, ?_⟩
      rw [← hliterals]
      apply List.map_congr_left
      intro child hchild
      exact literal?_extend_old (hshaped.toLinked.child_lt hbefore hchild) _
    · cases hbefore.symm.trans hnode
      refine ⟨clause, hclause, tree.size, ?_, ?_⟩
      · simp [hleaf, Clause.size]
      · simp only [hleaf, List.nil_append]
        exact map_literal?_extend_new _ _
    · exact absurd rfl hinner
  · intro id after target hafter hfound
    rcases node?_extend_cases hafter with
      ⟨before, hbefore, -, rfl⟩ | ⟨before, hbefore, rfl, rfl⟩ | ⟨_, _, -, -, rfl⟩
    · obtain ⟨hempty, hcontradicts⟩ := hshaped.closure hbefore hfound
      exact ⟨hempty, hcontradicts.within hwithin⟩
    · cases hbefore.symm.trans hnode
      cases htarget.symm.trans hfound
    · cases hfound

/-- Hanging the literals of a clause below an open leaf keeps the invariant. -/
theorem Sound.extend (hsound : tree.Sound clauses) {leaf : Nat} {node : Node} {clause : Clause}
    (hleaf : tree.OpenLeaf leaf node) (hclause : clause ∈ clauses.clauses) :
    (tree.extend leaf clause.literals).Sound clauses := by
  have htarget := hsound.settled.target_eq_none hleaf
  obtain ⟨hnode, hleaf, hopen⟩ := hleaf
  refine ⟨hsound.toShaped.extend hnode hleaf htarget hclause, ?_, ?_, ?_⟩
  · intro id after hafter hempty
    rcases node?_extend_cases hafter with
      ⟨before, hbefore, -, rfl⟩ | ⟨before, hbefore, rfl, rfl⟩ | ⟨_, _, -, -, rfl⟩
    · exact hsound.settled.leaf hbefore hempty
    · cases hbefore.symm.trans hnode
      simp [hopen, htarget]
    · simp [Node.leaf]
  · intro id after hafter hinner hmarked child hchild
    rcases node?_extend_cases hafter with
      ⟨before, hbefore, -, rfl⟩ | ⟨before, hbefore, rfl, rfl⟩ | ⟨_, _, -, -, rfl⟩
    · rw [isClosedAt_extend (hsound.toLinked.child_lt hbefore hchild)]
      exact hsound.settled.down hbefore hinner hmarked child hchild
    · cases hbefore.symm.trans hnode
      cases hopen.symm.trans hmarked
    · cases hchild
  · intro id after hafter hinner _ hall
    rcases node?_extend_cases hafter with
      ⟨before, hbefore, -, rfl⟩ | ⟨before, hbefore, rfl, rfl⟩ | ⟨_, _, -, -, rfl⟩
    · refine hsound.settled.up hbefore hinner (by simp) ?_
      intro child hchild
      rw [← isClosedAt_extend (hsound.toLinked.child_lt hbefore hchild) leaf clause.literals]
      exact hall child hchild
    · -- The new children are open, and there is at least one.
      cases hbefore.symm.trans hnode
      simp only [hleaf, List.nil_append] at hinner hall
      obtain ⟨child, hchild⟩ := List.exists_mem_of_ne_nil _ hinner
      obtain ⟨literal, -, hnew⟩ := exists_openLeaf_extend hchild id
      have hclosed := hall child hchild
      rw [isClosedAt_eq hnew.found] at hclosed
      cases hnew.mark.symm.trans hclosed
    · exact absurd rfl hinner

theorem start_node? {id : Nat} {node : Node} (hnode : Tree.start.node? id = some node) :
    id = 0 ∧ node = .root := by
  cases id with
  | zero => exact ⟨rfl, (Option.some.inj hnode).symm⟩
  | succ id => simp [Tree.start, node?] at hnode

theorem Sound.start (clauses : ClauseSet) : Tree.start.Sound clauses := by
  refine ⟨⟨⟨⟨.root, rfl, rfl⟩, ?_, ?_, ?_⟩, ?_, ?_⟩, ?_, ?_, ?_⟩
  · intro id node hnode hpositive
    exact absurd (start_node? hnode).1 (Nat.ne_of_gt hpositive)
  · intro id node child hnode hchild
    rw [(start_node? hnode).2] at hchild
    cases hchild
  · intro id node target hnode htarget
    rw [(start_node? hnode).2] at htarget
    cases htarget
  · intro id node hnode hinner
    rw [(start_node? hnode).2] at hinner
    exact absurd rfl hinner
  · intro id node target hnode htarget
    rw [(start_node? hnode).2] at htarget
    cases htarget
  · intro id node hnode _
    rw [(start_node? hnode).2]
    simp [Node.root]
  · intro id node hnode hinner
    rw [(start_node? hnode).2] at hinner
    exact absurd rfl hinner
  · intro id node hnode hinner
    rw [(start_node? hnode).2] at hinner
    exact absurd rfl hinner

/-- Nothing above an open node is closed. -/
theorem Sound.open_above (hsound : tree.Sound clauses) {upper lower : Nat}
    (habove : tree.Above upper lower) (hopen : tree.isClosedAt lower = false) :
    tree.isClosedAt upper = false := by
  -- One link up: a closed parent would have closed this child.
  have hlink (child parent : Nat) (hparent : tree.parent? child = some parent)
      (hchild : tree.isClosedAt child = false) : tree.isClosedAt parent = false := by
    obtain ⟨above, habove, hmember⟩ := hsound.toLinked.exists_listing hparent
    rw [isClosedAt_eq habove, Bool.eq_false_iff]
    intro hclosed
    have hdown := hsound.settled.down habove (List.ne_nil_of_mem hmember) hclosed child hmember
    rw [hchild] at hdown
    cases hdown
  induction habove with
  | single hparent => exact hlink _ _ hparent hopen
  | tail _ hparent ih => exact hlink _ _ hparent ih

/-- Reopening a leaf that was just closed gives back the tree. The walk upwards
opens more nodes than the closure closed, but those were open before. -/
theorem Sound.reopen_close (hsound : tree.Sound clauses) {leaf target : Nat} {node : Node}
    (hopen : tree.OpenLeaf leaf node) (htarget : tree.Contradicts target leaf) :
    (tree.close leaf target).reopen leaf = tree := by
  have hclosed := hsound.close hopen htarget
  have hnone := hsound.settled.target_eq_none hopen
  obtain ⟨hnode, hleaf, hopen⟩ := hopen
  have hwithin := within_close tree leaf target
  have hself : ¬ tree.Above leaf leaf := fun h => Nat.lt_irrefl _ (hsound.toLinked.above_lt h)
  ext1 id
  have hancestor : id ∈ (tree.close leaf target).ancestors leaf ↔ tree.Above id leaf := by
    rw [hclosed.toLinked.mem_ancestors]
    exact ⟨hwithin.2.above, hwithin.1.above⟩
  rw [node?_reopen, node?_modify]
  by_cases hid : leaf = id
  · subst hid
    rw [if_neg fun h => hself (hancestor.mp h), if_pos rfl,
      hsound.toLinked.node?_close_self hnode target, hnode]
    cases node
    simp_all [Node.closedAgainst, Node.reopened]
  · rw [if_neg hid]
    by_cases habove : tree.Above id leaf
    · rw [if_pos (hancestor.mpr habove)]
      have hupper := hsound.open_above habove ((isClosedAt_eq hnode).trans hopen)
      have hsize := node?_eq_some_lt hnode
      have hlt := hsound.toLinked.above_lt habove
      obtain ⟨before, hbefore⟩ := exists_node? (Nat.lt_trans hlt hsize)
      obtain ⟨after, hafter, hsame, -⟩ := exists_node?_close target (Ne.symm hid) hbefore
      rw [isClosedAt_eq hbefore] at hupper
      rw [hafter, hbefore]
      cases before
      cases hupper
      exact congrArg some hsame
    · rw [if_neg fun h => habove (hancestor.mp h), node?_close habove, node?_modify_ne hid]

end Clausal.Tableau.Tree
