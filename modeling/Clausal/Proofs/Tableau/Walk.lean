import Mathlib.Logic.Relation
import Clausal.Tableau.Structure

/-!
Walks in proof trees. A tree without defects is linked: every node but the first
hangs below an earlier node that lists it. Going up therefore lowers the index
and ends at the root, so the bounded walks see every ancestor, and what they
compute is the path that the parent links describe.
-/

namespace Clausal.Tableau.Tree

/-- The links of a tree without defects. -/
structure Linked (tree : Tree) : Prop where
  root : ∃ node, tree.node? 0 = some node ∧ node.parent = none
  parent : ∀ {id node}, tree.node? id = some node → 0 < id →
    ∃ parent above, node.parent = some parent ∧ parent < id ∧
      tree.node? parent = some above ∧ id ∈ above.children
  child : ∀ {id node child}, tree.node? id = some node → child ∈ node.children →
    tree.parent? child = some id
  target : ∀ {id node target}, tree.node? id = some node → node.target = some target →
    target < tree.size

/-- The upper node is reached from the lower one by one or more parent links. -/
def Above (tree : Tree) (upper lower : Nat) : Prop :=
  Relation.TransGen (fun child parent => tree.parent? child = some parent) lower upper

theorem node?_eq_some_lt {tree : Tree} {id : Nat} {node : Node}
    (hnode : tree.node? id = some node) : id < tree.size :=
  (List.getElem?_eq_some_iff.mp hnode).1

theorem exists_node? {tree : Tree} {id : Nat} (hid : id < tree.size) :
    ∃ node, tree.node? id = some node :=
  ⟨tree.nodes[id], List.getElem?_eq_getElem hid⟩

theorem parent?_eq {tree : Tree} {id : Nat} {node : Node} (hnode : tree.node? id = some node) :
    tree.parent? id = node.parent := by
  simp [parent?, hnode]

theorem exists_node?_of_parent? {tree : Tree} {id parent : Nat}
    (hparent : tree.parent? id = some parent) :
    ∃ node, tree.node? id = some node ∧ node.parent = some parent :=
  Option.bind_eq_some_iff.mp hparent

theorem ancestors_eq_nil {tree : Tree} {id : Nat} (hparent : tree.parent? id = none) :
    tree.ancestors id = [] := by
  unfold ancestors
  cases tree.size <;> simp [climb, hparent]

/-- Every node of the first tree is in the second one, with the same parent and
the same literal. -/
def Within (first second : Tree) : Prop :=
  ∀ id before, first.node? id = some before → ∃ after, second.node? id = some after ∧
    after.parent = before.parent ∧ after.literal = before.literal

namespace Within

variable {first second third : Tree}

theorem refl (tree : Tree) : tree.Within tree :=
  fun _ node hnode => ⟨node, hnode, rfl, rfl⟩

theorem trans (hfirst : first.Within second) (hsecond : second.Within third) :
    first.Within third := by
  intro id before hbefore
  obtain ⟨middle, hmiddle, hparent, hliteral⟩ := hfirst id before hbefore
  obtain ⟨after, hafter, hparent', hliteral'⟩ := hsecond id middle hmiddle
  exact ⟨after, hafter, hparent'.trans hparent, hliteral'.trans hliteral⟩

theorem parent? (hwithin : first.Within second) {id parent : Nat}
    (hparent : first.parent? id = some parent) : second.parent? id = some parent := by
  obtain ⟨before, hbefore, hlink⟩ := exists_node?_of_parent? hparent
  obtain ⟨after, hafter, hsame, -⟩ := hwithin id before hbefore
  rw [parent?_eq hafter, hsame, hlink]

theorem above (hwithin : first.Within second) {upper lower : Nat}
    (habove : first.Above upper lower) : second.Above upper lower :=
  Relation.TransGen.mono (fun _ _ => hwithin.parent?) _ _ habove

end Within

theorem isLinked_iff {tree : Tree} {id : Nat} {node : Node} :
    tree.isLinked id node = true ↔ ∃ parent above, node.parent = some parent ∧
      parent < id ∧ tree.node? parent = some above ∧ id ∈ above.children := by
  unfold isLinked
  cases hparent : node.parent with
  | none => simp
  | some parent => simp [Option.any_eq_true]

theorem defectAt?_eq_none {tree : Tree} {id : Nat} {node : Node} :
    tree.defectAt? id node = none ↔
      (0 < id → tree.isLinked id node = true) ∧
      (∀ child ∈ node.children, tree.parent? child = some id) ∧
      ∀ target, node.target = some target → target < tree.size := by
  unfold defectAt?
  by_cases hlinked : 0 < id ∧ tree.isLinked id node = false
  · simp [hlinked.1, hlinked.2]
  · have hcheck : (0 < id && !tree.isLinked id node) = false := by
      simpa using hlinked
    have hlink : 0 < id → tree.isLinked id node = true := by simpa using hlinked
    rw [if_neg (by simp [hcheck])]
    cases hfind : node.children.find? fun child => tree.parent? child != some id with
    | some child =>
        have hforeign := List.find?_some hfind
        have hmember := List.mem_of_find?_eq_some hfind
        simp only [reduceCtorEq, false_iff]
        rintro ⟨-, hchildren, -⟩
        simp [hchildren child hmember] at hforeign
    | none =>
        have hchildren : ∀ child ∈ node.children, tree.parent? child = some id := by
          simpa using List.find?_eq_none.mp hfind
        have htarget : node.target.any (tree.size ≤ ·) = false ↔
            ∀ target, node.target = some target → target < tree.size := by
          cases node.target <;> simp
        rw [← htarget]
        cases node.target.any (tree.size ≤ ·) with
        | true => simp
        | false => exact ⟨fun _ => ⟨hlink, hchildren, rfl⟩, fun _ => rfl⟩

/-- The check of the structure accepts exactly the linked trees. -/
theorem defect?_eq_none {tree : Tree} : tree.defect? = none ↔ tree.Linked := by
  have hroot : tree.hasRoot = true ↔ ∃ node, tree.node? 0 = some node ∧ node.parent = none := by
    unfold hasRoot
    cases tree.node? 0 <;> simp
  have hnodes : (∀ entry ∈ tree.nodes.zipIdx, tree.defectAt? entry.2 entry.1 = none) ↔
      ∀ id node, tree.node? id = some node → tree.defectAt? id node = none := by
    constructor
    · intro h id node hnode
      exact h (node, id) (List.mem_zipIdx_iff_getElem?.mpr hnode)
    · rintro h ⟨node, id⟩ hmember
      exact h id node (List.mem_zipIdx_iff_getElem?.mp hmember)
  unfold defect?
  by_cases h : tree.hasRoot = true
  · rw [if_pos h, List.findSome?_eq_none_iff]
    refine Iff.trans hnodes ?_
    constructor
    · intro hsound
      refine ⟨hroot.mp h, ?_, ?_, ?_⟩
      · intro id node hnode hpositive
        exact isLinked_iff.mp ((defectAt?_eq_none.mp (hsound id node hnode)).1 hpositive)
      · intro id node child hnode hchild
        exact (defectAt?_eq_none.mp (hsound id node hnode)).2.1 child hchild
      · intro id node target hnode htarget
        exact (defectAt?_eq_none.mp (hsound id node hnode)).2.2 target htarget
    · intro hlinked id node hnode
      exact defectAt?_eq_none.mpr ⟨fun hpositive => isLinked_iff.mpr
        (hlinked.parent hnode hpositive), fun child => hlinked.child hnode,
        fun target => hlinked.target hnode⟩
  · rw [if_neg h]
    simp only [reduceCtorEq, false_iff]
    intro hlinked
    exact h (hroot.mpr hlinked.root)

namespace Linked

variable {tree : Tree}

theorem parent?_zero (hlinked : tree.Linked) : tree.parent? 0 = none := by
  obtain ⟨node, hnode, hparent⟩ := hlinked.root
  rw [parent?_eq hnode, hparent]

theorem exists_parent? (hlinked : tree.Linked) {id : Nat} (hid : id < tree.size)
    (hpositive : 0 < id) : ∃ parent, tree.parent? id = some parent := by
  obtain ⟨node, hnode⟩ := exists_node? hid
  obtain ⟨parent, -, hparent, -⟩ := hlinked.parent hnode hpositive
  exact ⟨parent, (parent?_eq hnode).trans hparent⟩

theorem pos_of_parent? (hlinked : tree.Linked) {id parent : Nat}
    (hparent : tree.parent? id = some parent) : 0 < id := by
  rcases Nat.eq_zero_or_pos id with rfl | hpositive
  · rw [hlinked.parent?_zero] at hparent
    cases hparent
  · exact hpositive

theorem parent?_lt (hlinked : tree.Linked) {id parent : Nat}
    (hparent : tree.parent? id = some parent) : parent < id := by
  obtain ⟨node, hnode, hlink⟩ := exists_node?_of_parent? hparent
  obtain ⟨other, -, hother, hlt, -⟩ := hlinked.parent hnode (hlinked.pos_of_parent? hparent)
  rw [hlink] at hother
  cases hother
  exact hlt

theorem exists_listing (hlinked : tree.Linked) {child id : Nat}
    (hparent : tree.parent? child = some id) :
    ∃ node, tree.node? id = some node ∧ child ∈ node.children := by
  obtain ⟨below, hbelow, hlink⟩ := exists_node?_of_parent? hparent
  obtain ⟨parent, node, hother, -, hnode, hmember⟩ :=
    hlinked.parent hbelow (hlinked.pos_of_parent? hparent)
  cases hlink.symm.trans hother
  exact ⟨node, hnode, hmember⟩

/-- What holds at the root and is handed down from parents to children holds at
every node. -/
theorem induction_down (hlinked : tree.Linked) {motive : Nat → Prop} (root : motive 0)
    (step : ∀ id parent, tree.parent? id = some parent → motive parent → motive id)
    (id : Nat) (hid : id < tree.size) : motive id := by
  induction id using Nat.strongRecOn with
  | ind id ih =>
      rcases Nat.eq_zero_or_pos id with rfl | hpositive
      · exact root
      · obtain ⟨parent, hparent⟩ := hlinked.exists_parent? hid hpositive
        have hlt := hlinked.parent?_lt hparent
        exact step id parent hparent (ih parent hlt (Nat.lt_trans hlt hid))

/-- What every node has as soon as all its children have it holds at every node. -/
theorem induction_up (hlinked : tree.Linked) {motive : Nat → Prop}
    (step : ∀ id node, tree.node? id = some node →
      (∀ child ∈ node.children, motive child) → motive id)
    (id : Nat) (hid : id < tree.size) : motive id := by
  -- Children come after their parents, so the induction runs from the last node down.
  induction hdepth : tree.size - id using Nat.strongRecOn generalizing id with
  | ind depth ih =>
      obtain ⟨node, hnode⟩ := exists_node? hid
      apply step id node hnode
      intro child hchild
      have hparent := hlinked.child hnode hchild
      have hlt := hlinked.parent?_lt hparent
      obtain ⟨below, hbelow, -⟩ := exists_node?_of_parent? hparent
      have hsize := node?_eq_some_lt hbelow
      exact ih (tree.size - child) (by omega) child hsize rfl

theorem climb_stable (hlinked : tree.Linked) {id first second : Nat}
    (hfirst : id ≤ first) (hsecond : id ≤ second) :
    tree.climb first id = tree.climb second id := by
  induction first generalizing id second with
  | zero =>
      obtain rfl : id = 0 := by omega
      cases second <;> simp [climb, hlinked.parent?_zero]
  | succ first ih =>
      cases second with
      | zero =>
          obtain rfl : id = 0 := by omega
          simp [climb, hlinked.parent?_zero]
      | succ second =>
          simp only [climb]
          cases hparent : tree.parent? id with
          | none => rfl
          | some parent =>
              have hlt := hlinked.parent?_lt hparent
              have hrest : tree.climb first parent = tree.climb second parent :=
                ih (by omega) (by omega)
              simp only [hrest]

theorem ancestors_of_parent? (hlinked : tree.Linked) {id parent : Nat}
    (hparent : tree.parent? id = some parent) :
    tree.ancestors id = parent :: tree.ancestors parent := by
  have hlt := hlinked.parent?_lt hparent
  obtain ⟨node, hnode, -⟩ := exists_node?_of_parent? hparent
  have hid := node?_eq_some_lt hnode
  have hsteps : tree.ancestors id = tree.climb (tree.size + 1) id :=
    hlinked.climb_stable (by omega) (by omega)
  rw [hsteps, climb, hparent]
  rfl

theorem ancestors_zero (hlinked : tree.Linked) : tree.ancestors 0 = [] :=
  ancestors_eq_nil hlinked.parent?_zero

/-- The walk upwards meets exactly the nodes above its start. -/
theorem mem_ancestors (hlinked : tree.Linked) {upper lower : Nat} :
    upper ∈ tree.ancestors lower ↔ tree.Above upper lower := by
  constructor
  · intro hmember
    induction lower using Nat.strongRecOn with
    | ind lower ih =>
        cases hparent : tree.parent? lower with
        | none =>
            rw [ancestors_eq_nil hparent] at hmember
            cases hmember
        | some parent =>
            rw [hlinked.ancestors_of_parent? hparent, List.mem_cons] at hmember
            rcases hmember with rfl | hmember
            · exact .single hparent
            · exact .head hparent (ih parent (hlinked.parent?_lt hparent) hmember)
  · intro habove
    induction habove using Relation.TransGen.head_induction_on with
    | single hparent => simp [hlinked.ancestors_of_parent? hparent]
    | head hparent _ ih => simp [hlinked.ancestors_of_parent? hparent, ih]

theorem above_iff (hlinked : tree.Linked) {upper lower parent : Nat}
    (hparent : tree.parent? lower = some parent) :
    tree.Above upper lower ↔ upper = parent ∨ tree.Above upper parent := by
  rw [← hlinked.mem_ancestors, hlinked.ancestors_of_parent? hparent, List.mem_cons,
    hlinked.mem_ancestors]

theorem isAncestor_iff (hlinked : tree.Linked) {upper lower : Nat} :
    tree.isAncestor upper lower = true ↔ tree.Above upper lower := by
  rw [isAncestor, decide_eq_true_iff, hlinked.mem_ancestors]

theorem above_lt (hlinked : tree.Linked) {upper lower : Nat} (habove : tree.Above upper lower) :
    upper < lower := by
  induction habove with
  | single hparent => exact hlinked.parent?_lt hparent
  | tail _ hparent ih => exact Nat.lt_trans (hlinked.parent?_lt hparent) ih

theorem branch_zero (hlinked : tree.Linked) : tree.branch 0 = [] := by
  simp [branch, hlinked.ancestors_zero]

theorem branch_of_parent? (hlinked : tree.Linked) {id parent : Nat}
    (hparent : tree.parent? id = some parent) : tree.branch id = id :: tree.branch parent := by
  simp [branch, hlinked.ancestors_of_parent? hparent]

/-- The branch of a node is the path from it up to the root, without the root. -/
theorem mem_branch (hlinked : tree.Linked) {other id : Nat} (hid : id < tree.size) :
    other ∈ tree.branch id ↔ 0 < other ∧ (other = id ∨ tree.Above other id) := by
  refine hlinked.induction_down (motive := fun id => other ∈ tree.branch id ↔
    0 < other ∧ (other = id ∨ tree.Above other id)) ?_ ?_ id hid
  · have hnone : ¬ tree.Above other 0 := fun habove =>
      Nat.not_lt_zero other (hlinked.above_lt habove)
    simp only [hlinked.branch_zero, List.not_mem_nil, hnone, or_false, false_iff]
    omega
  · intro id parent hparent ih
    have hpositive := hlinked.pos_of_parent? hparent
    rw [hlinked.branch_of_parent? hparent, List.mem_cons, ih, hlinked.above_iff hparent]
    constructor
    · rintro (rfl | ⟨hother, hcase⟩)
      · exact ⟨hpositive, .inl rfl⟩
      · exact ⟨hother, .inr hcase⟩
    · rintro ⟨hother, rfl | hcase⟩
      · exact .inl rfl
      · exact .inr ⟨hother, hcase⟩

theorem branchCarries_zero (hlinked : tree.Linked) (literal : Literal) :
    tree.branchCarries 0 literal = false := by
  simp [branchCarries, hlinked.branch_zero]

theorem branchCarries_of_parent (hlinked : tree.Linked) {id parent : Nat} {node : Node}
    (hnode : tree.node? id = some node) (hparent : node.parent = some parent)
    (literal : Literal) :
    tree.branchCarries id literal = true ↔
      node.literal = literal ∨ tree.branchCarries parent literal = true := by
  have hbranch := hlinked.branch_of_parent? ((parent?_eq hnode).trans hparent)
  simp [branchCarries, hbranch, hnode, Node.carries]

end Linked

/-- Branches carry the same literals in every linked tree that they are part of. -/
theorem Within.branchCarries {first second : Tree} (hwithin : first.Within second)
    (hfirst : first.Linked) (hsecond : second.Linked) {id : Nat} (hid : id < first.size)
    (literal : Literal) :
    second.branchCarries id literal = first.branchCarries id literal := by
  refine hfirst.induction_down (motive := fun id =>
    second.branchCarries id literal = first.branchCarries id literal) ?_ ?_ id hid
  · rw [hfirst.branchCarries_zero, hsecond.branchCarries_zero]
  · intro id parent hparent ih
    obtain ⟨before, hbefore, hlink⟩ := exists_node?_of_parent? hparent
    obtain ⟨after, hafter, hsame, hliteral⟩ := hwithin id before hbefore
    rw [Bool.eq_iff_iff, hfirst.branchCarries_of_parent hbefore hlink,
      hsecond.branchCarries_of_parent hafter (hsame.trans hlink), hliteral, ih]

end Clausal.Tableau.Tree
