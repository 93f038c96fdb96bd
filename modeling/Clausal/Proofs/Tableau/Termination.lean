import Clausal.Proofs.Tableau.Replay

/-!
Walks without a bound. A walk goes from node to node as long as its step tells it where
to go on; if parents form a cycle, it never ends. In a tree without defects parents come
before their children, so every walk upwards ends, from every node and from none, and
what it gives is what the bounded walks give. The links are all that matters here: the
literals, the marks and the order in which nodes are listed may be anything.
-/

namespace Clausal.Tableau

/-- The walk from the state ends with the result, however many steps it takes. -/
inductive Ends {σ ρ : Type} (step : σ → σ ⊕ ρ) : σ → ρ → Prop
  | stop {state : σ} {result : ρ} : step state = .inr result → Ends step state result
  | next {state after : σ} {result : ρ} :
      step state = .inl after → Ends step after result → Ends step state result

namespace Tree

/-- Collects nodes on the way up until one has no parent. -/
def collectStep (tree : Tree) : List Nat × Option Nat → (List Nat × Option Nat) ⊕ List Nat
  | (path, none) => .inr path
  | (path, some id) =>
      match tree.parent? id with
      | none => .inr path
      | some parent => .inl (path ++ [id], some parent)

/-- Looks for a node on the way up. -/
def searchStep (tree : Tree) (ancestor : Nat) : Option Nat → Option Nat ⊕ Bool
  | none => .inr false
  | some id => if id = ancestor then .inr true else .inl (tree.parent? id)

/-- Closes nodes on the way up until one has an open child. -/
def closeStep : Tree × Option Nat → (Tree × Option Nat) ⊕ Tree
  | (tree, none) => .inr tree
  | (tree, some id) =>
      match tree.node? id with
      | none => .inr tree
      | some node =>
          if node.children.all tree.isClosedAt then
            .inl (tree.modify id fun node => { node with closed := true }, node.parent)
          else .inr tree

/-- Opens all nodes on the way up. -/
def openStep : Tree × Option Nat → (Tree × Option Nat) ⊕ Tree
  | (tree, none) => .inr tree
  | (tree, some id) =>
      match tree.node? id with
      | none => .inr tree
      | some node => .inl (tree.modify id Node.skeleton, node.parent)

/-- The nodes from a node up to the first one along the parent links, without the first
one. -/
inductive PathUp (tree : Tree) : Nat → List Nat → Prop
  | root : PathUp tree 0 []
  | step {id parent : Nat} {path : List Nat} :
      tree.parent? id = some parent → PathUp tree parent path → PathUp tree id (id :: path)

variable {tree : Tree}

theorem branch_eq_nil {id : Nat} (hparent : tree.parent? id = none) : tree.branch id = [] := by
  simp [branch, ancestors_eq_nil hparent]

theorem Linked.pathUp_iff (hlinked : tree.Linked) {id : Nat} (hid : id < tree.size)
    {path : List Nat} : tree.PathUp id path ↔ path = tree.branch id := by
  refine hlinked.induction_down (motive := fun id => ∀ path,
    tree.PathUp id path ↔ path = tree.branch id) ?_ ?_ id hid path
  · intro path
    rw [hlinked.branch_zero]
    constructor
    · intro hpath
      cases hpath with
      | root => rfl
      | step hparent _ => cases hlinked.parent?_zero.symm.trans hparent
    · rintro rfl
      exact .root
  · intro id parent hparent ih path
    rw [hlinked.branch_of_parent? hparent]
    constructor
    · intro hpath
      cases hpath with
      | root => cases hlinked.parent?_zero.symm.trans hparent
      | step hother hrest =>
          cases hparent.symm.trans hother
          rw [(ih _).mp hrest]
    · rintro rfl
      exact .step hparent ((ih _).mpr rfl)

/-- On the way up to the first node the indices decrease. -/
theorem Linked.branch_decreasing (hlinked : tree.Linked) {id : Nat} (hid : id < tree.size) :
    (tree.branch id ++ [0]).Pairwise (· > ·) := by
  refine hlinked.induction_down (motive := fun id =>
    (tree.branch id ++ [0]).Pairwise (· > ·)) ?_ ?_ id hid
  · simp [hlinked.branch_zero]
  · intro id parent hparent ih
    rw [hlinked.branch_of_parent? hparent, List.cons_append, List.pairwise_cons]
    have hlt := hlinked.parent?_lt hparent
    obtain ⟨node, hnode, -⟩ := exists_node?_of_parent? hparent
    have hparentSize : parent < tree.size := Nat.lt_trans hlt (node?_eq_some_lt hnode)
    refine ⟨?_, ih⟩
    intro other hother
    rcases List.mem_append.mp hother with hupper | hroot
    · obtain ⟨-, rfl | habove⟩ := (hlinked.mem_branch hparentSize).mp hupper
      · exact hlt
      · exact Nat.lt_trans (hlinked.above_lt habove) hlt
    · rw [List.mem_singleton.mp hroot]
      exact hlinked.pos_of_parent? hparent

theorem Linked.ends_collect (hlinked : tree.Linked) (path : List Nat) (id : Nat) :
    Ends tree.collectStep (path, some id) (path ++ tree.branch id) := by
  induction id using Nat.strongRecOn generalizing path with
  | ind id ih =>
      cases hparent : tree.parent? id with
      | none =>
          have hstep : tree.collectStep (path, some id) = .inr path := by
            simp [collectStep, hparent]
          rw [branch_eq_nil hparent, List.append_nil]
          exact .stop hstep
      | some parent =>
          have hstep : tree.collectStep (path, some id) = .inl (path ++ [id], some parent) := by
            simp [collectStep, hparent]
          have hrest := ih parent (hlinked.parent?_lt hparent) (path ++ [id])
          rw [List.append_assoc, List.singleton_append,
            ← hlinked.branch_of_parent? hparent] at hrest
          exact .next hstep hrest

theorem Linked.ends_search (hlinked : tree.Linked) (ancestor id : Nat) :
    Ends (tree.searchStep ancestor) (tree.parent? id) (tree.isAncestor ancestor id) := by
  induction id using Nat.strongRecOn with
  | ind id ih =>
      cases hparent : tree.parent? id with
      | none =>
          rw [isAncestor, ancestors_eq_nil hparent]
          exact .stop rfl
      | some parent =>
          rw [isAncestor, hlinked.ancestors_of_parent? hparent]
          by_cases hfound : parent = ancestor
          · exact .stop (by simp [searchStep, hfound])
          · have hstep : tree.searchStep ancestor (some parent) = .inl (tree.parent? parent) := by
              simp [searchStep, hfound]
            have hrest := ih parent (hlinked.parent?_lt hparent)
            have hanswer : decide (ancestor ∈ parent :: tree.ancestors parent) =
                tree.isAncestor ancestor parent := by
              simp [isAncestor, Ne.symm hfound]
            rw [hanswer]
            exact .next hstep hrest

/-- The bound on closing upward is never met if it exceeds the index of the start. -/
theorem ends_close {steps id : Nat}
    (hlt : ∀ {child parent}, tree.parent? child = some parent → parent < child)
    (hid : id < steps) : Ends closeStep (tree, some id) (tree.closeUpward steps (some id)) := by
  induction steps generalizing tree id with
  | zero => omega
  | succ steps ih =>
      rw [closeUpward]
      cases hnode : tree.node? id with
      | none => exact .stop (by simp [closeStep, hnode])
      | some node =>
          simp only
          split
          · next hall =>
              have hstep : closeStep (tree, some id) =
                  .inl (tree.modify id fun node => { node with closed := true }, node.parent) := by
                simp only [closeStep, hnode]
                exact if_pos hall
              refine .next hstep ?_
              cases hparent : node.parent with
              | none =>
                  rw [closeUpward_none]
                  exact .stop rfl
              | some parent =>
                  -- Only a mark was set, so parents still come before their children.
                  have hskeleton : (tree.modify id fun node =>
                      { node with closed := true }).skeleton = tree.skeleton :=
                    skeleton_modify fun _ => rfl
                  have hup := hlt ((parent?_eq hnode).trans hparent)
                  apply ih
                  · intro child upper hchild
                    exact hlt ((Within.of_skeleton hskeleton).parent? hchild)
                  · omega
          · next hopen =>
              refine .stop ?_
              simp only [closeStep, hnode]
              exact if_neg hopen

theorem Linked.ends_closeUpward (hlinked : tree.Linked) {changed : Tree}
    (hwithin : changed.Within tree) (id : Nat) :
    Ends closeStep (changed, tree.parent? id)
      (changed.closeUpward tree.size (tree.parent? id)) := by
  cases hparent : tree.parent? id with
  | none =>
      rw [closeUpward_none]
      exact .stop rfl
  | some parent =>
      obtain ⟨node, hnode, -⟩ := exists_node?_of_parent? hparent
      have hlt := hlinked.parent?_lt hparent
      apply ends_close
      · intro child upper hchild
        exact hlinked.parent?_lt (hwithin.parent? hchild)
      · exact Nat.lt_trans hlt (node?_eq_some_lt hnode)

/-- Opening upward meets the ancestors, one after another. -/
theorem Linked.ends_open (hlinked : tree.Linked) {changed : Tree} (hwithin : tree.Within changed)
    (id : Nat) :
    Ends openStep (changed, tree.parent? id)
      ((tree.ancestors id).foldl (fun tree id => tree.modify id Node.skeleton) changed) := by
  induction id using Nat.strongRecOn generalizing changed with
  | ind id ih =>
      cases hparent : tree.parent? id with
      | none =>
          rw [ancestors_eq_nil hparent]
          exact .stop rfl
      | some parent =>
          obtain ⟨above, habove, -⟩ := hlinked.exists_listing hparent
          obtain ⟨node, hnode, hsame, -⟩ := hwithin parent above habove
          have hstep : openStep (changed, some parent) =
              .inl (changed.modify parent Node.skeleton, tree.parent? parent) := by
            simp only [openStep, hnode, hsame, parent?_eq habove]
          have hopened : changed.Within (changed.modify parent Node.skeleton) :=
            (@within_modify changed parent Node.skeleton fun _ => ⟨rfl, rfl⟩).1
          rw [hlinked.ancestors_of_parent? hparent, List.foldl_cons]
          exact .next hstep (ih parent (hlinked.parent?_lt hparent) (hwithin.trans hopened))

/-- All walks upwards from the node end, with the results of the bounded ones. -/
structure WalksEnd (tree : Tree) (id : Nat) : Prop where
  branch : Ends tree.collectStep ([], some id) (tree.branch id)
  isAncestor : ∀ ancestor,
    Ends (tree.searchStep ancestor) (tree.parent? id) (tree.isAncestor ancestor id)
  closeUpward : Ends closeStep (tree, tree.parent? id)
    (tree.closeUpward tree.size (tree.parent? id))
  close : ∀ target, Ends closeStep (tree.modify id (·.closedAgainst target), tree.parent? id)
    (tree.close id target)
  openUpward : ∃ opened, Ends openStep (tree, tree.parent? id) opened
  reopen : Ends openStep (tree.modify id Node.reopened, tree.parent? id) (tree.reopen id)

theorem Linked.walksEnd (hlinked : tree.Linked) (id : Nat) : tree.WalksEnd id where
  branch := hlinked.ends_collect [] id
  isAncestor := fun ancestor => hlinked.ends_search ancestor id
  closeUpward := hlinked.ends_closeUpward (.refl tree) id
  close := by
    intro target
    rw [close_eq]
    exact hlinked.ends_closeUpward (within_closedAgainst tree id target).2 id
  openUpward := ⟨_, hlinked.ends_open (.refl tree) id⟩
  reopen := by
    have hmarked : tree.Within (tree.modify id Node.reopened) :=
      (@within_modify tree id Node.reopened fun _ => ⟨rfl, rfl⟩).1
    exact hlinked.ends_open hmarked id

/-- Whoever lists a node is its parent. -/
theorem Linked.listed_iff (hlinked : tree.Linked) {id parent : Nat}
    (hparent : tree.parent? id = some parent) {other : Nat} :
    (∃ node, tree.node? other = some node ∧ id ∈ node.children) ↔ other = parent := by
  constructor
  · rintro ⟨node, hnode, hchild⟩
    exact Option.some.inj ((hlinked.child hnode hchild).symm.trans hparent)
  · rintro rfl
    exact hlinked.exists_listing hparent

end Tree

/-- In every tree whose structure is accepted, wherever it comes from, the parent links
lead down in the list of nodes and up to the first one, which is what the branch of a node
follows; all walks upwards end; a node is above another exactly if links lead to it; and
every node but the first is listed by its parent and by no other node. -/
theorem accepted_tree_walks {state : State}
    (haccepted : Calculus.checkStructure state = .ok ()) :
    (∀ id < state.tree.size, (state.tree.branch id ++ [0]).Pairwise (· > ·) ∧
      ∀ path, state.tree.PathUp id path ↔ path = state.tree.branch id) ∧
    (state.tree.branch 0 = [] ∧ ∀ id, state.tree.size ≤ id → state.tree.branch id = []) ∧
    (∀ id, state.tree.WalksEnd id) ∧
    (∀ ancestor id, state.tree.isAncestor ancestor id = true ↔
      state.tree.Above ancestor id) ∧
    ∀ id, 0 < id → id < state.tree.size → ∃ parent, state.tree.parent? id = some parent ∧
      ∀ other, (∃ node, state.tree.node? other = some node ∧ id ∈ node.children) ↔
        other = parent := by
  have hlinked : state.tree.Linked :=
    State.defect?_eq_none.mp (Calculus.checkStructure_eq_ok.mp haccepted)
  refine ⟨?_, ⟨hlinked.branch_zero, ?_⟩, hlinked.walksEnd, ?_, ?_⟩
  · intro id hid
    exact ⟨hlinked.branch_decreasing hid, fun path => hlinked.pathUp_iff hid⟩
  · intro id hmissing
    have hnode : state.tree.node? id = none := List.getElem?_eq_none hmissing
    exact Tree.branch_eq_nil (by rw [Tree.parent?, hnode]; rfl)
  · intro ancestor id
    exact hlinked.isAncestor_iff
  · intro id hpositive hid
    obtain ⟨parent, hparent⟩ := hlinked.exists_parent? hid hpositive
    exact ⟨parent, hparent, fun other => hlinked.listed_iff hparent⟩

/-- A forged tree that no proof leads to. The root lists a child twice and out of order,
an inner node is closed above an open leaf, and a node is closed against one beside it. -/
def forgedTree : Tree :=
  ⟨[⟨none, .positive "true", false, none, [2, 1, 1]⟩, ⟨some 0, .positive "a", true, none, [3]⟩,
    ⟨some 0, .negative "b", true, some 3, []⟩, ⟨some 1, .positive "c", false, none, []⟩]⟩

theorem accepted_tree_walks_forged :
    let state : State := { State.start .empty "" .free with tree := forgedTree }
    Calculus.checkStructure state = .ok () ∧ forgedTree.branch 3 = [3, 1] ∧
    forgedTree.PathUp 3 [3, 1] ∧ forgedTree.Above 0 3 ∧ forgedTree.WalksEnd 3 ∧
    forgedTree.WalksEnd 7 ∧
    ∃ parent, forgedTree.parent? 1 = some parent ∧
      ∀ other, (∃ node, forgedTree.node? other = some node ∧ 1 ∈ node.children) ↔
        other = parent := by
  intro state
  have haccepted : Calculus.checkStructure state = .ok () := rfl
  obtain ⟨hpaths, -, hwalks, habove, hlisted⟩ := accepted_tree_walks haccepted
  exact ⟨haccepted, rfl, ((hpaths 3 (by decide)).2 [3, 1]).mpr rfl, (habove 0 3).mp rfl,
    hwalks 3, hwalks 7, hlisted 1 (by decide) (by decide)⟩

end Clausal.Tableau
