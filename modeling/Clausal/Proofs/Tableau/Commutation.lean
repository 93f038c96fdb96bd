import Mathlib.Data.List.Nodup
import Mathlib.Data.List.Perm.Basic
import Clausal.Proofs.Tableau.Closure
import Clausal.Proofs.Tableau.Progress

/-!
Work at different leaves. Closing a leaf walks upwards, and where the walk ends depends on
what has been closed before, but the marks it leaves behind do not: the marks of a sound
tree are settled by its skeleton, and on the skeleton a closure is a change of one node.
Closures of different leaves can therefore be made in any order, and so can a closure and
an expansion, with the same tree at the end.
-/

namespace Clausal.Tableau

def Node.aimedAt (node : Node) (target : Nat) : Node := { node with target := some target }

/-- A leaf and the node it is to be closed against. -/
structure Closure where
  leaf : Nat
  target : Nat

def Closure.move (closure : Closure) : Move := .close closure.leaf closure.target

namespace Tree

variable {clauses : ClauseSet} {tree : Tree}

section Skeletons

variable {first second : Tree}

/-- The skeleton decides the marks: those of the leaves by the targets, and all others by
the marks below them. -/
theorem Sound.isClosedAt_of_skeleton (hfirst : first.Sound clauses)
    (hsecond : second.Sound clauses) (hskeleton : first.skeleton = second.skeleton) {id : Nat}
    (hid : id < first.size) : first.isClosedAt id = second.isClosedAt id := by
  refine hfirst.toLinked.induction_up
    (motive := fun id => first.isClosedAt id = second.isClosedAt id) ?_ id hid
  intro id node hnode hbelow
  obtain ⟨other, hother, hsame⟩ := exists_node?_of_skeleton hskeleton hnode
  obtain ⟨-, -, htarget, hchildren⟩ := Node.skeleton_eq_iff.mp hsame
  rw [isClosedAt_eq hnode, isClosedAt_eq hother, Bool.eq_iff_iff]
  by_cases hleaf : node.children = []
  · rw [hfirst.settled.leaf hnode hleaf, hsecond.settled.leaf hother (hchildren.trans hleaf),
      htarget]
  · rw [hfirst.closed_inner_iff hnode hleaf,
      hsecond.closed_inner_iff hother (hchildren ▸ hleaf), hchildren]
    refine forall₂_congr fun child hchild => ?_
    rw [hbelow child hchild]

theorem Sound.eq_of_skeleton (hfirst : first.Sound clauses) (hsecond : second.Sound clauses)
    (hskeleton : first.skeleton = second.skeleton) : first = second := by
  apply ext_node?
  intro id
  cases hnode : first.node? id with
  | none =>
      cases hother : second.node? id with
      | none => rfl
      | some other =>
          obtain ⟨node, hfound, -⟩ := exists_node?_of_skeleton hskeleton.symm hother
          cases hnode.symm.trans hfound
  | some node =>
      obtain ⟨other, hother, hsame⟩ := exists_node?_of_skeleton hskeleton hnode
      have hmark := hfirst.isClosedAt_of_skeleton hsecond hskeleton (node?_eq_some_lt hnode)
      rw [isClosedAt_eq hnode, isClosedAt_eq hother] at hmark
      rw [hother, Node.eq_of_skeleton hsame hmark.symm]

end Skeletons

theorem skeleton_close_eq (tree : Tree) (leaf target : Nat) :
    (tree.close leaf target).skeleton = tree.skeleton.modify leaf (·.aimedAt target) := by
  rw [skeleton_close]
  exact skeleton_modify_map fun _ => rfl

theorem skeleton_extend (tree : Tree) (leaf : Nat) (literals : List Literal) :
    (tree.extend leaf literals).skeleton =
      (tree.skeleton.modify leaf fun node => { node with
        children := node.children ++ List.range' tree.skeleton.length literals.length }) ++
      literals.map (Node.leaf leaf) := by
  have hgrown : (tree.modify leaf fun node => { node with
      children := node.children ++ List.range' tree.size literals.length }).skeleton =
      tree.skeleton.modify leaf fun node => { node with
        children := node.children ++ List.range' tree.size literals.length } :=
    skeleton_modify_map fun _ => rfl
  have hleaves : (literals.map (Node.leaf leaf)).map Node.skeleton =
      literals.map (Node.leaf leaf) := by
    rw [List.map_map]
    rfl
  have hsize : tree.skeleton.length = tree.size := List.length_map _
  rw [hsize, ← hgrown, ← hleaves]
  exact List.map_append

/-- Closes the leaves in the order of the list. -/
def closeAll (tree : Tree) (closures : List Closure) : Tree :=
  closures.foldl (fun tree closure => tree.close closure.leaf closure.target) tree

/-- The leaves are different, and each of them can be closed against its target. -/
structure AdmitsAll (tree : Tree) (closures : List Closure) : Prop where
  apart : (closures.map Closure.leaf).Nodup
  each : ∀ closure ∈ closures, (∃ node, tree.OpenLeaf closure.leaf node) ∧
    tree.Contradicts closure.target closure.leaf

theorem AdmitsAll.perm {closures order : List Closure} (h : tree.AdmitsAll closures)
    (hperm : order.Perm closures) : tree.AdmitsAll order :=
  ⟨(hperm.map Closure.leaf).nodup_iff.mpr h.apart,
    fun closure hclosure => h.each closure (hperm.mem_iff.mp hclosure)⟩

/-- A closure leaves the other closures possible. -/
theorem AdmitsAll.close {closure : Closure} {rest : List Closure} (hsound : tree.Sound clauses)
    (h : tree.AdmitsAll (closure :: rest)) :
    (tree.close closure.leaf closure.target).Sound clauses ∧
      (tree.close closure.leaf closure.target).AdmitsAll rest := by
  obtain ⟨⟨node, hopen⟩, htarget⟩ := h.each closure List.mem_cons_self
  obtain ⟨hfresh, hrest⟩ := List.nodup_cons.mp h.apart
  refine ⟨hsound.close hopen htarget, hrest, ?_⟩
  intro other hother
  obtain ⟨⟨below, hbelow⟩, hcontradicts⟩ := h.each other (List.mem_cons_of_mem _ hother)
  have hleaf : other.leaf ∉ [closure.leaf] := by
    rw [List.mem_singleton]
    intro hsame
    exact hfresh (hsame ▸ List.mem_map_of_mem hother)
  exact ⟨⟨below, (hopen.continues_close hsound.toLinked _).untouched hbelow hleaf⟩,
    hcontradicts.within (within_close tree _ _).1⟩

theorem AdmitsAll.sound {closures : List Closure} (hsound : tree.Sound clauses)
    (h : tree.AdmitsAll closures) : (tree.closeAll closures).Sound clauses := by
  induction closures generalizing tree with
  | nil => exact hsound
  | cons closure rest ih =>
      obtain ⟨hclosed, hrest⟩ := h.close hsound
      exact ih hclosed hrest

theorem skeleton_closeAll (tree : Tree) (closures : List Closure) :
    (tree.closeAll closures).skeleton = closures.foldl (fun nodes closure =>
      nodes.modify closure.leaf (·.aimedAt closure.target)) tree.skeleton := by
  induction closures generalizing tree with
  | nil => rfl
  | cons closure rest ih =>
      rw [closeAll, List.foldl_cons, List.foldl_cons, ← skeleton_close_eq]
      exact ih _

/-- On the skeleton, closures of different leaves change different nodes. -/
theorem AdmitsAll.skeleton_perm {closures order : List Closure} (h : tree.AdmitsAll closures)
    (hperm : order.Perm closures) :
    (tree.closeAll order).skeleton = (tree.closeAll closures).skeleton := by
  rw [skeleton_closeAll, skeleton_closeAll]
  refine hperm.foldl_eq' ?_ _
  intro first hfirst second hsecond nodes
  by_cases hleaf : first.leaf = second.leaf
  · have hinjective := List.inj_on_of_nodup_map (h.perm hperm).apart
    rw [hinjective hfirst hsecond hleaf]
  · exact List.modify_modify_ne _ _ _ hleaf

theorem AdmitsAll.closeAll_perm {closures order : List Closure} (hsound : tree.Sound clauses)
    (h : tree.AdmitsAll closures) (hperm : order.Perm closures) :
    tree.closeAll order = tree.closeAll closures :=
  ((h.perm hperm).sound hsound).eq_of_skeleton (h.sound hsound) (h.skeleton_perm hperm)

private theorem modify_append {α : Type} (front back : List α) {index : Nat}
    (hindex : index < front.length) (change : α → α) :
    (front ++ back).modify index change = front.modify index change ++ back := by
  induction front generalizing index with
  | nil => cases hindex
  | cons head rest ih =>
      cases index with
      | zero => simp
      | succ index => simp [ih (Nat.lt_of_succ_lt_succ hindex)]

/-- A leaf can be closed before or after another one is expanded. -/
theorem Sound.close_extend (hsound : tree.Sound clauses) {leaf other target : Nat}
    {node below : Node} {clause : Clause} (hopen : tree.OpenLeaf leaf node)
    (hclause : clause ∈ clauses.clauses) (hother : tree.OpenLeaf other below)
    (htarget : tree.Contradicts target other) (hne : leaf ≠ other) :
    (tree.extend leaf clause.literals).close other target =
      (tree.close other target).extend leaf clause.literals := by
  have hgrown := (hopen.continues_extend clause.literals).untouched hother
    (by simpa using hne.symm)
  have hkept := (hother.continues_close hsound.toLinked target).untouched hopen
    (by simpa using hne)
  refine Sound.eq_of_skeleton
    ((hsound.extend hopen hclause).close hgrown (htarget.within (within_extend tree leaf _)))
    ((hsound.close hother htarget).extend hkept hclause) ?_
  have hlength : other < tree.skeleton.length := by
    rw [skeleton, List.length_map]
    exact node?_eq_some_lt hother.found
  rw [skeleton_close_eq, skeleton_extend, skeleton_extend, skeleton_close_eq,
    List.length_modify, modify_append _ _ (by rwa [List.length_modify]),
    List.modify_modify_ne _ _ _ hne]

end Tree

namespace State

open Calculus

theorem rehearse_closeAll {state : State} {closures : List Closure}
    (hsound : state.tree.Sound state.clauses) (hadmits : state.tree.AdmitsAll closures) :
    rehearse state (closures.map Closure.move) = .ok { state with
      tree := state.tree.closeAll closures
      history := state.history ++ closures.map Closure.move } := by
  induction closures generalizing state with
  | nil =>
      rw [List.map_nil, List.append_nil]
      rfl
  | cons closure rest ih =>
      obtain ⟨hopen, htarget⟩ := hadmits.each closure List.mem_cons_self
      obtain ⟨hclosed, hrest⟩ := hadmits.close hsound
      have hstep : state.step closure.move = .ok { state with
          tree := state.tree.close closure.leaf closure.target
          history := state.history ++ [closure.move] } :=
        (close_eq_ok hsound.toLinked).mpr ⟨hopen, htarget, rfl⟩
      rw [List.map_cons, rehearse_cons_eq_ok]
      refine ⟨_, advance_eq_ok.mpr ⟨defect?_eq_none.mpr hsound.toLinked, hstep⟩, ?_⟩
      rw [ih hclosed hrest, List.append_assoc]
      rfl

/-- An expansion and a closure of different leaves do not stand in each other's way. -/
theorem exists_expand_close {state expanded closed : State} {leaf clauseId other target : Nat}
    (hsound : state.tree.Sound state.clauses) (hne : leaf ≠ other)
    (hexpand : state.expand leaf clauseId = .ok expanded)
    (hclose : state.close other target = .ok closed) :
    ∃ first second,
      rehearse state [.expand leaf clauseId, .close other target] = .ok first ∧
      rehearse state [.close other target, .expand leaf clauseId] = .ok second ∧
      first.tree = second.tree := by
  have hlinked := hsound.toLinked
  have hsoundness : defect? state = none := defect?_eq_none.mpr hlinked
  obtain ⟨node, clause, hopen, hfound, hstrong, hregular, hlink, hexpanded⟩ :=
    expand_eq_ok.mp hexpand
  obtain ⟨⟨below, hother⟩, htarget, hclosed⟩ := (close_eq_ok hlinked).mp hclose
  have hclause : clause ∈ state.clauses.clauses := List.mem_of_getElem? hfound
  obtain ⟨first, hfirst, hfirstTree⟩ : ∃ first,
      advance expanded (.close other target) = .ok first ∧
      first.tree = (state.tree.extend leaf clause.literals).close other target := by
    subst hexpanded
    have hgrown := (hsound.extend hopen hclause).toLinked
    have hstill := (hopen.continues_extend clause.literals).untouched hother
      (by simpa using hne.symm)
    have hreached := htarget.within (Tree.within_extend state.tree leaf clause.literals)
    exact ⟨_, advance_eq_ok.mpr ⟨defect?_eq_none.mpr hgrown,
      (close_eq_ok hgrown).mpr ⟨⟨below, hstill⟩, hreached, rfl⟩⟩, rfl⟩
  obtain ⟨second, hsecond, hsecondTree⟩ : ∃ second,
      advance closed (.expand leaf clauseId) = .ok second ∧
      second.tree = (state.tree.close other target).extend leaf clause.literals := by
    subst hclosed
    have hmarked := (hsound.close hother htarget).toLinked
    have hkept := (hother.continues_close hlinked target).untouched hopen (by simpa using hne)
    have hwithin := (Tree.within_close state.tree other target).1
    refine ⟨_, advance_eq_ok.mpr ⟨defect?_eq_none.mpr hmarked,
      expand_eq_ok.mpr ⟨node, clause, hkept, hfound, ?_, ?_, hlink, rfl⟩⟩, rfl⟩
    · intro hrule
      exact (hstrong hrule).close hlinked hother
    · intro hrule literal hliteral
      rw [hwithin.branchCarries hlinked hmarked (Tree.node?_eq_some_lt hopen.found)]
      exact hregular hrule literal hliteral
  refine ⟨first, second, ?_, ?_, ?_⟩
  · exact rehearse_cons_eq_ok.mpr ⟨expanded, advance_eq_ok.mpr ⟨hsoundness, hexpand⟩,
      rehearse_cons_eq_ok.mpr ⟨first, hfirst, rfl⟩⟩
  · exact rehearse_cons_eq_ok.mpr ⟨closed, advance_eq_ok.mpr ⟨hsoundness, hclose⟩,
      rehearse_cons_eq_ok.mpr ⟨second, hsecond, rfl⟩⟩
  · rw [hfirstTree, hsecondTree]
    exact hsound.close_extend hopen hclause hother htarget hne

end State

/-- In every state that can be played, closures of different leaves that are possible one
by one are possible together and in any order, and so are an expansion and a closure of
different leaves. The order leaves no trace in the tree. -/
theorem independent_moves_commute {alphabet : Alphabet} {formula : String} {rules : Rules}
    {first state : State} {moves : List Move}
    (hparse : Calculus.parse alphabet formula rules = .ok first)
    (hplay : Calculus.play first moves = .ok state) :
    (∀ closures : List Closure, (closures.map Closure.leaf).Nodup →
      (∀ closure ∈ closures, ∃ next, Calculus.applyMove state closure.move = .ok next) →
      ∃ tree, ∀ order : List Closure, order.Perm closures →
        ∃ final, Calculus.play state (order.map Closure.move) = .ok final ∧
          final.tree = tree) ∧
    ∀ leaf clauseId other target, leaf ≠ other →
      (∃ next, Calculus.applyMove state (.expand leaf clauseId) = .ok next) →
      (∃ next, Calculus.applyMove state (.close other target) = .ok next) →
      ∃ one two,
        Calculus.play state [.expand leaf clauseId, .close other target] = .ok one ∧
        Calculus.play state [.close other target, .expand leaf clauseId] = .ok two ∧
        one.tree = two.tree := by
  obtain ⟨clauses, bare, -, hrun, rfl⟩ := Calculus.exists_bare_run hparse hplay
  have hsound := (State.replays_of_rehearse hrun).sound
  have hstep {move : Move} (haccepted : ∃ next,
      Calculus.applyMove (Calculus.reseal bare) move = .ok next) :
      ∃ next, bare.step move = .ok next := by
    obtain ⟨_, hnext⟩ := haccepted
    obtain ⟨next, hadvance, -⟩ := Calculus.applyMove_reseal_eq_ok.mp hnext
    exact ⟨next, (Calculus.advance_eq_ok.mp hadvance).2⟩
  constructor
  · intro closures hapart haccepted
    have hadmits : bare.tree.AdmitsAll closures := by
      refine ⟨hapart, fun closure hclosure => ?_⟩
      obtain ⟨next, hnext⟩ := hstep (haccepted closure hclosure)
      obtain ⟨hopen, htarget, -⟩ := (State.close_eq_ok hsound.toLinked).mp hnext
      exact ⟨hopen, htarget⟩
    refine ⟨bare.tree.closeAll closures, fun order hperm => ?_⟩
    have hordered := State.rehearse_closeAll hsound (hadmits.perm hperm)
    exact ⟨_, Calculus.play_reseal_eq_ok.mpr ⟨_, hordered, rfl⟩,
      hadmits.closeAll_perm hsound hperm⟩
  · intro leaf clauseId other target hne hexpand hclose
    obtain ⟨expanded, hexpanded⟩ := hstep hexpand
    obtain ⟨closed, hclosed⟩ := hstep hclose
    obtain ⟨one, two, hone, htwo, htree⟩ :=
      State.exists_expand_close hsound hne hexpanded hclosed
    exact ⟨_, _, Calculus.play_reseal_eq_ok.mpr ⟨one, hone, rfl⟩,
      Calculus.play_reseal_eq_ok.mpr ⟨two, htwo, rfl⟩, htree⟩

/-- Two closures that together close the root, and one of them with an expansion in place
of the other. -/
theorem independent_moves_commute_deniedDisjunction :
    ∃ first state : State,
      Calculus.parse .identifier "a,b;!a;!b" (⟨.weak, false, true⟩ : Rules) = .ok first ∧
      Calculus.play first [.expand 0 0, .expand 1 1, .expand 2 2] = .ok state ∧
      (∃ tree, ∀ order : List Closure, order.Perm [⟨3, 1⟩, ⟨4, 2⟩] →
        ∃ final, Calculus.play state (order.map Closure.move) = .ok final ∧
          final.tree = tree) ∧
      ∃ one two,
        Calculus.play state [.expand 4 0, .close 3 1] = .ok one ∧
        Calculus.play state [.close 3 1, .expand 4 0] = .ok two ∧
        one.tree = two.tree := by
  have hparse := State.parse_of_formula Formula.parse_deniedDisjunction ⟨.weak, false, true⟩
  obtain ⟨state, left, right, grown, hrun, hleft, hright, hgrown⟩ :
      ∃ state left right grown : State,
        Calculus.rehearse (State.start Formula.deniedDisjunction "a,b;!a;!b"
          ⟨.weak, false, true⟩) [.expand 0 0, .expand 1 1, .expand 2 2] = .ok state ∧
        Calculus.advance state (.close 3 1) = .ok left ∧
        Calculus.advance state (.close 4 2) = .ok right ∧
        Calculus.advance state (.expand 4 0) = .ok grown :=
    ⟨_, _, _, _, rfl, rfl, rfl, rfl⟩
  have hplay := Calculus.play_reseal_eq_ok.mpr ⟨state, hrun, rfl⟩
  have haccepted {move : Move} {next : State} (hmove : Calculus.advance state move = .ok next) :
      ∃ next, Calculus.applyMove (Calculus.reseal state) move = .ok next :=
    ⟨_, Calculus.applyMove_reseal_eq_ok.mpr ⟨next, hmove, rfl⟩⟩
  obtain ⟨hclosures, hexpansion⟩ := independent_moves_commute hparse hplay
  refine ⟨_, _, hparse, hplay, hclosures [⟨3, 1⟩, ⟨4, 2⟩] (by decide) ?_,
    hexpansion 4 0 3 1 (by decide) (haccepted hgrown) (haccepted hleft)⟩
  rw [List.forall_mem_cons, List.forall_mem_singleton]
  exact ⟨haccepted hleft, haccepted hright⟩

end Clausal.Tableau
