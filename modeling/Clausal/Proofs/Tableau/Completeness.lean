import Mathlib.Data.Finset.Card
import Clausal.Proofs.Formula
import Clausal.Proofs.Refutation
import Clausal.Proofs.Tableau.Progress
import Clausal.Proofs.Tableau.Soundness

/-!
Completeness of the tableau calculus under all rules at once. The proof that is
built is regular and connected: below a leaf whose literal is to blame, the next
clause holds the complement of that literal and nothing of the branch, and the
clauses that refute the branches of its literals get fewer. One such proof is
accepted by every choice of the rules.
-/

namespace Clausal.Tableau

namespace Tree

variable {tree : Tree}

/-- The literals on the branch of a node. -/
def path (tree : Tree) (id : Nat) : Set Literal :=
  {literal | tree.branchCarries id literal = true}

theorem Linked.path_zero (hlinked : tree.Linked) : tree.path 0 = ∅ := by
  ext literal
  simp [path, hlinked.branchCarries_zero]

theorem Linked.path_of_parent (hlinked : tree.Linked) {id parent : Nat} {node : Node}
    (hnode : tree.node? id = some node) (hparent : node.parent = some parent) :
    tree.path id = insert node.literal (tree.path parent) := by
  ext literal
  rw [Set.mem_insert_iff, eq_comm]
  exact hlinked.branchCarries_of_parent hnode hparent literal

theorem Within.path_eq {first second : Tree} (hwithin : first.Within second)
    (hfirst : first.Linked) (hsecond : second.Linked) {id : Nat} (hid : id < first.size) :
    second.path id = first.path id := by
  ext literal
  simp [path, hwithin.branchCarries hfirst hsecond hid]

/-- A node whose complement is on the branch of its parent can be closed. -/
theorem Linked.exists_contradicts (hlinked : tree.Linked) {id parent : Nat} {node : Node}
    (hnode : tree.node? id = some node) (hparent : node.parent = some parent)
    (hcomplement : node.literal.complement ∈ tree.path parent) :
    ∃ target, tree.Contradicts target id := by
  have hlink : tree.parent? id = some parent := (parent?_eq hnode).trans hparent
  have hsize : parent < tree.size :=
    Nat.lt_trans (hlinked.parent?_lt hlink) (node?_eq_some_lt hnode)
  obtain ⟨target, hmember, hcarries⟩ := List.any_eq_true.mp hcomplement
  obtain ⟨hpositive, hupper⟩ := (hlinked.mem_branch hsize).mp hmember
  obtain ⟨above, habove, hliteral⟩ := (Option.any_eq_true _ _).mp hcarries
  refine ⟨target, hpositive, (hlinked.above_iff hlink).mpr hupper, node, above, hnode,
    habove, ?_⟩
  rw [Node.complements, Literal.complements_iff]
  simpa [Node.carries] using hliteral

end Tree

namespace State

open Calculus

/-- The leaf can be closed from here by expansions and closures at and below it, which
lead to a good state again. -/
def Closable (Good : State → Prop) (state : State) (leaf : Nat) : Prop :=
  ∃ next, state.Advances next [leaf] ∧ Good next ∧ next.tree.isClosedAt leaf = true

section Branches

variable {Good : State → Prop}

/-- If each leaf of a list can be closed whatever happens at the others, all of them
can be. -/
theorem close_all (base : State) {todo : List Nat}
    (hclose : ∀ child ∈ todo, ∀ (state : State) (node : Node), Good state →
      base.tree.Within state.tree → state.clauses = base.clauses →
      state.tree.OpenLeaf child node → state.Closable Good child)
    {state : State} (hgood : Good state) (hwithin : base.tree.Within state.tree)
    (hclauses : state.clauses = base.clauses)
    (hleaves : ∀ child ∈ todo, state.tree.isClosedAt child = true ∨
      ∃ node, state.tree.OpenLeaf child node) :
    ∃ next, state.Advances next todo ∧ Good next ∧
      ∀ child ∈ todo, next.tree.isClosedAt child = true := by
  induction todo generalizing state with
  | nil => exact ⟨state, .refl state, hgood, by simp⟩
  | cons child rest ih =>
      obtain ⟨middle, hfirst, hmiddle, hchild⟩ : state.Closable Good child := by
        rcases hleaves child List.mem_cons_self with hclosed | ⟨node, hopen⟩
        · exact ⟨state, (Advances.refl state).mono (by simp), hgood, hclosed⟩
        · exact hclose child List.mem_cons_self state node hgood hwithin hclauses hopen
      have hremaining : ∀ other ∈ rest, middle.tree.isClosedAt other = true ∨
          ∃ node, middle.tree.OpenLeaf other node := by
        intro other hother
        rcases hleaves other (List.mem_cons_of_mem _ hother) with hclosed | ⟨node, hopen⟩
        · exact .inl (hfirst.tree.isClosedAt hclosed)
        · by_cases hsame : other = child
          · exact .inl (hsame ▸ hchild)
          · exact .inr ⟨node, hfirst.tree.untouched hopen (by simpa using hsame)⟩
      obtain ⟨next, hsecond, hnext, hrest⟩ := ih
        (fun other hother => hclose other (List.mem_cons_of_mem _ hother)) hmiddle
        (hwithin.trans hfirst.tree.within) (hfirst.clauses_eq.trans hclauses) hremaining
      refine ⟨next, hfirst.trans hsecond, hnext, ?_⟩
      rw [List.forall_mem_cons]
      exact ⟨hsecond.tree.isClosedAt hchild, hrest⟩

/-- A leaf can be closed after an expansion if the new leaves can be, each by itself. Some
of them may have been closed together with the expansion. -/
theorem closable_of_extend (hgoodSound : ∀ state, Good state → state.tree.Sound state.clauses)
    {state grown : State} {leaf : Nat} {node : Node} {clause : Clause} {touched : List Nat}
    (hgood : Good state) (hopen : state.tree.OpenLeaf leaf node)
    (hnonempty : ∃ literal, literal ∈ clause) (hfirst : state.Advances grown [leaf])
    (hgrown : Good grown)
    (htree : (state.tree.extend leaf clause.literals).Continues grown.tree touched)
    (htouched : ∀ id ∈ touched, grown.tree.isClosedAt id = true)
    (hrest : ∀ (later : State) (child : Nat) (below : Node), Good later →
      later.clauses = state.clauses → later.tree.OpenLeaf child below →
      below.parent = some leaf → below.literal ∈ clause →
      later.tree.path leaf = state.tree.path leaf → later.Closable Good child) :
    state.Closable Good leaf := by
  -- Of the new leaves only those that were closed at once have been touched.
  have hleaves (child : Nat)
      (hchild : child ∈ List.range' state.tree.size clause.literals.length) :
      grown.tree.isClosedAt child = true ∨ ∃ below, grown.tree.OpenLeaf child below := by
    obtain ⟨literal, -, hbelow⟩ := Tree.exists_openLeaf_extend hchild leaf
    by_cases hid : child ∈ touched
    · exact .inl (htouched child hid)
    · exact .inr ⟨_, htree.untouched hbelow hid⟩
  have hclose (child : Nat)
      (hchild : child ∈ List.range' state.tree.size clause.literals.length)
      (later : State) (below : Node) (hlater : Good later)
      (hwithin : grown.tree.Within later.tree) (hclauses : later.clauses = grown.clauses)
      (hbelow : later.tree.OpenLeaf child below) : later.Closable Good child := by
    obtain ⟨literal, hliteral, hnew⟩ := Tree.exists_openLeaf_extend hchild leaf
    obtain ⟨after, hafter, hparent, hcarried⟩ :=
      (htree.within.trans hwithin) child _ hnew.found
    cases hbelow.found.symm.trans hafter
    -- Work at the siblings does not change this branch.
    have hpath : later.tree.path leaf = state.tree.path leaf :=
      (hfirst.tree.within.trans hwithin).path_eq (hgoodSound state hgood).toLinked
        (hgoodSound later hlater).toLinked (Tree.node?_eq_some_lt hopen.found)
    exact hrest later child below hlater (hclauses.trans hfirst.clauses_eq) hbelow hparent
      (hcarried ▸ hliteral) hpath
  obtain ⟨final, hsecond, hfinal, hclosed⟩ :=
    close_all grown hclose hgrown (.refl _) rfl hleaves
  refine ⟨final, ?_, hfinal, ?_⟩
  · apply (hfirst.trans hsecond).mono
    intro id hid hlt
    rcases List.mem_append.mp hid with hid | hid
    · exact hid
    · have hge := (List.mem_range'_1.mp hid).1
      omega
  · obtain ⟨literal, hliteral⟩ := hnonempty
    exact hopen.isClosedAt_of_extend (htree.trans hsecond.tree) (hgoodSound final hfinal)
      (List.ne_nil_of_mem hliteral) hclosed

end Branches

/-- A leaf can be closed by the next clause of a refutation if the new leaves can be
closed with the clauses that remain. -/
theorem Ready.closable_of_next {state : State} {leaf : Nat} {node : Node}
    {available rest : Finset Clause} {clause : Clause} (hready : state.Ready)
    (hopen : state.tree.OpenLeaf leaf node)
    (hnext : Refutes.Next available (state.tree.path leaf) clause rest)
    (hclause : clause ∈ state.clauses.clauses) (hnonempty : ∃ literal, literal ∈ clause)
    (hlink : leaf ≠ 0 → node.literal.complement ∈ clause)
    (hrest : ∀ (later : State) (child : Nat) (below : Node), later.Ready →
      later.clauses = state.clauses → later.tree.OpenLeaf child below →
      below.parent = some leaf → Refutes rest (later.tree.path child) →
      ¬ Refutes rest (later.tree.path leaf) → later.Closable Ready child) :
    state.Closable Ready leaf := by
  have hfresh (literal : Literal) (hliteral : literal ∈ clause) :
      state.tree.branchCarries leaf literal = false := by
    rw [Bool.eq_false_iff]
    exact hnext.fresh literal hliteral
  obtain ⟨grown, touched, hfirst, hgrown, htree, htouched⟩ :=
    hready.expand hopen hclause hfresh hlink
  refine closable_of_extend (fun _ => Ready.sound) hready hopen hnonempty hfirst hgrown htree
    htouched ?_
  intro later child below hlater hclauses hbelow hparent hliteral hpath
  refine hrest later child below hlater hclauses hbelow hparent ?_ ?_
  · rw [hlater.sound.toLinked.path_of_parent hbelow.found hparent, hpath]
    exact hnext.refutes _ hliteral
  · rw [hpath]
    exact hnext.needed

/-- A leaf below the root can be closed if the available clauses refute its branch
only together with its own literal. -/
theorem Ready.closable {available : Finset Clause} {state : State} {leaf parent : Nat}
    {node : Node} (hready : state.Ready)
    (havailable : ∀ clause ∈ available, clause ∈ state.clauses.clauses)
    (hopen : state.tree.OpenLeaf leaf node) (hparent : node.parent = some parent)
    (hrefutes : Refutes available (state.tree.path leaf))
    (hneeded : ¬ Refutes available (state.tree.path parent)) : state.Closable Ready leaf := by
  induction available using Finset.strongInduction generalizing state leaf parent node with
  | H available ih =>
      have hlinked := hready.sound.toLinked
      by_cases hcomplement : node.literal.complement ∈ state.tree.path parent
      · obtain ⟨target, htarget⟩ := hlinked.exists_contradicts hopen.found hparent hcomplement
        exact hready.close hopen htarget
      · have hpath := hlinked.path_of_parent hopen.found hparent
        rw [hpath] at hrefutes
        obtain ⟨clause, rest, hmember, hnext⟩ :=
          hrefutes.exists_connected_next hneeded hcomplement
        rw [← hpath] at hnext
        refine hready.closable_of_next hopen hnext (havailable clause hnext.mem) ⟨_, hmember⟩
          (fun _ => hmember) ?_
        intro later child below hlater hclauses hbelow hlink hrefuted hstill
        refine ih rest hnext.subset hlater ?_ hbelow hlink hrefuted hstill
        intro other hother
        rw [hclauses]
        exact havailable other (hnext.subset.1 hother)

/-- From the first state of a formula that has no model, the root can be closed. -/
theorem closable_start {clauses : ClauseSet} {formula : String} {rules : Rules}
    (hnonempty : ∀ clause ∈ clauses.clauses, ∃ literal, literal ∈ clause)
    (hunsatisfiable : clauses.Unsatisfiable) :
    (start clauses formula rules).Closable Ready 0 := by
  have hready : (start clauses formula rules).Ready := by
    refine ⟨Tree.Sound.start clauses, ?_⟩
    intro id node hnode hpositive
    exact absurd (Tree.start_node? hnode).1 (Nat.ne_of_gt hpositive)
  have hopen : (start clauses formula rules).tree.OpenLeaf 0 .root := ⟨rfl, rfl, rfl⟩
  obtain ⟨clause, rest, hnext⟩ := hunsatisfiable.refutes.exists_next
  have hclause := List.mem_toFinset.mp hnext.mem
  rw [← hready.sound.toLinked.path_zero] at hnext
  refine hready.closable_of_next hopen hnext hclause (hnonempty clause hclause)
    (fun hzero => absurd rfl hzero) ?_
  intro later child below hlater hclauses hbelow hlink hrefuted hstill
  refine hlater.closable ?_ hbelow hlink hrefuted hstill
  intro other hother
  rw [hclauses]
  exact List.mem_toFinset.mp (hnext.subset.1 hother)

end State

/-- Completeness: whatever the rules are, a formula whose clauses have no model has a
proof that consists of expansions and closures. -/
theorem tableau_proof_exists {alphabet : Alphabet} {formula : String} {clauses : ClauseSet}
    (hformula : Formula.parse alphabet formula = .ok clauses)
    (hunsatisfiable : clauses.Unsatisfiable) (rules : Rules) :
    ∃ (first : State) (moves : List Move) (final : State) (result : Verdict),
      Calculus.parse alphabet formula rules = .ok first ∧
      (∀ move ∈ moves, move ≠ .undo) ∧ Calculus.play first moves = .ok final ∧
      Calculus.checkClose final = .ok result ∧ result.closed = true := by
  obtain ⟨bare, hadvances, hready, hclosed⟩ :=
    State.closable_start (Formula.parse_nonempty hformula) hunsatisfiable
  obtain ⟨moves, hmoves, hrun⟩ := hadvances.run
  obtain ⟨hplay, hcheck⟩ := Calculus.play_of_rehearse hrun
    (State.defect?_eq_none.mpr hready.sound.toLinked)
  refine ⟨_, moves, _, _, Calculus.parse_eq_ok.mpr ⟨clauses, hformula, rfl⟩, ?_, hplay, hcheck,
    State.verdict_closed.mpr hclosed⟩
  rintro move hmove rfl
  exact hmoves hmove

theorem tableau_proof_exists_deniedDisjunction :
    Formula.parse .identifier "a,b;!a;!b" = .ok Formula.deniedDisjunction ∧
    Formula.deniedDisjunction.Unsatisfiable ∧
    ∃ (first : State) (moves : List Move) (final : State) (result : Verdict),
      Calculus.parse .identifier "a,b;!a;!b" (⟨.strong, true, false⟩ : Rules) = .ok first ∧
      (∀ move ∈ moves, move ≠ .undo) ∧ Calculus.play first moves = .ok final ∧
      Calculus.checkClose final = .ok result ∧ result.closed = true :=
  ⟨Formula.parse_deniedDisjunction, Formula.deniedDisjunction_unsatisfiable,
    tableau_proof_exists Formula.parse_deniedDisjunction
      Formula.deniedDisjunction_unsatisfiable ⟨.strong, true, false⟩⟩

end Clausal.Tableau
