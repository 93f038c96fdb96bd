import Clausal.Proofs.Tableau.Completeness

/-!
Tableaux without dead ends. If neither connectedness nor regularity is asked for,
every clause may be hung below every open leaf, so nothing that was played before
stands in the way of a proof. A branch may already contradict itself above a leaf
that cannot be closed any more. Its own literals are therefore not relied on: the
clauses refute the empty branch, and below the leaf they are spent one after the
other until every new branch contradicts itself at its end.
-/

namespace Clausal.Tableau

/-- A tree that was worked on is closed if all the leaves that were open are. -/
theorem Tree.Continues.isClosed {clauses : ClauseSet} {before after : Tree} {touched : List Nat}
    (h : before.Continues after touched) (hbefore : before.Sound clauses)
    (hafter : after.Sound clauses)
    (hleaves : ∀ id node, before.OpenLeaf id node → after.isClosedAt id = true) :
    after.isClosed = true := by
  obtain ⟨root, hroot, -⟩ := hbefore.root
  refine hbefore.toLinked.induction_up (motive := fun id => after.isClosedAt id = true) ?_ 0
    (node?_eq_some_lt hroot)
  intro id node hnode hbelow
  by_cases hleaf : node.children = []
  · cases hmark : node.closed with
    | true => exact h.isClosedAt ((isClosedAt_eq hnode).trans hmark)
    | false => exact hleaves id node ⟨hnode, hleaf, hmark⟩
  · -- The children of an inner node are the same as before.
    obtain ⟨later, hlater, hchildren⟩ := h.inner hnode hleaf
    rw [isClosedAt_eq hlater]
    apply hafter.settled.up hlater (hchildren ▸ hleaf) (by simp)
    rw [hchildren]
    exact hbelow

namespace State

open Calculus

/-- A state whose rules let every clause be hung below every open leaf, and in which
every clause adds a child. -/
structure Plain (state : State) : Prop where
  sound : state.tree.Sound state.clauses
  unrestricted : state.rules.connectedness = .unrestricted
  irregular : state.rules.regular = false
  nonempty : ∀ clause ∈ state.clauses.clauses, ∃ literal, literal ∈ clause

namespace Plain

variable {state next : State} {leaf : Nat} {node : Node}

theorem advance {touched : List Nat} (hplain : state.Plain)
    (hadvances : state.Advances next touched) (hsound : next.tree.Sound next.clauses) :
    next.Plain := by
  refine ⟨hsound, ?_, ?_, ?_⟩
  · rw [hadvances.rules_eq]
    exact hplain.unrestricted
  · rw [hadvances.rules_eq]
    exact hplain.irregular
  · rw [hadvances.clauses_eq]
    exact hplain.nonempty

theorem close (hplain : state.Plain) (hopen : state.tree.OpenLeaf leaf node) {target : Nat}
    (htarget : state.tree.Contradicts target leaf) : state.Closable Plain leaf := by
  obtain ⟨next, hadvances, -, hsound, hclosed⟩ := exists_close hplain.sound hopen htarget
  exact ⟨next, hadvances, hplain.advance hadvances hsound, hclosed⟩

theorem expand (hplain : state.Plain) (hopen : state.tree.OpenLeaf leaf node) {clause : Clause}
    (hclause : clause ∈ state.clauses.clauses) :
    ∃ next, state.Advances next [leaf] ∧ next.Plain ∧
      next.tree = state.tree.extend leaf clause.literals := by
  obtain ⟨next, hadvances, htree, hsound⟩ := exists_expand hplain.sound hopen hclause
    (fun hstrong => by simp [hplain.unrestricted] at hstrong)
    (fun hregular => by simp [hplain.irregular] at hregular)
    (fun hconnected => absurd hplain.unrestricted hconnected)
  exact ⟨next, hadvances, hplain.advance hadvances hsound, htree⟩

/-- A leaf can be closed if the available clauses refute some literals of its branch
that do not contradict each other. -/
theorem closable {available : Finset Clause} {branch : Set Literal} (hplain : state.Plain)
    (havailable : ∀ clause ∈ available, clause ∈ state.clauses.clauses)
    (hopen : state.tree.OpenLeaf leaf node) (hbranch : branch ⊆ state.tree.path leaf)
    (hconsistent : Consistent branch) (hrefutes : Refutes available branch) :
    state.Closable Plain leaf := by
  induction available using Finset.strongInduction generalizing state leaf node branch with
  | H available ih =>
      obtain ⟨clause, hclause⟩ := hrefutes.nonempty hconsistent
      have hmember := havailable clause hclause
      obtain ⟨grown, hfirst, hgrown, htree⟩ := hplain.expand hopen hmember
      have hcontinues : (state.tree.extend leaf clause.literals).Continues grown.tree [] := by
        rw [htree]
        exact .refl _
      refine closable_of_extend (fun _ => Plain.sound) hplain hopen
        (hplain.nonempty clause hmember) hfirst hgrown hcontinues (by simp) ?_
      intro later child below hlater hclauses hbelow hparent hliteral hpath
      have hlinked := hlater.sound.toLinked
      by_cases hcomplement : below.literal.complement ∈ later.tree.path leaf
      · obtain ⟨target, htarget⟩ := hlinked.exists_contradicts hbelow.found hparent hcomplement
        exact hlater.close hbelow htarget
      · -- The new literal joins those that are relied on, and its clause is spent.
        have hkept : branch ⊆ later.tree.path leaf := hpath ▸ hbranch
        refine ih (available.erase clause) (Finset.erase_ssubset hclause) hlater ?_ hbelow ?_
          (hconsistent.insert fun hold => hcomplement (hkept hold)) (hrefutes.erase hliteral)
        · intro other hother
          rw [hclauses]
          exact havailable other (Finset.mem_of_mem_erase hother)
        · rw [hlinked.path_of_parent hbelow.found hparent]
          exact Set.insert_subset_insert hkept

/-- Whatever the tree looks like, clauses without a model close it. -/
theorem exists_closed (hplain : state.Plain) (hunsatisfiable : state.clauses.Unsatisfiable) :
    ∃ next touched, state.Advances next touched ∧ next.Plain ∧ next.tree.isClosed = true := by
  classical
  let leaves := (List.range state.tree.size).filter fun id => ∃ node, state.tree.OpenLeaf id node
  have hmem (id : Nat) : id ∈ leaves ↔ ∃ node, state.tree.OpenLeaf id node := by
    simp only [leaves, List.mem_filter, List.mem_range, decide_eq_true_eq, and_iff_right_iff_imp]
    rintro ⟨node, hopen⟩
    exact Tree.node?_eq_some_lt hopen.found
  obtain ⟨next, hadvances, hnext, hclosed⟩ : ∃ next, state.Advances next leaves ∧ next.Plain ∧
      ∀ id ∈ leaves, next.tree.isClosedAt id = true := by
    refine close_all state ?_ hplain (.refl _) rfl fun id hid => .inr ((hmem id).mp hid)
    intro id _ later node hlater _ hclauses hopen
    refine hlater.closable ?_ hopen (Set.empty_subset _) consistent_empty hunsatisfiable.refutes
    intro clause hclause
    rw [hclauses]
    exact List.mem_toFinset.mp hclause
  refine ⟨next, leaves, hadvances, hnext, ?_⟩
  refine hadvances.tree.isClosed hplain.sound (hadvances.clauses_eq ▸ hnext.sound) ?_
  intro id node hopen
  exact hclosed id ((hmem id).mpr ⟨node, hopen⟩)

end Plain

theorem Replays.plain {clauses : ClauseSet} {formula : String} {rules : Rules} {state : State}
    (hreplays : (start clauses formula rules).Replays state)
    (hunrestricted : rules.connectedness = .unrestricted) (hirregular : rules.regular = false)
    (hnonempty : ∀ clause ∈ clauses.clauses, ∃ literal, literal ∈ clause) : state.Plain := by
  obtain ⟨rfl, -, rfl, -, hsound⟩ := hreplays.genuine
  exact ⟨hsound, hunrestricted, hirregular, hnonempty⟩

end State

/-- Without rules that restrict expansions, every proof of a formula whose clauses have
no model can be completed, whatever was expanded, closed and undone before. -/
theorem plain_tableau_closable {alphabet : Alphabet} {formula : String} {clauses : ClauseSet}
    {rules : Rules} {first reached : State} {moves : List Move}
    (hformula : Formula.parse alphabet formula = .ok clauses)
    (hunsatisfiable : clauses.Unsatisfiable)
    (hunrestricted : rules.connectedness = .unrestricted) (hirregular : rules.regular = false)
    (hparse : Calculus.parse alphabet formula rules = .ok first)
    (hplay : Calculus.play first moves = .ok reached) :
    ∃ (continuation : List Move) (final : State) (result : Verdict),
      (∀ move ∈ continuation, move ≠ .undo) ∧
      Calculus.play reached continuation = .ok final ∧
      Calculus.checkClose final = .ok result ∧ result.closed = true := by
  obtain ⟨bare, hrun, rfl⟩ := Calculus.rehearse_of_play hformula hparse hplay
  have hreplays := State.replays_of_rehearse hrun
  have hplain : bare.Plain :=
    hreplays.plain hunrestricted hirregular (Formula.parse_nonempty hformula)
  have hclauses : bare.clauses = clauses := hreplays.genuine.clauses_eq
  obtain ⟨final, touched, hadvances, hfinal, hclosed⟩ :=
    hplain.exists_closed (hclauses ▸ hunsatisfiable)
  obtain ⟨continuation, hforward, hcontinue⟩ := hadvances.run
  obtain ⟨hreached, hcheck⟩ := Calculus.play_of_rehearse hcontinue
    (State.defect?_eq_none.mpr hfinal.sound.toLinked)
  refine ⟨continuation, _, _, ?_, hreached, hcheck, State.verdict_closed.mpr hclosed⟩
  rintro move hmove rfl
  exact hforward hmove

/-- The first branch contradicts itself above its leaf, which no node on it
contradicts. -/
theorem plain_tableau_closable_deniedDisjunction :
    ∃ first reached : State,
      Formula.parse .identifier "a,b;!a;!b" = .ok Formula.deniedDisjunction ∧
      Formula.deniedDisjunction.Unsatisfiable ∧
      Calculus.parse .identifier "a,b;!a;!b" (⟨.unrestricted, false, true⟩ : Rules) = .ok first ∧
      Calculus.play first [.expand 0 0, .expand 1 1, .close 3 1, .undo, .expand 3 2] =
        .ok reached ∧
      ∃ (continuation : List Move) (final : State) (result : Verdict),
        (∀ move ∈ continuation, move ≠ .undo) ∧
        Calculus.play reached continuation = .ok final ∧
        Calculus.checkClose final = .ok result ∧ result.closed = true := by
  have hparse := State.parse_of_formula Formula.parse_deniedDisjunction
    ⟨.unrestricted, false, true⟩
  obtain ⟨reached, hrun, hsound⟩ : ∃ reached,
      Calculus.rehearse (State.start Formula.deniedDisjunction "a,b;!a;!b"
        ⟨.unrestricted, false, true⟩) [.expand 0 0, .expand 1 1, .close 3 1, .undo,
        .expand 3 2] = .ok reached ∧ Calculus.defect? reached = none := ⟨_, rfl, rfl⟩
  have hplay := (Calculus.play_of_rehearse hrun hsound).1
  exact ⟨_, _, Formula.parse_deniedDisjunction, Formula.deniedDisjunction_unsatisfiable, hparse,
    hplay, plain_tableau_closable Formula.parse_deniedDisjunction
      Formula.deniedDisjunction_unsatisfiable rfl rfl hparse hplay⟩

end Clausal.Tableau
