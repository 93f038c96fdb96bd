import Clausal.Proofs.Formula.Grammar
import Clausal.Proofs.Resolution.Legality
import Clausal.Proofs.Vocabulary

/-!
What a resolution proof owns. A resolvent may equal a clause that was put aside, so
the visible and the hidden clauses can overlap, and clauses that go from one set to
the other are dropped where one of the same literals is found. Yet neither set ever
holds a clause twice, no literal is made up, and a clause that was there once, visible
or hidden, is there ever after up to the order of its literals. Showing the hidden
clauses therefore brings back everything, the empty clause included.
-/

namespace Clausal

/-- A set with the clauses of another one has its empty clause. -/
theorem ClauseSet.hasEmptyClause_of_among {set clauses : ClauseSet}
    (hamong : ∀ clause ∈ clauses.clauses, clause.Among set.clauses)
    (hempty : clauses.hasEmptyClause = true) : set.hasEmptyClause = true := by
  obtain ⟨clause, hclause, hnone⟩ := hasEmptyClause_iff.mp hempty
  obtain ⟨found, hfound, hequal⟩ := hamong clause hclause
  refine hasEmptyClause_iff.mpr ⟨found, hfound, ?_⟩
  intro literal hliteral
  exact hnone literal ((hequal literal).mp hliteral)

namespace Resolution

namespace State

open Calculus

/-- Neither clause set holds anything twice, and the newest clause is one of them. -/
structure Tidy (state : State) : Prop where
  clauses : state.clauses.Distinct
  hidden : state.hidden.Distinct
  newest : ∀ id ∈ state.newest, id < state.clauses.size

theorem tidy_start {clauses : ClauseSet} (hclauses : clauses.Distinct) (formula : String)
    (help : VisualHelp) : (State.start clauses formula help).Tidy :=
  ⟨hclauses, ClauseSet.distinct_empty, by simp [State.start]⟩

theorem Tidy.derive {state : State} (h : state.Tidy) {clause : Clause}
    (hclause : clause.Distinct) : (state.derive clause).Tidy := by
  refine ⟨?_, ?_, ?_⟩
  · rw [derive_clauses]
    exact h.clauses.insert hclause
  · rw [derive_hidden]
    exact h.hidden
  · unfold State.derive
    cases hindex : state.clauses.indexOf? clause with
    | some index =>
        have hlt : index < state.clauses.size :=
          (List.findIdx?_eq_some_iff_getElem.mp hindex).1
        simpa using hlt
    | none => simp [ClauseSet.insert_of_indexOf?_eq_none hindex, ClauseSet.size]

theorem Tidy.step {state next : State} {move : Move} (h : state.Tidy)
    (hstep : state.step move = .ok next) : next.Tidy := by
  cases move with
  | resolve firstId secondId name =>
      obtain ⟨-, first, second, pivot, hfirst, -, -, rfl⟩ := resolve_eq_ok.mp hstep
      have hdistinct := h.clauses.clause first (List.mem_of_getElem? hfirst)
      exact h.derive ((hdistinct.erase pivot).union _)
  | hide id =>
      obtain ⟨clause, hclause, rfl⟩ := hide_eq_ok.mp hstep
      have hdistinct := h.clauses.clause clause (List.mem_of_getElem? hclause)
      exact ⟨h.clauses.sublist (List.eraseIdx_sublist _ _), h.hidden.insert hdistinct, by simp⟩
  | unhide =>
      cases hstep
      exact ⟨h.clauses.insertAll h.hidden.clause, ClauseSet.distinct_empty, by simp [unhide]⟩

/-- All clauses of the state, visible and hidden ones. -/
def inventory (state : State) : List Clause := state.clauses.clauses ++ state.hidden.clauses

/-- Every clause of the first state is still there in the second, up to the order of
its literals, and every literal of the second was there in the first. -/
structure Conserves (first second : State) : Prop where
  kept : ∀ clause ∈ first.inventory, clause.Among second.inventory
  known : ∀ clause ∈ second.inventory, ∀ literal ∈ clause,
    ∃ source ∈ first.inventory, literal ∈ source

namespace Conserves

theorem refl (state : State) : state.Conserves state :=
  ⟨fun _ hclause => Clause.among_of_mem hclause,
    fun clause hclause _ hliteral => ⟨clause, hclause, hliteral⟩⟩

theorem trans {first second third : State} (hfirst : first.Conserves second)
    (hsecond : second.Conserves third) : first.Conserves third := by
  constructor
  · intro clause hclause
    exact (hfirst.kept clause hclause).trans hsecond.kept
  · intro clause hclause literal hliteral
    obtain ⟨source, hsource, hmember⟩ := hsecond.known clause hclause literal hliteral
    exact hfirst.known source hsource literal hmember

end Conserves

variable {state next : State}

theorem conserves_resolve {firstId secondId : Nat} {name : Option String}
    (hstep : state.resolve firstId secondId name = .ok next) : state.Conserves next := by
  obtain ⟨-, first, second, pivot, hfirst, hsecond, -, rfl⟩ := resolve_eq_ok.mp hstep
  have hinventory : (state.derive (resolvent first second pivot)).inventory =
      (state.clauses.insert (resolvent first second pivot)).clauses ++ state.hidden.clauses := by
    rw [inventory, derive_clauses, derive_hidden]
  constructor
  · intro clause hclause
    rw [hinventory]
    apply Clause.among_of_mem
    rcases List.mem_append.mp hclause with hvisible | hhidden
    · exact List.mem_append_left _ (ClauseSet.mem_insert_of_mem hvisible)
    · exact List.mem_append_right _ hhidden
  · intro clause hclause literal hliteral
    rw [hinventory] at hclause
    rcases List.mem_append.mp hclause with hvisible | hhidden
    · rcases ClauseSet.mem_of_mem_insert hvisible with hold | rfl
      · exact ⟨clause, List.mem_append_left _ hold, hliteral⟩
      · -- A literal of the resolvent is one of the two clauses it comes from.
        rcases mem_resolvent.mp hliteral with ⟨hmember, -⟩ | ⟨hmember, -⟩
        · exact ⟨first, List.mem_append_left _ (List.mem_of_getElem? hfirst), hmember⟩
        · exact ⟨second, List.mem_append_left _ (List.mem_of_getElem? hsecond), hmember⟩
    · exact ⟨clause, List.mem_append_right _ hhidden, hliteral⟩

theorem Tidy.conserves_hide (h : state.Tidy) {id : Nat} (hstep : state.hide id = .ok next) :
    state.Conserves next := by
  obtain ⟨taken, htaken, rfl⟩ := hide_eq_ok.mp hstep
  have hmember : taken ∈ state.clauses.clauses := List.mem_of_getElem? htaken
  have hput : taken.Among (state.hidden.insert taken).clauses :=
    h.hidden.among_insert (h.clauses.clause taken hmember)
  constructor
  · intro clause hclause
    rcases List.mem_append.mp hclause with hvisible | hhidden
    · obtain ⟨hid, hat⟩ := List.getElem?_eq_some_iff.mp htaken
      rw [← (List.getElem_cons_eraseIdx_perm hid).mem_iff, hat] at hvisible
      rcases List.mem_cons.mp hvisible with rfl | hleft
      · exact hput.mono (List.subset_append_right _ _)
      · exact Clause.among_of_mem (List.mem_append_left _ hleft)
    · exact Clause.among_of_mem
        (List.mem_append_right _ (ClauseSet.mem_insert_of_mem hhidden))
  · intro clause hclause literal hliteral
    refine ⟨clause, ?_, hliteral⟩
    rcases List.mem_append.mp hclause with hvisible | hhidden
    · exact List.mem_append_left _ (List.mem_of_mem_eraseIdx hvisible)
    · rcases ClauseSet.mem_of_mem_insert hhidden with hold | rfl
      · exact List.mem_append_right _ hold
      · exact List.mem_append_left _ hmember

theorem Tidy.conserves_unhide (h : state.Tidy) : state.Conserves state.unhide := by
  constructor
  · intro clause hclause
    rcases List.mem_append.mp hclause with hvisible | hhidden
    · exact Clause.among_of_mem
        (List.mem_append_left _ (ClauseSet.mem_insertAll_of_mem hvisible))
    · exact (h.clauses.among_insertAll h.hidden.clause hhidden).mono
        (List.subset_append_left _ _)
  · intro clause hclause literal hliteral
    refine ⟨clause, ?_, hliteral⟩
    rcases List.mem_append.mp hclause with hvisible | hhidden
    · exact List.mem_append.mpr (ClauseSet.mem_of_mem_insertAll hvisible)
    · cases hhidden

/-- No move loses a clause or makes up a literal. -/
theorem Tidy.conserves_step {move : Move} (h : state.Tidy)
    (hstep : state.step move = .ok next) : state.Conserves next := by
  cases move with
  | resolve firstId secondId name => exact conserves_resolve hstep
  | hide id => exact h.conserves_hide hstep
  | unhide =>
      cases hstep
      exact h.conserves_unhide

theorem Tidy.run {final : State} {moves : List Move} (h : state.Tidy)
    (hrun : rehearse state moves = .ok final) : final.Tidy ∧ state.Conserves final := by
  refine rehearse_invariant (fun reached => reached.Tidy ∧ state.Conserves reached) ?_
    ⟨h, .refl state⟩ hrun
  rintro before move after - ⟨htidy, hconserves⟩ hstep
  exact ⟨htidy.step hstep, hconserves.trans (htidy.conserves_step hstep)⟩

theorem Conserves.mem_vocabulary {clauses : ClauseSet} {formula : String} {help : VisualHelp}
    (h : (State.start clauses formula help).Conserves state) :
    ∀ clause ∈ state.inventory, ∀ literal ∈ clause, literal ∈ clauses.vocabulary := by
  intro clause hclause literal hliteral
  obtain ⟨source, hsource, hmember⟩ := h.known clause hclause literal hliteral
  rw [ClauseSet.mem_vocabulary]
  rw [inventory, start, ClauseSet.empty, List.append_nil] at hsource
  exact ⟨source, hsource, hmember⟩

theorem Tidy.conserves_between {middle final : State} {earlier moves : List Move}
    (h : state.Tidy) (hearlier : earlier <+: moves)
    (hmiddle : rehearse state earlier = .ok middle) (hrun : rehearse state moves = .ok final) :
    middle.Conserves final := by
  obtain ⟨rest, rfl⟩ := hearlier
  obtain ⟨reached, hreached, hrest⟩ := rehearse_append_eq_ok.mp hrun
  cases hmiddle.symm.trans hreached
  exact ((h.run hmiddle).1.run hrest).2

/-- What was there at any point of a run is visible after the hidden clauses are
shown. -/
theorem Tidy.among_unhide {middle : State} (h : state.Tidy)
    (hconserves : middle.Conserves state) :
    ∀ clause ∈ middle.inventory, clause.Among state.unhide.clauses.clauses := by
  have hvisible : state.unhide.inventory = state.unhide.clauses.clauses := List.append_nil _
  intro clause hclause
  rw [← hvisible]
  exact (hconserves.trans h.conserves_unhide).kept clause hclause

end State

/-- In every state of a run the clause sets hold nothing twice and nothing that the
formula does not spell, and nothing that was there before is lost. When the hidden
clauses are shown all of it is visible, and a proof that was closed is closed again. -/
theorem resolution_run_conserves {alphabet : Alphabet} {formula : String} {options : Options}
    {clauses : ClauseSet} {first final : State} {moves : List Move}
    (hformula : Formula.parse alphabet formula = .ok clauses)
    (hparse : Calculus.parse alphabet formula options = .ok first)
    (hplay : Calculus.play first moves = .ok final) :
    final.Tidy ∧
    (∀ clause ∈ final.inventory, ∀ literal ∈ clause, literal ∈ clauses.vocabulary) ∧
    final.clauses.size ≤ 2 ^ clauses.vocabulary.card ∧
    final.hidden.size ≤ 2 ^ clauses.vocabulary.card ∧
    (∀ clause ∈ clauses.clauses, clause.Among final.inventory) ∧
    ∃ shown : State, Calculus.applyMove final .unhide = .ok shown ∧ shown.hidden = .empty ∧
      (∀ clause ∈ clauses.clauses, clause.Among shown.clauses.clauses) ∧
      ∀ earlier middle, earlier <+: moves → Calculus.play first earlier = .ok middle →
        (∀ clause ∈ middle.inventory, clause.Among final.inventory) ∧
        (∀ clause ∈ middle.inventory, clause.Among shown.clauses.clauses) ∧
        ∀ result, Calculus.checkClose middle = .ok result → result.closed = true →
          ∃ verdict, Calculus.checkClose shown = .ok verdict ∧ verdict.closed = true := by
  obtain ⟨bare, hrun, rfl⟩ := Calculus.rehearse_of_play hformula hparse hplay
  have hstart : (State.start clauses formula options.visualHelp).Tidy :=
    State.tidy_start (Formula.parse_distinct hformula) formula options.visualHelp
  obtain ⟨htidy, hconserves⟩ := hstart.run hrun
  have hliterals := hconserves.mem_vocabulary
  have hformulaKept : ∀ clause ∈ clauses.clauses,
      clause ∈ (State.start clauses formula options.visualHelp).inventory :=
    fun clause hclause => List.mem_append_left _ hclause
  refine ⟨⟨htidy.clauses, htidy.hidden, htidy.newest⟩, hliterals, ?_, ?_, ?_,
    Calculus.reseal bare.unhide, ?_, rfl, ?_, ?_⟩
  · exact htidy.clauses.size_le_two_pow fun clause hclause =>
      hliterals clause (List.mem_append_left _ hclause)
  · exact htidy.hidden.size_le_two_pow fun clause hclause =>
      hliterals clause (List.mem_append_right _ hclause)
  · exact fun clause hclause => hconserves.kept clause (hformulaKept clause hclause)
  · exact Calculus.applyMove_reseal_eq_ok.mpr
      ⟨bare.unhide, Calculus.advance_eq_ok.mpr ⟨rfl, rfl⟩, rfl⟩
  · exact fun clause hclause => htidy.among_unhide hconserves clause (hformulaKept clause hclause)
  · intro earlier middle hearlier hreached
    obtain ⟨before, hbefore, rfl⟩ := Calculus.rehearse_of_play hformula hparse hreached
    have hbetween : before.Conserves bare := hstart.conserves_between hearlier hbefore hrun
    have hshown := htidy.among_unhide hbetween
    refine ⟨hbetween.kept, hshown, ?_⟩
    intro result hcheck hclosed
    have hverdict : before.verdict = result := Calculus.verdict_of_checkClose hcheck
    rw [← hverdict, State.verdict_closed] at hclosed
    refine ⟨bare.unhide.verdict, Calculus.checkClose_reseal _, ?_⟩
    rw [State.verdict_closed]
    exact ClauseSet.hasEmptyClause_of_among
      (fun clause hclause => hshown clause (List.mem_append_left _ hclause)) hclosed

/-- A clause is derived again and again while it is hidden. The empty clause that closes
the proof is hidden as well, and comes back. -/
theorem resolution_run_conserves_deniedDisjunction :
    ∃ (first middle final shown : State) (result verdict : Verdict),
      Formula.parse .identifier "a,b;!a;!b" = .ok Formula.deniedDisjunction ∧
      Calculus.parse .identifier "a,b;!a;!b" (⟨.off⟩ : Options) = .ok first ∧
      Calculus.play first [.resolve 0 1 none, .hide 3, .resolve 0 1 none, .hide 3,
        .resolve 1 0 none, .resolve 2 3 none] = .ok middle ∧
      Calculus.checkClose middle = .ok result ∧ result.closed = true ∧
      Calculus.play first [.resolve 0 1 none, .hide 3, .resolve 0 1 none, .hide 3,
        .resolve 1 0 none, .resolve 2 3 none, .hide 4] = .ok final ∧
      final.clauses.hasEmptyClause = false ∧ final.Tidy ∧
      (∀ clause ∈ middle.inventory, clause.Among final.inventory) ∧
      Calculus.applyMove final .unhide = .ok shown ∧ shown.hidden = .empty ∧
      Calculus.checkClose shown = .ok verdict ∧ verdict.closed = true := by
  have hformula := Formula.parse_deniedDisjunction
  have hparse : Calculus.parse .identifier "a,b;!a;!b" (⟨.off⟩ : Options) =
      .ok (Calculus.reseal (State.start Formula.deniedDisjunction "a,b;!a;!b" .off)) :=
    Calculus.parse_eq_ok.mpr ⟨_, hformula, rfl⟩
  obtain ⟨middle, hmiddle, hclosed⟩ : ∃ middle,
      Calculus.rehearse (State.start Formula.deniedDisjunction "a,b;!a;!b" .off)
        [.resolve 0 1 none, .hide 3, .resolve 0 1 none, .hide 3, .resolve 1 0 none,
          .resolve 2 3 none] = .ok middle ∧
      (Calculus.verdict middle).closed = true := ⟨_, rfl, rfl⟩
  obtain ⟨final, hfinal, hhidden⟩ : ∃ final : State,
      Calculus.rehearse (State.start Formula.deniedDisjunction "a,b;!a;!b" .off)
        [.resolve 0 1 none, .hide 3, .resolve 0 1 none, .hide 3, .resolve 1 0 none,
          .resolve 2 3 none, .hide 4] = .ok final ∧
      final.clauses.hasEmptyClause = false := ⟨_, rfl, rfl⟩
  obtain ⟨hreached, hcheck⟩ := Calculus.play_of_rehearse hmiddle rfl
  have hplay := (Calculus.play_of_rehearse hfinal rfl).1
  obtain ⟨htidy, -, -, -, -, shown, hshow, hnothing, -, hearlier⟩ :=
    resolution_run_conserves hformula hparse hplay
  obtain ⟨hkept, -, hagain⟩ := hearlier _ _ (List.prefix_append _ [Move.hide 4]) hreached
  obtain ⟨verdict, hverdict, hstill⟩ := hagain _ hcheck hclosed
  exact ⟨_, _, _, shown, _, verdict, hformula, hparse, hreached, hcheck, hclosed, hplay, hhidden,
    htidy, hkept, hshow, hnothing, hverdict, hstill⟩

end Resolution

end Clausal
