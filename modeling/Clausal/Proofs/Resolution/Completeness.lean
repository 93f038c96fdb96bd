import Mathlib.Data.List.Dedup
import Mathlib.Data.Set.Insert
import Clausal.Proofs.Resolution.Soundness

/-!
Completeness of the resolution calculus. Decide the names of a contradictory
clause set one after another: at the end of every row of decisions some clause is
false, and two clauses that fail on both sides of a decision either fail without
it or resolve on its name to one that does. Both have the decided name in one
polarity only, so the calculus picks the right pivot. Since hidden clauses can be
shown at any time, every state of a run can be continued to a closed proof.
-/

namespace Clausal

namespace Resolution

/-- The decisions settle whether the literal is true. -/
def Decides (decisions : Set Literal) (literal : Literal) : Prop :=
  literal ∈ decisions ∨ literal.complement ∈ decisions

theorem Decides.mono {earlier later : Set Literal} {literal : Literal}
    (h : Decides earlier literal) (hsubset : earlier ⊆ later) : Decides later literal :=
  Or.imp (fun hmember => hsubset hmember) (fun hmember => hsubset hmember) h

theorem decides_of_name_eq {decisions : Set Literal} {decision literal : Literal}
    (hmember : decision ∈ decisions) (hname : literal.name = decision.name) :
    Decides decisions literal := by
  rcases Literal.eq_or_eq_complement hname with rfl | rfl
  · exact .inl hmember
  · refine .inr ?_
    rw [Literal.complement_complement]
    exact hmember

/-- Every literal of the clause is false once the decisions are made. -/
def Fails (decisions : Set Literal) (clause : Clause) : Prop :=
  ∀ literal ∈ clause, literal.complement ∈ decisions

/-- A clause that does not hold the complement of a decision fails without it. -/
theorem Fails.of_insert {decisions : Set Literal} {decision : Literal} {clause : Clause}
    (hfails : Fails (insert decision decisions) clause)
    (hmissing : decision.complement ∉ clause) : Fails decisions clause := by
  intro literal hliteral
  rcases hfails literal hliteral with hdecision | hearlier
  · rw [← hdecision, Literal.complement_complement] at hmissing
    exact absurd hliteral hmissing
  · exact hearlier

/-- A failing clause does not hold a decision on a name that is not decided
otherwise. -/
theorem Fails.decision_notMem {decisions : Set Literal} {decision : Literal} {clause : Clause}
    (hfails : Fails (insert decision decisions) clause)
    (hfresh : decision.complement ∉ decisions) : decision ∉ clause := by
  intro hmember
  rcases hfails decision hmember with hsame | hearlier
  · exact Literal.complement_ne decision hsame
  · exact hfresh hearlier

theorem Fails.resolvent {decisions : Set Literal} {decision : Literal} {first second : Clause}
    (hfirst : Fails (insert decision decisions) first)
    (hsecond : Fails (insert decision.complement decisions) second) :
    Fails decisions (resolvent first second decision.complement) := by
  intro literal hliteral
  rcases mem_resolvent.mp hliteral with ⟨hmember, hne⟩ | ⟨hmember, hne⟩
  · rcases hfirst literal hmember with hsame | hearlier
    · rw [← hsame, Literal.complement_complement] at hne
      exact absurd rfl hne
    · exact hearlier
  · rcases hsecond literal hmember with hsame | hearlier
    · rw [← hsame, Literal.complement_complement] at hne
      exact absurd rfl hne
    · exact hearlier

/-- When everything is decided, a contradictory list of clauses has one that
fails. -/
theorem exists_fails {clauses : List Clause} {decisions : Set Literal}
    (hrefuted : ∀ assignment, ∃ clause ∈ clauses, ¬ clause.Holds assignment)
    (hcover : ∀ clause ∈ clauses, ∀ literal ∈ clause, Decides decisions literal) :
    ∃ clause ∈ clauses, Fails decisions clause := by
  classical
  obtain ⟨clause, hclause, hfalse⟩ :=
    hrefuted fun name => decide (Literal.positive name ∈ decisions)
  refine ⟨clause, hclause, ?_⟩
  intro literal hliteral
  by_contra hmissing
  have hdecided : literal ∈ decisions :=
    (hcover clause hclause literal hliteral).resolve_right hmissing
  apply hfalse
  refine ⟨literal, hliteral, ?_⟩
  obtain ⟨name, negated⟩ := literal
  cases negated with
  | false => exact decide_eq_true hdecided
  | true => exact decide_eq_false hmissing

theorem exists_pivot? {first second : Clause} {literal : Literal}
    (hfirst : literal ∈ first) (hsecond : literal.complement ∈ second) :
    ∃ pivot, pivot? first second (some literal.name) = some pivot :=
  exists_pivot?_iff.mpr ⟨literal, hfirst, hsecond, by simp⟩

namespace State

open Calculus

/-- The later state is reached by resolutions and still has all clauses. -/
structure Derives (state next : State) : Prop where
  run : ∃ moves, rehearse state moves = .ok next
  kept : ∀ clause ∈ state.clauses.clauses, clause ∈ next.clauses.clauses

theorem Derives.refl (state : State) : state.Derives state :=
  ⟨⟨[], rfl⟩, fun _ => id⟩

theorem Derives.trans {first second third : State} (hfirst : first.Derives second)
    (hsecond : second.Derives third) : first.Derives third := by
  obtain ⟨earlier, hearlier⟩ := hfirst.run
  obtain ⟨later, hlater⟩ := hsecond.run
  exact ⟨⟨earlier ++ later, rehearse_append_eq_ok.mpr ⟨second, hearlier, hlater⟩⟩,
    fun clause hclause => hsecond.kept clause (hfirst.kept clause hclause)⟩

/-- Two clauses with a literal and its complement, each in one polarity only, can
be resolved on it. The state then has a clause within the resolvent. -/
theorem exists_resolved {state : State} {first second : Clause} {literal : Literal}
    (hfirst : first ∈ state.clauses.clauses) (hsecond : second ∈ state.clauses.clauses)
    (hliteral : literal ∈ first) (hcomplement : literal.complement ∈ second)
    (honly : literal.complement ∉ first) :
    ∃ next, state.Derives next ∧ ∃ clause ∈ next.clauses.clauses,
      ∀ other ∈ clause, other ∈ resolvent first second literal := by
  obtain ⟨firstId, hfirstId⟩ := List.getElem?_of_mem hfirst
  obtain ⟨secondId, hsecondId⟩ := List.getElem?_of_mem hsecond
  have hdifferent : firstId ≠ secondId := by
    rintro rfl
    cases hfirstId.symm.trans hsecondId
    exact honly hcomplement
  obtain ⟨pivot, hpivot⟩ := exists_pivot? hliteral hcomplement
  have hsame : pivot = literal := by
    obtain ⟨hmember, -, hname⟩ := pivot?_spec hpivot
    rcases Literal.eq_or_eq_complement (hname _ rfl).symm with hsame | hopposite
    · exact hsame
    · exact absurd (hopposite ▸ hmember) honly
  subst hsame
  have hstep : state.step (.resolve firstId secondId (some pivot.name)) =
      .ok (state.derive (resolvent first second pivot)) :=
    resolve_eq_ok.mpr ⟨hdifferent, first, second, pivot, hfirstId, hsecondId, hpivot, rfl⟩
  refine ⟨_, ⟨⟨[_], rehearse_cons_eq_ok.mpr ⟨_, advance_eq_ok.mpr ⟨rfl, hstep⟩, rfl⟩⟩, ?_⟩, ?_⟩
  · intro clause hclause
    rw [derive_clauses]
    exact ClauseSet.mem_insert_of_mem hclause
  · rw [derive_clauses]
    exact ClauseSet.exists_mem_insert _ _

/-- Of two clauses that fail on both sides of a decision, one fails without it, or they
resolve to a clause that does. -/
theorem exists_failing_of_both {state : State} {decisions : Set Literal} {decision : Literal}
    {first second : Clause} (hfirst : first ∈ state.clauses.clauses)
    (hsecond : second ∈ state.clauses.clauses)
    (hfirstFails : Fails (insert decision decisions) first)
    (hsecondFails : Fails (insert decision.complement decisions) second)
    (hfresh : decision.complement ∉ decisions) :
    ∃ next, state.Derives next ∧ ∃ clause ∈ next.clauses.clauses, Fails decisions clause := by
  by_cases hleft : decision.complement ∈ first
  · by_cases hright : decision.complement.complement ∈ second
    · have honly : decision.complement.complement ∉ first := by
        rw [Literal.complement_complement]
        exact hfirstFails.decision_notMem hfresh
      obtain ⟨next, hnext, clause, hclause, hsubset⟩ :=
        exists_resolved hfirst hsecond hleft hright honly
      refine ⟨next, hnext, clause, hclause, ?_⟩
      intro literal hliteral
      exact hfirstFails.resolvent hsecondFails literal (hsubset literal hliteral)
    · exact ⟨state, .refl state, second, hsecond, hsecondFails.of_insert hright⟩
  · exact ⟨state, .refl state, first, hfirst, hfirstFails.of_insert hleft⟩

/-- Along every row of decisions that leaves only the open names undecided, a clause
can be derived that fails. -/
theorem exists_failing {clauses : List Clause}
    (hrefuted : ∀ assignment, ∃ clause ∈ clauses, ¬ clause.Holds assignment)
    (undecided : List String) (hdistinct : undecided.Nodup) (decisions : Set Literal)
    (hfresh : ∀ decision ∈ decisions, decision.name ∉ undecided)
    (hcover : ∀ clause ∈ clauses, ∀ literal ∈ clause,
      literal.name ∈ undecided ∨ Decides decisions literal)
    (state : State) (hclauses : ∀ clause ∈ clauses, clause ∈ state.clauses.clauses) :
    ∃ next, state.Derives next ∧ ∃ clause ∈ next.clauses.clauses, Fails decisions clause := by
  induction undecided generalizing decisions state with
  | nil =>
      have hdecided : ∀ clause ∈ clauses, ∀ literal ∈ clause, Decides decisions literal := by
        intro clause hclause literal hliteral
        exact (hcover clause hclause literal hliteral).resolve_left List.not_mem_nil
      obtain ⟨clause, hclause, hfails⟩ := exists_fails hrefuted hdecided
      exact ⟨state, .refl state, clause, hclauses clause hclause, hfails⟩
  | cons name rest ih =>
      obtain ⟨hname, hdistinct⟩ := List.nodup_cons.mp hdistinct
      -- Either decision on the name leaves the rest undecided.
      have hbranch (decision : Literal) (hdecision : decision.name = name) (state : State)
          (hclauses : ∀ clause ∈ clauses, clause ∈ state.clauses.clauses) :
          ∃ next, state.Derives next ∧ ∃ clause ∈ next.clauses.clauses,
            Fails (insert decision decisions) clause := by
        refine ih hdistinct (insert decision decisions) ?_ ?_ state hclauses
        · rintro other (rfl | hearlier)
          · rwa [hdecision]
          · exact fun hrest => hfresh other hearlier (List.mem_cons_of_mem _ hrest)
        · intro clause hclause literal hliteral
          rcases hcover clause hclause literal hliteral with hopen | hdecided
          · rcases List.mem_cons.mp hopen with hsame | hrest
            · exact .inr (decides_of_name_eq (Set.mem_insert _ _) (hsame.trans hdecision.symm))
            · exact .inl hrest
          · exact .inr (hdecided.mono (Set.subset_insert _ _))
      obtain ⟨middle, hmiddle, first, hfirst, hfirstFails⟩ :=
        hbranch (.positive name) rfl state hclauses
      obtain ⟨next, hnext, second, hsecond, hsecondFails⟩ :=
        hbranch (Literal.positive name).complement rfl middle
          fun clause hclause => hmiddle.kept clause (hclauses clause hclause)
      obtain ⟨final, hfinal, clause, hclause, hfails⟩ :=
        exists_failing_of_both (hnext.kept first hfirst) hsecond hfirstFails hsecondFails
          fun h => hfresh _ h List.mem_cons_self
      exact ⟨final, (hmiddle.trans hnext).trans hfinal, clause, hclause, hfails⟩

/-- From a state whose visible clauses contradict each other the empty clause can be
derived. -/
theorem exists_closed {state : State} (hunsatisfiable : state.clauses.Unsatisfiable) :
    ∃ next, state.Derives next ∧ next.clauses.hasEmptyClause = true := by
  have hrefuted (assignment : Assignment) :
      ∃ clause ∈ state.clauses.clauses, ¬ clause.Holds assignment := by
    have hfalse := hunsatisfiable assignment
    unfold ClauseSet.Holds at hfalse
    push Not at hfalse
    exact hfalse
  let names := (state.clauses.clauses.flatMap fun clause =>
    clause.literals.map Literal.name).dedup
  have hcover : ∀ clause ∈ state.clauses.clauses, ∀ literal ∈ clause,
      literal.name ∈ names ∨ Decides ∅ literal := by
    intro clause hclause literal hliteral
    refine .inl (List.mem_dedup.mpr (List.mem_flatMap.mpr ⟨clause, hclause, ?_⟩))
    exact List.mem_map_of_mem hliteral
  obtain ⟨next, hnext, clause, hclause, hfails⟩ := exists_failing hrefuted names
    (List.nodup_dedup _) ∅ (fun _ h => absurd h (Set.notMem_empty _)) hcover state
    fun _ hclause => hclause
  refine ⟨next, hnext, ClauseSet.hasEmptyClause_iff.mpr ⟨clause, hclause, ?_⟩⟩
  intro literal hliteral
  exact Set.notMem_empty _ (hfails literal hliteral)

end State

/-- Completeness without dead ends: if the clauses of the formula contradict each
other, every run can be continued to a closed proof. -/
theorem resolution_run_closable {alphabet : Alphabet} {formula : String} {options : Options}
    {clauses : ClauseSet} {first reached : State} {moves : List Move}
    (hformula : Formula.parse alphabet formula = .ok clauses)
    (hunsatisfiable : clauses.Unsatisfiable)
    (hparse : Calculus.parse alphabet formula options = .ok first)
    (hplay : Calculus.play first moves = .ok reached) :
    ∃ continuation final result, Calculus.play reached continuation = .ok final ∧
      Calculus.checkClose final = .ok result ∧ result.closed = true := by
  obtain ⟨bare, hrun, rfl⟩ := Calculus.rehearse_of_play hformula hparse hplay
  -- Showing everything first makes the visible clauses say what the formula says.
  have hshown : bare.unhide.clauses.Unsatisfiable := by
    intro assignment hholds
    apply hunsatisfiable assignment
    rw [← State.holds_of_rehearse hrun, ← State.holds_unhide]
    exact ⟨hholds, ClauseSet.holds_empty⟩
  obtain ⟨final, ⟨⟨continuation, hcontinuation⟩, -⟩, hempty⟩ := State.exists_closed hshown
  have hrest : Calculus.rehearse bare (.unhide :: continuation) = .ok final :=
    Calculus.rehearse_cons_eq_ok.mpr
      ⟨_, Calculus.advance_eq_ok.mpr ⟨rfl, rfl⟩, hcontinuation⟩
  obtain ⟨hcontinued, hcheck⟩ := Calculus.play_of_rehearse hrest rfl
  exact ⟨_, _, _, hcontinued, hcheck, State.verdict_closed.mpr hempty⟩

/-- A run that has derived a clause and then hidden everything but one clause can
still be closed. -/
theorem resolution_run_closable_deniedDisjunction :
    ∃ first reached : State,
      Formula.parse .identifier "a,b;!a;!b" = .ok Formula.deniedDisjunction ∧
      Formula.deniedDisjunction.Unsatisfiable ∧
      Calculus.parse .identifier "a,b;!a;!b" (⟨.off⟩ : Options) = .ok first ∧
      Calculus.play first [.resolve 1 0 none, .hide 0, .hide 1, .hide 1] = .ok reached ∧
      ∃ continuation final result, Calculus.play reached continuation = .ok final ∧
        Calculus.checkClose final = .ok result ∧ result.closed = true := by
  have hformula := Formula.parse_deniedDisjunction
  have hunsatisfiable := Formula.deniedDisjunction_unsatisfiable
  have hparse : Calculus.parse .identifier "a,b;!a;!b" (⟨.off⟩ : Options) =
      .ok (Calculus.reseal (State.start Formula.deniedDisjunction "a,b;!a;!b" .off)) :=
    Calculus.parse_eq_ok.mpr ⟨_, hformula, rfl⟩
  obtain ⟨reached, hrun⟩ : ∃ reached,
      Calculus.rehearse (State.start Formula.deniedDisjunction "a,b;!a;!b" .off)
        [.resolve 1 0 none, .hide 0, .hide 1, .hide 1] = .ok reached := ⟨_, rfl⟩
  obtain ⟨hplay, -⟩ := Calculus.play_of_rehearse hrun rfl
  exact ⟨_, _, hformula, hunsatisfiable, hparse, hplay,
    resolution_run_closable hformula hunsatisfiable hparse hplay⟩

end Resolution

end Clausal
