import Mathlib.Data.List.Perm.Basic
import Clausal.Proofs.Formula
import Clausal.Proofs.Resolution.Legality

/-!
Soundness of the resolution calculus. The visible and the hidden clauses of a
state together say what the formula says: a resolvent follows from the clauses it
comes from, and hiding and showing only move clauses from one set to the other,
where nothing is left out that is not there already.
-/

namespace Clausal.Resolution

variable {assignment : Assignment}

/-- The resolvent of two clauses follows from them, whatever the pivot. -/
theorem holds_resolvent {first second : Clause} (hfirst : first.Holds assignment)
    (hsecond : second.Holds assignment) (pivot : Literal) :
    (resolvent first second pivot).Holds assignment := by
  obtain ⟨literal, hliteral, htrue⟩ := hfirst
  obtain ⟨other, hother, hotherTrue⟩ := hsecond
  by_cases hpivot : pivot.Holds assignment
  · refine ⟨other, mem_resolvent.mpr (.inr ⟨hother, ?_⟩), hotherTrue⟩
    rintro rfl
    exact (Literal.holds_complement assignment pivot).mp hotherTrue hpivot
  · refine ⟨literal, mem_resolvent.mpr (.inl ⟨hliteral, ?_⟩), htrue⟩
    rintro rfl
    exact hpivot htrue

namespace State

/-- All clauses of the state hold, visible and hidden ones. -/
def Holds (assignment : Assignment) (state : State) : Prop :=
  state.clauses.Holds assignment ∧ state.hidden.Holds assignment

theorem holds_derive {state : State} {clause : Clause}
    (hentailed : state.clauses.Holds assignment → clause.Holds assignment) :
    (state.derive clause).Holds assignment ↔ state.Holds assignment := by
  unfold Holds
  rw [derive_clauses, derive_hidden, ClauseSet.holds_insert]
  constructor
  · rintro ⟨⟨hclauses, -⟩, hhidden⟩
    exact ⟨hclauses, hhidden⟩
  · rintro ⟨hclauses, hhidden⟩
    exact ⟨⟨hclauses, hentailed hclauses⟩, hhidden⟩

theorem holds_resolve {state next : State} {firstId secondId : Nat} {name : Option String}
    (hstep : state.resolve firstId secondId name = .ok next) :
    next.Holds assignment ↔ state.Holds assignment := by
  obtain ⟨-, first, second, pivot, hfirst, hsecond, -, rfl⟩ := resolve_eq_ok.mp hstep
  apply holds_derive
  intro hclauses
  exact holds_resolvent (hclauses first (List.mem_of_getElem? hfirst))
    (hclauses second (List.mem_of_getElem? hsecond)) pivot

theorem holds_hide {state next : State} {id : Nat} (hstep : state.hide id = .ok next) :
    next.Holds assignment ↔ state.Holds assignment := by
  obtain ⟨clause, hclause, rfl⟩ := hide_eq_ok.mp hstep
  obtain ⟨hid, rfl⟩ := List.getElem?_eq_some_iff.mp hclause
  -- Taking a clause out and putting it in front only permutes the clauses.
  have hperm := List.getElem_cons_eraseIdx_perm hid
  have hsplit : state.clauses.Holds assignment ↔
      (state.clauses.clauses[id]).Holds assignment ∧
        ClauseSet.Holds assignment ⟨state.clauses.clauses.eraseIdx id⟩ := by
    unfold ClauseSet.Holds
    rw [← List.forall_mem_cons]
    exact forall_congr' fun other => by rw [hperm.mem_iff]
  unfold Holds
  rw [hsplit, ClauseSet.holds_insert]
  exact ⟨fun h => ⟨⟨h.2.2, h.1⟩, h.2.1⟩, fun h => ⟨h.1.2, h.2, h.1.1⟩⟩

theorem holds_unhide {state : State} :
    state.unhide.Holds assignment ↔ state.Holds assignment := by
  unfold Holds unhide
  rw [ClauseSet.holds_insertAll]
  exact and_iff_left ClauseSet.holds_empty

/-- No move changes what the clauses of a state say together. -/
theorem holds_step {state next : State} {move : Move} (hstep : state.step move = .ok next) :
    next.Holds assignment ↔ state.Holds assignment := by
  cases move with
  | resolve firstId secondId name => exact holds_resolve hstep
  | hide id => exact holds_hide hstep
  | unhide =>
      cases hstep
      exact holds_unhide

theorem holds_of_rehearse {clauses : ClauseSet} {formula : String} {options : Options}
    {moves : List Move} {state : State}
    (hrun : Calculus.rehearse (Calculus.start clauses formula options : State) moves =
      .ok state) : state.Holds assignment ↔ clauses.Holds assignment := by
  refine Calculus.rehearse_invariant
    (fun state : State => state.Holds assignment ↔ clauses.Holds assignment) ?_ ?_ hrun
  · intro before move after _ hbefore hstep
    exact (holds_step hstep).trans hbefore
  · exact and_iff_left ClauseSet.holds_empty

end State

/-- Soundness: in every state of a run the visible and the hidden clauses are
together equivalent to the formula, so each of them follows from it, and if the
proof is found closed at any point then the formula has no model. -/
theorem resolution_run_equivalent {alphabet : Alphabet} {formula : String} {options : Options}
    {clauses : ClauseSet} {first final : State} {moves : List Move}
    (hformula : Formula.parse alphabet formula = .ok clauses)
    (hparse : Calculus.parse alphabet formula options = .ok first)
    (hplay : Calculus.play first moves = .ok final) :
    (∀ assignment, final.clauses.Holds assignment ∧ final.hidden.Holds assignment ↔
      clauses.Holds assignment) ∧
    (∀ clause ∈ final.clauses.clauses ++ final.hidden.clauses, ∀ assignment,
      clauses.Holds assignment → clause.Holds assignment) ∧
    ∀ earlier middle result, earlier <+: moves → Calculus.play first earlier = .ok middle →
      Calculus.checkClose middle = .ok result → result.closed = true →
      clauses.Unsatisfiable := by
  have hequivalent : ∀ assignment, final.Holds assignment ↔ clauses.Holds assignment := by
    obtain ⟨bare, hrun, rfl⟩ := Calculus.rehearse_of_play hformula hparse hplay
    intro assignment
    have hbare : bare.Holds assignment ↔ clauses.Holds assignment :=
      State.holds_of_rehearse hrun
    exact hbare
  refine ⟨hequivalent, ?_, ?_⟩
  · intro clause hclause assignment hholds
    obtain ⟨hvisible, hhidden⟩ := (hequivalent assignment).mpr hholds
    rcases List.mem_append.mp hclause with hmember | hmember
    · exact hvisible clause hmember
    · exact hhidden clause hmember
  · intro earlier middle result _ hreached hcheck hclosed assignment hholds
    obtain ⟨bare, hrun, rfl⟩ := Calculus.rehearse_of_play hformula hparse hreached
    have hverdict : bare.verdict = result := Calculus.verdict_of_checkClose hcheck
    have hempty : bare.clauses.hasEmptyClause = true := by
      rw [← State.verdict_closed, hverdict, hclosed]
    have hmodel : bare.Holds assignment := (State.holds_of_rehearse hrun).mpr hholds
    exact ClauseSet.not_holds_of_hasEmptyClause hempty hmodel.1

/-- A run that hides a clause, resolves on a named literal, shows the clause again
and ends with the empty clause. -/
theorem resolution_run_equivalent_deniedDisjunction :
    ∃ first final result,
      Formula.parse .identifier "a,b;!a;!b" = .ok Formula.deniedDisjunction ∧
      Calculus.parse .identifier "a,b;!a;!b" (⟨.highlight⟩ : Options) = .ok first ∧
      Calculus.play first [.hide 2, .resolve 0 1 (some "a"), .unhide, .resolve 2 3 none] =
        .ok (final : State) ∧
      Calculus.checkClose final = .ok result ∧ result.closed = true ∧
      (∀ assignment, final.clauses.Holds assignment ∧ final.hidden.Holds assignment ↔
        Formula.deniedDisjunction.Holds assignment) ∧
      Formula.deniedDisjunction.Unsatisfiable := by
  have hformula := Formula.parse_deniedDisjunction
  have hparse : Calculus.parse .identifier "a,b;!a;!b" (⟨.highlight⟩ : Options) =
      .ok (Calculus.reseal (State.start Formula.deniedDisjunction "a,b;!a;!b" .highlight)) :=
    Calculus.parse_eq_ok.mpr ⟨_, hformula, rfl⟩
  obtain ⟨final, hrun, hclosed⟩ : ∃ final,
      Calculus.rehearse (State.start Formula.deniedDisjunction "a,b;!a;!b" .highlight)
        [.hide 2, .resolve 0 1 (some "a"), .unhide, .resolve 2 3 none] = .ok final ∧
      (Calculus.verdict final).closed = true := ⟨_, rfl, rfl⟩
  obtain ⟨hplay, hcheck⟩ := Calculus.play_of_rehearse hrun rfl
  obtain ⟨hequivalent, -, hrefuted⟩ := resolution_run_equivalent hformula hparse hplay
  exact ⟨_, _, _, hformula, hparse, hplay, hcheck, hclosed, hequivalent,
    hrefuted _ _ _ (List.prefix_refl _) hplay hcheck hclosed⟩

end Clausal.Resolution
