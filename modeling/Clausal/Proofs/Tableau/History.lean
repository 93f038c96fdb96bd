import Clausal.Proofs.Formula
import Clausal.Proofs.Tableau.Replay

/-!
The history of a tableau. A state that was reached with undos is the state that
its history alone leads to, apart from the record that something was undone. An
undo is the exact inverse of the move before it, so as many undos as there were
moves lead back to where those moves began, and nothing but an empty history
stands in the way of an undo.
-/

namespace Clausal.Tableau

open Calculus

namespace State

theorem usedUndo_of_step {state next : State} {move : Move} (hlinked : state.tree.Linked)
    (hstep : state.step move = .ok next) :
    next.usedUndo = true ↔ state.usedUndo = true ∨ .undo = move := by
  cases move with
  | expand leaf clauseId =>
      obtain ⟨-, -, -, -, -, -, -, rfl⟩ := expand_eq_ok.mp hstep
      simp
  | close leaf target =>
      obtain ⟨-, -, rfl⟩ := (close_eq_ok hlinked).mp hstep
      simp
  | undo =>
      obtain ⟨-, -, -, -, -, -, rfl⟩ := undo_eq_ok.mp hstep
      simp

/-- A run records exactly whether it has undone anything. -/
theorem usedUndo_of_rehearse {state final : State} {moves : List Move}
    (hrun : rehearse state moves = .ok final) :
    final.usedUndo = true ↔ state.usedUndo = true ∨ .undo ∈ moves := by
  induction moves generalizing state with
  | nil =>
      cases hrun
      simp
  | cons move rest ih =>
      obtain ⟨next, hnext, hrest⟩ := rehearse_cons_eq_ok.mp hrun
      obtain ⟨hsound, hstep⟩ := advance_eq_ok.mp hnext
      rw [ih hrest, usedUndo_of_step (defect?_eq_none.mp hsound) hstep, List.mem_cons, or_assoc]

/-- An undo takes back the last move, whether or not others were undone before. -/
theorem Forward.undo {state next : State} {move : Move} (hforward : state.Forward move next)
    (hbacktracking : state.rules.backtracking = true) (flag : Bool) :
    ({ next with usedUndo := flag } : State).undo = .ok { state with usedUndo := true } := by
  have hrules := hforward.rules_eq
  have hhistory : next.history = state.history ++ [move] := congrArg history hforward.effect
  refine undo_eq_ok.mpr ⟨hrules ▸ hbacktracking, state.history, move, state.tree, hhistory,
    hforward.restored, ?_⟩
  rw [hforward.effect]

/-- As many undos as there were moves lead back to the state before the moves. -/
theorem rehearse_undo {state later : State} {moves : List Move}
    (hsound : state.tree.Sound state.clauses)
    (hbacktracking : state.rules.backtracking = true) (hmoves : .undo ∉ moves)
    (hrun : rehearse state moves = .ok later) :
    ∃ flag, rehearse later (List.replicate moves.length .undo) =
      .ok { state with usedUndo := flag } ∧ (moves ≠ [] → flag = true) := by
  induction moves generalizing state with
  | nil =>
      cases hrun
      exact ⟨_, rfl, fun h => absurd rfl h⟩
  | cons move rest ih =>
      obtain ⟨next, hnext, hrest⟩ := rehearse_cons_eq_ok.mp hrun
      obtain ⟨hmove, hothers⟩ := List.ne_and_not_mem_of_not_mem_cons hmoves
      have hforward := forward_of_step hsound hmove.symm (advance_eq_ok.mp hnext).2
      have hsound' : next.tree.Sound next.clauses := hforward.clauses_eq ▸ hforward.sound
      obtain ⟨flag, hback, -⟩ := ih hsound' (hforward.rules_eq ▸ hbacktracking) hothers hrest
      have hlinked : Calculus.defect? ({ next with usedUndo := flag } : State) = none :=
        defect?_eq_none.mpr hsound'.toLinked
      have hlast : advance ({ next with usedUndo := flag } : State) .undo =
          .ok { state with usedUndo := true } :=
        advance_eq_ok.mpr ⟨hlinked, hforward.undo hbacktracking flag⟩
      refine ⟨true, ?_, fun _ => rfl⟩
      rw [List.length_cons, List.replicate_succ']
      exact rehearse_append_eq_ok.mpr ⟨_, hback, rehearse_cons_eq_ok.mpr ⟨_, hlast, rfl⟩⟩

/-- Where undos are allowed, only an empty history stands in their way. -/
theorem Replays.undo_refused_iff {clauses : ClauseSet} {formula : String} {rules : Rules}
    {state : State} (hreplays : (start clauses formula rules).Replays state)
    (hbacktracking : state.rules.backtracking = true) :
    (∃ error, advance state .undo = .error error) ↔ state.history = [] := by
  constructor
  · rintro ⟨error, hrefused⟩
    apply Decidable.byContradiction
    intro hhistory
    have hsplit := (List.dropLast_concat_getLast hhistory).symm
    obtain ⟨before, -, -, hforward⟩ := hreplays.exists_before hsplit
    have hrules : state.rules = before.rules := hforward.rules_eq
    have hlinked := defect?_eq_none.mpr hreplays.sound.toLinked
    have haccepted : advance state .undo = .ok { before with usedUndo := true } :=
      advance_eq_ok.mpr ⟨hlinked, hforward.undo (hrules ▸ hbacktracking) state.usedUndo⟩
    cases hrefused.symm.trans haccepted
  · intro hempty
    cases hadvance : advance state .undo with
    | error error => exact ⟨error, rfl⟩
    | ok next =>
        obtain ⟨-, earlier, last, -, hhistory, -⟩ := undo_eq_ok.mp (advance_eq_ok.mp hadvance).2
        simp [hempty] at hhistory

end State

/-- The history of a state explains it: played anew from the formula and the rules,
it is accepted move by move and leads to the same state, apart from the record of
undos and the seal. That record says whether the run had an undo. -/
theorem history_explains_state {alphabet : Alphabet} {formula : String} {rules : Rules}
    {first final : State} {moves : List Move}
    (hparse : parse alphabet formula rules = .ok first)
    (hplay : play first moves = .ok final) :
    .undo ∉ final.history ∧
    (∃ again replayed : State, parse alphabet final.formula final.rules = .ok again ∧
      play again final.history = .ok replayed ∧
      { replayed with usedUndo := final.usedUndo, stamp := final.stamp } = final) ∧
    (final.usedUndo = true ↔ .undo ∈ moves) := by
  obtain ⟨clauses, bare, hformula, hrun, rfl⟩ := exists_bare_run hparse hplay
  have hreplays := State.replays_of_rehearse hrun
  have hgenuine := hreplays.genuine
  have hsound : defect? ({ bare with usedUndo := false } : State) = none :=
    State.defect?_eq_none.mpr hreplays.sound.toLinked
  have hsameFormula : (reseal bare).formula = formula := hgenuine.formula_eq
  have hsameRules : (reseal bare).rules = rules := hgenuine.rules_eq
  have hrecord : (reseal bare).usedUndo = true ↔ false = true ∨ .undo ∈ moves :=
    State.usedUndo_of_rehearse hrun
  refine ⟨hreplays.forward, ?_, ?_⟩
  · refine ⟨reseal (State.start clauses formula rules),
      reseal { bare with usedUndo := false }, ?_, (play_of_rehearse hreplays.run hsound).1, rfl⟩
    rw [hsameFormula, hsameRules]
    exact State.parse_of_formula hformula rules
  · simpa using hrecord

/-- A closure that was undone is no longer part of the history, but of the record. -/
theorem history_explains_state_deniedDisjunction :
    ∃ first final : State,
      parse .identifier "a,b;!a;!b" (⟨.strong, true, true⟩ : Rules) = .ok first ∧
      play first [.expand 0 0, .expand 1 1, .close 3 1, .undo, .undo, .expand 2 2] = .ok final ∧
      .undo ∉ final.history ∧
      (∃ again replayed : State, parse .identifier final.formula final.rules = .ok again ∧
        play again final.history = .ok replayed ∧
        { replayed with usedUndo := final.usedUndo, stamp := final.stamp } = final) ∧
      final.usedUndo = true := by
  have hparse := State.parse_of_formula Formula.parse_deniedDisjunction ⟨.strong, true, true⟩
  obtain ⟨final, hrun, hsound⟩ : ∃ final,
      rehearse (State.start Formula.deniedDisjunction "a,b;!a;!b" ⟨.strong, true, true⟩)
        [.expand 0 0, .expand 1 1, .close 3 1, .undo, .undo, .expand 2 2] = .ok final ∧
      defect? final = none := ⟨_, rfl, rfl⟩
  have hplay := (play_of_rehearse hrun hsound).1
  obtain ⟨hforward, hreplay, hrecord⟩ := history_explains_state hparse hplay
  exact ⟨_, _, hparse, hplay, hforward, hreplay, hrecord.mpr (by decide)⟩

/-- Undo is an exact inverse. From a state of a run that may be undone, any number of
expansions and closures is taken back by as many undos, and an undo is refused only
where there is nothing to undo. -/
theorem undo_inverts_moves {alphabet : Alphabet} {formula : String} {rules : Rules}
    {first state : State} {moves : List Move}
    (hparse : parse alphabet formula rules = .ok first)
    (hplay : play first moves = .ok state)
    (hbacktracking : state.rules.backtracking = true) :
    (∀ (forward : List Move) (later : State), forward ≠ [] → .undo ∉ forward →
      play state forward = .ok later →
      play later (List.replicate forward.length .undo) =
        .ok (reseal { state with usedUndo := true })) ∧
    ((∃ error, applyMove state .undo = .error error) ↔ state.history = []) := by
  obtain ⟨clauses, bare, -, hrun, rfl⟩ := exists_bare_run hparse hplay
  have hreplays := State.replays_of_rehearse hrun
  constructor
  · intro forward later hsome hforward hlater
    obtain ⟨bareLater, hmoved, rfl⟩ := play_reseal_eq_ok.mp hlater
    obtain ⟨flag, hback, hflag⟩ := State.rehearse_undo hreplays.sound hbacktracking hforward hmoved
    cases hflag hsome
    have hseal : reseal { reseal bare with usedUndo := true } =
        reseal ({ bare with usedUndo := true } : State) :=
      reseal_withStamp ({ bare with usedUndo := true } : State) (reseal bare).stamp
    exact play_reseal_eq_ok.mpr ⟨_, hback, hseal⟩
  · have hrefused : (∃ error, advance bare .undo = .error error) ↔ bare.history = [] :=
      hreplays.undo_refused_iff hbacktracking
    change _ ↔ bare.history = []
    rw [applyMove_reseal, ← hrefused]
    cases advance bare Move.undo <;> simp [Except.map]

/-- An expansion and a closure are taken back by two undos. -/
theorem undo_inverts_moves_deniedDisjunction :
    ∃ first state later : State,
      parse .identifier "a,b;!a;!b" (⟨.strong, true, true⟩ : Rules) = .ok first ∧
      play first [.expand 0 0] = .ok state ∧ state.rules.backtracking = true ∧
      play state [.expand 1 1, .close 3 1] = .ok later ∧
      play later [.undo, .undo] = .ok (reseal { state with usedUndo := true }) := by
  have hparse := State.parse_of_formula Formula.parse_deniedDisjunction ⟨.strong, true, true⟩
  obtain ⟨state, later, hrun, hbacktracking, hrest⟩ : ∃ state later : State,
      rehearse (State.start Formula.deniedDisjunction "a,b;!a;!b" ⟨.strong, true, true⟩)
        [.expand 0 0] = .ok state ∧ state.rules.backtracking = true ∧
      rehearse state [.expand 1 1, .close 3 1] = .ok later := ⟨_, _, rfl, rfl, rfl⟩
  have hplay := play_reseal_eq_ok.mpr ⟨state, hrun, rfl⟩
  have hlater := play_reseal_eq_ok.mpr ⟨later, hrest, rfl⟩
  have hinverse := (undo_inverts_moves hparse hplay hbacktracking).1
    [.expand 1 1, .close 3 1] _ (by simp) (by simp) hlater
  exact ⟨_, _, _, hparse, hplay, hbacktracking, hlater, hinverse⟩

end Clausal.Tableau
