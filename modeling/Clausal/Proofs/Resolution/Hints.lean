import Mathlib.Data.List.Forall2
import Clausal.Proofs.Formula
import Clausal.Proofs.Resolution.Legality

/-!
The hints for display are not part of a proof. The seal does not cover them, so a client
may set them as it likes between its moves. No move looks at them: every move overwrites
the mark of the newest clause and hands on the choice of visual help as it was. Whatever a
client writes there, its moves are accepted and refused as they would be without, and lead
to the same proof under the same seal.
-/

namespace Clausal

namespace Calculus

variable {σ μ π : Type} [Calculus σ μ π]

/-- What a client has after a move: why it was refused, if it was, and the state that the
client now holds. -/
structure Outcome (σ : Type) where
  refusal : Option Error
  state : σ

/-- Makes a move. If it is refused, the client is left with the state that it sent. -/
def attempt (state : σ) (move : μ) : Outcome σ :=
  match applyMove state move with
  | .error error => ⟨some error, state⟩
  | .ok next => ⟨none, next⟩

/-- The outcomes of moves that are made one after the other, whether or not they are
refused, by a client that edits the state it holds before each of them. -/
def attempts (state : σ) : List ((σ → σ) × μ) → List (Outcome σ)
  | [] => []
  | (edit, move) :: steps =>
      attempt (edit state) move :: attempts (attempt (edit state) move).state steps

end Calculus

namespace Resolution

open Calculus

/-- What a state shows and its seal does not cover. -/
structure Hints where
  visualHelp : VisualHelp
  newest : Option Nat

namespace State

def withHints (state : State) (hints : Hints) : State :=
  { state with visualHelp := hints.visualHelp, newest := hints.newest }

def withHelp (state : State) (visualHelp : VisualHelp) : State := { state with visualHelp }

/-- Of the hints that were there before, new ones leave nothing. -/
theorem withHints_withHints (state : State) (old new : Hints) :
    (state.withHints old).withHints new = state.withHints new := rfl

/-- The states agree in everything but their hints, and in what is answered about them. -/
structure Alike (state other : State) : Prop where
  formula : state.formula = other.formula
  clauses : state.clauses = other.clauses
  hidden : state.hidden = other.hidden
  stamp : state.stamp = other.stamp
  verdict : checkClose state = checkClose other
  summary : state.summary? = other.summary?
  checked : checkSummary state = checkSummary other

theorem alike_withHints (state : State) (hints : Hints) : state.Alike (state.withHints hints) :=
  ⟨rfl, rfl, rfl, rfl, rfl, rfl, rfl⟩

theorem derive_withHints (state : State) (hints : Hints) (clause : Clause) :
    (state.withHints hints).derive clause =
      (state.derive clause).withHelp hints.visualHelp := by
  obtain ⟨formula, clauses, hidden, visualHelp, newest, stamp⟩ := state
  simp only [derive, withHints]
  cases clauses.indexOf? clause <;> rfl

/-- A move does not see the hints. It marks the newest clause anew and leaves the choice of
visual help alone. -/
theorem step_withHints (state : State) (hints : Hints) (move : Move) :
    (state.withHints hints).step move =
      (state.step move).map (·.withHelp hints.visualHelp) := by
  cases move with
  | resolve firstId secondId name =>
      change (state.withHints hints).resolve firstId secondId name =
        (state.resolve firstId secondId name).map _
      simp only [resolve, map_bind, map_refuse]
      congr 1
      refine bind_congr fun first => bind_congr fun second => ?_
      cases pivot? first second name with
      | none => rfl
      | some pivot => exact congrArg Except.ok (derive_withHints state hints _)
  | hide id =>
      change (state.withHints hints).hide id = (state.hide id).map _
      simp only [hide, withHints]
      cases state.clauses.remove? id <;> rfl
  | unhide => rfl

theorem applyMove_withHints (state : State) (hints : Hints) (move : Move) :
    applyMove (state.withHints hints) move =
      (applyMove state move).map (·.withHelp hints.visualHelp) := by
  have haccept : accept (state.withHints hints) = accept state := rfl
  have hstep : Calculus.step (state.withHints hints) move =
      (Calculus.step state move).map (·.withHelp hints.visualHelp) :=
    step_withHints state hints move
  unfold applyMove
  rw [haccept, hstep]
  cases accept state with
  | error error => rfl
  | ok _ => cases Calculus.step state move <;> rfl

/-- A move on the state with other hints has the same outcome, up to hints. -/
theorem attempt_withHints (state : State) (hints : Hints) (move : Move) :
    (attempt (state.withHints hints) move).refusal = (attempt state move).refusal ∧
      ∃ later, (attempt (state.withHints hints) move).state =
        (attempt state move).state.withHints later := by
  unfold attempt
  rw [applyMove_withHints]
  cases applyMove state move with
  | error error => exact ⟨rfl, hints, rfl⟩
  | ok next => exact ⟨rfl, ⟨hints.visualHelp, next.newest⟩, rfl⟩

/-- A sealed state is never refused as tampered, and what the client holds after a move is
sealed again. -/
theorem attempt_sealed {state : State} (hsealed : isSealed state = true) (move : Move) :
    isSealed (attempt state move).state = true ∧
      ∀ cause, (attempt state move).refusal ≠ some (.tampered cause) := by
  have haccept : accept state = .ok () := accept_eq_ok.mpr ⟨hsealed, rfl⟩
  unfold attempt
  cases hmove : applyMove state move with
  | error error =>
      obtain ⟨reason, -, rfl⟩ := (applyMove_eq_error haccept).mp hmove
      exact ⟨hsealed, by simp⟩
  | ok next =>
      obtain ⟨-, bare, -, rfl⟩ := applyMove_eq_ok.mp hmove
      exact ⟨isSealed_reseal bare, by simp⟩

end State

/-- A turn of a client: the hints that it puts into the state it holds, and its move. -/
structure Turn where
  hints : State → Hints
  move : Move

namespace Turn

/-- The turn of a client that leaves the hints alone. -/
def plain (turn : Turn) : (State → State) × Move := (id, turn.move)

def rewriting (turn : Turn) : (State → State) × Move :=
  (fun state => state.withHints (turn.hints state), turn.move)

end Turn

theorem attempts_plain (state : State) (turn : Turn) (steps : List ((State → State) × Move)) :
    attempts state (turn.plain :: steps) =
      attempt state turn.move :: attempts (attempt state turn.move).state steps := rfl

theorem attempts_rewriting (state : State) (turn : Turn)
    (steps : List ((State → State) × Move)) :
    attempts state (turn.rewriting :: steps) =
      attempt (state.withHints (turn.hints state)) turn.move ::
        attempts (attempt (state.withHints (turn.hints state)) turn.move).state steps := rfl

/-- The move was refused for the same reason or accepted in both cases, and what is held
afterwards is alike. -/
structure SameOutcome (first second : Outcome State) : Prop where
  refusal : first.refusal = second.refusal
  state : first.state.Alike second.state

theorem sameOutcome_attempts (state : State) (hints : Hints) (turns : List Turn) :
    List.Forall₂ SameOutcome (attempts state (turns.map Turn.plain))
      (attempts (state.withHints hints) (turns.map Turn.rewriting)) := by
  induction turns generalizing state hints with
  | nil => exact .nil
  | cons turn turns ih =>
      rw [List.map_cons, List.map_cons, attempts_plain, attempts_rewriting,
        State.withHints_withHints]
      obtain ⟨hrefusal, later, hstate⟩ :=
        state.attempt_withHints (turn.hints (state.withHints hints)) turn.move
      refine .cons ⟨hrefusal.symm, ?_⟩ ?_
      · rw [hstate]
        exact State.alike_withHints _ later
      · rw [hstate]
        exact ih (attempt state turn.move).state later

theorem attempts_not_tampered {state : State} (hsealed : isSealed state = true)
    (turns : List Turn) :
    ∀ outcome ∈ attempts state (turns.map Turn.rewriting), ∀ cause,
      outcome.refusal ≠ some (.tampered cause) := by
  induction turns generalizing state with
  | nil => exact List.forall_mem_nil _
  | cons turn turns ih =>
      rw [List.map_cons, attempts_rewriting]
      have hrewritten : isSealed (state.withHints (turn.hints state)) = true := hsealed
      obtain ⟨hnext, hrefusal⟩ := State.attempt_sealed hrewritten turn.move
      exact List.forall_mem_cons.mpr ⟨hrefusal, ih hnext⟩

/-- Hints do not interfere with a proof. A client that sets them at will before each of its
moves has its moves accepted and refused as if it had left them alone, for the same
reasons and never for tampering, and holds the same proof after each of them. -/
theorem hints_do_not_interfere {state : State} (hsealed : isSealed state = true)
    (turns : List Turn) :
    List.Forall₂ SameOutcome (attempts state (turns.map Turn.plain))
      (attempts state (turns.map Turn.rewriting)) ∧
    ∀ outcome ∈ attempts state (turns.map Turn.rewriting), ∀ cause,
      outcome.refusal ≠ some (.tampered cause) :=
  ⟨sameOutcome_attempts state ⟨state.visualHelp, state.newest⟩ turns,
    attempts_not_tampered hsealed turns⟩

/-- The client asks for visual help and marks a clause that is not there. It is refused for
resolving a clause with itself, and holds the wrong mark under the right seal. -/
theorem hints_do_not_interfere_deniedDisjunction :
    ∃ (state kept shown painted : State) (turns : List Turn),
      isSealed state = true ∧
      attempts state (turns.map Turn.plain) =
        [⟨none, kept⟩, ⟨some (.illegal .sameClause), kept⟩] ∧
      attempts state (turns.map Turn.rewriting) =
        [⟨none, shown⟩, ⟨some (.illegal .sameClause), painted⟩] ∧
      kept.visualHelp = .off ∧ shown.visualHelp = .highlight ∧
      kept.newest = some 3 ∧ painted.newest = some 4 ∧
      kept.Alike shown ∧ kept.Alike painted := by
  let start : State := .start Formula.deniedDisjunction "a,b;!a;!b" .off
  let next : State := start.derive ⟨[.positive "b"]⟩
  let shown : State := next.withHelp .highlight
  let painted : State := { next with newest := some 4 }
  let turns : List Turn :=
    [⟨fun _ => ⟨.highlight, some 9⟩, .resolve 0 1 none⟩,
      ⟨fun held => ⟨.off, held.newest.map (· + 1)⟩, .resolve 3 3 none⟩]
  have hsealed : isSealed (reseal start) = true := isSealed_reseal start
  have hplain : attempts (reseal start) (turns.map Turn.plain) =
      [⟨none, reseal next⟩, ⟨some (.illegal .sameClause), reseal next⟩] := by
    have hfirst : attempt (reseal start) (.resolve 0 1 none) = ⟨none, reseal next⟩ := by
      rw [attempt, applyMove_reseal]
      rfl
    have hsecond : attempt (reseal next) (.resolve 3 3 none) =
        ⟨some (.illegal .sameClause), reseal next⟩ := by
      rw [attempt, applyMove_reseal]
      rfl
    simp [attempts, turns, Turn.plain, hfirst, hsecond]
  have hrewriting : attempts (reseal start) (turns.map Turn.rewriting) =
      [⟨none, reseal shown⟩, ⟨some (.illegal .sameClause), reseal painted⟩] := by
    have hfirst : attempt ((reseal start).withHints ⟨.highlight, some 9⟩) (.resolve 0 1 none) =
        ⟨none, reseal shown⟩ := by
      change attempt (reseal (start.withHints ⟨.highlight, some 9⟩)) _ = _
      rw [attempt, applyMove_reseal]
      rfl
    have hsecond : attempt ((reseal shown).withHints ⟨.off, some 4⟩) (.resolve 3 3 none) =
        ⟨some (.illegal .sameClause), reseal painted⟩ := by
      change attempt (reseal painted) _ = _
      rw [attempt, applyMove_reseal]
      rfl
    have hmark : (reseal shown).newest.map (· + 1) = some 4 := rfl
    simp [attempts, turns, Turn.rewriting, hfirst, hsecond, hmark]
  have hsame := (hints_do_not_interfere hsealed turns).1
  rw [hplain, hrewriting] at hsame
  rw [List.forall₂_cons, List.forall₂_cons] at hsame
  obtain ⟨hfirst, hsecond, -⟩ := hsame
  exact ⟨reseal start, reseal next, reseal shown, reseal painted, turns, hsealed, hplain,
    hrewriting, rfl, rfl, rfl, rfl, hfirst.state, hsecond.state⟩

end Resolution

end Clausal
