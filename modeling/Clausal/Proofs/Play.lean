import Clausal.Calculus

/-!
Runs of a calculus. In a run every move is applied to the sealed state that the
move before it returned. The stamp of a state is only a label, so such a run is
a run of the bare rules that is sealed at its end. What the bare rules preserve
is therefore true of every state a player can be handed.
-/

namespace Clausal

theorem bind_eq_ok {ε α β : Type} {value : Except ε α} {next : α → Except ε β} {result : β} :
    value >>= next = .ok result ↔ ∃ input, value = .ok input ∧ next input = .ok result := by
  cases value <;> simp [bind, Except.bind]

/-- A check that refuses under a condition lets pass exactly where the condition
fails. -/
theorem refuse_eq_ok {ε α : Type} {condition : Prop} [Decidable condition] {cause : ε}
    {next : Unit → Except ε α} {result : α} :
    (if condition then throw cause >>= next else next ()) = .ok result ↔
      ¬ condition ∧ next () = .ok result := by
  by_cases h : condition <;> simp [h, throw, throwThe, MonadExceptOf.throw, bind, Except.bind]

theorem map_bind {ε α β γ : Type} (value : Except ε α) (next : α → Except ε β) (change : β → γ) :
    (value >>= next).map change = value >>= fun input => (next input).map change := by
  cases value <;> rfl

theorem map_refuse {ε α β : Type} (condition : Prop) [Decidable condition] (cause : ε)
    (next : Unit → Except ε α) (change : α → β) :
    (if condition then throw cause >>= next else next ()).map change =
      if condition then throw cause >>= fun done => (next done).map change
      else (next ()).map change := by
  by_cases h : condition <;> simp only [h, if_true, if_false, map_bind]

/-- The stamp of a state can be exchanged at will, and nothing but the seal looks
at it. -/
class LawfulCalculus (σ : Type) {μ π : outParam Type} [Calculus σ μ π] : Prop where
  stamp_withStamp (state : σ) (stamp : String) :
    Calculus.stamp (Calculus.withStamp state stamp) = stamp
  basis_withStamp (state : σ) (stamp : String) :
    Calculus.basis (Calculus.withStamp state stamp) = Calculus.basis state
  withStamp_withStamp (state : σ) (first second : String) :
    Calculus.withStamp (Calculus.withStamp state first) second =
      Calculus.withStamp state second
  defect?_withStamp (state : σ) (stamp : String) :
    Calculus.defect? (Calculus.withStamp state stamp) = Calculus.defect? state
  step_withStamp (state : σ) (stamp : String) (move : μ) :
    Calculus.step (Calculus.withStamp state stamp) move =
      (Calculus.step state move).map (Calculus.withStamp · stamp)
  verdict_withStamp (state : σ) (stamp : String) :
    Calculus.verdict (Calculus.withStamp state stamp) = Calculus.verdict state

namespace Calculus

variable {σ μ π : Type} [Calculus σ μ π]

/-- Applies the moves in order, each to the state that the one before it
returned, up to the first that is refused. -/
def play (state : σ) (moves : List μ) : Except Error σ := moves.foldlM applyMove state

/-- A move on a state of sound structure, without regard to seals. -/
def advance (state : σ) (move : μ) : Except Error σ :=
  match checkStructure state, step state move with
  | .error error, _ => .error error
  | .ok (), .error cause => .error (.illegal cause)
  | .ok (), .ok next => .ok next

/-- A run without regard to seals. -/
def rehearse (state : σ) (moves : List μ) : Except Error σ := moves.foldlM advance state

theorem checkStructure_eq_ok {state : σ} :
    checkStructure state = .ok () ↔ defect? state = none := by
  unfold checkStructure
  split <;> simp_all

theorem advance_eq_ok {state next : σ} {move : μ} :
    advance state move = .ok next ↔ defect? state = none ∧ step state move = .ok next := by
  unfold advance checkStructure
  cases defect? state <;> cases step state move <;> simp

theorem accept_eq_ok {state : σ} :
    accept state = .ok () ↔ isSealed state = true ∧ defect? state = none := by
  rw [← checkStructure_eq_ok]
  unfold accept
  cases isSealed state <;> simp

/-- Moves are applied to accepted states only, and what they hand out is sealed. -/
theorem applyMove_eq_ok {state next : σ} {move : μ} :
    applyMove state move = .ok next ↔
      accept state = .ok () ∧ ∃ bare, step state move = .ok bare ∧ next = reseal bare := by
  unfold applyMove
  cases accept state <;> cases step state move <;> simp [eq_comm]

theorem exists_applyMove_iff {state : σ} {move : μ} (haccept : accept state = .ok ()) :
    (∃ next, applyMove state move = .ok next) ↔ ∃ next, step state move = .ok next := by
  simp only [applyMove_eq_ok, haccept, true_and]
  exact ⟨fun ⟨_, bare, hstep, _⟩ => ⟨bare, hstep⟩, fun ⟨bare, hstep⟩ => ⟨_, bare, hstep, rfl⟩⟩

/-- An accepted state refuses a move only because the move is illegal. -/
theorem applyMove_eq_error {state : σ} {move : μ} {error : Error}
    (haccept : accept state = .ok ()) :
    applyMove state move = .error error ↔
      ∃ cause, step state move = .error cause ∧ error = .illegal cause := by
  simp only [applyMove, haccept]
  cases step state move <;> simp [eq_comm]

@[simp] theorem rehearse_nil (state : σ) : rehearse state ([] : List μ) = .ok state := rfl

theorem rehearse_cons_eq_ok {state final : σ} {move : μ} {moves : List μ} :
    rehearse state (move :: moves) = .ok final ↔
      ∃ next, advance state move = .ok next ∧ rehearse next moves = .ok final := by
  rw [rehearse, List.foldlM_cons, bind_eq_ok]
  rfl

theorem rehearse_append_eq_ok {state final : σ} {first second : List μ} :
    rehearse state (first ++ second) = .ok final ↔
      ∃ middle, rehearse state first = .ok middle ∧ rehearse middle second = .ok final := by
  induction first generalizing state with
  | nil => simp
  | cons move rest ih =>
      simp only [List.cons_append, rehearse_cons_eq_ok, ih]
      constructor
      · rintro ⟨next, hnext, middle, hmiddle, hfinal⟩
        exact ⟨middle, ⟨next, hnext, hmiddle⟩, hfinal⟩
      · rintro ⟨middle, ⟨next, hnext, hmiddle⟩, hfinal⟩
        exact ⟨next, hnext, middle, hmiddle, hfinal⟩

/-- Whatever each single move of a run preserves, the run preserves. -/
theorem rehearse_invariant (Invariant : σ → Prop) {state final : σ} {moves : List μ}
    (hstep : ∀ before move after, move ∈ moves → Invariant before →
      step before move = .ok after → Invariant after)
    (hstart : Invariant state) (hrun : rehearse state moves = .ok final) :
    Invariant final := by
  induction moves generalizing state with
  | nil =>
      cases hrun
      exact hstart
  | cons move rest ih =>
      obtain ⟨next, hnext, hrest⟩ := rehearse_cons_eq_ok.mp hrun
      have hmoved : Invariant next :=
        hstep state move next (by simp) hstart (advance_eq_ok.mp hnext).2
      exact ih (fun before move after hmove => hstep before move after (by simp [hmove]))
        hmoved hrest

theorem parse_eq_ok {alphabet : Alphabet} {formula : String} {options : π} {state : σ} :
    parse alphabet formula options = .ok state ↔
      ∃ clauses, Formula.parse alphabet formula = .ok clauses ∧
        state = reseal (start clauses formula options) := by
  unfold parse openFormula
  cases Formula.parse alphabet formula <;> simp [Except.map, eq_comm]

section Lawful

variable [LawfulCalculus σ]

open LawfulCalculus

theorem isSealed_reseal (state : σ) : isSealed (reseal state) = true := by
  simp [isSealed, reseal, stamp_withStamp, basis_withStamp]

theorem reseal_withStamp (state : σ) (stamp : String) :
    reseal (withStamp state stamp) = reseal state := by
  simp [reseal, basis_withStamp, withStamp_withStamp]

theorem accept_reseal (state : σ) : accept (reseal state) = checkStructure state := by
  rw [accept, if_pos (isSealed_reseal state), checkStructure, checkStructure, reseal,
    defect?_withStamp]

theorem applyMove_reseal (state : σ) (move : μ) :
    applyMove (reseal state) move = (advance state move).map reseal := by
  unfold applyMove advance
  rw [accept_reseal, reseal, step_withStamp]
  cases checkStructure state <;> cases step state move <;>
    simp [Except.map, reseal_withStamp]

theorem applyMove_reseal_eq_ok {state next : σ} {move : μ} :
    applyMove (reseal state) move = .ok next ↔
      ∃ bare, advance state move = .ok bare ∧ next = reseal bare := by
  rw [applyMove_reseal]
  cases advance state move <;> simp [Except.map, eq_comm]

/-- Sealing is transparent: a run from a sealed state makes the same moves as the
bare rules and refuses the same ones. -/
theorem play_reseal (state : σ) (moves : List μ) :
    play (reseal state) moves = (rehearse state moves).map reseal := by
  induction moves generalizing state with
  | nil => rfl
  | cons move rest ih =>
      simp only [play, rehearse, List.foldlM_cons] at ih ⊢
      rw [applyMove_reseal]
      cases hadvance : advance state move with
      | error error => rfl
      | ok next => exact ih next

theorem play_reseal_eq_ok {state final : σ} {moves : List μ} :
    play (reseal state) moves = .ok final ↔
      ∃ bare, rehearse state moves = .ok bare ∧ final = reseal bare := by
  rw [play_reseal]
  cases rehearse state moves <;> simp [Except.map, eq_comm]

theorem checkClose_reseal (state : σ) :
    checkClose (reseal state) = (checkStructure state).map fun () => verdict state := by
  rw [checkClose, accept_reseal, reseal, verdict_withStamp]

/-- Every state of a run is the sealed state of a bare run from the same start. -/
theorem rehearse_of_play {alphabet : Alphabet} {formula : String} {options : π}
    {clauses : ClauseSet} {first final : σ} {moves : List μ}
    (hformula : Formula.parse alphabet formula = .ok clauses)
    (hparse : parse alphabet formula options = .ok first)
    (hplay : play first moves = .ok final) :
    ∃ bare, rehearse (start clauses formula options : σ) moves = .ok bare ∧
      final = reseal bare := by
  obtain ⟨parsed, hparsed, rfl⟩ := parse_eq_ok.mp hparse
  cases hformula.symm.trans hparsed
  exact play_reseal_eq_ok.mp hplay

theorem exists_bare_run {alphabet : Alphabet} {formula : String} {options : π}
    {first final : σ} {moves : List μ} (hparse : parse alphabet formula options = .ok first)
    (hplay : play first moves = .ok final) :
    ∃ clauses bare, Formula.parse alphabet formula = .ok clauses ∧
      rehearse (start clauses formula options : σ) moves = .ok bare ∧ final = reseal bare := by
  obtain ⟨clauses, hformula, rfl⟩ := parse_eq_ok.mp hparse
  obtain ⟨bare, hrun, hfinal⟩ := play_reseal_eq_ok.mp hplay
  exact ⟨clauses, bare, hformula, hrun, hfinal⟩

/-- A bare run can be played with seals, and the verdict on its last state is
given. -/
theorem play_of_rehearse {state final : σ} {moves : List μ}
    (hrun : rehearse state moves = .ok final) (hsound : defect? final = none) :
    play (reseal state) moves = .ok (reseal final) ∧
      checkClose (reseal final) = .ok (verdict final) := by
  constructor
  · exact play_reseal_eq_ok.mpr ⟨final, hrun, rfl⟩
  · rw [checkClose_reseal, checkStructure_eq_ok.mpr hsound]
    rfl

theorem verdict_of_checkClose {state : σ} {result : Verdict}
    (hclose : checkClose (reseal state) = .ok result) : verdict state = result := by
  rw [checkClose_reseal] at hclose
  cases hstructure : checkStructure state with
  | error error => simp [hstructure, Except.map] at hclose
  | ok _ =>
      rw [hstructure] at hclose
      cases hclose
      rfl

end Lawful

end Calculus

end Clausal
