import Clausal.Proofs.ClauseSet
import Clausal.Proofs.Play
import Clausal.Resolution.Calculus

/-!
Which moves of the resolution calculus are accepted, and what an accepted move
does to the two clause sets of a state.
-/

namespace Clausal.Resolution

/-- The pivot is in the first clause, its complement in the second, and it has the
name that was asked for. -/
theorem pivot?_spec {first second : Clause} {name : Option String} {pivot : Literal}
    (hpivot : pivot? first second name = some pivot) :
    pivot ∈ first ∧ pivot.complement ∈ second ∧ ∀ wanted ∈ name, wanted = pivot.name := by
  have hcheck := List.find?_some hpivot
  have hmember := List.mem_of_find?_eq_some hpivot
  simp only [Bool.and_eq_true, decide_eq_true_eq] at hcheck
  refine ⟨hmember, hcheck.1, ?_⟩
  rintro wanted rfl
  simpa using hcheck.2

/-- A literal of the first clause has its complement in the second, and the name if one is
asked for. -/
def Opposed (first second : Clause) (name : Option String) : Prop :=
  ∃ literal ∈ first, literal.complement ∈ second ∧ ∀ wanted ∈ name, wanted = literal.name

theorem exists_pivot?_iff {first second : Clause} {name : Option String} :
    (∃ pivot, pivot? first second name = some pivot) ↔ Opposed first second name := by
  constructor
  · rintro ⟨pivot, hpivot⟩
    exact ⟨pivot, pivot?_spec hpivot⟩
  · rintro ⟨literal, hfirst, hsecond, hname⟩
    rw [← Option.isSome_iff_exists, pivot?, List.find?_isSome]
    refine ⟨literal, hfirst, ?_⟩
    cases name with
    | none => simp [hsecond]
    | some wanted => simp [hsecond, hname wanted rfl]

theorem mem_resolvent {first second : Clause} {pivot literal : Literal} :
    literal ∈ resolvent first second pivot ↔
      literal ∈ first ∧ literal ≠ pivot ∨ literal ∈ second ∧ literal ≠ pivot.complement := by
  rw [resolvent, Clause.mem_union, Clause.mem_erase, Clause.mem_erase]

namespace State

theorem requireClause_eq_ok {state : State} {id : Nat} {clause : Clause} :
    state.requireClause id = .ok clause ↔ state.clauses.get? id = some clause := by
  unfold requireClause
  cases state.clauses.get? id <;> simp

/-- The exact conditions of a resolution, and its effect. -/
theorem resolve_eq_ok {state next : State} {firstId secondId : Nat} {name : Option String} :
    state.resolve firstId secondId name = .ok next ↔ firstId ≠ secondId ∧
      ∃ first second pivot, state.clauses.get? firstId = some first ∧
        state.clauses.get? secondId = some second ∧
        pivot? first second name = some pivot ∧
        next = state.derive (resolvent first second pivot) := by
  simp only [resolve, refuse_eq_ok, bind_eq_ok, requireClause_eq_ok]
  refine and_congr_right fun _ => ?_
  constructor
  · rintro ⟨first, hfirst, second, hsecond, hnext⟩
    cases hpivot : pivot? first second name with
    | none =>
        rw [hpivot] at hnext
        cases hnext
    | some pivot =>
        rw [hpivot] at hnext
        exact ⟨first, second, pivot, hfirst, hsecond, hpivot, (Except.ok.inj hnext).symm⟩
  · rintro ⟨first, second, pivot, hfirst, hsecond, hpivot, rfl⟩
    exact ⟨first, hfirst, second, hsecond, by rw [hpivot]; rfl⟩

theorem derive_clauses (state : State) (clause : Clause) :
    (state.derive clause).clauses = state.clauses.insert clause := by
  have hfound : (state.clauses.indexOf? clause).isSome = state.clauses.contains clause :=
    List.findIdx?_isSome
  unfold derive
  cases hindex : state.clauses.indexOf? clause with
  | none => rfl
  | some index =>
      rw [hindex] at hfound
      have hcontains : state.clauses.contains clause = true := hfound.symm
      change state.clauses = state.clauses.insert clause
      rw [ClauseSet.insert_eq, if_pos hcontains]

theorem derive_hidden (state : State) (clause : Clause) :
    (state.derive clause).hidden = state.hidden := by
  unfold derive
  split <;> rfl

theorem derive_withStamp (state : State) (clause : Clause) (stamp : String) :
    derive { state with stamp } clause = { derive state clause with stamp } := by
  obtain ⟨formula, clauses, hidden, visualHelp, newest, old⟩ := state
  simp only [derive]
  cases clauses.indexOf? clause <;> rfl

/-- The exact conditions of putting a clause aside, and its effect. -/
theorem hide_eq_ok {state next : State} {id : Nat} :
    state.hide id = .ok next ↔ ∃ clause, state.clauses.get? id = some clause ∧
      next = { state with
        clauses := ⟨state.clauses.clauses.eraseIdx id⟩
        hidden := state.hidden.insert clause
        newest := none } := by
  unfold hide ClauseSet.remove?
  cases state.clauses.get? id <;> simp [eq_comm]

theorem verdict_closed {state : State} :
    state.verdict.closed = true ↔ state.clauses.hasEmptyClause = true := by
  unfold verdict
  cases state.clauses.hasEmptyClause <;> simp

instance : LawfulCalculus State where
  stamp_withStamp _ _ := rfl
  basis_withStamp _ _ := rfl
  withStamp_withStamp _ _ _ := rfl
  defect?_withStamp _ _ := rfl
  step_withStamp state stamp move := by
    obtain ⟨formula, clauses, hidden, visualHelp, newest, old⟩ := state
    cases move with
    | resolve firstId secondId name =>
        change resolve ⟨formula, clauses, hidden, visualHelp, newest, stamp⟩ firstId secondId name =
          (resolve ⟨formula, clauses, hidden, visualHelp, newest, old⟩ firstId secondId name).map _
        simp only [resolve, map_bind, map_refuse]
        congr 1
        refine bind_congr fun first => bind_congr fun second => ?_
        cases pivot? first second name with
        | none => rfl
        | some pivot => exact congrArg Except.ok (derive_withStamp ⟨_, _, _, _, _, old⟩ _ stamp)
    | hide id =>
        change hide ⟨formula, clauses, hidden, visualHelp, newest, stamp⟩ id =
          (hide ⟨formula, clauses, hidden, visualHelp, newest, old⟩ id).map _
        simp only [hide]
        cases clauses.remove? id <;> rfl
    | unhide => rfl
  verdict_withStamp _ _ := rfl

end State

end Clausal.Resolution
