import Mathlib.Data.List.Forall2
import Clausal.Proofs.OrderedSet
import Clausal.Proofs.Resolution.Conservation

/-!
The two directions of a resolution. The pivot is the first literal in the order of the
first clause, so the two directions may pick different pivots, and each of them makes its
own list of literals. On a named literal it comes to the same: either the two pivots are
complementary and the same two literals are erased, or both clauses hold the name with both
polarities and nothing is lost. The resolvents have the same literals, so both are found at
the same index or added there. Without a name only the possibility to resolve is the same.
-/

namespace Clausal

theorem ClauseSet.Distinct.forall₂_same {set : ClauseSet} (h : set.Distinct) :
    List.Forall₂ (fun clause other => clause.same other = true) set.clauses set.clauses := by
  apply List.forall₂_same.mpr
  intro clause hclause
  have hdistinct := h.clause clause hclause
  exact (Clause.same_iff hdistinct hdistinct).mpr (.refl clause)

namespace Resolution

variable {first second : Clause} {name : Option String}

theorem Opposed.symm (h : Opposed first second name) : Opposed second first name := by
  obtain ⟨literal, hfirst, hsecond, hname⟩ := h
  refine ⟨literal.complement, hsecond, ?_, hname⟩
  rw [Literal.complement_complement]
  exact hfirst

/-- Where both clauses hold the pivot with both polarities, nothing is lost. -/
theorem mem_resolvent_of_both {pivot literal : Literal} (hfirst : pivot.complement ∈ first)
    (hsecond : pivot ∈ second) :
    literal ∈ resolvent first second pivot ↔ literal ∈ first ∨ literal ∈ second := by
  rw [mem_resolvent]
  constructor
  · exact Or.imp And.left And.left
  · rintro (hliteral | hliteral)
    · by_cases hpivot : literal = pivot
      · rw [hpivot]
        exact .inr ⟨hsecond, pivot.complement_ne.symm⟩
      · exact .inl ⟨hliteral, hpivot⟩
    · by_cases hpivot : literal = pivot.complement
      · rw [hpivot]
        exact .inl ⟨hfirst, pivot.complement_ne⟩
      · exact .inr ⟨hliteral, hpivot⟩

/-- Both directions of a resolution on one name leave the same literals. -/
theorem resolvent_setEqual {wanted : String} {left right : Literal}
    (hleft : pivot? first second (some wanted) = some left)
    (hright : pivot? second first (some wanted) = some right) :
    (resolvent first second left).SetEqual (resolvent second first right) := by
  obtain ⟨hleftFirst, hleftSecond, hleftName⟩ := pivot?_spec hleft
  obtain ⟨hrightSecond, hrightFirst, hrightName⟩ := pivot?_spec hright
  have hname : right.name = left.name := (hrightName _ rfl).symm.trans (hleftName _ rfl)
  intro literal
  rcases Literal.eq_or_eq_complement hname with rfl | rfl
  · rw [mem_resolvent_of_both hrightFirst hrightSecond,
      mem_resolvent_of_both hleftSecond hleftFirst, or_comm]
  · rw [mem_resolvent, mem_resolvent, Literal.complement_complement, or_comm]

namespace State

open Calculus

/-- The states show the same, up to the order of the literals in the newest clause. -/
structure AgreesUpToOrder (left right : State) : Prop where
  newest : left.newest = right.newest
  hidden : left.hidden = right.hidden
  clauses : left.clauses.same right.clauses = true
  each : List.Forall₂ (fun clause other => clause.same other = true)
    left.clauses.clauses right.clauses.clauses
  older : ∀ index, some index ≠ left.newest →
    left.clauses.get? index = right.clauses.get? index

theorem Tidy.agrees_refl {state : State} (h : state.Tidy) : state.AgreesUpToOrder state where
  newest := rfl
  hidden := rfl
  clauses := (h.clauses.same_iff_perm h.clauses).mpr (.refl _)
  each := h.clauses.forall₂_same
  older := fun _ _ => rfl

/-- Clauses of the same literals are derived alike. -/
theorem Tidy.agrees_derive {state : State} (h : state.Tidy) {clause other : Clause}
    (hclause : clause.Distinct) (hother : other.Distinct) (hequal : clause.SetEqual other) :
    (state.derive clause).AgreesUpToOrder (state.derive other) := by
  have hindex := h.clauses.indexOf?_congr hclause hother hequal
  cases hfound : state.clauses.indexOf? clause with
  | some index =>
      have hsame : state.derive clause = state.derive other := by
        rw [State.derive, State.derive, ← hindex, hfound]
      rw [hsame]
      exact (h.derive hother).agrees_refl
  | none =>
      have hnewest : (state.derive clause).newest = some state.clauses.size := by
        rw [State.derive, hfound]
      have hclauses : (state.derive clause).clauses = ⟨state.clauses.clauses ++ [clause]⟩ := by
        rw [derive_clauses, ClauseSet.insert_of_indexOf?_eq_none hfound]
      have hothers : (state.derive other).clauses = ⟨state.clauses.clauses ++ [other]⟩ := by
        rw [derive_clauses, ClauseSet.insert_of_indexOf?_eq_none (hindex ▸ hfound)]
      constructor
      · rw [hnewest, State.derive, ← hindex, hfound]
      · rw [derive_hidden, derive_hidden]
      · rw [(h.derive hclause).clauses.same_iff_perm (h.derive hother).clauses, hclauses, hothers]
        simp [ClauseSet.supports, Clause.support_eq_iff.mpr hequal]
      · rw [hclauses, hothers]
        exact List.rel_append h.clauses.forall₂_same
          (.cons ((Clause.same_iff hclause hother).mpr hequal) .nil)
      · intro index hold
        have hearlier : index ≠ state.clauses.clauses.length := by
          rintro rfl
          exact hold hnewest.symm
        have hkept (last : Clause) : (state.clauses.clauses ++ [last])[index]? =
            state.clauses.clauses[index]? := by
          rw [(appends_new not_false).appended rfl index, if_neg hearlier]
        rw [hclauses, hothers, ClauseSet.get?, ClauseSet.get?, hkept, hkept]

/-- The two indices hold clauses that can be resolved. -/
def Resolvable (state : State) (firstId secondId : Nat) (name : Option String) : Prop :=
  firstId ≠ secondId ∧ ∃ first second, state.clauses.get? firstId = some first ∧
    state.clauses.get? secondId = some second ∧ Opposed first second name

theorem Resolvable.symm {state : State} {firstId secondId : Nat} {name : Option String}
    (h : state.Resolvable firstId secondId name) : state.Resolvable secondId firstId name := by
  obtain ⟨hne, first, second, hfirst, hsecond, hopposed⟩ := h
  exact ⟨hne.symm, second, first, hsecond, hfirst, hopposed.symm⟩

theorem exists_resolve_iff {state : State} {firstId secondId : Nat} {name : Option String} :
    (∃ next, state.resolve firstId secondId name = .ok next) ↔
      state.Resolvable firstId secondId name := by
  simp only [resolve_eq_ok]
  constructor
  · rintro ⟨_, hne, first, second, pivot, hfirst, hsecond, hpivot, -⟩
    exact ⟨hne, first, second, hfirst, hsecond, exists_pivot?_iff.mp ⟨pivot, hpivot⟩⟩
  · rintro ⟨hne, first, second, hfirst, hsecond, hopposed⟩
    obtain ⟨pivot, hpivot⟩ := exists_pivot?_iff.mpr hopposed
    exact ⟨_, hne, first, second, pivot, hfirst, hsecond, hpivot, rfl⟩

theorem Tidy.agrees_resolve {state left right : State} (h : state.Tidy) {firstId secondId : Nat}
    {name : String} (hleft : state.resolve firstId secondId (some name) = .ok left)
    (hright : state.resolve secondId firstId (some name) = .ok right) :
    left.AgreesUpToOrder right := by
  obtain ⟨-, first, second, pivot, hfirst, hsecond, hpivot, rfl⟩ := resolve_eq_ok.mp hleft
  obtain ⟨-, again, other, reverse, hagain, hother, hreverse, rfl⟩ := resolve_eq_ok.mp hright
  cases hsecond.symm.trans hagain
  cases hfirst.symm.trans hother
  have hone := h.clauses.clause first (List.mem_of_getElem? hfirst)
  have htwo := h.clauses.clause second (List.mem_of_getElem? hsecond)
  exact h.agrees_derive ((hone.erase pivot).union _) ((htwo.erase reverse).union _)
    (resolvent_setEqual hpivot hreverse)

theorem accept_and_tidy_of_play {alphabet : Alphabet} {formula : String} {options : Options}
    {first state : State} {moves : List Move} (hparse : parse alphabet formula options = .ok first)
    (hplay : play first moves = .ok state) : accept state = .ok () ∧ state.Tidy := by
  obtain ⟨clauses, bare, hformula, hrun, rfl⟩ := exists_bare_run hparse hplay
  have hstart : (State.start clauses formula options.visualHelp).Tidy :=
    tidy_start (Formula.parse_distinct hformula) formula options.visualHelp
  obtain ⟨htidy, -⟩ := hstart.run hrun
  exact ⟨accept_reseal bare, htidy.clauses, htidy.hidden, htidy.newest⟩

end State

/-- In every state that can be played, a resolution on a named literal may be made in both
directions or in none, and both lead to the same clauses at the same indices. Without a
name both directions are possible exactly if the indices are different and the clauses
there hold complementary literals. -/
theorem resolution_symmetric {alphabet : Alphabet} {formula : String} {options : Options}
    {first state : State} {moves : List Move}
    (hparse : Calculus.parse alphabet formula options = .ok first)
    (hplay : Calculus.play first moves = .ok state) (firstId secondId : Nat) :
    (∀ name : String,
      ((∃ left, Calculus.applyMove state (.resolve firstId secondId (some name)) = .ok left) ↔
        ∃ right, Calculus.applyMove state (.resolve secondId firstId (some name)) = .ok right) ∧
      ∀ left right,
        Calculus.applyMove state (.resolve firstId secondId (some name)) = .ok left →
        Calculus.applyMove state (.resolve secondId firstId (some name)) = .ok right →
        left.AgreesUpToOrder right) ∧
    ((∃ left, Calculus.applyMove state (.resolve firstId secondId none) = .ok left) ↔
      ∃ right, Calculus.applyMove state (.resolve secondId firstId none) = .ok right) ∧
    ((∃ left, Calculus.applyMove state (.resolve firstId secondId none) = .ok left) ↔
      firstId ≠ secondId ∧ ∃ one two, state.clauses.get? firstId = some one ∧
        state.clauses.get? secondId = some two ∧
        ∃ literal ∈ one, literal.complement ∈ two) := by
  obtain ⟨haccept, htidy⟩ := State.accept_and_tidy_of_play hparse hplay
  have haccepted (oneId twoId : Nat) (name : Option String) :
      (∃ next, Calculus.applyMove state (.resolve oneId twoId name) = .ok next) ↔
        state.Resolvable oneId twoId name :=
    (Calculus.exists_applyMove_iff haccept).trans State.exists_resolve_iff
  have hboth (name : Option String) :
      (∃ left, Calculus.applyMove state (.resolve firstId secondId name) = .ok left) ↔
        ∃ right, Calculus.applyMove state (.resolve secondId firstId name) = .ok right := by
    rw [haccepted, haccepted]
    exact ⟨.symm, .symm⟩
  refine ⟨fun name => ⟨hboth (some name), ?_⟩, hboth none, ?_⟩
  · intro left right hleft hright
    obtain ⟨-, one, hone, rfl⟩ := Calculus.applyMove_eq_ok.mp hleft
    obtain ⟨-, two, htwo, rfl⟩ := Calculus.applyMove_eq_ok.mp hright
    have hagrees := htidy.agrees_resolve hone htwo
    exact ⟨hagrees.newest, hagrees.hidden, hagrees.clauses, hagrees.each, hagrees.older⟩
  · rw [haccepted]
    simp [State.Resolvable, Opposed]

/-- Two clauses that hold one name with both polarities. -/
def bothPolarities : ClauseSet :=
  ⟨[⟨[.positive "a", .negative "a", .positive "b"]⟩,
    ⟨[.positive "a", .negative "a", .positive "c"]⟩]⟩

theorem parse_bothPolarities :
    Formula.parse .identifier "a,!a,b;a,!a,c" = .ok bothPolarities := by
  have hname (char : Char) (h : Formula.NameText .identifier [char]) :
      Formula.ClauseText .identifier (['a'] ++ ',' :: (['!', 'a'] ++ ',' :: [char]))
        [.positive "a", .negative "a", .positive (String.ofList [char])] :=
    .next (.positive (by decide)) (.next (.negative (by decide)) (.last (.positive h)))
  exact Formula.parse_eq_ok.mpr
    ⟨_, .next (hname 'b' (by decide)) (.last (hname 'c' (by decide))), rfl⟩

/-- The two directions write the literals of the resolvent in different orders, at the same
index. -/
theorem resolution_symmetric_bothPolarities :
    ∃ first state left right : State,
      Calculus.parse .identifier "a,!a,b;a,!a,c" (⟨.off⟩ : Options) = .ok first ∧
      Calculus.play first [.resolve 0 1 (some "a"), .hide 2] = .ok state ∧
      Calculus.applyMove state (.resolve 0 1 (some "a")) = .ok left ∧
      Calculus.applyMove state (.resolve 1 0 (some "a")) = .ok right ∧
      left.newest = some 2 ∧ left.clauses ≠ right.clauses ∧ left.AgreesUpToOrder right ∧
      (∃ next, Calculus.applyMove state (.resolve 0 1 none) = .ok next) ∧
      (∃ next, Calculus.applyMove state (.resolve 1 0 none) = .ok next) ∧
      ∃ one two, state.clauses.get? 0 = some one ∧ state.clauses.get? 1 = some two ∧
        ∃ literal ∈ one, literal.complement ∈ two := by
  have hformula := parse_bothPolarities
  have hparse : Calculus.parse .identifier "a,!a,b;a,!a,c" (⟨.off⟩ : Options) =
      .ok (Calculus.reseal (State.start bothPolarities "a,!a,b;a,!a,c" .off)) :=
    Calculus.parse_eq_ok.mpr ⟨_, hformula, rfl⟩
  obtain ⟨state, left, right, next, hrun, hleft, hright, hnext, hnewest, hdifferent⟩ :
      ∃ state left right next : State,
        Calculus.rehearse (State.start bothPolarities "a,!a,b;a,!a,c" .off)
          [.resolve 0 1 (some "a"), .hide 2] = .ok state ∧
        Calculus.advance state (.resolve 0 1 (some "a")) = .ok left ∧
        Calculus.advance state (.resolve 1 0 (some "a")) = .ok right ∧
        Calculus.advance state (.resolve 0 1 none) = .ok next ∧
        left.newest = some 2 ∧ left.clauses ≠ right.clauses :=
    ⟨_, _, _, _, rfl, rfl, rfl, rfl, rfl, by decide⟩
  have hplay := Calculus.play_reseal_eq_ok.mpr ⟨state, hrun, rfl⟩
  have hforth := Calculus.applyMove_reseal_eq_ok.mpr ⟨left, hleft, rfl⟩
  have hback := Calculus.applyMove_reseal_eq_ok.mpr ⟨right, hright, rfl⟩
  have hunnamed : ∃ next, Calculus.applyMove (Calculus.reseal state) (.resolve 0 1 none) =
      .ok next := ⟨_, Calculus.applyMove_reseal_eq_ok.mpr ⟨next, hnext, rfl⟩⟩
  obtain ⟨hnamed, hreverse, hcondition⟩ := resolution_symmetric hparse hplay 0 1
  exact ⟨_, _, _, _, hparse, hplay, hforth, hback, hnewest, hdifferent,
    (hnamed "a").2 _ _ hforth hback, hunnamed, hreverse.mp hunnamed, (hcondition.mp hunnamed).2⟩

end Resolution

end Clausal
