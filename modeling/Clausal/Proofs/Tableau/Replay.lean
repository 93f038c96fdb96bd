import Clausal.Proofs.Tableau.Legality

/-!
Runs of the tableau calculus. Expansions and closures keep the invariant of proof
trees, and each can be taken back exactly. An undo therefore leads to a state
that the run has been in before, up to the record that something was undone: the
history alone, replayed from the start, explains every state of every run.
-/

namespace Clausal.Tableau.State

open Calculus

/-- An accepted expansion or closure: it changes the tree and the history, the
new tree is sound, and taking the move back restores the old one. -/
structure Forward (state : State) (move : Move) (next : State) : Prop where
  effect : next = { state with tree := next.tree, history := state.history ++ [move] }
  sound : next.tree.Sound state.clauses
  restored : takeBack next.tree move = .ok state.tree

theorem Forward.clauses_eq {state next : State} {move : Move}
    (hforward : state.Forward move next) : next.clauses = state.clauses := by
  rw [hforward.effect]

theorem Forward.rules_eq {state next : State} {move : Move}
    (hforward : state.Forward move next) : next.rules = state.rules := by
  rw [hforward.effect]

theorem forward_of_step {state next : State} {move : Move}
    (hsound : state.tree.Sound state.clauses) (hmove : move ≠ .undo)
    (hstep : state.step move = .ok next) : state.Forward move next := by
  cases move with
  | expand leaf clauseId =>
      obtain ⟨node, clause, hopen, hclause, -, -, -, rfl⟩ := expand_eq_ok.mp hstep
      refine ⟨rfl, hsound.extend hopen (List.mem_of_getElem? hclause), ?_⟩
      obtain ⟨after, hafter, -⟩ :=
        Tree.exists_node?_extend hopen.found leaf clause.literals
      have hretract := Tree.retract?_extend hopen.found hopen.leaf hafter
      simp only [takeBack, bind_eq_ok, Tree.requireNode_eq_ok]
      exact ⟨after, hafter, by rw [hretract]; rfl⟩
  | close leaf target =>
      obtain ⟨⟨node, hopen⟩, hcontradicts, rfl⟩ := (close_eq_ok hsound.toLinked).mp hstep
      refine ⟨rfl, hsound.close hopen hcontradicts, ?_⟩
      have hafter := hsound.toLinked.node?_close_self hopen.found target
      simp only [takeBack, bind_eq_ok, Tree.requireNode_eq_ok]
      exact ⟨_, hafter, congrArg Except.ok (hsound.reopen_close hopen hcontradicts)⟩
  | undo => exact absurd rfl hmove

/-- Expansions and closures do not ask whether something was undone before. -/
theorem step_usedUndo {state next : State} {move : Move} (hlinked : state.tree.Linked)
    (hmove : move ≠ .undo) (hstep : state.step move = .ok next) (flag : Bool) :
    ({ state with usedUndo := flag } : State).step move =
      .ok { next with usedUndo := flag } := by
  cases move with
  | expand leaf clauseId =>
      obtain ⟨node, clause, hopen, hclause, hstrong, hregular, hconnected, rfl⟩ :=
        expand_eq_ok.mp hstep
      exact expand_eq_ok.mpr
        ⟨node, clause, hopen, hclause, hstrong, hregular, hconnected, rfl⟩
  | close leaf target =>
      obtain ⟨hopen, hcontradicts, rfl⟩ := (close_eq_ok hlinked).mp hstep
      have hlinked' : ({ state with usedUndo := flag } : State).tree.Linked := hlinked
      exact (close_eq_ok hlinked').mpr ⟨hopen, hcontradicts, rfl⟩
  | undo => exact absurd rfl hmove

theorem parse_of_formula {alphabet : Alphabet} {formula : String} {clauses : ClauseSet}
    (hformula : Formula.parse alphabet formula = .ok clauses) (rules : Rules) :
    parse alphabet formula rules = .ok (reseal (start clauses formula rules)) :=
  parse_eq_ok.mpr ⟨clauses, hformula, rfl⟩

theorem defect?_eq_none {state : State} :
    Calculus.defect? state = none ↔ state.tree.Linked := by
  rw [← Tree.defect?_eq_none]
  exact Option.map_eq_none_iff

theorem accept_eq_ok {state : State} :
    accept state = .ok () ↔ isSealed state = true ∧ state.tree.Linked := by
  rw [Calculus.accept_eq_ok, defect?_eq_none]

/-- The state results from the first one by the moves of its history, none of which
is an undo. -/
structure Replays (first state : State) : Prop where
  forward : .undo ∉ state.history
  run : rehearse first state.history = .ok { state with usedUndo := false }

section Run

variable {clauses : ClauseSet} {formula : String} {rules : Rules}

/-- What a run without undo keeps of the first state. -/
structure Genuine (clauses : ClauseSet) (formula : String) (rules : Rules) (state : State) :
    Prop where
  clauses_eq : state.clauses = clauses
  formula_eq : state.formula = formula
  rules_eq : state.rules = rules
  unused : state.usedUndo = false
  sound : state.tree.Sound clauses

theorem genuine_start : Genuine clauses formula rules (start clauses formula rules) :=
  ⟨rfl, rfl, rfl, rfl, Tree.Sound.start clauses⟩

theorem Genuine.step {state next : State} {move : Move}
    (hgenuine : Genuine clauses formula rules state) (hmove : move ≠ .undo)
    (hstep : state.step move = .ok next) : Genuine clauses formula rules next := by
  obtain ⟨rfl, rfl, rfl, hunused, hsound⟩ := hgenuine
  have hforward := forward_of_step hsound hmove hstep
  have hsound := hforward.sound
  rw [hforward.effect]
  exact ⟨rfl, rfl, rfl, hunused, hsound⟩

theorem genuine_of_rehearse {state : State} {moves : List Move} (hmoves : .undo ∉ moves)
    (hrun : rehearse (start clauses formula rules) moves = .ok state) :
    Genuine clauses formula rules state := by
  refine rehearse_invariant (Genuine clauses formula rules) ?_ genuine_start hrun
  intro before move after hmove hbefore hstep
  exact hbefore.step (fun hundo => hmoves (hundo ▸ hmove)) hstep

theorem Replays.genuine {state : State} (hreplays : (start clauses formula rules).Replays state) :
    Genuine clauses formula rules { state with usedUndo := false } :=
  genuine_of_rehearse hreplays.forward hreplays.run

theorem Replays.sound {state : State} (hreplays : (start clauses formula rules).Replays state) :
    state.tree.Sound state.clauses :=
  hreplays.genuine.clauses_eq ▸ hreplays.genuine.sound

theorem Replays.append {state next : State} {move : Move}
    (hreplays : (start clauses formula rules).Replays state) (hmove : move ≠ .undo)
    (hstep : state.step move = .ok next) : (start clauses formula rules).Replays next := by
  have hsound := hreplays.sound
  have hlinked := hsound.toLinked
  have hhistory : next.history = state.history ++ [move] :=
    congrArg history (forward_of_step hsound hmove hstep).effect
  have hmoved : advance ({ state with usedUndo := false } : State) move =
      .ok { next with usedUndo := false } :=
    advance_eq_ok.mpr ⟨defect?_eq_none.mpr hlinked, step_usedUndo hlinked hmove hstep false⟩
  have hrun : rehearse (start clauses formula rules) (state.history ++ [move]) =
      .ok { next with usedUndo := false } :=
    rehearse_append_eq_ok.mpr ⟨_, hreplays.run, rehearse_cons_eq_ok.mpr ⟨_, hmoved, rfl⟩⟩
  rw [← hhistory] at hrun
  refine ⟨?_, hrun⟩
  rw [hhistory, List.mem_append, List.mem_singleton]
  rintro (hearlier | hundo)
  · exact hreplays.forward hearlier
  · exact hmove hundo.symm

/-- The last move of the history led from a state that its own history explains. -/
theorem Replays.exists_before {state : State} {earlier : List Move} {last : Move}
    (hreplays : (start clauses formula rules).Replays state)
    (hhistory : state.history = earlier ++ [last]) :
    ∃ before, (start clauses formula rules).Replays before ∧ before.history = earlier ∧
      before.Forward last { state with usedUndo := false } := by
  have hforward : .undo ∉ earlier ++ [last] := hhistory ▸ hreplays.forward
  have hrun : rehearse (start clauses formula rules) (earlier ++ [last]) =
      .ok { state with usedUndo := false } := by
    rw [← hhistory]
    exact hreplays.run
  obtain ⟨before, hbefore, hlast⟩ := rehearse_append_eq_ok.mp hrun
  obtain ⟨final, hadvance, hfinal⟩ := rehearse_cons_eq_ok.mp hlast
  cases hfinal
  have hearlier : .undo ∉ earlier := fun h => hforward (List.mem_append_left _ h)
  have hmove : last ≠ .undo := fun h => hforward (by simp [h])
  have hgenuine := genuine_of_rehearse hearlier hbefore
  have hmoved := forward_of_step (hgenuine.clauses_eq ▸ hgenuine.sound) hmove
    (advance_eq_ok.mp hadvance).2
  have hkept : before.history = earlier := by
    have hsplit : state.history = before.history ++ [last] := congrArg history hmoved.effect
    exact (List.append_inj' (hhistory.symm.trans hsplit) rfl).1.symm
  have hsame : ({ before with usedUndo := false } : State) = before := by
    rw [← hgenuine.unused]
  refine ⟨before, ⟨hkept ▸ hearlier, ?_⟩, hkept, hmoved⟩
  rw [hsame, hkept]
  exact hbefore

/-- An undo leads back to the state before the last move of the history. -/
theorem Replays.undo {state next : State}
    (hreplays : (start clauses formula rules).Replays state) (hstep : state.undo = .ok next) :
    (start clauses formula rules).Replays next := by
  obtain ⟨-, earlier, last, tree, hhistory, htree, rfl⟩ := undo_eq_ok.mp hstep
  obtain ⟨before, hbefore, hkept, hmoved⟩ := hreplays.exists_before hhistory
  have hback : tree = before.tree := Except.ok.inj (htree.symm.trans hmoved.restored)
  have heffect := hmoved.effect
  refine ⟨hkept ▸ hbefore.forward, ?_⟩
  have hrun := hbefore.run
  rw [hkept] at hrun
  rw [hrun, hback]
  cases before
  cases state
  simp_all

theorem Replays.step {state next : State} {move : Move}
    (hreplays : (start clauses formula rules).Replays state)
    (hstep : state.step move = .ok next) : (start clauses formula rules).Replays next := by
  cases move with
  | expand leaf clauseId => exact hreplays.append (by simp) hstep
  | close leaf target => exact hreplays.append (by simp) hstep
  | undo => exact hreplays.undo hstep

/-- Every state of a run, with or without undos, is what its history makes of the
first state. -/
theorem replays_of_rehearse {state : State} {moves : List Move}
    (hrun : rehearse (start clauses formula rules) moves = .ok state) :
    (start clauses formula rules).Replays state := by
  refine rehearse_invariant (start clauses formula rules).Replays ?_
    ⟨List.not_mem_nil, rfl⟩ hrun
  intro before move after _ hbefore hstep
  exact hbefore.step hstep

theorem sound_of_rehearse {state : State} {moves : List Move}
    (hrun : rehearse (start clauses formula rules) moves = .ok state) :
    state.tree.Sound clauses :=
  (replays_of_rehearse hrun).genuine.sound

/-- Whatever holds of the root alone and is kept by every expansion and every closure
that the rules admit holds of every state of a run: undos only lead back. -/
theorem Replays.induction {motive : Tree → List Move → Prop} {state : State}
    (hreplays : (start clauses formula rules).Replays state) (base : motive .start [])
    (expand : ∀ {tree : Tree} {history : List Move} {leaf clauseId : Nat} {node : Node}
      {clause : Clause}, tree.Sound clauses → motive tree history →
      tree.OpenLeaf leaf node → clauses.get? clauseId = some clause →
      (rules.connectedness = .strong → tree.Connected) →
      (rules.regular = true → ∀ literal ∈ clause, tree.branchCarries leaf literal = false) →
      (rules.connectedness ≠ .unrestricted → leaf ≠ 0 → node.literal.complement ∈ clause) →
      motive (tree.extend leaf clause.literals) (history ++ [.expand leaf clauseId]))
    (close : ∀ {tree : Tree} {history : List Move} {leaf target : Nat} {node : Node},
      tree.Sound clauses → motive tree history → tree.OpenLeaf leaf node →
      tree.Contradicts target leaf →
      motive (tree.close leaf target) (history ++ [.close leaf target])) :
    motive state.tree state.history := by
  have hboth : Genuine clauses formula rules { state with usedUndo := false } ∧
      motive state.tree state.history := by
    refine rehearse_invariant (fun state => Genuine clauses formula rules state ∧
      motive state.tree state.history) ?_ ⟨genuine_start, base⟩ hreplays.run
    rintro before move after hmove ⟨hgenuine, hinvariant⟩ hstep
    have hforward : move ≠ .undo := fun hundo => hreplays.forward (hundo ▸ hmove)
    refine ⟨hgenuine.step hforward hstep, ?_⟩
    obtain ⟨rfl, -, rfl, -, hsound⟩ := hgenuine
    cases move with
    | expand leaf clauseId =>
        obtain ⟨node, clause, hopen, hclause, hstrong, hregular, hconnected, rfl⟩ :=
          expand_eq_ok.mp hstep
        exact expand hsound hinvariant hopen hclause hstrong hregular hconnected
    | close leaf target =>
        obtain ⟨⟨node, hopen⟩, hcontradicts, rfl⟩ := (close_eq_ok hsound.toLinked).mp hstep
        exact close hsound hinvariant hopen hcontradicts
    | undo => exact absurd rfl hforward
  exact hboth.2

end Run

instance : LawfulCalculus State where
  stamp_withStamp _ _ := rfl
  basis_withStamp _ _ := rfl
  withStamp_withStamp _ _ _ := rfl
  defect?_withStamp _ _ := rfl
  step_withStamp state stamp move := by
    cases move with
    | expand leaf clauseId =>
        change expand { state with stamp } leaf clauseId = (expand state leaf clauseId).map _
        simp only [expand, map_bind]
        rfl
    | close leaf target =>
        change close { state with stamp } leaf target = (close state leaf target).map _
        simp only [close, map_bind, map_refuse]
        rfl
    | undo =>
        change undo { state with stamp } = (undo state).map _
        simp only [undo, map_refuse]
        cases state.history.getLast? with
        | none => rfl
        | some last =>
            simp only [map_bind]
            rfl
  verdict_withStamp _ _ := rfl

end Clausal.Tableau.State
