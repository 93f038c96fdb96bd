import Clausal.Proofs.Formula.Grammar
import Clausal.Proofs.Resolution.Conservation
import Clausal.Proofs.Session
import Clausal.Proofs.Tableau.Replay

/-!
A session over text is a session of the calculus. What makes a state readable is kept
by every move of both calculi: the links of a proof tree stay within the tree, undone
moves leave the history as it was, and no move brings a clause twice into a clause
set. So no state that was handed out is ever refused, and none is mistaken for a state
of the other calculus.
-/

namespace Clausal

open Wire (read write encode decode)
open Json.Numeral (wordLimit)

namespace Tableau.State

open Calculus

/-- The history grows by the move or shrinks. -/
theorem history_of_step {state next : State} {move : Move} (hlinked : state.tree.Linked)
    (hstep : state.step move = .ok next) :
    ∀ played ∈ next.history, played ∈ state.history ∨ played = move := by
  cases move with
  | expand leaf clauseId =>
      obtain ⟨node, clause, -, -, -, -, -, rfl⟩ := expand_eq_ok.mp hstep
      simp
  | close leaf target =>
      obtain ⟨-, -, rfl⟩ := (close_eq_ok hlinked).mp hstep
      simp
  | undo =>
      obtain ⟨-, earlier, last, tree, hhistory, -, rfl⟩ := undo_eq_ok.mp hstep
      intro played hplayed
      rw [hhistory]
      exact .inl (List.mem_append_left _ hplayed)

/-- The sealed state of a run from a formula, by moves that can be decoded. -/
def Played (state : State) : Prop :=
  ∃ clauses formula rules bare, clauses.Distinct ∧ (start clauses formula rules).Replays bare ∧
    (∀ move ∈ bare.history, move.Fits) ∧ state = reseal bare

theorem size_le_length (state : State) : state.tree.size ≤ (write state).length := by
  have hnodes := Json.length_le_array (state.tree.nodes.map Node.encode)
  have hstate : (Json.array (state.tree.nodes.map Node.encode)).tokens.length ≤
      state.encode.tokens.length := by
    unfold State.encode
    exact Json.length_value_le_record "nodes" (by simp)
  have htext := Json.length_tokens_le_render (record_lossless.whole state)
  rw [List.length_map] at hnodes
  exact hnodes.trans (hstate.trans htext)

/-- Links and targets stay within the tree, so they are as short as its text. -/
theorem Played.fits {state : State} (h : state.Played) (hlength : (write state).length < wordLimit) :
    state.Fits := by
  obtain ⟨clauses, formula, rules, bare, hdistinct, hreplays, hhistory, rfl⟩ := h
  have hsize : bare.tree.size < wordLimit := (size_le_length (reseal bare)).trans_lt hlength
  have hlinked := hreplays.sound.toLinked
  have hclauses : bare.clauses.Distinct := hreplays.genuine.clauses_eq ▸ hdistinct
  refine ⟨hclauses, ?_, hhistory⟩
  intro node hnode
  obtain ⟨id, hnode⟩ := List.mem_iff_getElem?.mp hnode
  have hid : id < bare.tree.size := Tree.node?_eq_some_lt hnode
  refine ⟨?_, ?_, ?_⟩
  · intro parent hparent
    have hlt := hlinked.parent?_lt ((Tree.parent?_eq hnode).trans hparent)
    omega
  · intro target htarget
    have hlt := hlinked.target hnode htarget
    omega
  · intro child hchild
    obtain ⟨below, hbelow, -⟩ := Tree.exists_node?_of_parent? (hlinked.child hnode hchild)
    have hlt := Tree.node?_eq_some_lt hbelow
    omega

theorem played_upheld : Session.Upheld Played where
  parse := by
    intro alphabet formula rules state hparse
    obtain ⟨clauses, hformula, rfl⟩ := parse_eq_ok.mp hparse
    exact ⟨clauses, formula, rules, _, Formula.parse_distinct hformula,
      replays_of_rehearse (rehearse_nil _), List.forall_mem_nil _, rfl⟩
  applyMove := by
    rintro _ next text move ⟨clauses, formula, rules, bare, hdistinct, hreplays, hhistory, rfl⟩
      hread hmove
    obtain ⟨after, hadvance, rfl⟩ := applyMove_reseal_eq_ok.mp hmove
    have hstep := (advance_eq_ok.mp hadvance).2
    have hfits : move.Fits := (Move.roundTrips.stable text move hread).1
    refine ⟨clauses, formula, rules, after, hdistinct, hreplays.step hstep, ?_, rfl⟩
    intro played hplayed
    rcases history_of_step hreplays.sound.toLinked hstep played hplayed with hearlier | rfl
    · exact hhistory played hearlier
    · exact hfits
  accept := by
    rintro _ ⟨clauses, formula, rules, bare, -, hreplays, -, rfl⟩
    rw [accept_reseal, checkStructure_eq_ok, defect?_eq_none]
    exact hreplays.sound.toLinked
  read_eq := by
    intro state text hplayed hlength htext
    exact (record_lossless.reads.parse_bind (record_lossless.whole state) htext).trans
      (record_lossless.decode_encode state (hplayed.fits hlength))

end Tableau.State

namespace Resolution.State

open Calculus

theorem size_le_length (state : State) : state.clauses.size ≤ (write state).length := by
  have hclauses := Json.length_le_array (state.clauses.clauses.map Clause.encode)
  have hset : (Json.array (state.clauses.clauses.map Clause.encode)).tokens.length ≤
      state.clauses.encode.tokens.length := by
    unfold ClauseSet.encode
    exact Json.length_value_le_record "clauses" (by simp)
  have hstate : state.clauses.encode.tokens.length ≤ state.encode.tokens.length := by
    unfold State.encode
    exact Json.length_value_le_record "clause_set" (by simp)
  have htext := Json.length_tokens_le_render (record_lossless.whole state)
  rw [List.length_map] at hclauses
  exact hclauses.trans (hset.trans (hstate.trans htext))

/-- The sealed state of a run from a formula. -/
def Played (state : State) : Prop := ∃ bare : State, bare.Tidy ∧ state = reseal bare

theorem Played.fits {state : State} (h : state.Played) (hlength : (write state).length < wordLimit) :
    state.Fits := by
  obtain ⟨bare, htidy, rfl⟩ := h
  have hsize : bare.clauses.size < wordLimit := (size_le_length (reseal bare)).trans_lt hlength
  exact ⟨htidy.clauses, htidy.hidden, fun id hid => (htidy.newest id hid).trans hsize⟩

theorem played_upheld : Session.Upheld Played where
  parse := by
    intro alphabet formula options state hparse
    obtain ⟨clauses, hformula, rfl⟩ := parse_eq_ok.mp hparse
    exact ⟨_, tidy_start (Formula.parse_distinct hformula) formula options.visualHelp, rfl⟩
  applyMove := by
    rintro _ next text move ⟨bare, htidy, rfl⟩ - hmove
    obtain ⟨after, hadvance, rfl⟩ := applyMove_reseal_eq_ok.mp hmove
    exact ⟨after, htidy.step (advance_eq_ok.mp hadvance).2, rfl⟩
  accept := by
    rintro _ ⟨bare, -, rfl⟩
    rw [accept_reseal]
    rfl
  read_eq := by
    intro state text hplayed hlength htext
    exact (record_lossless.reads.parse_bind (record_lossless.whole state) htext).trans
      (record_lossless.decode_encode state (hplayed.fits hlength))

end Resolution.State

namespace Session

theorem tableau_foreign (state : Tableau.State) :
    Resolution.State.record.read state.encode = none :=
  Wire.Record.Fails.read <| .behind fun _ => .behind fun _ => .missing rfl

theorem resolution_foreign (state : Resolution.State) :
    Tableau.State.record.read state.encode = none :=
  Wire.Record.Fails.read <| .behind fun _ => .behind fun _ => .missing rfl

/-- Either calculus can be played over text, call by call, as on the states themselves. -/
theorem session_follows_calculus :
    Follows Tableau.State ProofSystem.tableau.name ProofSystem.resolution.name ∧
      Follows Resolution.State ProofSystem.resolution.name ProofSystem.tableau.name :=
  ⟨follows tableau_offers resolution_offers Tableau.State.played_upheld
      Tableau.State.record_lossless Resolution.State.record_lossless.reads tableau_foreign,
    follows resolution_offers tableau_offers Resolution.State.played_upheld
      Resolution.State.record_lossless Tableau.State.record_lossless.reads resolution_foreign⟩

/-- Two clauses are resolved, with a newline behind the text of the state, and the state
that this leads to is asked for a verdict. -/
theorem session_follows_calculus_resolved :
    ∃ (first : String) (state next : Resolution.State) (calls : List Call),
      Service.standard.parse ProofSystem.resolution.name "a,b;!a;!b" none = .ok first ∧
      calls.length = 2 ∧ next.newest = some 3 ∧
      issued ProofSystem.resolution.name first calls = [first, write next] ∧
      Mirrors ProofSystem.resolution.name ProofSystem.tableau.name first calls state := by
  let start : Resolution.State := .start Formula.deniedDisjunction "a,b;!a;!b" .off
  let next : Resolution.State := start.derive ⟨[.positive "b"]⟩
  let move : Call := ⟨0, true, .move (write (.resolve 0 1 none : Resolution.Move))⟩
  have hparsed : Calculus.parse .identifier "a,b;!a;!b" (⟨.off⟩ : Resolution.Options) =
      .ok (Calculus.reseal start) :=
    Calculus.parse_eq_ok.mpr ⟨_, Formula.parse_deniedDisjunction, rfl⟩
  have hparse : Service.standard.parse ProofSystem.resolution.name "a,b;!a;!b" none =
      .ok (write (Calculus.reseal start)) := by
    rw [resolution_offers.parse, Exchange.parse]
    exact bind_eq_ok.mpr ⟨_, rfl, bind_eq_ok.mpr ⟨_, hparsed, rfl⟩⟩
  have hlength (state : Resolution.State) :
      (write state).length = (state.encode.tokens.flatMap Json.Token.text).length := by
    simp [write, encode, Json.render]
  have hstart : (write (Calculus.reseal start)).length < wordLimit := by
    rw [hlength]
    decide +kernel
  have hnext : (write (Calculus.reseal next)).length < wordLimit := by
    rw [hlength]
    decide +kernel
  have hmoved : answerText ProofSystem.resolution.name (write (Calculus.reseal start)) move =
      .ok (.state (write (Calculus.reseal next))) := by
    have hplayed := Resolution.State.played_upheld.parse hparsed
    have hread : read (write (.resolve 0 1 none : Resolution.Move)) =
        some (.resolve 0 1 none : Resolution.Move) :=
      Resolution.Move.roundTrips.read_write _ (by simp [Resolution.Move.Fits, wordLimit])
    have happly : Calculus.applyMove (Calculus.reseal start) (.resolve 0 1 none) =
        .ok (Calculus.reseal next) := Calculus.applyMove_reseal_eq_ok.mpr ⟨next, rfl, rfl⟩
    have hanswer : answerState (Calculus.reseal start) move =
        .ok (.state (Calculus.reseal next)) := by
      rw [answerState_move rfl hread, happly]
      rfl
    rw [answerText_write resolution_offers Resolution.State.played_upheld hplayed hstart, hanswer]
    rfl
  have hissued : issued ProofSystem.resolution.name (write (Calculus.reseal start))
      [move, ⟨0, false, .close⟩] = [write (Calculus.reseal start), write (Calculus.reseal next)] := by
    have hclose (text : String) : handedOut
        (answerText ProofSystem.resolution.name text ⟨0, false, .close⟩) = [] := by
      simp only [answerText]
      cases Service.checkClose ProofSystem.resolution.name (present false text) <;> rfl
    have hmove : handedOut (answerText ProofSystem.resolution.name
        (write (Calculus.reseal start)) move) = [write (Calculus.reseal next)] := by
      rw [hmoved]
      rfl
    simp [issued, converse, hmove, hclose]
  obtain ⟨params, state, -, -, hmirrors⟩ := session_follows_calculus.2 Service.standard _ none _
    [move, ⟨0, false, .close⟩] hparse (by simp [hissued, hstart, hnext])
  exact ⟨_, state, Calculus.reseal next, _, hparse, rfl, rfl, hissued, hmirrors⟩

end Session

end Clausal
