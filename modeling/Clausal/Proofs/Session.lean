import Clausal.Proofs.Play
import Clausal.Proofs.Wire.RoundTrip

/-!
Sessions over text. A client asks for the first state of a formula and then makes one
call after the other, each about a state that was handed out before. The same calls
can be made on states instead of texts. If the states of a calculus keep what makes
them readable, both conversations agree answer by answer: the text of a state is as
good as the state.
-/

namespace Clausal.Session

open Wire (read write encode decode)

/-- What a call asks for: the state after the move that the text spells, or a verdict. -/
inductive Request where
  | move (text : String)
  | close

structure Call where
  /-- Which of the states that moves have led to so far. There being none of this number,
  the call is about the first state. -/
  subject : Nat
  /-- Whether the text of the state comes with a newline at its end. -/
  newline : Bool
  request : Request

inductive Reply (α β : Type) where
  | state (next : α)
  | verdict (result : β)

section Conversation

variable {α β : Type}

def handedOut : Except Error (Reply α β) → List α
  | .ok (.state next) => [next]
  | _ => []

/-- The answers to the calls. What a move leads to can be asked about later. -/
def converse (answer : α → Call → Except Error (Reply α β)) (first : α) :
    List α → List Call → List (Except Error (Reply α β))
  | _, [] => []
  | later, call :: calls =>
      let reply := answer (later.getD call.subject first) call
      reply :: converse answer first (later ++ handedOut reply) calls

theorem converse_cons (answer : α → Call → Except Error (Reply α β)) (first : α)
    (later : List α) (call : Call) (calls : List Call) :
    converse answer first later (call :: calls) =
      answer (later.getD call.subject first) call ::
        converse answer first
          (later ++ handedOut (answer (later.getD call.subject first) call)) calls := rfl

end Conversation

def present (newline : Bool) (text : String) : String := if newline then text ++ "\n" else text

/-- The answer of the service to a call about the text of a state. -/
def answerText (calculus text : String) (call : Call) : Except Error (Reply String String) :=
  match call.request with
  | .move move => (Service.applyMove calculus (present call.newline text) move).map .state
  | .close => (Service.checkClose calculus (present call.newline text)).map .verdict

/-- All texts of states that the service hands out in a session. -/
def issued (calculus first : String) (calls : List Call) : List String :=
  first :: (converse (answerText calculus) first [] calls).flatMap handedOut

/-- The service cannot decode the text as a state of the calculus. -/
structure Rejects (calculus text : String) : Prop where
  applyMove : ∀ move, Service.applyMove calculus text move = .error (.misuse .undecodable)
  checkClose : Service.checkClose calculus text = .error (.misuse .undecodable)

variable {σ μ π : Type} [Calculus σ μ π] [Wire μ]

/-- The answer of the calculus to a call about a state. Only the move is decoded. -/
def answerState (state : σ) (call : Call) : Except Error (Reply σ Verdict) :=
  match call.request with
  | .move text => do
      let move ← Exchange.decode μ text
      (Calculus.applyMove state move).map .state
  | .close => (Calculus.checkClose state).map .verdict

theorem decode_eq_ok {α : Type} [Wire α] {text : String} {value : α}
    (hread : read text = some value) : Exchange.decode α text = .ok value := by
  rw [Exchange.decode, hread]

theorem decode_eq_error {α : Type} [Wire α] {text : String}
    (hread : (read text : Option α) = none) :
    Exchange.decode α text = .error (.misuse .undecodable) := by
  rw [Exchange.decode, hread]

section States

variable {state : σ} {call : Call} {text : String}

theorem answerState_close (hrequest : call.request = .close) :
    answerState state call = (Calculus.checkClose state).map .verdict := by
  rw [answerState, hrequest]

theorem answerState_undecodable (hrequest : call.request = .move text)
    (hread : (read text : Option μ) = none) :
    answerState state call = .error (.misuse .undecodable) := by
  rw [answerState, hrequest]
  simp only [decode_eq_error hread]
  rfl

theorem answerState_move (hrequest : call.request = .move text) {move : μ}
    (hread : read text = some move) :
    answerState state call = (Calculus.applyMove state move).map .state := by
  rw [answerState, hrequest]
  simp only [decode_eq_ok hread]
  rfl

end States

variable [Wire σ]

def Reply.write : Reply σ Verdict → Reply String String
  | .state next => .state (Wire.write next)
  | .verdict result => .verdict (Wire.write result)

/-- A verdict is always given, and a move is refused only if its text cannot be decoded
or the rules forbid it. -/
def Regular (μ : Type) [Wire μ] (call : Call) (reply : Except Error (Reply σ Verdict)) : Prop :=
  match call.request with
  | .move text =>
      (∃ next, reply = .ok (.state next)) ∨
        (read text : Option μ) = none ∧ reply = .error (.misuse .undecodable) ∨
        ∃ cause, reply = .error (.illegal cause)
  | .close => ∃ result, reply = .ok (.verdict result)

/-- The session over text mirrors the session on states, call by call. -/
structure Mirrors (name other first : String) (calls : List Call) (state : σ) : Prop where
  first_eq : first = write state
  /-- Every answer is the text of what the calculus answers on the states themselves. -/
  replies : converse (answerText name) first [] calls =
    (converse answerState state [] calls).map (Except.map Reply.write)
  regular : List.Forall₂ (Regular μ) calls (converse answerState state [] calls)
  /-- No text of a state is taken for one of the other calculus. -/
  foreign : ∀ text ∈ issued name first calls, ∀ newline, Rejects other (present newline text)

/-- Every session that starts with an accepted formula mirrors a session on states. The
texts that it hands out have fewer than `2 ^ 64` characters, as every text has that can be
held in a memory with addresses of 64 bits. -/
def Follows (σ : Type) {μ π : Type} [Calculus σ μ π] [Wire σ] [Wire μ] [Wire π]
    (name other : String) : Prop :=
  ∀ (service : Service) (formula : String) (options : Option String) (first : String)
    (calls : List Call),
    service.parse name formula options = .ok first →
    (∀ text ∈ issued name first calls, text.length < Json.Numeral.wordLimit) →
    ∃ (params : π) (state : σ),
      Exchange.decodeOptions σ options = .ok params ∧
      Calculus.parse service.alphabet formula params = .ok state ∧
      Mirrors name other first calls state

/-- The service offers the calculus under this name. -/
structure Offers (σ : Type) {μ π : Type} [Calculus σ μ π] [Wire σ] [Wire μ] [Wire π]
    (name : String) : Prop where
  parse : ∀ (service : Service) formula options,
    service.parse name formula options = Exchange.parse σ service.alphabet formula options
  applyMove : ∀ text move, Service.applyMove name text move = Exchange.applyMove σ text move
  checkClose : ∀ text, Service.checkClose name text = Exchange.checkClose σ text

theorem tableau_offers : Offers Tableau.State ProofSystem.tableau.name :=
  ⟨fun _ _ _ => rfl, fun _ _ => rfl, fun _ => rfl⟩

theorem resolution_offers : Offers Resolution.State ProofSystem.resolution.name :=
  ⟨fun _ _ _ => rfl, fun _ _ => rfl, fun _ => rfl⟩

/-- What is true of the first state of every formula and stays true by every move that
can be decoded. Such states are accepted, and read from their texts. -/
structure Upheld (Good : σ → Prop) : Prop where
  parse : ∀ {alphabet formula} {params : π} {state},
    Calculus.parse alphabet formula params = .ok state → Good state
  applyMove : ∀ {state next : σ} {text} {move : μ}, Good state → read text = some move →
    Calculus.applyMove state move = .ok next → Good next
  accept : ∀ {state : σ}, Good state → Calculus.accept state = .ok ()
  read_eq : ∀ {state : σ} {text}, Good state →
    (write state).length < Json.Numeral.wordLimit → (encode state).Spells text →
    read text = some state

theorem spells_present (json : Json) (newline : Bool) :
    json.Spells (present newline json.render) := by
  cases newline with
  | false => exact json.spells_render
  | true => exact json.spells_render.append_newline

section Answers

variable {name : String} {Good : σ → Prop} {state : σ}

/-- The service answers a call about the text of a state as the calculus answers it about
the state. -/
theorem answerText_write [Wire π] (hoffers : Offers σ name) (hupheld : Upheld Good)
    (hgood : Good state) (hlength : (write state).length < Json.Numeral.wordLimit) (call : Call) :
    answerText name (write state) call = (answerState state call).map Reply.write := by
  have hdecode : Exchange.decode σ (present call.newline (write state)) = .ok state :=
    decode_eq_ok (hupheld.read_eq hgood hlength (spells_present _ _))
  unfold answerText
  cases hrequest : call.request with
  | close =>
      rw [answerState_close hrequest]
      simp only [hoffers.checkClose, Exchange.checkClose, hdecode, bind, Except.bind]
      cases Calculus.checkClose state <;> rfl
  | move text =>
      simp only [hoffers.applyMove, Exchange.applyMove, hdecode]
      cases hread : (read text : Option μ) with
      | none =>
          rw [answerState_undecodable hrequest hread, decode_eq_error hread]
          rfl
      | some move =>
          rw [answerState_move hrequest hread, decode_eq_ok hread]
          simp only [bind, Except.bind]
          cases Calculus.applyMove state move <;> rfl

theorem answerState_regular (hupheld : Upheld Good) (hgood : Good state) (call : Call) :
    Regular μ call (answerState state call) := by
  have haccept := hupheld.accept hgood
  unfold Regular
  cases hrequest : call.request with
  | close =>
      rw [answerState_close hrequest, Calculus.checkClose, haccept]
      exact ⟨_, rfl⟩
  | move text =>
      cases hread : (read text : Option μ) with
      | none => exact .inr (.inl ⟨hread, answerState_undecodable hrequest hread⟩)
      | some move =>
          rw [answerState_move hrequest hread]
          simp only [Calculus.applyMove, haccept]
          cases Calculus.step state move with
          | error cause => exact .inr (.inr ⟨cause, rfl⟩)
          | ok next => exact .inl ⟨_, rfl⟩

theorem good_of_handedOut (hupheld : Upheld Good) (hgood : Good state) (call : Call) :
    ∀ next ∈ handedOut (answerState state call), Good next := by
  intro next hnext
  cases hrequest : call.request with
  | close =>
      rw [answerState_close hrequest] at hnext
      cases hclose : Calculus.checkClose state <;> simp [hclose, Except.map, handedOut] at hnext
  | move text =>
      cases hread : (read text : Option μ) with
      | none =>
          rw [answerState_undecodable hrequest hread] at hnext
          cases hnext
      | some move =>
          rw [answerState_move hrequest hread] at hnext
          cases happly : Calculus.applyMove state move with
          | error error => simp [happly, Except.map, handedOut] at hnext
          | ok after =>
              simp only [happly, Except.map, handedOut, List.mem_singleton] at hnext
              subst hnext
              exact hupheld.applyMove hgood hread happly

end Answers

theorem handedOut_map_write (reply : Except Error (Reply σ Verdict)) :
    handedOut (reply.map Reply.write) = (handedOut reply).map write := by
  obtain error | (next | result) := reply <;> rfl

/-- Both conversations agree as long as every text that is handed out is short enough. -/
theorem converse_write [Wire π] {name : String} {Good : σ → Prop} (hoffers : Offers σ name)
    (hupheld : Upheld Good) {first : σ} (later : List σ) (calls : List Call)
    (hgood : ∀ state ∈ first :: later, Good state)
    (hlength : ∀ text ∈ (first :: later).map write ++
      (converse (answerText name) (write first) (later.map write) calls).flatMap handedOut,
      text.length < Json.Numeral.wordLimit) :
    converse (answerText name) (write first) (later.map write) calls =
        (converse answerState first later calls).map (Except.map Reply.write) ∧
      List.Forall₂ (Regular μ) calls (converse answerState first later calls) := by
  induction calls generalizing later with
  | nil => exact ⟨rfl, .nil⟩
  | cons call calls ih =>
      obtain ⟨state, hsubject, hstate, htext⟩ : ∃ state ∈ first :: later,
          later.getD call.subject first = state ∧
            (later.map write).getD call.subject (write first) = write state := by
        refine ⟨later.getD call.subject first, ?_, rfl, by simp⟩
        rw [List.getD_eq_getElem?_getD]
        cases hfound : later[call.subject]? with
        | none => simp
        | some state => simp [List.mem_of_getElem? hfound]
      have hshort : (write state).length < Json.Numeral.wordLimit :=
        hlength _ (List.mem_append_left _ (List.mem_map_of_mem hsubject))
      have hreply := answerText_write hoffers hupheld (hgood state hsubject) hshort call
      -- Both conversations go on with what this call has handed out.
      have htexts : converse (answerText name) (write first) (later.map write) (call :: calls) =
          (answerState state call).map Reply.write ::
            converse (answerText name) (write first)
              ((later ++ handedOut (answerState state call)).map write) calls := by
        rw [converse_cons, htext, hreply, handedOut_map_write, List.map_append]
      have hstates : converse answerState first later (call :: calls) = answerState state call ::
          converse answerState first (later ++ handedOut (answerState state call)) calls := by
        rw [converse_cons, hstate]
      have hnext := good_of_handedOut hupheld (hgood state hsubject) call
      have hkept : ∀ known ∈ first :: (later ++ handedOut (answerState state call)),
          Good known := by
        rw [List.forall_mem_cons, List.forall_mem_append]
        rw [List.forall_mem_cons] at hgood
        exact ⟨hgood.1, hgood.2, hnext⟩
      rw [htexts, List.flatMap_cons, handedOut_map_write] at hlength
      obtain ⟨hagree, hregular⟩ := ih (later ++ handedOut (answerState state call)) hkept
        (by simpa [or_imp, forall_and, and_assoc] using hlength)
      refine ⟨?_, ?_⟩
      · rw [htexts, hstates, hagree, List.map_cons]
      · rw [hstates]
        exact .cons (answerState_regular hupheld (hgood state hsubject) call) hregular

/-- A text that spells nothing the calculus could decode is refused under its name. -/
theorem rejects_of_spells [Wire π] {name : String} (hoffers : Offers σ name) {Valid : σ → Prop}
    (hreads : Wire.Reads Valid (decode : Json → Option σ)) {json : Json} (hwhole : json.Whole)
    (hnone : (decode json : Option σ) = none) {text : String} (htext : json.Spells text) :
    Rejects name text := by
  have hdecode : Exchange.decode σ text = .error (.misuse .undecodable) :=
    decode_eq_error ((hreads.parse_bind hwhole htext).trans hnone)
  refine ⟨fun move => ?_, ?_⟩
  · rw [hoffers.applyMove, Exchange.applyMove, hdecode]
    rfl
  · rw [hoffers.checkClose, Exchange.checkClose, hdecode]
    rfl

theorem follows [Wire π] {τ ν ρ : Type} [Calculus τ ν ρ] [Wire τ] [Wire ν] [Wire ρ]
    {name other : String} {Good Valid : σ → Prop} {Foreign : τ → Prop} (hoffers : Offers σ name)
    (hother : Offers τ other) (hupheld : Upheld Good)
    (hlossless : Wire.Lossless Valid (encode : σ → Json) decode)
    (hreads : Wire.Reads Foreign (decode : Json → Option τ))
    (hforeign : ∀ state : σ, (decode (encode state) : Option τ) = none) :
    Follows σ name other := by
  intro service formula options first calls hparse hlength
  rw [hoffers.parse, Exchange.parse] at hparse
  obtain ⟨params, hparams, hrest⟩ := bind_eq_ok.mp hparse
  obtain ⟨state, hstate, hfirst⟩ := bind_eq_ok.mp hrest
  cases hfirst
  have hgood : ∀ other ∈ [state], Good other := by simpa using hupheld.parse hstate
  obtain ⟨hagree, hregular⟩ := converse_write hoffers hupheld [] calls hgood hlength
  refine ⟨params, state, hparams, hstate, rfl, hagree, hregular, ?_⟩
  intro text htext newline
  obtain ⟨found, rfl⟩ : ∃ found : σ, write found = text := by
    rw [issued] at htext
    rcases List.mem_cons.mp htext with rfl | hlater
    · exact ⟨state, rfl⟩
    · rw [List.map_nil] at hagree
      rw [hagree, List.flatMap_map] at hlater
      simp only [handedOut_map_write, ← List.map_flatMap] at hlater
      obtain ⟨found, -, hfound⟩ := List.mem_map.mp hlater
      exact ⟨found, hfound⟩
  exact rejects_of_spells hother hreads (hlossless.whole found) (hforeign found)
    (spells_present _ _)

end Clausal.Session
