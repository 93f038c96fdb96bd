import Clausal.Proofs.Wire.Lossless
import Clausal.Service

/-!
The wire forms of both calculi. States, moves, rules and options are read back from
what is written of them, and whatever can be read at all, in whatever spelling, is
written and read back without change. How a state is laid out as text, in which order
its members come and what blanks stand between its tokens, makes no difference to any
answer.
-/

namespace Clausal

open Wire Json.Numeral

namespace Tableau

theorem Connectedness.decode_lossless : Lossless (fun _ => True) encode decode :=
  choice?_lossless all name fun connectedness => by cases connectedness <;> simp [all, name]

theorem Rules.record_lossless : Lossless (fun _ => True) encode record.read where
  reads := Record.Reads.read <|
    .bind (.defaulted _ trivial Connectedness.decode_lossless.reads) fun _ _ =>
    .bind (.defaulted _ trivial bool?_reads) fun _ _ =>
    .bind (.defaulted _ trivial bool?_reads) fun _ _ => .pure trivial
  decode_encode rules _ := by
    have hconnectedness := Connectedness.decode_lossless.decode_encode rules.connectedness trivial
    exact Record.Gives.read <| .bind (.defaulted rfl hconnectedness) <|
      .bind (.defaulted rfl rfl) <| .bind (.defaulted rfl rfl) <| .pure rfl
  whole rules := by
    simpa [encode, Json.whole_record] using Connectedness.decode_lossless.whole rules.connectedness

/-- The indices of the node fit into 64 bits. -/
structure Node.Fits (node : Node) : Prop where
  parent : ∀ id ∈ node.parent, id < wordLimit
  target : ∀ id ∈ node.target, id < wordLimit
  children : ∀ id ∈ node.children, id < wordLimit

theorem Node.record_lossless : Lossless Fits encode record.read where
  reads := Record.Reads.read <|
    .bind (.nullable _ natural?_reads) fun _ hparent =>
    .bind (.required _ string?_reads) fun _ _ =>
    .bind (.required _ bool?_reads) fun _ _ =>
    .bind (.required _ bool?_reads) fun _ _ =>
    .bind (.nullable _ natural?_reads) fun _ htarget =>
    .bind (.required _ (list?_reads natural?_reads)) fun _ hchildren =>
    .pure ⟨hparent, htarget, hchildren⟩
  decode_encode node hfits := by
    have hparent := optionalIndex_lossless.decode_encode node.parent hfits.parent
    have htarget := optionalIndex_lossless.decode_encode node.target hfits.target
    have hchildren := natural?_lossless.list.decode_encode node.children hfits.children
    exact Record.Gives.read <| .bind (.nullable rfl hparent) <| .bind (.required rfl rfl) <|
      .bind (.required rfl rfl) <| .bind (.required rfl rfl) <| .bind (.nullable rfl htarget) <|
      .bind (.required rfl hchildren) <| .pure rfl
  whole node := by
    have hparent := optionalIndex_lossless.whole node.parent
    have htarget := optionalIndex_lossless.whole node.target
    have hchildren := natural?_lossless.list.whole node.children
    simp [encode, Json.whole_record, hparent, htarget, hchildren]

/-- The indices of the move fit into 64 bits. -/
def Move.Fits : Move → Prop
  | .expand leaf clause => leaf < wordLimit ∧ clause < wordLimit
  | .close leaf node => leaf < wordLimit ∧ node < wordLimit
  | .undo => True

theorem Move.decode_lossless {depth : Nat} (hdepth : 0 < depth) :
    Lossless Fits encode (decode depth) where
  reads := by
    refine Reads.tagged ?_ depth
    intro tag record hrecord
    unfold record? at hrecord
    split at hrecord
    · cases hrecord
      exact .bind (.required _ natural?_reads) fun _ hleaf =>
        .bind (.required _ natural?_reads) fun _ hclause => .pure ⟨hleaf, hclause⟩
    · cases hrecord
      exact .bind (.required _ natural?_reads) fun _ hleaf =>
        .bind (.required _ natural?_reads) fun _ hnode => .pure ⟨hleaf, hnode⟩
    · cases hrecord
      exact .pure trivial
    · cases hrecord
  decode_encode move hfits := by
    cases move with
    | expand leaf clause =>
        have hleaf := natural?_lossless.decode_encode leaf hfits.1
        have hclause := natural?_lossless.decode_encode clause hfits.2
        rw [decode, encode, tagged?_record hdepth (by simp)
          (by simp [hasNormal_ofNat, hfits.1, hfits.2])]
        exact Record.Gives.read <| .bind (.required rfl hleaf) <| .bind (.required rfl hclause) <|
          .pure rfl
    | close leaf node =>
        have hleaf := natural?_lossless.decode_encode leaf hfits.1
        have hnode := natural?_lossless.decode_encode node hfits.2
        rw [decode, encode, tagged?_record hdepth (by simp)
          (by simp [hasNormal_ofNat, hfits.1, hfits.2])]
        exact Record.Gives.read <| .bind (.required rfl hleaf) <| .bind (.required rfl hnode) <|
          .pure rfl
    | undo =>
        rw [decode, encode, tagged?_record hdepth (by simp) (by simp)]
        change undoRecord.read (.record []) = some .undo
        exact Record.Gives.read <| .pure rfl
  whole move := by cases move <;> simp [encode, Json.whole_record]

theorem Move.roundTrips : RoundTrips Fits := Lossless.roundTrips (decode_lossless (by decide))

/-- Nothing is repeated in the clauses, and all indices fit into 64 bits. -/
structure State.Fits (state : State) : Prop where
  clauses : state.clauses.Distinct
  nodes : ∀ node ∈ state.tree.nodes, node.Fits
  history : ∀ move ∈ state.history, move.Fits

theorem State.historyMove_lossless :
    Lossless Move.Fits Move.encode (Move.decode (Json.depthLimit - 2)) :=
  Move.decode_lossless (by decide)

theorem State.record_lossless : Lossless Fits encode record.read where
  reads := Record.Reads.read <|
    .bind (.required _ ClauseSet.record_lossless.reads) fun _ hclauses =>
    .bind (.required _ string?_reads) fun _ _ =>
    .bind (.required _ Connectedness.decode_lossless.reads) fun _ _ =>
    .bind (.required _ bool?_reads) fun _ _ =>
    .bind (.required _ bool?_reads) fun _ _ =>
    .bind (.required _ (list?_reads Node.record_lossless.reads)) fun _ hnodes =>
    .bind (.required _ (list?_reads historyMove_lossless.reads)) fun _ hhistory =>
    .bind (.required _ bool?_reads) fun _ _ =>
    .bind (.defaulted _ trivial string?_reads) fun _ _ =>
    .pure ⟨hclauses, hnodes, hhistory⟩
  decode_encode state hfits := by
    have hclauses := ClauseSet.record_lossless.decode_encode state.clauses hfits.clauses
    have hconnectedness :=
      Connectedness.decode_lossless.decode_encode state.rules.connectedness trivial
    have hnodes := Node.record_lossless.list.decode_encode state.tree.nodes hfits.nodes
    have hhistory := historyMove_lossless.list.decode_encode state.history hfits.history
    exact Record.Gives.read <| .bind (.required rfl hclauses) <| .bind (.required rfl rfl) <|
      .bind (.required rfl hconnectedness) <| .bind (.required rfl rfl) <|
      .bind (.required rfl rfl) <| .bind (.required rfl hnodes) <|
      .bind (.required rfl hhistory) <| .bind (.required rfl rfl) <|
      .bind (.defaulted rfl rfl) <| .pure rfl
  whole state := by
    have hclauses := ClauseSet.record_lossless.whole state.clauses
    have hconnectedness := Connectedness.decode_lossless.whole state.rules.connectedness
    have hnodes := Node.record_lossless.list.whole state.tree.nodes
    have hhistory := historyMove_lossless.list.whole state.history
    simp [encode, Json.whole_record, hclauses, hconnectedness, hnodes, hhistory]

end Tableau

namespace Resolution

theorem VisualHelp.decode_lossless : Lossless (fun _ => True) encode decode :=
  choice?_lossless all name fun help => by cases help <;> simp [all, name]

theorem Options.record_lossless : Lossless (fun _ => True) encode record.read where
  reads := Record.Reads.read <|
    .bind (.defaulted _ trivial VisualHelp.decode_lossless.reads) fun _ _ => .pure trivial
  decode_encode options _ := by
    have hhelp := VisualHelp.decode_lossless.decode_encode options.visualHelp trivial
    exact Record.Gives.read <| .bind (.defaulted rfl hhelp) <| .pure rfl
  whole options := by
    simpa [encode, Json.whole_record] using VisualHelp.decode_lossless.whole options.visualHelp

/-- The indices of the move fit into 64 bits. -/
def Move.Fits : Move → Prop
  | .resolve first second _ => first < wordLimit ∧ second < wordLimit
  | .hide clause => clause < wordLimit
  | .unhide => True

theorem Move.decode_lossless {depth : Nat} (hdepth : 0 < depth) :
    Lossless Fits encode (decode depth) where
  reads := by
    refine Reads.tagged ?_ depth
    intro tag record hrecord
    unfold record? at hrecord
    split at hrecord
    · cases hrecord
      exact .bind (.required _ natural?_reads) fun _ hfirst =>
        .bind (.required _ natural?_reads) fun _ hsecond =>
        .bind (.defaulted _ (by simp) optionalString_lossless.reads) fun _ _ =>
        .pure ⟨hfirst, hsecond⟩
    · cases hrecord
      exact .bind (.required _ natural?_reads) fun _ hclause => .pure hclause
    · cases hrecord
      exact .pure trivial
    · cases hrecord
  decode_encode move hfits := by
    cases move with
    | resolve first second name =>
        have hfirst := natural?_lossless.decode_encode first hfits.1
        have hsecond := natural?_lossless.decode_encode second hfits.2
        have hname := optionalString_lossless.decode_encode name (by simp)
        rw [decode, encode, tagged?_record hdepth (by simp)
          (by simp [hasNormal_ofNat, hasNormal_optionalString, hfits.1, hfits.2])]
        exact Record.Gives.read <| .bind (.required rfl hfirst) <|
          .bind (.required rfl hsecond) <| .bind (.defaulted rfl hname) <| .pure rfl
    | hide clause =>
        have hclause := natural?_lossless.decode_encode clause hfits
        rw [decode, encode, tagged?_record hdepth (by simp)
          (by simpa using fun _ => hasNormal_ofNat hfits)]
        exact Record.Gives.read <| .bind (.required rfl hclause) <| .pure rfl
    | unhide =>
        rw [decode, encode, tagged?_record hdepth (by simp) (by simp)]
        change unhideRecord.read (.record []) = some .unhide
        exact Record.Gives.read <| .pure rfl
  whole move := by
    cases move with
    | resolve first second name =>
        simpa [encode, Json.whole_record] using optionalString_lossless.whole name
    | hide clause => simp [encode, Json.whole_record]
    | unhide => simp [encode, Json.whole_record]

theorem Move.roundTrips : RoundTrips Fits := Lossless.roundTrips (decode_lossless (by decide))

/-- Nothing is repeated in the clauses, and the index of the newest one fits into 64
bits. -/
structure State.Fits (state : State) : Prop where
  clauses : state.clauses.Distinct
  hidden : state.hidden.Distinct
  newest : ∀ id ∈ state.newest, id < wordLimit

theorem State.record_lossless : Lossless Fits encode record.read where
  reads := Record.Reads.read <|
    .bind (.required _ string?_reads) fun _ _ =>
    .bind (.required _ ClauseSet.record_lossless.reads) fun _ hclauses =>
    .bind (.required _ ClauseSet.record_lossless.reads) fun _ hhidden =>
    .bind (.required _ VisualHelp.decode_lossless.reads) fun _ _ =>
    .bind (.nullable _ natural?_reads) fun _ hnewest =>
    .bind (.defaulted _ trivial string?_reads) fun _ _ =>
    .pure ⟨hclauses, hhidden, hnewest⟩
  decode_encode state hfits := by
    have hclauses := ClauseSet.record_lossless.decode_encode state.clauses hfits.clauses
    have hhidden := ClauseSet.record_lossless.decode_encode state.hidden hfits.hidden
    have hhelp := VisualHelp.decode_lossless.decode_encode state.visualHelp trivial
    have hnewest := optionalIndex_lossless.decode_encode state.newest hfits.newest
    exact Record.Gives.read <| .bind (.required rfl rfl) <| .bind (.required rfl hclauses) <|
      .bind (.required rfl hhidden) <| .bind (.required rfl hhelp) <|
      .bind (.nullable rfl hnewest) <| .bind (.defaulted rfl rfl) <| .pure rfl
  whole state := by
    have hclauses := ClauseSet.record_lossless.whole state.clauses
    have hhidden := ClauseSet.record_lossless.whole state.hidden
    have hhelp := VisualHelp.decode_lossless.whole state.visualHelp
    have hnewest := optionalIndex_lossless.whole state.newest
    simp [encode, Json.whole_record, hclauses, hhidden, hhelp, hnewest]

end Resolution

/-- States, moves, rules and options of both calculi are carried by their wire forms
without any loss. -/
theorem wire_round_trip :
    RoundTrips Tableau.State.Fits ∧ RoundTrips Resolution.State.Fits ∧
      RoundTrips Tableau.Move.Fits ∧ RoundTrips Resolution.Move.Fits ∧
      RoundTrips (fun _ : Tableau.Rules => True) ∧
      RoundTrips (fun _ : Resolution.Options => True) :=
  ⟨Tableau.State.record_lossless.roundTrips, Resolution.State.record_lossless.roundTrips,
    Tableau.Move.roundTrips, Resolution.Move.roundTrips,
    Tableau.Rules.record_lossless.roundTrips, Resolution.Options.record_lossless.roundTrips⟩

/-- A state whose objects are all given as arrays, with a literal and a clause repeated
and the seal left out. -/
theorem wire_round_trip_repeated : ∃ state : Resolution.State,
    state.clauses = ⟨[⟨[.positive "a"]⟩]⟩ ∧ state.stamp = "" ∧
      read "[\"a\",[[[[[\"a\",false],[\"a\",false]]],[[[\"a\",false]]]]],[[]],\"Off\",null]" =
        some state ∧
      read (write state) = some state := by
  let literal : Json := .array [.ofString "a", .bool false]
  let json : Json := .array [.ofString "a",
    .array [.array [.array [.array [literal, literal]], .array [.array [literal]]]],
    .array [.array []], .ofString "Off", .null]
  have hread : read json.render = some (⟨"a", ⟨[⟨[.positive "a"]⟩]⟩, .empty, .off, none, ""⟩ :
      Resolution.State) := by
    have hwhole : json.Whole := by simp [json, literal, Json.whole_array]
    exact (Resolution.State.record_lossless.reads.parse_bind hwhole json.spells_render).trans rfl
  exact ⟨_, rfl, rfl, hread, (wire_round_trip.2.1.stable _ _ hread).2⟩

/-- The texts get the same answers, under every name of a calculus. -/
structure AnsweredAlike (first second : String) : Prop where
  applyMove : ∀ calculus move,
    Service.applyMove calculus first move = Service.applyMove calculus second move
  checkClose : ∀ calculus, Service.checkClose calculus first = Service.checkClose calculus second

/-- Two spellings of one value are decoded alike, whatever they are decoded as. -/
theorem Exchange.decode_of_spells {α : Type} [Wire α] {Valid : α → Prop}
    (hreads : Reads Valid (Wire.decode : Json → Option α)) {json : Json} (hwhole : json.Whole)
    {first second : String} (hfirst : json.Spells first) (hsecond : json.Spells second) :
    decode α first = decode α second := by
  have hread : (read first : Option α) = read second :=
    (hreads.parse_bind hwhole hfirst).trans (hreads.parse_bind hwhole hsecond).symm
  rw [decode, hread, decode]

theorem answeredAlike_of_spells {json : Json} (hwhole : json.Whole) {first second : String}
    (hfirst : json.Spells first) (hsecond : json.Spells second) : AnsweredAlike first second := by
  have htableau : Exchange.decode Tableau.State first = Exchange.decode Tableau.State second :=
    Exchange.decode_of_spells Tableau.State.record_lossless.reads hwhole hfirst hsecond
  have hresolution :
      Exchange.decode Resolution.State first = Exchange.decode Resolution.State second :=
    Exchange.decode_of_spells Resolution.State.record_lossless.reads hwhole hfirst hsecond
  refine ⟨fun calculus move => ?_, fun calculus => ?_⟩
  · simp only [Service.applyMove, Exchange.applyMove, htableau, hresolution]
  · simp only [Service.checkClose, Exchange.checkClose, htableau, hresolution]

/-- The text stands for the state: it is read as that state, its seal is as right or as
wrong, and it gets the answers that the text written of the state gets. -/
structure StandsFor {σ μ π : Type} [Calculus σ μ π] [Wire σ] (text : String) (state : σ) :
    Prop where
  read_eq : read text = some state
  isSealed_eq : (read text).map (fun found : σ => Calculus.isSealed found) =
    some (Calculus.isSealed state)
  answers : AnsweredAlike text (write state)

theorem standsFor_of_spells {σ μ π : Type} [Calculus σ μ π] [Wire σ] {Valid : σ → Prop}
    (h : Lossless Valid (encode : σ → Json) decode) {state : σ} (hstate : Valid state)
    {text : String} (htext : (encode state).Spells text) : StandsFor text state := by
  have hwhole := h.whole state
  have hread : read text = some state :=
    (h.reads.parse_bind hwhole htext).trans (h.decode_encode state hstate)
  refine ⟨hread, by rw [hread, Option.map_some], ?_⟩
  exact answeredAlike_of_spells hwhole htext (Json.spells_render _)

/-- The order of members, at whatever depth, and the blanks between tokens make no
difference to the text of a state. -/
theorem layout_immaterial :
    (∀ (state : Tableau.State) (text : String),
      state.Fits → state.encode.Spells text → StandsFor text state) ∧
    ∀ (state : Resolution.State) (text : String),
      state.Fits → state.encode.Spells text → StandsFor text state :=
  ⟨fun _ _ hfits htext => standsFor_of_spells Tableau.State.record_lossless hfits htext,
    fun _ _ hfits htext => standsFor_of_spells Resolution.State.record_lossless hfits htext⟩

/-- All members of a state in reverse order, the tag of its move behind the fields, and
every token on a line of its own. -/
theorem layout_immaterial_reversed :
    ∃ (state : Tableau.State) (before move after : List (Option String × Json)),
      state.history = [.expand 0 0] ∧
      state.encode =
        .object (before ++ (some "move_history", .array [.object move]) :: after) ∧
      StandsFor (String.ofList <|
        (Json.object (before ++ (some "move_history", .array [.object move.reverse]) ::
          after).reverse).tokens.flatMap fun token => '\n' :: token.text) state := by
  let state : Tableau.State :=
    { clauses := ⟨[⟨[.positive "a"]⟩]⟩, formula := "a", rules := .free, tree := .start,
      history := [.expand 0 0], usedUndo := false, stamp := "" }
  have hfits : state.Fits := by
    have hroot : Tableau.Node.root.Fits := by constructor <;> simp [Tableau.Node.root]
    refine ⟨⟨?_, ?_⟩, ?_, ?_⟩
    · simp [state, Clause.Distinct]
    · simp [state]
    · simpa [state, Tableau.Tree.start] using hroot
    · simp [state, Tableau.Move.Fits, wordLimit]
  obtain ⟨before, move, after, hencode⟩ : ∃ before move after,
      state.encode = .object (before ++ (some "move_history", .array [.object move]) :: after) :=
    ⟨[_, _, _, _, _, _], _, [_, _], rfl⟩
  refine ⟨state, before, move, after, rfl, hencode, layout_immaterial.1 state _ hfits ?_⟩
  rw [hencode]
  have hmove : Json.Reorder (.object move) (.object move.reverse) :=
    .members move.reverse_perm.symm
  refine ⟨_, .tail (.single (.member before after _ (.item [] [] hmove)))
    (.members (List.reverse_perm _).symm), ?_⟩
  rw [String.toList_ofList]
  exact Json.Token.spaced_flatMap ['\n'] (by simp) _

end Clausal
