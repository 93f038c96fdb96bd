import Clausal.Proofs.Distinct
import Clausal.Proofs.Wire.Reading
import Clausal.Wire.Logic

/-!
Wire forms without loss. A valid value is read back from its wire form, also if the
members of objects come in another order, with blanks between the tokens; and nothing
but valid values can be read. Literals are lossless as they are, clauses and clause
sets if they hold nothing twice.
-/

namespace Clausal

namespace Json

variable {α : Type}

@[simp] theorem whole_null : Json.null.Whole := by simp [Whole, tokens, Token.Whole]

@[simp] theorem whole_bool (value : Bool) : (Json.bool value).Whole := by
  simp [Whole, tokens, Token.Whole]

@[simp] theorem whole_ofString (value : String) : (ofString value).Whole := by
  simp [Whole, ofString, tokens, Token.Whole]

@[simp] theorem whole_ofNat (value : Nat) : (ofNat value).Whole := by
  simp [Whole, ofNat, tokens, Token.Whole]

theorem whole_record {members : List (String × Json)} :
    (record members).Whole ↔ ∀ member ∈ members, member.2.Whole := by
  rw [record, whole_object, List.forall_mem_map]

theorem whole_ofOption {encode : α → Json} (h : ∀ value, (encode value).Whole)
    (value : Option α) : (ofOption encode value).Whole := by
  cases value with
  | none => exact whole_null
  | some value => exact h value

end Json

namespace Wire

variable {α : Type} {Valid : α → Prop} {encode : α → Json} {decode : Json → Option α}

structure Lossless (Valid : α → Prop) (encode : α → Json) (decode : Json → Option α) : Prop where
  reads : Reads Valid decode
  decode_encode : ∀ value, Valid value → decode (encode value) = some value
  whole : ∀ value, (encode value).Whole

/-- However a value is spelled, it is decoded in the same way. -/
theorem Reads.parse_bind (h : Reads Valid decode) {json : Json} (hwhole : json.Whole)
    {text : String} (htext : json.Spells text) : (Json.parse? text).bind decode = decode json := by
  obtain ⟨other, horder, hparse⟩ := Json.exists_parse?_of_spells hwhole htext
  rw [hparse, Option.bind_some, h.decode_eq horder]

theorem string?_lossless : Lossless (fun _ => True) .ofString string? :=
  ⟨string?_reads, fun _ _ => rfl, Json.whole_ofString⟩

theorem unsigned?_ofNat {value : Nat} (h : value < Json.Numeral.wordLimit) :
    (Json.Numeral.ofNat value).unsigned? = some value := by
  simp [Json.Numeral.unsigned?, Json.Numeral.ofNat, Json.Numeral.isInteger, h]

theorem natural?_lossless : Lossless (· < Json.Numeral.wordLimit) .ofNat natural? :=
  ⟨natural?_reads, fun _ => unsigned?_ofNat, Json.whole_ofNat⟩

theorem Lossless.list (h : Lossless Valid encode decode) :
    Lossless (fun values => ∀ value ∈ values, Valid value)
      (fun values => .array (values.map encode)) (list? decode) where
  reads := list?_reads h.reads
  decode_encode values hvalues := by
    refine mapM_eq_some.mpr ?_
    rw [List.map_map]
    exact List.map_congr_left fun value hvalue => h.decode_encode value (hvalues value hvalue)
  whole values := by
    rw [Json.whole_array, List.forall_mem_map]
    exact fun value _ => h.whole value

theorem Lossless.option (h : Lossless Valid encode decode) (hnull : ∀ value, encode value ≠ .null) :
    Lossless (fun value => ∀ inner ∈ value, Valid inner) (.ofOption encode)
      (option? decode) where
  reads := option?_reads h.reads
  decode_encode value hvalue := by
    cases value with
    | none => rfl
    | some inner =>
        have hinner := h.decode_encode inner (hvalue inner rfl)
        have hsome : option? decode (encode inner) = (decode (encode inner)).map some := by
          rw [option?]
          exact fun hn => hnull inner hn
        rw [Json.ofOption, hsome, hinner, Option.map_some]
  whole := Json.whole_ofOption h.whole

theorem optionalIndex_lossless :
    Lossless (fun index => ∀ id ∈ index, id < Json.Numeral.wordLimit) (.ofOption .ofNat)
      (option? natural?) :=
  natural?_lossless.option fun _ h => nomatch h

theorem optionalString_lossless :
    Lossless (fun value => ∀ inner ∈ value, True) (.ofOption .ofString) (option? string?) :=
  string?_lossless.option fun _ h => nomatch h

theorem choice?_lossless (alternatives : List α) (name : α → String)
    (h : ∀ value, alternatives.find? (name · == name value) = some value) :
    Lossless (fun _ => True) (fun value => .ofString (name value)) (choice? alternatives name) :=
  ⟨choice?_reads alternatives name, fun value _ => h value, fun _ => Json.whole_ofString _⟩

namespace Record

/-- The record gives the value on an object with these members. -/
def Gives (members : List (String × Json)) (value : α) (record : Record α) : Prop :=
  record (.keyed members) = some (value, .keyed members)

namespace Gives

variable {β : Type} {members : List (String × Json)} {name : String} {json : Json} {value : α}

theorem required (hfield : field? name (.keyed members) = some (some json, .keyed members))
    (hdecode : decode json = some value) : Gives members value (.required name decode) := by
  simp [Gives, Record.required, hfield, hdecode]

theorem defaulted {default : α}
    (hfield : field? name (.keyed members) = some (some json, .keyed members))
    (hdecode : decode json = some value) :
    Gives members value (.defaulted name default decode) := by
  simp [Gives, Record.defaulted, hfield, hdecode]

theorem nullable {value : Option α}
    (hfield : field? name (.keyed members) = some (some json, .keyed members))
    (hdecode : option? decode json = some value) :
    Gives members value (.nullable name decode) := by
  simp [Gives, Record.nullable, hfield, hdecode]

theorem pure {result : α} (h : value = result) : Gives members result (pure value) :=
  h ▸ rfl

theorem bind {first : Record α} {next : α → Record β} {result : β}
    (hfirst : Gives members value first) (hnext : Gives members result (next value)) :
    Gives members result (first >>= next) := by
  change (first (.keyed members)).bind _ = _
  rw [hfirst, Option.bind_some]
  exact hnext

theorem membersOf?_map (members : List (String × Json)) :
    Source.membersOf? (members.map fun member => (some member.1, member.2)) = some members := by
  induction members with
  | nil => rfl
  | cons member members ih => simp [Source.membersOf?, ih]

theorem read {record : Record α} (h : Gives members value record) :
    record.read (.record members) = some value := by
  rw [Gives] at h
  simp [Record.read, Json.record, Source.ofJson?, membersOf?_map, h, Source.isSpent]

end Gives

/-- The record cannot be read from an object with these members. -/
def Fails (members : List (String × Json)) (record : Record α) : Prop :=
  record (.keyed members) = none

namespace Fails

variable {β : Type} {members : List (String × Json)} {name : String} {next : α → Record β}

theorem missing (hfield : field? name (.keyed members) = some (none, .keyed members)) :
    Fails members (.required name decode >>= next) := by
  change (Record.required name decode (.keyed members)).bind _ = none
  simp [Record.required, hfield]

/-- Members of an object are not used up, so a field behind another one can be missed. -/
theorem behind (hnext : ∀ value, Fails members (next value)) :
    Fails members (.required name decode >>= next) := by
  have hkept : ∀ found rest, field? name (.keyed members) = some (found, rest) →
      rest = .keyed members := by
    intro found rest hfield
    simp only [field?] at hfield
    split at hfield <;> simp_all
  refine Option.bind_eq_none_iff.mpr ?_
  rintro ⟨value, rest⟩ hvalue
  unfold Record.required at hvalue
  split at hvalue
  · next json remaining hfield =>
      obtain ⟨_, -, hpair⟩ := Option.map_eq_some_iff.mp hvalue
      cases hpair
      rw [hkept _ _ hfield]
      exact hnext value
  · cases hvalue

theorem read {record : Record α} (h : Fails members record) :
    record.read (.record members) = none := by
  rw [Fails] at h
  simp [Record.read, Json.record, Source.ofJson?, Gives.membersOf?_map, h]

end Fails

end Record

section Tag

variable {depth : Nat}

theorem hasNormal_ofString (value : String) : (Json.ofString value).hasNormal depth = true := by
  simp [Json.hasNormal, Json.ofString, Json.normal?]

theorem hasNormal_optionalString (value : Option String) :
    (Json.ofOption .ofString value).hasNormal depth = true := by
  cases value with
  | none => simp [Json.hasNormal, Json.ofOption, Json.normal?]
  | some value => exact hasNormal_ofString value

theorem hasNormal_ofNat {value : Nat} (h : value < Json.Numeral.wordLimit) :
    (Json.ofNat value).hasNormal depth = true := by
  simp [Json.hasNormal, Json.ofNat, Json.normal?, Json.Numeral.normal?, Json.Numeral.isWord,
    unsigned?_ofNat h]

/-- The tag of an object that is written with its tag first. -/
theorem tagged?_record (hdepth : 0 < depth) {tag : String} {members : List (String × Json)}
    (hkeys : ∀ member ∈ members, member.1 ≠ "type")
    (hnormal : ∀ member ∈ members, ∀ inner, member.2.hasNormal inner = true) :
    tagged? depth (.record (("type", .ofString tag) :: members)) =
      some (tag, .record members) := by
  refine tagged?_eq_some.mpr ⟨?_, ?_⟩
  · obtain ⟨inner, rfl⟩ := Nat.exists_eq_add_one.mpr hdepth
    rw [Json.record, Json.hasNormal_object]
    simpa [hasNormal_ofString] using fun key value hmember => hnormal (key, value) hmember inner
  · simp only [Json.record, List.map_cons]
    have hother : ∀ member ∈ members.map fun member => (some member.1, member.2),
        member.1 ≠ some "type" := by
      rw [List.forall_mem_map]
      simpa using hkeys
    generalize (members.map fun member => (some member.1, member.2)) = fields at hother
    have htag : ((some "type", Json.ofString tag) :: fields).filter (·.1 == some "type") =
        [(some "type", .string (some tag))] := by
      rw [List.filter_cons_of_pos (by simp), List.filter_eq_nil_iff.mpr (by simpa using hother)]
      rfl
    have hbody : ((some "type", Json.ofString tag) :: fields).filter (·.1 != some "type") =
        fields := by
      rw [List.filter_cons_of_neg (by simp), List.filter_eq_self.mpr (by simpa using hother)]
    simpa [hbody] using Tagged.keyed (some "type") htag

end Tag

/-- What is valid is read back from what is written of it, and whatever is read is
valid, so that writing it and reading it again changes nothing. -/
structure RoundTrips [Wire α] (Valid : α → Prop) : Prop where
  read_write : ∀ value, Valid value → read (write value) = some value
  stable : ∀ text value, read text = some value →
    Valid value ∧ read (write value) = some value

theorem Lossless.roundTrips [Wire α] (h : Lossless Valid Wire.encode Wire.decode) :
    RoundTrips Valid := by
  have hread : ∀ value, Valid value → read (write value) = some value := by
    intro value hvalue
    rw [read, write, h.reads.parse_bind (h.whole value) (Json.spells_render _)]
    exact h.decode_encode value hvalue
  refine ⟨hread, fun text value htext => ?_⟩
  obtain ⟨json, -, hdecode⟩ := Option.bind_eq_some_iff.mp htext
  have hvalid := (h.reads hdecode).1
  exact ⟨hvalid, hread value hvalid⟩

end Wire

open Wire

theorem Literal.record_lossless : Lossless (fun _ => True) encode record.read where
  reads := Record.Reads.read <|
    .bind (.required _ string?_reads) fun _ _ =>
    .bind (.required _ bool?_reads) fun _ _ => .pure trivial
  decode_encode literal _ := Record.Gives.read <|
    .bind (.required rfl rfl) <| .bind (.required rfl rfl) <| .pure rfl
  whole literal := by simp [encode, Json.whole_record]

theorem Clause.record_lossless : Lossless Distinct encode record.read where
  reads := Record.Reads.read <|
    .bind (.required _ (list?_reads Literal.record_lossless.reads)) fun literals _ =>
    .pure (distinct_ofList literals)
  decode_encode clause hdistinct := by
    have hliterals := Literal.record_lossless.list.decode_encode clause.literals (by simp)
    exact Record.Gives.read <| .bind (.required rfl hliterals) <| .pure hdistinct.ofList_literals
  whole clause := by
    simpa [encode, Json.whole_record] using Literal.record_lossless.list.whole clause.literals

theorem ClauseSet.record_lossless : Lossless Distinct encode record.read where
  reads := Record.Reads.read <|
    .bind (.required _ (list?_reads Clause.record_lossless.reads)) fun _ hclauses =>
    .pure (distinct_ofList hclauses)
  decode_encode set hdistinct := by
    have hclauses := Clause.record_lossless.list.decode_encode set.clauses hdistinct.clause
    exact Record.Gives.read <| .bind (.required rfl hclauses) <| .pure hdistinct.ofList_clauses
  whole set := by
    simpa [encode, Json.whole_record] using Clause.record_lossless.list.whole set.clauses

end Clausal
