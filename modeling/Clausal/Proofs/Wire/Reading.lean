import Clausal.Proofs.Json.Order
import Clausal.Wire.Record

/-!
What every decoder does, whatever it reads. The values it gives are valid, and it
gives the same value if the members of objects are put into another order. Both are
carried from the decoders of single values to those of records, field by field.
-/

namespace Clausal.Wire

open Json (Reorder)

variable {α β : Type}

/-- The decoder gives valid values only, and does not look at the order of members. -/
def Reads (Valid : α → Prop) (decode : Json → Option α) : Prop :=
  ∀ ⦃json value⦄, decode json = some value →
    Valid value ∧ ∀ ⦃other⦄, Reorder json other → decode other = some value

namespace Reads

variable {Valid : α → Prop} {decode : Json → Option α}

theorem of_reflGen (h : Reads Valid decode) {json other : Json} {value : α}
    (hdecode : decode json = some value) (horder : Relation.ReflGen Reorder json other) :
    decode other = some value := by
  cases horder with
  | refl => exact hdecode
  | single hstep => exact (h hdecode).2 hstep

/-- What cannot be decoded in one order cannot be decoded in another one either. -/
theorem decode_eq (h : Reads Valid decode) {json other : Json}
    (horder : Relation.ReflTransGen Reorder json other) : decode json = decode other := by
  induction horder with
  | refl => rfl
  | tail _ hstep ih =>
      rw [ih]
      refine Option.ext fun value => ?_
      exact ⟨fun hold => (h hold).2 hstep, fun hnew => (h hnew).2 hstep.symm⟩

/-- A decoder of neither arrays nor objects meets no members. -/
theorem scalar (hvalid : ∀ {json value}, decode json = some value → Valid value)
    (harray : ∀ items, decode (.array items) = none)
    (hobject : ∀ members, decode (.object members) = none) : Reads Valid decode := by
  intro json value hdecode
  refine ⟨hvalid hdecode, fun other horder => ?_⟩
  cases horder <;> simp [harray, hobject] at hdecode

end Reads

theorem bool?_reads : Reads (fun _ => True) bool? :=
  .scalar (fun _ => trivial) (fun _ => rfl) (fun _ => rfl)

theorem string?_reads : Reads (fun _ => True) string? :=
  .scalar (fun _ => trivial) (fun _ => rfl) (fun _ => rfl)

theorem unsigned?_eq_some {numeral : Json.Numeral} {value : Nat}
    (h : numeral.unsigned? = some value) : value < Json.Numeral.wordLimit := by
  unfold Json.Numeral.unsigned? at h
  split at h
  · next hword =>
      simp only [Bool.and_eq_true, decide_eq_true_eq] at hword
      cases h
      exact hword.2
  · cases h

theorem natural?_reads : Reads (· < Json.Numeral.wordLimit) natural? := by
  refine .scalar ?_ (fun _ => rfl) (fun _ => rfl)
  intro json value hdecode
  cases json with
  | number numeral => exact unsigned?_eq_some hdecode
  | _ => cases hdecode

theorem mapM_eq_some {decode : Json → Option α} {items : List Json} {values : List α} :
    items.mapM decode = some values ↔ items.map decode = values.map some := by
  induction items generalizing values with
  | nil => cases values <;> simp
  | cons item items ih =>
      rw [List.mapM_cons, List.map_cons, Option.bind_eq_bind, Option.bind_eq_some_iff]
      simp only [Option.bind_eq_bind, Option.bind_eq_some_iff, ih]
      cases values <;> simp [and_left_comm, eq_comm]

theorem list?_reads {Valid : α → Prop} {decode : Json → Option α} (h : Reads Valid decode) :
    Reads (fun values => ∀ value ∈ values, Valid value) (list? decode) := by
  intro json values hdecode
  cases json with
  | array items =>
      have hitems : items.map decode = values.map some := mapM_eq_some.mp hdecode
      refine ⟨?_, fun other horder => ?_⟩
      · intro value hvalue
        have hfound : some value ∈ items.map decode := hitems ▸ List.mem_map_of_mem hvalue
        obtain ⟨item, -, hitem⟩ := List.mem_map.mp hfound
        exact (h hitem).1
      · cases horder with
        | @item old new before after hstep =>
            have hfound : decode old ∈ values.map some := by simp [← hitems]
            obtain ⟨value, -, hold⟩ := List.mem_map.mp hfound
            have hnew := (h hold.symm).2 hstep
            refine mapM_eq_some.mpr ?_
            rw [← hitems]
            simp [← hold, hnew]
  | _ => cases hdecode

theorem option?_reads {Valid : α → Prop} {decode : Json → Option α} (h : Reads Valid decode) :
    Reads (fun value => ∀ inner ∈ value, Valid inner) (option? decode) := by
  intro json value hdecode
  cases json with
  | null =>
      cases hdecode
      exact ⟨by simp, fun other horder => nomatch horder⟩
  | _ =>
      obtain ⟨inner, hinner, rfl⟩ := Option.map_eq_some_iff.mp hdecode
      refine ⟨by simpa using (h hinner).1, fun other horder => ?_⟩
      have hother := (h hinner).2 horder
      cases horder <;> simp [option?, hother]

/-- An alternative that is written as an object has nothing to reorder. -/
theorem choice?_object {alternatives : List α} {name : α → String} {value : α}
    {members : List (Option String × Json)}
    (h : choice? alternatives name (.object members) = some value) :
    ∃ text, members = [(some text, .null)] := by
  unfold choice? at h
  split at h <;> simp_all

theorem choice?_reads (alternatives : List α) (name : α → String) :
    Reads (fun _ => True) (choice? alternatives name) := by
  intro json value hdecode
  refine ⟨trivial, fun other horder => ?_⟩
  cases horder with
  | members hperm =>
      obtain ⟨text, rfl⟩ := choice?_object hdecode
      rw [List.singleton_perm.mp hperm] at hdecode
      exact hdecode
  | item before after hstep => cases hdecode
  | @member old new before after key hstep =>
      obtain ⟨text, hmembers⟩ := choice?_object hdecode
      have hmember : (key, old) ∈ [(some text, Json.null)] := by simp [← hmembers]
      obtain ⟨-, rfl⟩ := Prod.mk.inj (List.mem_singleton.mp hmember)
      cases hstep

namespace Source

/-- Whether the fields are found by their names, as in an object. -/
def isKeyed : Source → Bool
  | .keyed _ => true
  | .listed _ => false

/-- The fields are the same up to the order of members, here and inside of them. -/
inductive Alike : Source → Source → Prop
  | keyed {first middle second : List (String × Json)} :
      first.Perm middle →
      List.Forall₂ (fun old new => old.1 = new.1 ∧ Relation.ReflGen Reorder old.2 new.2)
        middle second →
      Alike (.keyed first) (.keyed second)
  | listed {first second : List Json} :
      List.Forall₂ (Relation.ReflGen Reorder) first second → Alike (.listed first) (.listed second)

theorem membersOf?_eq (members : List (Option String × Json)) :
    membersOf? members =
      if members.all (·.1.isSome) then
        some (members.filterMap fun member => member.1.map (·, member.2))
      else none := by
  induction members with
  | nil => rfl
  | cons member members ih =>
      obtain ⟨key, value⟩ := member
      cases key with
      | none => simp [membersOf?]
      | some key =>
          rw [membersOf?, ih]
          cases hall : members.all (·.1.isSome) <;> simp [hall]

/-- Values in another order give the same fields. -/
theorem ofJson?_reorder {json other : Json} {source : Source} (h : Reorder json other)
    (hsource : ofJson? json = some source) :
    ∃ after, ofJson? other = some after ∧ Alike source after := by
  cases h with
  | @members first second hperm =>
      simp only [ofJson?, membersOf?_eq, Option.map_eq_some_iff, Option.ite_none_right_eq_some,
        Option.some.injEq] at hsource ⊢
      obtain ⟨_, ⟨hall, rfl⟩, rfl⟩ := hsource
      exact ⟨_, ⟨_, ⟨hperm.all_eq ▸ hall, rfl⟩, rfl⟩,
        .keyed (hperm.filterMap _) (List.forall₂_same.mpr fun _ _ => ⟨rfl, .refl⟩)⟩
  | @item old new before after hstep =>
      cases hsource
      refine ⟨_, rfl, .listed ?_⟩
      exact List.rel_append (List.forall₂_same.mpr fun _ _ => .refl)
        (.cons (.single hstep) (List.forall₂_same.mpr fun _ _ => .refl))
  | @member old new before after key hstep =>
      simp only [ofJson?, membersOf?_eq, Option.map_eq_some_iff, Option.ite_none_right_eq_some,
        Option.some.injEq] at hsource ⊢
      obtain ⟨_, ⟨hall, rfl⟩, rfl⟩ := hsource
      simp only [List.all_append, List.all_cons] at hall ⊢
      refine ⟨_, ⟨_, ⟨hall, rfl⟩, rfl⟩, .keyed .rfl ?_⟩
      obtain ⟨name, rfl⟩ : ∃ name, key = some name := by
        simp only [Bool.and_eq_true] at hall
        exact Option.isSome_iff_exists.mp hall.2.1
      simp only [List.filterMap_append, List.filterMap_cons, Option.map_some]
      exact List.rel_append (List.forall₂_same.mpr fun _ _ => ⟨rfl, .refl⟩)
        (.cons ⟨rfl, .single hstep⟩ (List.forall₂_same.mpr fun _ _ => ⟨rfl, .refl⟩))

theorem Alike.isSpent_eq {first second : Source} (h : Alike first second) :
    first.isSpent = second.isSpent := by
  cases h with
  | keyed => rfl
  | listed hitems => cases hitems <;> rfl

end Source

namespace Record

open Source (Alike)

/-- The record gives valid values only, and does not look at the order of members. -/
def Reads (Valid : α → Prop) (record : Record α) : Prop :=
  ∀ ⦃source value rest⦄, record source = some (value, rest) →
    Valid value ∧ ∀ ⦃other⦄, Alike source other →
      ∃ after, record other = some (value, after) ∧ Alike rest after

/-- A missing field is missing in every order, and a given one has the same value up to
the order in it. -/
theorem field?_alike {name : String} {source other rest : Source} {field : Option Json}
    (h : Alike source other) (hfield : field? name source = some (field, rest)) :
    ∃ found after, field? name other = some (found, after) ∧
      Option.Rel (Relation.ReflGen Reorder) field found ∧ Alike rest after := by
  cases h with
  | @keyed first middle second hperm hsame =>
      have hfirst : (first.filter fun member => member.1 == name).Perm
          (middle.filter fun member => member.1 == name) := hperm.filter _
      have hsecond : List.Forall₂
          (fun old new => old.1 = new.1 ∧ Relation.ReflGen Reorder old.2 new.2)
          (middle.filter fun member => member.1 == name)
          (second.filter fun member => member.1 == name) := by
        refine List.rel_filter ?_ hsame
        rintro old new ⟨hkey, -⟩
        simp [hkey]
      simp only [field?] at hfield ⊢
      generalize (first.filter fun member => member.1 == name) = found at hfield hfirst
      generalize (middle.filter fun member => member.1 == name) = between at hfirst hsecond
      generalize (second.filter fun member => member.1 == name) = others at hsecond ⊢
      match found with
      | [] =>
          cases hfield
          cases hfirst.nil_eq
          cases hsecond
          exact ⟨none, _, rfl, .none, .keyed hperm hsame⟩
      | [(key, value)] =>
          cases hfield
          cases (List.singleton_perm.mp hfirst)
          obtain ⟨_, _, ⟨hkey, hvalue⟩, hnil, rfl⟩ := List.forall₂_cons_left_iff.mp hsecond
          cases hnil
          exact ⟨_, _, rfl, .some hvalue, .keyed hperm hsame⟩
      | _ :: _ :: _ => cases hfield
  | listed hitems =>
      cases hitems with
      | nil =>
          cases hfield
          exact ⟨none, _, rfl, .none, .listed .nil⟩
      | cons hitem hrest =>
          cases hfield
          exact ⟨_, _, rfl, .some hitem, .listed hrest⟩

namespace Reads

variable {Valid : α → Prop} {decode : Json → Option α}

/-- A record of one field reads what it settles on for a given and for a missing
value. -/
theorem of_field (name : String) {record : Record α} (settle : Source → Option Json → Option α)
    (hrecord : ∀ source, record source =
      (field? name source).bind fun result => (settle result.2 result.1).map (·, result.2))
    (hsettle : ∀ rest field value, settle rest field = some value →
      Valid value ∧ ∀ after found, Alike rest after →
        Option.Rel (Relation.ReflGen Reorder) field found → settle after found = some value) :
    Reads Valid record := by
  intro source value rest hread
  rw [hrecord] at hread
  obtain ⟨⟨field, remaining⟩, hfield, hmap⟩ := Option.bind_eq_some_iff.mp hread
  obtain ⟨_, hvalue, hpair⟩ := Option.map_eq_some_iff.mp hmap
  cases hpair
  refine ⟨(hsettle _ _ _ hvalue).1, fun other halike => ?_⟩
  obtain ⟨found, after, hother, hsame, hafter⟩ := field?_alike halike hfield
  refine ⟨after, ?_, hafter⟩
  simp [hrecord, hother, (hsettle _ _ _ hvalue).2 after found hafter hsame]

theorem required (name : String) (h : Wire.Reads Valid decode) :
    Reads Valid (.required name decode) := by
  refine of_field name (fun _ field => field.bind decode) ?_ ?_
  · intro source
    unfold Record.required
    rcases field? name source with _ | ⟨_ | json, rest⟩ <;> rfl
  · rintro rest (_ | json) value hvalue
    · cases hvalue
    · refine ⟨(h hvalue).1, ?_⟩
      rintro after _ - ⟨hsame⟩
      exact h.of_reflGen hvalue hsame

theorem defaulted (name : String) {default : α} (hdefault : Valid default)
    (h : Wire.Reads Valid decode) : Reads Valid (.defaulted name default decode) := by
  refine of_field name (fun _ field => field.elim (some default) decode) ?_ ?_
  · intro source
    unfold Record.defaulted
    rcases field? name source with _ | ⟨_ | json, rest⟩ <;> rfl
  · rintro rest (_ | json) value hvalue
    · cases hvalue
      refine ⟨hdefault, ?_⟩
      rintro after _ - ⟨⟩
      rfl
    · refine ⟨(h hvalue).1, ?_⟩
      rintro after _ - ⟨hsame⟩
      exact h.of_reflGen hvalue hsame

theorem nullable (name : String) (h : Wire.Reads Valid decode) :
    Reads (fun value => ∀ inner ∈ value, Valid inner) (.nullable name decode) := by
  -- Only in an object may the field be missing.
  refine of_field name (fun rest field =>
    field.elim (if rest.isKeyed then some none else none) (option? decode)) ?_ ?_
  · intro source
    unfold Record.nullable
    rcases field? name source with _ | ⟨_ | json, _ | _⟩ <;> rfl
  · rintro rest (_ | json) value hvalue
    · cases rest with
      | listed items => cases hvalue
      | keyed members =>
          cases hvalue
          refine ⟨by simp, ?_⟩
          rintro _ _ ⟨⟩ ⟨⟩
          rfl
    · refine ⟨(option?_reads h hvalue).1, ?_⟩
      rintro after _ - ⟨hsame⟩
      exact (option?_reads h).of_reflGen hvalue hsame

theorem pure {value : α} (hvalue : Valid value) : Reads Valid (pure value : Record α) := by
  intro source result rest hread
  cases hread
  exact ⟨hvalue, fun other halike => ⟨other, rfl, halike⟩⟩

theorem bind {Valid : α → Prop} {After : β → Prop} {first : Record α} {next : α → Record β}
    (hfirst : Reads Valid first) (hnext : ∀ value, Valid value → Reads After (next value)) :
    Reads After (first >>= next) := by
  intro source result rest hread
  obtain ⟨⟨value, between⟩, hvalue, hresult⟩ := Option.bind_eq_some_iff.mp hread
  have hvalid := (hfirst hvalue).1
  refine ⟨(hnext value hvalid hresult).1, fun other halike => ?_⟩
  obtain ⟨middle, hmiddle, hbetween⟩ := (hfirst hvalue).2 halike
  obtain ⟨after, hafter, hrest⟩ := (hnext value hvalid hresult).2 hbetween
  exact ⟨after, Option.bind_eq_some_iff.mpr ⟨_, hmiddle, hafter⟩, hrest⟩

/-- What is true of the fields of a record is true of the record. -/
theorem read {record : Record α} (h : Reads Valid record) : Wire.Reads Valid record.read := by
  intro json value hread
  unfold Record.read at hread
  split at hread
  · next result rest hresult =>
      simp only [Option.ite_none_right_eq_some, Option.some.injEq] at hread
      obtain ⟨hspent, rfl⟩ := hread
      obtain ⟨source, hsource, hrecord⟩ := Option.bind_eq_some_iff.mp hresult
      refine ⟨(h hrecord).1, fun other horder => ?_⟩
      obtain ⟨found, hfound, halike⟩ := Source.ofJson?_reorder horder hsource
      obtain ⟨after, hafter, hrest⟩ := (h hrecord).2 halike
      simp [Record.read, hfound, hafter, ← hrest.isSpent_eq, hspent]
  · cases hread

end Reads

end Record

/-- The value has this tag, beside the body. -/
inductive Tagged (tag : String) : Json → Json → Prop
  | keyed {members : List (Option String × Json)} (key : Option String) :
      members.filter (·.1 == some "type") = [(key, .string (some tag))] →
      Tagged tag (.object members) (.object (members.filter (·.1 != some "type")))
  | listed (items : List Json) : Tagged tag (.array (.string (some tag) :: items)) (.array items)

theorem tagged?_eq_some {depth : Nat} {json body : Json} {tag : String} :
    tagged? depth json = some (tag, body) ↔
      json.hasNormal depth = true ∧ Tagged tag json body := by
  unfold tagged?
  cases json.hasNormal depth with
  | false => simp
  | true =>
      simp only [Bool.not_true, Bool.false_eq_true, if_false, true_and]
      constructor
      · intro htagged
        split at htagged
        · split at htagged
          · next key found hfilter =>
              cases htagged
              exact .keyed key hfilter
          · cases htagged
        · cases htagged
          exact .listed _
        · cases htagged
      · rintro (⟨key, hfilter⟩ | ⟨items⟩)
        · simp [hfilter]
        · rfl

/-- A tag is found wherever it stands, and the body stays the same up to order. -/
theorem Tagged.reorder {tag : String} {json body other : Json} (h : Tagged tag json body)
    (horder : Reorder json other) : ∃ after, Tagged tag other after ∧ Reorder body after := by
  cases h with
  | @keyed members key htag =>
      cases horder with
      | members hperm =>
          have htags := hperm.filter (·.1 == some "type")
          rw [htag] at htags
          exact ⟨_, .keyed key (List.singleton_perm.mp htags).symm, .members (hperm.filter _)⟩
      | @member old new before after name hstep =>
          rw [List.filter_append, List.filter_cons] at htag ⊢
          by_cases hname : name = some "type"
          · -- The tag itself is a string, in which there is nothing to reorder.
            have hmember : (name, old) ∈ [(key, Json.string (some tag))] := by
              rw [← htag]
              simp [hname]
            obtain ⟨-, rfl⟩ := Prod.mk.inj (List.mem_singleton.mp hmember)
            cases hstep
          · refine ⟨_, .keyed key ?_, ?_⟩
            · simpa [List.filter_append, List.filter_cons, hname] using htag
            · simpa [List.filter_append, List.filter_cons, hname] using
                Reorder.member _ _ name hstep
  | listed items =>
      generalize hlist : Json.string (some tag) :: items = list at horder
      cases horder with
      | @item old new before after hstep =>
          cases before with
          | nil =>
              obtain ⟨rfl, -⟩ := List.cons.inj hlist
              cases hstep
          | cons first before =>
              obtain ⟨rfl, rfl⟩ := List.cons.inj hlist
              exact ⟨_, .listed _, .item before after hstep⟩

/-- Alternatives told apart by a tag read what the record of the tag reads. -/
theorem Reads.tagged {Valid : α → Prop} {record? : String → Option (Record α)}
    (h : ∀ tag record, record? tag = some record → record.Reads Valid) (depth : Nat) :
    Reads Valid fun json =>
      match tagged? depth json with
      | some (tag, body) => (record? tag).bind (·.read body)
      | none => none := by
  intro json value hdecode
  cases htagged : tagged? depth json with
  | none => simp [htagged] at hdecode
  | some result =>
      obtain ⟨tag, body⟩ := result
      simp only [htagged] at hdecode
      obtain ⟨record, hrecord, hread⟩ := Option.bind_eq_some_iff.mp hdecode
      refine ⟨((h tag record hrecord).read hread).1, fun other horder => ?_⟩
      obtain ⟨hnormal, htag⟩ := tagged?_eq_some.mp htagged
      obtain ⟨after, hafter, hbody⟩ := htag.reorder horder
      have hother := tagged?_eq_some.mpr ⟨horder.hasNormal_eq depth ▸ hnormal, hafter⟩
      simp [hother, hrecord, ((h tag record hrecord).read hread).2 hbody]

end Clausal.Wire
