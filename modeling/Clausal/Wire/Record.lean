import Clausal.Wire.Value

/-!
Reading JSON values into records. The fields of a record come either from the
members of an object, in any order and beside members that are nobody's field,
or from the items of an array, in the order in which the record declares them.
A field that is given twice, or an item too many, spoils the record.
-/

namespace Clausal.Wire

variable {α : Type}

/-- Where the fields of a record come from. -/
inductive Source where
  | keyed (members : List (String × Json))
  | listed (items : List Json)

namespace Source

/-- The members of an object, if every key denotes a string. -/
def membersOf? : List (Option String × Json) → Option (List (String × Json))
  | [] => some []
  | (none, _) :: _ => none
  | (some key, value) :: rest => (membersOf? rest).map ((key, value) :: ·)

def ofJson? : Json → Option Source
  | .object members => (membersOf? members).map .keyed
  | .array items => some (.listed items)
  | _ => none

/-- Whether nothing is left over: of the items of an array none may be. -/
def isSpent : Source → Bool
  | .keyed _ => true
  | .listed items => items.isEmpty

end Source

/-- A reader of fields, which uses up the items of an array one by one. -/
abbrev Record := StateT Source Option

namespace Record

/-- The value of the next field, which is missing if the object has no such
member or the array no further item. -/
def field? (name : String) : Record (Option Json) := fun source =>
  match source with
  | .keyed members =>
      match members.filter fun (key, _) => key == name with
      | [] => some (none, source)
      | [(_, value)] => some (some value, source)
      | _ => none
  | .listed [] => some (none, source)
  | .listed (item :: rest) => some (some item, .listed rest)

/-- A field that must be there. -/
def required (name : String) (decode : Json → Option α) : Record α := fun source =>
  match field? name source with
  | some (some value, rest) => (decode value).map (·, rest)
  | _ => none

/-- A field that may be missing, and then has the default. -/
def defaulted (name : String) (default : α) (decode : Json → Option α) : Record α :=
  fun source =>
    match field? name source with
    | some (some value, rest) => (decode value).map (·, rest)
    | some (none, rest) => some (default, rest)
    | none => none

/-- A field that may be null. In an object it may also be missing. -/
def nullable (name : String) (decode : Json → Option α) : Record (Option α) :=
  fun source =>
    match field? name source with
    | some (some value, rest) => (option? decode value).map (·, rest)
    | some (none, .keyed members) => some (none, .keyed members)
    | _ => none

/-- Reads a record from a value. -/
def read (record : Record α) (json : Json) : Option α :=
  match (Source.ofJson? json).bind record with
  | some (value, rest) => if rest.isSpent then some value else none
  | none => none

end Record

end Clausal.Wire
