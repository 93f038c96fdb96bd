import Clausal.Json.Normal
import Clausal.Json.Reader

/-!
The wire form of a type, which is how its values are written as JSON and read back,
and the reading of values that are no records: flags, strings, numbers, lists, optional
values, and alternatives told apart by a name.
-/

namespace Clausal

class Wire (α : Type) where
  encode : α → Json
  decode : Json → Option α

namespace Wire

variable {α : Type}

def write [Wire α] (value : α) : String := (encode value).render

def read [Wire α] (text : String) : Option α := (Json.parse? text).bind decode

def bool? : Json → Option Bool
  | .bool value => some value
  | _ => none

def string? : Json → Option String
  | .string value => value
  | _ => none

/-- A whole number of 64 bits without sign. -/
def natural? : Json → Option Nat
  | .number numeral => numeral.unsigned?
  | _ => none

/-- A whole number of 64 bits with sign. -/
def integer? : Json → Option Int
  | .number numeral => numeral.signed?
  | _ => none

def list? (decode : Json → Option α) : Json → Option (List α)
  | .array items => items.mapM decode
  | _ => none

def option? (decode : Json → Option α) : Json → Option (Option α)
  | .null => some none
  | json => (decode json).map some

/-- One of several alternatives, by its name alone or as the only key of an
object with the value null. -/
def choice? (alternatives : List α) (name : α → String) : Json → Option α
  | .string (some text) => alternatives.find? (name · == text)
  | .object [(some text, .null)] => alternatives.find? (name · == text)
  | _ => none

/-- Splits a tagged value into its tag and the rest. The tag is the member
`type` of an object or the first item of an array. All of a tagged value is kept
until the tag is known, so it must have a normal form. -/
def tagged? (depth : Nat) (json : Json) : Option (String × Json) :=
  if !json.hasNormal depth then none
  else
    match json with
    | .object members =>
        match members.filter (·.1 == some "type") with
        | [(_, .string (some tag))] =>
            some (tag, .object (members.filter (·.1 != some "type")))
        | _ => none
    | .array (.string (some tag) :: items) => some (tag, .array items)
    | _ => none

end Wire

end Clausal
