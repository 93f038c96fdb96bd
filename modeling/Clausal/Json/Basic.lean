import Clausal.Json.Token

/-!
JSON values as they were written: members keep their order and may repeat a
key, numerals keep their spelling, and a string literal that denotes no string
is kept as a missing string. The text of a value has no blanks.
-/

namespace Clausal

inductive Json where
  | null
  | bool (value : Bool)
  | number (numeral : Json.Numeral)
  | string (value : Option String)
  | array (items : List Json)
  | object (members : List (Option String × Json))

namespace Json

def ofNat (value : Nat) : Json := .number (.ofNat value)

def ofInt (value : Int) : Json := .number (.ofInt value)

def ofString (value : String) : Json := .string (some value)

/-- An object with these keys, in this order. -/
def record (members : List (String × Json)) : Json :=
  .object (members.map fun (key, value) => (some key, value))

/-- The value of an object under this key, the first if there are several. -/
def member? (key : String) : Json → Option Json
  | .object members => members.lookup (some key)
  | _ => none

def ofOption {α : Type} (encode : α → Json) : Option α → Json
  | none => .null
  | some value => encode value

mutual

def tokens : Json → List Token
  | .null => [.null]
  | .bool value => [.bool value]
  | .number numeral => [.number numeral]
  | .string value => [.string value]
  | .array [] => [.openArray, .closeArray]
  | .array (item :: rest) => .openArray :: (item.tokens ++ tailTokens rest)
  | .object [] => [.openObject, .closeObject]
  | .object ((key, value) :: rest) =>
      .openObject :: .string key :: .colon :: (value.tokens ++ memberTokens rest)

/-- The tokens of an array behind an item. -/
def tailTokens : List Json → List Token
  | [] => [.closeArray]
  | item :: rest => .comma :: (item.tokens ++ tailTokens rest)

/-- The tokens of an object behind a member. -/
def memberTokens : List (Option String × Json) → List Token
  | [] => [.closeObject]
  | (key, value) :: rest =>
      .comma :: .string key :: .colon :: (value.tokens ++ memberTokens rest)

end

def render (json : Json) : String := String.ofList (json.tokens.flatMap Token.text)

end Json

end Clausal
