/-!
Command line options. An option is written as `--name value` or `--name=value`,
at most once and in any order. A value of its own must not look like an option,
unless it is a single dash. Nothing but options may follow a command, and the
first fault or request for help ends the reading.
-/

namespace Clausal.Command

/-- An option that a command knows. -/
structure Spec where
  name : String
  mayBeEmpty : Bool
  deriving DecidableEq

/-- The values of the options given so far. -/
abbrev Values := List (String × String)

/-- What the words behind a command come to. -/
inductive Parsed where
  | values (given : Values)
  | help
  | misuse
  deriving DecidableEq

/-- Whether a word can be the value of the option in front of it. -/
def isValue (word : String) : Bool := word == "-" || !word.startsWith "-"

/-- Splits `--name=value` at the first equals sign. -/
def splitOption (word : String) : String × Option String :=
  let body := word.toList.drop 2
  let name := String.ofList (body.takeWhile (· ≠ '='))
  match body.dropWhile (· ≠ '=') with
  | [] => (name, none)
  | _ :: value => (name, some (String.ofList value))

/-- Adds the value of an option that is known and was not given before. -/
def addValue? (known : List Spec) (given : Values) (name value : String) : Option Values :=
  match known.find? (·.name == name) with
  | none => none
  | some spec =>
      if (given.lookup name).isSome || value.isEmpty && !spec.mayBeEmpty then none
      else some (given ++ [(name, value)])

def parseOptions (known : List Spec) (given : Values) : List String → Parsed
  | [] => .values given
  | word :: rest =>
      if word == "--" then if rest.isEmpty then .values given else .misuse
      else if word.startsWith "--" then
        match splitOption word with
        | ("help", none) => .help
        | (name, some value) =>
            match addValue? known given name value with
            | some given => parseOptions known given rest
            | none => .misuse
        | (name, none) =>
            match rest with
            | [] => .misuse
            | value :: rest =>
                if !isValue value then .misuse
                else
                  match addValue? known given name value with
                  | some given => parseOptions known given rest
                  | none => .misuse
      else if word.startsWith "-h" then .help
      else .misuse

end Clausal.Command
