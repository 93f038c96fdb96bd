/-!
The texts that explain the command line.
-/

namespace Clausal.Command

inductive Topic where
  | overview
  | calculi
  | parse
  | move
  | close
  | help
  deriving DecidableEq

namespace Topic

/-- The commands with a page of their own, by name. -/
def named : List (String × Topic) :=
  [("calculi", .calculi), ("parse", .parse), ("move", .move), ("close", .close), ("help", .help)]

def about : Topic → String
  | .overview => "Drive interactive proof calculi over sealed JSON states"
  | .calculi => "List the available calculi"
  | .parse => "Parse a formula into a sealed initial state"
  | .move => "Apply a move to a sealed state"
  | .close => "Check whether a sealed state is a closed proof"
  | .help => "Print this message or the help of the given subcommand(s)"

def usage : Topic → String
  | .overview => "kalkulus <COMMAND>"
  | .calculi => "kalkulus calculi"
  | .parse => "kalkulus parse [OPTIONS] --calculus <CALCULUS> --formula <FORMULA>"
  | .move => "kalkulus move [OPTIONS] --calculus <CALCULUS> --move <MV>"
  | .close => "kalkulus close [OPTIONS] --calculus <CALCULUS>"
  | .help => "kalkulus help [COMMAND]..."

def options : Topic → List (String × String)
  | .overview => [("  -h, --help", "Print help"), ("  -V, --version", "Print version")]
  | .calculi => [("  -h, --help", "Print help")]
  | .parse =>
      [("      --calculus <CALCULUS>", ""),
        ("      --formula <FORMULA>", "Clause set, e.g. \"a,!b;b\""),
        ("      --params <PARAMS>", "Calculus options as JSON"), ("  -h, --help", "Print help")]
  | .move =>
      [("      --calculus <CALCULUS>", ""),
        ("      --state <STATE>", "State file, or \"-\" for stdin [default: -]"),
        ("      --move <MV>", "Move descriptor as JSON"), ("  -h, --help", "Print help")]
  | .close =>
      [("      --calculus <CALCULUS>", ""),
        ("      --state <STATE>", "State file, or \"-\" for stdin [default: -]"),
        ("  -h, --help", "Print help")]
  | .help => []

/-- Two columns, of which the first is as wide as its longest entry. -/
def columns (rows : List (String × String)) : String :=
  let width := (rows.map (·.1.length)).foldl max 0
  String.join (rows.map fun (left, right) =>
    left ++ String.ofList (List.replicate (width - left.length) ' ') ++ "  " ++ right ++ "\n")

def commands : List (String × String) :=
  named.map fun (name, topic) => ("  " ++ name, topic.about)

def arguments : Topic → List (String × String)
  | .help => [("  [COMMAND]...", "Print help for the subcommand(s)")]
  | _ => []

/-- A part of a page under its title, unless there is nothing to put there. -/
def titled (title : String) (rows : List (String × String)) : String :=
  if rows.isEmpty then "" else "\n" ++ title ++ ":\n" ++ columns rows

def page (topic : Topic) : String :=
  topic.about ++ "\n\nUsage: " ++ topic.usage ++ "\n" ++
    titled "Commands" (if topic = .overview then commands else []) ++
    titled "Arguments" topic.arguments ++ titled "Options" topic.options

end Topic

end Clausal.Command
