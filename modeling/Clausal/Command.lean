import Clausal.Command.Help
import Clausal.Command.Options
import Clausal.Service

/-!
The command line. A request is read from the words of the command line, names
the state it needs, if any, and is answered once that state has been read. Every
command answers with one line of JSON, or with the kind and message of an error.
-/

namespace Clausal

inductive Command where
  | calculi
  | parse (calculus formula : String) (options : Option String)
  | move (calculus state content : String)
  | close (calculus state : String)
  deriving DecidableEq

namespace Command

/-- What a command line asks for. -/
inductive Request where
  | run (command : Command)
  | help (topic : Topic)
  | version
  | misuse
  deriving DecidableEq

structure Outcome where
  code : Nat
  stdout : String
  stderr : String
  deriving DecidableEq

def calculusOption : Spec := ⟨"calculus", true⟩

def formulaOption : Spec := ⟨"formula", true⟩

def paramsOption : Spec := ⟨"params", true⟩

def moveOption : Spec := ⟨"move", true⟩

/-- The name of the state to read. -/
def stateOption : Spec := ⟨"state", false⟩

def Request.ofParsed (topic : Topic) (build : Values → Option Command) :
    Parsed → Request
  | .values given =>
      match build given with
      | some command => .run command
      | none => .misuse
  | .help => .help topic
  | .misuse => .misuse

/-- Standard input, unless a state is named. -/
def stateName (given : Values) : String := (given.lookup stateOption.name).getD "-"

def buildParse (given : Values) : Option Command :=
  match given.lookup calculusOption.name, given.lookup formulaOption.name with
  | some calculus, some formula =>
      some (.parse calculus formula (given.lookup paramsOption.name))
  | _, _ => none

def buildMove (given : Values) : Option Command :=
  match given.lookup calculusOption.name, given.lookup moveOption.name with
  | some calculus, some content => some (.move calculus (stateName given) content)
  | _, _ => none

def buildClose (given : Values) : Option Command :=
  (given.lookup calculusOption.name).map fun calculus => .close calculus (stateName given)

def helpRequest : List String → Request
  | [] => .help .overview
  | [name] =>
      match Topic.named.lookup name with
      | some topic => .help topic
      | none => .misuse
  | _ => .misuse

/-- The request that the words of a command line make. -/
def Request.ofWords : List String → Request
  | [] => .misuse
  | "calculi" :: rest => .ofParsed .calculi (fun _ => some .calculi) (parseOptions [] [] rest)
  | "parse" :: rest =>
      .ofParsed .parse buildParse
        (parseOptions [calculusOption, formulaOption, paramsOption] [] rest)
  | "move" :: rest =>
      .ofParsed .move buildMove (parseOptions [calculusOption, stateOption, moveOption] [] rest)
  | "close" :: rest =>
      .ofParsed .close buildClose (parseOptions [calculusOption, stateOption] [] rest)
  | "help" :: rest => helpRequest rest
  | "--version" :: _ => .version
  | "--help" :: _ => .help .overview
  | word :: _ =>
      if word.startsWith "-V" then .version
      else if word.startsWith "-h" then .help .overview
      else .misuse

/-- The name of the state that the request needs. -/
def Request.source? : Request → Option String
  | .run (.move _ state _) => some state
  | .run (.close _ state) => some state
  | _ => none

def Outcome.ofAnswer : Except Error String → Outcome
  | .ok line => ⟨0, line ++ "\n", ""⟩
  | .error error => ⟨1, "", error.kind ++ ": " ++ error.message ++ "\n"⟩

/-- The text of a named state; a single dash stands for standard input. -/
def readState (files : Files) (stdin name : String) : Except Files.Fault String :=
  if name = "-" then .ok stdin else files.read name

/-- Runs a command on the state it needs, or on the reason why that cannot be
read. -/
def run (input : Except Files.Fault String) : Command → Except Error String
  | .calculi => .ok (Json.array (ProofSystem.names.map .ofString)).render
  | .parse calculus formula options => Service.standard.parse calculus formula options
  | .move calculus name content =>
      match input with
      | .error fault => .error (.misuse (.unreadableState name fault))
      | .ok state => Service.applyMove calculus state content
  | .close calculus name =>
      match input with
      | .error fault => .error (.misuse (.unreadableState name fault))
      | .ok state => Service.checkClose calculus state

def Request.answer (input : Except Files.Fault String) : Request → Outcome
  | .run command => .ofAnswer (command.run input)
  | .help topic => ⟨0, topic.page, ""⟩
  | .version => ⟨0, "kalkulus 0.1.0\n", ""⟩
  | .misuse => ⟨2, "", ""⟩

/-- What the words of a command line come to, with these files and this text on
standard input. -/
def execute (files : Files) (stdin : String) (words : List String) : Outcome :=
  let request := Request.ofWords words
  request.answer ((request.source?.map (readState files stdin)).getD (.ok ""))

end Command

end Clausal
