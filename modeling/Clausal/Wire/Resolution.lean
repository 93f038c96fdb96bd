import Clausal.Resolution.Calculus
import Clausal.Wire.Logic

/-!
Wire forms of the resolution calculus.
-/

namespace Clausal.Resolution

namespace VisualHelp

def encode (help : VisualHelp) : Json := .ofString help.name

def decode (json : Json) : Option VisualHelp := Wire.choice? all name json

end VisualHelp

namespace Options

def record : Wire.Record Options := do
  let visualHelp ← .defaulted "visual_help" VisualHelp.off VisualHelp.decode
  return { visualHelp }

def encode (options : Options) : Json := .record [("visual_help", options.visualHelp.encode)]

instance : Wire Options := ⟨encode, record.read⟩

end Options

namespace Move

def encode : Move → Json
  | .resolve first second name =>
      .record
        [("type", .ofString "Resolve"), ("c1", .ofNat first), ("c2", .ofNat second),
          ("literal", .ofOption .ofString name)]
  | .hide clause => .record [("type", .ofString "Hide"), ("c1", .ofNat clause)]
  | .unhide => .record [("type", .ofString "Show")]

def resolveRecord : Wire.Record Move := do
  let first ← .required "c1" Wire.natural?
  let second ← .required "c2" Wire.natural?
  let name ← .defaulted "literal" none (Wire.option? Wire.string?)
  return .resolve first second name

def hideRecord : Wire.Record Move := do
  let clause ← .required "c1" Wire.natural?
  return .hide clause

def unhideRecord : Wire.Record Move := return .unhide

def record? : String → Option (Wire.Record Move)
  | "Resolve" => some resolveRecord
  | "Hide" => some hideRecord
  | "Show" => some unhideRecord
  | _ => none

/-- Reads a move nested at most `depth` deep. -/
def decode (depth : Nat) (json : Json) : Option Move :=
  match Wire.tagged? depth json with
  | some (tag, body) => (record? tag).bind (·.read body)
  | none => none

instance : Wire Move := ⟨encode, decode Json.depthLimit⟩

end Move

namespace State

def encode (state : State) : Json :=
  .record
    [("formula", .ofString state.formula), ("clause_set", state.clauses.encode),
      ("hidden_clauses", state.hidden.encode), ("visual_help", state.visualHelp.encode),
      ("newest_node", .ofOption .ofNat state.newest), ("seal", .ofString state.stamp)]

def record : Wire.Record State := do
  let formula ← .required "formula" Wire.string?
  let clauses ← .required "clause_set" ClauseSet.record.read
  let hidden ← .required "hidden_clauses" ClauseSet.record.read
  let visualHelp ← .required "visual_help" VisualHelp.decode
  let newest ← .nullable "newest_node" Wire.natural?
  let stamp ← .defaulted "seal" "" Wire.string?
  return { formula, clauses, hidden, visualHelp, newest, stamp }

instance : Wire State := ⟨encode, record.read⟩

end State

end Clausal.Resolution
