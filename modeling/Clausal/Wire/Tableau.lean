import Clausal.Tableau.State
import Clausal.Wire.Logic

/-!
Wire forms of the tableau calculus.
-/

namespace Clausal.Tableau

namespace Connectedness

def encode (connectedness : Connectedness) : Json := .ofString connectedness.name

def decode (json : Json) : Option Connectedness := Wire.choice? all name json

end Connectedness

namespace Rules

/-- Every rule may be left out. -/
def record : Wire.Record Rules := do
  let connectedness ← .defaulted "type" Rules.free.connectedness Connectedness.decode
  let regular ← .defaulted "regular" Rules.free.regular Wire.bool?
  let backtracking ← .defaulted "backtracking" Rules.free.backtracking Wire.bool?
  return { connectedness, regular, backtracking }

def encode (rules : Rules) : Json :=
  .record
    [("type", rules.connectedness.encode), ("regular", .bool rules.regular),
      ("backtracking", .bool rules.backtracking)]

instance : Wire Rules := ⟨encode, record.read⟩

end Rules

namespace Node

def encode (node : Node) : Json :=
  .record
    [("parent", .ofOption .ofNat node.parent), ("spelling", .ofString node.literal.name),
      ("negated", .bool node.literal.negated), ("is_closed", .bool node.closed),
      ("close_ref", .ofOption .ofNat node.target),
      ("children", .array (node.children.map .ofNat))]

def record : Wire.Record Node := do
  let parent ← .nullable "parent" Wire.natural?
  let name ← .required "spelling" Wire.string?
  let negated ← .required "negated" Wire.bool?
  let closed ← .required "is_closed" Wire.bool?
  let target ← .nullable "close_ref" Wire.natural?
  let children ← .required "children" (Wire.list? Wire.natural?)
  return { parent, literal := ⟨name, negated⟩, closed, target, children }

instance : Wire Node := ⟨encode, record.read⟩

end Node

namespace Move

def encode : Move → Json
  | .expand leaf clause =>
      .record [("type", .ofString "Expand"), ("leaf", .ofNat leaf), ("clause", .ofNat clause)]
  | .close leaf node =>
      .record [("type", .ofString "Close"), ("leaf", .ofNat leaf), ("node", .ofNat node)]
  | .undo => .record [("type", .ofString "Undo")]

def expandRecord : Wire.Record Move := do
  let leaf ← .required "leaf" Wire.natural?
  let clause ← .required "clause" Wire.natural?
  return .expand leaf clause

def closeRecord : Wire.Record Move := do
  let leaf ← .required "leaf" Wire.natural?
  let node ← .required "node" Wire.natural?
  return .close leaf node

def undoRecord : Wire.Record Move := return .undo

def record? : String → Option (Wire.Record Move)
  | "Expand" => some expandRecord
  | "Close" => some closeRecord
  | "Undo" => some undoRecord
  | _ => none

/-- Reads a move nested at most `depth` deep. -/
def decode (depth : Nat) (json : Json) : Option Move :=
  match Wire.tagged? depth json with
  | some (tag, body) => (record? tag).bind (·.read body)
  | none => none

instance : Wire Move := ⟨encode, decode Json.depthLimit⟩

end Move

namespace State

def encode (state : State) : Json :=
  .record
    [("clause_set", state.clauses.encode), ("formula", .ofString state.formula),
      ("type", state.rules.connectedness.encode), ("regular", .bool state.rules.regular),
      ("backtracking", .bool state.rules.backtracking),
      ("nodes", .array (state.tree.nodes.map Node.encode)),
      ("move_history", .array (state.history.map Move.encode)),
      ("used_backtracking", .bool state.usedUndo), ("seal", .ofString state.stamp)]

/-- The moves of the history stand two levels inside the state. -/
def record : Wire.Record State := do
  let clauses ← .required "clause_set" ClauseSet.record.read
  let formula ← .required "formula" Wire.string?
  let connectedness ← .required "type" Connectedness.decode
  let regular ← .required "regular" Wire.bool?
  let backtracking ← .required "backtracking" Wire.bool?
  let nodes ← .required "nodes" (Wire.list? Node.record.read)
  let history ← .required "move_history" (Wire.list? (Move.decode (Json.depthLimit - 2)))
  let usedUndo ← .required "used_backtracking" Wire.bool?
  let stamp ← .defaulted "seal" "" Wire.string?
  return {
    clauses, formula, rules := { connectedness, regular, backtracking }, tree := ⟨nodes⟩,
    history, usedUndo, stamp }

instance : Wire State := ⟨encode, record.read⟩

end State

end Clausal.Tableau
