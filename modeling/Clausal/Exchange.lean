import Clausal.Calculus
import Clausal.Wire.Outcome

/-!
The protocol of a calculus over text: options, states and moves come as JSON
text, and so do the answers. Whatever is to be decoded is decoded before
anything else is looked at.
-/

namespace Clausal.Exchange

variable (σ : Type) {μ π : Type} [Calculus σ μ π] [Wire σ]

def decode (α : Type) [Wire α] (text : String) : Except Error α :=
  match (Wire.read text : Option α) with
  | some value => .ok value
  | none => .error (.misuse .undecodable)

def decodeOptions [Wire π] : Option String → Except Error π
  | none => .ok (Calculus.defaults σ)
  | some text => decode π text

def parse [Wire π] (alphabet : Alphabet) (formula : String) (options : Option String) :
    Except Error String := do
  let options ← decodeOptions σ options
  let state : σ ← Calculus.parse alphabet formula options
  return Wire.write state

def applyMove [Wire μ] (state move : String) : Except Error String := do
  let state ← decode σ state
  let move ← decode μ move
  let next ← Calculus.applyMove state move
  return Wire.write next

def checkClose (state : String) : Except Error String := do
  let state ← decode σ state
  let verdict ← Calculus.checkClose state
  return Wire.write verdict

def summary (state : String) : Except Error (Option Summary) := do
  let state ← decode σ state
  Calculus.checkSummary state

end Clausal.Exchange
