import Clausal.Error
import Clausal.Formula
import Clausal.Json.Basic
import Clausal.Seal

/-!
What every proof calculus offers. A calculus says how a proof starts, what a
move does and when a proof is closed. Around these a protocol holds for all of
them: every state that is handed out carries its seal, and no state is accepted
unless its seal is right and its structure is sound.
-/

namespace Clausal

/-- Whether a proof is closed, and what to tell the player. -/
structure Verdict where
  closed : Bool
  message : String
  deriving DecidableEq

/-- The result of a closed proof. -/
structure Summary where
  formula : String
  score : Int
  details : Json

/-- A calculus with states `σ`, moves `μ` and options `π`. -/
class Calculus (σ : Type) (μ π : outParam Type) where
  defaults : π
  start : ClauseSet → String → π → σ
  /-- The description that the seal covers. -/
  basis : σ → String
  stamp : σ → String
  withStamp : σ → String → σ
  /-- What is wrong with a state whose seal is right. -/
  defect? : σ → Option Tampering
  step : σ → μ → Except IllegalMove σ
  verdict : σ → Verdict
  summary? : σ → Option Summary

namespace Calculus

variable {σ μ π : Type} [Calculus σ μ π]

def reseal (state : σ) : σ := withStamp state (Seal.ofBasis (basis state))

def isSealed (state : σ) : Bool := stamp state == Seal.ofBasis (basis state)

/-- The first state for a formula, without a seal. -/
def openFormula (alphabet : Alphabet) (formula : String) (options : π) : Except Error σ :=
  match Formula.parse alphabet formula with
  | .error fault => .error (.formula fault)
  | .ok clauses => .ok (start clauses formula options)

def checkStructure (state : σ) : Except Error Unit :=
  match defect? state with
  | some cause => .error (.tampered cause)
  | none => .ok ()

/-- Accepts a state with the right seal and a sound structure. -/
def accept (state : σ) : Except Error Unit :=
  if isSealed state then checkStructure state else .error (.tampered .brokenSeal)

/-- The sealed first state for a formula. -/
def parse (alphabet : Alphabet) (formula : String) (options : π) : Except Error σ :=
  (openFormula alphabet formula options).map reseal

/-- The sealed state after a move. -/
def applyMove (state : σ) (move : μ) : Except Error σ :=
  match accept state with
  | .error error => .error error
  | .ok () =>
      match step state move with
      | .error cause => .error (.illegal cause)
      | .ok next => .ok (reseal next)

def checkClose (state : σ) : Except Error Verdict :=
  (accept state).map fun () => verdict state

/-- The summary of an accepted state, if its proof is closed. -/
def checkSummary (state : σ) : Except Error (Option Summary) :=
  (checkClose state).map fun result => if result.closed then summary? state else none

end Calculus

end Clausal
