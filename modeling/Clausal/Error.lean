import Clausal.Files
import Clausal.Formula
import Clausal.Tableau.Structure

/-!
Why a request is refused. Every refusal has a kind that programs can test and a
message for the reader that starts with the kind in words.
-/

namespace Clausal

inductive Tampering where
  | brokenSeal
  | malformedTree (defect : Tableau.Defect)
  deriving DecidableEq

inductive IllegalMove where
  | unknownNode (node : Nat)
  | unknownClause (clause : Nat)
  | notLeaf (node : Nat)
  | closedLeaf (node : Nat)
  | unconnectedNode (node : Nat)
  | repeatedLiteral (literal : Literal)
  | unconnectedClause (clause : Clause) (leaf : Nat)
  | rootTarget
  | notAncestor (node leaf : Nat)
  | notComplementary (leaf node : Nat)
  | undoDisabled
  | nothingToUndo
  | laterExpansion
  | undoInHistory
  | sameClause
  | noOppositeLiteral (name : String)
  | noComplementaryLiterals
  deriving DecidableEq

inductive Misuse where
  | undecodable
  | unknownCalculus (name : String)
  | unreadableState (path : String) (fault : Files.Fault)
  deriving DecidableEq

inductive Error where
  | formula (fault : Formula.Fault)
  | tampered (cause : Tampering)
  | illegal (cause : IllegalMove)
  | misuse (cause : Misuse)
  deriving DecidableEq

def Tampering.message : Tampering → String
  | .brokenSeal => "the state seal does not match its content"
  | .malformedTree defect => "malformed proof tree: " ++ defect.message

def IllegalMove.message : IllegalMove → String
  | .unknownNode node => "Node with ID " ++ toString node ++ " does not exist"
  | .unknownClause clause => "Clause with ID " ++ toString clause ++ " does not exist"
  | .notLeaf node => "Node " ++ toString node ++ " is not a leaf"
  | .closedLeaf node => "Leaf " ++ toString node ++ " is already closed"
  | .unconnectedNode node =>
      "Node " ++ toString node ++ " has no child closed against it, " ++
        "strong connectedness requires closing it before expanding further"
  | .repeatedLiteral literal =>
      "Expanding this clause would introduce a duplicate node '" ++ literal.text ++
        "' on the branch, violating regularity"
  | .unconnectedClause clause leaf =>
      "Expanding clause " ++ clause.text ++ " would violate connectedness: " ++
        "no literal is complementary to leaf " ++ toString leaf
  | .rootTarget => "The root node cannot be used for branch closure"
  | .notAncestor node leaf =>
      "Node " ++ toString node ++ " is not an ancestor of leaf " ++ toString leaf
  | .notComplementary leaf node =>
      "Leaf " ++ toString leaf ++ " and node " ++ toString node ++ " are not complementary"
  | .undoDisabled => "Backtracking is not enabled for this proof"
  | .nothingToUndo => "There is no move to undo"
  | .laterExpansion => "The expansion to undo is not the most recent one"
  | .undoInHistory => "Move history contains an undo"
  | .sameClause => "Both IDs refer to the same clause"
  | .noOppositeLiteral name =>
      "Clauses do not contain literal '" ++ name ++ "' with opposite polarity"
  | .noComplementaryLiterals => "Clauses contain no complementary literals"

def Misuse.message : Misuse → String
  | .undecodable => "could not decode JSON input"
  | .unknownCalculus name => "Unknown calculus '" ++ name ++ "'"
  | .unreadableState path fault =>
      "could not read state from " ++ path ++ ": " ++ fault.message

namespace Error

def kind : Error → String
  | .formula _ => "InvalidFormulaFormat"
  | .tampered _ => "TamperedState"
  | .illegal _ => "IllegalMove"
  | .misuse _ => "ApiMisuse"

def message : Error → String
  | .formula fault => "Invalid formula format: " ++ fault.message
  | .tampered cause => "Tampered state: " ++ cause.message
  | .illegal cause => "Illegal move: " ++ cause.message
  | .misuse cause => "API misuse: " ++ cause.message

end Error

end Clausal
