import Clausal.Calculus

/-!
Leaderboards collect the summaries of closed proofs and rank those of a formula
by their score. Proofs with the same score stay in the order in which they were
recorded. A keeper decides whether a summary is recorded; one that refuses
leaves the board as it was.
-/

namespace Clausal

structure Leaderboard where
  entries : List Summary

namespace Leaderboard

def empty : Leaderboard := ⟨[]⟩

abbrev Keeper := Leaderboard → Summary → Option Leaderboard

/-- Records every summary. -/
def keep : Keeper := fun board summary => some ⟨board.entries ++ [summary]⟩

/-- Records nothing. -/
def refuse : Keeper := fun _ _ => none

/-- Hands a summary to the keeper, and says whether it was recorded. -/
def record (keeper : Keeper) (board : Leaderboard) (summary : Summary) : Bool × Leaderboard :=
  match keeper board summary with
  | some next => (true, next)
  | none => (false, board)

/-- The details and scores recorded for a formula, best first. -/
def ranking (board : Leaderboard) (formula : String) : List (Json × Int) :=
  ((board.entries.filter (·.formula == formula)).map fun summary =>
    (summary.details, summary.score)).mergeSort fun first second => second.2 ≤ first.2

end Leaderboard

end Clausal
