import Clausal.Clause

/-!
Clause sets: conjunctions of clauses in the order in which they were first
added. A clause that is the same as an earlier one is not added again, so the
index of a clause identifies it.
-/

namespace Clausal

structure ClauseSet where
  clauses : List Clause
  deriving DecidableEq

namespace ClauseSet

def empty : ClauseSet := ⟨[]⟩

def size (set : ClauseSet) : Nat := set.clauses.length

def isEmpty (set : ClauseSet) : Bool := set.clauses.isEmpty

def get? (set : ClauseSet) (index : Nat) : Option Clause := set.clauses[index]?

/-- The index of the clause of the set that is the same as the given one. -/
def indexOf? (set : ClauseSet) (clause : Clause) : Option Nat :=
  set.clauses.findIdx? (·.same clause)

def contains (set : ClauseSet) (clause : Clause) : Bool := set.clauses.any (·.same clause)

/-- Adds the clause at the end unless the set has it, and says whether it was
new. -/
def add (set : ClauseSet) (clause : Clause) : Bool × ClauseSet :=
  if set.contains clause then (false, set) else (true, ⟨set.clauses ++ [clause]⟩)

def insert (set : ClauseSet) (clause : Clause) : ClauseSet := (set.add clause).2

def insertAll (set : ClauseSet) (clauses : List Clause) : ClauseSet :=
  clauses.foldl insert set

/-- The set of these clauses; of clauses that are the same the first one stays. -/
def ofList (clauses : List Clause) : ClauseSet := empty.insertAll clauses

/-- Takes out the clause at the index; the clauses behind it move up by one. -/
def remove? (set : ClauseSet) (index : Nat) : Option (Clause × ClauseSet) :=
  (set.get? index).map fun clause => (clause, ⟨set.clauses.eraseIdx index⟩)

def hasEmptyClause (set : ClauseSet) : Bool := set.clauses.any Clause.isEmpty

/-- Equality as sets of clauses. -/
def same (first second : ClauseSet) : Bool :=
  first.size == second.size && first.clauses.all second.contains

def text (set : ClauseSet) : String := ", ".intercalate (set.clauses.map Clause.text)

end ClauseSet

end Clausal
