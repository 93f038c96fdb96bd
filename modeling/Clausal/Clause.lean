import Clausal.Literal

/-!
Clauses. A clause keeps its literals in the order in which they were first
added and holds each of them once, so an index into it stays valid while it
grows. Two clauses count as the same when they hold the same literals, whatever
the order.
-/

namespace Clausal

structure Clause where
  literals : List Literal
  deriving DecidableEq

namespace Clause

def empty : Clause := ⟨[]⟩

def size (clause : Clause) : Nat := clause.literals.length

def isEmpty (clause : Clause) : Bool := clause.literals.isEmpty

instance : Membership Literal Clause := ⟨fun clause literal => literal ∈ clause.literals⟩

instance (literal : Literal) (clause : Clause) : Decidable (literal ∈ clause) :=
  inferInstanceAs (Decidable (literal ∈ clause.literals))

def get? (clause : Clause) (index : Nat) : Option Literal := clause.literals[index]?

/-- Adds the literal at the end unless the clause has it, and says whether it
was new. -/
def add (clause : Clause) (literal : Literal) : Bool × Clause :=
  if literal ∈ clause then (false, clause) else (true, ⟨clause.literals ++ [literal]⟩)

def insert (clause : Clause) (literal : Literal) : Clause := (clause.add literal).2

def insertAll (clause : Clause) (literals : List Literal) : Clause :=
  literals.foldl insert clause

/-- The clause of these literals; of a repeated literal the first one stays. -/
def ofList (literals : List Literal) : Clause := empty.insertAll literals

def erase (clause : Clause) (literal : Literal) : Clause :=
  ⟨clause.literals.filter (· ≠ literal)⟩

def union (first second : Clause) : Clause := first.insertAll second.literals

/-- A clause is a tautology when it holds a literal beside its complement. -/
def isTautology (clause : Clause) : Bool :=
  clause.literals.any fun literal => literal.complement ∈ clause

/-- Equality as sets of literals. -/
def same (first second : Clause) : Bool :=
  first.size == second.size && first.literals.all (· ∈ second)

def text (clause : Clause) : String :=
  "\x7b" ++ ", ".intercalate (clause.literals.map Literal.text) ++ "\x7d"

theorem mem_literals {clause : Clause} {literal : Literal} :
    literal ∈ clause.literals ↔ literal ∈ clause := Iff.rfl

theorem mem_insert {clause : Clause} {literal other : Literal} :
    other ∈ clause.insert literal ↔ other ∈ clause ∨ other = literal := by
  simp only [insert, add]
  split
  · next hold =>
      constructor
      · exact Or.inl
      · rintro (h | rfl)
        · exact h
        · exact hold
  · simp [← mem_literals]

theorem mem_insertAll {clause : Clause} {literals : List Literal} {other : Literal} :
    other ∈ clause.insertAll literals ↔ other ∈ clause ∨ other ∈ literals := by
  induction literals generalizing clause with
  | nil => simp [insertAll]
  | cons literal rest ih =>
      have hstep : clause.insertAll (literal :: rest) =
          (clause.insert literal).insertAll rest := rfl
      rw [hstep, ih, mem_insert, List.mem_cons, or_assoc]

theorem mem_ofList {literals : List Literal} {other : Literal} :
    other ∈ ofList literals ↔ other ∈ literals := by
  have hempty : ¬ other ∈ empty := List.not_mem_nil
  rw [ofList, mem_insertAll]
  simp [hempty]

theorem mem_erase {clause : Clause} {literal other : Literal} :
    other ∈ clause.erase literal ↔ other ∈ clause ∧ other ≠ literal := by
  simp [erase, ← mem_literals]

theorem mem_union {first second : Clause} {other : Literal} :
    other ∈ first.union second ↔ other ∈ first ∨ other ∈ second := by
  rw [union, mem_insertAll, mem_literals]

end Clause

end Clausal
