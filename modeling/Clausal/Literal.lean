/-!
Literals of propositional logic. A literal is a name with a polarity, and two
literals complement each other when they share the name and differ in polarity.
-/

namespace Clausal

structure Literal where
  name : String
  negated : Bool
  deriving DecidableEq

namespace Literal

def positive (name : String) : Literal := ⟨name, false⟩

def negative (name : String) : Literal := ⟨name, true⟩

def complement (literal : Literal) : Literal :=
  { literal with negated := !literal.negated }

/-- Whether the two literals contradict each other. -/
def complements (first second : Literal) : Bool :=
  first.name == second.name && first.negated != second.negated

/-- The name, behind an exclamation mark when the literal is negated. -/
def text (literal : Literal) : String :=
  if literal.negated then "!" ++ literal.name else literal.name

@[simp] theorem complement_complement (literal : Literal) :
    literal.complement.complement = literal := by
  simp [complement]

@[simp] theorem name_complement (literal : Literal) :
    literal.complement.name = literal.name := rfl

theorem complement_ne (literal : Literal) : literal.complement ≠ literal := by
  intro heq
  have hflag := congrArg Literal.negated heq
  simp [complement] at hflag

theorem complements_iff {first second : Literal} :
    first.complements second = true ↔ second = first.complement := by
  obtain ⟨name, negated⟩ := first
  obtain ⟨otherName, otherNegated⟩ := second
  cases negated <;> cases otherNegated <;> simp [complements, complement, @eq_comm _ otherName name]

theorem eq_or_eq_complement {first second : Literal} (hname : first.name = second.name) :
    first = second ∨ first = second.complement := by
  obtain ⟨name, negated⟩ := first
  obtain ⟨other, polarity⟩ := second
  cases hname
  cases negated <;> cases polarity <;> simp [complement]

end Literal

end Clausal
