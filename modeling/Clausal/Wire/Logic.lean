import Clausal.ClauseSet
import Clausal.Wire.Record

/-!
Wire forms of literals, clauses and clause sets. Reading a clause or a clause
set drops what is repeated, so that what was read is a clause or clause set
again.
-/

namespace Clausal

namespace Literal

def encode (literal : Literal) : Json :=
  .record [("lit", .ofString literal.name), ("negated", .bool literal.negated)]

def record : Wire.Record Literal := do
  let name ← .required "lit" Wire.string?
  let negated ← .required "negated" Wire.bool?
  return ⟨name, negated⟩

instance : Wire Literal := ⟨encode, record.read⟩

end Literal

namespace Clause

def encode (clause : Clause) : Json :=
  .record [("atoms", .array (clause.literals.map Literal.encode))]

def record : Wire.Record Clause := do
  let literals ← .required "atoms" (Wire.list? Literal.record.read)
  return .ofList literals

instance : Wire Clause := ⟨encode, record.read⟩

end Clause

namespace ClauseSet

def encode (set : ClauseSet) : Json :=
  .record [("clauses", .array (set.clauses.map Clause.encode))]

def record : Wire.Record ClauseSet := do
  let clauses ← .required "clauses" (Wire.list? Clause.record.read)
  return .ofList clauses

instance : Wire ClauseSet := ⟨encode, record.read⟩

end ClauseSet

end Clausal
