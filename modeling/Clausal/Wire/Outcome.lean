import Clausal.Calculus
import Clausal.Wire.Record

/-!
Wire forms of verdicts and summaries. The details of a summary are data of any
shape and are kept in normal form.
-/

namespace Clausal

namespace Verdict

def encode (verdict : Verdict) : Json :=
  .record [("closed", .bool verdict.closed), ("msg", .ofString verdict.message)]

def record : Wire.Record Verdict := do
  let closed ← .required "closed" Wire.bool?
  let message ← .required "msg" Wire.string?
  return { closed, message }

instance : Wire Verdict := ⟨encode, record.read⟩

end Verdict

namespace Summary

def encode (summary : Summary) : Json :=
  .record
    [("formula", .ofString summary.formula), ("score", .ofInt summary.score),
      ("blob", summary.details)]

/-- The details stand one level inside the summary. -/
def record : Wire.Record Summary := do
  let formula ← .required "formula" Wire.string?
  let score ← .required "score" Wire.integer?
  let details ← .required "blob" (Json.normal? (Json.depthLimit - 1))
  return { formula, score, details }

instance : Wire Summary := ⟨encode, record.read⟩

end Summary

end Clausal
