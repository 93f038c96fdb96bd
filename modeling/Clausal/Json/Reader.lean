import Clausal.Json.Basic

/-!
Reading JSON text into values. The reader takes one token at a time and keeps
the arrays and objects it is inside of in a list of frames, so that nesting is
limited by nothing but the text.
-/

namespace Clausal.Json

/-- An array or object that is not complete; what it has so far comes last
first. -/
inductive Frame where
  | array (items : List Json)
  | object (members : List (Option String × Json)) (key : Option String)

inductive Reader where
  /-- A value must come. -/
  | atValue (frames : List Frame)
  /-- The first item of an array must come, or its end. -/
  | atFirstItem (frames : List Frame)
  /-- The first key of an object must come, or its end. -/
  | atFirstKey (frames : List Frame)
  /-- Another key of an object must come. -/
  | atKey (members : List (Option String × Json)) (frames : List Frame)
  /-- The colon behind a key must come. -/
  | atColon (members : List (Option String × Json)) (key : Option String)
      (frames : List Frame)
  /-- A value is complete. -/
  | complete (value : Json) (frames : List Frame)

namespace Reader

/-- Starts a value with the token. -/
def start (frames : List Frame) : Token → Option Reader
  | .null => some (.complete .null frames)
  | .bool value => some (.complete (.bool value) frames)
  | .number numeral => some (.complete (.number numeral) frames)
  | .string value => some (.complete (.string value) frames)
  | .openArray => some (.atFirstItem frames)
  | .openObject => some (.atFirstKey frames)
  | _ => none

/-- Goes on behind a complete value. -/
def resume (value : Json) : List Frame → Token → Option Reader
  | .array items :: frames, .comma => some (.atValue (.array (value :: items) :: frames))
  | .array items :: frames, .closeArray =>
      some (.complete (.array (value :: items).reverse) frames)
  | .object members key :: frames, .comma => some (.atKey ((key, value) :: members) frames)
  | .object members key :: frames, .closeObject =>
      some (.complete (.object ((key, value) :: members).reverse) frames)
  | _, _ => none

def step : Reader → Token → Option Reader
  | .atValue frames, token => start frames token
  | .atFirstItem frames, .closeArray => some (.complete (.array []) frames)
  | .atFirstItem frames, token => start (.array [] :: frames) token
  | .atFirstKey frames, .closeObject => some (.complete (.object []) frames)
  | .atFirstKey frames, .string key => some (.atColon [] key frames)
  | .atKey members frames, .string key => some (.atColon members key frames)
  | .atColon members key frames, .colon => some (.atValue (.object members key :: frames))
  | .complete value frames, token => resume value frames token
  | _, _ => none

/-- The value, if it is complete and nothing around it is open. -/
def finish? : Reader → Option Json
  | .complete value [] => some value
  | _ => none

end Reader

/-- The value that the tokens spell. -/
def ofTokens? (tokens : List Token) : Option Json :=
  (tokens.foldlM Reader.step (.atValue [])).bind Reader.finish?

/-- The value that the text spells. -/
def parse? (text : String) : Option Json :=
  (Token.scanAll text.toList).bind ofTokens?

mutual

theorem foldlM_tokens (json : Json) (frames : List Frame) (rest : List Token) :
    (json.tokens ++ rest).foldlM Reader.step (.atValue frames) =
      rest.foldlM Reader.step (.complete json frames) := by
  cases json with
  | null => simp [tokens, Reader.step, Reader.start]
  | bool value => simp [tokens, Reader.step, Reader.start]
  | number numeral => simp [tokens, Reader.step, Reader.start]
  | string value => simp [tokens, Reader.step, Reader.start]
  | array items =>
      cases items with
      | nil => simp [tokens, Reader.step, Reader.start]
      | cons item items =>
          have hitem := foldlM_tokens item (.array [] :: frames) (tailTokens items ++ rest)
          have htail := foldlM_tailTokens items item [] frames rest
          simp only [tokens, List.cons_append, List.append_assoc, List.foldlM_cons,
            Reader.step, Reader.start, Option.bind_eq_bind, Option.bind_some]
          rw [foldlM_firstItem, hitem, htail]
          simp
  | object members =>
      cases members with
      | nil => simp [tokens, Reader.step, Reader.start]
      | cons member members =>
          obtain ⟨key, value⟩ := member
          have hvalue := foldlM_tokens value (.object [] key :: frames)
            (memberTokens members ++ rest)
          have htail := foldlM_memberTokens members value [] key frames rest
          simp only [tokens, List.cons_append, List.append_assoc, List.foldlM_cons,
            Reader.step, Reader.start, Option.bind_eq_bind, Option.bind_some]
          rw [hvalue, htail]
          simp

theorem foldlM_firstItem (json : Json) (frames : List Frame) (rest : List Token) :
    (json.tokens ++ rest).foldlM Reader.step (.atFirstItem frames) =
      (json.tokens ++ rest).foldlM Reader.step (.atValue (.array [] :: frames)) := by
  cases json with
  | array items => cases items <;> simp [tokens, Reader.step, Reader.start]
  | object members => cases members <;> simp [tokens, Reader.step, Reader.start]
  | _ => simp [tokens, Reader.step, Reader.start]

theorem foldlM_tailTokens (items : List Json) (last : Json) (done : List Json)
    (frames : List Frame) (rest : List Token) :
    (tailTokens items ++ rest).foldlM Reader.step (.complete last (.array done :: frames)) =
      rest.foldlM Reader.step
        (.complete (.array ((last :: done).reverse ++ items)) frames) := by
  cases items with
  | nil => simp [tailTokens, Reader.step, Reader.resume]
  | cons item items =>
      have hitem := foldlM_tokens item (.array (last :: done) :: frames)
        (tailTokens items ++ rest)
      have htail := foldlM_tailTokens items item (last :: done) frames rest
      simp only [tailTokens, List.cons_append, List.append_assoc, List.foldlM_cons,
        Reader.step, Reader.resume, Option.bind_eq_bind, Option.bind_some]
      rw [hitem, htail]
      simp

theorem foldlM_memberTokens (members : List (Option String × Json)) (last : Json)
    (done : List (Option String × Json)) (key : Option String)
    (frames : List Frame) (rest : List Token) :
    (memberTokens members ++ rest).foldlM Reader.step
        (.complete last (.object done key :: frames)) =
      rest.foldlM Reader.step
        (.complete (.object (((key, last) :: done).reverse ++ members)) frames) := by
  cases members with
  | nil => simp [memberTokens, Reader.step, Reader.resume]
  | cons member members =>
      obtain ⟨next, value⟩ := member
      have hvalue := foldlM_tokens value (.object ((key, last) :: done) next :: frames)
        (memberTokens members ++ rest)
      have htail := foldlM_memberTokens members value ((key, last) :: done) next frames rest
      simp only [memberTokens, List.cons_append, List.append_assoc, List.foldlM_cons,
        Reader.step, Reader.resume, Option.bind_eq_bind, Option.bind_some]
      rw [hvalue, htail]
      simp

end

/-- The reader gives back every value from its tokens. -/
theorem ofTokens?_tokens (json : Json) : ofTokens? json.tokens = some json := by
  have hfold := foldlM_tokens json [] []
  rw [List.append_nil] at hfold
  simp [ofTokens?, hfold, Reader.finish?]

end Clausal.Json
