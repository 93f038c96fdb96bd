import Clausal.Json.Numeral
import Clausal.Json.StringLiteral

/-!
Tokens of JSON text. Blanks separate tokens and mean nothing else; a text that
cannot be cut into tokens is not JSON.
-/

namespace Clausal.Json

inductive Token where
  | openArray
  | closeArray
  | openObject
  | closeObject
  | comma
  | colon
  | null
  | bool (value : Bool)
  | number (numeral : Numeral)
  | string (value : Option String)
  deriving DecidableEq

namespace Token

def isBlank (char : Char) : Bool :=
  char = ' ' || char = '\t' || char = '\n' || char = '\x0d'

def text : Token → List Char
  | .openArray => ['[']
  | .closeArray => [']']
  | .openObject => ['\x7b']
  | .closeObject => ['\x7d']
  | .comma => [',']
  | .colon => [':']
  | .null => ['n', 'u', 'l', 'l']
  | .bool true => ['t', 'r', 'u', 'e']
  | .bool false => ['f', 'a', 'l', 's', 'e']
  | .number numeral => numeral.text
  | .string value => stringText value

/-- Reads the token at the start of a text that starts with no blank. -/
def scan : List Char → Option (Token × List Char)
  | '[' :: rest => some (.openArray, rest)
  | ']' :: rest => some (.closeArray, rest)
  | '\x7b' :: rest => some (.openObject, rest)
  | '\x7d' :: rest => some (.closeObject, rest)
  | ',' :: rest => some (.comma, rest)
  | ':' :: rest => some (.colon, rest)
  | 'n' :: 'u' :: 'l' :: 'l' :: rest => some (.null, rest)
  | 't' :: 'r' :: 'u' :: 'e' :: rest => some (.bool true, rest)
  | 'f' :: 'a' :: 'l' :: 's' :: 'e' :: rest => some (.bool false, rest)
  | '\"' :: rest => (scanString rest).map fun (value, after) => (.string value, after)
  | text => (Numeral.scan text).map fun (numeral, after) => (.number numeral, after)

theorem length_scan_lt {text rest : List Char} {token : Token}
    (h : scan text = some (token, rest)) : rest.length < text.length := by
  unfold scan at h
  split at h
  case h_10 after =>
      obtain ⟨⟨value, last⟩, hstring, heq⟩ := Option.map_eq_some_iff.mp h
      have hlt := length_scanString_lt hstring
      simp only [Prod.mk.injEq] at heq
      rw [← heq.2, List.length_cons]
      omega
  case h_11 =>
      obtain ⟨⟨numeral, last⟩, hnumeral, heq⟩ := Option.map_eq_some_iff.mp h
      have hlt := Numeral.length_scan_lt hnumeral
      simp only [Prod.mk.injEq] at heq
      rw [← heq.2]
      exact hlt
  all_goals
    simp only [Option.some.injEq, Prod.mk.injEq] at h
    rw [← h.2]
    simp only [List.length_cons]
    omega

/-- All tokens of a text. -/
def scanAll : List Char → Option (List Token)
  | [] => some []
  | char :: rest =>
      if isBlank char then scanAll rest
      else
        match _h : scan (char :: rest) with
        | none => none
        | some (token, after) => (scanAll after).map (token :: ·)
termination_by text => text.length
decreasing_by
  · simp
  · exact length_scan_lt _h

end Token

end Clausal.Json
