/-!
String literals of JSON text. A literal is first read into pieces, each a
character as it stands or a four-digit escape, and the pieces are then joined:
two escapes that form a surrogate pair give one character. A surrogate without
its partner denotes no character, so such a literal is well-formed text that
denotes no string.
-/

namespace Clausal.Json

inductive Piece where
  | plain (char : Char)
  | code (value : Nat)
  deriving DecidableEq

def hexValue (char : Char) : Option Nat :=
  if '0' ≤ char ∧ char ≤ '9' then some (char.toNat - '0'.toNat)
  else if 'a' ≤ char ∧ char ≤ 'f' then some (char.toNat - 'a'.toNat + 10)
  else if 'A' ≤ char ∧ char ≤ 'F' then some (char.toNat - 'A'.toNat + 10)
  else none

/-- The character behind a backslash, for the escapes of one letter. -/
def unescape : Char → Option Char
  | '\"' => some '\"'
  | '\\' => some '\\'
  | '/' => some '/'
  | 'b' => some '\x08'
  | 'f' => some '\x0c'
  | 'n' => some '\n'
  | 'r' => some '\x0d'
  | 't' => some '\t'
  | _ => none

/-- Reads the pieces of a literal behind its opening quote, up to and including
the closing one. -/
def scanPieces : List Char → Option (List Piece × List Char)
  | [] => none
  | '\"' :: rest => some ([], rest)
  | '\\' :: 'u' :: a :: b :: c :: d :: rest =>
      match hexValue a, hexValue b, hexValue c, hexValue d with
      | some a, some b, some c, some d =>
          (scanPieces rest).map fun (pieces, after) =>
            (.code (((a * 16 + b) * 16 + c) * 16 + d) :: pieces, after)
      | _, _, _, _ => none
  | '\\' :: mark :: rest =>
      match unescape mark with
      | some char => (scanPieces rest).map fun (pieces, after) => (.plain char :: pieces, after)
      | none => none
  | char :: rest =>
      if char.toNat < 0x20 then none
      else (scanPieces rest).map fun (pieces, after) => (.plain char :: pieces, after)

def isHighSurrogate (code : Nat) : Bool := 0xD800 ≤ code && code < 0xDC00

def isLowSurrogate (code : Nat) : Bool := 0xDC00 ≤ code && code < 0xE000

def surrogatePair (high low : Nat) : Char :=
  Char.ofNat (0x10000 + (high - 0xD800) * 0x400 + (low - 0xDC00))

/-- The characters that the pieces denote, unless a surrogate stands alone. -/
def joinPieces : List Piece → Option (List Char)
  | [] => some []
  | .plain char :: rest => (joinPieces rest).map (char :: ·)
  | .code high :: .code low :: rest =>
      if isHighSurrogate high && isLowSurrogate low then
        (joinPieces rest).map (surrogatePair high low :: ·)
      else if isHighSurrogate high || isLowSurrogate high then none
      else (joinPieces (.code low :: rest)).map (Char.ofNat high :: ·)
  | .code code :: rest =>
      if isHighSurrogate code || isLowSurrogate code then none
      else (joinPieces rest).map (Char.ofNat code :: ·)

/-- Reads a literal behind its opening quote. The string is missing when a
surrogate stands alone. -/
def scanString (text : List Char) : Option (Option String × List Char) :=
  (scanPieces text).map fun (pieces, rest) => ((joinPieces pieces).map String.ofList, rest)

def hexDigits (width : Nat) (value : Nat) : List Char :=
  let digits := Nat.toDigits 16 value
  List.replicate (width - digits.length) '0' ++ digits

/-- A character as it is written inside a literal: quotes, backslashes and
control characters are escaped, everything else stands as it is. -/
def escape (char : Char) : List Char :=
  if char = '\"' then ['\\', '\"']
  else if char = '\\' then ['\\', '\\']
  else if char = '\x08' then ['\\', 'b']
  else if char = '\x0c' then ['\\', 'f']
  else if char = '\n' then ['\\', 'n']
  else if char = '\x0d' then ['\\', 'r']
  else if char = '\t' then ['\\', 't']
  else if char.toNat < 0x20 then '\\' :: 'u' :: hexDigits 4 char.toNat
  else [char]

/-- The literal of a string. What denotes no string is written as a single
surrogate. -/
def stringText : Option String → List Char
  | some string => '\"' :: (string.toList.flatMap escape ++ ['\"'])
  | none => ['\"', '\\', 'u', 'd', '8', '0', '0', '\"']

theorem length_scanPieces_lt {text rest : List Char} {pieces : List Piece}
    (h : scanPieces text = some (pieces, rest)) : rest.length < text.length := by
  fun_induction scanPieces text generalizing pieces rest with
  | case1 => simp at h
  | case2 after =>
      simp only [Option.some.injEq, Prod.mk.injEq] at h
      simp [← h.2]
  | case3 a b c d after va vb vc vd ha hb hc hd ih =>
      obtain ⟨⟨inner, last⟩, hinner, heq⟩ := Option.map_eq_some_iff.mp h
      have hlt := ih hinner
      simp only [Prod.mk.injEq] at heq
      rw [← heq.2]
      simp only [List.length_cons]
      omega
  | case4 => simp at h
  | case5 mark after hother char hchar ih =>
      obtain ⟨⟨inner, last⟩, hinner, heq⟩ := Option.map_eq_some_iff.mp h
      have hlt := ih hinner
      simp only [Prod.mk.injEq] at heq
      rw [← heq.2]
      simp only [List.length_cons]
      omega
  | case6 => simp at h
  | case7 => simp at h
  | case8 char after _ _ _ hplain ih =>
      obtain ⟨⟨inner, last⟩, hinner, heq⟩ := Option.map_eq_some_iff.mp h
      have hlt := ih hinner
      simp only [Prod.mk.injEq] at heq
      rw [← heq.2]
      simp only [List.length_cons]
      omega

theorem length_scanString_lt {text rest : List Char} {string : Option String}
    (h : scanString text = some (string, rest)) : rest.length < text.length := by
  obtain ⟨⟨pieces, after⟩, hpieces, heq⟩ := Option.map_eq_some_iff.mp h
  simp only [Prod.mk.injEq] at heq
  rw [← heq.2]
  exact length_scanPieces_lt hpieces

end Clausal.Json
