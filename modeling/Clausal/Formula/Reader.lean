import Clausal.Alphabet
import Clausal.Literal

/-!
Readers of formulas. A reader takes one item off the front of a text, as far as the
item goes, and leaves the rest. What it leaves is an end of the text, and so is the
text from where it got stuck, so both tell a place in the text. A list is read as long
as items follow; a mark with no item behind it is given back with the rest.
-/

namespace Clausal.Formula

structure Reader (α : Type) where
  /-- The item and the rest of the text, or the text from where the reader got stuck. -/
  read : List Char → Except (List Char) (α × List Char)
  rest_suffix : ∀ {text item rest}, read text = .ok (item, rest) → rest <:+ text
  rest_shorter : ∀ {text item rest}, read text = .ok (item, rest) → rest.length < text.length
  stuck_suffix : ∀ {text stuck}, read text = .error stuck → stuck <:+ text

/-- Takes off an exclamation mark, if there is one. -/
def readSign : List Char → Bool × List Char
  | '!' :: rest => (true, rest)
  | text => (false, text)

/-- Reads a literal. Without a name the text from the fault on is given back. -/
def readLiteral (alphabet : Alphabet) (text : List Char) :
    Except (List Char) (Literal × List Char) :=
  let body := (readSign text).2
  match body.takeWhile alphabet.admits with
  | [] => .error body
  | name =>
      .ok (⟨String.ofList name, (readSign text).1⟩, body.dropWhile alphabet.admits)

theorem readSign_suffix (text : List Char) : (readSign text).2 <:+ text := by
  unfold readSign
  split
  · exact List.suffix_cons _ _
  · exact List.suffix_refl _

theorem readSign_of_ne {text : List Char} (h : text.head? ≠ some '!') :
    readSign text = (false, text) := by
  unfold readSign
  split
  · exact absurd rfl h
  · rfl

theorem readLiteral_eq_ok {alphabet : Alphabet} {text rest : List Char} {literal : Literal} :
    readLiteral alphabet text = .ok (literal, rest) ↔
      (readSign text).2.takeWhile alphabet.admits ≠ [] ∧
      ⟨String.ofList ((readSign text).2.takeWhile alphabet.admits), (readSign text).1⟩ = literal ∧
      (readSign text).2.dropWhile alphabet.admits = rest := by
  unfold readLiteral
  simp only
  split
  · next hname => simp only [hname, reduceCtorEq, ne_eq, not_true_eq_false, false_and]
  · next hname =>
      rw [Except.ok.injEq, Prod.mk.injEq]
      exact (and_iff_right hname).symm

theorem readLiteral_eq_error {alphabet : Alphabet} {text stuck : List Char} :
    readLiteral alphabet text = .error stuck ↔
      (readSign text).2.takeWhile alphabet.admits = [] ∧ (readSign text).2 = stuck := by
  unfold readLiteral
  simp only
  split
  · next hname => simp only [hname, Except.error.injEq, true_and]
  · next hname =>
      simp only [reduceCtorEq, false_iff, not_and]
      exact fun hnone => (hname hnone).elim

namespace Reader

/-- Reads `literal := '!'? name`. -/
def literal (alphabet : Alphabet) : Reader Literal where
  read := readLiteral alphabet
  rest_suffix {text item rest} h := by
    obtain ⟨-, -, rfl⟩ := readLiteral_eq_ok.mp h
    exact (List.dropWhile_suffix alphabet.admits).trans (readSign_suffix text)
  rest_shorter {text item rest} h := by
    obtain ⟨hsome, -, rfl⟩ := readLiteral_eq_ok.mp h
    have hname := List.length_pos_iff.mpr hsome
    have hsign := (readSign_suffix text).length_le
    rw [← List.takeWhile_append_dropWhile (p := alphabet.admits) (l := (readSign text).2),
      List.length_append] at hsign
    omega
  stuck_suffix {text stuck} h := by
    obtain ⟨-, rfl⟩ := readLiteral_eq_error.mp h
    exact readSign_suffix text

variable {α : Type}

/-- Reads on behind an item, as long as the mark follows and an item behind it. A mark
without an item is left where it is. -/
def readMore (mark : Char) (reader : Reader α) : List Char → List α × List Char
  | [] => ([], [])
  | char :: behind =>
      if char = mark then
        match _h : reader.read behind with
        | .error _ => ([], char :: behind)
        | .ok (item, rest) => (readMore mark reader rest).map (item :: ·) id
      else ([], char :: behind)
termination_by text => text.length
decreasing_by exact Nat.lt_succ_of_lt (reader.rest_shorter _h)

theorem readMore_suffix (mark : Char) (reader : Reader α) (text : List Char) :
    (reader.readMore mark text).2 <:+ text := by
  fun_induction readMore mark reader text with
  | case1 => exact List.suffix_refl _
  | case2 behind stuck hstuck => exact List.suffix_refl _
  | case3 behind item rest hread ih =>
      exact ih.trans ((reader.rest_suffix hread).trans (List.suffix_cons _ _))
  | case4 char behind hmark => exact List.suffix_refl _

/-- Reads one or more items with the mark between each two of them. -/
def separated (mark : Char) (reader : Reader α) : Reader (List α) where
  read text :=
    match reader.read text with
    | .error stuck => .error stuck
    | .ok (item, rest) => .ok ((reader.readMore mark rest).map (item :: ·) id)
  rest_suffix {text items rest} h := by
    split at h
    · cases h
    · next item behind hread =>
        cases h
        exact (readMore_suffix mark reader behind).trans (reader.rest_suffix hread)
  rest_shorter {text items rest} h := by
    split at h
    · cases h
    · next item behind hread =>
        cases h
        exact Nat.lt_of_le_of_lt (readMore_suffix mark reader behind).length_le
          (reader.rest_shorter hread)
  stuck_suffix {text stuck} h := by
    split at h
    · next hread =>
        cases h
        exact reader.stuck_suffix hread
    · cases h

/-- Reads `clause := literal (',' literal)*`. -/
def clause (alphabet : Alphabet) : Reader (List Literal) := (literal alphabet).separated ','

/-- Reads `formula := clause (';' clause)*`. -/
def formula (alphabet : Alphabet) : Reader (List (List Literal)) :=
  (clause alphabet).separated ';'

end Reader

end Clausal.Formula
