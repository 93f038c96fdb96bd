import Clausal.ClauseSet
import Clausal.Formula.Reader

/-!
The text of formulas in clause normal form. Clauses are separated by semicolons,
the literals of a clause by commas, and a literal is a name of at least one
admitted character, behind an exclamation mark when it is negated. There are no
blanks.

A text that is no formula is faulted at one position. The readers keep no positions;
the fault is found again afterwards, from where the first literal got stuck or from
what was left behind the last clause. Positions count the bytes before them in UTF-8,
and the text behind a position exists only where no character is cut in two.
-/

namespace Clausal.Formula

inductive Fault where
  | empty
  | unexpected (position : Nat) (found : Char)
  | unfinished (position : Nat)
  deriving DecidableEq

def Fault.message : Fault → String
  | .empty => "empty formula"
  | .unexpected position found =>
      "at position " ++ toString position ++ ": unexpected character '" ++
        String.singleton found ++ "'"
  | .unfinished position =>
      "at position " ++ toString position ++ ": unexpected end of input"

/-- The fault at a position, with the character that stands there. -/
def faultAt (position : Nat) : Option Char → Fault
  | none => .unfinished position
  | some found => .unexpected position found

/-- The number of bytes of the characters in UTF-8. -/
def byteLength (text : List Char) : Nat :=
  text.foldr (fun char total => char.utf8Size + total) 0

/-- The position in a text of the rest of it. -/
def offset (text rest : List Char) : Nat := byteLength text - byteLength rest

/-- The text behind a position, unless the position is inside a character or behind the
end. -/
def behind? : List Char → Nat → Option (List Char)
  | text, 0 => some text
  | [], _ + 1 => none
  | char :: text, position + 1 =>
      if char.utf8Size ≤ position + 1 then behind? text (position + 1 - char.utf8Size)
      else none

/-- Where the fault is if clauses were read and this rest was left. A comma or semicolon
is left when the literal behind it got stuck, and that one got stuck behind its
exclamation mark, if it has one. -/
def trailingPosition? (text rest : List Char) : Option Nat :=
  let position := offset text rest
  if rest.head? = some ',' ∨ rest.head? = some ';' then
    (behind? text (position + 1)).map fun behind =>
      if behind.head? = some '!' then position + 2 else position + 1
  else some position

/-- The fault of a text at a position. -/
def reject? (text : List Char) (position : Nat) : Option Fault :=
  (behind? text position).map fun behind => faultAt position behind.head?

/-- What comes of reading a text: its clauses, or its fault. There is no outcome if the
text is looked at behind a position where there is none. -/
def outcome? (alphabet : Alphabet) (text : List Char) :
    Option (Except Fault (List (List Literal))) :=
  match (Reader.formula alphabet).read text with
  | .ok (clauses, []) => some (.ok clauses)
  | .ok (_, rest) => (trailingPosition? text rest).bind fun position =>
      (reject? text position).map .error
  | .error stuck => (reject? text (offset text stuck)).map .error

@[simp] theorem byteLength_nil : byteLength [] = 0 := rfl

@[simp] theorem byteLength_cons (char : Char) (text : List Char) :
    byteLength (char :: text) = char.utf8Size + byteLength text := rfl

@[simp] theorem byteLength_append (front rest : List Char) :
    byteLength (front ++ rest) = byteLength front + byteLength rest := by
  induction front with
  | nil => simp
  | cons char front ih => simp [ih, Nat.add_assoc]

@[simp] theorem offset_append (front rest : List Char) :
    offset (front ++ rest) rest = byteLength front := by
  simp [offset]

theorem behind?_append (front rest : List Char) :
    behind? (front ++ rest) (byteLength front) = some rest := by
  induction front with
  | nil => cases rest <;> rfl
  | cons char front ih =>
      obtain ⟨before, hsize⟩ := Nat.exists_eq_add_one.mpr
        (Nat.add_pos_left char.utf8Size_pos (byteLength front))
      rw [byteLength_cons, hsize, List.cons_append, behind?, ← hsize,
        if_pos (Nat.le_add_right _ _), Nat.add_sub_cancel_left, ih]

/-- Every end of a text is found again by its position. -/
theorem behind?_offset {text rest : List Char} (h : rest <:+ text) :
    behind? text (offset text rest) = some rest := by
  obtain ⟨front, rfl⟩ := h
  rw [offset_append, behind?_append]

theorem reject?_offset {text stuck : List Char} (h : stuck <:+ text) :
    reject? text (offset text stuck) = some (faultAt (offset text stuck) stuck.head?) := by
  rw [reject?, behind?_offset h, Option.map_some]

/-- A rest that starts with no mark is itself where the reading got stuck. -/
theorem trailingPosition?_of_other {text rest : List Char} (hcomma : rest.head? ≠ some ',')
    (hsemicolon : rest.head? ≠ some ';') :
    trailingPosition? text rest = some (offset text rest) := by
  simp [trailingPosition?, hcomma, hsemicolon]

/-- From a mark that was left, the position is found where the next literal got stuck. -/
theorem trailingPosition?_of_mark {text rest : List Char} {mark : Char}
    (hmark : mark = ',' ∨ mark = ';') (h : mark :: rest <:+ text) :
    trailingPosition? text (mark :: rest) = some (offset text (readSign rest).2) := by
  obtain ⟨front, rfl⟩ := h
  have hsize : mark.utf8Size = 1 := by rcases hmark with rfl | rfl <;> rfl
  have hbehind : behind? (front ++ mark :: rest) (byteLength front + 1) = some rest := by
    have hsplit := behind?_append (front ++ [mark]) rest
    simpa [hsize] using hsplit
  have hstart : trailingPosition? (front ++ mark :: rest) (mark :: rest) =
      some (if rest.head? = some '!' then byteLength front + 2 else byteLength front + 1) := by
    simp [trailingPosition?, hmark, hbehind]
  rw [hstart]
  by_cases hsign : rest.head? = some '!'
  · obtain ⟨name, rfl⟩ := List.head?_eq_some_iff.mp hsign
    have hone : '!'.utf8Size = 1 := rfl
    simp only [List.head?_cons, if_true, readSign, offset, byteLength_append, byteLength_cons,
      hsize, hone, Option.some.injEq]
    omega
  · simp only [if_neg hsign, readSign_of_ne hsign, offset, byteLength_append, byteLength_cons,
      hsize, Option.some.injEq]
    omega

/-- The fault behind what was read is at the start of an end of the text. -/
theorem exists_trailingPosition? {text rest : List Char} (h : rest <:+ text) :
    ∃ stuck, stuck <:+ text ∧ trailingPosition? text rest = some (offset text stuck) := by
  by_cases hmark : rest.head? = some ',' ∨ rest.head? = some ';'
  · cases rest with
    | nil => simp at hmark
    | cons mark rest =>
        have hposition := trailingPosition?_of_mark (by simpa using hmark) h
        have hrest := (List.suffix_cons mark rest).trans h
        exact ⟨_, (readSign_suffix rest).trans hrest, hposition⟩
  · rw [not_or] at hmark
    exact ⟨rest, h, trailingPosition?_of_other hmark.1 hmark.2⟩

/-- The text is looked at only behind positions that it has. -/
theorem outcome?_isSome (alphabet : Alphabet) (text : List Char) :
    (outcome? alphabet text).isSome = true := by
  unfold outcome?
  split
  · rfl
  · next clauses rest hnil hread =>
      obtain ⟨stuck, hstuck, hposition⟩ :=
        exists_trailingPosition? ((Reader.formula alphabet).rest_suffix hread)
      rw [hposition, Option.bind_some, reject?_offset hstuck]
      rfl
  · next stuck hread =>
      rw [reject?_offset ((Reader.formula alphabet).stuck_suffix hread)]
      rfl

/-- The clause set that a formula denotes. -/
def parse (alphabet : Alphabet) (formula : String) : Except Fault ClauseSet :=
  if formula.isEmpty then .error .empty
  else
    ((outcome? alphabet formula.toList).get (outcome?_isSome alphabet formula.toList)).map
      fun clauses => ClauseSet.ofList (clauses.map Clause.ofList)

/-- The formula of a clause set, without regard to any alphabet. -/
def render (set : ClauseSet) : String :=
  ";".intercalate (set.clauses.map fun clause =>
    ",".intercalate (clause.literals.map Literal.text))

end Clausal.Formula
