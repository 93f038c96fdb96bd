/-!
Alphabets say which characters a name may consist of. The three marks that
structure a formula never belong to a name, whatever the alphabet accepts.
-/

namespace Clausal

structure Alphabet where
  accepts : Char → Bool

namespace Alphabet

/-- The marks for negation, between literals and between clauses. -/
def isMark (char : Char) : Bool := char = '!' || char = ',' || char = ';'

def admits (alphabet : Alphabet) (char : Char) : Bool :=
  !isMark char && alphabet.accepts char

/-- Letters and digits of ASCII, and the underscore. -/
def identifier : Alphabet := ⟨fun char => char.isAlphanum || char = '_'⟩

/-- Letters of ASCII. -/
def letters : Alphabet := ⟨Char.isAlpha⟩

instance : Inhabited Alphabet := ⟨identifier⟩

theorem not_admits_of_isMark (alphabet : Alphabet) {char : Char} (h : isMark char = true) :
    alphabet.admits char = false := by
  simp [admits, h]

end Alphabet

end Clausal
