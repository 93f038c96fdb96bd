/-!
Numerals of JSON text. A numeral keeps the digits as they were written, so that
whole numbers, decimal fractions and powers of ten stay apart: `1`, `1.0` and
`1e0` are three numerals.
-/

namespace Clausal.Json

structure Numeral where
  negative : Bool
  whole : Nat
  /-- The digits behind the point; none when there is no point. -/
  fraction : List Char
  exponent : Option Int
  deriving DecidableEq

namespace Numeral

/-- The least natural that takes more than 64 bits, `2 ^ 64`. -/
def wordLimit : Nat := 18446744073709551616

/-- The least natural beyond the signed numbers of 64 bits, `2 ^ 63`. -/
def signedLimit : Nat := 9223372036854775808

def ofNat (value : Nat) : Numeral := ⟨false, value, [], none⟩

def ofInt (value : Int) : Numeral := ⟨decide (value < 0), value.natAbs, [], none⟩

/-- Whether the numeral has neither point nor exponent. -/
def isInteger (numeral : Numeral) : Bool :=
  numeral.fraction.isEmpty && numeral.exponent.isNone

/-- The value of an unsigned integer of 64 bits. -/
def unsigned? (numeral : Numeral) : Option Nat :=
  if numeral.isInteger && !numeral.negative && numeral.whole < wordLimit then
    some numeral.whole
  else none

/-- The value of a signed integer of 64 bits; a negated zero is none. -/
def signed? (numeral : Numeral) : Option Int :=
  if !numeral.isInteger then none
  else if numeral.negative then
    if 0 < numeral.whole && numeral.whole ≤ signedLimit then some (-numeral.whole) else none
  else if numeral.whole < signedLimit then some numeral.whole
  else none

def exponentText : Option Int → List Char
  | none => []
  | some exponent =>
      'e' :: (if exponent < 0 then '-' else '+') :: Nat.toDigits 10 exponent.natAbs

def text (numeral : Numeral) : List Char :=
  (if numeral.negative then ['-'] else []) ++ Nat.toDigits 10 numeral.whole ++
    (if numeral.fraction.isEmpty then [] else '.' :: numeral.fraction) ++
    exponentText numeral.exponent

/-- Takes off a minus sign, if there is one. -/
def scanSign : List Char → Bool × List Char
  | '-' :: rest => (true, rest)
  | text => (false, text)

/-- Reads a whole part, which starts with zero only if it is zero. -/
def scanWhole (text : List Char) : Option (Nat × List Char) :=
  match text.takeWhile Char.isDigit with
  | [] => none
  | '0' :: _ :: _ => none
  | digits => some (Nat.ofDigitChars 10 digits 0, text.dropWhile Char.isDigit)

/-- Reads a point and the digits behind it, of which there is at least one. -/
def scanFraction : List Char → Option (List Char × List Char)
  | '.' :: rest =>
      match rest.takeWhile Char.isDigit with
      | [] => none
      | digits => some (digits, rest.dropWhile Char.isDigit)
  | text => some ([], text)

/-- Takes off the sign of an exponent and says whether it is a minus. -/
def scanExponentSign : List Char → Bool × List Char
  | '+' :: rest => (false, rest)
  | '-' :: rest => (true, rest)
  | text => (false, text)

/-- Reads the digits of an exponent, of which there is at least one. -/
def scanExponentDigits (text : List Char) : Option (Nat × List Char) :=
  match text.takeWhile Char.isDigit with
  | [] => none
  | digits => some (Nat.ofDigitChars 10 digits 0, text.dropWhile Char.isDigit)

def scanExponent : List Char → Option (Option Int × List Char)
  | [] => some (none, [])
  | mark :: rest =>
      if mark = 'e' ∨ mark = 'E' then
        match scanExponentDigits (scanExponentSign rest).2 with
        | none => none
        | some (magnitude, afterDigits) =>
            some (some (if (scanExponentSign rest).1 then -magnitude else magnitude),
              afterDigits)
      else some (none, mark :: rest)

/-- Reads the longest numeral at the start of the text. -/
def scan (text : List Char) : Option (Numeral × List Char) :=
  match scanWhole (scanSign text).2 with
  | none => none
  | some (whole, afterWhole) =>
      match scanFraction afterWhole with
      | none => none
      | some (fraction, afterFraction) =>
          match scanExponent afterFraction with
          | none => none
          | some (exponent, rest) =>
              some (⟨(scanSign text).1, whole, fraction, exponent⟩, rest)

theorem length_scanSign_le (text : List Char) :
    (scanSign text).2.length ≤ text.length := by
  unfold scanSign
  split <;> simp

theorem length_scanExponentSign_le (text : List Char) :
    (scanExponentSign text).2.length ≤ text.length := by
  unfold scanExponentSign
  split <;> simp

theorem length_scanWhole_lt {text rest : List Char} {whole : Nat}
    (h : scanWhole text = some (whole, rest)) : rest.length < text.length := by
  unfold scanWhole at h
  split at h
  · simp at h
  · simp at h
  · next digits hempty _ =>
      have hsplit := congrArg List.length
        (List.takeWhile_append_dropWhile (p := Char.isDigit) (l := text))
      have hdigits : 0 < (text.takeWhile Char.isDigit).length :=
        List.length_pos_iff.mpr hempty
      simp only [Option.some.injEq, Prod.mk.injEq] at h
      rw [← h.2]
      rw [List.length_append] at hsplit
      omega

theorem length_dropWhile_isDigit_le (text : List Char) :
    (text.dropWhile Char.isDigit).length ≤ text.length :=
  (List.dropWhile_sublist Char.isDigit).length_le

theorem length_scanFraction_le {text rest fraction : List Char}
    (h : scanFraction text = some (fraction, rest)) : rest.length ≤ text.length := by
  unfold scanFraction at h
  split at h
  · next body =>
      split at h
      · simp at h
      · simp only [Option.some.injEq, Prod.mk.injEq] at h
        have hle := length_dropWhile_isDigit_le body
        rw [← h.2, List.length_cons]
        omega
  · simp only [Option.some.injEq, Prod.mk.injEq] at h
    exact Nat.le_of_eq (congrArg List.length h.2.symm)

theorem length_scanExponentDigits_le {text rest : List Char} {magnitude : Nat}
    (h : scanExponentDigits text = some (magnitude, rest)) : rest.length ≤ text.length := by
  unfold scanExponentDigits at h
  split at h
  · simp at h
  · simp only [Option.some.injEq, Prod.mk.injEq] at h
    rw [← h.2]
    exact length_dropWhile_isDigit_le text

theorem length_scanExponent_le {text rest : List Char} {exponent : Option Int}
    (h : scanExponent text = some (exponent, rest)) : rest.length ≤ text.length := by
  unfold scanExponent at h
  split at h
  · simp only [Option.some.injEq, Prod.mk.injEq] at h
    simp [← h.2]
  · next mark body =>
      split at h
      · have hsign := length_scanExponentSign_le body
        split at h
        · simp at h
        · next hdigits =>
            have hle := length_scanExponentDigits_le hdigits
            simp only [Option.some.injEq, Prod.mk.injEq] at h
            rw [← h.2, List.length_cons]
            omega
      · simp only [Option.some.injEq, Prod.mk.injEq] at h
        exact Nat.le_of_eq (congrArg List.length h.2.symm)

/-- A numeral takes up some of the text. -/
theorem length_scan_lt {text rest : List Char} {numeral : Numeral}
    (h : scan text = some (numeral, rest)) : rest.length < text.length := by
  unfold scan at h
  have hsign := length_scanSign_le text
  split at h
  · simp at h
  · next hwhole =>
      have hlt := length_scanWhole_lt hwhole
      split at h
      · simp at h
      · next hfraction =>
          have hle := length_scanFraction_le hfraction
          split at h
          · simp at h
          · next hexponent =>
              have hlast := length_scanExponent_le hexponent
              simp only [Option.some.injEq, Prod.mk.injEq] at h
              rw [← h.2]
              omega

end Numeral

end Clausal.Json
