import Clausal.Text.Quoted

/-!
Quoted text can be read back. A character between quotes stands for itself, or it
is written as a backslash with a letter, or by its code point in braces. These
three ways cannot be confused, and each of them tells where it ends; so what
stands between quotes is determined by the text from the first quote on, whatever
comes behind the second one.
-/

namespace Clausal.Text

/-- Text up to a stop is determined by what comes before the first stop. -/
theorem append_inj_of_stop {stop : Char → Bool} {first second rest other : List Char}
    (hfirst : ∀ char ∈ first, stop char = false) (hsecond : ∀ char ∈ second, stop char = false)
    (hrest : rest.head?.all stop = true) (hother : other.head?.all stop = true)
    (heq : first ++ rest = second ++ other) : first = second ∧ rest = other := by
  induction first generalizing second with
  | nil =>
      cases second with
      | nil => exact ⟨rfl, heq⟩
      | cons char second =>
          have hstart : rest = char :: (second ++ other) := heq
          have hstop : stop char = true := by simpa [hstart] using hrest
          cases (hsecond char (by simp)).symm.trans hstop
  | cons char first ih =>
      cases second with
      | nil =>
          have hstart : other = char :: (first ++ rest) := heq.symm
          have hstop : stop char = true := by simpa [hstart] using hother
          cases (hfirst char (by simp)).symm.trans hstop
      | cons char' second =>
          obtain ⟨rfl, htail⟩ := List.cons.inj heq
          obtain ⟨rfl, hrest⟩ := ih (fun char h => hfirst char (List.mem_cons_of_mem _ h))
            (fun char h => hsecond char (List.mem_cons_of_mem _ h)) htail
          exact ⟨rfl, hrest⟩

theorem digitChar_inj : ∀ first < 16, ∀ second < 16,
    Nat.digitChar first = Nat.digitChar second → first = second := by
  decide

theorem toDigits_inj {first second : Nat}
    (heq : Nat.toDigits 16 first = Nat.toDigits 16 second) : first = second := by
  have hbase : 1 < 16 := by decide
  induction first using Nat.strongRecOn generalizing second with
  | ind first ih =>
      rcases Nat.lt_or_ge first 16 with hsmall | hlarge <;>
        rcases Nat.lt_or_ge second 16 with hsmall' | hlarge'
      · rw [Nat.toDigits_of_lt_base hsmall, Nat.toDigits_of_lt_base hsmall'] at heq
        exact digitChar_inj _ hsmall _ hsmall' (List.cons.inj heq).1
      · rw [Nat.toDigits_of_lt_base hsmall, Nat.toDigits_of_base_le hbase hlarge'] at heq
        simpa using congrArg List.length heq
      · rw [Nat.toDigits_of_base_le hbase hlarge, Nat.toDigits_of_lt_base hsmall'] at heq
        simpa using congrArg List.length heq
      · rw [Nat.toDigits_of_base_le hbase hlarge, Nat.toDigits_of_base_le hbase hlarge'] at heq
        obtain ⟨hhigh, hlow⟩ := List.append_inj' heq rfl
        have hquotient : first / 16 = second / 16 := ih (first / 16) (by omega) hhigh
        have hremainder : first % 16 = second % 16 :=
          digitChar_inj _ (by omega) _ (by omega) (List.cons.inj hlow).1
        omega

theorem ne_of_mem_toDigits {char : Char} {number : Nat}
    (hmember : char ∈ Nat.toDigits 16 number) : char ≠ '\x7d' := by
  induction number using Nat.strongRecOn with
  | ind number ih =>
      rw [Nat.toDigits_eq_if (by decide)] at hmember
      split at hmember
      · rw [List.mem_singleton.mp hmember]
        exact Nat.digitChar_ne _ (by decide)
      · rcases List.mem_append.mp hmember with hhigh | hlow
        · exact ih (number / 16) (by omega) hhigh
        · rw [List.mem_singleton.mp hlow]
          exact Nat.digitChar_ne _ (by decide)

/-- A number in front of a closing brace. -/
theorem toDigits_append_inj {first second : Nat} {rest other : List Char}
    (heq : Nat.toDigits 16 first ++ '\x7d' :: rest = Nat.toDigits 16 second ++ '\x7d' :: other) :
    first = second ∧ rest = other := by
  have hstop (number : Nat) : ∀ char ∈ Nat.toDigits 16 number, (char == '\x7d') = false := by
    intro char hmember
    simpa using ne_of_mem_toDigits hmember
  obtain ⟨hdigits, hrest⟩ := append_inj_of_stop (hstop first) (hstop second) rfl rfl heq
  exact ⟨toDigits_inj hdigits, (List.cons.inj hrest).2⟩

/-- The character that a letter behind a backslash stands for. -/
def unescape (letter : Char) : Char :=
  if letter = '0' then '\x00'
  else if letter = 't' then '\t'
  else if letter = 'r' then '\x0d'
  else if letter = 'n' then '\n'
  else letter

/-- The three ways in which a character is written. -/
inductive Written (char : Char) : List Char → Prop
  | plain : char ≠ '\"' → char ≠ '\\' → Written char [char]
  | letter (letter : Char) : letter ≠ 'u' → unescape letter = char →
      Written char ['\\', letter]
  | codePoint : Written char
      ('\\' :: 'u' :: '\x7b' :: (Nat.toDigits 16 char.toNat ++ ['\x7d']))

theorem written_quoteChar (char : Char) : Written char (quoteChar char) := by
  unfold quoteChar
  split
  · next h => exact .letter '0' (by decide) h.symm
  · split
    · next h => exact .letter 't' (by decide) h.symm
    · split
      · next h => exact .letter 'r' (by decide) h.symm
      · split
        · next h => exact .letter 'n' (by decide) h.symm
        · split
          · next h => exact .letter '\"' (by decide) h.symm
          · split
            · next h => exact .letter '\\' (by decide) h.symm
            · split
              · exact .codePoint
              · next hquote hbackslash _ => exact .plain hquote hbackslash

theorem Written.append_inj {first second : Char} {text text' rest other : List Char}
    (hfirst : Written first text) (hsecond : Written second text')
    (heq : text ++ rest = text' ++ other) : first = second ∧ rest = other := by
  cases hfirst with
  | plain hquote hbackslash =>
      cases hsecond with
      | plain => simpa using heq
      | letter => simp [hbackslash] at heq
      | codePoint => simp [hbackslash] at heq
  | letter letter hletter hmeaning =>
      cases hsecond with
      | plain hquote hbackslash => simp [hbackslash.symm] at heq
      | letter letter' hletter' hmeaning' =>
          obtain ⟨rfl, rfl⟩ : letter = letter' ∧ rest = other := by simpa using heq
          exact ⟨hmeaning.symm.trans hmeaning', rfl⟩
      | codePoint => simp [hletter] at heq
  | codePoint =>
      cases hsecond with
      | plain hquote hbackslash => simp [hbackslash.symm] at heq
      | letter letter' hletter' => simp [hletter'.symm] at heq
      | codePoint =>
          have hdigits : Nat.toDigits 16 first.toNat ++ '\x7d' :: rest =
              Nat.toDigits 16 second.toNat ++ '\x7d' :: other := by simpa using heq
          obtain ⟨hsame, hrest⟩ := toDigits_append_inj hdigits
          exact ⟨Char.toNat_inj.mp hsame, hrest⟩

theorem Written.starts {char : Char} {text : List Char} (h : Written char text) :
    ∃ head tail, text = head :: tail ∧ head ≠ '\"' := by
  cases h with
  | plain hquote => exact ⟨char, [], rfl, hquote⟩
  | letter letter => exact ⟨'\\', [letter], rfl, by decide⟩
  | codePoint => exact ⟨'\\', _, rfl, by decide⟩

/-- Quoted characters up to the closing quote. -/
theorem flatMap_quoteChar_append_inj {first second rest other : List Char}
    (heq : first.flatMap quoteChar ++ '\"' :: rest = second.flatMap quoteChar ++ '\"' :: other) :
    first = second ∧ rest = other := by
  induction first generalizing second with
  | nil =>
      cases second with
      | nil => exact ⟨rfl, (List.cons.inj heq).2⟩
      | cons char second =>
          obtain ⟨head, tail, htext, hhead⟩ := (written_quoteChar char).starts
          simp [htext, hhead.symm] at heq
  | cons char first ih =>
      cases second with
      | nil =>
          obtain ⟨head, tail, htext, hhead⟩ := (written_quoteChar char).starts
          simp [htext, hhead] at heq
      | cons char' second =>
          simp only [List.flatMap_cons, List.append_assoc] at heq
          obtain ⟨rfl, htail⟩ :=
            (written_quoteChar char).append_inj (written_quoteChar char') heq
          obtain ⟨rfl, hrest⟩ := ih htail
          exact ⟨rfl, hrest⟩

/-- What a quoted text says and where it ends can be read off any text that starts
with it. -/
theorem quote_append_inj {first second : String} {rest other : List Char}
    (heq : (quote first).toList ++ rest = (quote second).toList ++ other) :
    first = second ∧ rest = other := by
  have hbody : first.toList.flatMap quoteChar ++ '\"' :: rest =
      second.toList.flatMap quoteChar ++ '\"' :: other := by simpa [quote] using heq
  obtain ⟨hsame, hrest⟩ := flatMap_quoteChar_append_inj hbody
  exact ⟨String.toList_inj.mp hsame, hrest⟩

end Clausal.Text
