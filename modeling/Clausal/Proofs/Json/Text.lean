import Mathlib.Data.List.Forall2
import Clausal.Json.Reader

/-!
JSON text is read back. String literals give back every string, whatever its
characters, and whole numbers give back their value. Blanks may stand between any
two tokens; where none stand, only numerals could run into each other, and in the
tokens of a value no two of them are neighbours. So every text that spells a value
of whole numbers, however it is spaced, is read as that value.
-/

namespace Clausal.Json

/-- How a character of a literal is read: as it stands, or by its code. -/
inductive Denotes (char : Char) : Piece → Prop
  | plain : Denotes char (.plain char)
  | code : char.toNat < 0x20 → Denotes char (.code char.toNat)

theorem hexDigits_of_control : ∀ code < 0x20,
    hexDigits 4 code = ['0', '0', (code / 16).digitChar, (code % 16).digitChar] := by
  decide

theorem hexValue_digitChar : ∀ digit < 16, hexValue digit.digitChar = some digit := by
  decide

/-- What an escaped character is read as does not depend on the text behind it. -/
theorem scanPieces_escape (char : Char) : ∃ piece, Denotes char piece ∧ ∀ text,
    scanPieces (escape char ++ text) =
      (scanPieces text).map fun (pieces, after) => (piece :: pieces, after) := by
  by_cases hshort : char ∈ ['\"', '\\', '\x08', '\x0c', '\n', '\r', '\t']
  · refine ⟨.plain char, .plain, fun text => ?_⟩
    simp only [List.mem_cons, List.not_mem_nil, or_false] at hshort
    rcases hshort with rfl | rfl | rfl | rfl | rfl | rfl | rfl <;>
      simp [escape, scanPieces, unescape]
  · simp only [List.mem_cons, List.not_mem_nil, or_false, not_or] at hshort
    obtain ⟨hquote, hbackslash, hback, hfeed, hline, hreturn, htab⟩ := hshort
    by_cases hcontrol : char.toNat < 0x20
    · refine ⟨.code char.toNat, .code hcontrol, fun text => ?_⟩
      have hescape : escape char = '\\' :: 'u' :: hexDigits 4 char.toNat := by
        simp [escape, hquote, hbackslash, hback, hfeed, hline, hreturn, htab, hcontrol]
      have hhigh := hexValue_digitChar (char.toNat / 16) (by omega)
      have hlow := hexValue_digitChar (char.toNat % 16) (by omega)
      have hzero : hexValue '0' = some 0 := by decide
      have hcode : ((0 * 16 + 0) * 16 + char.toNat / 16) * 16 + char.toNat % 16 = char.toNat := by
        omega
      rw [hescape, hexDigits_of_control _ hcontrol]
      simp only [List.cons_append, List.nil_append]
      rw [scanPieces]
      simp only [hzero, hhigh, hlow, hcode]
    · refine ⟨.plain char, .plain, fun text => ?_⟩
      have hescape : escape char = [char] := by
        simp [escape, hquote, hbackslash, hback, hfeed, hline, hreturn, htab, hcontrol]
      have hscan : scanPieces (char :: text) =
          if char.toNat < 0x20 then none
          else (scanPieces text).map fun (pieces, after) => (.plain char :: pieces, after) := by
        rw [scanPieces.eq_def]
        split <;> simp_all
      rw [hescape, List.singleton_append, hscan, if_neg hcontrol]

theorem scanPieces_flatMap_escape (chars rest : List Char) :
    ∃ pieces, List.Forall₂ Denotes chars pieces ∧
      scanPieces (chars.flatMap escape ++ '\"' :: rest) = some (pieces, rest) := by
  induction chars with
  | nil => exact ⟨[], .nil, by simp [scanPieces]⟩
  | cons char chars ih =>
      obtain ⟨pieces, hpieces, hscan⟩ := ih
      obtain ⟨piece, hpiece, hstep⟩ := scanPieces_escape char
      refine ⟨piece :: pieces, .cons hpiece hpieces, ?_⟩
      rw [List.flatMap_cons, List.append_assoc, hstep, hscan]
      rfl

/-- No escape of a control character is half of a surrogate pair. -/
theorem joinPieces_of_denotes {chars : List Char} {pieces : List Piece}
    (h : List.Forall₂ Denotes chars pieces) : joinPieces pieces = some chars := by
  induction h with
  | nil => rfl
  | @cons char piece chars pieces hpiece _ ih =>
      cases hpiece with
      | plain => simp [joinPieces, ih]
      | code hcontrol =>
          have hsurrogate : isHighSurrogate char.toNat = false ∧
              isLowSurrogate char.toNat = false := by
            simp only [isHighSurrogate, isLowSurrogate, Bool.and_eq_false_iff,
              decide_eq_false_iff_not]
            omega
          have hjoin : joinPieces (.code char.toNat :: pieces) =
              (joinPieces pieces).map (Char.ofNat char.toNat :: ·) := by
            rw [joinPieces.eq_def]
            split <;> simp_all
          simp [hjoin, ih]

/-- A string is read back from its literal. -/
theorem scanString_stringText (string : String) (rest : List Char) :
    scanString (string.toList.flatMap escape ++ '\"' :: rest) = some (some string, rest) := by
  obtain ⟨pieces, hpieces, hscan⟩ := scanPieces_flatMap_escape string.toList rest
  simp [scanString, hscan, joinPieces_of_denotes hpieces]

theorem scanString_surrogate (rest : List Char) :
    scanString ('\\' :: 'u' :: 'd' :: '8' :: '0' :: '0' :: '\"' :: rest) = some (none, rest) := by
  simp [scanString, scanPieces, hexValue, joinPieces, isHighSurrogate]

namespace Numeral

/-- The text does not carry on a whole number. -/
def stops (rest : List Char) : Bool :=
  rest.head?.all fun char => !char.isDigit && char != '.' && char != 'e' && char != 'E'

theorem toDigits_eq_cons (value : Nat) :
    ∃ char rest, Nat.toDigits 10 value = char :: rest ∧ char.isDigit = true := by
  obtain ⟨char, rest, hdigits⟩ :=
    List.exists_cons_of_ne_nil (Nat.toDigits_ne_nil (n := value) (b := 10))
  have hmem : char ∈ Nat.toDigits 10 value := by simp [hdigits]
  exact ⟨char, rest, hdigits, Nat.isDigit_of_mem_toDigits (by decide) (by decide) hmem⟩

theorem text_ofNat (value : Nat) : (ofNat value).text = Nat.toDigits 10 value := by
  simp [text, ofNat, exponentText]

theorem takeWhile_toDigits (value : Nat) {rest : List Char} (hrest : stops rest = true) :
    (Nat.toDigits 10 value ++ rest).takeWhile Char.isDigit = Nat.toDigits 10 value ∧
      (Nat.toDigits 10 value ++ rest).dropWhile Char.isDigit = rest := by
  have hdigits : ∀ char ∈ Nat.toDigits 10 value, char.isDigit = true :=
    fun _ => Nat.isDigit_of_mem_toDigits (by decide) (by decide)
  rw [List.takeWhile_append_of_pos hdigits, List.dropWhile_append_of_pos hdigits]
  cases rest with
  | nil => simp
  | cons char rest =>
      have hstop : char.isDigit = false := by
        simp only [stops, List.head?_cons, Option.all_some, Bool.and_eq_true] at hrest
        simpa using hrest.1.1.1
      simp [hstop]

/-- Only the number zero starts with a zero. -/
theorem toDigits_head {value : Nat} {rest : List Char}
    (h : Nat.toDigits 10 value = '0' :: rest) : rest = [] := by
  induction value using Nat.strongRecOn generalizing rest with
  | ind value ih =>
      rcases Nat.lt_or_ge value 10 with hsmall | hlarge
      · rw [Nat.toDigits_of_lt_base hsmall] at h
        exact (List.cons.inj h).2.symm
      · rw [Nat.toDigits_of_base_le (by decide) hlarge] at h
        have hpositive : 0 < value / 10 := by omega
        obtain ⟨head, tail, hhigh, -⟩ := toDigits_eq_cons (value / 10)
        rw [hhigh] at h
        obtain ⟨rfl, -⟩ := List.cons.inj h
        -- Then the leading digits are a single zero, but the quotient is positive.
        have htail := ih (value / 10) (by omega) hhigh
        have hvalue := Nat.ofDigitChars_ten_toDigits (n := value / 10)
        rw [hhigh, htail] at hvalue
        have hzero : Nat.ofDigitChars 10 ['0'] 0 = 0 := by decide
        omega

theorem scanWhole_toDigits {value : Nat} {rest : List Char} (hrest : stops rest = true) :
    scanWhole (Nat.toDigits 10 value ++ rest) = some (value, rest) := by
  obtain ⟨htake, hdrop⟩ := takeWhile_toDigits value hrest
  unfold scanWhole
  rw [htake, hdrop]
  split
  · next hempty => exact absurd hempty Nat.toDigits_ne_nil
  · next hzero => cases toDigits_head hzero
  · rw [Nat.ofDigitChars_ten_toDigits]

theorem scanSign_toDigits (value : Nat) (rest : List Char) :
    scanSign (Nat.toDigits 10 value ++ rest) = (false, Nat.toDigits 10 value ++ rest) := by
  unfold scanSign
  split
  · next tail heq =>
      obtain ⟨head, digits, hdigits, hdigit⟩ := toDigits_eq_cons value
      rw [hdigits] at heq
      obtain ⟨rfl, -⟩ := List.cons.inj heq
      cases hdigit
  · rfl

/-- A whole number is read back from its digits. -/
theorem scan_text_ofNat (value : Nat) {rest : List Char} (hrest : stops rest = true) :
    scan ((ofNat value).text ++ rest) = some (ofNat value, rest) := by
  have hfraction : scanFraction rest = some ([], rest) := by
    unfold scanFraction
    split
    · simp [stops] at hrest
    · rfl
  have hexponent : scanExponent rest = some (none, rest) := by
    cases rest with
    | nil => rfl
    | cons mark rest =>
        have hmark : ¬ (mark = 'e' ∨ mark = 'E') := by
          rintro (rfl | rfl) <;> simp [stops] at hrest
        simp [scanExponent, hmark]
  unfold scan
  rw [text_ofNat, scanSign_toDigits]
  simp only [scanWhole_toDigits hrest, hfraction, hexponent]
  rfl

end Numeral

namespace Token

/-- A token whose text is read back: its numerals are whole numbers. -/
def Whole : Token → Prop
  | .number numeral => ∃ value, numeral = .ofNat value
  | _ => True

def isNumber : Token → Bool
  | .number _ => true
  | _ => false

theorem isBlank_iff {char : Char} :
    isBlank char = true ↔ char = ' ' ∨ char = '\t' ∨ char = '\n' ∨ char = '\r' := by
  simp [isBlank, or_assoc]

/-- The text of a token is not empty, does not start with a blank, and only that of a
number carries on a number. -/
theorem text_eq_cons {token : Token} (htoken : token.Whole) : ∃ char rest,
    token.text = char :: rest ∧ isBlank char = false ∧
      (token.isNumber = false → ∀ tail, Numeral.stops (char :: tail) = true) := by
  cases token with
  | number numeral =>
      obtain ⟨value, rfl⟩ := htoken
      obtain ⟨char, rest, hdigits, hdigit⟩ := Numeral.toDigits_eq_cons value
      refine ⟨char, rest, ?_, ?_, by simp [isNumber]⟩
      · rw [text, Numeral.text_ofNat, hdigits]
      · cases hblank : isBlank char with
        | false => rfl
        | true =>
            rcases isBlank_iff.mp hblank with rfl | rfl | rfl | rfl <;> cases hdigit
  | bool value => cases value <;> exact ⟨_, _, rfl, rfl, fun _ _ => rfl⟩
  | string value => cases value <;> exact ⟨_, _, rfl, rfl, fun _ _ => rfl⟩
  | _ => exact ⟨_, _, rfl, rfl, fun _ _ => rfl⟩

theorem scan_text {token : Token} (htoken : token.Whole) {rest : List Char}
    (hrest : token.isNumber = true → Numeral.stops rest = true) :
    scan (token.text ++ rest) = some (token, rest) := by
  cases token with
  | number numeral =>
      obtain ⟨value, rfl⟩ := htoken
      have hnumeral := Numeral.scan_text_ofNat value (hrest rfl)
      obtain ⟨char, digits, hdigits, hdigit⟩ := Numeral.toDigits_eq_cons value
      rw [Numeral.text_ofNat, hdigits, List.cons_append] at hnumeral
      rw [text, Numeral.text_ofNat, hdigits, List.cons_append, scan.eq_def]
      split <;> simp_all
  | bool value => cases value <;> rfl
  | string value =>
      cases value with
      | none => simp [text, stringText, scan, scanString_surrogate]
      | some string => simp [text, stringText, scan, scanString_stringText]
  | _ => rfl

theorem scanAll_blank {char : Char} (hblank : isBlank char = true) (text : List Char) :
    scanAll (char :: text) = scanAll text := by
  rw [scanAll, if_pos hblank]

theorem scanAll_text {token : Token} (htoken : token.Whole) {rest : List Char}
    (hrest : token.isNumber = true → Numeral.stops rest = true) :
    scanAll (token.text ++ rest) = (scanAll rest).map (token :: ·) := by
  have hscan := scan_text htoken hrest
  obtain ⟨char, tail, htext, hblank, -⟩ := text_eq_cons htoken
  rw [htext] at hscan ⊢
  rw [List.cons_append] at hscan ⊢
  rw [scanAll, if_neg (by simp [hblank])]
  split <;> simp_all

/-- The text spells the tokens, with blanks in front of, between and behind them. -/
inductive Spaced : List Token → List Char → Prop
  | done : Spaced [] []
  | blank {tokens : List Token} {text : List Char} (char : Char) :
      char = ' ' ∨ char = '\t' ∨ char = '\n' ∨ char = '\r' →
      Spaced tokens text → Spaced tokens (char :: text)
  | token {tokens : List Token} {text : List Char} (token : Token) :
      Spaced tokens text → Spaced (token :: tokens) (token.text ++ text)

theorem Spaced.append_newline {tokens : List Token} {text : List Char}
    (h : Spaced tokens text) : Spaced tokens (text ++ ['\n']) := by
  induction h with
  | done => exact .blank '\n' (by simp) .done
  | blank other hother _ ih => exact .blank other hother ih
  | token token _ ih =>
      rw [List.append_assoc]
      exact .token token ih

/-- A text may have the same blanks in front of every token. -/
theorem spaced_flatMap (blanks : List Char)
    (hblanks : ∀ char ∈ blanks, char = ' ' ∨ char = '\t' ∨ char = '\n' ∨ char = '\r')
    (tokens : List Token) : Spaced tokens (tokens.flatMap fun token => blanks ++ token.text) := by
  have hindent : ∀ tokens text, Spaced tokens text → Spaced tokens (blanks ++ text) := by
    intro tokens text hspaced
    induction blanks with
    | nil => exact hspaced
    | cons blank blanks ih =>
        rw [List.forall_mem_cons] at hblanks
        exact .blank blank hblanks.1 (ih hblanks.2)
  induction tokens with
  | nil => exact .done
  | cons token rest ih =>
      rw [List.flatMap_cons, List.append_assoc]
      exact hindent _ _ (.token token ih)

def startsWithNumber (tokens : List Token) : Bool := tokens.head?.any isNumber

/-- No number stands right behind another one. -/
def apart : List Token → Bool
  | [] => true
  | token :: rest => !(token.isNumber && startsWithNumber rest) && apart rest

theorem Spaced.stops {tokens : List Token} {text : List Char} (h : Spaced tokens text)
    (hwhole : ∀ token ∈ tokens, token.Whole) (hstart : startsWithNumber tokens = false) :
    Numeral.stops text = true := by
  cases h with
  | done => rfl
  | blank char hblank => rcases hblank with rfl | rfl | rfl | rfl <;> rfl
  | token token =>
      obtain ⟨char, rest, htext, -, hstops⟩ := text_eq_cons (hwhole token (by simp))
      rw [htext]
      exact hstops (by simpa [startsWithNumber] using hstart) _

/-- The tokens of a text are found whatever blanks stand between them. -/
theorem scanAll_of_spaced {tokens : List Token} {text : List Char} (h : Spaced tokens text)
    (hwhole : ∀ token ∈ tokens, token.Whole) (hapart : apart tokens = true) :
    scanAll text = some tokens := by
  induction h with
  | done => rw [scanAll]
  | blank char hblank _ ih =>
      rw [scanAll_blank (isBlank_iff.mpr hblank)]
      exact ih hwhole hapart
  | @token tokens text token hrest ih =>
      rw [List.forall_mem_cons] at hwhole
      simp only [apart, Bool.and_eq_true, Bool.not_eq_true', Bool.and_eq_false_iff] at hapart
      have hstops : token.isNumber = true → Numeral.stops text = true := by
        intro hnumber
        refine hrest.stops hwhole.2 (hapart.1.resolve_left ?_)
        simp [hnumber]
      rw [scanAll_text hwhole.1 hstops, ih hwhole.2 hapart.2]
      rfl

end Token

open Token

section Apart

variable {rest : List Token}

theorem startsWithNumber_tailTokens (items : List Json) :
    startsWithNumber (tailTokens items ++ rest) = false := by
  cases items <;> simp [tailTokens, startsWithNumber, isNumber]

theorem startsWithNumber_memberTokens (members : List (Option String × Json)) :
    startsWithNumber (memberTokens members ++ rest) = false := by
  cases members <;> simp [memberTokens, startsWithNumber, isNumber]

mutual

theorem apart_tokens (json : Json) (rest : List Token) (hrest : apart rest = true)
    (hstart : startsWithNumber rest = false) : apart (json.tokens ++ rest) = true := by
  cases json with
  | array items =>
      cases items with
      | nil => simp [tokens, apart, isNumber, hrest]
      | cons item items =>
          have htail := apart_tailTokens items rest hrest
          have hitem := apart_tokens item _ htail (startsWithNumber_tailTokens items)
          simp [tokens, apart, isNumber, hitem]
  | object members =>
      cases members with
      | nil => simp [tokens, apart, isNumber, hrest]
      | cons member members =>
          have htail := apart_memberTokens members rest hrest
          have hvalue := apart_tokens member.2 _ htail (startsWithNumber_memberTokens members)
          simp [tokens, apart, isNumber, hvalue]
  | _ => simp [tokens, apart, isNumber, hrest, hstart]

theorem apart_tailTokens (items : List Json) (rest : List Token) (hrest : apart rest = true) :
    apart (tailTokens items ++ rest) = true := by
  cases items with
  | nil => simp [tailTokens, apart, isNumber, hrest]
  | cons item items =>
      have htail := apart_tailTokens items rest hrest
      have hitem := apart_tokens item _ htail (startsWithNumber_tailTokens items)
      simp [tailTokens, apart, isNumber, hitem]

theorem apart_memberTokens (members : List (Option String × Json)) (rest : List Token)
    (hrest : apart rest = true) : apart (memberTokens members ++ rest) = true := by
  cases members with
  | nil => simp [memberTokens, apart, isNumber, hrest]
  | cons member members =>
      have htail := apart_memberTokens members rest hrest
      have hvalue := apart_tokens member.2 _ htail (startsWithNumber_memberTokens members)
      simp [memberTokens, apart, isNumber, hvalue]

end

end Apart

/-- All numbers in the value are whole. -/
def Whole (json : Json) : Prop := ∀ token ∈ json.tokens, token.Whole

theorem whole_tailTokens {items : List Json} :
    (∀ token ∈ tailTokens items, token.Whole) ↔ ∀ item ∈ items, item.Whole := by
  induction items with
  | nil => simp [tailTokens, Token.Whole]
  | cons item items ih =>
      simp only [tailTokens, List.forall_mem_cons, List.forall_mem_append, ih]
      simp [Token.Whole, Whole]

theorem whole_array {items : List Json} :
    (Json.array items).Whole ↔ ∀ item ∈ items, item.Whole := by
  cases items with
  | nil => simp [Whole, tokens, Token.Whole]
  | cons item items =>
      rw [List.forall_mem_cons, ← whole_tailTokens, Whole]
      simp only [tokens, List.forall_mem_cons, List.forall_mem_append]
      simp [Token.Whole, Whole]

theorem whole_memberTokens {members : List (Option String × Json)} :
    (∀ token ∈ memberTokens members, token.Whole) ↔ ∀ member ∈ members, member.2.Whole := by
  induction members with
  | nil => simp [memberTokens, Token.Whole]
  | cons member members ih =>
      simp only [memberTokens, List.forall_mem_cons, List.forall_mem_append, ih]
      simp [Token.Whole, Whole]

theorem whole_object {members : List (Option String × Json)} :
    (Json.object members).Whole ↔ ∀ member ∈ members, member.2.Whole := by
  cases members with
  | nil => simp [Whole, tokens, Token.Whole]
  | cons member members =>
      rw [List.forall_mem_cons, ← whole_memberTokens, Whole]
      simp only [tokens, List.forall_mem_cons, List.forall_mem_append]
      simp [Token.Whole, Whole]

/-- A text that spells a value of whole numbers is read as that value. -/
theorem parse?_of_spaced {json : Json} {text : String} (hwhole : json.Whole)
    (htext : Spaced json.tokens text.toList) : parse? text = some json := by
  have hapart : apart json.tokens = true := by
    simpa using apart_tokens json [] rfl rfl
  rw [parse?, scanAll_of_spaced htext hwhole hapart, Option.bind_some, ofTokens?_tokens]

section Length

/-- No token is written without a character. -/
theorem length_tokens_le_render {json : Json} (hwhole : json.Whole) :
    json.tokens.length ≤ json.render.length := by
  have htexts : ∀ tokens : List Token, (∀ token ∈ tokens, token.Whole) →
      tokens.length ≤ (tokens.flatMap Token.text).length := by
    intro tokens hwhole
    induction tokens with
    | nil => simp
    | cons token tokens ih =>
        rw [List.forall_mem_cons] at hwhole
        obtain ⟨char, rest, htext, -⟩ := text_eq_cons hwhole.1
        have hrest := ih hwhole.2
        rw [List.flatMap_cons, List.length_append, htext, List.length_cons, List.length_cons]
        omega
  simpa [render] using htexts json.tokens hwhole

theorem length_le_tailTokens (items : List Json) : items.length ≤ (tailTokens items).length := by
  induction items with
  | nil => simp
  | cons item items ih =>
      simp only [tailTokens, List.length_cons, List.length_append]
      omega

theorem length_le_array (items : List Json) : items.length ≤ (Json.array items).tokens.length := by
  cases items with
  | nil => simp
  | cons item items =>
      have htail := length_le_tailTokens items
      simp only [tokens, List.length_cons, List.length_append]
      omega

theorem length_value_le_memberTokens {members : List (Option String × Json)}
    {member : Option String × Json} (hmember : member ∈ members) :
    member.2.tokens.length ≤ (memberTokens members).length := by
  induction members with
  | nil => cases hmember
  | cons first members ih =>
      simp only [memberTokens, List.length_cons, List.length_append]
      rcases List.mem_cons.mp hmember with rfl | hrest
      · omega
      · have hlength := ih hrest
        omega

/-- An object has no fewer tokens than any of its members. -/
theorem length_value_le_record {members : List (String × Json)} (key : String) {value : Json}
    (hmember : (key, value) ∈ members) :
    value.tokens.length ≤ (record members).tokens.length := by
  cases members with
  | nil => cases hmember
  | cons first members =>
      simp only [record, List.map_cons, tokens, List.length_cons, List.length_append]
      rcases List.mem_cons.mp hmember with rfl | hrest
      · dsimp only
        omega
      · have hlength := length_value_le_memberTokens
          (List.mem_map_of_mem (f := fun member => (some member.1, member.2)) hrest)
        simp only at hlength
        omega

end Length

end Clausal.Json
