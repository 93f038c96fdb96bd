import Mathlib.Data.List.TakeWhile
import Clausal.Formula
import Clausal.Proofs.ClauseSet

/-!
The grammar of formulas, given by derivations that know nothing of the order in which
the text is read, and what the readers make of it. Every reader takes the longest item
it can: the items of a list go on until the mark is missing or no item stands behind it,
and then the mark stays in the text. A reader is therefore known by the items that it
takes and by the rests at which it stops. Clauses are read from a whole text exactly if
the text has a derivation, and no clause is empty.
-/

namespace Clausal.Formula

/-- Items with a separator between each two of them. -/
inductive SeparatedBy {α : Type} (separator : Char) (Item : List Char → α → Prop) :
    List Char → List α → Prop
  | last {text : List Char} {item : α} :
      Item text item → SeparatedBy separator Item text [item]
  | next {text rest : List Char} {item : α} {items : List α} :
      Item text item → SeparatedBy separator Item rest items →
      SeparatedBy separator Item (text ++ separator :: rest) (item :: items)

/-- `name`: one or more admitted characters. -/
def NameText (alphabet : Alphabet) (text : List Char) : Prop :=
  text ≠ [] ∧ ∀ char ∈ text, alphabet.admits char = true

instance (alphabet : Alphabet) (text : List Char) : Decidable (NameText alphabet text) :=
  decidable_of_iff ((!text.isEmpty && text.all alphabet.admits) = true) (by simp [NameText])

/-- `literal := '!'? name` -/
inductive LiteralText (alphabet : Alphabet) : List Char → Literal → Prop
  | positive {name : List Char} :
      NameText alphabet name → LiteralText alphabet name ⟨String.ofList name, false⟩
  | negative {name : List Char} :
      NameText alphabet name → LiteralText alphabet ('!' :: name) ⟨String.ofList name, true⟩

/-- `clause := literal (',' literal)*` -/
def ClauseText (alphabet : Alphabet) : List Char → List Literal → Prop :=
  SeparatedBy ',' (LiteralText alphabet)

/-- `formula := clause (';' clause)*`. The lists of literals are the derivation: they
tell how the text is made of clauses, literals and names. -/
def FormulaText (alphabet : Alphabet) : List Char → List (List Literal) → Prop :=
  SeparatedBy ';' (ClauseText alphabet)

section Separated

variable {α : Type} {separator : Char} {Item : List Char → α → Prop}

theorem SeparatedBy.ne_nil {text : List Char} {items : List α}
    (h : SeparatedBy separator Item text items) : items ≠ [] := by
  cases h <;> simp

theorem SeparatedBy.exists_text {text : List Char} {items : List α}
    (h : SeparatedBy separator Item text items) : ∀ item ∈ items, ∃ piece, Item piece item := by
  induction h with
  | last hlast => simpa using ⟨_, hlast⟩
  | next hfirst _ ih => exact List.forall_mem_cons.mpr ⟨⟨_, hfirst⟩, ih⟩

end Separated

namespace Reader

variable {α : Type} {mark : Char} {reader : Reader α} {Item : List Char → α → Prop}
  {Ends : List Char → Prop}

/-- The reader takes one of these items off a text, up to one of these rests. -/
structure Takes (reader : Reader α) (Item : List Char → α → Prop)
    (Ends : List Char → Prop) : Prop where
  read_eq_ok : ∀ {text item rest}, reader.read text = .ok (item, rest) ↔
    ∃ piece, Item piece item ∧ Ends rest ∧ text = piece ++ rest

/-- A list ends where its last item ends, unless the mark follows and another item. -/
structure ListEnds (mark : Char) (reader : Reader α) (Ends : List Char → Prop)
    (rest : List Char) : Prop where
  ends : Ends rest
  stuck : ∀ behind, rest = mark :: behind → ∃ stuck, reader.read behind = .error stuck

theorem separated_eq_error {text stuck : List Char} :
    (reader.separated mark).read text = .error stuck ↔ reader.read text = .error stuck := by
  simp only [separated]
  split
  · next hread => simp only [hread, Except.error.injEq]
  · next hread => simp only [hread, reduceCtorEq]

theorem separated_of_ok {text rest : List Char} {item : α}
    (hread : reader.read text = .ok (item, rest)) :
    (reader.separated mark).read text = .ok ((reader.readMore mark rest).map (item :: ·) id) := by
  simp only [separated, hread]

theorem readMore_of_ends {rest : List Char} (h : reader.ListEnds mark Ends rest) :
    reader.readMore mark rest = ([], rest) := by
  cases rest with
  | nil => rw [readMore]
  | cons char behind =>
      rw [readMore]
      split
      · next hmark =>
          obtain ⟨stuck, hstuck⟩ := h.stuck behind (by rw [hmark])
          split
          · rfl
          · next hread => cases hstuck.symm.trans hread
      · rfl

theorem readMore_mark {behind rest : List Char} {items : List α}
    (hread : (reader.separated mark).read behind = .ok (items, rest)) :
    reader.readMore mark (mark :: behind) = (items, rest) := by
  rw [readMore, if_pos rfl]
  split
  · next stuck hstuck => cases hread.symm.trans (separated_eq_error.mpr hstuck)
  · next item behind hitem => exact Except.ok.inj ((separated_of_ok hitem).symm.trans hread)

/-- Reading on stops where the list ends. -/
theorem Takes.listEnds_readMore (htakes : reader.Takes Item Ends) {text : List Char}
    (hends : Ends text) : reader.ListEnds mark Ends (reader.readMore mark text).2 := by
  fun_induction readMore mark reader text with
  | case1 => exact ⟨hends, by simp⟩
  | case2 behind stuck hstuck =>
      refine ⟨hends, ?_⟩
      rintro _ ⟨rfl⟩
      exact ⟨stuck, hstuck⟩
  | case3 behind item rest hread ih =>
      obtain ⟨-, -, hrest, -⟩ := htakes.read_eq_ok.mp hread
      exact ih hrest
  | case4 char behind hother =>
      refine ⟨hends, ?_⟩
      rintro _ ⟨rfl⟩
      exact absurd rfl hother

/-- What is read on behind an item makes a list with it. -/
theorem Takes.separatedBy_readMore (htakes : reader.Takes Item Ends) {piece : List Char}
    {item : α} (hitem : Item piece item) (text : List Char) :
    ∃ front, SeparatedBy mark Item front (item :: (reader.readMore mark text).1) ∧
      piece ++ text = front ++ (reader.readMore mark text).2 := by
  fun_induction readMore mark reader text generalizing piece item with
  | case1 => exact ⟨piece, .last hitem, rfl⟩
  | case2 => exact ⟨piece, .last hitem, rfl⟩
  | case3 behind second rest hread ih =>
      obtain ⟨next, hsecond, -, rfl⟩ := htakes.read_eq_ok.mp hread
      obtain ⟨front, hfront, hsplit⟩ := ih hsecond
      refine ⟨piece ++ mark :: front, .next hitem hfront, ?_⟩
      rw [List.append_assoc, List.cons_append, hsplit]
      rfl
  | case4 => exact ⟨piece, .last hitem, rfl⟩

/-- A list is taken as far as it goes, if the mark ends an item. -/
theorem Takes.separated (htakes : reader.Takes Item Ends)
    (hmark : ∀ behind, Ends (mark :: behind)) :
    (reader.separated mark).Takes (SeparatedBy mark Item) (reader.ListEnds mark Ends) := by
  constructor
  intro text items rest
  constructor
  · intro hread
    cases hfirst : reader.read text with
    | error stuck => cases hread.symm.trans (separated_eq_error.mpr hfirst)
    | ok found =>
        obtain ⟨item, behind⟩ := found
        obtain ⟨piece, hitem, hends, rfl⟩ := htakes.read_eq_ok.mp hfirst
        obtain ⟨front, hfront, hsplit⟩ := htakes.separatedBy_readMore hitem behind
        cases (separated_of_ok hfirst).symm.trans hread
        exact ⟨front, hfront, htakes.listEnds_readMore hends, hsplit⟩
  · rintro ⟨piece, hpiece, hends, rfl⟩
    induction hpiece with
    | last hitem =>
        have hread := htakes.read_eq_ok.mpr ⟨_, hitem, hends.ends, rfl⟩
        rw [separated_of_ok hread, readMore_of_ends hends]
        rfl
    | @next first others item items hitem _ ih =>
        have hread : reader.read (first ++ mark :: others ++ rest) =
            .ok (item, mark :: (others ++ rest)) :=
          htakes.read_eq_ok.mpr ⟨first, hitem, hmark _, by simp⟩
        rw [separated_of_ok hread, readMore_mark ih]
        rfl

end Reader

variable {alphabet : Alphabet}

theorem NameText.notMem {name : List Char} (h : NameText alphabet name) (mark : Char)
    (hmark : Alphabet.isMark mark = true) : mark ∉ name := by
  intro hmember
  have hadmitted := h.2 mark hmember
  rw [alphabet.not_admits_of_isMark hmark] at hadmitted
  cases hadmitted

/-- The text is at its end or goes on with a character that is not admitted. -/
def AtEnd (alphabet : Alphabet) (rest : List Char) : Prop :=
  ∀ char ∈ rest.head?, alphabet.admits char = false

theorem atEnd_mark {mark : Char} (hmark : Alphabet.isMark mark = true) (rest : List Char) :
    AtEnd alphabet (mark :: rest) := by
  simp [AtEnd, alphabet.not_admits_of_isMark hmark]

theorem NameText.takeWhile_append {name rest : List Char} (h : NameText alphabet name)
    (hrest : AtEnd alphabet rest) :
    (name ++ rest).takeWhile alphabet.admits = name ∧
      (name ++ rest).dropWhile alphabet.admits = rest := by
  rw [List.takeWhile_append_of_pos h.2, List.dropWhile_append_of_pos h.2]
  cases rest with
  | nil => simp
  | cons char rest => simp [hrest char rfl]

/-- The longest literal at the start of a text is read. -/
theorem LiteralText.readLiteral_append {text rest : List Char} {literal : Literal}
    (h : LiteralText alphabet text literal) (hrest : AtEnd alphabet rest) :
    readLiteral alphabet (text ++ rest) = .ok (literal, rest) := by
  cases h with
  | positive hname =>
      obtain ⟨htake, hdrop⟩ := hname.takeWhile_append hrest
      have hsign : readSign (text ++ rest) = (false, text ++ rest) := by
        apply readSign_of_ne
        obtain ⟨char, others, rfl⟩ := List.exists_cons_of_ne_nil hname.1
        intro hhead
        cases hhead
        exact hname.notMem '!' rfl List.mem_cons_self
      rw [readLiteral_eq_ok, hsign, htake, hdrop]
      exact ⟨hname.1, rfl, rfl⟩
  | @negative name hname =>
      obtain ⟨htake, hdrop⟩ := hname.takeWhile_append hrest
      have hsign : readSign ('!' :: name ++ rest) = (true, name ++ rest) := rfl
      rw [readLiteral_eq_ok, hsign, htake, hdrop]
      exact ⟨hname.1, rfl, rfl⟩

/-- What is read as a literal is one. -/
theorem literalText_of_readLiteral {text rest : List Char} {literal : Literal}
    (hread : readLiteral alphabet text = .ok (literal, rest)) :
    ∃ piece, LiteralText alphabet piece literal ∧ AtEnd alphabet rest ∧ text = piece ++ rest := by
  obtain ⟨hsome, rfl, rfl⟩ := readLiteral_eq_ok.mp hread
  have hname : NameText alphabet ((readSign text).2.takeWhile alphabet.admits) :=
    ⟨hsome, fun char => List.mem_takeWhile_imp⟩
  have hend : AtEnd alphabet ((readSign text).2.dropWhile alphabet.admits) := by
    intro char hchar
    have hstop := List.head?_dropWhile_not alphabet.admits (readSign text).2
    rwa [Option.mem_def.mp hchar] at hstop
  have hsplit := List.takeWhile_append_dropWhile (p := alphabet.admits) (l := (readSign text).2)
  by_cases hhead : text.head? = some '!'
  · obtain ⟨name, rfl⟩ := List.head?_eq_some_iff.mp hhead
    exact ⟨_, .negative hname, hend, congrArg ('!' :: ·) hsplit.symm⟩
  · rw [readSign_of_ne hhead] at hname hend hsplit ⊢
    exact ⟨_, .positive hname, hend, hsplit.symm⟩

theorem Reader.literal_takes :
    (Reader.literal alphabet).Takes (LiteralText alphabet) (AtEnd alphabet) := by
  constructor
  intro text literal rest
  constructor
  · exact literalText_of_readLiteral
  · rintro ⟨piece, hpiece, hend, rfl⟩
    exact hpiece.readLiteral_append hend

/-- What can be left behind clauses: no character of the last name, and no comma or
semicolon that a literal follows. -/
structure FormulaEnds (alphabet : Alphabet) (rest : List Char) : Prop where
  atEnd : AtEnd alphabet rest
  stuck : ∀ mark behind, mark = ',' ∨ mark = ';' → rest = mark :: behind →
    ∃ stuck, readLiteral alphabet behind = .error stuck

theorem formulaEnds_nil : FormulaEnds alphabet [] := ⟨by simp [AtEnd], by simp⟩

theorem Reader.clause_eq_error {text stuck : List Char} :
    (Reader.clause alphabet).read text = .error stuck ↔
      readLiteral alphabet text = .error stuck := separated_eq_error

theorem Reader.clause_takes : (Reader.clause alphabet).Takes (ClauseText alphabet)
    ((Reader.literal alphabet).ListEnds ',' (AtEnd alphabet)) :=
  literal_takes.separated (atEnd_mark rfl)

/-- A list of clauses ends, as a list of lists of literals, where a formula does. -/
theorem Reader.clause_listEnds_iff {rest : List Char} :
    (Reader.clause alphabet).ListEnds ';'
      ((Reader.literal alphabet).ListEnds ',' (AtEnd alphabet)) rest ↔
      FormulaEnds alphabet rest := by
  constructor
  · rintro ⟨⟨hend, hcomma⟩, hsemicolon⟩
    refine ⟨hend, ?_⟩
    rintro mark behind (rfl | rfl) hrest
    · exact hcomma behind hrest
    · obtain ⟨stuck, hstuck⟩ := hsemicolon behind hrest
      exact ⟨stuck, clause_eq_error.mp hstuck⟩
  · rintro ⟨hend, hstuck⟩
    refine ⟨⟨hend, fun behind => hstuck ',' behind (.inl rfl)⟩, ?_⟩
    intro behind hrest
    obtain ⟨stuck, hliteral⟩ := hstuck ';' behind (.inr rfl) hrest
    exact ⟨stuck, clause_eq_error.mpr hliteral⟩

/-- Clauses are taken off a text as far as they go. -/
theorem Reader.formula_eq_ok {text rest : List Char} {clauses : List (List Literal)} :
    (Reader.formula alphabet).read text = .ok (clauses, rest) ↔ ∃ front,
      FormulaText alphabet front clauses ∧ FormulaEnds alphabet rest ∧ text = front ++ rest := by
  have hmark (behind : List Char) :
      (Reader.literal alphabet).ListEnds ',' (AtEnd alphabet) (';' :: behind) :=
    ⟨atEnd_mark rfl behind, by simp⟩
  simp only [← clause_listEnds_iff]
  exact (clause_takes.separated hmark).read_eq_ok

theorem FormulaText.read_eq_ok {text : List Char} {clauses : List (List Literal)}
    (h : FormulaText alphabet text clauses) :
    (Reader.formula alphabet).read text = .ok (clauses, []) :=
  Reader.formula_eq_ok.mpr ⟨text, h, formulaEnds_nil, (List.append_nil text).symm⟩

theorem FormulaText.text_ne_nil {text : List Char} {clauses : List (List Literal)}
    (h : FormulaText alphabet text clauses) : text ≠ [] := by
  rintro rfl
  exact Nat.lt_irrefl _ ((Reader.formula alphabet).rest_shorter h.read_eq_ok)

/-- All of a text is read exactly if it has a derivation. -/
theorem outcome?_eq_ok {text : List Char} {clauses : List (List Literal)} :
    outcome? alphabet text = some (.ok clauses) ↔ FormulaText alphabet text clauses := by
  constructor
  · intro h
    unfold outcome? at h
    split at h
    · next hread =>
        cases h
        obtain ⟨piece, hformula, -, rfl⟩ := Reader.formula_eq_ok.mp hread
        rwa [List.append_nil]
    · simp [Option.bind_eq_some_iff] at h
    · simp at h
  · intro hformula
    rw [outcome?, hformula.read_eq_ok]

theorem parse_of_outcome? {formula : String} (hformula : formula ≠ "")
    {outcome : Except Fault (List (List Literal))}
    (houtcome : outcome? alphabet formula.toList = some outcome) :
    parse alphabet formula =
      outcome.map fun clauses => ClauseSet.ofList (clauses.map Clause.ofList) := by
  have hsome : ¬ formula.isEmpty = true := by rwa [String.isEmpty_iff]
  simp only [parse, if_neg hsome, houtcome, Option.get_some]

theorem parse_eq_ok {formula : String} {set : ClauseSet} :
    parse alphabet formula = .ok set ↔ ∃ clauses,
      FormulaText alphabet formula.toList clauses ∧
        set = ClauseSet.ofList (clauses.map Clause.ofList) := by
  by_cases hempty : formula = ""
  · subst hempty
    constructor
    · intro h
      cases h
    · rintro ⟨clauses, hformula, -⟩
      exact absurd rfl hformula.text_ne_nil
  · obtain ⟨outcome, houtcome⟩ :=
      Option.isSome_iff_exists.mp (outcome?_isSome alphabet formula.toList)
    rw [parse_of_outcome? hempty houtcome]
    simp only [← outcome?_eq_ok, houtcome]
    cases outcome <;> simp [Except.map, eq_comm]

/-- No clause of a formula is empty. -/
theorem parse_nonempty {formula : String} {set : ClauseSet}
    (hparse : parse alphabet formula = .ok set) :
    ∀ clause ∈ set.clauses, ∃ literal, literal ∈ clause := by
  obtain ⟨clauses, hformula, rfl⟩ := parse_eq_ok.mp hparse
  intro clause hclause
  obtain ⟨literals, hliterals, rfl⟩ := List.mem_map.mp (ClauseSet.mem_of_mem_ofList hclause)
  obtain ⟨piece, hpiece⟩ := hformula.exists_text literals hliterals
  obtain ⟨literal, hliteral⟩ := List.exists_mem_of_ne_nil literals hpiece.ne_nil
  exact ⟨literal, Clause.mem_ofList.mpr hliteral⟩

/-- A disjunction and the denial of both its sides. -/
def deniedDisjunction : ClauseSet :=
  ⟨[⟨[.positive "a", .positive "b"]⟩, ⟨[.negative "a"]⟩, ⟨[.negative "b"]⟩]⟩

theorem parse_deniedDisjunction :
    parse .identifier "a,b;!a;!b" = .ok deniedDisjunction := by
  have ha : NameText .identifier ['a'] := by decide
  have hb : NameText .identifier ['b'] := by decide
  have hsides : ClauseText .identifier (['a'] ++ ',' :: ['b']) [.positive "a", .positive "b"] :=
    .next (.positive ha) (.last (.positive hb))
  have hdenials : FormulaText .identifier (['!', 'a'] ++ ';' :: ['!', 'b'])
      [[.negative "a"], [.negative "b"]] :=
    .next (.last (.negative ha)) (.last (.last (.negative hb)))
  exact parse_eq_ok.mpr ⟨_, .next hsides hdenials, rfl⟩

theorem deniedDisjunction_unsatisfiable : deniedDisjunction.Unsatisfiable := by
  intro assignment hholds
  have hfirst := hholds ⟨[.positive "a", .positive "b"]⟩ (by decide)
  have hsecond := hholds ⟨[.negative "a"]⟩ (by decide)
  have hthird := hholds ⟨[.negative "b"]⟩ (by decide)
  simp only [Clause.Holds, ← Clause.mem_literals, List.mem_cons, List.not_mem_nil, or_false,
    exists_eq_or_imp, exists_eq_left, Literal.Holds, Literal.positive, Literal.negative]
    at hfirst hsecond hthird
  simp [hsecond, hthird] at hfirst

end Clausal.Formula
