import Clausal.Error
import Clausal.Proofs.Distinct
import Clausal.Proofs.Formula

/-!
The grammar of formulas decides what is accepted. Cutting a text at its marks finds its
derivation too, since no name holds a mark, so a text has at most one. What is read from
a text are the clauses of its derivation, without the repetitions among them.
-/

namespace Clausal.Formula

/-- The clauses in the order of the text. Of a repeated literal and of clauses with the
same literals the first one stays. -/
def condense (clauses : List (List Literal)) : List Clause :=
  (clauses.map fun literals => Clause.mk literals.eraseDups).eraseDupsBy
    fun first second => first.SetEqual second

/-- The literal of a piece of text without commas and semicolons: at most one exclamation
mark is taken off, and the rest must be a name. -/
def literalOf? (alphabet : Alphabet) : List Char → Option Literal
  | '!' :: name =>
      if NameText alphabet name then some ⟨String.ofList name, true⟩ else none
  | name => if NameText alphabet name then some ⟨String.ofList name, false⟩ else none

/-- Cuts the text at its semicolons, the pieces at their commas, and takes every piece of
these for a literal. -/
def cut? (alphabet : Alphabet) (text : List Char) : Option (List (List Literal)) :=
  (text.splitOn ';').mapM fun clause => (clause.splitOn ',').mapM (literalOf? alphabet)

section Separated

variable {α : Type} {separator : Char} {Item : List Char → α → Prop}

/-- A mark that no item has and that is not the separator is not in the text. -/
theorem SeparatedBy.notMem {mark : Char} (hmark : mark ≠ separator)
    (hitem : ∀ text item, Item text item → mark ∉ text) {text : List Char} {items : List α}
    (h : SeparatedBy separator Item text items) : mark ∉ text := by
  induction h with
  | last hlast => exact hitem _ _ hlast
  | next hfirst _ ih =>
      intro hmember
      rcases List.mem_append.mp hmember with hleft | hright
      · exact hitem _ _ hfirst hleft
      · rcases List.mem_cons.mp hright with heq | hrest
        · exact hmark heq
        · exact ih hrest

/-- Cutting at a separator that no item has finds the items. -/
theorem mapM_splitOn {item? : List Char → Option α}
    (hitem : ∀ piece item, item? piece = some item ↔ Item piece item)
    (hfree : ∀ text item, Item text item → separator ∉ text)
    {text : List Char} {items : List α} :
    (text.splitOn separator).mapM item? = some items ↔
      SeparatedBy separator Item text items := by
  constructor
  · intro hpieces
    have htext : [separator].intercalate (text.splitOn separator) = text :=
      List.intercalate_splitOn separator
    have hsome : text.splitOn separator ≠ [] := List.splitOn_ne_nil separator text
    -- The pieces are all there is to know, so the induction is on them.
    generalize text.splitOn separator = pieces at hpieces htext hsome
    induction pieces generalizing text items with
    | nil => exact absurd rfl hsome
    | cons piece rest ih =>
        rw [List.mapM_cons] at hpieces
        simp only [Option.bind_eq_bind, Option.bind_eq_some_iff, Option.pure_def,
          Option.some.injEq] at hpieces
        obtain ⟨item, hpiece, others, hrest, rfl⟩ := hpieces
        have hfirst := (hitem piece item).mp hpiece
        cases rest with
        | nil =>
            cases hrest
            rw [← htext]
            simpa using SeparatedBy.last hfirst
        | cons second rest =>
            rw [← htext, List.intercalate_cons_cons, List.append_assoc]
            exact .next hfirst (ih hrest rfl (by simp))
  · intro hseparated
    induction hseparated with
    | last hlast =>
        rw [List.splitOn_eq_singleton (hfree _ _ hlast)]
        simp [(hitem _ _).mpr hlast]
    | next hfirst _ ih =>
        rw [List.splitOn_append_cons_self_of_not_mem (hfree _ _ hfirst)]
        simp [(hitem _ _).mpr hfirst, ih]

end Separated

variable {alphabet : Alphabet}

theorem LiteralText.notMem {text : List Char} {literal : Literal}
    (h : LiteralText alphabet text literal) {mark : Char} (hmark : Alphabet.isMark mark = true)
    (hother : mark ≠ '!') : mark ∉ text := by
  cases h with
  | positive hname => exact hname.notMem mark hmark
  | negative hname =>
      intro hmember
      rcases List.mem_cons.mp hmember with heq | hrest
      · exact hother heq
      · exact hname.notMem mark hmark hrest

theorem ClauseText.notMem {text : List Char} {literals : List Literal}
    (h : ClauseText alphabet text literals) : ';' ∉ text :=
  SeparatedBy.notMem (by decide) (fun _ _ hliteral => hliteral.notMem rfl (by decide)) h

theorem literalOf?_eq_some {piece : List Char} {literal : Literal} :
    literalOf? alphabet piece = some literal ↔ LiteralText alphabet piece literal := by
  unfold literalOf?
  split
  · next name =>
      rw [Option.ite_none_right_eq_some]
      constructor
      · rintro ⟨hname, heq⟩
        cases heq
        exact .negative hname
      · intro h
        cases h with
        | positive hname => exact absurd (by simp) (hname.notMem '!' rfl)
        | negative hname => exact ⟨hname, rfl⟩
  · next hunsigned =>
      rw [Option.ite_none_right_eq_some]
      constructor
      · rintro ⟨hname, heq⟩
        cases heq
        exact .positive hname
      · intro h
        cases h with
        | positive hname => exact ⟨hname, rfl⟩
        | negative hname => exact absurd rfl (hunsigned _)

/-- Cutting the text at its marks finds its derivation. -/
theorem cut?_eq_some {text : List Char} {clauses : List (List Literal)} :
    cut? alphabet text = some clauses ↔ FormulaText alphabet text clauses := by
  refine mapM_splitOn (fun piece literals => ?_) (fun _ _ hclause => hclause.notMem)
  exact mapM_splitOn (fun _ _ => literalOf?_eq_some)
    (fun _ _ hliteral => hliteral.notMem rfl (by decide))

/-- A text has one derivation only. -/
theorem FormulaText.unique {text : List Char} {first second : List (List Literal)}
    (hfirst : FormulaText alphabet text first) (hsecond : FormulaText alphabet text second) :
    first = second := by
  rw [← cut?_eq_some] at hfirst hsecond
  exact Option.some.inj (hfirst.symm.trans hsecond)

theorem distinct_of_mem_map_ofList {clauses : List (List Literal)} :
    ∀ clause ∈ clauses.map Clause.ofList, clause.Distinct := by
  rw [List.forall_mem_map]
  exact fun literals _ => Clause.distinct_ofList literals

/-- The clauses of a formula hold nothing twice. -/
theorem parse_distinct {formula : String} {set : ClauseSet}
    (hparse : parse alphabet formula = .ok set) : set.Distinct := by
  obtain ⟨clauses, -, rfl⟩ := parse_eq_ok.mp hparse
  exact ClauseSet.distinct_ofList distinct_of_mem_map_ofList

theorem condense_eq (clauses : List (List Literal)) :
    condense clauses = (ClauseSet.ofList (clauses.map Clause.ofList)).clauses := by
  have hliterals : (fun literals : List Literal => Clause.mk literals.eraseDups) =
      Clause.ofList := by
    funext literals
    rw [← Clause.literals_ofList]
  rw [ClauseSet.clauses_ofList distinct_of_mem_map_ofList, condense, hliterals]

theorem parse_eq_ok_iff {formula : String} {set : ClauseSet} :
    parse alphabet formula = .ok set ↔
      ∃ clauses, FormulaText alphabet formula.toList clauses ∧ set.clauses = condense clauses := by
  rw [parse_eq_ok]
  simp only [condense_eq]
  refine exists_congr fun clauses => and_congr_right fun _ => ?_
  constructor
  · rintro rfl
    rfl
  · intro hset
    cases set
    cases hset
    rfl

theorem condense_ne_nil {clauses : List (List Literal)} (h : clauses ≠ []) :
    condense clauses ≠ [] := by
  cases clauses with
  | nil => exact absurd rfl h
  | cons first rest => simp [condense, List.eraseDupsBy_cons]

/-- A text is read exactly if it has a derivation. It then has only one, the result
holds the clauses of that derivation without repetitions, cutting the text at its marks
gives the same, and every other text is refused as no formula. -/
theorem parse_accepts_grammar (alphabet : Alphabet) (formula : String) :
    ((∃ set, parse alphabet formula = .ok set) ↔
      ∃ clauses, FormulaText alphabet formula.toList clauses) ∧
    (∀ first second, FormulaText alphabet formula.toList first →
      FormulaText alphabet formula.toList second → first = second) ∧
    (∀ clauses, FormulaText alphabet formula.toList clauses →
      parse alphabet formula = .ok ⟨condense clauses⟩ ∧ condense clauses ≠ [] ∧
        ∀ clause ∈ condense clauses, clause.literals ≠ []) ∧
    (parse alphabet formula).toOption =
      (cut? alphabet formula.toList).map (fun clauses => ⟨condense clauses⟩) ∧
    ((¬ ∃ clauses, FormulaText alphabet formula.toList clauses) →
      ∃ fault, parse alphabet formula = .error fault ∧
        (Error.formula fault).kind = "InvalidFormulaFormat") := by
  have haccepted (clauses : List (List Literal))
      (hformula : FormulaText alphabet formula.toList clauses) :
      parse alphabet formula = .ok ⟨condense clauses⟩ :=
    parse_eq_ok_iff.mpr ⟨clauses, hformula, rfl⟩
  refine ⟨?_, ?_, ?_, ?_, ?_⟩
  · constructor
    · rintro ⟨set, hparse⟩
      obtain ⟨clauses, hformula, -⟩ := parse_eq_ok_iff.mp hparse
      exact ⟨clauses, hformula⟩
    · rintro ⟨clauses, hformula⟩
      exact ⟨_, haccepted clauses hformula⟩
  · exact fun first second hfirst hsecond => hfirst.unique hsecond
  · intro clauses hformula
    refine ⟨haccepted clauses hformula, condense_ne_nil hformula.ne_nil, ?_⟩
    intro clause hclause
    obtain ⟨literal, hliteral⟩ := parse_nonempty (haccepted clauses hformula) clause hclause
    exact List.ne_nil_of_mem hliteral
  · cases hcut : cut? alphabet formula.toList with
    | some clauses =>
        rw [haccepted clauses (cut?_eq_some.mp hcut)]
        rfl
    | none =>
        cases hparse : parse alphabet formula with
        | error fault => rfl
        | ok set =>
            obtain ⟨clauses, hformula, -⟩ := parse_eq_ok_iff.mp hparse
            cases hcut.symm.trans (cut?_eq_some.mpr hformula)
  · intro hnone
    cases hparse : parse alphabet formula with
    | error fault => exact ⟨fault, rfl, rfl⟩
    | ok set =>
        obtain ⟨clauses, hformula, -⟩ := parse_eq_ok_iff.mp hparse
        exact absurd ⟨clauses, hformula⟩ hnone

/-- Repeated literals and a clause with its literals exchanged are dropped, and a clause
without literals is no clause. -/
theorem parse_accepts_grammar_repeated :
    (∃ clauses, FormulaText .identifier "a,a,!b;!b,a;c".toList clauses) ∧
    parse .identifier "a,a,!b;!b,a;c" =
      .ok ⟨[⟨[.positive "a", .negative "b"]⟩, ⟨[.positive "c"]⟩]⟩ ∧
    ∃ fault, parse .identifier "a;;b" = .error fault ∧
      (Error.formula fault).kind = "InvalidFormulaFormat" := by
  have hformula : FormulaText .identifier "a,a,!b;!b,a;c".toList
      [[.positive "a", .positive "a", .negative "b"], [.negative "b", .positive "a"],
        [.positive "c"]] := cut?_eq_some.mp (by decide +kernel)
  have hcut : cut? .identifier "a;;b".toList = none := by decide +kernel
  have hnone : ¬ ∃ clauses, FormulaText .identifier "a;;b".toList clauses := by
    rintro ⟨clauses, hclauses⟩
    rw [← cut?_eq_some, hcut] at hclauses
    cases hclauses
  refine ⟨⟨_, hformula⟩, ?_, (parse_accepts_grammar .identifier "a;;b").2.2.2.2 hnone⟩
  exact ((parse_accepts_grammar .identifier "a,a,!b;!b,a;c").2.2.1 _ hformula).1

end Clausal.Formula
