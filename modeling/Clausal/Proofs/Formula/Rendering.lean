import Clausal.Proofs.Formula.Grammar

/-!
Formulas of clause sets. A derivation can be read off its text, so a text that has one
is the spelling of it and of no other. Reading what was rendered therefore gives back
every clause set whose names the alphabet admits, and rendering what was read gives back
the text unless repetitions were dropped from it.
-/

namespace Clausal.Formula

variable {alphabet : Alphabet}

/-- The text of clauses, given by the literals of each of them. -/
def spell (clauses : List (List Literal)) : List Char :=
  [';'].intercalate (clauses.map fun literals =>
    [','].intercalate (literals.map fun literal => literal.text.toList))

/-- There is a clause, none of them is empty, and all names are made of admitted
characters. -/
def Writable (alphabet : Alphabet) (clauses : List (List Literal)) : Prop :=
  clauses ≠ [] ∧ ∀ literals ∈ clauses, literals ≠ [] ∧
    ∀ literal ∈ literals, NameText alphabet literal.name.toList

/-- No clause repeats a literal, and none is another one with its literals reordered. -/
def RepetitionFree (clauses : List (List Literal)) : Prop :=
  (∀ literals ∈ clauses, literals.Nodup) ∧
    clauses.Pairwise fun first second => ¬ first.Perm second

instance (alphabet : Alphabet) (clauses : List (List Literal)) :
    Decidable (Writable alphabet clauses) :=
  inferInstanceAs (Decidable (_ ∧ _))

instance (clauses : List (List Literal)) : Decidable (RepetitionFree clauses) :=
  inferInstanceAs (Decidable (_ ∧ _))

/-- Items that have one text each, if any, are separated in one way only. -/
theorem separatedBy_iff {α : Type} {separator : Char} {Item : List Char → α → Prop}
    {Valid : α → Prop} {spelling : α → List Char}
    (hitem : ∀ text item, Item text item ↔ Valid item ∧ text = spelling item)
    {text : List Char} {items : List α} :
    SeparatedBy separator Item text items ↔
      (items ≠ [] ∧ ∀ item ∈ items, Valid item) ∧
        text = [separator].intercalate (items.map spelling) := by
  constructor
  · intro hseparated
    induction hseparated with
    | last hlast =>
        obtain ⟨hvalid, rfl⟩ := (hitem _ _).mp hlast
        simp [hvalid]
    | @next text rest item items hfirst hrest ih =>
        obtain ⟨hvalid, rfl⟩ := (hitem _ _).mp hfirst
        obtain ⟨⟨-, hothers⟩, rfl⟩ := ih
        obtain ⟨second, others, rfl⟩ := List.exists_cons_of_ne_nil hrest.ne_nil
        refine ⟨⟨by simp, List.forall_mem_cons.mpr ⟨hvalid, hothers⟩⟩, ?_⟩
        simp [List.intercalate_cons_cons]
  · rintro ⟨⟨hsome, hvalid⟩, rfl⟩
    induction items with
    | nil => exact absurd rfl hsome
    | cons item items ih =>
        rw [List.forall_mem_cons] at hvalid
        have hfirst := (hitem _ item).mpr ⟨hvalid.1, rfl⟩
        cases items with
        | nil => simpa using SeparatedBy.last hfirst
        | cons second others =>
            rw [List.map_cons, List.map_cons, List.intercalate_cons_cons, List.append_assoc]
            exact .next hfirst (ih (by simp) hvalid.2)

theorem literalText_iff {text : List Char} {literal : Literal} :
    LiteralText alphabet text literal ↔
      NameText alphabet literal.name.toList ∧ text = literal.text.toList := by
  constructor
  · intro h
    cases h with
    | positive hname => simpa [Literal.text] using hname
    | negative hname => simpa [Literal.text] using hname
  · rintro ⟨hname, rfl⟩
    obtain ⟨name, negated⟩ := literal
    cases negated with
    | false => simpa [Literal.text] using LiteralText.positive hname
    | true => simpa [Literal.text] using LiteralText.negative hname

theorem clauseText_iff {text : List Char} {literals : List Literal} :
    ClauseText alphabet text literals ↔
      (literals ≠ [] ∧ ∀ literal ∈ literals, NameText alphabet literal.name.toList) ∧
        text = [','].intercalate (literals.map fun literal => literal.text.toList) := by
  refine separatedBy_iff ?_
  exact fun _ _ => literalText_iff

/-- A text has a derivation exactly if it spells it. -/
theorem formulaText_iff {text : List Char} {clauses : List (List Literal)} :
    FormulaText alphabet text clauses ↔ Writable alphabet clauses ∧ text = spell clauses := by
  refine separatedBy_iff ?_
  exact fun _ _ => clauseText_iff

theorem toList_render (set : ClauseSet) :
    (render set).toList = spell (set.clauses.map Clause.literals) := by
  simp only [render, spell, String.toList_intercalate, List.map_map, Function.comp_def]
  rfl

/-- Nothing is dropped from clauses without repetitions. -/
theorem condense_of_distinct {set : ClauseSet} (h : set.Distinct) :
    condense (set.clauses.map Clause.literals) = set.clauses := by
  have hclauses : (set.clauses.map Clause.literals).map Clause.ofList = set.clauses := by
    rw [List.map_map]
    exact (List.map_congr_left fun clause hclause =>
      (h.clause clause hclause).ofList_literals).trans (List.map_id' _)
  rw [condense_eq, hclauses, h.ofList_clauses]

theorem repetitionFree_iff {clauses : List (List Literal)} :
    RepetitionFree clauses ↔ (⟨clauses.map Clause.mk⟩ : ClauseSet).Distinct := by
  constructor
  · rintro ⟨hnodup, hapart⟩
    refine ⟨List.forall_mem_map.mpr hnodup, List.pairwise_map.mpr ?_⟩
    refine hapart.imp_of_mem ?_
    intro first second hfirst hsecond hperm hequal
    exact hperm ((List.perm_ext_iff_of_nodup (hnodup first hfirst) (hnodup second hsecond)).mpr
      hequal)
  · rintro ⟨hclause, hapart⟩
    refine ⟨fun literals hliterals => hclause ⟨literals⟩ (List.mem_map_of_mem hliterals), ?_⟩
    refine (List.pairwise_map.mp hapart).imp ?_
    intro first second hequal hperm
    exact hequal fun literal => hperm.mem_iff

/-- Condensing clauses changes them exactly if they repeat something. -/
theorem condense_eq_self_iff {clauses : List (List Literal)} :
    (condense clauses).map Clause.literals = clauses ↔ RepetitionFree clauses := by
  rw [repetitionFree_iff]
  constructor
  · intro hsame
    have hset : clauses.map Clause.mk = condense clauses := by
      calc clauses.map Clause.mk = ((condense clauses).map Clause.literals).map Clause.mk := by
            rw [hsame]
        _ = condense clauses := by
            rw [List.map_map]
            exact List.map_id' _
    rw [hset, condense_eq]
    exact ClauseSet.distinct_ofList distinct_of_mem_map_ofList
  · intro hdistinct
    have hliterals : (clauses.map Clause.mk).map Clause.literals = clauses := by
      rw [List.map_map]
      exact List.map_id' _
    have hcondensed := condense_of_distinct hdistinct
    rw [hliterals] at hcondensed
    rw [hcondensed, hliterals]

theorem parse_render {set : ClauseSet} (hdistinct : set.Distinct)
    (hwritable : Writable alphabet (set.clauses.map Clause.literals)) :
    parse alphabet (render set) = .ok set := by
  rw [parse_eq_ok_iff]
  refine ⟨set.clauses.map Clause.literals, ?_, (condense_of_distinct hdistinct).symm⟩
  rw [toList_render, formulaText_iff]
  exact ⟨hwritable, rfl⟩

theorem Writable.condense {clauses : List (List Literal)} (h : Writable alphabet clauses) :
    Writable alphabet ((condense clauses).map Clause.literals) := by
  refine ⟨by simpa using condense_ne_nil h.1, ?_⟩
  rw [List.forall_mem_map]
  intro clause hclause
  rw [condense_eq] at hclause
  obtain ⟨literals, hliterals, rfl⟩ := List.mem_map.mp (ClauseSet.mem_of_mem_ofList hclause)
  obtain ⟨hsome, hnames⟩ := h.2 literals hliterals
  constructor
  · obtain ⟨literal, hliteral⟩ := List.exists_mem_of_ne_nil literals hsome
    exact List.ne_nil_of_mem (Clause.mem_ofList.mpr hliteral)
  · intro literal hliteral
    exact hnames literal (Clause.mem_ofList.mp hliteral)

/-- Rendering and reading undo each other. A clause set without repetitions and with
admitted names is read back from its rendering, in the same order; the rendering of what
was read from a formula is read in the same way, and it is that formula exactly if the
formula repeats no literal within a clause and no clause. -/
theorem rendering_inverts_parsing (alphabet : Alphabet) :
    (∀ set : ClauseSet, set.Distinct → Writable alphabet (set.clauses.map Clause.literals) →
      parse alphabet (render set) = .ok set) ∧
    ∀ formula set, parse alphabet formula = .ok set →
      parse alphabet (render set) = .ok set ∧
      (render set = formula ↔
        ∃ clauses, FormulaText alphabet formula.toList clauses ∧ RepetitionFree clauses) := by
  refine ⟨fun set => parse_render, ?_⟩
  intro formula set hparse
  obtain ⟨clauses, hformula, hset⟩ := parse_eq_ok_iff.mp hparse
  obtain ⟨hwritable, htext⟩ := formulaText_iff.mp hformula
  have hcondensed := hwritable.condense
  rw [← hset] at hcondensed
  refine ⟨parse_render (parse_distinct hparse) hcondensed, ?_⟩
  rw [← String.toList_inj, toList_render]
  constructor
  · intro hsame
    have hrendered : FormulaText alphabet formula.toList (set.clauses.map Clause.literals) :=
      formulaText_iff.mpr ⟨hcondensed, hsame.symm⟩
    refine ⟨clauses, hformula, condense_eq_self_iff.mp ?_⟩
    rw [← hset]
    exact hrendered.unique hformula
  · rintro ⟨others, hothers, hfree⟩
    cases hothers.unique hformula
    rw [hset, condense_eq_self_iff.mpr hfree, htext]

/-- A repeated literal and a clause with its literals exchanged are not rendered again. -/
theorem rendering_inverts_parsing_repeated :
    let set : ClauseSet := ⟨[⟨[.positive "a", .negative "b"]⟩, ⟨[.positive "c"]⟩]⟩
    set.Distinct ∧ Writable .identifier (set.clauses.map Clause.literals) ∧
    parse .identifier "a,a,!b;!b,a;c" = .ok set ∧ render set = "a,!b;c" ∧
    parse .identifier (render set) = .ok set ∧
    ¬ ∃ clauses, FormulaText .identifier "a,a,!b;!b,a;c".toList clauses ∧
      RepetitionFree clauses := by
  intro set
  have hformula : FormulaText .identifier "a,a,!b;!b,a;c".toList
      [[.positive "a", .positive "a", .negative "b"], [.negative "b", .positive "a"],
        [.positive "c"]] := cut?_eq_some.mp (by decide +kernel)
  have hparse : parse .identifier "a,a,!b;!b,a;c" = .ok set :=
    parse_eq_ok_iff.mpr ⟨_, hformula, rfl⟩
  have hdistinct : set.Distinct := parse_distinct hparse
  have hwritable : Writable .identifier (set.clauses.map Clause.literals) := by decide
  have hrender : render set = "a,!b;c" := rfl
  obtain ⟨hinverse, hconverse⟩ := rendering_inverts_parsing .identifier
  refine ⟨hdistinct, hwritable, hparse, hrender, hinverse set hdistinct hwritable, ?_⟩
  rw [← (hconverse _ set hparse).2, hrender]
  decide

end Clausal.Formula
