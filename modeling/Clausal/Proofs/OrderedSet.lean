import Clausal.Proofs.Vocabulary
import Clausal.Proofs.Wire.Lossless

/-!
Clauses and clause sets as ordered sets. Whatever operations built them, nothing is
held twice, so what can be built are exactly the values without repetitions. Of a
clause set its supports are left when the order of the literals is forgotten. They
are a list without repetitions, and two clause sets compare as equal exactly if their
supports are permutations of each other, although the comparison looks only at sizes
and at one inclusion. It is therefore an equivalence.
-/

namespace Clausal

section Appending

variable {α : Type} {held : List α} {item : α} {old : Prop}

/-- What adding an item does: an old one is refused and nothing changes, a new one
comes behind all others and moves none of them. -/
structure Appends (held : List α) (item : α) (old : Prop) (isNew : Bool) (after : List α) :
    Prop where
  isNew_iff : isNew = true ↔ ¬ old
  appended : isNew = true → ∀ index,
    after[index]? = if index = held.length then some item else held[index]?
  kept : isNew = false → after = held

theorem appends_old (hold : old) : Appends held item old false held :=
  ⟨by simp [hold], by simp, fun _ => rfl⟩

theorem appends_new (hnew : ¬ old) : Appends held item old true (held ++ [item]) := by
  refine ⟨by simp [hnew], ?_, by simp⟩
  intro _ index
  split
  · next hlast => rw [hlast, List.getElem?_concat_length]
  · next hother =>
      by_cases hindex : index < held.length
      · rw [List.getElem?_append_left hindex]
      · have hlength : (held ++ [item]).length = held.length + 1 := List.length_append
        rw [List.getElem?_eq_none (by omega), List.getElem?_eq_none (by omega)]

end Appending

namespace Clause

/-- The clauses that operations build, one after another, from what was built before. -/
inductive Built : Clause → Prop
  | empty : Built empty
  | add {clause : Clause} (literal : Literal) : Built clause → Built (clause.add literal).2
  | insertAll {clause : Clause} (literals : List Literal) :
      Built clause → Built (clause.insertAll literals)
  | ofList (literals : List Literal) : Built (ofList literals)
  | erase {clause : Clause} (literal : Literal) : Built clause → Built (clause.erase literal)
  | union {first second : Clause} : Built first → Built second → Built (first.union second)
  | decode {json : Json} {clause : Clause} : Wire.decode json = some clause → Built clause

theorem Built.distinct {clause : Clause} (h : clause.Built) : clause.Distinct := by
  induction h with
  | empty => exact List.nodup_nil
  | add literal _ ih => exact ih.insert literal
  | insertAll literals _ ih => exact ih.insertAll literals
  | ofList literals => exact distinct_ofList literals
  | erase literal _ ih => exact ih.erase literal
  | union _ _ ih _ => exact ih.union _
  | decode hdecode => exact (record_lossless.reads hdecode).1

theorem built_iff {clause : Clause} : clause.Built ↔ clause.Distinct :=
  ⟨Built.distinct, fun h => h.ofList_literals ▸ Built.ofList clause.literals⟩

structure OrderedSet (clause : Clause) : Prop where
  once : clause.literals.Nodup
  add : ∀ literal, Appends clause.literals literal (literal ∈ clause)
    (clause.add literal).1 (clause.add literal).2.literals

theorem Distinct.orderedSet {clause : Clause} (h : clause.Distinct) : clause.OrderedSet := by
  refine ⟨h, fun literal => ?_⟩
  unfold Clause.add
  split
  · next hold => exact appends_old hold
  · next hnew => exact appends_new hnew

theorem Distinct.same_iff_subset {first second : Clause} (hfirst : first.Distinct)
    (hsecond : second.Distinct) : first.same second = true ↔
      (∀ literal ∈ first, literal ∈ second) ∧ ∀ literal ∈ second, literal ∈ first := by
  rw [same_iff hfirst hsecond, ← setEqual_iff_subset]
  rfl

theorem same_equivalence :
    Equivalence fun first second : {clause : Clause // clause.Built} =>
      first.1.same second.1 = true := by
  have hiff (first second : {clause : Clause // clause.Built}) :
      first.1.same second.1 = true ↔ first.1.SetEqual second.1 :=
    same_iff first.2.distinct second.2.distinct
  simp only [hiff]
  exact ⟨fun clause => .refl clause.1, .symm, .trans⟩

end Clause

namespace ClauseSet

/-- The clause sets that operations build from built clauses. -/
inductive Built : ClauseSet → Prop
  | empty : Built empty
  | add {set : ClauseSet} {clause : Clause} :
      Built set → clause.Built → Built (set.add clause).2
  | insertAll {set : ClauseSet} {clauses : List Clause} :
      Built set → (∀ clause ∈ clauses, clause.Built) → Built (set.insertAll clauses)
  | ofList {clauses : List Clause} :
      (∀ clause ∈ clauses, clause.Built) → Built (ofList clauses)
  | remove {set rest : ClauseSet} {index : Nat} {clause : Clause} :
      Built set → set.remove? index = some (clause, rest) → Built rest
  | decode {json : Json} {set : ClauseSet} : Wire.decode json = some set → Built set

theorem Built.distinct {set : ClauseSet} (h : set.Built) : set.Distinct := by
  induction h with
  | empty => exact distinct_empty
  | add _ hclause ih => exact ih.insert hclause.distinct
  | insertAll _ hclauses ih => exact ih.insertAll fun clause hclause =>
      (hclauses clause hclause).distinct
  | ofList hclauses => exact distinct_ofList fun clause hclause =>
      (hclauses clause hclause).distinct
  | remove _ hremove ih =>
      obtain ⟨_, -, hpair⟩ := Option.map_eq_some_iff.mp hremove
      cases hpair
      exact ih.sublist (List.eraseIdx_sublist _ _)
  | decode hdecode => exact (record_lossless.reads hdecode).1

variable {set first second : ClauseSet} {clause : Clause}

theorem Distinct.forall_contains_iff (hfirst : first.Distinct) (hsecond : second.Distinct) :
    (∀ clause ∈ first.clauses, second.contains clause = true) ↔
      first.supports ⊆ second.supports := by
  rw [supports, List.subset_def, List.forall_mem_map]
  refine forall₂_congr fun clause hclause => ?_
  rw [hsecond.contains_iff (hfirst.clause clause hclause), Clause.among_iff, supports]

/-- Equal sizes and one inclusion are enough, since neither side repeats a support. -/
theorem Distinct.same_iff_perm (hfirst : first.Distinct) (hsecond : second.Distinct) :
    first.same second = true ↔ first.supports.Perm second.supports := by
  have hcheck : first.same second = true ↔
      first.supports.length = second.supports.length ∧ first.supports ⊆ second.supports := by
    rw [same, Bool.and_eq_true, beq_iff_eq, List.all_eq_true, length_supports, length_supports,
      hfirst.forall_contains_iff hsecond]
  rw [hcheck]
  constructor
  · rintro ⟨hlength, hsubset⟩
    exact (List.subperm_of_subset hfirst.nodup_supports hsubset).perm_of_length_le hlength.ge
  · intro hperm
    exact ⟨hperm.length_eq, hperm.subset⟩

theorem Distinct.same_iff_subset (hfirst : first.Distinct) (hsecond : second.Distinct) :
    first.same second = true ↔
      (∀ clause ∈ first.clauses, second.contains clause = true) ∧
        ∀ clause ∈ second.clauses, first.contains clause = true := by
  rw [hfirst.same_iff_perm hsecond, hfirst.forall_contains_iff hsecond,
    hsecond.forall_contains_iff hfirst,
    List.perm_ext_iff_of_nodup hfirst.nodup_supports hsecond.nodup_supports]
  constructor
  · intro hmember
    exact ⟨fun content => (hmember content).mp, fun content => (hmember content).mpr⟩
  · rintro ⟨hforth, hback⟩ content
    exact ⟨fun h => hforth h, fun h => hback h⟩

theorem same_equivalence :
    Equivalence fun first second : {set : ClauseSet // set.Built} =>
      first.1.same second.1 = true := by
  have hiff (first second : {set : ClauseSet // set.Built}) :
      first.1.same second.1 = true ↔ first.1.supports.Perm second.1.supports :=
    first.2.distinct.same_iff_perm second.2.distinct
  simp only [hiff]
  exact ⟨fun set => .refl set.1.supports, .symm, .trans⟩

/-- A clause is the same as the one at some index exactly if its support is there. -/
theorem Distinct.same_at_iff (h : set.Distinct) (hclause : clause.Distinct) {index : Nat} :
    (∃ held, set.get? index = some held ∧ held.same clause = true) ↔
      set.supports[index]? = some clause.support := by
  rw [supports, List.getElem?_map, Option.map_eq_some_iff]
  refine exists_congr fun held => and_congr_right fun hheld => ?_
  have hmember : held ∈ set.clauses := List.mem_of_getElem? hheld
  rw [Clause.same_iff (h.clause held hmember) hclause, Clause.support_eq_iff]

/-- An index that holds the clause is the index of the clause, since there is no other. -/
theorem Distinct.indexOf?_eq_some (h : set.Distinct) (hclause : clause.Distinct) {index : Nat} :
    set.indexOf? clause = some index ↔
      ∃ held, set.get? index = some held ∧ held.same clause = true := by
  have hfound {index : Nat} (hindex : set.indexOf? clause = some index) :
      ∃ held, set.get? index = some held ∧ held.same clause = true := by
    obtain ⟨hlt, hsame, -⟩ := List.findIdx?_eq_some_iff_getElem.mp hindex
    exact ⟨_, List.getElem?_eq_getElem hlt, hsame⟩
  constructor
  · exact hfound
  · rintro ⟨held, hheld, hsame⟩
    obtain ⟨other, hother⟩ : ∃ other, set.indexOf? clause = some other := by
      rw [← Option.isSome_iff_exists, indexOf?, List.findIdx?_isSome, List.any_eq_true]
      exact ⟨held, List.mem_of_getElem? hheld, hsame⟩
    -- The first index found and this one hold the same support, which stands only once.
    have hthere := (h.same_at_iff hclause).mp (hfound hother)
    have hhere := (h.same_at_iff hclause).mp ⟨held, hheld, hsame⟩
    rw [hother, Option.some.injEq]
    exact (List.getElem?_inj (List.getElem?_eq_some_iff.mp hthere).1 h.nodup_supports).mp
      (hthere.trans hhere.symm)

theorem Distinct.indexOf?_congr (h : set.Distinct) {other : Clause} (hclause : clause.Distinct)
    (hother : other.Distinct) (hequal : clause.SetEqual other) :
    set.indexOf? clause = set.indexOf? other := by
  apply Option.ext
  intro index
  rw [h.indexOf?_eq_some hclause, h.indexOf?_eq_some hother, h.same_at_iff hclause,
    h.same_at_iff hother, Clause.support_eq_iff.mpr hequal]

structure OrderedSet (set : ClauseSet) : Prop where
  clause : ∀ clause ∈ set.clauses, clause.Built
  once : set.clauses.Pairwise fun first second => first.same second = false
  add : ∀ clause, Appends set.clauses clause (set.contains clause = true)
    (set.add clause).1 (set.add clause).2.clauses
  indexOf : ∀ clause, clause.Built → ∀ index, set.indexOf? clause = some index ↔
    ∃ held, set.get? index = some held ∧ held.same clause = true

theorem Distinct.orderedSet (h : set.Distinct) : set.OrderedSet where
  clause := fun clause hclause => Clause.built_iff.mpr (h.clause clause hclause)
  once := by
    refine h.apart.imp_of_mem ?_
    intro first second hfirst hsecond hapart
    rw [← Bool.not_eq_true, Clause.same_iff (h.clause first hfirst) (h.clause second hsecond)]
    exact hapart
  add := by
    intro clause
    unfold ClauseSet.add
    split
    · next hold => exact appends_old hold
    · next hnew => exact appends_new hnew
  indexOf := fun clause hclause index => h.indexOf?_eq_some hclause.distinct

/-- Collecting clauses keeps the supports of all of them and adds none. -/
theorem mem_supports_ofList {clauses : List Clause} (h : ∀ clause ∈ clauses, clause.Distinct)
    {content : Finset Literal} :
    content ∈ (ofList clauses).supports ↔ content ∈ clauses.map Clause.support := by
  constructor
  · intro hcontent
    obtain ⟨clause, hclause, rfl⟩ := List.mem_map.mp hcontent
    exact List.mem_map_of_mem (mem_of_mem_ofList hclause)
  · intro hcontent
    obtain ⟨clause, hclause, rfl⟩ := List.mem_map.mp hcontent
    exact Clause.among_iff.mp (distinct_empty.among_insertAll h hclause)

/-- The second list holds the clauses of the first one in some order, each with its
literals in some order. -/
def Rearranged (first second : List Clause) : Prop :=
  ∃ middle, first.Perm middle ∧
    List.Forall₂ (fun clause other => clause.literals.Perm other.literals) middle second

theorem Rearranged.distinct {first second : List Clause} (h : Rearranged first second)
    (hfirst : ∀ clause ∈ first, clause.Distinct) : ∀ clause ∈ second, clause.Distinct := by
  obtain ⟨middle, hperm, hliterals⟩ := h
  have hmiddle : ∀ clause ∈ middle, clause.Distinct :=
    fun clause hclause => hfirst clause (hperm.mem_iff.mpr hclause)
  clear hperm
  induction hliterals with
  | nil => simp
  | cons hsame _ ih =>
      rw [List.forall_mem_cons] at hmiddle ⊢
      exact ⟨hsame.nodup_iff.mp hmiddle.1, ih hmiddle.2⟩

theorem Rearranged.supports_perm {first second : List Clause} (h : Rearranged first second) :
    (first.map Clause.support).Perm (second.map Clause.support) := by
  obtain ⟨middle, hperm, hliterals⟩ := h
  have hsupports : middle.map Clause.support = second.map Clause.support := by
    rw [← List.forall₂_eq_eq_eq, List.forall₂_map_left_iff, List.forall₂_map_right_iff]
    exact hliterals.imp fun clause other => List.toFinset_eq_of_perm _ _
  exact hsupports ▸ hperm.map Clause.support

theorem Rearranged.supports_ofList_perm {clauses first second : List Clause}
    (hclauses : ∀ clause ∈ clauses, clause.Distinct) (hfirst : Rearranged clauses first)
    (hsecond : Rearranged clauses second) :
    (ofList first).supports.Perm (ofList second).supports := by
  have hfirstDistinct := hfirst.distinct hclauses
  have hsecondDistinct := hsecond.distinct hclauses
  rw [List.perm_ext_iff_of_nodup (distinct_ofList hfirstDistinct).nodup_supports
    (distinct_ofList hsecondDistinct).nodup_supports]
  intro content
  rw [mem_supports_ofList hfirstDistinct, mem_supports_ofList hsecondDistinct,
    ← hfirst.supports_perm.mem_iff, hsecond.supports_perm.mem_iff]

end ClauseSet

/-- However they were built, clauses and clause sets are ordered sets. On them the
comparisons are equivalences that hold exactly if each side contains all of the other,
and neither the order of clauses nor that of their literals matters to what is
collected of them. -/
theorem built_values_are_ordered_sets :
    (∀ clause : Clause, clause.Built → clause.OrderedSet) ∧
    (∀ set : ClauseSet, set.Built → set.OrderedSet) ∧
    (Equivalence fun first second : {clause : Clause // clause.Built} =>
      first.1.same second.1 = true) ∧
    (Equivalence fun first second : {set : ClauseSet // set.Built} =>
      first.1.same second.1 = true) ∧
    (∀ first second : Clause, first.Built → second.Built →
      (first.same second = true ↔
        (∀ literal ∈ first, literal ∈ second) ∧ ∀ literal ∈ second, literal ∈ first)) ∧
    (∀ first second : ClauseSet, first.Built → second.Built →
      (first.same second = true ↔
        (∀ clause ∈ first.clauses, second.contains clause = true) ∧
          ∀ clause ∈ second.clauses, first.contains clause = true)) ∧
    ∀ clauses first second : List Clause, (∀ clause ∈ clauses, clause.Built) →
      ClauseSet.Rearranged clauses first → ClauseSet.Rearranged clauses second →
      (ClauseSet.ofList first).same (.ofList second) = true ∧
        (ClauseSet.ofList first).size = (ClauseSet.ofList second).size := by
  refine ⟨fun clause hclause => hclause.distinct.orderedSet,
    fun set hset => hset.distinct.orderedSet, Clause.same_equivalence,
    ClauseSet.same_equivalence, ?_, ?_, ?_⟩
  · intro first second hfirst hsecond
    exact hfirst.distinct.same_iff_subset hsecond.distinct
  · intro first second hfirst hsecond
    exact hfirst.distinct.same_iff_subset hsecond.distinct
  · intro clauses first second hclauses hfirst hsecond
    have hdistinct : ∀ clause ∈ clauses, clause.Distinct :=
      fun clause hclause => (hclauses clause hclause).distinct
    have hperm := hfirst.supports_ofList_perm hdistinct hsecond
    constructor
    · have hleft := ClauseSet.distinct_ofList (hfirst.distinct hdistinct)
      have hright := ClauseSet.distinct_ofList (hsecond.distinct hdistinct)
      exact (hleft.same_iff_perm hright).mpr hperm
    · simpa using hperm.length_eq

/-- A clause is read twice with its literals exchanged, taken out, and added again the
other way round. The set is the same as before, with its clauses in another order. -/
theorem built_values_are_ordered_sets_exchanged :
    let disjunction : Clause := ⟨[.positive "a", .negative "b"]⟩
    let exchanged : Clause := ⟨[.negative "b", .positive "a"]⟩
    let unit : Clause := ⟨[.positive "c"]⟩
    ∃ decoded shrunk grown : ClauseSet,
      Wire.decode (ClauseSet.encode ⟨[disjunction, exchanged, unit]⟩) = some decoded ∧
      decoded.remove? 0 = some (disjunction, shrunk) ∧ shrunk.add exchanged = (true, grown) ∧
      grown.OrderedSet ∧ grown.indexOf? disjunction = some 1 ∧
      decoded.same grown = true ∧ grown.same decoded = true ∧
      (ClauseSet.ofList [disjunction, unit]).same (.ofList [unit, exchanged]) = true := by
  intro disjunction exchanged unit
  have hdecode : Wire.decode (ClauseSet.encode ⟨[disjunction, exchanged, unit]⟩) =
      some (⟨[disjunction, unit]⟩ : ClauseSet) := rfl
  have hremove : ClauseSet.remove? ⟨[disjunction, unit]⟩ 0 =
      some (disjunction, ⟨[unit]⟩) := rfl
  have hadd : ClauseSet.add ⟨[unit]⟩ exchanged = (true, ⟨[unit, exchanged]⟩) := rfl
  have hdisjunction : disjunction.Built := .ofList [.positive "a", .negative "b"]
  have hexchanged : exchanged.Built := .ofList [.negative "b", .positive "a"]
  have hdecoded : ClauseSet.Built ⟨[disjunction, unit]⟩ := .decode hdecode
  have hgrown : ClauseSet.Built ⟨[unit, exchanged]⟩ := .add (.remove hdecoded hremove) hexchanged
  obtain ⟨-, hsets, -, hequivalence, -, -, hrearranged⟩ := built_values_are_ordered_sets
  have hordered := hsets _ hgrown
  have hsame : ClauseSet.same ⟨[disjunction, unit]⟩ ⟨[unit, exchanged]⟩ = true := rfl
  have hback : ClauseSet.same ⟨[unit, exchanged]⟩ ⟨[disjunction, unit]⟩ = true :=
    hequivalence.symm (x := ⟨_, hdecoded⟩) (y := ⟨_, hgrown⟩) hsame
  have hcollected := hrearranged [disjunction, unit] [disjunction, unit] [unit, exchanged]
    hdecoded.distinct.orderedSet.clause
    ⟨_, .refl _, .cons (.refl _) (.cons (.refl _) .nil)⟩
    ⟨[unit, disjunction], .swap _ _ _, .cons (.refl _) (.cons (.swap _ _ _) .nil)⟩
  exact ⟨_, _, _, hdecode, hremove, hadd, hordered,
    (hordered.indexOf disjunction hdisjunction 1).mpr ⟨exchanged, rfl, rfl⟩, hsame, hback,
    hcollected.1⟩

end Clausal
