import Clausal.Semantics

/-!
What the operations on clause sets mean. A set leaves a clause out only if it
holds one that is the same, and a clause of the same literals says as much. No
operation changes what a set says beyond the clauses it adds.
-/

namespace Clausal

variable {assignment : Assignment}

theorem Clause.holds_of_subset {first second : Clause}
    (hsubset : ∀ literal ∈ first, literal ∈ second) (hholds : first.Holds assignment) :
    second.Holds assignment := by
  obtain ⟨literal, hliteral, htrue⟩ := hholds
  exact ⟨literal, hsubset literal hliteral, htrue⟩

theorem Clause.mem_of_same {first second : Clause} (hsame : first.same second = true) :
    ∀ literal ∈ first, literal ∈ second := by
  simp only [same, Bool.and_eq_true, List.all_eq_true, decide_eq_true_eq] at hsame
  exact hsame.2

namespace ClauseSet

theorem exists_of_contains {set : ClauseSet} {clause : Clause}
    (hcontains : set.contains clause = true) :
    ∃ found ∈ set.clauses, ∀ literal ∈ found, literal ∈ clause := by
  obtain ⟨found, hfound, hsame⟩ := List.any_eq_true.mp hcontains
  exact ⟨found, hfound, Clause.mem_of_same hsame⟩

theorem insert_eq (set : ClauseSet) (clause : Clause) :
    set.insert clause =
      if set.contains clause then set else ⟨set.clauses ++ [clause]⟩ := by
  unfold insert add
  split <;> rfl

theorem insert_of_indexOf?_eq_none {set : ClauseSet} {clause : Clause}
    (hindex : set.indexOf? clause = none) :
    set.insert clause = ⟨set.clauses ++ [clause]⟩ := by
  have hnew : set.contains clause = false := by
    rw [contains, List.any_eq_false]
    simpa using List.findIdx?_eq_none_iff.mp hindex
  rw [insert_eq, hnew]
  rfl

theorem mem_of_mem_insert {set : ClauseSet} {clause other : Clause}
    (hmember : other ∈ (set.insert clause).clauses) : other ∈ set.clauses ∨ other = clause := by
  rw [insert_eq] at hmember
  split at hmember
  · exact .inl hmember
  · simpa using hmember

theorem mem_insert_of_mem {set : ClauseSet} {clause other : Clause}
    (hmember : other ∈ set.clauses) : other ∈ (set.insert clause).clauses := by
  rw [insert_eq]
  split
  · exact hmember
  · exact List.mem_append_left _ hmember

theorem mem_insertAll_of_mem {set : ClauseSet} {clauses : List Clause} {other : Clause}
    (hmember : other ∈ set.clauses) : other ∈ (set.insertAll clauses).clauses := by
  induction clauses generalizing set with
  | nil => exact hmember
  | cons clause rest ih => exact ih (mem_insert_of_mem hmember)

/-- After an insertion the set has the clause, or one with no further literal. -/
theorem exists_mem_insert (set : ClauseSet) (clause : Clause) :
    ∃ found ∈ (set.insert clause).clauses, ∀ literal ∈ found, literal ∈ clause := by
  rw [insert_eq]
  split
  · next hcontains => exact exists_of_contains hcontains
  · exact ⟨clause, by simp, fun _ => id⟩

theorem mem_of_mem_insertAll {set : ClauseSet} {clauses : List Clause} {other : Clause}
    (hmember : other ∈ (set.insertAll clauses).clauses) :
    other ∈ set.clauses ∨ other ∈ clauses := by
  induction clauses generalizing set with
  | nil => exact .inl hmember
  | cons clause rest ih =>
      rcases ih hmember with hearlier | hrest
      · rcases mem_of_mem_insert hearlier with hset | rfl
        · exact .inl hset
        · exact .inr List.mem_cons_self
      · exact .inr (List.mem_cons_of_mem _ hrest)

theorem mem_of_mem_ofList {clauses : List Clause} {other : Clause}
    (hmember : other ∈ (ofList clauses).clauses) : other ∈ clauses := by
  rcases mem_of_mem_insertAll hmember with hnone | hmember
  · cases hnone
  · exact hmember

@[simp] theorem holds_insert {set : ClauseSet} {clause : Clause} :
    (set.insert clause).Holds assignment ↔ set.Holds assignment ∧ clause.Holds assignment := by
  rw [insert_eq]
  split
  · next hcontains =>
      obtain ⟨found, hfound, hsubset⟩ := exists_of_contains hcontains
      constructor
      · intro hholds
        exact ⟨hholds, Clause.holds_of_subset hsubset (hholds found hfound)⟩
      · exact And.left
  · simp [Holds, or_imp, forall_and]

@[simp] theorem holds_insertAll {set : ClauseSet} {clauses : List Clause} :
    (set.insertAll clauses).Holds assignment ↔
      set.Holds assignment ∧ ∀ clause ∈ clauses, clause.Holds assignment := by
  induction clauses generalizing set with
  | nil => simp [insertAll]
  | cons clause rest ih =>
      change ((set.insert clause).insertAll rest).Holds assignment ↔ _
      rw [ih, holds_insert, List.forall_mem_cons, and_assoc]

@[simp] theorem holds_empty : empty.Holds assignment := by
  simp [empty, Holds]

theorem hasEmptyClause_iff {set : ClauseSet} :
    set.hasEmptyClause = true ↔ ∃ clause ∈ set.clauses, ∀ literal, ¬ literal ∈ clause := by
  rw [hasEmptyClause, List.any_eq_true]
  refine exists_congr fun clause => and_congr_right fun _ => ?_
  rw [Clause.isEmpty, List.isEmpty_iff, List.eq_nil_iff_forall_not_mem]
  rfl

theorem not_holds_of_hasEmptyClause {set : ClauseSet} (hempty : set.hasEmptyClause = true) :
    ¬ set.Holds assignment := by
  obtain ⟨clause, hclause, hnone⟩ := hasEmptyClause_iff.mp hempty
  intro hholds
  obtain ⟨literal, hliteral, -⟩ := hholds clause hclause
  exact hnone literal hliteral

end ClauseSet

end Clausal
