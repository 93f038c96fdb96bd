import Mathlib.Data.List.Perm.Subperm
import Clausal.Proofs.ClauseSet

/-!
Clauses and clause sets without repetitions. Whatever is built by insertion holds
every literal once and no two clauses of the same literals. On such values the
comparison of clauses is equality as sets, inserting everything anew changes
nothing, and inserting any list leaves its first occurrences in their order.
-/

namespace Clausal

namespace Clause

/-- The clause holds no literal twice. -/
def Distinct (clause : Clause) : Prop := clause.literals.Nodup

/-- The clauses hold the same literals. -/
def SetEqual (first second : Clause) : Prop := ∀ literal, literal ∈ first ↔ literal ∈ second

theorem setEqual_iff_subset {first second : Clause} :
    first.literals ⊆ second.literals ∧ second.literals ⊆ first.literals ↔
      first.SetEqual second := by
  constructor
  · rintro ⟨hforth, hback⟩ literal
    exact ⟨fun h => hforth h, fun h => hback h⟩
  · intro hequal
    exact ⟨fun literal => (hequal literal).mp, fun literal => (hequal literal).mpr⟩

instance (first second : Clause) : Decidable (first.SetEqual second) :=
  decidable_of_iff _ setEqual_iff_subset

theorem SetEqual.refl (clause : Clause) : clause.SetEqual clause := fun _ => .rfl

theorem SetEqual.symm {first second : Clause} (h : first.SetEqual second) :
    second.SetEqual first := fun literal => (h literal).symm

theorem SetEqual.trans {first second third : Clause} (hfirst : first.SetEqual second)
    (hsecond : second.SetEqual third) : first.SetEqual third :=
  fun literal => (hfirst literal).trans (hsecond literal)

/-- One of the clauses holds the same literals as this one. -/
def Among (clause : Clause) (clauses : List Clause) : Prop :=
  ∃ found ∈ clauses, found.SetEqual clause

theorem among_of_mem {clause : Clause} {clauses : List Clause} (h : clause ∈ clauses) :
    clause.Among clauses :=
  ⟨clause, h, .refl clause⟩

theorem Among.trans {clause : Clause} {clauses others : List Clause} (h : clause.Among clauses)
    (hothers : ∀ found ∈ clauses, found.Among others) : clause.Among others := by
  obtain ⟨found, hfound, hequal⟩ := h
  obtain ⟨other, hother, hsame⟩ := hothers found hfound
  exact ⟨other, hother, hsame.trans hequal⟩

theorem Among.mono {clause : Clause} {clauses others : List Clause} (h : clause.Among clauses)
    (hsubset : clauses ⊆ others) : clause.Among others :=
  h.trans fun _ hfound => among_of_mem (hsubset hfound)

/-- Among clauses without repetitions, equal size and one inclusion make two of them
equal as sets. -/
theorem same_iff {first second : Clause} (hfirst : first.Distinct) (hsecond : second.Distinct) :
    first.same second = true ↔ first.SetEqual second := by
  have hcheck : first.same second = true ↔
      first.literals.length = second.literals.length ∧ first.literals ⊆ second.literals := by
    simp only [same, size, Bool.and_eq_true, beq_iff_eq, List.all_eq_true, decide_eq_true_eq]
    rfl
  rw [hcheck]
  constructor
  · rintro ⟨hlength, hsubset⟩ literal
    have hperm : first.literals.Perm second.literals :=
      (List.subperm_of_subset hfirst hsubset).perm_of_length_le (Nat.le_of_eq hlength.symm)
    exact hperm.mem_iff
  · intro hequal
    have hperm : first.literals.Perm second.literals :=
      (List.perm_ext_iff_of_nodup hfirst hsecond).mpr hequal
    exact ⟨hperm.length_eq, hperm.subset⟩

theorem insert_eq (clause : Clause) (literal : Literal) :
    clause.insert literal =
      if literal ∈ clause then clause else ⟨clause.literals ++ [literal]⟩ := by
  unfold insert add
  split <;> rfl

theorem Distinct.insert {clause : Clause} (h : clause.Distinct) (literal : Literal) :
    (clause.insert literal).Distinct := by
  rw [insert_eq]
  split
  · exact h
  · next hnew =>
      rw [← mem_literals] at hnew
      exact List.nodup_append.mpr ⟨h, by simp, by
        rintro old hold other hother rfl
        exact hnew (List.mem_singleton.mp hother ▸ hold)⟩

theorem Distinct.insertAll {clause : Clause} (h : clause.Distinct) (literals : List Literal) :
    (clause.insertAll literals).Distinct := by
  induction literals generalizing clause with
  | nil => exact h
  | cons literal rest ih => exact ih (h.insert literal)

theorem distinct_ofList (literals : List Literal) : (ofList literals).Distinct :=
  Distinct.insertAll List.nodup_nil literals

theorem Distinct.erase {clause : Clause} (h : clause.Distinct) (literal : Literal) :
    (clause.erase literal).Distinct :=
  h.filter _

theorem Distinct.union {first : Clause} (h : first.Distinct) (second : Clause) :
    (first.union second).Distinct :=
  h.insertAll second.literals

theorem insertAll_of_nodup {done rest : List Literal} (h : (done ++ rest).Nodup) :
    insertAll ⟨done⟩ rest = ⟨done ++ rest⟩ := by
  induction rest generalizing done with
  | nil => simp [Clause.insertAll]
  | cons literal rest ih =>
      have hnew : ¬ literal ∈ (⟨done⟩ : Clause) := by
        intro hold
        exact (List.nodup_append.mp h).2.2 literal hold literal (by simp) rfl
      have hstep : insertAll ⟨done⟩ (literal :: rest) = insertAll ⟨done ++ [literal]⟩ rest := by
        change ((⟨done⟩ : Clause).insert literal).insertAll rest = _
        rw [insert_eq, if_neg hnew]
      rw [hstep, ih (by simpa using h), List.append_assoc]
      rfl

/-- A clause without repetitions is the clause of its literals. -/
theorem Distinct.ofList_literals {clause : Clause} (h : clause.Distinct) :
    ofList clause.literals = clause :=
  insertAll_of_nodup h

theorem literals_insertAll (clause : Clause) (literals : List Literal) :
    (clause.insertAll literals).literals =
      List.eraseDupsBy.loop (· == ·) literals clause.literals.reverse := by
  induction literals generalizing clause with
  | nil => simp [insertAll, List.eraseDupsBy.loop]
  | cons literal rest ih =>
      have hmember : clause.literals.reverse.any (literal == ·) = decide (literal ∈ clause) := by
        rw [Bool.eq_iff_iff]
        simp [mem_literals]
      change ((clause.insert literal).insertAll rest).literals = _
      rw [ih, List.eraseDupsBy.loop, hmember, insert_eq]
      by_cases hold : literal ∈ clause <;> simp [hold]

/-- The clause of a list of literals keeps their first occurrences. -/
theorem literals_ofList (literals : List Literal) :
    (ofList literals).literals = literals.eraseDups :=
  literals_insertAll empty literals

end Clause

namespace ClauseSet

/-- No clause of the set holds a literal twice, and no two of them hold the same
literals. -/
structure Distinct (set : ClauseSet) : Prop where
  clause : ∀ clause ∈ set.clauses, clause.Distinct
  apart : set.clauses.Pairwise fun first second => ¬ first.SetEqual second

theorem distinct_empty : empty.Distinct := ⟨by simp [empty], .nil⟩

theorem Distinct.contains_iff {set : ClauseSet} (h : set.Distinct) {clause : Clause}
    (hclause : clause.Distinct) : set.contains clause = true ↔ clause.Among set.clauses := by
  rw [contains, List.any_eq_true]
  refine exists_congr fun old => and_congr_right fun hold => ?_
  exact Clause.same_iff (h.clause old hold) hclause

/-- The set has no clause of the same literals as the new one. -/
theorem Distinct.contains_eq_false_iff {set : ClauseSet} (h : set.Distinct) {clause : Clause}
    (hclause : clause.Distinct) :
    set.contains clause = false ↔ ∀ old ∈ set.clauses, ¬ old.SetEqual clause := by
  rw [← Bool.not_eq_true, h.contains_iff hclause]
  simp [Clause.Among]

theorem Distinct.insert {set : ClauseSet} (h : set.Distinct) {clause : Clause}
    (hclause : clause.Distinct) : (set.insert clause).Distinct := by
  rw [insert_eq]
  split
  · exact h
  · next hnew =>
      have hnone := (h.contains_eq_false_iff hclause).mp (by simpa using hnew)
      constructor
      · intro other hother
        rcases List.mem_append.mp hother with hold | hlast
        · exact h.clause other hold
        · rw [List.mem_singleton.mp hlast]
          exact hclause
      · refine List.pairwise_append.mpr ⟨h.apart, by simp, ?_⟩
        intro old hold last hlast
        rw [List.mem_singleton.mp hlast]
        exact hnone old hold

theorem Distinct.insertAll {set : ClauseSet} (h : set.Distinct) {clauses : List Clause}
    (hclauses : ∀ clause ∈ clauses, clause.Distinct) : (set.insertAll clauses).Distinct := by
  induction clauses generalizing set with
  | nil => exact h
  | cons clause rest ih =>
      rw [List.forall_mem_cons] at hclauses
      exact ih (h.insert hclauses.1) hclauses.2

/-- An insertion leaves a clause out only for one of the same literals. -/
theorem Distinct.among_insert {set : ClauseSet} (h : set.Distinct) {clause : Clause}
    (hclause : clause.Distinct) : clause.Among (set.insert clause).clauses := by
  rw [insert_eq]
  split
  · next hold => exact (h.contains_iff hclause).mp hold
  · exact Clause.among_of_mem (List.mem_append_right _ List.mem_cons_self)

theorem Distinct.among_insertAll {set : ClauseSet} (h : set.Distinct) {clauses : List Clause}
    (hclauses : ∀ clause ∈ clauses, clause.Distinct) {clause : Clause}
    (hmember : clause ∈ clauses) : clause.Among (set.insertAll clauses).clauses := by
  induction clauses generalizing set with
  | nil => cases hmember
  | cons other rest ih =>
      rw [List.forall_mem_cons] at hclauses
      rcases List.mem_cons.mp hmember with rfl | hrest
      · exact (h.among_insert hclauses.1).mono fun _ => mem_insertAll_of_mem
      · exact ih (h.insert hclauses.1) hclauses.2 hrest

theorem distinct_ofList {clauses : List Clause} (h : ∀ clause ∈ clauses, clause.Distinct) :
    (ofList clauses).Distinct :=
  distinct_empty.insertAll h

theorem Distinct.sublist {set : ClauseSet} (h : set.Distinct) {clauses : List Clause}
    (hsublist : clauses.Sublist set.clauses) : (⟨clauses⟩ : ClauseSet).Distinct :=
  ⟨fun clause hclause => h.clause clause (hsublist.subset hclause), h.apart.sublist hsublist⟩

theorem insertAll_of_distinct {done rest : List Clause}
    (h : (⟨done ++ rest⟩ : ClauseSet).Distinct) : insertAll ⟨done⟩ rest = ⟨done ++ rest⟩ := by
  induction rest generalizing done with
  | nil => simp [ClauseSet.insertAll]
  | cons clause rest ih =>
      have hdone : (⟨done⟩ : ClauseSet).Distinct := h.sublist (List.sublist_append_left _ _)
      have hclause : clause.Distinct := h.clause clause (by simp)
      have hnew : contains ⟨done⟩ clause = false := by
        rw [hdone.contains_eq_false_iff hclause]
        intro old hold
        exact (List.pairwise_append.mp h.apart).2.2 old hold clause (by simp)
      have hstep : insertAll ⟨done⟩ (clause :: rest) = insertAll ⟨done ++ [clause]⟩ rest := by
        change ((⟨done⟩ : ClauseSet).insert clause).insertAll rest = _
        rw [insert_eq, if_neg (by simp [hnew])]
      rw [hstep, ih (by simpa using h), List.append_assoc]
      rfl

/-- A clause set without repetitions is the set of its clauses. -/
theorem Distinct.ofList_clauses {set : ClauseSet} (h : set.Distinct) :
    ofList set.clauses = set :=
  insertAll_of_distinct h

theorem clauses_insertAll {set : ClauseSet} (h : set.Distinct) {clauses : List Clause}
    (hclauses : ∀ clause ∈ clauses, clause.Distinct) :
    (set.insertAll clauses).clauses =
      List.eraseDupsBy.loop (fun first second => first.SetEqual second) clauses
        set.clauses.reverse := by
  induction clauses generalizing set with
  | nil => simp [ClauseSet.insertAll, List.eraseDupsBy.loop]
  | cons clause rest ih =>
      rw [List.forall_mem_cons] at hclauses
      have hmember : set.clauses.reverse.any (fun old => decide (clause.SetEqual old)) =
          set.contains clause := by
        rw [contains, List.any_reverse, Bool.eq_iff_iff, List.any_eq_true, List.any_eq_true]
        refine exists_congr fun old => and_congr_right fun hold => ?_
        rw [decide_eq_true_eq, Clause.same_iff (h.clause old hold) hclauses.1]
        exact ⟨Clause.SetEqual.symm, Clause.SetEqual.symm⟩
      change ((set.insert clause).insertAll rest).clauses = _
      rw [ih (h.insert hclauses.1) hclauses.2, List.eraseDupsBy.loop, hmember, insert_eq]
      cases set.contains clause <;> simp

/-- The set of a list of clauses keeps the first one of those with the same
literals. -/
theorem clauses_ofList {clauses : List Clause} (h : ∀ clause ∈ clauses, clause.Distinct) :
    (ofList clauses).clauses =
      clauses.eraseDupsBy fun first second => first.SetEqual second :=
  clauses_insertAll distinct_empty h

end ClauseSet

end Clausal
