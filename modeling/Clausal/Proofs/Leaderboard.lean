import Mathlib.Data.List.Pairwise
import Clausal.Leaderboard

/-!
Leaderboards as ranked records. A board is sorted anew whenever it is asked for, out of a log
in which the summaries of all formulas are mixed. Still it is determined by what was recorded
for its formula: it holds just that, the best first and equals in the order of the log. So a
new summary moves nothing else; it goes behind all that are at least as good.
-/

namespace Clausal

def Summary.entry (summary : Summary) : Json × Int := (summary.details, summary.score)

namespace Leaderboard

/-- What the summaries of a formula put on its board, in their order. -/
def entriesFor (formula : String) (summaries : List Summary) : List (Json × Int) :=
  (summaries.filter (·.formula == formula)).map Summary.entry

/-- The board holds what is in the log, with the best scores first, and entries with the
same score in the order of the log. -/
structure Ranks (log board : List (Json × Int)) : Prop where
  perm : board.Perm log
  sorted : board.Pairwise fun upper lower => lower.2 ≤ upper.2
  ties : ∀ score, board.filter (·.2 == score) = log.filter (·.2 == score)

/-- The entry stands behind all entries that are at least as good and before all others,
which are as they were. -/
def Inserted (entry : Json × Int) (board next : List (Json × Int)) : Prop :=
  ∃ before after, board = before ++ after ∧ next = before ++ entry :: after ∧
    (∀ better ∈ before, entry.2 ≤ better.2) ∧ ∀ worse ∈ after, worse.2 < entry.2

section Ranking

variable {log board : List (Json × Int)} {entry : Json × Int}

theorem mem_iff_of_ties {first second : List (Json × Int)}
    (hties : ∀ score, first.filter (·.2 == score) = second.filter (·.2 == score)) :
    entry ∈ first ↔ entry ∈ second := by
  have hscore := congrArg (entry ∈ ·) (hties entry.2)
  simpa [List.mem_filter] using hscore

/-- Two sorted boards with the same entries of each score are the same. -/
theorem eq_of_ties {first second : List (Json × Int)}
    (hfirst : first.Pairwise fun upper lower => lower.2 ≤ upper.2)
    (hsecond : second.Pairwise fun upper lower => lower.2 ≤ upper.2)
    (hties : ∀ score, first.filter (·.2 == score) = second.filter (·.2 == score)) :
    first = second := by
  induction first generalizing second with
  | nil =>
      cases second with
      | nil => rfl
      | cons best rest => exact absurd ((mem_iff_of_ties hties).mpr (.head rest)) (by simp)
  | cons best rest ih =>
      cases second with
      | nil => exact absurd ((mem_iff_of_ties hties).mp (.head rest)) (by simp)
      | cons other others =>
          rw [List.pairwise_cons] at hfirst hsecond
          have hscore : best.2 = other.2 := by
            have hbest : best ∈ other :: others := (mem_iff_of_ties hties).mp (.head rest)
            have hother : other ∈ best :: rest := (mem_iff_of_ties hties).mpr (.head others)
            rcases List.mem_cons.mp hbest with rfl | hbest
            · rfl
            · rcases List.mem_cons.mp hother with rfl | hother
              · rfl
              · exact Int.le_antisymm (hsecond.1 best hbest) (hfirst.1 other hother)
          -- Both are the first entry of the best score.
          have hheads := hties best.2
          simp only [List.filter_cons, hscore, beq_self_eq_true, if_true, List.cons.injEq]
            at hheads
          obtain ⟨rfl, -⟩ := hheads
          rw [ih hfirst.2 hsecond.2]
          intro score
          have hboth := hties score
          rw [List.filter_cons, List.filter_cons] at hboth
          split at hboth
          · exact (List.cons.inj hboth).2
          · exact hboth

/-- A log determines its board. -/
theorem Ranks.unique {other : List (Json × Int)} (h : Ranks log board) (hother : Ranks log other) :
    other = board :=
  eq_of_ties hother.sorted h.sorted fun score => (hother.ties score).trans (h.ties score).symm

/-- A stable sort leaves entries that count as equal in their order. -/
theorem filter_mergeSort {α : Type} {le : α → α → Bool} {level : α → Bool}
    (htrans : ∀ one two three, le one two = true → le two three = true → le one three = true)
    (htotal : ∀ one two, (le one two || le two one) = true)
    (hlevel : ∀ one two, level one = true → level two = true → le one two = true)
    (items : List α) : (items.mergeSort le).filter level = items.filter level := by
  have hordered : (items.filter level).Pairwise fun one two => le one two = true := by
    refine List.pairwise_of_forall_mem_list ?_
    intro one hone two htwo
    exact hlevel one two (List.mem_filter.mp hone).2 (List.mem_filter.mp htwo).2
  -- Being in order, they are found in this order in the sorted list, and there are no more.
  have hsublist := (List.sublist_mergeSort htrans htotal hordered List.filter_sublist).filter level
  rw [List.filter_filter] at hsublist
  simp only [Bool.and_self] at hsublist
  have hlength := ((List.mergeSort_perm items le).filter level).length_eq
  exact (hsublist.eq_of_length hlength.symm).symm

/-- Sorting by the score, the best first, neither loses nor doubles an entry and keeps
equals in their order. -/
theorem ranks_mergeSort (log : List (Json × Int)) :
    Ranks log (log.mergeSort fun first second => second.2 ≤ first.2) := by
  have htrans (one two three : Json × Int) (hone : decide (two.2 ≤ one.2) = true)
      (htwo : decide (three.2 ≤ two.2) = true) : decide (three.2 ≤ one.2) = true :=
    decide_eq_true (Int.le_trans (of_decide_eq_true htwo) (of_decide_eq_true hone))
  have htotal (one two : Json × Int) :
      (decide (two.2 ≤ one.2) || decide (one.2 ≤ two.2)) = true := by
    rw [Bool.or_eq_true, decide_eq_true_eq, decide_eq_true_eq]
    exact Int.le_total two.2 one.2
  refine ⟨List.mergeSort_perm log _, ?_, ?_⟩
  · exact (List.pairwise_mergeSort htrans htotal log).imp of_decide_eq_true
  · intro score
    refine filter_mergeSort htrans htotal ?_ log
    intro one two hone htwo
    exact decide_eq_true (Int.le_of_eq ((eq_of_beq htwo).trans (eq_of_beq hone).symm))

/-- A new entry that is put behind all that are at least as good ranks the longer log. -/
theorem Ranks.append {next : List (Json × Int)} (h : Ranks log board)
    (hinserted : Inserted entry board next) : Ranks (log ++ [entry]) next := by
  obtain ⟨before, after, rfl, rfl, hbefore, hafter⟩ := hinserted
  refine ⟨?_, ?_, ?_⟩
  · have hfront : (before ++ entry :: after).Perm (entry :: log) :=
      List.perm_middle.trans (h.perm.cons entry)
    exact hfront.trans (List.perm_append_singleton entry log).symm
  · obtain ⟨hupper, hlower, hcross⟩ := List.pairwise_append.mp h.sorted
    refine List.pairwise_append.mpr ⟨hupper, List.pairwise_cons.mpr ⟨?_, hlower⟩, ?_⟩
    · exact fun worse hworse => Int.le_of_lt (hafter worse hworse)
    · intro better hbetter lower hlower
      rcases List.mem_cons.mp hlower with rfl | hlower
      · exact hbefore better hbetter
      · exact hcross better hbetter lower hlower
  · intro score
    have hties := h.ties score
    rw [List.filter_append] at hties
    rw [List.filter_append, List.filter_append, List.filter_cons, ← hties]
    by_cases hscore : entry.2 = score
    · -- No worse entry has this score.
      have hnone : after.filter (·.2 == score) = [] := by
        refine List.filter_eq_nil_iff.mpr fun worse hworse => ?_
        have hlt := hafter worse hworse
        rw [beq_iff_eq]
        omega
      simp [hscore, hnone]
    · simp [hscore]

theorem exists_inserted (hsorted : board.Pairwise fun upper lower => lower.2 ≤ upper.2)
    (entry : Json × Int) : ∃ next, Inserted entry board next := by
  induction board with
  | nil => exact ⟨[entry], [], [], rfl, rfl, by simp, by simp⟩
  | cons best rest ih =>
      rw [List.pairwise_cons] at hsorted
      by_cases hbest : entry.2 ≤ best.2
      · obtain ⟨next, before, after, rfl, rfl, hbefore, hafter⟩ := ih hsorted.2
        refine ⟨best :: (before ++ entry :: after), best :: before, after, rfl, rfl, ?_, hafter⟩
        exact List.forall_mem_cons.mpr ⟨hbest, hbefore⟩
      · refine ⟨entry :: best :: rest, [], best :: rest, rfl, rfl, by simp, ?_⟩
        refine List.forall_mem_cons.mpr ⟨by omega, fun worse hworse => ?_⟩
        have hle := hsorted.1 worse hworse
        omega

/-- The board of a log with one more entry is the old board with the entry inserted. -/
theorem Ranks.inserted {next : List (Json × Int)} (h : Ranks log board)
    (hnext : Ranks (log ++ [entry]) next) : Inserted entry board next := by
  obtain ⟨other, hother⟩ := exists_inserted h.sorted entry
  rw [← hnext.unique (h.append hother)]
  exact hother

end Ranking

/-- A call to record a summary. -/
structure Call where
  summary : Summary
  /-- Whether it goes to the keeper that records nothing. -/
  offline : Bool

def Call.keeper (call : Call) : Keeper := if call.offline then refuse else keep

/-- The board after all the calls. -/
def recordAll (board : Leaderboard) (calls : List Call) : Leaderboard :=
  calls.foldl (fun board call => (board.record call.keeper call.summary).2) board

/-- The summaries whose calls reported success, in the order of the calls. -/
def successes (board : Leaderboard) : List Call → List Summary
  | [] => []
  | call :: calls =>
      let (recorded, next) := board.record call.keeper call.summary
      if recorded then call.summary :: next.successes calls else next.successes calls

section Log

variable {board : Leaderboard} {call : Call} {formula : String}

theorem ranks_ranking (board : Leaderboard) (formula : String) :
    Ranks (entriesFor formula board.entries) (board.ranking formula) :=
  ranks_mergeSort _

theorem record_offline (hoffline : call.offline = true) :
    board.record call.keeper call.summary = (false, board) := by
  rw [Call.keeper, if_pos hoffline]
  rfl

theorem record_kept (hkept : call.offline = false) :
    board.record call.keeper call.summary = (true, ⟨board.entries ++ [call.summary]⟩) := by
  rw [Call.keeper, if_neg (by simp [hkept])]
  rfl

/-- Calls succeed unless they go to the keeper that refuses. -/
theorem successes_eq (board : Leaderboard) (calls : List Call) :
    board.successes calls = (calls.filter (!·.offline)).map Call.summary := by
  induction calls generalizing board with
  | nil => rfl
  | cons call calls ih =>
      cases hoffline : call.offline with
      | true => simp [successes, record_offline hoffline, hoffline, ih]
      | false => simp [successes, record_kept hoffline, hoffline, ih]

/-- The log holds what was reported as recorded. -/
theorem entries_recordAll (board : Leaderboard) (calls : List Call) :
    (board.recordAll calls).entries = board.entries ++ board.successes calls := by
  induction calls generalizing board with
  | nil => exact (List.append_nil _).symm
  | cons call calls ih =>
      rw [recordAll, List.foldl_cons, successes]
      cases hoffline : call.offline with
      | true =>
          rw [record_offline hoffline]
          exact ih board
      | false =>
          rw [record_kept hoffline]
          exact (ih _).trans (List.append_assoc _ _ _)

theorem recordAll_append (board : Leaderboard) (calls : List Call) (call : Call) :
    board.recordAll (calls ++ [call]) =
      ((board.recordAll calls).record call.keeper call.summary).2 := by
  rw [recordAll, List.foldl_append]
  rfl

/-- A summary of another formula, or one that is refused, leaves the board alone. -/
theorem ranking_record_of_foreign
    (hforeign : call.offline = true ∨ call.summary.formula ≠ formula) :
    (board.record call.keeper call.summary).2.ranking formula = board.ranking formula := by
  cases hoffline : call.offline with
  | true => rw [record_offline hoffline]
  | false =>
      have hother : call.summary.formula ≠ formula := by simpa [hoffline] using hforeign
      rw [record_kept hoffline]
      simp [ranking, hother]

theorem inserted_record (hkept : call.offline = false)
    (hformula : call.summary.formula = formula) :
    Inserted call.summary.entry (board.ranking formula)
      ((board.record call.keeper call.summary).2.ranking formula) := by
  rw [record_kept hkept]
  have hlog : entriesFor formula (board.entries ++ [call.summary]) =
      entriesFor formula board.entries ++ [call.summary.entry] := by
    simp [entriesFor, hformula]
  have hnext := ranks_ranking ⟨board.entries ++ [call.summary]⟩ formula
  rw [hlog] at hnext
  exact (ranks_ranking board formula).inserted hnext

end Log

/-- A board is the ranked record of its formula. Whatever calls were made, it holds exactly
what was reported as recorded for the formula, ranked by score and then by age, and no other
list does. A further call leaves it alone if it is refused or is about another formula, and
otherwise inserts its entry. -/
theorem board_is_ranked_record (calls : List Call) (formula : String) :
    empty.successes calls = (calls.filter (!·.offline)).map Call.summary ∧
    (∀ board, Ranks (entriesFor formula (empty.successes calls)) board ↔
      board = (empty.recordAll calls).ranking formula) ∧
    ∀ call : Call,
      (call.offline = true ∨ call.summary.formula ≠ formula →
        (empty.recordAll (calls ++ [call])).ranking formula =
          (empty.recordAll calls).ranking formula) ∧
      (call.offline = false → call.summary.formula = formula →
        Inserted call.summary.entry ((empty.recordAll calls).ranking formula)
          ((empty.recordAll (calls ++ [call])).ranking formula)) := by
  have hranks := ranks_ranking (empty.recordAll calls) formula
  have hlog : (empty.recordAll calls).entries = empty.successes calls :=
    entries_recordAll empty calls
  rw [hlog] at hranks
  refine ⟨successes_eq empty calls, fun board => ⟨hranks.unique, fun h => h ▸ hranks⟩, ?_⟩
  intro call
  rw [recordAll_append]
  exact ⟨ranking_record_of_foreign, inserted_record⟩

/-- Between the calls for a formula there is one for another formula and one that is
refused. The last summary goes behind the one with the same score. -/
theorem board_is_ranked_record_tied :
    ∃ (calls : List Call) (call refused : Call) (best worst : Json × Int),
      (empty.recordAll calls).ranking "a" = [best, worst] ∧ call.summary.score = best.2 ∧
      refused.offline = true ∧
      (empty.recordAll (calls ++ [refused])).ranking "a" = [best, worst] ∧
      Inserted call.summary.entry ((empty.recordAll calls).ranking "a")
        ((empty.recordAll (calls ++ [call])).ranking "a") ∧
      (empty.recordAll (calls ++ [call])).ranking "a" = [best, call.summary.entry, worst] := by
  let calls : List Call :=
    [⟨⟨"a", 10, .null⟩, false⟩, ⟨⟨"b", 50, .null⟩, false⟩, ⟨⟨"a", 90, .null⟩, true⟩,
      ⟨⟨"a", 50, .bool true⟩, false⟩]
  let call : Call := ⟨⟨"a", 50, .bool false⟩, false⟩
  let refused : Call := ⟨⟨"a", 70, .null⟩, true⟩
  have hranks : Ranks [(.null, 10), (.bool true, 50)] [(.bool true, 50), (.null, 10)] := by
    refine ⟨.swap _ _ _, by simp, fun score => ?_⟩
    by_cases hworst : (10 : Int) = score
    · subst hworst
      rfl
    · simp [List.filter_cons, hworst]
  have hlonger : Ranks ([(.null, 10), (.bool true, 50)] ++ [(.bool false, 50)])
      [(.bool true, 50), (.bool false, 50), (.null, 10)] :=
    hranks.append ⟨[(.bool true, 50)], [(.null, 10)], rfl, rfl, by simp, by simp⟩
  obtain ⟨-, hboard, hnext⟩ := board_is_ranked_record calls "a"
  obtain ⟨-, hlast, -⟩ := board_is_ranked_record (calls ++ [call]) "a"
  have hbefore := (hboard _).mp hranks
  exact ⟨calls, call, refused, _, _, hbefore.symm, rfl, rfl,
    ((hnext refused).1 (.inl rfl)).trans hbefore.symm, (hnext call).2 rfl rfl,
    ((hlast _).mp hlonger).symm⟩

end Leaderboard

end Clausal
