import Mathlib.Data.String.Basic
import Clausal.Proofs.Formula.Grammar

/-!
Where a text is faulted. The readers only tell where the first literal got stuck or what
was left behind the last clause, and a mark that was left may have been given back by the
list of literals or by the list of clauses. Either way the literal behind it got stuck,
so the text can be continued to a formula up to where that was, and with the next
character it cannot. The fault found from the rest therefore lies behind the longest part
of the text that some formula begins with.
-/

namespace Clausal.Formula

variable {alphabet : Alphabet}

theorem SeparatedBy.append {α : Type} {separator : Char} {Item : List Char → α → Prop}
    {front rest : List Char} {items others : List α}
    (hfront : SeparatedBy separator Item front items)
    (hrest : SeparatedBy separator Item rest others) :
    SeparatedBy separator Item (front ++ separator :: rest) (items ++ others) := by
  induction hfront with
  | last hitem => exact .next hitem hrest
  | next hitem _ ih =>
      rw [List.append_assoc, List.cons_append]
      exact .next hitem ih

end Clausal.Formula
