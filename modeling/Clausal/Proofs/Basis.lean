import Clausal.Proofs.Text.Quoted
import Clausal.Resolution.State
import Clausal.Tableau.State

/-!
Different values have different bases. In a basis every part is followed by a
divider or by the end of the text, and no part starts with a divider. A way of
writing values is legible if in such a place the value and the end of its text can
be read off. Names are quoted, so dividers inside them do no harm, and everything
else is put together from legible parts; the basis of a whole state is legible
because each of its parts is.
-/

namespace Clausal

namespace Basis

/-- The marks that stand behind the parts of a basis. -/
def isDivider (char : Char) : Bool :=
  char = ',' || char = ';' || char = ')' || char = ']' || char = '|'

/-- The text is at its end or goes on with a divider. -/
def atBoundary (rest : List Char) : Bool := rest.head?.all isDivider

/-- In front of a divider or the end, the text of a value tells the value and where
it stops; and it is never mistaken for no text at all. -/
structure Legible {α : Type} (write : α → String) : Prop where
  starts : ∀ value, atBoundary (write value).toList = false
  reads : ∀ {first second : α} {rest other : List Char}, atBoundary rest = true →
    atBoundary other = true → (write first).toList ++ rest = (write second).toList ++ other →
    first = second ∧ rest = other

namespace Legible

variable {α β : Type} {write : α → String}

theorem next (h : Legible write) {mark : Char} (hmark : isDivider mark = true)
    {first second : α} {rest other : List Char}
    (heq : (write first).toList ++ mark :: rest = (write second).toList ++ mark :: other) :
    first = second ∧ rest = other := by
  have hboundary (tail : List Char) : atBoundary (mark :: tail) = true := hmark
  obtain ⟨hsame, hrest⟩ := h.reads (hboundary rest) (hboundary other) heq
  exact ⟨hsame, (List.cons.inj hrest).2⟩

theorem eq_of_eq (h : Legible write) {first second : α}
    (heq : (write first).toList = (write second).toList) : first = second := by
  have hend : (write first).toList ++ [] = (write second).toList ++ [] := by
    rw [heq]
  exact (h.reads rfl rfl hend).1

theorem starts_append (h : Legible write) (value : α) (rest : List Char) :
    atBoundary ((write value).toList ++ rest) = false := by
  have hstart := h.starts value
  cases htext : (write value).toList with
  | nil => simp [htext, atBoundary] at hstart
  | cons char text => simpa [htext, atBoundary] using hstart

theorem comap (h : Legible write) {view : β → α}
    (hview : ∀ first second, view first = view second → first = second) :
    Legible fun value => write (view value) where
  starts value := h.starts (view value)
  reads hrest hother heq := by
    obtain ⟨hsame, hrest⟩ := h.reads hrest hother heq
    exact ⟨hview _ _ hsame, hrest⟩

/-- Texts without dividers are legible as soon as they differ. -/
theorem of_plain (hplain : ∀ value, (write value).toList.any isDivider = false)
    (hsome : ∀ value, (write value).toList.isEmpty = false)
    (hdiffer : ∀ first second, (write first).toList = (write second).toList → first = second) :
    Legible write where
  starts value := by
    have hplain := hplain value
    have hsome := hsome value
    cases htext : (write value).toList with
    | nil => simp [htext] at hsome
    | cons char text =>
        rw [htext, List.any_cons, Bool.or_eq_false_iff] at hplain
        exact hplain.1
  reads {first second rest other} hrest hother heq := by
    have hchars (value : α) : ∀ char ∈ (write value).toList, isDivider char = false := by
      simpa using hplain value
    obtain ⟨hsame, hrest⟩ :=
      Text.append_inj_of_stop (hchars first) (hchars second) hrest hother heq
    exact ⟨hdiffer _ _ hsame, hrest⟩

end Legible

theorem isDivider_of_isDigit {char : Char} (hdigit : char.isDigit = true) :
    isDivider char = false := by
  cases hdivider : isDivider char with
  | false => rfl
  | true =>
      simp only [isDivider, Bool.or_eq_true, decide_eq_true_eq] at hdivider
      rcases hdivider with (((rfl | rfl) | rfl) | rfl) | rfl <;> cases hdigit

theorem legible_number : Legible (toString : Nat → String) := by
  have htext (number : Nat) : (toString number).toList = Nat.toDigits 10 number := by simp
  apply Legible.of_plain
  · intro number
    rw [htext, List.any_eq_false]
    intro char hmember
    have hdigit := Nat.isDigit_of_mem_toDigits (by decide) (by decide) hmember
    simp [isDivider_of_isDigit hdigit]
  · intro number
    simp
  · intro first second heq
    rw [htext, htext] at heq
    calc
      first = Nat.ofDigitChars 10 (Nat.toDigits 10 first) 0 :=
        Nat.ofDigitChars_ten_toDigits.symm
      _ = Nat.ofDigitChars 10 (Nat.toDigits 10 second) 0 := by rw [heq]
      _ = second := Nat.ofDigitChars_ten_toDigits

theorem legible_flag : Legible flag := by
  apply Legible.of_plain
  · intro value
    cases value <;> rfl
  · intro value
    cases value <;> rfl
  · intro first second heq
    cases first <;> cases second <;> simp [flag] at heq ⊢

theorem legible_optional : Legible optional where
  starts value := by cases value <;> simp [optional, atBoundary, isDivider]
  reads {first second rest other} hrest hother heq := by
    cases first with
    | none =>
        cases second with
        | none => exact ⟨rfl, by simpa [optional] using heq⟩
        | some number => simp [optional] at heq
    | some number =>
        cases second with
        | none => simp [optional] at heq
        | some number' =>
            have hinner : (toString number).toList ++ ')' :: rest =
                (toString number').toList ++ ')' :: other := by simpa [optional] using heq
            obtain ⟨rfl, hrest⟩ := legible_number.next rfl hinner
            exact ⟨rfl, hrest⟩

theorem legible_quote : Legible Text.quote where
  starts text := by simp [Text.quote, atBoundary, isDivider]
  reads _ _ heq := Text.quote_append_inj heq

section Lists

variable {α : Type} {write : α → String}

/-- A list behind its first item. -/
def remainder (write : α → String) (items : List α) : List Char :=
  items.flatMap (fun item => ',' :: (write item).toList) ++ [']']

theorem intercalate_map_cons (write : α → String) (item : α) (items : List α) :
    [','].intercalate ((item :: items).map fun item => (write item).toList) =
      (write item).toList ++ items.flatMap fun item => ',' :: (write item).toList := by
  induction items generalizing item with
  | nil => simp
  | cons next items ih =>
      have hrest := ih next
      simp only [List.map_cons] at hrest ⊢
      rw [List.intercalate_cons_cons, hrest]
      simp

theorem toList_list_nil : (list write []).toList = ['[', ']'] := by
  simp [list]

theorem toList_list_cons (item : α) (items : List α) :
    (list write (item :: items)).toList =
      '[' :: ((write item).toList ++ remainder write items) := by
  have htext : (list write (item :: items)).toList = '[' ::
      ([','].intercalate ((item :: items).map fun item => (write item).toList) ++ [']']) := by
    simp [list, Function.comp_def]
  rw [htext, intercalate_map_cons, remainder, List.append_assoc]

theorem atBoundary_remainder (items : List α) (rest : List Char) :
    atBoundary (remainder write items ++ rest) = true := by
  cases items <;> simp [remainder, atBoundary, isDivider]

theorem remainder_append_inj (h : Legible write) {first second : List α}
    {rest other : List Char}
    (heq : remainder write first ++ rest = remainder write second ++ other) :
    first = second ∧ rest = other := by
  induction first generalizing second with
  | nil =>
      cases second with
      | nil => exact ⟨rfl, by simpa [remainder] using heq⟩
      | cons item second => simp [remainder] at heq
  | cons item first ih =>
      cases second with
      | nil => simp [remainder] at heq
      | cons item' second =>
          have hitem : (write item).toList ++ (remainder write first ++ rest) =
              (write item').toList ++ (remainder write second ++ other) := by
            simpa [remainder] using heq
          obtain ⟨rfl, htail⟩ := h.reads (atBoundary_remainder first rest)
            (atBoundary_remainder second other) hitem
          obtain ⟨rfl, hrest⟩ := ih htail
          exact ⟨rfl, hrest⟩

/-- Lists of legible items are legible. -/
theorem Legible.list (h : Legible write) : Legible (Basis.list write) where
  starts items := by simp [Basis.list, atBoundary, isDivider]
  reads {first second rest other} _ _ heq := by
    cases first with
    | nil =>
        cases second with
        | nil => exact ⟨rfl, by simpa [toList_list_nil] using heq⟩
        | cons item second =>
            -- A closing bracket cannot be the start of an item.
            have hitem : ']' :: rest =
                (write item).toList ++ (remainder write second ++ other) := by
              simpa [toList_list_nil, toList_list_cons] using heq
            have hstart := h.starts_append item (remainder write second ++ other)
            rw [← hitem] at hstart
            cases hstart
    | cons item first =>
        cases second with
        | nil =>
            have hitem : (write item).toList ++ (remainder write first ++ rest) =
                ']' :: other := by
              simpa [toList_list_nil, toList_list_cons] using heq
            have hstart := h.starts_append item (remainder write first ++ rest)
            rw [hitem] at hstart
            cases hstart
        | cons item' second =>
            have hitem : (write item).toList ++ (remainder write first ++ rest) =
                (write item').toList ++ (remainder write second ++ other) := by
              simpa [toList_list_cons] using heq
            obtain ⟨rfl, htail⟩ := h.reads (atBoundary_remainder first rest)
              (atBoundary_remainder second other) hitem
            obtain ⟨rfl, hrest⟩ := remainder_append_inj h htail
            exact ⟨rfl, hrest⟩

end Lists

end Basis

open Clausal.Basis

theorem Literal.legible_basis : Legible Literal.basis where
  starts literal := by
    cases hsign : literal.negated <;> simp [Literal.basis, hsign, atBoundary, isDivider]
  reads {first second rest other} _ _ heq := by
    obtain ⟨name, negated⟩ := first
    obtain ⟨name', negated'⟩ := second
    have hsign : negated = negated' := by
      cases negated <;> cases negated' <;> simp [Literal.basis] at heq ⊢
    subst hsign
    have hname : (Text.quote name).toList ++ rest = (Text.quote name').toList ++ other := by
      cases negated <;> simpa [Literal.basis] using heq
    obtain ⟨rfl, hrest⟩ := Text.quote_append_inj hname
    exact ⟨rfl, hrest⟩

theorem Clause.legible_basis : Legible Clause.basis :=
  Literal.legible_basis.list.comap fun _ _ => congrArg Clause.mk

theorem ClauseSet.legible_basis : Legible ClauseSet.basis :=
  Clause.legible_basis.list.comap fun _ _ => congrArg ClauseSet.mk

namespace Tableau

theorem Node.basis_append (node : Node) (rest : List Char) :
    node.basis.toList ++ rest =
      '(' :: ((Basis.optional node.parent).toList ++ ';' ::
        ((Text.quote node.literal.name).toList ++ ';' ::
          ((flag node.literal.negated).toList ++ ';' ::
            ((flag node.closed).toList ++ ';' ::
              ((Basis.optional node.target).toList ++ ';' ::
                ((list toString node.children).toList ++ ')' :: rest)))))) := by
  unfold Node.basis
  simp

theorem Node.legible_basis : Legible Node.basis where
  starts node := by
    have htext := basis_append node []
    rw [List.append_nil] at htext
    rw [htext]
    rfl
  reads {first second rest other} _ _ heq := by
    rw [basis_append, basis_append] at heq
    obtain ⟨hparent, heq⟩ := legible_optional.next rfl (List.cons.inj heq).2
    obtain ⟨hname, heq⟩ := legible_quote.next rfl heq
    obtain ⟨hnegated, heq⟩ := legible_flag.next rfl heq
    obtain ⟨hclosed, heq⟩ := legible_flag.next rfl heq
    obtain ⟨htarget, heq⟩ := legible_optional.next rfl heq
    obtain ⟨hchildren, hrest⟩ := legible_number.list.next rfl heq
    obtain ⟨parent, ⟨name, negated⟩, closed, target, children⟩ := first
    cases hparent
    cases hname
    cases hnegated
    cases hclosed
    cases htarget
    cases hchildren
    exact ⟨rfl, hrest⟩

/-- The two numbers of a move. -/
theorem numbers_append_inj {left right left' right' : Nat} {rest other : List Char}
    (heq : (toString left).toList ++ ',' :: ((toString right).toList ++ ')' :: rest) =
      (toString left').toList ++ ',' :: ((toString right').toList ++ ')' :: other)) :
    left = left' ∧ right = right' ∧ rest = other := by
  obtain ⟨hleft, heq⟩ := legible_number.next rfl heq
  obtain ⟨hright, hrest⟩ := legible_number.next rfl heq
  exact ⟨hleft, hright, hrest⟩

theorem Move.legible_text : Legible Move.text where
  starts move := by cases move <;> simp [Move.text, atBoundary, isDivider]
  reads {first second rest other} _ _ heq := by
    cases first with
    | expand leaf clause =>
        cases second with
        | expand leaf' clause' =>
            obtain ⟨rfl, rfl, hrest⟩ : leaf = leaf' ∧ clause = clause' ∧ rest = other :=
              numbers_append_inj (by simpa [Move.text] using heq)
            exact ⟨rfl, hrest⟩
        | close => simp [Move.text] at heq
        | undo => simp [Move.text] at heq
    | close leaf node =>
        cases second with
        | expand => simp [Move.text] at heq
        | close leaf' node' =>
            obtain ⟨rfl, rfl, hrest⟩ : leaf = leaf' ∧ node = node' ∧ rest = other :=
              numbers_append_inj (by simpa [Move.text] using heq)
            exact ⟨rfl, hrest⟩
        | undo => simp [Move.text] at heq
    | undo =>
        cases second with
        | expand => simp [Move.text] at heq
        | close => simp [Move.text] at heq
        | undo => exact ⟨rfl, by simpa [Move.text] using heq⟩

theorem Connectedness.legible_name : Legible Connectedness.name := by
  apply Legible.of_plain
  · intro value
    cases value <;> rfl
  · intro value
    cases value <;> rfl
  · intro first second heq
    cases first <;> cases second <;> simp [name] at heq ⊢

theorem State.toList_basis (state : State) :
    state.basis.toList = "tableaux|".toList ++
      (state.rules.connectedness.name.toList ++ '|' ::
        ((flag state.rules.regular).toList ++ '|' ::
          ((flag state.rules.backtracking).toList ++ '|' ::
            ((flag state.usedUndo).toList ++ '|' ::
              ((Text.quote state.formula).toList ++ '|' ::
                (state.clauses.basis.toList ++ '|' ::
                  ((list Node.basis state.tree.nodes).toList ++ '|' ::
                    (list Move.text state.history).toList))))))) := by
  unfold State.basis
  simp

/-- The basis of a tableau tells everything but its stamp. -/
theorem State.basis_eq_iff {first second : State} :
    first.basis = second.basis ↔ { first with stamp := second.stamp } = second := by
  constructor
  · intro heq
    have heq := congrArg String.toList heq
    rw [toList_basis, toList_basis] at heq
    obtain ⟨hconnectedness, heq⟩ :=
      Connectedness.legible_name.next rfl (List.append_cancel_left heq)
    obtain ⟨hregular, heq⟩ := legible_flag.next rfl heq
    obtain ⟨hbacktracking, heq⟩ := legible_flag.next rfl heq
    obtain ⟨husedUndo, heq⟩ := legible_flag.next rfl heq
    obtain ⟨hformula, heq⟩ := legible_quote.next rfl heq
    obtain ⟨hclauses, heq⟩ := ClauseSet.legible_basis.next rfl heq
    obtain ⟨hnodes, heq⟩ := Node.legible_basis.list.next rfl heq
    have hhistory := Move.legible_text.list.eq_of_eq heq
    obtain ⟨clauses, formula, ⟨connectedness, regular, backtracking⟩, ⟨nodes⟩, history,
      usedUndo, stamp⟩ := first
    cases hconnectedness
    cases hregular
    cases hbacktracking
    cases husedUndo
    cases hformula
    cases hclauses
    cases hnodes
    cases hhistory
    rfl
  · intro heq
    rw [← heq]
    rfl

end Tableau

namespace Resolution

theorem State.toList_basis (state : State) :
    state.basis.toList = "resolution|".toList ++
      ((Text.quote state.formula).toList ++ '|' ::
        (state.clauses.basis.toList ++ '|' :: state.hidden.basis.toList)) := by
  unfold State.basis
  simp

/-- The basis of a resolution proof tells its formula and its clauses. -/
theorem State.basis_eq_iff {first second : State} :
    first.basis = second.basis ↔ first.formula = second.formula ∧
      first.clauses = second.clauses ∧ first.hidden = second.hidden := by
  constructor
  · intro heq
    have heq := congrArg String.toList heq
    rw [toList_basis, toList_basis] at heq
    obtain ⟨hformula, heq⟩ := legible_quote.next rfl (List.append_cancel_left heq)
    obtain ⟨hclauses, heq⟩ := ClauseSet.legible_basis.next rfl heq
    exact ⟨hformula, hclauses, ClauseSet.legible_basis.eq_of_eq heq⟩
  · rintro ⟨hformula, hclauses, hhidden⟩
    unfold basis
    rw [hformula, hclauses, hhidden]

end Resolution

theorem Tableau.State.basis_ne (first : Tableau.State) (second : Resolution.State) :
    first.basis ≠ second.basis := by
  intro heq
  have heq := congrArg String.toList heq
  rw [Tableau.State.toList_basis, Resolution.State.toList_basis] at heq
  simp at heq

end Clausal
