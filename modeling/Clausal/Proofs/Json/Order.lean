import Mathlib.Data.List.Perm.Basic
import Mathlib.Logic.Relation
import Clausal.Json.Normal
import Clausal.Proofs.Json.Text

/-!
The order of members. A value can be written with the members of its objects in any
order, at any depth. Whether it has a normal form does not depend on that order, and
neither does which numbers occur in it.
-/

namespace Clausal.Json

/-- The members of one object, at any depth, are put into another order. -/
inductive Reorder : Json → Json → Prop
  | members {first second : List (Option String × Json)} :
      first.Perm second → Reorder (.object first) (.object second)
  | item {old new : Json} (before after : List Json) :
      Reorder old new → Reorder (.array (before ++ old :: after)) (.array (before ++ new :: after))
  | member {old new : Json} (before after : List (Option String × Json)) (key : Option String) :
      Reorder old new →
      Reorder (.object (before ++ (key, old) :: after)) (.object (before ++ (key, new) :: after))

theorem Reorder.symm {json other : Json} (h : Reorder json other) : Reorder other json := by
  induction h with
  | members hperm => exact .members hperm.symm
  | item before after _ ih => exact .item before after ih
  | member before after key _ ih => exact .member before after key ih

/-- The text spells the value, with the members of its objects in any order and with
blanks between its tokens. -/
def Spells (json : Json) (text : String) : Prop :=
  ∃ other, Relation.ReflTransGen Reorder json other ∧ Token.Spaced other.tokens text.toList

theorem spells_render (json : Json) : json.Spells json.render := by
  have hspaced := Token.spaced_flatMap [] (by simp) json.tokens
  exact ⟨json, .refl, by simpa [render] using hspaced⟩

theorem Spells.append_newline {json : Json} {text : String} (h : json.Spells text) :
    json.Spells (text ++ "\n") := by
  obtain ⟨other, horder, hspaced⟩ := h
  exact ⟨other, horder, by simpa using hspaced.append_newline⟩

theorem Reorder.whole {json other : Json} (h : Reorder json other) (hwhole : json.Whole) :
    other.Whole := by
  induction h with
  | members hperm =>
      rw [whole_object] at hwhole ⊢
      exact fun member hmember => hwhole member (hperm.mem_iff.mpr hmember)
  | item before after _ ih =>
      simp only [whole_array, List.forall_mem_append, List.forall_mem_cons] at hwhole ⊢
      exact ⟨hwhole.1, ih hwhole.2.1, hwhole.2.2⟩
  | member before after key _ ih =>
      simp only [whole_object, List.forall_mem_append, List.forall_mem_cons] at hwhole ⊢
      exact ⟨hwhole.1, ih hwhole.2.1, hwhole.2.2⟩

theorem exists_parse?_of_spells {json : Json} {text : String} (hwhole : json.Whole)
    (h : json.Spells text) :
    ∃ other, Relation.ReflTransGen Reorder json other ∧ parse? text = some other := by
  obtain ⟨other, horder, hspaced⟩ := h
  have hother : other.Whole := by
    clear hspaced
    induction horder with
    | refl => exact hwhole
    | tail _ hstep ih => exact hstep.whole ih
  exact ⟨other, horder, parse?_of_spaced hother hspaced⟩

section Normal

variable {depth : Nat}

theorem normalItems?_isSome (items : List Json) :
    (normalItems? depth items).isSome = items.all (hasNormal depth) := by
  induction items with
  | nil => simp [normalItems?]
  | cons item items ih =>
      rw [List.all_cons, ← ih, hasNormal, normalItems?]
      cases normal? depth item <;> cases normalItems? depth items <;> rfl

theorem normalMembers?_isSome (sorted : List (String × Json))
    (members : List (Option String × Json)) :
    (normalMembers? depth sorted members).isSome =
      members.all fun member => member.1.isSome && member.2.hasNormal depth := by
  induction members generalizing sorted with
  | nil => simp [normalMembers?]
  | cons member members ih =>
      obtain ⟨key, value⟩ := member
      cases key with
      | none => simp [normalMembers?]
      | some key =>
          rw [List.all_cons, hasNormal, normalMembers?]
          cases normal? depth value with
          | none => rfl
          | some value => simp [ih]

theorem hasNormal_array (items : List Json) :
    (Json.array items).hasNormal (depth + 1) = items.all (hasNormal depth) := by
  rw [← normalItems?_isSome]
  simp [hasNormal, normal?]

theorem hasNormal_object (members : List (Option String × Json)) :
    (Json.object members).hasNormal (depth + 1) =
      members.all fun member => member.1.isSome && member.2.hasNormal depth := by
  rw [← normalMembers?_isSome []]
  simp [hasNormal, normal?]

end Normal

/-- Reordering neither makes nor breaks a normal form. -/
theorem Reorder.hasNormal_eq {json other : Json} (h : Reorder json other) (depth : Nat) :
    json.hasNormal depth = other.hasNormal depth := by
  induction h generalizing depth with
  | members hperm =>
      cases depth with
      | zero => simp [hasNormal, normal?]
      | succ depth =>
          rw [hasNormal_object, hasNormal_object]
          exact hperm.all_eq
  | item before after _ ih =>
      cases depth with
      | zero => simp [hasNormal, normal?]
      | succ depth => simp only [hasNormal_array, List.all_append, List.all_cons, ih depth]
  | member before after key _ ih =>
      cases depth with
      | zero => simp [hasNormal, normal?]
      | succ depth => simp only [hasNormal_object, List.all_append, List.all_cons, ih depth]

end Clausal.Json
