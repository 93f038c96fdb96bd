import Clausal.Proofs.Basis
import Clausal.Proofs.Resolution.Soundness
import Clausal.Proofs.Tableau.Replay

/-!
What a seal vouches for. The basis of a state determines everything that matters
to its proof, the bytes of a text determine the text, and the hexadecimal digits of
a digest determine the digest. A seal that fits two different states is therefore a
digest that two different messages share, and there is no other way to edit a state
under its seal.
-/

namespace Clausal

namespace Seal

/-- The bytes whose digest seals the basis. -/
def message (basis : String) : List UInt8 := (domain ++ basis).toUTF8.toList

/-- Two different messages with the same digest. -/
def Collision (first second : List UInt8) : Prop :=
  first ≠ second ∧ Sha256.digest first = Sha256.digest second

/-- The walk along the bytes of a text leaves none out. -/
theorem toList_loop (bytes : ByteArray) (index : Nat) (done : List UInt8) :
    ByteArray.toList.loop bytes index done = done.reverse ++ bytes.data.toList.drop index := by
  fun_induction ByteArray.toList.loop bytes index done with
  | case1 index done hindex ih =>
      have hlength : index < bytes.data.toList.length := by simpa using hindex
      have hbyte : bytes.get! index = bytes.data.toList[index] := by
        simp [ByteArray.get!, hindex]
      rw [ih, List.drop_eq_getElem_cons hlength, hbyte]
      simp
  | case2 index done hindex =>
      have hlength : bytes.data.toList.length ≤ index := by simpa using hindex
      rw [List.drop_eq_nil_of_le hlength, List.append_nil]

theorem message_inj {first second : String} (heq : message first = message second) :
    first = second := by
  have hbytes (text : String) : text.toUTF8.toList = text.toUTF8.data.toList :=
    toList_loop text.toUTF8 0 []
  rw [message, message, hbytes, hbytes] at heq
  have harrays : (domain ++ first).toUTF8 = (domain ++ second).toUTF8 :=
    ByteArray.ext (Array.toList_inj.mp heq)
  have htexts : domain ++ first = domain ++ second := String.toByteArray_inj.mp harrays
  have hlists : domain.toList ++ first.toList = domain.toList ++ second.toList := by
    simpa only [String.toList_append] using congrArg String.toList htexts
  exact String.toList_inj.mp (List.append_cancel_left hlists)

theorem upperDigit_inj : ∀ first < 16, ∀ second < 16,
    (Nat.digitChar first).toUpper = (Nat.digitChar second).toUpper → first = second := by
  decide

theorem hexByte_inj {first second : UInt8} (heq : hexByte first = hexByte second) :
    first = second := by
  have hfirst := first.toNat_lt
  have hsecond := second.toNat_lt
  obtain ⟨hhigh, hlow⟩ :
      (first.toNat / 16).digitChar.toUpper = (second.toNat / 16).digitChar.toUpper ∧
      (first.toNat % 16).digitChar.toUpper = (second.toNat % 16).digitChar.toUpper := by
    simpa [hexByte] using heq
  have hquotient := upperDigit_inj _ (by omega) _ (by omega) hhigh
  have hremainder := upperDigit_inj _ (by omega) _ (by omega) hlow
  apply UInt8.toNat_inj.mp
  omega

theorem flatMap_hexByte_inj {first second : List UInt8}
    (heq : first.flatMap hexByte = second.flatMap hexByte) : first = second := by
  induction first generalizing second with
  | nil =>
      cases second with
      | nil => rfl
      | cons byte second => simp [hexByte] at heq
  | cons byte first ih =>
      cases second with
      | nil => simp [hexByte] at heq
      | cons byte' second =>
          rw [List.flatMap_cons, List.flatMap_cons] at heq
          obtain ⟨hbyte, hrest⟩ := List.append_inj heq rfl
          rw [hexByte_inj hbyte, ih hrest]

/-- Seals differ unless the bases agree or their messages collide. -/
theorem ofBasis_eq_iff {first second : String} :
    ofBasis first = ofBasis second ↔
      first = second ∨ Collision (message first) (message second) := by
  have hdigest : ofBasis first = ofBasis second ↔
      Sha256.digest (message first) = Sha256.digest (message second) := by
    constructor
    · intro heq
      exact flatMap_hexByte_inj (String.ofList_injective heq)
    · intro heq
      exact congrArg (fun digest => String.ofList (digest.flatMap hexByte)) heq
  rw [hdigest]
  constructor
  · intro heq
    by_cases hsame : message first = message second
    · exact .inl (message_inj hsame)
    · exact .inr ⟨hsame, heq⟩
  · rintro (rfl | ⟨-, heq⟩)
    · rfl
    · exact heq

end Seal

/-- A state that carries the seal of another one is accepted exactly if it has the
same basis or its message collides with that of the other. -/
theorem Calculus.isSealed_iff {σ μ π : Type} [Calculus σ μ π] {state other : σ}
    (hsealed : isSealed state = true) (hstamp : stamp other = stamp state) :
    isSealed other = true ↔ basis other = basis state ∨
      Seal.Collision (Seal.message (basis other)) (Seal.message (basis state)) := by
  have hseal : stamp state = Seal.ofBasis (basis state) := eq_of_beq hsealed
  rw [isSealed, beq_iff_eq, hstamp, hseal, eq_comm, Seal.ofBasis_eq_iff]

/-- The basis of a state determines it, up to its stamp and the hints for display, and
tells the two calculi apart. So whoever edits a sealed state and keeps its seal has
found a collision, or the seal is refused. -/
theorem basis_determines_state :
    (∀ first second : Tableau.State,
      first.basis = second.basis ↔ { first with stamp := second.stamp } = second) ∧
    (∀ first second : Resolution.State,
      first.basis = second.basis ↔ first.formula = second.formula ∧
        first.clauses = second.clauses ∧ first.hidden = second.hidden) ∧
    (∀ (first : Tableau.State) (second : Resolution.State), first.basis ≠ second.basis) ∧
    (∀ state edited : Tableau.State, Calculus.isSealed state = true →
      edited.stamp = state.stamp →
      (Calculus.isSealed edited = true ↔ edited = state ∨
        Seal.Collision (Seal.message edited.basis) (Seal.message state.basis))) ∧
    (∀ state edited : Resolution.State, Calculus.isSealed state = true →
      edited.stamp = state.stamp →
      (Calculus.isSealed edited = true ↔
        (edited.formula = state.formula ∧ edited.clauses = state.clauses ∧
          edited.hidden = state.hidden) ∨
        Seal.Collision (Seal.message edited.basis) (Seal.message state.basis))) := by
  refine ⟨fun _ _ => Tableau.State.basis_eq_iff, fun _ _ => Resolution.State.basis_eq_iff,
    Tableau.State.basis_ne, ?_, ?_⟩
  · intro state edited hsealed hstamp
    have hsame : edited.basis = state.basis ↔ edited = state := by
      rw [Tableau.State.basis_eq_iff, ← hstamp]
    rw [← hsame]
    exact Calculus.isSealed_iff hsealed hstamp
  · intro state edited hsealed hstamp
    rw [← Resolution.State.basis_eq_iff]
    exact Calculus.isSealed_iff hsealed hstamp

/-- A tableau under an exchanged formula and a resolution proof under an exchanged
hint, each with the seal it had before. -/
theorem basis_determines_state_exchanged :
    ∃ (tableau edited : Tableau.State) (proof hinted : Resolution.State),
      Calculus.isSealed tableau = true ∧ edited.stamp = tableau.stamp ∧
      edited.formula ≠ tableau.formula ∧
      (Calculus.isSealed edited = true ↔
        Seal.Collision (Seal.message edited.basis) (Seal.message tableau.basis)) ∧
      Calculus.isSealed proof = true ∧ hinted.stamp = proof.stamp ∧
      hinted.newest ≠ proof.newest ∧ Calculus.isSealed hinted = true := by
  obtain ⟨-, -, -, htableau, hresolution⟩ := basis_determines_state
  obtain ⟨tableau, hsealed, hformula⟩ : ∃ tableau : Tableau.State,
      Calculus.isSealed tableau = true ∧ tableau.formula = "a,b;!a;!b" :=
    ⟨Calculus.reseal (.start Formula.deniedDisjunction "a,b;!a;!b" .free),
      Calculus.isSealed_reseal _, rfl⟩
  obtain ⟨proof, hsealed', hnewest⟩ : ∃ proof : Resolution.State,
      Calculus.isSealed proof = true ∧ proof.newest = none :=
    ⟨Calculus.reseal (.start Formula.deniedDisjunction "a,b;!a;!b" .off),
      Calculus.isSealed_reseal _, rfl⟩
  have hother : "a;!a" ≠ tableau.formula := by simp [hformula]
  have hedited : ({ tableau with formula := "a;!a" } : Tableau.State) ≠ tableau :=
    fun heq => hother (congrArg Tableau.State.formula heq)
  have hcollides := htableau tableau { tableau with formula := "a;!a" } hsealed rfl
  have haccepted := hresolution proof { proof with newest := some 0 } hsealed' rfl
  exact ⟨tableau, { tableau with formula := "a;!a" }, proof, { proof with newest := some 0 },
    hsealed, rfl, hother, hcollides.trans (or_iff_right hedited), hsealed', rfl,
    by simp [hnewest], haccepted.mpr (.inl ⟨rfl, rfl, rfl⟩)⟩

end Clausal
