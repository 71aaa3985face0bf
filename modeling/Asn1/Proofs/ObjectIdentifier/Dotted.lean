import Mathlib.Data.List.Forall2
import Asn1.ObjectIdentifier.Dotted
import Asn1.Proofs.Decimal

/-!
# Dotted texts and the arcs they denote

Reading a text and comparing an object identifier with it come to the same question: whether the
components of the text denote the arcs, one for one (`ofText_eq_ok_iff`, `matchesText_iff`). Each
object identifier is written with the plain texts of its arcs as components (`components_text`), so
a text that was read is written again just when all its components are plain (`text_eq_iff`).
-/

namespace Asn1.ObjectIdentifier

variable {oid : ObjectIdentifier} {text : String} {parts : List (List Char)}
  {numbers : List UInt64}

/-- Components denote arcs, one for one. -/
def Denote (parts : List (List Char)) (arcs : List UInt64) : Prop :=
  List.Forall₂ (fun component arc => Decimal.Denotes component arc.toNat) parts arcs

/-! ## Components -/

theorem denote_cons_iff {component : List Char} {arc : UInt64} :
    Denote (component :: parts) (arc :: numbers) ↔
      Decimal.read component = .ok arc ∧ Denote parts numbers := by
  rw [Denote, List.forall₂_cons, ← Decimal.read_eq_ok_iff, Denote]

theorem readComponents_cons {component : List Char} {arc : UInt64} :
    readComponents (component :: parts) = .ok (arc :: numbers) ↔
      Decimal.read component = .ok arc ∧ readComponents parts = .ok numbers := by
  rw [readComponents]
  cases Decimal.read component with
  | error cause => simp
  | ok number => cases readComponents parts <;> simp

theorem readComponents_eq_ok_iff : readComponents parts = .ok numbers ↔ Denote parts numbers := by
  induction parts generalizing numbers with
  | nil => simp [readComponents, Denote, eq_comm]
  | cons component parts ih =>
    cases numbers with
    | nil =>
      rw [readComponents]
      cases Decimal.read component with
      | error cause => simp [Denote]
      | ok number => cases readComponents parts <;> simp [Denote]
    | cons arc numbers => rw [readComponents_cons, denote_cons_iff, ih]

theorem matchesComponents_iff : matchesComponents numbers parts = true ↔ Denote parts numbers := by
  induction numbers generalizing parts with
  | nil => cases parts <;> simp [matchesComponents, Denote]
  | cons arc numbers ih =>
    cases parts with
    | nil => simp [matchesComponents, Denote]
    | cons component parts =>
      rw [matchesComponents, Bool.and_eq_true, ih, denote_cons_iff]
      cases Decimal.read component <;> simp

/-- All components denote something when each of them does. -/
theorem exists_denote_iff :
    (∃ numbers, Denote parts numbers) ↔
      ∀ component ∈ parts, ∃ arc, Decimal.read component = .ok arc := by
  induction parts with
  | nil => exact ⟨fun _ => by simp, fun _ => ⟨[], .nil⟩⟩
  | cons component parts ih =>
    rw [List.forall_mem_cons, ← ih]
    constructor
    · rintro ⟨numbers, h⟩
      cases h with
      | cons hcomponent hparts =>
        exact ⟨⟨_, Decimal.read_eq_ok_iff.mpr hcomponent⟩, _, hparts⟩
    · rintro ⟨⟨arc, hcomponent⟩, numbers, hparts⟩
      exact ⟨arc :: numbers, denote_cons_iff.mpr ⟨hcomponent, hparts⟩⟩

theorem Denote.length_eq (h : Denote parts numbers) : parts.length = numbers.length :=
  List.Forall₂.length_eq h

/-- The components are those that are written for the arcs when all of them are plain. -/
theorem Denote.eq_map_iff (h : Denote parts numbers) :
    (numbers.map fun arc => Nat.toDigits 10 arc.toNat) = parts ↔
      ∀ component ∈ parts, Decimal.IsPlain component := by
  induction h with
  | nil => simp
  | cons hcomponent _ ih =>
    rw [List.map_cons, List.cons.injEq, List.forall_mem_cons, ih, eq_comm,
      Decimal.eq_toDigits_iff hcomponent]

/-! ## Texts -/

theorem matchesText_iff : oid.matchesText text = true ↔ Denote (components text) oid.arcs :=
  matchesComponents_iff

theorem ofText_eq_ok_iff : ofText text = .ok oid ↔ Denote (components text) oid.arcs := by
  rw [← readComponents_eq_ok_iff, ofText, arcs]
  rcases readComponents (components text) with error | _ | ⟨first, _ | ⟨second, rest⟩⟩
  · simp
  · simp
  · simp
  · cases oid
    simp

theorem exists_ofText_iff :
    (∃ oid, ofText text = .ok oid) ↔
      2 ≤ (components text).length ∧
        ∀ component ∈ components text, ∃ value < 2 ^ 64, Decimal.Denotes component value := by
  have hreads : (∀ component ∈ components text, ∃ arc, Decimal.read component = .ok arc) ↔
      ∀ component ∈ components text, ∃ value < 2 ^ 64, Decimal.Denotes component value :=
    forall₂_congr fun _ _ => Decimal.exists_read_iff
  rw [← hreads, ← exists_denote_iff]
  constructor
  · rintro ⟨oid, h⟩
    have hdenote := ofText_eq_ok_iff.mp h
    refine ⟨?_, oid.arcs, hdenote⟩
    rw [hdenote.length_eq]
    exact Nat.le_add_left 2 oid.rest.length
  · rintro ⟨hlength, numbers, hdenote⟩
    rw [hdenote.length_eq] at hlength
    rcases numbers with _ | ⟨first, _ | ⟨second, rest⟩⟩
    · exact absurd hlength (by simp)
    · exact absurd hlength (by simp)
    · exact ⟨⟨first, second, rest⟩, ofText_eq_ok_iff.mpr hdenote⟩

theorem intercalate_components (text : String) :
    ['.'].intercalate (components text) = text.toList :=
  List.intercalate_splitOn '.'

/-- A text is determined by its components. -/
theorem components_inj {other : String} : components text = components other ↔ text = other := by
  constructor
  · intro h
    apply String.toList_inj.mp
    rw [← intercalate_components text, h, intercalate_components other]
  · intro h
    rw [h]

theorem components_text (oid : ObjectIdentifier) :
    components oid.text = oid.arcs.map fun arc => Nat.toDigits 10 arc.toNat := by
  have htext : oid.text.toList =
      ['.'].intercalate (oid.arcs.map fun arc => Nat.toDigits 10 arc.toNat) := by
    rw [ObjectIdentifier.text, String.toList_intercalate, List.map_map]
    congr 1
    exact List.map_congr_left fun arc _ => Nat.toList_repr
  rw [components, htext]
  apply List.splitOn_intercalate
  · intro component hmem hdot
    obtain ⟨arc, -, rfl⟩ := List.mem_map.mp hmem
    exact absurd ((Decimal.areDigits_toDigits arc.toNat).2 '.' hdot) (by decide)
  · simp [arcs]

/-- An object identifier is read back from its text. -/
theorem ofText_text (oid : ObjectIdentifier) : ofText oid.text = .ok oid := by
  rw [ofText_eq_ok_iff, components_text, Denote, List.forall₂_map_left_iff, List.forall₂_same]
  exact fun arc _ => Decimal.denotes_toDigits arc.toNat

/-- Comparing with the text of an object identifier is comparing with the object identifier. -/
theorem matchesText_text_iff {other : ObjectIdentifier} :
    oid.matchesText other.text = true ↔ oid = other := by
  rw [matchesText_iff, ← ofText_eq_ok_iff, ofText_text, Except.ok.injEq, eq_comm]

/-- A text that was read is written again just when all its components are plain. -/
theorem text_eq_iff (h : ofText text = .ok oid) :
    oid.text = text ↔ ∀ component ∈ components text, Decimal.IsPlain component := by
  rw [← components_inj, components_text, (ofText_eq_ok_iff.mp h).eq_map_iff]

/-- Comparing with a text, from either side, is reading the text and comparing the results. -/
theorem matchesText_agrees_ofText (oid : ObjectIdentifier) (text : String) :
    (oid.matchesText text = true ↔ ofText text = .ok oid) ∧
      isTextOf text oid = oid.matchesText text := by
  rw [matchesText_iff, ofText_eq_ok_iff]
  exact ⟨Iff.rfl, rfl⟩

/-- An object identifier is read back from its text. A text can be read when it has two components
or more and each of them denotes a number of 64 bits, and it is the text that is written for what
was read when no component has a sign or a zero too many. -/
theorem ofText_reads_numerals :
    (∀ oid : ObjectIdentifier, ofText oid.text = .ok oid) ∧
      (∀ text, (∃ oid, ofText text = .ok oid) ↔
        2 ≤ (components text).length ∧
          ∀ component ∈ components text, ∃ value < 2 ^ 64, Decimal.Denotes component value) ∧
      ∀ text oid, ofText text = .ok oid →
        (oid.text = text ↔ ∀ component ∈ components text, Decimal.IsPlain component) := by
  refine ⟨?_, ?_, ?_⟩
  · exact ofText_text
  · intro text
    exact exists_ofText_iff
  · intro text oid h
    exact text_eq_iff h

/-- A sign and zeros in front are read and not written; a sign alone is not read. -/
example : ofText "+2.0005" = .ok ⟨2, 5, []⟩ ∧
    ofText "2.+" = .error (.invalidComponent .invalidDigit) := by
  decide

end Asn1.ObjectIdentifier
