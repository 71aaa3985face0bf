import Asn1.Proofs.Value.Encode

/-!
# Shortest length octets

An element is the encoding of its value exactly when all length octets in it, at every level, are
as short as they can be (`eq_encode_iff_isMinimal`). `HasLength` tells which length octets stand
in an element.
-/

namespace Asn1.Ber

mutual

/-- The element has these length octets, for that many content octets: they are its own or those
of an element inside it. -/
inductive HasLength : (element : Octets) → (length : Octets) → (n : Nat) → Prop
  | own {identifier length content : Octets} (hid : IsIdentifier identifier)
      (hlength : IsLength length content.length) :
      HasLength (identifier ++ length ++ content) length content.length
  | inner {identifier length content octets : Octets} {n : Nat} (hid : IsIdentifier identifier)
      (hbit : Identifier.isConstructed identifier = true)
      (hlength : IsLength length content.length) (hinner : HasLengthAmong content octets n) :
      HasLength (identifier ++ length ++ content) octets n

/-- One of the elements that follow each other has these length octets. -/
inductive HasLengthAmong : (elements : Octets) → (length : Octets) → (n : Nat) → Prop
  | head {head tail octets : Octets} {value : Value} {n : Nat} (hhead : IsElement head value)
      (h : HasLength head octets n) : HasLengthAmong (head ++ tail) octets n
  | tail {head tail octets : Octets} {value : Value} {n : Nat} (hhead : IsElement head value)
      (h : HasLengthAmong tail octets n) : HasLengthAmong (head ++ tail) octets n

end

/-- Length octets as short as they can be: one octet below 128, otherwise a first octet and then
no leading zero octet. -/
def IsMinimal (length : Octets) (n : Nat) : Prop :=
  (n < 128 → length.length = 1) ∧ (128 ≤ n → length[1]? ≠ some 0)

/-- The minimal length octets are the ones that are written. -/
theorem isMinimal_iff {length : Octets} {n : Nat} (h : IsLength length n) :
    IsMinimal length n ↔ length = Length.encode n := by
  have hmax := Length.lt_of_isLength h
  cases h with
  | short hn =>
    have hge : ¬ 128 ≤ n := Nat.not_le.mpr hn
    simp [IsMinimal, Length.encode, hn, hge]
  | @long octets hpos hcount =>
    obtain ⟨first, rest, rfl⟩ := List.exists_cons_of_length_pos hpos
    by_cases hn : Octets.toNat (first :: rest) < 128
    · -- The long form of a length below 128 is never minimal and never written.
      have hge : ¬ 128 ≤ Octets.toNat (first :: rest) := Nat.not_le.mpr hn
      simp [IsMinimal, Length.encode, hn, hge]
    · have hge : 128 ≤ Octets.toNat (first :: rest) := Nat.not_lt.mp hn
      have hsignificant := Octets.significant_toNat_cons_iff first rest
      have hminimal : IsMinimal (UInt8.ofNat (128 + (first :: rest).length) :: first :: rest)
          (Octets.toNat (first :: rest)) ↔ first ≠ 0 := by
        simp [IsMinimal, hn, hge]
      rw [hminimal, ← hsignificant]
      constructor
      · intro hall
        have hread := Octets.ofNat_toNat (first :: rest)
        rw [List.length_cons] at hread
        rw [Length.encode_of_le hge hmax, hall, hread, List.length_cons]
      · intro heq
        have hlen := congrArg List.length heq
        rw [Length.encode_of_le hge hmax] at hlen
        simp only [List.length_cons, Octets.length_ofNat] at hlen
        omega

/-! ## Which length octets stand in an element -/

/-- The parts of an element are found in one way only. -/
theorem parts_inj {identifier identifier' length length' content content' : Octets}
    (hid : IsIdentifier identifier) (hlength : IsLength length content.length)
    (hid' : IsIdentifier identifier') (hlength' : IsLength length' content'.length)
    (heq : identifier ++ length ++ content = identifier' ++ length' ++ content') :
    identifier = identifier' ∧ length = length' ∧ content = content' := by
  rw [List.append_assoc, List.append_assoc] at heq
  have hsplit := Identifier.split?_append hid (length ++ content)
  rw [heq, Identifier.split?_append hid'] at hsplit
  simp only [Option.some.injEq, Prod.mk.injEq] at hsplit
  obtain ⟨rfl, hrest⟩ := hsplit
  obtain ⟨rfl, -, rfl⟩ := Length.isLength_append_inj hlength' hlength hrest
  exact ⟨rfl, rfl, rfl⟩

theorem hasLength_iff {identifier length content octets : Octets} {n : Nat}
    (hid : IsIdentifier identifier) (hlength : IsLength length content.length) :
    HasLength (identifier ++ length ++ content) octets n ↔
      (octets = length ∧ n = content.length) ∨
        (Identifier.isConstructed identifier = true ∧ HasLengthAmong content octets n) := by
  constructor
  · intro h
    generalize helement : identifier ++ length ++ content = element at h
    cases h with
    | own hid' hlength' =>
      obtain ⟨-, rfl, rfl⟩ := parts_inj hid hlength hid' hlength' helement
      exact .inl ⟨rfl, rfl⟩
    | inner hid' hbit hlength' hinner =>
      obtain ⟨rfl, -, rfl⟩ := parts_inj hid hlength hid' hlength' helement
      exact .inr ⟨hbit, hinner⟩
  · rintro (⟨rfl, rfl⟩ | ⟨hbit, hinner⟩)
    · exact .own hid hlength
    · exact .inner hid hbit hlength hinner

theorem hasLengthAmong_append_iff {head tail octets : Octets} {value : Value} {n : Nat}
    (hhead : IsElement head value) :
    HasLengthAmong (head ++ tail) octets n ↔
      HasLength head octets n ∨ HasLengthAmong tail octets n := by
  constructor
  · intro h
    generalize helements : head ++ tail = elements at h
    cases h with
    | head hhead' h =>
      obtain ⟨rfl, -⟩ := isElement_append_inj hhead hhead' helements
      exact .inl h
    | tail hhead' h =>
      obtain ⟨-, rfl⟩ := isElement_append_inj hhead hhead' helements
      exact .inr h
  · rintro (h | h)
    · exact .head hhead h
    · exact .tail hhead h

theorem not_hasLengthAmong_nil {octets : Octets} {n : Nat} : ¬ HasLengthAmong [] octets n := by
  intro h
  generalize helements : ([] : Octets) = elements at h
  cases h with
  | head hhead _ => exact ne_nil_of_isElement hhead (List.append_eq_nil_iff.mp helements.symm).1
  | tail hhead _ => exact ne_nil_of_isElement hhead (List.append_eq_nil_iff.mp helements.symm).1

end Asn1.Ber

namespace Asn1.Value

open Ber

/-- A constructed element is an encoding part by part. -/
theorem eq_encode_constructed_iff {identifier length content : Octets} {children : List Value}
    (hid : IsIdentifier identifier) (hlength : IsLength length content.length)
    (hchildren : AreElements content children) :
    identifier ++ length ++ content = (constructed identifier children).encode ↔
      length = Length.encode content.length ∧ content = encodeAll children := by
  have hsized := length_encodeAll (areSized_of_areWellFormed
    (areWellFormed_of_areElements hchildren))
  rw [encode_constructed]
  constructor
  · intro heq
    -- What is written is an element too, and elements have their parts in one way only.
    have hmax := Length.lt_of_isLength hlength
    have hle := totalLength_le hchildren
    have hwritten := Length.isLength_encode (n := totalLength children) (by omega)
    rw [← hsized] at hwritten heq
    obtain ⟨-, hl, hc⟩ := parts_inj hid hlength hid hwritten heq
    exact ⟨hc ▸ hl, hc⟩
  · rintro ⟨hl, hc⟩
    rw [← hsized, ← hc, ← hl]

mutual

/-- An element is the encoding of its value if and only if all length octets in it are minimal. -/
theorem eq_encode_iff_isMinimal {octets : Octets} {value : Value} (h : IsElement octets value) :
    octets = value.encode ↔ ∀ length n, HasLength octets length n → IsMinimal length n := by
  cases h with
  | @primitive identifier length content hid hbit hlength =>
    have hown : IsMinimal length content.length ↔ length = Length.encode content.length :=
      isMinimal_iff hlength
    simp only [encode, hasLength_iff hid hlength, hbit, List.append_cancel_right_eq,
      List.append_cancel_left_eq]
    rw [← hown]
    constructor
    · rintro hminimal _ _ (⟨rfl, rfl⟩ | ⟨hfalse, -⟩)
      · exact hminimal
      · cases hfalse
    · intro hall
      exact hall length content.length (.inl ⟨rfl, rfl⟩)
  | @constructed identifier length content children hid hbit hlength hchildren =>
    have hown : IsMinimal length content.length ↔ length = Length.encode content.length :=
      isMinimal_iff hlength
    have hinner := eq_encodeAll_iff_isMinimal hchildren
    have hparts := eq_encode_constructed_iff hid hlength hchildren
    simp only [hparts, hasLength_iff hid hlength, hbit, true_and]
    rw [← hown, hinner]
    constructor
    · rintro ⟨hminimal, hall⟩ _ _ (⟨rfl, rfl⟩ | h)
      · exact hminimal
      · exact hall _ _ h
    · intro hall
      exact ⟨hall length content.length (.inl ⟨rfl, rfl⟩), fun l n h => hall l n (.inr h)⟩

theorem eq_encodeAll_iff_isMinimal {octets : Octets} {values : List Value}
    (h : AreElements octets values) :
    octets = encodeAll values ↔ ∀ length n, HasLengthAmong octets length n → IsMinimal length n := by
  cases h with
  | nil =>
    rw [encodeAll]
    exact ⟨fun _ _ _ h => absurd h not_hasLengthAmong_nil, fun _ => rfl⟩
  | @cons head tail value values hhead htail =>
    have hfirst := eq_encode_iff_isMinimal hhead
    have hothers := eq_encodeAll_iff_isMinimal htail
    have hparts : head ++ tail = encodeAll (value :: values) ↔
        head = value.encode ∧ tail = encodeAll values := by
      rw [encodeAll]
      constructor
      · exact isElement_append_inj hhead (isElement_encode (isWellFormed_of_isElement hhead))
      · rintro ⟨rfl, rfl⟩
        rfl
    simp only [hparts, hasLengthAmong_append_iff hhead]
    rw [hfirst, hothers]
    constructor
    · rintro ⟨hall, hall'⟩ l n (h | h)
      · exact hall l n h
      · exact hall' l n h
    · intro hall
      exact ⟨fun l n h => hall l n (.inl h), fun l n h => hall l n (.inr h)⟩

end

end Asn1.Value
