import Asn1.Proofs.Value.Descent
import Asn1.Value.Encode

/-!
# Encodings in the grammar

The encoding of a value is one of the elements that denote it (`isElement_encode`), for every
value that the grammar can give at all: those are the well-formed ones. Of all these elements the
encoding is the shortest, and no other one is as short (`encodedLength_le`,
`eq_encode_of_length_le`).
-/

namespace Asn1.Value

open Ber

mutual

/-- Identifiers are complete and tell the constructed values from the primitive ones, contents fit
into four length octets, and content lengths are what the children add up to. -/
def IsWellFormed : Value → Prop
  | .primitive identifier content =>
    IsIdentifier identifier ∧ Identifier.isConstructed identifier = false ∧
      content.length < 256 ^ 4
  | .node identifier children contentLength =>
    IsIdentifier identifier ∧ Identifier.isConstructed identifier = true ∧
      contentLength < 256 ^ 4 ∧ contentLength = totalLength children ∧ AreWellFormed children

/-- Every value of a list is well-formed. -/
def AreWellFormed : List Value → Prop
  | [] => True
  | value :: values => value.IsWellFormed ∧ AreWellFormed values

end

theorem areWellFormed_append {values values' : List Value} :
    AreWellFormed (values ++ values') ↔ AreWellFormed values ∧ AreWellFormed values' := by
  induction values with
  | nil => simp [AreWellFormed]
  | cons value values ih => simp only [List.cons_append, AreWellFormed, ih, and_assoc]

theorem encode_constructed (identifier : Octets) (children : List Value) :
    (constructed identifier children).encode =
      identifier ++ Length.encode (totalLength children) ++ encodeAll children := by
  rw [constructed, encode]

theorem encodedLength_constructed (identifier : Octets) (children : List Value) :
    (constructed identifier children).encodedLength =
      identifier.length + Length.octetCount (totalLength children) + totalLength children := rfl

/-- More content never takes fewer octets in all. -/
theorem totalLength_eq_of_encodedLength {identifier : Octets} {values values' : List Value}
    (h : (constructed identifier values).encodedLength =
      (constructed identifier values').encodedLength) :
    totalLength values = totalLength values' := by
  rw [encodedLength_constructed, encodedLength_constructed] at h
  rcases Nat.le_total (totalLength values) (totalLength values') with hle | hle
  · have := Length.octetCount_mono hle
    omega
  · have := Length.octetCount_mono hle
    omega

/-! ## Sizes -/

mutual

/-- The encoding of a sized value takes as many octets as are foreseen for it. -/
theorem length_encode : {value : Value} → value.IsSized →
    value.encode.length = value.encodedLength
  | .primitive identifier content, _ => by
    simp [encode, encodedLength, Value.identifier, contentLength, Nat.add_assoc]
  | .node identifier children n, h => by
    rw [IsSized] at h
    obtain ⟨rfl, hchildren⟩ := h
    simp [encode, encodedLength, Value.identifier, contentLength, length_encodeAll hchildren,
      Nat.add_assoc]

theorem length_encodeAll : {values : List Value} → AreSized values →
    (encodeAll values).length = totalLength values
  | [], _ => by simp [encodeAll]
  | value :: values, h => by
    rw [AreSized] at h
    rw [encodeAll, List.length_append, length_encode h.1, length_encodeAll h.2, totalLength_cons]

end

mutual

theorem isSized_of_isWellFormed : {value : Value} → value.IsWellFormed → value.IsSized
  | .primitive identifier content, _ => isSized_primitive identifier content
  | .node identifier children n, h => by
    rw [IsWellFormed] at h
    rw [IsSized]
    exact ⟨h.2.2.2.1, areSized_of_areWellFormed h.2.2.2.2⟩

theorem areSized_of_areWellFormed : {values : List Value} → AreWellFormed values → AreSized values
  | [], _ => by simp [AreSized]
  | value :: values, h => by
    rw [AreWellFormed] at h
    rw [AreSized]
    exact ⟨isSized_of_isWellFormed h.1, areSized_of_areWellFormed h.2⟩

end

/-! ## The encoding as an element -/

mutual

/-- The encoding of a well-formed value is an element that denotes it. -/
theorem isElement_encode : {value : Value} → value.IsWellFormed → IsElement value.encode value
  | .primitive identifier content, h => by
    rw [IsWellFormed] at h
    rw [encode]
    exact .primitive h.1 h.2.1 (Length.isLength_encode h.2.2)
  | .node identifier children n, h => by
    rw [IsWellFormed] at h
    obtain ⟨hid, hbit, hmax, rfl, hchildren⟩ := h
    have hlen := length_encodeAll (areSized_of_areWellFormed hchildren)
    rw [← hlen] at hmax
    rw [encode, ← hlen]
    have helement := IsElement.constructed hid hbit (Length.isLength_encode hmax)
      (areElements_encodeAll hchildren)
    rwa [constructed, ← hlen] at helement

theorem areElements_encodeAll : {values : List Value} → AreWellFormed values →
    AreElements (encodeAll values) values
  | [], _ => by
    rw [encodeAll]
    exact .nil
  | value :: values, h => by
    rw [AreWellFormed] at h
    rw [encodeAll]
    exact .cons (isElement_encode h.1) (areElements_encodeAll h.2)

end

theorem encode_inj {value other : Value} (hvalue : value.IsWellFormed)
    (hother : other.IsWellFormed) (h : value.encode = other.encode) : value = other := by
  have hread := isElement_encode hvalue
  rw [h] at hread
  exact isElement_unique hread (isElement_encode hother)

/-! ## Elements and the encoding of their value -/

mutual

/-- No element is shorter than the encoding of its value: shorter contents never need longer
length octets. -/
theorem encodedLength_le {octets : Octets} {value : Value} (h : IsElement octets value) :
    value.encodedLength ≤ octets.length := by
  cases h with
  | primitive hid hbit hlength =>
    have := Length.octetCount_le_of_isLength hlength
    simp only [encodedLength, Value.identifier, contentLength, List.length_append]
    omega
  | constructed hid hbit hlength hchildren =>
    -- The length octets are those of the longer content, so they are compared in two steps.
    have hinner := totalLength_le hchildren
    have hcount := Length.octetCount_mono hinner
    have := Length.octetCount_le_of_isLength hlength
    rw [encodedLength_constructed]
    simp only [List.length_append]
    omega

theorem totalLength_le {octets : Octets} {values : List Value} (h : AreElements octets values) :
    totalLength values ≤ octets.length := by
  cases h with
  | nil => simp
  | cons hhead htail =>
    have := encodedLength_le hhead
    have := totalLength_le htail
    rw [totalLength_cons, List.length_append]
    omega

end

mutual

/-- An element as short as the encoding of its value is that encoding: no level has octets to
spare, so each has the shortest length octets and a content of the full size. -/
theorem eq_encode_of_length_le {octets : Octets} {value : Value} (h : IsElement octets value)
    (hlen : octets.length ≤ value.encodedLength) : octets = value.encode := by
  cases h with
  | primitive hid hbit hlength =>
    have hcount := Length.octetCount_le_of_isLength hlength
    simp only [encodedLength, Value.identifier, contentLength, List.length_append] at hlen
    rw [encode, ← Length.eq_encode_of_isLength hlength (by omega)]
  | @constructed identifier length content children hid hbit hlength hchildren =>
    have hinner := totalLength_le hchildren
    have hmono := Length.octetCount_mono hinner
    have hcount := Length.octetCount_le_of_isLength hlength
    rw [encodedLength_constructed] at hlen
    simp only [List.length_append] at hlen
    -- Neither the content nor the length octets can make up for a surplus of the other.
    have hsize : content.length = totalLength children := by omega
    have hcontent := eq_encodeAll_of_length_le hchildren (by omega)
    rw [encode_constructed, ← hcontent, ← hsize,
      ← Length.eq_encode_of_isLength hlength (by omega)]

theorem eq_encodeAll_of_length_le {octets : Octets} {values : List Value}
    (h : AreElements octets values) (hlen : octets.length ≤ totalLength values) :
    octets = encodeAll values := by
  cases h with
  | nil => rw [encodeAll]
  | cons hhead htail =>
    have hhead' := encodedLength_le hhead
    have htail' := totalLength_le htail
    rw [totalLength_cons, List.length_append] at hlen
    rw [encodeAll, ← eq_encode_of_length_le hhead (by omega),
      ← eq_encodeAll_of_length_le htail (by omega)]

end

mutual

/-- The value of an element is well-formed. -/
theorem isWellFormed_of_isElement {octets : Octets} {value : Value} (h : IsElement octets value) :
    value.IsWellFormed := by
  cases h with
  | primitive hid hbit hlength =>
    rw [IsWellFormed]
    exact ⟨hid, hbit, Length.lt_of_isLength hlength⟩
  | constructed hid hbit hlength hchildren =>
    rw [constructed, IsWellFormed]
    have hmax := Length.lt_of_isLength hlength
    have hinner := totalLength_le hchildren
    exact ⟨hid, hbit, by omega, rfl, areWellFormed_of_areElements hchildren⟩

theorem areWellFormed_of_areElements {octets : Octets} {values : List Value}
    (h : AreElements octets values) : AreWellFormed values := by
  cases h with
  | nil => simp [AreWellFormed]
  | cons hhead htail =>
    rw [AreWellFormed]
    exact ⟨isWellFormed_of_isElement hhead, areWellFormed_of_areElements htail⟩

end

theorem isSized_of_isElement {octets : Octets} {value : Value} (h : IsElement octets value) :
    value.IsSized :=
  isSized_of_isWellFormed (isWellFormed_of_isElement h)

end Asn1.Value
