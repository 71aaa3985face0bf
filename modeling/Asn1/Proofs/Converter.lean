import Asn1.Converter
import Asn1.Proofs.Value.Depth
import Asn1.Proofs.Value.Shortest

/-!
# Conversion to a canonical form

A converter accepts what decoding accepts under its limit and writes the encoding of the value.
The result denotes the same value and is its own conversion, so two inputs are converted alike
exactly when they are decoded alike (`convert_canonical`). No element with that value is shorter
than the result, and no other one is as short.
-/

namespace Asn1.Converter

open Ber

variable {converter : Converter} {input output : Octets} {value : Value}

theorem decode_eq (converter : Converter) (input : Octets) :
    converter.decode input = Value.decode input converter.maxDepth := rfl

theorem decode_eq_ok_iff :
    converter.decode input = .ok value ↔
      IsElement input value ∧ value.depth ≤ converter.maxDepth := by
  have hlimit := Nat.min_eq_left converter.maxDepth_le
  rw [decode_eq, Value.decode_eq_ok_iff, hlimit]

/-- Converting is decoding and encoding again; errors are those of decoding. -/
theorem convert_eq (converter : Converter) (input : Octets) :
    converter.convert input = (converter.decode input).map Value.encode := by
  simp only [convert, convertWithEvents, decode]
  split
  · rename_i hdecode
    rw [hdecode]
    rfl
  · rename_i hdecode
    rw [hdecode]
    simp [Except.map]

theorem convert_eq_ok_iff :
    converter.convert input = .ok output ↔
      ∃ value, converter.decode input = .ok value ∧ value.encode = output := by
  rw [convert_eq, map_eq_ok]

/-- The encoding of a decoded value is decoded under the same limit, to that value. -/
theorem decode_encode (h : converter.decode input = .ok value) :
    converter.decode value.encode = .ok value := by
  obtain ⟨helement, hdepth⟩ := decode_eq_ok_iff.mp h
  exact decode_eq_ok_iff.mpr
    ⟨Value.isElement_encode (Value.isWellFormed_of_isElement helement), hdepth⟩

/-- The encoding of a well-formed value is left as it is, unless the value nests too deep. -/
theorem convert_encode (h : value.IsWellFormed) :
    converter.convert value.encode =
      if value.depth ≤ converter.maxDepth then .ok value.encode
      else .error (.nestingTooDeep converter.maxDepth) := by
  have hlimit := Nat.min_eq_left converter.maxDepth_le
  rw [convert_eq, decode_eq, Value.decode_of_isElement (Value.isElement_encode h), hlimit]
  split <;> rfl

/-- Inputs are converted alike, errors included, if and only if they are decoded alike. -/
theorem convert_eq_convert_iff (converter : Converter) (x y : Octets) :
    converter.convert x = converter.convert y ↔ converter.decode x = converter.decode y := by
  rw [convert_eq, convert_eq]
  constructor
  · intro h
    cases hx : converter.decode x with
    | error error =>
      cases hy : converter.decode y with
      | error error' => simpa [hx, hy, Except.map] using h
      | ok w => simp [hx, hy, Except.map] at h
    | ok v =>
      cases hy : converter.decode y with
      | error error' => simp [hx, hy, Except.map] at h
      | ok w =>
        -- The common encoding is decoded to either value.
        have hencode : v.encode = w.encode := by simpa [hx, hy, Except.map] using h
        have hread := decode_encode hx
        rw [hencode, decode_encode hy] at hread
        exact hread.symm
  · intro h
    rw [h]

/-- Conversion keeps the value and the limit under which it can be read, a converted input is left
as it is, and equal results are equal values. -/
theorem convert_canonical (limit : Nat) (x : Octets) :
    (∀ d, (withMaxDepth limit).convert x = .ok d →
      (withMaxDepth limit).decode d = (withMaxDepth limit).decode x ∧
        (withMaxDepth limit).convert d = .ok d) ∧
      ∀ y, (withMaxDepth limit).convert x = (withMaxDepth limit).convert y ↔
        (withMaxDepth limit).decode x = (withMaxDepth limit).decode y := by
  refine ⟨?_, convert_eq_convert_iff (withMaxDepth limit) x⟩
  intro d h
  obtain ⟨value, hdecode, rfl⟩ := convert_eq_ok_iff.mp h
  have hagain := decode_encode hdecode
  refine ⟨hagain.trans hdecode.symm, ?_⟩
  exact convert_eq_ok_iff.mpr ⟨value, hagain, rfl⟩

/-- Both length fields of a nested element are rewritten, and the result is read back. -/
theorem convert_canonical_padded :
    (withMaxDepth 2).convert [0x30, 0x83, 0, 0, 7, 0xA0, 0x83, 0, 0, 2, 5, 0] =
        .ok [0x30, 4, 0xA0, 2, 5, 0] ∧
      (withMaxDepth 2).decode [0x30, 4, 0xA0, 2, 5, 0] =
          (withMaxDepth 2).decode [0x30, 0x83, 0, 0, 7, 0xA0, 0x83, 0, 0, 2, 5, 0] ∧
      (withMaxDepth 2).convert [0x30, 4, 0xA0, 2, 5, 0] = .ok [0x30, 4, 0xA0, 2, 5, 0] := by
  have h : (withMaxDepth 2).convert [0x30, 0x83, 0, 0, 7, 0xA0, 0x83, 0, 0, 2, 5, 0] =
      .ok [0x30, 4, 0xA0, 2, 5, 0] := by
    cbv
  exact ⟨h, (convert_canonical 2 _).1 _ h⟩

/-! ## The shortest form -/

/-- Of the inputs that are decoded to one value, the conversion of any is the shortest. -/
theorem length_le_of_convert {other : Octets} (h : converter.convert input = .ok output)
    (hother : converter.decode other = converter.decode input) :
    output.length ≤ other.length := by
  obtain ⟨value, hdecode, rfl⟩ := convert_eq_ok_iff.mp h
  obtain ⟨helement, -⟩ := decode_eq_ok_iff.mp (hother.trans hdecode)
  rw [Value.length_encode (Value.isSized_of_isElement helement)]
  exact Value.encodedLength_le helement

/-- And no other is as short. -/
theorem eq_of_length_convert {other : Octets} (h : converter.convert input = .ok output)
    (hother : converter.decode other = converter.decode input)
    (hlen : other.length ≤ output.length) : other = output := by
  obtain ⟨value, hdecode, rfl⟩ := convert_eq_ok_iff.mp h
  obtain ⟨helement, -⟩ := decode_eq_ok_iff.mp (hother.trans hdecode)
  rw [Value.length_encode (Value.isSized_of_isElement helement)] at hlen
  exact Value.eq_encode_of_length_le helement hlen

theorem length_convert_eq_iff (h : converter.convert input = .ok output) :
    output.length = input.length ↔ input = output := by
  constructor
  · intro hlen
    exact eq_of_length_convert h rfl (Nat.le_of_eq hlen.symm)
  · rintro rfl
    rfl

/-- An input is left as it is exactly when all its length octets are minimal. -/
theorem eq_convert_iff_isMinimal (h : converter.convert input = .ok output) :
    input = output ↔ ∀ length n, HasLength input length n → IsMinimal length n := by
  obtain ⟨value, hdecode, rfl⟩ := convert_eq_ok_iff.mp h
  exact Value.eq_encode_iff_isMinimal (decode_eq_ok_iff.mp hdecode).1

end Asn1.Converter
