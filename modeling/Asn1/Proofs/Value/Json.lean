import Asn1.CommandLine.Run
import Asn1.Proofs.Converter
import Asn1.Proofs.Json

/-!
# Values and their JSON documents

The document of a value holds all that the value consists of, in hexadecimal digits and numbers, so
no two values have the same document (`toJson_inj`). As a document can be read back from its text,
two dumps are the same exactly when the dumped elements have the same distinguished encoding. Main
statement: `json_determines_value`.
-/

namespace Asn1

namespace Value

variable {value other : Value}

mutual

theorem toJson_inj (value other : Value) (h : value.toJson = other.toJson) : value = other := by
  cases value with
  | primitive identifier content =>
    cases other with
    | primitive identifier' content' =>
      simp only [toJson, Json.object.injEq, List.cons.injEq, Prod.mk.injEq, Json.string.injEq,
        true_and, and_true] at h
      obtain ⟨hidentifier, -, hcontent⟩ := h
      rw [Hex.text_inj hidentifier, Hex.text_inj hcontent]
    | node => simp [toJson] at h
  | node identifier children contentLength =>
    cases other with
    | primitive => simp [toJson] at h
    | node identifier' children' contentLength' =>
      simp only [toJson, Json.object.injEq, List.cons.injEq, Prod.mk.injEq, Json.string.injEq,
        Json.number.injEq, Json.array.injEq, true_and, and_true] at h
      obtain ⟨hidentifier, hlength, hchildren⟩ := h
      rw [Hex.text_inj hidentifier, hlength, toJsonAll_inj children children' hchildren]

theorem toJsonAll_inj (values others : List Value) (h : toJsonAll values = toJsonAll others) :
    values = others := by
  cases values with
  | nil =>
    cases others with
    | nil => rfl
    | cons => simp [toJsonAll] at h
  | cons value values =>
    cases others with
    | nil => simp [toJsonAll] at h
    | cons other others =>
      obtain ⟨hvalue, hvalues⟩ := List.cons_eq_cons.mp h
      rw [toJson_inj value other hvalue, toJsonAll_inj values others hvalues]

end

theorem pretty_toJson_inj (h : value.toJson.pretty = other.toJson.pretty) : value = other :=
  toJson_inj value other (Json.pretty_inj h)

end Value

/-! ## Dumps -/

namespace CommandLine

/-- A dump is the text of the decoded value's document, with a line end. -/
theorem dumpText_json_eq_ok_iff {limit : Nat} {input : Octets} {text : String} :
    dumpText limit .json input = .ok text ↔
      ∃ value, (Converter.withMaxDepth limit).decode input = .ok value ∧
        value.toJson.pretty ++ "\n" = text := by
  rw [dumpText, bind_eq_ok]
  simp only [mapError_eq_ok, pure, Except.pure, Except.ok.injEq]

end CommandLine

namespace Value

/-- Values with the same JSON text are the same. Two inputs that are decoded, each under a limit of
its own, are dumped, and the dumps are the same exactly when the distinguished encodings are. -/
theorem json_determines_value :
    (∀ value other : Value, value.toJson.pretty = other.toJson.pretty → value = other) ∧
      ∀ limit limit' x y value other,
        (Converter.withMaxDepth limit).decode x = .ok value →
        (Converter.withMaxDepth limit').decode y = .ok other →
          ∃ text text', CommandLine.dumpText limit .json x = .ok text ∧
            CommandLine.dumpText limit' .json y = .ok text' ∧
            (text = text' ↔ value.toDer = other.toDer) := by
  refine ⟨fun value other => pretty_toJson_inj, ?_⟩
  intro limit limit' x y value other hx hy
  refine ⟨_, _, CommandLine.dumpText_json_eq_ok_iff.mpr ⟨value, hx, rfl⟩,
    CommandLine.dumpText_json_eq_ok_iff.mpr ⟨other, hy, rfl⟩, ?_⟩
  constructor
  · intro h
    rw [pretty_toJson_inj ((String.append_left_inj "\n").mp h)]
  · intro h
    rw [toDer_eq_encode, toDer_eq_encode] at h
    have hvalue := isWellFormed_of_isElement (Converter.decode_eq_ok_iff.mp hx).1
    have hother := isWellFormed_of_isElement (Converter.decode_eq_ok_iff.mp hy).1
    rw [encode_inj hvalue hother h]

/-- An element with padded length octets has the dump of the distinguished encoding. -/
theorem json_determines_value_padded :
    ∃ text, CommandLine.dumpText 1 .json [0x30, 0x83, 0, 0, 2, 5, 0] = .ok text ∧
      CommandLine.dumpText 64 .json [0x30, 2, 5, 0] = .ok text := by
  have hpadded : (Converter.withMaxDepth 1).decode [0x30, 0x83, 0, 0, 2, 5, 0] =
      .ok (constructed [0x30] [.primitive [5] []]) := by
    cbv
  have hshort : (Converter.withMaxDepth 64).decode [0x30, 2, 5, 0] =
      .ok (constructed [0x30] [.primitive [5] []]) := by
    cbv
  obtain ⟨text, text', hdump, hdump', htexts⟩ :=
    json_determines_value.2 _ _ _ _ _ _ hpadded hshort
  obtain rfl := htexts.mpr rfl
  exact ⟨text, hdump, hdump'⟩

end Value

end Asn1
