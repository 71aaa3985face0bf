import Asn1.Proofs.TimeStamp.Response
import Asn1.Proofs.TimeStamp.Token
import Asn1.Proofs.Value.Limit

/-!
# Writing responses

A response is written with the value of its token (`toDer_eq`). Conversion of the octets that the
response was read from finds the same token, one level deeper (`decode_of_isLaidOut`). So both fail
for the same reason, and they write the same octets unless the status information was received in
other parts than the written ones (`encode_toValue_eq_iff`).
-/

namespace Asn1.TimeStamp.Response

open Ber

variable {octets : Octets} {response : Response} {parts : StatusInfo.Parts}

/-- The value of the token, if there is one. -/
def tokenValue (response : Response) : Except Ber.Error (Option Value) :=
  match response.token with
  | none => .ok none
  | some token => (Converter.default.decode token).map some

theorem tokenValue_eq_ok_iff {value : Option Value} :
    response.tokenValue = .ok value ↔
      (response.token = none ∧ value = none) ∨
        ∃ token inner, response.token = some token ∧
          Converter.default.decode token = .ok inner ∧ value = some inner := by
  rw [tokenValue]
  cases response.token with
  | none =>
    constructor
    · rintro ⟨⟩
      exact .inl ⟨rfl, rfl⟩
    · rintro (⟨-, rfl⟩ | ⟨_, _, ⟨⟩, _⟩)
      rfl
  | some token =>
    rw [map_eq_ok]
    constructor
    · rintro ⟨inner, hdecode, rfl⟩
      exact .inr ⟨token, inner, rfl, hdecode, rfl⟩
    · rintro (⟨⟨⟩, _⟩ | ⟨_, inner, ⟨⟩, hdecode, rfl⟩)
      exact ⟨inner, hdecode, rfl⟩

/-! ## What is written -/

theorem toDer_eq (response : Response) :
    response.toDer = (response.tokenValue.mapError Error.ber).map fun value =>
      (response.toValue value).encode := by
  simp only [toDer, toDerWithLog, tokenValue, Converter.decode]
  cases response.token with
  | none => simp [Except.mapError, Except.map]
  | some token =>
    cases hresult : (Converter.default.decodeWithEvents token).1 with
    | error error => simp [hresult, Except.mapError, Except.map]
    | ok value => simp [hresult, Except.mapError, Except.map]

theorem toDer_eq_ok_iff {d : Octets} :
    response.toDer = .ok d ↔
      ∃ value, response.tokenValue = .ok value ∧ (response.toValue value).encode = d := by
  simp only [toDer_eq, map_eq_ok, mapError_eq_ok]

theorem canonicalToken_eq_tokenValue (response : Response) :
    response.canonicalToken = (response.tokenValue.mapError Error.ber).map fun value =>
      value.map Value.encode := by
  rw [canonicalToken_eq, tokenValue]
  cases response.token with
  | none => rfl
  | some token =>
    simp only [Converter.convert_eq]
    cases Converter.default.decode token <;> rfl

/-! ## The token inside the response -/

/-- A sequence is decoded by the descent into its content. -/
theorem decode_of_isMember {converter : Converter} {content : Octets}
    (h : IsMember sequenceTag octets content) (hpos : 0 < converter.maxDepth) :
    converter.decode octets =
      (Value.descendAll converter.maxDepth 1 content).map (.constructed [sequenceTag]) := by
  obtain ⟨header, hparse, hidentifier, hlen, hbit⟩ := h.parse_sequence
  have hlimit : min converter.maxDepth Value.depthCap = converter.maxDepth :=
    Nat.min_eq_left converter.maxDepth_le
  rw [Converter.decode_eq, Value.decode_of_parse hparse hbit hlen (hlimit.symm ▸ hpos), hlimit,
    hidentifier]

/-- In the octets of a response the token is read as it is alone, one level deeper. -/
theorem descendAll_of_isToken (h : IsToken octets response.token) :
    Value.descendAll (Converter.default.maxDepth + 1) 1 octets =
      (response.tokenValue.mapError Error.deepen).map Option.toList := by
  rw [tokenValue]
  generalize response.token = token at h
  cases h with
  | absent =>
    rw [Value.descendAll_nil]
    rfl
  | present hmember =>
    obtain ⟨header, hparse, -, hlen, hbit⟩ := hmember.parse_sequence
    rw [Value.descendAll_single hparse hbit hlen (by decide) (by decide)]
    simp only [Converter.decode_eq]
    cases Value.decode octets Converter.default.maxDepth <;> rfl

theorem depth_toValue_le (parts : StatusInfo.Parts) : parts.toValue.depth ≤ 2 := by
  obtain ⟨status, texts, failInfo⟩ := parts
  have htexts : ∀ texts : List Octets,
      Value.depthAll (texts.map (.primitive [utf8StringTag])) = 0 := by
    intro texts
    induction texts with
    | nil => rfl
    | cons text texts ih => simp [Value.depthAll, Value.depth, ih]
  cases texts <;> cases failInfo <;>
    simp [StatusInfo.Parts.toValue, StatusInfo.Parts.members, StatusInfo.Parts.textsValue,
      Value.depth_constructed, Value.depthAll, Value.depth, htexts]

/-- The value of a response as it was received. -/
theorem decode_of_isLaidOut (h : IsLaidOut octets parts response.token) :
    (Converter.withMaxDepth (Converter.default.maxDepth + 1)).decode octets =
      (response.tokenValue.mapError Error.deepen).map fun value =>
        .constructed [sequenceTag] (parts.toValue :: value.toList) := by
  cases h with
  | mk hinfo htoken houter =>
    have hdepth : parts.toValue.depth ≤ Converter.default.maxDepth + 1 - 1 :=
      Nat.le_trans (depth_toValue_le parts) (by decide)
    rw [decode_of_isMember houter (by decide),
      show (Converter.withMaxDepth (Converter.default.maxDepth + 1)).maxDepth =
        Converter.default.maxDepth + 1 from rfl,
      Value.descendAll_append_of_isElement hinfo hdepth, descendAll_of_isToken htoken]
    cases response.tokenValue <;> rfl

theorem convert_of_isLaidOut (h : IsLaidOut octets parts response.token) :
    (Converter.withMaxDepth (Converter.default.maxDepth + 1)).convert octets =
      (response.tokenValue.mapError Error.deepen).map fun value =>
        (Value.constructed [sequenceTag] (parts.toValue :: value.toList)).encode := by
  rw [Converter.convert_eq, decode_of_isLaidOut h]
  cases response.tokenValue <;> rfl

/-- A token that was read is refused for a fault inside it. -/
theorem error_of_tokenValue {error : Ber.Error} (h : IsToken octets response.token)
    (herror : response.tokenValue = .error error) :
    error = .lengthMismatch ∨ error = .indefiniteLength ∨ error = .unsupportedLength ∨
      error = .nestingTooDeep Converter.default.maxDepth := by
  rw [tokenValue] at herror
  generalize response.token = token at h herror
  cases h with
  | absent => cases herror
  | @present _ content hmember =>
    simp only [decode_of_isMember hmember (show 0 < Converter.default.maxDepth by decide)] at herror
    cases hinside : Value.descendAll Converter.default.maxDepth 1 content with
    | error error' =>
      rw [hinside] at herror
      cases herror
      exact (Value.fault_of_descendAll hinside).error_cases
    | ok children =>
      rw [hinside] at herror
      cases herror

/-! ## The two encodings -/

/-- The value of a response and that of its octets differ in the status information, if at all. -/
theorem encode_toValue_eq_iff {value : Option Value} (hmeans : parts.Means response.status)
    (hvalue : Value.AreSized value.toList) :
    (response.toValue value).encode =
        (Value.constructed [sequenceTag] (parts.toValue :: value.toList)).encode ↔
      parts = response.status.parts := by
  rw [toValue, ← StatusInfo.toValue_parts]
  constructor
  · intro heq
    have hsized : ∀ parts : StatusInfo.Parts,
        (Value.constructed [sequenceTag] (parts.toValue :: value.toList)).IsSized := by
      intro parts
      apply Value.isSized_constructed
      rw [Value.AreSized]
      exact ⟨parts.isSized_toValue, hvalue⟩
    -- The encodings are equally long, and only the written parts are as short as that.
    have hsize := congrArg List.length heq
    rw [Value.length_encode (hsized _), Value.length_encode (hsized _)] at hsize
    have htotal := Value.totalLength_eq_of_encodedLength hsize
    rw [Value.totalLength_cons, Value.totalLength_cons] at htotal
    exact hmeans.eq_parts_of_encodedLength (by omega)
  · rintro rfl
    rfl

/-- A token that can be decoded has a well-formed value. -/
theorem areWellFormed_of_tokenValue {value : Option Value} (h : response.tokenValue = .ok value) :
    Value.AreWellFormed value.toList := by
  rcases tokenValue_eq_ok_iff.mp h with ⟨-, rfl⟩ | ⟨token, value, -, hdecode, rfl⟩
  · simp [Value.AreWellFormed]
  · have hwell := Value.isWellFormed_of_isElement (Converter.decode_eq_ok_iff.mp hdecode).1
    simpa [Value.AreWellFormed] using hwell

/-- Writing a response that was read does the same as converting the octets it was read from, under
a limit that has room for the response around the token. Both fail for one reason, a fault inside
the token. What they write is the same exactly when the octets have the status without redundant
octets, and no empty sequence of texts. -/
theorem toDer_agrees_convert (x : Octets) (response : Response) (h : ofBer x = .ok response) :
    ((∃ d, response.toDer = .ok d) ↔ ∃ d, (Converter.withMaxDepth 65).convert x = .ok d) ∧
      (∀ e e', response.toDer = .error e → (Converter.withMaxDepth 65).convert x = .error e' →
        (e = .ber e' ∧
            (e' = .lengthMismatch ∨ e' = .indefiniteLength ∨ e' = .unsupportedLength)) ∨
          (e = .ber (.nestingTooDeep 64) ∧ e' = .nestingTooDeep 65)) ∧
      (∃ parts, IsLaidOut x parts response.token) ∧
      ∀ parts, IsLaidOut x parts response.token →
        ∀ d d', response.toDer = .ok d → (Converter.withMaxDepth 65).convert x = .ok d' →
          (d = d' ↔ Integer.IsMinimal parts.status ∧ parts.texts ≠ some []) := by
  obtain ⟨parts, hlaid, hmeans⟩ := exists_parts_of_ofBer h
  have hconvert : (Converter.withMaxDepth 65).convert x = _ := convert_of_isLaidOut hlaid
  rw [hconvert, toDer_eq]
  cases hvalue : response.tokenValue with
  | error error =>
    obtain ⟨rest, htoken⟩ := hlaid.exists_rest
    have hcases := error_of_tokenValue htoken hvalue
    refine ⟨?_, ?_, ⟨parts, hlaid⟩, ?_⟩
    · simp [Except.mapError, Except.map]
    · intro e e' he he'
      cases he
      cases he'
      rcases hcases with rfl | rfl | rfl | rfl
      · exact .inl ⟨rfl, .inl rfl⟩
      · exact .inl ⟨rfl, .inr (.inl rfl)⟩
      · exact .inl ⟨rfl, .inr (.inr rfl)⟩
      · exact .inr ⟨rfl, rfl⟩
    · intro _ _ d d' hd
      cases hd
  | ok value =>
    refine ⟨?_, ?_, ⟨parts, hlaid⟩, ?_⟩
    · simp [Except.mapError, Except.map]
    · intro e e' he
      cases he
    · intro parts' hlaid' d d' hd hd'
      obtain ⟨rfl, -⟩ := hlaid.unique hlaid'
      cases hd
      cases hd'
      rw [← hmeans.eq_parts_iff]
      have hsized := Value.areSized_of_areWellFormed (areWellFormed_of_tokenValue hvalue)
      exact encode_toValue_eq_iff hmeans hsized

/-- A status with a redundant octet and an empty sequence of texts are both lost in writing. -/
theorem toDer_agrees_convert_redundant :
    ofBer [0x30, 13, 0x30, 6, 2, 2, 0, 2, 0x30, 0, 0x30, 0x81, 2, 5, 0] =
        .ok ⟨.ofStatus .rejection, some [0x30, 0x81, 2, 5, 0]⟩ ∧
      (⟨.ofStatus .rejection, some [0x30, 0x81, 2, 5, 0]⟩ : Response).toDer =
        .ok [0x30, 9, 0x30, 3, 2, 1, 2, 0x30, 2, 5, 0] ∧
      (Converter.withMaxDepth 65).convert
          [0x30, 13, 0x30, 6, 2, 2, 0, 2, 0x30, 0, 0x30, 0x81, 2, 5, 0] =
        .ok [0x30, 12, 0x30, 6, 2, 2, 0, 2, 0x30, 0, 0x30, 2, 5, 0] ∧
      ∀ parts, IsLaidOut [0x30, 13, 0x30, 6, 2, 2, 0, 2, 0x30, 0, 0x30, 0x81, 2, 5, 0] parts
          (some [0x30, 0x81, 2, 5, 0]) →
        ¬ (Integer.IsMinimal parts.status ∧ parts.texts ≠ some []) := by
  have hread : ofBer [0x30, 13, 0x30, 6, 2, 2, 0, 2, 0x30, 0, 0x30, 0x81, 2, 5, 0] =
      .ok ⟨.ofStatus .rejection, some [0x30, 0x81, 2, 5, 0]⟩ := by
    cbv
  have hwrite : (⟨.ofStatus .rejection, some [0x30, 0x81, 2, 5, 0]⟩ : Response).toDer =
      .ok [0x30, 9, 0x30, 3, 2, 1, 2, 0x30, 2, 5, 0] := by
    rw [toDer_eq]
    cbv
  have hconvert : (Converter.withMaxDepth 65).convert
      [0x30, 13, 0x30, 6, 2, 2, 0, 2, 0x30, 0, 0x30, 0x81, 2, 5, 0] =
        .ok [0x30, 12, 0x30, 6, 2, 2, 0, 2, 0x30, 0, 0x30, 2, 5, 0] := by
    cbv
  refine ⟨hread, hwrite, hconvert, ?_⟩
  intro parts hlaid hgood
  have hequal := (toDer_agrees_convert _ _ hread).2.2.2 parts hlaid _ _ hwrite hconvert
  exact absurd (hequal.mpr hgood) (by decide)

end Asn1.TimeStamp.Response
