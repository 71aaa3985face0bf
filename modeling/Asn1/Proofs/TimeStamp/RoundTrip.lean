import Asn1.Proofs.TimeStamp.Marshal

/-!
# Reading what was written

A response that was written is laid out as the grammar of responses says, provided that its octets
can be counted by four length octets and that its token is a sequence (`isLaidOut_toDer`). So it is
read back, with its token in distinguished form; a token of another kind is found out by its
identifier (`ofBer_toDer`).
-/

namespace Asn1.TimeStamp

open Ber

/-! ## What is short enough is well-formed -/

theorem isWellFormed_primitive {tag : UInt8} {content : Octets}
    (hshort : Identifier.isLong tag = false) (hbit : Identifier.isConstructed [tag] = false)
    (hmax : (Value.primitive [tag] content).encodedLength < 256 ^ 4) :
    (Value.primitive [tag] content).IsWellFormed := by
  have hlen : content.length ≤ (Value.primitive [tag] content).encodedLength :=
    Nat.le_add_left _ _
  rw [Value.IsWellFormed]
  exact ⟨isIdentifier_singleton hshort, hbit, Nat.lt_of_le_of_lt hlen hmax⟩

theorem isWellFormed_sequence {children : List Value}
    (hmax : Value.totalLength children < 256 ^ 4) (hchildren : Value.AreWellFormed children) :
    (Value.constructed [sequenceTag] children).IsWellFormed := by
  rw [Value.constructed, Value.IsWellFormed]
  exact ⟨isIdentifier_singleton (by decide), by decide, hmax, rfl, hchildren⟩

theorem areWellFormed_texts {texts : List Octets}
    (hmax : Value.totalLength (texts.map (.primitive [utf8StringTag])) < 256 ^ 4) :
    Value.AreWellFormed (texts.map (.primitive [utf8StringTag])) := by
  induction texts with
  | nil => simp [Value.AreWellFormed]
  | cons text texts ih =>
    rw [List.map_cons, Value.totalLength_cons] at hmax
    rw [List.map_cons, Value.AreWellFormed]
    exact ⟨isWellFormed_primitive (by decide) (by decide) (by omega), ih (by omega)⟩

/-- Status information that fits into four length octets has members that fit, too. -/
theorem StatusInfo.Parts.isWellFormed_toValue {parts : Parts}
    (hmax : parts.toValue.encodedLength < 256 ^ 4) : parts.toValue.IsWellFormed := by
  have htotal : Value.totalLength parts.members ≤ parts.toValue.encodedLength :=
    Nat.le_add_left _ _
  obtain ⟨status, texts, failInfo⟩ := parts
  apply isWellFormed_sequence (by omega)
  simp only [members, Value.totalLength_cons, Value.totalLength_append] at htotal
  simp only [members, Value.AreWellFormed, Value.areWellFormed_append]
  refine ⟨isWellFormed_primitive (by decide) (by decide) (by omega), ?_, ?_⟩
  · cases texts with
    | none => simp [Value.AreWellFormed]
    | some texts =>
      have hinner : Value.totalLength (texts.map (.primitive [utf8StringTag])) ≤
          (textsValue texts).encodedLength :=
        Nat.le_add_left _ _
      simp only [Option.map_some, Option.toList_some, Value.totalLength_cons] at htotal
      rw [Option.map_some, Option.toList_some, Value.AreWellFormed]
      refine ⟨isWellFormed_sequence (by omega) (areWellFormed_texts (by omega)), ?_⟩
      simp [Value.AreWellFormed]
  · cases failInfo with
    | none => simp [Value.AreWellFormed]
    | some content =>
      simp only [Option.map_some, Option.toList_some, Value.totalLength_cons] at htotal
      rw [Option.map_some, Option.toList_some, Value.AreWellFormed]
      refine ⟨isWellFormed_primitive (by decide) (by decide) (by omega), ?_⟩
      simp [Value.AreWellFormed]

namespace Response

variable {response : Response} {value : Option Value}

/-! ## The layout of what is written -/

/-- What is written within four length octets has a well-formed value. -/
theorem isWellFormed_toValue (hvalue : response.tokenValue = .ok value)
    (hsize : (response.toValue value).encode.length < 2 ^ 32) :
    (response.toValue value).IsWellFormed := by
  have htoken := areWellFormed_of_tokenValue hvalue
  have hsized : Value.AreSized (response.status.parts.toValue :: value.toList) := by
    rw [Value.AreSized]
    exact ⟨response.status.parts.isSized_toValue, Value.areSized_of_areWellFormed htoken⟩
  rw [toValue, ← StatusInfo.toValue_parts] at hsize ⊢
  rw [Value.length_encode (Value.isSized_constructed hsized),
    Value.encodedLength_constructed] at hsize
  apply isWellFormed_sequence (by omega)
  rw [Value.totalLength_cons] at hsize
  rw [Value.AreWellFormed]
  exact ⟨StatusInfo.Parts.isWellFormed_toValue (by omega), htoken⟩

/-- The written octets as a member: the status information and then the token, if there is one. -/
theorem isMember_toDer (hvalue : response.tokenValue = .ok value)
    (hsize : (response.toValue value).encode.length < 2 ^ 32) :
    IsMember sequenceTag (response.toValue value).encode
        (response.status.parts.toValue.encode ++ Value.encodeAll value.toList) ∧
      response.status.parts.toValue.IsWellFormed := by
  have hwell := isWellFormed_toValue hvalue hsize
  rw [toValue, ← StatusInfo.toValue_parts] at hwell ⊢
  obtain ⟨element, hexact, hraw, hidentifier, hcontent⟩ := Value.exists_exact_encode hwell
  have hmember := isMember_of_exact hexact hidentifier
  rw [hraw, hcontent, Value.constructed, Value.encodedContent, Value.encodeAll] at hmember
  rw [Value.constructed, Value.IsWellFormed, Value.AreWellFormed] at hwell
  exact ⟨hmember, hwell.2.2.2.2.1⟩

theorem isToken_encode (hvalue : response.tokenValue = .ok value)
    (hidentifier : ∀ inner, value = some inner → inner.identifier = [sequenceTag]) :
    IsToken (Value.encodeAll value.toList) (value.map Value.encode) := by
  rcases tokenValue_eq_ok_iff.mp hvalue with ⟨-, rfl⟩ | ⟨token, inner, -, hdecode, rfl⟩
  · rw [Option.toList_none, Value.encodeAll]
    exact .absent
  · have hread := Converter.decode_encode hdecode
    obtain ⟨content, hmember⟩ := isMember_of_isElement (Converter.decode_eq_ok_iff.mp hread).1
      (hidentifier inner rfl)
    rw [Option.toList_some, Value.encodeAll, Value.encodeAll, List.append_nil]
    exact .present hmember

theorem isLaidOut_toDer (hvalue : response.tokenValue = .ok value)
    (hsize : (response.toValue value).encode.length < 2 ^ 32)
    (hidentifier : ∀ inner, value = some inner → inner.identifier = [sequenceTag]) :
    IsLaidOut (response.toValue value).encode response.status.parts (value.map Value.encode) := by
  obtain ⟨houter, hwell⟩ := isMember_toDer hvalue hsize
  exact .mk (Value.isElement_encode hwell) (isToken_encode hvalue hidentifier) houter

/-! ## The token that is read back -/

/-- The token in distinguished form has the same value. -/
theorem tokenValue_encode (hvalue : response.tokenValue = .ok value) :
    (⟨response.status, value.map Value.encode⟩ : Response).tokenValue = .ok value := by
  rcases tokenValue_eq_ok_iff.mp hvalue with ⟨-, rfl⟩ | ⟨token, inner, -, hdecode, rfl⟩
  · rfl
  · exact tokenValue_eq_ok_iff.mpr (.inr ⟨_, inner, rfl, Converter.decode_encode hdecode, rfl⟩)

theorem map_encode_eq_token_iff (hvalue : response.tokenValue = .ok value) :
    value.map Value.encode = response.token ↔
      response.token = none ∨
        ∃ token, response.token = some token ∧ Converter.default.convert token = .ok token := by
  rcases tokenValue_eq_ok_iff.mp hvalue with ⟨hnone, rfl⟩ | ⟨token, inner, htoken, hdecode, rfl⟩
  · simp [hnone]
  · simp [htoken, Converter.convert_eq, hdecode, Except.map]

/-- Behind the status information a token of another kind is found out. -/
theorem readRest_of_identifier_ne {status : StatusInfo} {window : Window} {token : Value}
    (h : window.InBounds) (hwell : token.IsWellFormed) (hremaining : window.remaining = token.encode)
    (hne : token.identifier ≠ [sequenceTag]) :
    readRest status window =
      .error (.unexpectedIdentifier .timeStampToken token.identifier) := by
  obtain ⟨element, hexact, hraw, hidentifier, -⟩ := Value.exists_exact_encode hwell
  rw [← hraw] at hremaining
  rw [← List.append_nil element.raw] at hremaining
  obtain ⟨window', -, -, hread⟩ := readToken_of_exact h hexact hremaining
  rw [readRest, hread, hidentifier, if_neg hne, error_bind]

/-- Writing a response fails when its token cannot be converted, for the same reason. What is
written is read back, if it is short enough for four length octets: the status information is the
same, the token is in distinguished form, and writing again changes nothing. A token that is not a
sequence can be written but not read back. -/
theorem ofBer_toDer (response : Response)
    (h : ∀ failInfo, response.status.failInfo = some failInfo → failInfo.IsObtained) :
    (∀ error, response.toDer = .error error ↔ response.canonicalToken = .error error) ∧
      ∀ d, response.toDer = .ok d → d.length < 2 ^ 32 →
        ((response.token = none ∨ ∃ token value, response.token = some token ∧
            Converter.default.decode token = .ok value ∧ value.identifier = [sequenceTag]) →
          ∃ response', ofBer d = .ok response' ∧ response'.status = response.status ∧
            response.canonicalToken = .ok response'.token ∧ response'.toDer = .ok d ∧
            (response' = response ↔ response.token = none ∨ ∃ token,
              response.token = some token ∧ Converter.default.convert token = .ok token)) ∧
        ∀ token value, response.token = some token → Converter.default.decode token = .ok value →
          value.identifier ≠ [sequenceTag] →
            ofBer d = .error (.unexpectedIdentifier .timeStampToken value.identifier) := by
  have hmeans := StatusInfo.means_parts h
  rw [toDer_eq, canonicalToken_eq_tokenValue]
  cases hvalue : response.tokenValue with
  | error error => simp [Except.mapError, Except.map]
  | ok value =>
    refine ⟨by simp [Except.mapError, Except.map], ?_⟩
    intro d hd hsize
    cases hd
    constructor
    · intro hkind
      have hidentifier : ∀ inner, value = some inner → inner.identifier = [sequenceTag] := by
        rintro inner rfl
        rcases tokenValue_eq_ok_iff.mp hvalue with ⟨-, hnone⟩ | ⟨token, _, htoken, hdecode, heq⟩
        · cases hnone
        · cases heq
          simpa [htoken, hdecode] using hkind
      have hread := ofBer_of_isLaidOut (isLaidOut_toDer hvalue hsize hidentifier) hmeans
      refine ⟨_, hread, rfl, rfl, ?_, ?_⟩
      · rw [toDer_eq, tokenValue_encode hvalue]
        rfl
      · rw [← map_encode_eq_token_iff hvalue]
        obtain ⟨status, token⟩ := response
        simp
    · intro token inner htoken hdecode hne
      have hinner : value = some inner := by
        rw [tokenValue, htoken] at hvalue
        simp only [hdecode] at hvalue
        exact (Except.ok.inj hvalue).symm
      subst hinner
      obtain ⟨houter, hwell⟩ := isMember_toDer hvalue hsize
      obtain ⟨window, hbounds, hrest, hread⟩ :=
        ofBer_of_status houter (Value.isElement_encode hwell) hmeans
      have helement := (Converter.decode_eq_ok_iff.mp hdecode).1
      rw [Option.toList_some, Value.encodeAll, Value.encodeAll, List.append_nil] at hrest
      rw [← readRest_of_identifier_ne hbounds (Value.isWellFormed_of_isElement helement) hrest hne]
      exact hread

/-- A rejection with an empty text, two reasons and a padded token comes back without the padding. A
token that is no sequence does not come back. -/
theorem ofBer_toDer_padded :
    (⟨⟨.rejection, ["no", ""], some (.ofReasons [.systemFailure, .badRequest])⟩,
        some [0x30, 0x81, 2, 5, 0]⟩ : Response).toDer =
      .ok [0x30, 24, 0x30, 18, 2, 1, 2, 0x30, 6, 0x0c, 2, 0x6e, 0x6f, 0x0c, 0,
        3, 5, 6, 0x20, 0, 0, 0x40, 0x30, 2, 5, 0] ∧
    (∃ response', ofBer [0x30, 24, 0x30, 18, 2, 1, 2, 0x30, 6, 0x0c, 2, 0x6e, 0x6f, 0x0c, 0,
        3, 5, 6, 0x20, 0, 0, 0x40, 0x30, 2, 5, 0] = .ok response' ∧
      response'.status =
        ⟨.rejection, ["no", ""], some (.ofReasons [.systemFailure, .badRequest])⟩ ∧
      response' ≠ ⟨⟨.rejection, ["no", ""], some (.ofReasons [.systemFailure, .badRequest])⟩,
        some [0x30, 0x81, 2, 5, 0]⟩) ∧
    (⟨.ofStatus .granted, some [4, 1, 7]⟩ : Response).toDer =
      .ok [0x30, 8, 0x30, 3, 2, 1, 0, 4, 1, 7] ∧
    ofBer [0x30, 8, 0x30, 3, 2, 1, 0, 4, 1, 7] =
      .error (.unexpectedIdentifier .timeStampToken [4]) := by
  have hobtained : ∀ failInfo, some (FailureInfo.ofReasons [.systemFailure, .badRequest]) =
      some failInfo → failInfo.IsObtained := by
    rintro _ ⟨⟩
    exact .inl ⟨_, rfl⟩
  have hdecode : Converter.default.decode [0x30, 0x81, 2, 5, 0] =
      .ok (.constructed [0x30] [.primitive [5] []]) := by
    cbv
  have hwrite : (⟨⟨.rejection, ["no", ""], some (.ofReasons [.systemFailure, .badRequest])⟩,
        some [0x30, 0x81, 2, 5, 0]⟩ : Response).toDer =
      .ok [0x30, 24, 0x30, 18, 2, 1, 2, 0x30, 6, 0x0c, 2, 0x6e, 0x6f, 0x0c, 0,
        3, 5, 6, 0x20, 0, 0, 0x40, 0x30, 2, 5, 0] := by
    rw [toDer_eq, tokenValue_eq_ok_iff.mpr (.inr ⟨_, _, rfl, hdecode, rfl⟩)]
    rfl
  have hother : (⟨.ofStatus .granted, some [4, 1, 7]⟩ : Response).toDer =
      .ok [0x30, 8, 0x30, 3, 2, 1, 0, 4, 1, 7] := by
    rw [toDer_eq]
    cbv
  have hconvert : Converter.default.convert [0x30, 0x81, 2, 5, 0] = .ok [0x30, 2, 5, 0] := by
    cbv
  have hdecode' : Converter.default.decode [4, 1, 7] = .ok (.primitive [4] [7]) := by
    cbv
  refine ⟨hwrite, ?_, hother, ?_⟩
  · obtain ⟨response', hread, hstatus, -, -, hsame⟩ :=
      ((ofBer_toDer _ hobtained).2 _ hwrite (by decide)).1 (.inr ⟨_, _, rfl, hdecode, rfl⟩)
    refine ⟨response', hread, hstatus, ?_⟩
    intro heq
    simpa [hconvert] using hsame.mp heq
  · exact ((ofBer_toDer _ (by rintro _ ⟨⟩)).2 _ hother (by decide)).2 _ _ rfl hdecode' (by decide)

end Response

end Asn1.TimeStamp
