import Asn1.Proofs.TimeStamp.Response
import Asn1.Proofs.TimeStamp.Token

/-!
# Reading a response and its conversion

An input that can be converted is read side by side with its distinguished form. Before each step
the two windows are over the same values, the second one over their encodings (`SideBySide`); each
reader then ends alike in both (`Agree`), and no error is about the octets, since those are good
ones. So a response means the same before and after conversion (`ofBer_convert`).
-/

namespace Asn1.TimeStamp

open Ber

/-- An error about what good octets mean. -/
def Error.IsSemantic : Error → Prop
  | .ber _ => False
  | _ => True

theorem Error.IsSemantic.ne_ber {error : Error} (h : error.IsSemantic) (cause : Ber.Error) :
    error ≠ .ber cause := by
  intro heq
  rw [heq] at h
  exact h

/-- Two windows over the same values, the second one over their encodings. -/
structure SideBySide (limit : Nat) (window window' : Window) (values : List Value) : Prop where
  denotes : Denotes window values
  inBounds : window'.InBounds
  encoded : window'.remaining = Value.encodeAll values
  depth : Value.depthAll values ≤ limit

/-- An element with a given value, and the element that the value's encoding is. -/
structure Recoded (limit : Nat) (element element' : Element) (value : Value) : Prop where
  isElement : IsElement element.raw value
  holds : element.header.Holds element.content value
  raw : element'.raw = value.encode
  content : element'.content = value.encodedContent
  depth : value.depth ≤ limit

/-- Two windows are over the same values, whichever they are. -/
def Alike (limit : Nat) (window window' : Window) : Prop :=
  ∃ values, SideBySide limit window window' values

/-- Two readers hand out related things and stand before the same values again. -/
def AlikeBehind {α : Type} (limit : Nat) (R : α → α → Prop) (result result' : α × Window) : Prop :=
  R result.1 result'.1 ∧ Alike limit result.2 result'.2

variable {limit : Nat} {window window' : Window} {values : List Value} {tag : UInt8}

theorem SideBySide.denotes' (h : SideBySide limit window window' values) :
    Denotes window' values := by
  refine ⟨h.inBounds, ?_⟩
  rw [h.encoded]
  exact Value.areElements_encodeAll (Value.areWellFormed_of_areElements h.denotes.elements)

theorem Alike.startsWith_eq (h : Alike limit window window') (tag : UInt8) :
    startsWith window tag = startsWith window' tag := by
  obtain ⟨values, h⟩ := h
  rw [h.denotes.startsWith_eq, h.denotes'.startsWith_eq]

theorem Alike.isExhausted_eq (h : Alike limit window window') :
    window.isExhausted = window'.isExhausted := by
  obtain ⟨values, h⟩ := h
  cases values with
  | nil => rw [h.denotes.isExhausted_nil, h.denotes'.isExhausted_nil]
  | cons value values =>
    have hmore := h.denotes.isExhausted_cons
    have hmore' := h.denotes'.isExhausted_cons
    rw [Bool.not_eq_true] at hmore hmore'
    rw [hmore, hmore']

/-! ## Elements -/

section Recoded

variable {element element' : Element} {value : Value}

theorem Recoded.content_eq (h : Recoded limit element element' value)
    (hidentifier : value.identifier = [tag]) (hbit : Identifier.isConstructed [tag] = false) :
    element.content = element'.content := by
  obtain ⟨-, hvalue, -, hcontent, -⟩ := h
  have hheader := hvalue.identifier_eq.symm.trans hidentifier
  rw [hcontent]
  cases hvalue with
  | primitive _ => rfl
  | constructed hbit' _ =>
    rw [Header.isConstructed, hheader, hbit] at hbit'
    cases hbit'

/-- The windows over the contents are alike again. -/
theorem Recoded.inside (h : Recoded limit element element' value)
    (hidentifier : value.identifier = [tag]) (hbit : Identifier.isConstructed [tag] = true) :
    Alike limit element.inside element'.inside := by
  obtain ⟨-, hvalue, -, hcontent, hdepth⟩ := h
  have hheader := hvalue.identifier_eq.symm.trans hidentifier
  cases hvalue with
  | primitive hbit' =>
    rw [Header.isConstructed, hheader, hbit] at hbit'
    cases hbit'
  | @constructed children _ hchildren =>
    rw [Value.depth_constructed] at hdepth
    exact ⟨children, ⟨Window.inBounds_ofOctets _, hchildren⟩, Window.inBounds_ofOctets _,
      hcontent, by omega⟩

end Recoded

/-! ## One member -/

theorem SideBySide.expectMember {value : Value}
    (h : SideBySide limit window window' (value :: values)) (tag : UInt8) (field : Field) :
    ∃ element element' behind behind', Recoded limit element element' value ∧
      SideBySide limit behind behind' values ∧
      TimeStamp.expectMember window tag field =
        (if value.identifier = [tag] then .ok (element, behind)
        else .error (.unexpectedIdentifier field value.identifier)) ∧
      TimeStamp.expectMember window' tag field =
        if value.identifier = [tag] then .ok (element', behind')
        else .error (.unexpectedIdentifier field value.identifier) := by
  obtain ⟨hdenotes, hbounds', hencoded, hdepth⟩ := h
  obtain ⟨element, behind, helement, hvalue, hbehind, hread⟩ := hdenotes.expectMember tag field
  obtain ⟨element', hexact', hraw', hidentifier', hcontent'⟩ :=
    Value.exists_exact_encode (Value.isWellFormed_of_isElement helement)
  rw [Value.encodeAll, ← hraw'] at hencoded
  obtain ⟨behind', hbounds', hrest', hread'⟩ :=
    expectMember_of_exact hbounds' hexact' hencoded tag field
  rw [hidentifier'] at hread'
  rw [Value.depthAll] at hdepth
  exact ⟨element, element', behind, behind', ⟨helement, hvalue, hraw', hcontent', by omega⟩,
    ⟨hbehind, hbounds', hrest', by omega⟩, hread, hread'⟩

theorem agree_expectMember (h : SideBySide limit window window' values) (tag : UInt8)
    (field : Field) :
    Agree Error.IsSemantic
      (fun result result' => ∃ value rest, values = value :: rest ∧
        value.identifier = [tag] ∧ Recoded limit result.1 result'.1 value ∧
        SideBySide limit result.2 result'.2 rest)
      (expectMember window tag field) (expectMember window' tag field) := by
  cases values with
  | nil =>
    rw [expectMember_of_end h.denotes.inBounds h.denotes.remaining_eq_nil,
      expectMember_of_end h.inBounds h.denotes'.remaining_eq_nil]
    exact .error trivial
  | cons value rest =>
    obtain ⟨element, element', behind, behind', hrecoded, hbehind, hread, hread'⟩ :=
      h.expectMember tag field
    rw [hread, hread']
    by_cases hidentifier : value.identifier = [tag]
    · rw [if_pos hidentifier, if_pos hidentifier]
      exact .ok ⟨value, rest, rfl, hidentifier, hrecoded, hbehind⟩
    · rw [if_neg hidentifier, if_neg hidentifier]
      exact .error trivial

/-! ## Status information -/

namespace StatusInfo

theorem agree_readStrings (h : SideBySide limit window window' values) :
    Agree Error.IsSemantic Eq (readStrings window) (readStrings window') := by
  induction values generalizing window window' with
  | nil =>
    rw [readStrings_of_end h.denotes.isExhausted_nil,
      readStrings_of_end h.denotes'.isExhausted_nil]
    exact .ok rfl
  | cons value values ih =>
    rw [readStrings_of_more h.denotes.isExhausted_cons,
      readStrings_of_more h.denotes'.isExhausted_cons]
    refine (agree_expectMember h utf8StringTag .pkiFreeText).bind ?_
    rintro ⟨element, behind⟩ ⟨element', behind'⟩
      ⟨value', rest, hvalues, hidentifier, hrecoded, hbehind⟩
    cases hvalues
    have hcontent : element.content = element'.content :=
      hrecoded.content_eq hidentifier (by decide)
    simp only [hcontent]
    cases Utf8.decode? element'.content with
    | none => exact .error trivial
    | some string =>
      refine (ih hbehind).bind ?_
      rintro strings _ rfl
      exact .ok rfl

theorem agree_readStatus (h : Alike limit window window') :
    Agree Error.IsSemantic (AlikeBehind limit Eq) (readStatus window) (readStatus window') := by
  obtain ⟨values, h⟩ := h
  refine (agree_expectMember h integerTag .pkiStatus).bind ?_
  rintro ⟨element, behind⟩ ⟨element', behind'⟩
    ⟨value, rest, -, hidentifier, hrecoded, hbehind⟩
  have hcontent : element.content = element'.content :=
    hrecoded.content_eq hidentifier (by decide)
  simp only [hcontent]
  cases Integer.decode? element'.content with
  | none => exact .error trivial
  | some code =>
    simp only
    cases Status.ofCode? code.toInt with
    | none => exact .error trivial
    | some status => exact .ok ⟨rfl, rest, hbehind⟩

theorem agree_readTexts (h : Alike limit window window') :
    Agree Error.IsSemantic (AlikeBehind limit Eq) (readTexts window) (readTexts window') := by
  have hnext := h.startsWith_eq sequenceTag
  obtain ⟨values, h⟩ := h
  rw [readTexts_eq h.denotes.inBounds, readTexts_eq h.inBounds, hnext]
  split
  · refine (agree_expectMember h sequenceTag .pkiFreeText).bind ?_
    rintro ⟨element, behind⟩ ⟨element', behind'⟩
      ⟨value, rest, -, hidentifier, hrecoded, hbehind⟩
    obtain ⟨children, hinside⟩ := hrecoded.inside hidentifier (by decide)
    refine (agree_readStrings hinside).bind ?_
    rintro strings _ rfl
    exact .ok ⟨rfl, rest, hbehind⟩
  · exact .ok ⟨rfl, values, h⟩

theorem agree_readFailInfo (h : Alike limit window window') :
    Agree Error.IsSemantic (AlikeBehind limit Eq)
      (readFailInfo window) (readFailInfo window') := by
  have hnext := h.startsWith_eq bitStringTag
  obtain ⟨values, h⟩ := h
  rw [readFailInfo_eq h.denotes.inBounds, readFailInfo_eq h.inBounds, hnext]
  split
  · refine (agree_expectMember h bitStringTag .pkiStatusInfo).bind ?_
    rintro ⟨element, behind⟩ ⟨element', behind'⟩
      ⟨value, rest, -, hidentifier, hrecoded, hbehind⟩
    have hcontent : element.content = element'.content :=
      hrecoded.content_eq hidentifier (by decide)
    simp only [hcontent]
    cases FailureInfo.ofContent? element'.content with
    | none => exact .error trivial
    | some info => exact .ok ⟨rfl, rest, hbehind⟩
  · exact .ok ⟨rfl, values, h⟩

theorem agree_read (h : Alike limit window window') :
    Agree Error.IsSemantic Eq (read window) (read window') := by
  refine (agree_readStatus h).bind ?_
  rintro ⟨status, window₁⟩ ⟨_, window₁'⟩ ⟨rfl, h₁⟩
  refine (agree_readTexts h₁).bind ?_
  rintro ⟨strings, window₂⟩ ⟨_, window₂'⟩ ⟨rfl, h₂⟩
  refine (agree_readFailInfo h₂).bind ?_
  rintro ⟨failInfo, window₃⟩ ⟨_, window₃'⟩ ⟨rfl, h₃⟩
  simp only [h₃.isExhausted_eq]
  split
  · exact .ok rfl
  · exact .error trivial

end StatusInfo

/-! ## Responses -/

namespace Response

/-- A token as received and its conversion, or no token at all. -/
inductive IsRecoded (limit : Nat) : Option Octets → Option Octets → Prop
  | absent : IsRecoded limit none none
  | present {octets octets' : Octets} {value : Value} (h : IsElement octets value)
      (hdepth : value.depth ≤ limit) (hencoded : octets' = value.encode) :
      IsRecoded limit (some octets) (some octets')

/-- Two responses say the same, the second one with its token converted. -/
def IsConversion (limit : Nat) (response response' : Response) : Prop :=
  response'.status = response.status ∧ IsRecoded limit response.token response'.token

theorem agree_readToken (h : Alike limit window window') :
    Agree Error.IsSemantic (AlikeBehind limit (IsRecoded limit))
      (readToken window) (readToken window') := by
  have hend := h.isExhausted_eq
  obtain ⟨values, h⟩ := h
  rw [readToken, readToken, hend]
  split
  · exact .ok ⟨.absent, values, h⟩
  · refine (agree_expectMember h sequenceTag .timeStampToken).bind ?_
    rintro ⟨element, behind⟩ ⟨element', behind'⟩ ⟨value, rest, -, -, hrecoded, hbehind⟩
    exact .ok ⟨.present hrecoded.isElement hrecoded.depth hrecoded.raw, rest, hbehind⟩

theorem agree_readMembers (h : Alike limit window window') :
    Agree Error.IsSemantic (IsConversion limit) (readMembers window) (readMembers window') := by
  obtain ⟨values, h⟩ := h
  refine (agree_expectMember h sequenceTag .pkiStatusInfo).bind ?_
  rintro ⟨element, behind⟩ ⟨element', behind'⟩
    ⟨value, rest, -, hidentifier, hrecoded, hbehind⟩
  refine (StatusInfo.agree_read (hrecoded.inside hidentifier (by decide))).bind ?_
  rintro status _ rfl
  refine (agree_readToken ⟨rest, hbehind⟩).bind ?_
  rintro ⟨token, window₁⟩ ⟨token', window₁'⟩ ⟨htoken, h₁⟩
  simp only [h₁.isExhausted_eq]
  split
  · exact .ok ⟨rfl, htoken⟩
  · exact .error trivial

/-- The outermost element of good octets is a member like the others. -/
theorem ofBer_of_isElement {octets : Octets} {value : Value} (h : IsElement octets value) :
    ofBer octets = (do
      let (element, window) ← expectMember (.ofOctets octets) sequenceTag .timeStampResp
      if window.isExhausted then
        readMembers element.inside
      else
        throw (.ber .trailingData)) := by
  obtain ⟨element, hexact, rfl, -⟩ := exists_exact_of_isElement h
  have hinput := Window.inBounds_ofOctets element.raw
  obtain ⟨window, hread, -, -⟩ :=
    Element.read_of_exact hinput hexact (List.append_nil element.raw).symm
  have hmore := not_isExhausted_of_exact hinput hexact (List.append_nil element.raw).symm
  simp only [ofBer, expectMember, if_neg hmore, readMember_eq_ok.mpr hread, hread,
    Except.mapError, ok_bind]
  cases checkIdentifier element sequenceTag .timeStampResp <;> rfl

theorem agree_ofBer {octets : Octets} {value : Value} (h : IsElement octets value)
    (hdepth : value.depth ≤ limit) :
    Agree Error.IsSemantic (IsConversion limit) (ofBer octets) (ofBer value.encode) := by
  have hencode := Value.isElement_encode (Value.isWellFormed_of_isElement h)
  have hsides : SideBySide limit (.ofOctets octets) (.ofOctets value.encode) [value] := by
    refine ⟨⟨Window.inBounds_ofOctets _, ?_⟩, Window.inBounds_ofOctets _, ?_, ?_⟩
    · exact areElements_singleton_iff.mpr h
    · simp [Value.encodeAll]
    · simpa [Value.depthAll] using hdepth
  rw [ofBer_of_isElement h, ofBer_of_isElement hencode]
  refine (agree_expectMember hsides sequenceTag .timeStampResp).bind ?_
  rintro ⟨element, behind⟩ ⟨element', behind'⟩
    ⟨value', rest, hvalues, hidentifier, hrecoded, hbehind⟩
  cases hvalues
  simp only [hbehind.denotes.isExhausted_nil, hbehind.denotes'.isExhausted_nil, if_true]
  exact agree_readMembers (hrecoded.inside hidentifier (by decide))

theorem canonicalToken_of_isRecoded {response : Response} {token : Option Octets}
    (h : IsRecoded Converter.default.maxDepth response.token token) :
    response.canonicalToken = .ok token := by
  refine canonicalToken_eq_ok_iff.mpr ?_
  generalize response.token = received at h
  cases h with
  | absent => exact .inl ⟨rfl, rfl⟩
  | @present octets _ value helement hdepth hencoded =>
    have hconvert : Converter.default.convert octets = .ok value.encode :=
      Converter.convert_eq_ok_iff.mpr
        ⟨value, Converter.decode_eq_ok_iff.mpr ⟨helement, hdepth⟩, rfl⟩
    exact .inr ⟨octets, value.encode, rfl, hconvert, by rw [hencoded]⟩

/-- A response is read from an input as from the conversion of that input: refused for the same
reason, which is never one of decoding, or with the same status information and with the token that
is the canonical one of the other. -/
theorem ofBer_convert (x d : Octets) (h : Converter.default.convert x = .ok d) :
    (∃ error, ofBer x = .error error ∧ ofBer d = .error error ∧ ∀ cause, error ≠ .ber cause) ∨
      ∃ response response', ofBer x = .ok response ∧ ofBer d = .ok response' ∧
        response'.status = response.status ∧ response.canonicalToken = .ok response'.token := by
  obtain ⟨value, hdecode, rfl⟩ := Converter.convert_eq_ok_iff.mp h
  obtain ⟨helement, hdepth⟩ := Converter.decode_eq_ok_iff.mp hdecode
  have hagree := agree_ofBer helement hdepth
  generalize ofBer x = result at hagree ⊢
  generalize ofBer value.encode = result' at hagree ⊢
  cases hagree with
  | error hsemantic => exact .inl ⟨_, rfl, rfl, hsemantic.ne_ber⟩
  | ok hconversion =>
    obtain ⟨hstatus, htoken⟩ := hconversion
    exact .inr ⟨_, _, rfl, rfl, hstatus, canonicalToken_of_isRecoded htoken⟩

/-- A rejection with a reason and a token, all its length octets padded but the innermost ones. -/
theorem ofBer_convert_padded :
    Converter.default.convert [0x30, 0x81, 17, 0x30, 0x81, 7, 2, 1, 2, 3, 2, 5, 0x20,
        0x30, 0x83, 0, 0, 2, 5, 0] =
      .ok [0x30, 13, 0x30, 7, 2, 1, 2, 3, 2, 5, 0x20, 0x30, 2, 5, 0] ∧
    ∃ response response',
      ofBer [0x30, 0x81, 17, 0x30, 0x81, 7, 2, 1, 2, 3, 2, 5, 0x20,
        0x30, 0x83, 0, 0, 2, 5, 0] = .ok response ∧
      ofBer [0x30, 13, 0x30, 7, 2, 1, 2, 3, 2, 5, 0x20, 0x30, 2, 5, 0] = .ok response' ∧
      response'.status = response.status ∧ response.canonicalToken = .ok response'.token := by
  have hconvert : Converter.default.convert [0x30, 0x81, 17, 0x30, 0x81, 7, 2, 1, 2, 3, 2, 5, 0x20,
      0x30, 0x83, 0, 0, 2, 5, 0] =
        .ok [0x30, 13, 0x30, 7, 2, 1, 2, 3, 2, 5, 0x20, 0x30, 2, 5, 0] := by
    cbv
  have hread : ofBer [0x30, 0x81, 17, 0x30, 0x81, 7, 2, 1, 2, 3, 2, 5, 0x20,
      0x30, 0x83, 0, 0, 2, 5, 0] =
        .ok ⟨⟨.rejection, [], some ⟨[5, 0x20]⟩⟩, some [0x30, 0x83, 0, 0, 2, 5, 0]⟩ := by
    cbv
  refine ⟨hconvert, ?_⟩
  rcases ofBer_convert _ _ hconvert with ⟨error, hrefused, -, -⟩ | hboth
  · rw [hread] at hrefused
    cases hrefused
  · exact hboth

end Response

end Asn1.TimeStamp
