import Asn1.Proofs.TimeStamp.Response
import Asn1.Proofs.Value.Extent

/-!
# Responses that end early or go on

Inside its outermost element a response is never refused for ending early or for what follows it
(`failsWith_readMembers`): a member that is too long is at odds with the element around it. So these
two errors are about the outermost element, and a response that is cut off is told from one with
something behind it, in the same way as by decoding (`cut_told_from_extended`).
-/

namespace Asn1.TimeStamp

open Ber

/-- An error that is met inside the outermost element. It never says that the input ends early or
that something follows the element. -/
def Error.IsInner : Error → Prop
  | .ber error => error ≠ .earlyEof ∧ error ≠ .trailingData
  | _ => True

theorem Error.isInner_within {error : Ber.Error} (h : error ≠ .trailingData) :
    (Error.ber error.within).IsInner := by
  cases error <;> simp_all [Error.IsInner, Ber.Error.within]

variable {window : Window}

/-! ## Members -/

theorem failsWith_readMember : FailsWith Error.IsInner (readMember window) := by
  intro error herror
  simp only [readMember, Element.readWithin] at herror
  cases hread : Element.read window with
  | error cause =>
    rw [hread] at herror
    cases herror
    apply Error.isInner_within
    rintro rfl
    exact Element.read_ne_trailingData window hread
  | ok result =>
    rw [hread] at herror
    cases herror

theorem failsWith_checkIdentifier {element : Element} {tag : UInt8} {field : Field} :
    FailsWith Error.IsInner (checkIdentifier element tag field) := by
  rw [checkIdentifier]
  split
  · exact failsWith_ok _
  · exact failsWith_error trivial

theorem failsWith_expectMember {tag : UInt8} {field : Field} :
    FailsWith Error.IsInner (expectMember window tag field) := by
  by_cases hend : window.isExhausted = true
  · rw [expectMember, if_pos hend]
    exact failsWith_error trivial
  · rw [expectMember_of_more hend]
    refine failsWith_readMember.bind ?_
    rintro ⟨element, window'⟩
    exact failsWith_checkIdentifier.bind fun _ => failsWith_ok _

/-! ## Status information -/

namespace StatusInfo

theorem failsWith_readStrings : FailsWith Error.IsInner (readStrings window) := by
  fun_induction readStrings window with
  | case1 window hend => exact failsWith_ok _
  | case2 window hmore error hread => exact failsWith_error (failsWith_expectMember _ hread)
  | case3 => exact failsWith_error trivial
  | case4 window hmore element window' hread string hstring error hstrings ih =>
    exact failsWith_error (ih _ hstrings)
  | case5 => exact failsWith_ok _

theorem failsWith_readStatus : FailsWith Error.IsInner (readStatus window) := by
  refine failsWith_expectMember.bind ?_
  rintro ⟨element, window'⟩
  simp only
  split
  · exact failsWith_error trivial
  · split
    · exact failsWith_error trivial
    · exact failsWith_ok _

theorem failsWith_readTexts : FailsWith Error.IsInner (readTexts window) := by
  rw [readTexts]
  split
  · refine failsWith_readMember.bind ?_
    rintro ⟨element, window'⟩
    exact failsWith_readStrings.bind fun _ => failsWith_ok _
  · exact failsWith_ok _

theorem failsWith_readFailInfo : FailsWith Error.IsInner (readFailInfo window) := by
  rw [readFailInfo]
  split
  · refine failsWith_readMember.bind ?_
    rintro ⟨element, window'⟩
    simp only
    split
    · exact failsWith_error trivial
    · exact failsWith_ok _
  · exact failsWith_ok _

theorem failsWith_read : FailsWith Error.IsInner (read window) := by
  refine failsWith_readStatus.bind ?_
  rintro ⟨status, window₁⟩
  refine failsWith_readTexts.bind ?_
  rintro ⟨strings, window₂⟩
  refine failsWith_readFailInfo.bind ?_
  rintro ⟨failInfo, window₃⟩
  simp only
  split
  · exact failsWith_ok _
  · exact failsWith_error trivial

end StatusInfo

/-! ## Responses -/

namespace Response

theorem failsWith_readToken : FailsWith Error.IsInner (readToken window) := by
  rw [readToken]
  split
  · exact failsWith_ok _
  · exact failsWith_expectMember.bind fun _ => failsWith_ok _

theorem failsWith_readMembers : FailsWith Error.IsInner (readMembers window) := by
  refine failsWith_expectMember.bind ?_
  rintro ⟨info, window₁⟩
  refine StatusInfo.failsWith_read.bind ?_
  intro status
  refine failsWith_readToken.bind ?_
  rintro ⟨token, window₂⟩
  simp only
  split
  · exact failsWith_ok _
  · exact failsWith_error trivial

/-- A response ends early when its outermost header says so. -/
theorem ofBer_eq_earlyEof_iff {octets : Octets} :
    ofBer octets = .error (.ber .earlyEof) ↔ Header.parse octets = .error .earlyEof := by
  constructor
  · intro h
    cases hparse : Header.parse octets with
    | error error =>
      rw [ofBer_refused hparse] at h
      cases h
      rfl
    | ok result =>
      obtain ⟨header, rest⟩ := result
      rw [ofBer_of_parse hparse] at h
      split at h
      · split at h
        · exact absurd rfl (failsWith_readMembers _ h).1
        · cases h
      · cases h
  · exact ofBer_refused

/-- Something follows a response when its outermost element is a sequence and leaves octets over. -/
theorem ofBer_eq_trailingData_iff {octets : Octets} :
    ofBer octets = .error (.ber .trailingData) ↔
      ∃ front back content, back ≠ [] ∧ octets = front ++ back ∧
        IsMember sequenceTag front content := by
  constructor
  · intro h
    cases hparse : Header.parse octets with
    | error error =>
      rw [ofBer_refused hparse] at h
      cases h
      simpa using Header.error_of_parse hparse
    | ok result =>
      obtain ⟨header, rest⟩ := result
      rw [ofBer_of_parse hparse] at h
      split at h
      · rename_i hidentifier
        split at h
        · exact absurd rfl (failsWith_readMembers _ h).2
        · rename_i hlen
          have hfit := (Header.bounds_of_parse hparse).2.2
          obtain ⟨front, hmember, hoctets⟩ := exists_isMember_of_parse hparse hidentifier
          refine ⟨front, _, _, List.ne_nil_of_length_pos ?_, hoctets, hmember⟩
          rw [List.length_drop]
          omega
      · cases h
  · rintro ⟨front, back, content, hne, rfl, hmember⟩
    obtain ⟨header, hparse, hidentifier, hlen, -⟩ := hmember.parse_sequence
    have hpos := List.length_pos_iff.mpr hne
    have hleft : ¬ header.contentLength = (content ++ back).length := by
      rw [List.length_append]
      omega
    rw [ofBer_of_parse (Header.parse_append_of_ok hparse back), if_pos hidentifier, if_neg hleft]

theorem ofBer_of_cut {front back : Octets} {response : Response}
    (h : ofBer (front ++ back) = .ok response) (hne : back ≠ []) :
    ofBer front = .error (.ber .earlyEof) := by
  obtain ⟨content, hmember, -⟩ := exists_member_of_ofBer h
  obtain ⟨header, hparse, -, hlen, -⟩ := hmember.parse_sequence
  exact ofBer_eq_earlyEof_iff.mpr (Header.parse_of_cut hparse hlen hne)

theorem ofBer_append {front back : Octets} {response : Response} (h : ofBer front = .ok response)
    (hne : back ≠ []) : ofBer (front ++ back) = .error (.ber .trailingData) := by
  obtain ⟨content, hmember, -⟩ := exists_member_of_ofBer h
  exact ofBer_eq_trailingData_iff.mpr ⟨front, back, content, hne, rfl, hmember⟩

/-- What is cut off an accepted input ends early, under whichever limit, and what is added behind it
is left over. Octets are left over behind an element that is itself accepted; behind a response, at
least behind a sequence. To decode an input and to read a response from it find the same inputs to
end early, whatever the limit. -/
theorem cut_told_from_extended (x : Octets) :
    (∀ m value, Value.decode x m = .ok value →
        (∀ y, y <+: x → y ≠ x → ∀ m', Value.decode y m' = .error .earlyEof) ∧
          ∀ z, z ≠ [] → Value.decode (x ++ z) m = .error .trailingData) ∧
      (∀ m, Value.decode x m = .error .trailingData →
        ∃ y value, y <+: x ∧ y ≠ x ∧ Value.decode y m = .ok value) ∧
      (∀ response, ofBer x = .ok response →
        (∀ y, y <+: x → y ≠ x → ofBer y = .error (.ber .earlyEof)) ∧
          ∀ z, z ≠ [] → ofBer (x ++ z) = .error (.ber .trailingData)) ∧
      (ofBer x = .error (.ber .trailingData) →
        ∃ y content, y <+: x ∧ y ≠ x ∧ IsMember sequenceTag y content) ∧
      ∀ m, ofBer x = .error (.ber .earlyEof) ↔ Value.decode x m = .error .earlyEof := by
  refine ⟨?_, ?_, ?_, ?_, ?_⟩
  · intro m value h
    refine ⟨?_, fun z hne => Value.decode_append h hne⟩
    intro y hstart hproper m'
    obtain ⟨back, hne, rfl⟩ := Value.isPrefix_and_ne_iff.mp ⟨hstart, hproper⟩
    exact Value.decode_of_cut h hne m'
  · intro m h
    obtain ⟨front, back, value, hne, hinput, hfront⟩ := Value.exists_front_of_trailing h
    obtain ⟨hstart, hproper⟩ := Value.isPrefix_and_ne_iff.mpr ⟨back, hne, hinput⟩
    exact ⟨front, value, hstart, hproper, hfront⟩
  · intro response h
    refine ⟨?_, fun z hne => ofBer_append h hne⟩
    intro y hstart hproper
    obtain ⟨back, hne, rfl⟩ := Value.isPrefix_and_ne_iff.mp ⟨hstart, hproper⟩
    exact ofBer_of_cut h hne
  · intro h
    obtain ⟨front, back, content, hne, hinput, hmember⟩ := ofBer_eq_trailingData_iff.mp h
    obtain ⟨hstart, hproper⟩ := Value.isPrefix_and_ne_iff.mpr ⟨back, hne, hinput⟩
    exact ⟨front, content, hstart, hproper, hmember⟩
  · intro m
    rw [ofBer_eq_earlyEof_iff, Value.decode_eq_earlyEof_iff]

/-- A granted response, cut inside its status information, and with an octet too many behind it. -/
theorem cut_told_from_extended_granted :
    Value.decode [0x30, 5, 0x30, 3, 2, 1, 0] 2 =
        .ok (.constructed [0x30] [.constructed [0x30] [.primitive [2] [0]]]) ∧
      (∀ m, Value.decode [0x30, 5, 0x30] m = .error .earlyEof) ∧
      Value.decode [0x30, 5, 0x30, 3, 2, 1, 0, 0x30] 2 = .error .trailingData ∧
      (∃ y value, y <+: [0x30, 5, 0x30, 3, 2, 1, 0, 0x30] ∧
        y ≠ [0x30, 5, 0x30, 3, 2, 1, 0, 0x30] ∧ Value.decode y 2 = .ok value) ∧
      ofBer [0x30, 5, 0x30, 3, 2, 1, 0] = .ok ⟨.ofStatus .granted, none⟩ ∧
      ofBer [0x30, 5, 0x30] = .error (.ber .earlyEof) ∧
      ofBer [0x30, 5, 0x30, 3, 2, 1, 0, 0x30] = .error (.ber .trailingData) ∧
      ∃ y content, y <+: [0x30, 5, 0x30, 3, 2, 1, 0, 0x30] ∧
        y ≠ [0x30, 5, 0x30, 3, 2, 1, 0, 0x30] ∧ IsMember sequenceTag y content := by
  have hdecode : Value.decode [0x30, 5, 0x30, 3, 2, 1, 0] 2 =
      .ok (.constructed [0x30] [.constructed [0x30] [.primitive [2] [0]]]) := by
    cbv
  have hread : ofBer [0x30, 5, 0x30, 3, 2, 1, 0] = .ok ⟨.ofStatus .granted, none⟩ := by
    cbv
  obtain ⟨hvalue, -, hresponse, -, -⟩ := cut_told_from_extended [0x30, 5, 0x30, 3, 2, 1, 0]
  obtain ⟨-, hfront, -, hmember, -⟩ := cut_told_from_extended [0x30, 5, 0x30, 3, 2, 1, 0, 0x30]
  obtain ⟨hcut, hextended⟩ := hvalue 2 _ hdecode
  obtain ⟨hcut', hextended'⟩ := hresponse _ hread
  have htrailing := hextended [0x30] (by decide)
  have htrailing' := hextended' [0x30] (by decide)
  exact ⟨hdecode, hcut [0x30, 5, 0x30] (by decide) (by decide), htrailing, hfront 2 htrailing,
    hread, hcut' [0x30, 5, 0x30] (by decide) (by decide), htrailing', hmember htrailing'⟩

end Response

end Asn1.TimeStamp
