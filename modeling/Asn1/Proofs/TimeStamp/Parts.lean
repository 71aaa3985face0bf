import Asn1.Proofs.Integer
import Asn1.Proofs.TimeStamp.FailureInfo
import Asn1.Proofs.Value.Encode
import Asn1.TimeStamp.Grammar

/-!
# Parts of status information

Many parts can mean the same status information; one of them is written. The written parts mean
what they are written for (`means_parts`). Others differ from them in two ways only: the status has
redundant octets, or there is an empty sequence of texts (`Means.eq_parts_iff`). Then they are also
longer (`Means.eq_parts_of_encodedLength`).
-/

namespace Asn1.TimeStamp.StatusInfo

namespace Parts

theorem textsValue_inj {texts texts' : List Octets} :
    textsValue texts = textsValue texts' ↔ texts = texts' := by
  constructor
  · intro h
    simp only [textsValue, Value.constructed, Value.node.injEq] at h
    exact (List.map_inj_right fun _ _ heq => (Value.primitive.inj heq).2).mp h.2.1
  · rintro rfl
    rfl

theorem toValue_inj {parts parts' : Parts} (h : parts.toValue = parts'.toValue) :
    parts = parts' := by
  obtain ⟨status, texts, failInfo⟩ := parts
  obtain ⟨status', texts', failInfo'⟩ := parts'
  have hmembers := (Value.node.inj h).2.1
  have hkind : ∀ texts content, textsValue texts ≠ .primitive [bitStringTag] content :=
    fun _ _ heq => nomatch heq
  have hkind' := fun texts content => (hkind texts content).symm
  simp only [members, List.cons.injEq, Value.primitive.injEq, true_and] at hmembers
  obtain ⟨rfl, hmembers⟩ := hmembers
  -- The texts are constructed and the reasons are primitive, so neither stands for the other.
  cases texts <;> cases texts' <;> cases failInfo <;> cases failInfo' <;>
    simp_all [textsValue_inj]

theorem isSized_toValue (parts : Parts) : parts.toValue.IsSized := by
  obtain ⟨status, texts, failInfo⟩ := parts
  have htexts : ∀ texts, (textsValue texts).IsSized := by
    intro texts
    apply Value.isSized_constructed
    induction texts with
    | nil => simp [Value.AreSized]
    | cons text texts ih => simpa [Value.AreSized, Value.IsSized] using ih
  apply Value.isSized_constructed
  cases texts <;> cases failInfo <;> simp [members, Value.AreSized, Value.IsSized, htexts]

end Parts

/-! ## The parts that are written -/

theorem encode_code (status : Status) :
    Integer.encode (Int64.ofNat status.code) = [UInt8.ofNat status.code] := by
  cases status <;> decide

theorem means_parts {info : StatusInfo}
    (h : ∀ failInfo, info.failInfo = some failInfo → failInfo.IsObtained) :
    info.parts.Means info := by
  obtain ⟨status, strings, failInfo⟩ := info
  refine ⟨?_, ?_, ?_⟩
  · simp only [parts, encode_code]
    cases status <;> decide
  · cases strings <;> simp [parts, Utf8.decode?_encode]
  · cases failInfo with
    | none => rfl
    | some failInfo =>
      simp only [parts, Option.map_some, FailureInfo.ofContent?_content (h failInfo rfl)]

/-! ## Other parts with the same meaning -/

section Means

variable {parts : Parts} {info : StatusInfo}

theorem Parts.Means.failInfo_eq (h : parts.Means info) : parts.failInfo = info.parts.failInfo := by
  have hfail := h.failInfo
  rw [StatusInfo.parts]
  simp only
  cases hcontent : parts.failInfo with
  | none =>
    rw [hcontent] at hfail
    rw [Option.map_eq_none_iff.mp hfail.symm]
    rfl
  | some content =>
    rw [hcontent] at hfail
    obtain ⟨failInfo, hinfo, hread⟩ := Option.map_eq_some_iff.mp hfail.symm
    obtain ⟨-, rfl⟩ := FailureInfo.ofContent?_eq_some_iff.mp hread.symm
    rw [hinfo]
    rfl

theorem map_encode_of_map_decode? {texts : List Octets} {strings : List String}
    (h : texts.map Utf8.decode? = strings.map some) : strings.map Utf8.encode = texts := by
  induction texts generalizing strings with
  | nil => rw [List.map_eq_nil_iff.mp h.symm, List.map_nil]
  | cons text texts ih =>
    cases strings with
    | nil => simp at h
    | cons string strings =>
      simp only [List.map_cons, List.cons.injEq] at h
      rw [List.map_cons, Utf8.encode_of_decode? h.1, ih h.2]

/-- The texts are the written ones, or there are none and an empty sequence says so. -/
theorem Parts.Means.texts_eq (h : parts.Means info) :
    parts.texts = info.parts.texts ∨ (parts.texts = some [] ∧ info.parts.texts = none) := by
  have hstrings := map_encode_of_map_decode? h.strings
  rw [StatusInfo.parts]
  simp only [hstrings]
  cases htexts : parts.texts with
  | none =>
    rw [htexts] at hstrings
    simp [List.map_eq_nil_iff.mp hstrings]
  | some texts =>
    cases texts with
    | nil =>
      rw [htexts] at hstrings
      simp [List.map_eq_nil_iff.mp hstrings]
    | cons text texts =>
      have hne : info.strings ≠ [] := by
        intro hnil
        rw [htexts, hnil] at hstrings
        cases hstrings
      simp [hne]

theorem Parts.Means.value_status (h : parts.Means info) :
    Integer.value parts.status = info.status.code ∧ parts.status ≠ [] := by
  obtain ⟨code, hdecode, hstatus⟩ := Option.bind_eq_some_iff.mp h.status
  refine ⟨?_, ?_⟩
  · rw [← Integer.toInt_of_decode? hdecode, Status.code_of_ofCode? hstatus]
  · intro hnil
    rw [hnil] at hdecode
    cases hdecode

/-- Of the contents of an integer with the value, the written one is the only single octet. -/
theorem Parts.Means.status_eq (h : parts.Means info) (hlen : parts.status.length = 1) :
    parts.status = info.parts.status := by
  obtain ⟨octet, hoctet⟩ := List.length_eq_one_iff.mp hlen
  have hvalue := h.value_status.1
  have hlt := octet.toNat_lt
  have hcode := info.status.code_lt
  rw [hoctet, Integer.value_cons] at hvalue
  simp only [List.length_nil, pow_zero, Nat.mul_one, Octets.toNat, List.foldl_nil,
    Nat.add_zero] at hvalue
  have hnat : octet.toNat = info.status.code := by
    split at hvalue <;> omega
  have hcontent : info.parts.status = [UInt8.ofNat info.status.code] := encode_code info.status
  rw [hcontent, ← hnat, UInt8.ofNat_toNat, hoctet]

theorem Parts.Means.eq_parts (h : parts.Means info) (hlen : parts.status.length = 1)
    (htexts : parts.texts ≠ some []) : parts = info.parts := by
  have hstatus := h.status_eq hlen
  have hfailInfo := h.failInfo_eq
  rcases h.texts_eq with heq | ⟨hempty, -⟩
  · obtain ⟨status, texts, failInfo⟩ := parts
    simp only at hstatus heq hfailInfo
    rw [hstatus, heq, hfailInfo]
  · exact absurd hempty htexts

theorem texts_parts_ne (info : StatusInfo) : info.parts.texts ≠ some [] := by
  cases hstrings : info.strings <;> simp [StatusInfo.parts, hstrings]

theorem length_status_parts (info : StatusInfo) : info.parts.status.length = 1 := by
  simp only [StatusInfo.parts, encode_code, List.length_singleton]

theorem Parts.Means.eq_parts_iff (h : parts.Means info) :
    parts = info.parts ↔ Integer.IsMinimal parts.status ∧ parts.texts ≠ some [] := by
  constructor
  · rintro rfl
    obtain ⟨octet, hoctet⟩ := List.length_eq_one_iff.mp info.length_status_parts
    rw [hoctet]
    exact ⟨trivial, info.texts_parts_ne⟩
  · rintro ⟨hminimal, htexts⟩
    obtain ⟨hvalue, hne⟩ := h.value_status
    have hcode := info.status.code_lt
    have hlen := Integer.length_of_isMinimal hminimal hne (by omega) (by omega)
    exact h.eq_parts hlen htexts

/-- Redundant octets and an empty sequence take room, so parts of the written size have neither. -/
theorem Parts.Means.eq_parts_of_encodedLength (h : parts.Means info)
    (hsize : parts.toValue.encodedLength = info.parts.toValue.encodedLength) :
    parts = info.parts := by
  have htotal := Value.totalLength_eq_of_encodedLength hsize
  have hstatus := List.length_pos_iff.mpr h.value_status.2
  have hwritten := info.length_status_parts
  have hcount : Ber.Length.octetCount 1 ≤ Ber.Length.octetCount parts.status.length :=
    Ber.Length.octetCount_mono hstatus
  simp only [members, Value.totalLength_cons, Value.totalLength_append, h.failInfo_eq] at htotal
  simp only [Value.encodedLength, Value.identifier, Value.contentLength, hwritten] at htotal
  rcases h.texts_eq with heq | ⟨hempty, hnone⟩
  · rw [heq] at htotal
    exact h.eq_parts (by omega) (heq ▸ info.texts_parts_ne)
  · rw [hempty, hnone] at htotal
    have hsequence : 0 < (textsValue []).encodedLength := by
      decide
    simp only [Option.map_some, Option.map_none, Option.toList_some, Option.toList_none,
      Value.totalLength_cons, Value.totalLength_nil] at htotal
    omega

end Means

end Asn1.TimeStamp.StatusInfo
