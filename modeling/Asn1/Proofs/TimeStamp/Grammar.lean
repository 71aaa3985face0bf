import Asn1.Proofs.TimeStamp.Response

/-!
# The grammar of responses, member by member

A response is read from just the octets that the grammar of responses gives, and it holds what they
say (`ofBer_accepts_grammar`). The grammar speaks of octets only. For each member the two ways to
say what it is are compared: by its octets, and by an element of the grammar of elements whose
content is decoded.
-/

namespace Asn1.TimeStamp

open Ber

namespace StatusInfo

variable {octets content : Octets}

/-! ## The status -/

theorem bind_decode?_eq_some_iff {status : Status} :
    ((Integer.decode? content).bind fun code => Status.ofCode? code.toInt) = some status ↔
      1 ≤ content.length ∧ content.length ≤ 8 ∧
        Integer.twosComplement content = status.code := by
  rw [Option.bind_eq_some_iff, ← Integer.exists_decode?_iff]
  simp only [Status.ofCode?_eq_some_iff]

theorem isStatus_iff {status : Status} :
    IsStatus octets status ↔
      ∃ content, IsElement octets (.primitive [integerTag] content) ∧
        ((Integer.decode? content).bind fun code => Status.ofCode? code.toInt) = some status := by
  simp only [isElement_primitive_iff (show Identifier.isLong integerTag = false from rfl) rfl,
    bind_decode?_eq_some_iff]
  constructor
  · rintro ⟨hmember, hmin, hmax, hcode⟩
    exact ⟨_, hmember, hmin, hmax, hcode⟩
  · rintro ⟨content, hmember, hmin, hmax, hcode⟩
    exact ⟨hmember, hmin, hmax, hcode⟩

/-! ## The texts -/

theorem areTexts_iff {strings : List String} :
    AreTexts octets strings ↔
      AreElements octets ((strings.map Utf8.encode).map (.primitive [utf8StringTag])) := by
  induction strings generalizing octets with
  | nil =>
    rw [List.map_nil, List.map_nil, areElements_nil_iff]
    constructor
    · intro h
      cases h
      rfl
    · rintro rfl
      exact .nil
  | cons string strings ih =>
    rw [List.map_cons, List.map_cons, areElements_cons_iff]
    simp only [isElement_primitive_iff (show Identifier.isLong utf8StringTag = false from rfl) rfl,
      ← ih]
    constructor
    · intro h
      cases h with
      | cons hhead htail => exact ⟨_, _, rfl, hhead, htail⟩
    · rintro ⟨head, tail, rfl, hhead, htail⟩
      exact .cons hhead htail

theorem map_decode?_eq_iff {texts : List Octets} {strings : List String} :
    texts.map Utf8.decode? = strings.map some ↔ strings.map Utf8.encode = texts := by
  constructor
  · exact map_encode_of_map_decode?
  · rintro rfl
    simp [Utf8.decode?_encode]

/-- Texts that are not there are none, and so are those of an empty sequence. -/
theorem isFreeText_iff {strings : List String} :
    IsFreeText octets strings ↔
      ∃ texts : Option (List Octets), AreElements octets (texts.map Parts.textsValue).toList ∧
        (texts.getD []).map Utf8.decode? = strings.map some := by
  simp only [map_decode?_eq_iff]
  constructor
  · intro h
    cases h with
    | absent => exact ⟨none, .nil, rfl⟩
    | present hmember htexts =>
      refine ⟨some (strings.map Utf8.encode), areElements_singleton_iff.mpr ?_, rfl⟩
      exact (isElement_constructed_iff rfl rfl).mpr ⟨_, hmember, areTexts_iff.mp htexts⟩
  · rintro ⟨texts, helements, hstrings⟩
    cases texts with
    | none =>
      rw [areElements_nil_iff.mp helements, List.map_eq_nil_iff.mp hstrings]
      exact .absent
    | some texts =>
      cases hstrings
      obtain ⟨content, hmember, hcontent⟩ :=
        (isElement_constructed_iff rfl rfl).mp (areElements_singleton_iff.mp helements)
      exact .present hmember (areTexts_iff.mpr hcontent)

/-! ## The reasons of a failure -/

theorem isBitString_iff : FailureInfo.isBitString content = true ↔ IsBits content := by
  constructor
  · intro h
    cases content with
    | nil => cases h
    | cons unused bits =>
      rcases List.eq_nil_or_concat bits with rfl | ⟨middle, last, rfl⟩
      · rw [beq_iff_eq.mp h]
        exact .empty
      · rw [List.concat_eq_append] at h ⊢
        obtain ⟨hunused, hclear⟩ := FailureInfo.isBitString_concat.mp h
        exact .octets hunused hclear
  · intro h
    cases h with
    | empty => rfl
    | octets hunused hclear => exact FailureInfo.isBitString_concat.mpr ⟨hunused, hclear⟩

theorem isFailInfo_iff {failInfo : Option FailureInfo} :
    IsFailInfo octets failInfo ↔
      ∃ content : Option Octets,
        AreElements octets (content.map (.primitive [bitStringTag])).toList ∧
          content.map FailureInfo.ofContent? = failInfo.map some := by
  constructor
  · intro h
    cases h with
    | absent => exact ⟨none, .nil, rfl⟩
    | @present _ content hmember hbits =>
      have helement := (isElement_primitive_iff rfl rfl).mpr hmember
      refine ⟨some content, areElements_singleton_iff.mpr helement, ?_⟩
      rw [Option.map_some,
        FailureInfo.ofContent?_eq_some_iff.mpr ⟨isBitString_iff.mpr hbits, rfl⟩]
      rfl
  · rintro ⟨content, helements, hinfo⟩
    cases content with
    | none =>
      rw [areElements_nil_iff.mp helements, Option.map_eq_none_iff.mp hinfo.symm]
      exact .absent
    | some content =>
      obtain ⟨info, rfl, hcontent⟩ := Option.map_eq_some_iff.mp hinfo.symm
      obtain ⟨hbits, rfl⟩ := FailureInfo.ofContent?_eq_some_iff.mp hcontent.symm
      have helement := areElements_singleton_iff.mp helements
      exact .present ((isElement_primitive_iff rfl rfl).mp helement) (isBitString_iff.mp hbits)

/-! ## The members together -/

theorem isStatusInfo_iff {info : StatusInfo} :
    IsStatusInfo octets info ↔
      ∃ parts : Parts, IsElement octets parts.toValue ∧ parts.Means info := by
  constructor
  · intro h
    cases h with
    | mk hstatus htexts hreasons hmember =>
      obtain ⟨content, hfirst, hcode⟩ := isStatus_iff.mp hstatus
      obtain ⟨texts, hsecond, hstrings⟩ := isFreeText_iff.mp htexts
      obtain ⟨reasons, hthird, hinfo⟩ := isFailInfo_iff.mp hreasons
      have hmembers : AreElements _ (Parts.members ⟨content, texts, reasons⟩) :=
        .cons hfirst (areElements_append_iff.mpr ⟨_, _, rfl, hsecond, hthird⟩)
      exact ⟨⟨content, texts, reasons⟩,
        (isElement_constructed_iff rfl rfl).mpr ⟨_, hmember, hmembers⟩, hcode, hstrings, hinfo⟩
  · rintro ⟨parts, helement, hcode, hstrings, hinfo⟩
    obtain ⟨content, hmember, hmembers⟩ := (isElement_constructed_iff rfl rfl).mp helement
    obtain ⟨front, back, rfl, hfirst, hback⟩ := areElements_cons_iff.mp hmembers
    obtain ⟨texts, reasons, rfl, hsecond, hthird⟩ := areElements_append_iff.mp hback
    exact .mk (isStatus_iff.mpr ⟨_, hfirst, hcode⟩) (isFreeText_iff.mpr ⟨_, hsecond, hstrings⟩)
      (isFailInfo_iff.mpr ⟨_, hthird, hinfo⟩) hmember

end StatusInfo

namespace Response

theorem isResponse_iff {octets : Octets} {response : Response} :
    IsResponse octets response ↔
      ∃ parts : StatusInfo.Parts, IsLaidOut octets parts response.token ∧
        parts.Means response.status := by
  constructor
  · intro h
    cases h with
    | mk hinfo htoken houter =>
      obtain ⟨parts, helement, hmeans⟩ := StatusInfo.isStatusInfo_iff.mp hinfo
      exact ⟨parts, .mk helement htoken houter, hmeans⟩
  · rintro ⟨parts, hlaid, hmeans⟩
    cases hlaid with
    | mk helement htoken houter =>
      exact .mk (StatusInfo.isStatusInfo_iff.mpr ⟨parts, helement, hmeans⟩) htoken houter

/-- Reading octets gives a response if and only if they are one in the grammar of responses, with
its status, its texts, its reasons and its token. -/
theorem ofBer_accepts_grammar (octets : Octets) (response : Response) :
    ofBer octets = .ok response ↔ IsResponse octets response := by
  rw [ofBer_eq_ok_iff, isResponse_iff]

end Response

end Asn1.TimeStamp
