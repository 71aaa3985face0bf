import Asn1.Proofs.Except
import Asn1.Proofs.TimeStamp.Member

/-!
# Reading status information

Status information is read exactly when the window holds the members of some parts and those parts
mean it: `read_of_denotes` and `exists_parts_of_read`. Each optional member is told from the next
one by its first octet, and a missing one is never confused with what follows it.
-/

namespace Asn1.TimeStamp.StatusInfo

open Ber

variable {window window' : Window}

/-! ## The readers one step at a time -/

theorem readStrings_of_end (hend : window.isExhausted = true) : readStrings window = .ok [] := by
  rw [readStrings, if_pos hend]

theorem readStrings_of_more (hmore : ¬ window.isExhausted = true) :
    readStrings window = (do
      let (element, window') ← expectMember window utf8StringTag .pkiFreeText
      match Utf8.decode? element.content with
      | none => throw .invalidUtf8
      | some string => return string :: (← readStrings window')) := by
  rw [readStrings, if_neg hmore]
  split
  · rename_i hread
    rw [hread]
    rfl
  · rename_i element window' hread
    simp only [hread, ok_bind]
    cases Utf8.decode? element.content with
    | none => rfl
    | some string => cases readStrings window' <;> rfl

/-- The texts are read like any other member once their first octet is seen. -/
theorem readTexts_eq (h : window.InBounds) :
    readTexts window =
      if startsWith window sequenceTag then do
        let (element, window) ← expectMember window sequenceTag .pkiFreeText
        let strings ← readStrings element.inside
        return (strings, window)
      else
        .ok ([], window) := by
  rw [readTexts]
  by_cases hnext : startsWith window sequenceTag = true
  · rw [readMember_of_startsWith h hnext (by decide) .pkiFreeText]
  · rw [if_neg hnext, if_neg hnext]

theorem readFailInfo_eq (h : window.InBounds) :
    readFailInfo window =
      if startsWith window bitStringTag then do
        let (element, window) ← expectMember window bitStringTag .pkiStatusInfo
        match FailureInfo.ofContent? element.content with
        | none => throw .invalidBitString
        | some info => return (some info, window)
      else
        .ok (none, window) := by
  rw [readFailInfo]
  by_cases hnext : startsWith window bitStringTag = true
  · rw [if_pos hnext, readMember_of_startsWith h hnext (by decide) .pkiStatusInfo]
    exact (if_pos hnext).symm
  · rw [if_neg hnext, if_neg hnext]

/-! ## Members that are there are read -/

theorem readStrings_of_denotes {texts : List Octets} {strings : List String}
    (h : Denotes window (texts.map (.primitive [utf8StringTag])))
    (hstrings : texts.map Utf8.decode? = strings.map some) :
    readStrings window = .ok strings := by
  induction texts generalizing window strings with
  | nil =>
    have hnil : strings = [] := List.map_eq_nil_iff.mp hstrings.symm
    rw [hnil, readStrings_of_end h.isExhausted_nil]
  | cons text texts ih =>
    obtain ⟨string, strings, rfl⟩ : ∃ string rest, strings = string :: rest := by
      cases strings with
      | nil => simp at hstrings
      | cons string rest => exact ⟨_, _, rfl⟩
    simp only [List.map_cons, List.cons.injEq] at hstrings
    obtain ⟨element, window', hread, hcontent, hbehind⟩ := h.expectMember_primitive .pkiFreeText
    rw [readStrings_of_more h.isExhausted_cons, hread, ok_bind]
    simp only [hcontent, hstrings.1, ih hbehind hstrings.2, ok_bind]
    rfl

theorem readStatus_of_denotes {content : Octets} {values : List Value} {status : Status}
    (h : Denotes window (.primitive [integerTag] content :: values))
    (hstatus : ((Integer.decode? content).bind fun code => Status.ofCode? code.toInt) =
      some status) :
    ∃ window', readStatus window = .ok (status, window') ∧ Denotes window' values := by
  obtain ⟨element, window', hread, hcontent, hbehind⟩ := h.expectMember_primitive .pkiStatus
  obtain ⟨code, hcode, hstatus⟩ := Option.bind_eq_some_iff.mp hstatus
  refine ⟨window', ?_, hbehind⟩
  rw [readStatus, hread, ok_bind]
  simp only [hcontent, hcode, hstatus]
  rfl

/-- Texts are read if they are there. If not, what follows must not look like them. -/
theorem readTexts_of_denotes {texts : Option (List Octets)} {values : List Value}
    {strings : List String}
    (h : Denotes window ((texts.map Parts.textsValue).toList ++ values))
    (hnext : (values.head?.bind fun value => value.identifier.head?) ≠ some sequenceTag)
    (hstrings : (texts.getD []).map Utf8.decode? = strings.map some) :
    ∃ window', readTexts window = .ok (strings, window') ∧ Denotes window' values := by
  rw [readTexts_eq h.inBounds]
  cases texts with
  | none =>
    have hnil : strings = [] := List.map_eq_nil_iff.mp hstrings.symm
    have hfirst : ¬ startsWith window sequenceTag = true := by
      rw [h.startsWith_eq]
      simpa using hnext
    rw [hnil, if_neg hfirst]
    exact ⟨window, rfl, h⟩
  | some texts =>
    obtain ⟨element, window', hread, hinside, hbehind⟩ :=
      h.expectMember_constructed .pkiFreeText
    have hfirst : startsWith window sequenceTag = true := by
      rw [h.startsWith_eq]
      rfl
    refine ⟨window', ?_, hbehind⟩
    rw [if_pos hfirst, hread, ok_bind]
    simp only [readStrings_of_denotes hinside hstrings, ok_bind]
    rfl

theorem readFailInfo_of_denotes {content : Option Octets} {failInfo : Option FailureInfo}
    (h : Denotes window (content.map (.primitive [bitStringTag])).toList)
    (hinfo : content.map FailureInfo.ofContent? = failInfo.map some) :
    ∃ window', readFailInfo window = .ok (failInfo, window') ∧ Denotes window' [] := by
  rw [readFailInfo_eq h.inBounds]
  cases content with
  | none =>
    have hnone : failInfo = none := Option.map_eq_none_iff.mp hinfo.symm
    have hfirst : ¬ startsWith window bitStringTag = true := by
      rw [h.startsWith_eq]
      exact Bool.false_ne_true
    rw [hnone, if_neg hfirst]
    exact ⟨window, rfl, h⟩
  | some content =>
    obtain ⟨info, hinfo', hcontent'⟩ := Option.map_eq_some_iff.mp hinfo.symm
    subst hinfo'
    obtain ⟨element, window', hread, hcontent, hbehind⟩ :=
      h.expectMember_primitive .pkiStatusInfo
    have hfirst : startsWith window bitStringTag = true := by
      rw [h.startsWith_eq]
      rfl
    refine ⟨window', ?_, hbehind⟩
    rw [if_pos hfirst, hread, ok_bind]
    simp only [hcontent, ← hcontent']
    rfl

/-- The members of good parts are read as what they mean. -/
theorem read_of_denotes {parts : Parts} {info : StatusInfo} (h : Denotes window parts.members)
    (hmeans : parts.Means info) : read window = .ok info := by
  obtain ⟨window₁, hstatus, h₁⟩ := readStatus_of_denotes h hmeans.status
  have hnext : ((parts.failInfo.map (.primitive [bitStringTag])).toList.head?.bind
      fun value : Value => value.identifier.head?) ≠ some sequenceTag := by
    cases parts.failInfo <;> simp [Value.identifier, bitStringTag, sequenceTag]
  obtain ⟨window₂, htexts, h₂⟩ := readTexts_of_denotes h₁ hnext hmeans.strings
  obtain ⟨window₃, hfail, h₃⟩ := readFailInfo_of_denotes h₂ hmeans.failInfo
  rw [read, hstatus, ok_bind]
  simp only [htexts, ok_bind, hfail, if_pos h₃.isExhausted_nil]
  rfl

/-! ## What is read was there -/

theorem exists_texts_of_readStrings {strings : List String} (h : window.InBounds)
    (hread : readStrings window = .ok strings) :
    ∃ texts : List Octets,
      AreElements window.remaining (texts.map (.primitive [utf8StringTag])) ∧
        texts.map Utf8.decode? = strings.map some := by
  fun_induction readStrings window generalizing strings with
  | case1 window hend =>
    cases hread
    rw [h.isExhausted_iff.mp hend]
    exact ⟨[], .nil, rfl⟩
  | case2 => cases hread
  | case3 => cases hread
  | case4 => cases hread
  | case5 window hmore element window' hmember string hstring strings' hstrings ih =>
    cases hread
    obtain ⟨hpart, hpasses⟩ := isMember_of_expectMember h hmember
    obtain ⟨texts, helements, hdecode⟩ := ih hpasses.inBounds hstrings
    refine ⟨element.content :: texts, ?_, ?_⟩
    · rw [hpasses.remaining]
      exact .cons (hpart.isElement_primitive (by decide) (by decide)) helements
    · rw [List.map_cons, List.map_cons, hstring, hdecode]

theorem exists_content_of_readStatus {status : Status} (h : window.InBounds)
    (hread : readStatus window = .ok (status, window')) :
    ∃ octets content, IsElement octets (.primitive [integerTag] content) ∧
      window.Passes octets window' ∧
      ((Integer.decode? content).bind fun code => Status.ofCode? code.toInt) = some status := by
  rw [readStatus, bind_eq_ok] at hread
  obtain ⟨⟨element, behind⟩, hmember, hread⟩ := hread
  obtain ⟨hpart, hpasses⟩ := isMember_of_expectMember h hmember
  refine ⟨element.raw, element.content, hpart.isElement_primitive (by decide) (by decide), ?_⟩
  simp only at hread
  split at hread
  · cases hread
  · rename_i code hcode
    split at hread
    · cases hread
    · rename_i status' hstatus
      cases hread
      exact ⟨hpasses, by rw [hcode, Option.bind_some, hstatus]⟩

theorem exists_texts_of_readTexts {strings : List String} (h : window.InBounds)
    (hread : readTexts window = .ok (strings, window')) :
    ∃ octets, ∃ texts : Option (List Octets),
      AreElements octets (texts.map Parts.textsValue).toList ∧
        window.Passes octets window' ∧ (texts.getD []).map Utf8.decode? = strings.map some := by
  rw [readTexts_eq h] at hread
  split at hread
  · rw [bind_eq_ok] at hread
    obtain ⟨⟨element, behind⟩, hmember, hread⟩ := hread
    obtain ⟨hpart, hpasses⟩ := isMember_of_expectMember h hmember
    simp only [bind_eq_ok] at hread
    obtain ⟨strings', hstrings, hread⟩ := hread
    cases hread
    obtain ⟨texts, helements, hdecode⟩ :=
      exists_texts_of_readStrings (Window.inBounds_ofOctets _) hstrings
    refine ⟨element.raw, some texts, ?_, hpasses, hdecode⟩
    exact areElements_singleton_iff.mpr
      (hpart.isElement_constructed (by decide) (by decide) helements)
  · cases hread
    exact ⟨[], none, .nil, ⟨rfl, h⟩, rfl⟩

theorem exists_content_of_readFailInfo {failInfo : Option FailureInfo} (h : window.InBounds)
    (hread : readFailInfo window = .ok (failInfo, window')) :
    ∃ octets, ∃ content : Option Octets,
      AreElements octets (content.map (.primitive [bitStringTag])).toList ∧
        window.Passes octets window' ∧ content.map FailureInfo.ofContent? = failInfo.map some := by
  rw [readFailInfo_eq h] at hread
  split at hread
  · rw [bind_eq_ok] at hread
    obtain ⟨⟨element, behind⟩, hmember, hread⟩ := hread
    obtain ⟨hpart, hpasses⟩ := isMember_of_expectMember h hmember
    simp only at hread
    split at hread
    · cases hread
    · rename_i info hinfo
      cases hread
      refine ⟨element.raw, some element.content, ?_, hpasses, congrArg some hinfo⟩
      exact areElements_singleton_iff.mpr
        (hpart.isElement_primitive (by decide) (by decide))
  · cases hread
    exact ⟨[], none, .nil, ⟨rfl, h⟩, rfl⟩

/-- Status information that is read is in the window, member for member. -/
theorem exists_parts_of_read {info : StatusInfo} (h : window.InBounds)
    (hread : read window = .ok info) :
    ∃ parts : Parts, AreElements window.remaining parts.members ∧ parts.Means info := by
  rw [read, bind_eq_ok] at hread
  obtain ⟨⟨status, window₁⟩, hstatus, hread⟩ := hread
  simp only [bind_eq_ok] at hread
  obtain ⟨⟨strings, window₂⟩, htexts, ⟨failInfo, window₃⟩, hfail, hread⟩ := hread
  obtain ⟨front, content, helement, hpasses, hmeans⟩ := exists_content_of_readStatus h hstatus
  obtain ⟨front₁, texts, htexts, hpasses₁, hmeans₁⟩ :=
    exists_texts_of_readTexts hpasses.inBounds htexts
  obtain ⟨front₂, reasons, hreasons, hpasses₂, hmeans₂⟩ :=
    exists_content_of_readFailInfo hpasses₁.inBounds hfail
  split at hread
  · rename_i hend
    cases hread
    refine ⟨⟨content, texts, reasons⟩, ?_, ⟨hmeans, hmeans₁, hmeans₂⟩⟩
    rw [hpasses.remaining, hpasses₁.remaining, hpasses₂.remaining,
      hpasses₂.inBounds.isExhausted_iff.mp hend, List.append_nil]
    exact .cons helement (areElements_append_iff.mpr ⟨_, _, rfl, htexts, hreasons⟩)
  · cases hread

end Asn1.TimeStamp.StatusInfo
