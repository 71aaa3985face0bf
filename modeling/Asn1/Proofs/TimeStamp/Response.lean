import Asn1.Proofs.TimeStamp.Parts
import Asn1.Proofs.TimeStamp.StatusInfo
import Asn1.Proofs.Value.Descent

/-!
# Reading responses

A response is read exactly when its octets are laid out as the grammar of responses says and the
members of its status information mean something (`ofBer_eq_ok_iff`). What a response looks like in
its octets is unique (`IsLaidOut.unique`).
-/

namespace Asn1.TimeStamp.Response

open Ber

variable {octets info rest : Octets} {parts : StatusInfo.Parts} {status : StatusInfo}
  {window : Window}

/-! ## The outermost element -/

theorem ofBer_refused {error : Ber.Error} (hparse : Header.parse octets = .error error) :
    ofBer octets = .error (.ber error) := by
  have hread := Element.read_eq (Window.inBounds_ofOctets octets)
  rw [Window.remaining_ofOctets, hparse] at hread
  simp only [ofBer, hread, Except.mapError, error_bind]

/-- Behind a good header the identifier is checked first, then whether anything follows the element,
and then the content is read. -/
theorem ofBer_of_parse {header : Header} (hparse : Header.parse octets = .ok (header, rest)) :
    ofBer octets =
      if header.identifier = [sequenceTag] then
        if header.contentLength = rest.length then
          readMembers (.ofOctets rest)
        else
          .error (.ber .trailingData)
      else
        .error (.unexpectedIdentifier .timeStampResp header.identifier) := by
  have hread := Element.read_eq (Window.inBounds_ofOctets octets)
  rw [Window.remaining_ofOctets, hparse] at hread
  have hend := Window.isExhausted_behind hparse
  simp only [ofBer, hread, Except.mapError, ok_bind, checkIdentifier, hend, Element.inside]
  by_cases hidentifier : header.identifier = [sequenceTag]
  · by_cases hlen : header.contentLength = rest.length
    · simp only [hidentifier, hlen, if_true, ok_bind, List.take_length]
    · simp only [hidentifier, hlen, if_true, if_false, ok_bind]
      rfl
  · simp only [hidentifier, if_false, error_bind]

/-! ## Good octets are read -/

/-- Reads what stands behind the status information. -/
def readRest (status : StatusInfo) (window : Window) : Except Error Response := do
  let (token, window) ← readToken window
  if window.isExhausted then
    return ⟨status, token⟩
  else
    throw (.unexpectedElement .timeStampResp)

/-- The outermost element is read as a whole, and then its members are. -/
theorem ofBer_of_isMember {content : Octets} (h : IsMember sequenceTag octets content) :
    ofBer octets = readMembers (.ofOctets content) := by
  obtain ⟨header, hparse, hidentifier, hlen, -⟩ := h.parse_sequence
  rw [ofBer_of_parse hparse, if_pos hidentifier, if_pos hlen]

/-- Behind good status information the reading goes on. -/
theorem ofBer_of_status (houter : IsMember sequenceTag octets (info ++ rest))
    (hinfo : IsElement info parts.toValue) (hmeans : parts.Means status) :
    ∃ window, window.InBounds ∧ window.remaining = rest ∧
      ofBer octets = readRest status window := by
  obtain ⟨element, hexact, rfl, hvalue⟩ := exists_exact_of_isElement hinfo
  have hidentifier : element.header.identifier = [sequenceTag] := hvalue.identifier_eq.symm
  obtain ⟨window, hbounds, hrest, hread⟩ := expectMember_of_exact
    (Window.inBounds_ofOctets (element.raw ++ rest)) hexact rfl sequenceTag .pkiStatusInfo
  have hinside : Denotes element.inside parts.members :=
    ⟨Window.inBounds_ofOctets _, hvalue.areElements⟩
  refine ⟨window, hbounds, hrest, ?_⟩
  rw [ofBer_of_isMember houter, readMembers, hread, if_pos hidentifier, ok_bind]
  simp only [StatusInfo.read_of_denotes hinside hmeans, ok_bind]
  rfl

/-- The element behind the status information is the token, if it is a sequence. -/
theorem readToken_of_exact {element : Element} {rest : Octets} (h : window.InBounds)
    (hexact : element.IsExact) (hremaining : window.remaining = element.raw ++ rest) :
    ∃ window', window'.InBounds ∧ window'.remaining = rest ∧
      readToken window =
        if element.header.identifier = [sequenceTag] then .ok (some element.raw, window')
        else .error (.unexpectedIdentifier .timeStampToken element.header.identifier) := by
  have hmore := not_isExhausted_of_exact h hexact hremaining
  obtain ⟨window', hbounds, hrest, hread⟩ :=
    expectMember_of_exact h hexact hremaining sequenceTag .timeStampToken
  refine ⟨window', hbounds, hrest, ?_⟩
  rw [readToken, if_neg hmore, hread]
  by_cases hidentifier : element.header.identifier = [sequenceTag]
  · rw [if_pos hidentifier, if_pos hidentifier, ok_bind]
    rfl
  · rw [if_neg hidentifier, if_neg hidentifier, error_bind]

/-- What stands behind the status information is the token or nothing. -/
theorem readRest_of_isToken {token : Option Octets} (h : window.InBounds)
    (htoken : IsToken window.remaining token) :
    readRest status window = .ok ⟨status, token⟩ := by
  generalize hremaining : window.remaining = octets at htoken
  cases htoken with
  | absent =>
    have hend := h.isExhausted_iff.mpr hremaining
    simp only [readRest, readToken, if_pos hend, ok_bind]
    rfl
  | present htoken =>
    obtain ⟨element, hexact, rfl, hidentifier, -⟩ := htoken.exists_exact (by decide)
    rw [← List.append_nil element.raw] at hremaining
    obtain ⟨window', hbounds, hrest, hread⟩ := readToken_of_exact h hexact hremaining
    have hend := hbounds.isExhausted_iff.mpr hrest
    rw [readRest, hread, if_pos hidentifier, ok_bind]
    simp only [if_pos hend]
    rfl

theorem ofBer_of_isLaidOut {token : Option Octets} (h : IsLaidOut octets parts token)
    (hmeans : parts.Means status) : ofBer octets = .ok ⟨status, token⟩ := by
  cases h with
  | mk hinfo htoken houter =>
    obtain ⟨window, hbounds, hrest, hread⟩ := ofBer_of_status houter hinfo hmeans
    subst hrest
    rw [hread, readRest_of_isToken hbounds htoken]

/-! ## What is read was there -/

theorem isToken_of_readToken {window' : Window} {token : Option Octets} (h : window.InBounds)
    (hread : readToken window = .ok (token, window')) (hend : window'.isExhausted = true) :
    IsToken window.remaining token := by
  rw [readToken] at hread
  split at hread
  · rename_i hexhausted
    cases hread
    rw [h.isExhausted_iff.mp hexhausted]
    exact .absent
  · rw [bind_eq_ok] at hread
    obtain ⟨⟨element, behind⟩, hmember, hread⟩ := hread
    cases hread
    obtain ⟨hpart, hpasses⟩ := isMember_of_expectMember h hmember
    rw [hpasses.remaining, hpasses.inBounds.isExhausted_iff.mp hend, List.append_nil]
    exact .present hpart

theorem exists_member_of_ofBer {response : Response} (h : ofBer octets = .ok response) :
    ∃ content, IsMember sequenceTag octets content ∧
      readMembers (.ofOctets content) = .ok response := by
  cases hparse : Header.parse octets with
  | error error =>
    rw [ofBer_refused hparse] at h
    cases h
  | ok result =>
    obtain ⟨header, content⟩ := result
    rw [ofBer_of_parse hparse] at h
    split at h
    · rename_i hidentifier
      split at h
      · rename_i hlen
        obtain ⟨head, hmember, hoctets⟩ := exists_isMember_of_parse hparse hidentifier
        rw [hlen, List.take_length] at hmember
        rw [hlen, List.drop_length, List.append_nil] at hoctets
        exact ⟨content, hoctets ▸ hmember, h⟩
      · cases h
    · cases h

theorem exists_parts_of_ofBer {response : Response} (h : ofBer octets = .ok response) :
    ∃ parts : StatusInfo.Parts, IsLaidOut octets parts response.token ∧
      parts.Means response.status := by
  obtain ⟨content, houter, h⟩ := exists_member_of_ofBer h
  rw [readMembers, bind_eq_ok] at h
  obtain ⟨⟨element, window⟩, hmember, h⟩ := h
  simp only [bind_eq_ok] at h
  obtain ⟨status, hstatus, ⟨token, window'⟩, htoken, h⟩ := h
  obtain ⟨hpart, hpasses⟩ := isMember_of_expectMember (Window.inBounds_ofOctets content) hmember
  obtain ⟨parts, helements, hmeans⟩ :=
    StatusInfo.exists_parts_of_read (Window.inBounds_ofOctets _) hstatus
  have hinfo : IsElement element.raw parts.toValue :=
    hpart.isElement_constructed (by decide) (by decide) helements
  have hcontent := hpasses.remaining
  rw [Window.remaining_ofOctets] at hcontent
  subst hcontent
  split at h
  · rename_i hend
    cases h
    exact ⟨parts, .mk hinfo (isToken_of_readToken hpasses.inBounds htoken hend) houter, hmeans⟩
  · cases h

/-- A response is read from just the octets that are laid out as one. -/
theorem ofBer_eq_ok_iff {response : Response} :
    ofBer octets = .ok response ↔
      ∃ parts : StatusInfo.Parts, IsLaidOut octets parts response.token ∧
        parts.Means response.status := by
  constructor
  · exact exists_parts_of_ofBer
  · rintro ⟨parts, hlaid, hmeans⟩
    exact ofBer_of_isLaidOut hlaid hmeans

/-! ## One layout -/

theorem IsLaidOut.exists_rest {token : Option Octets} (h : IsLaidOut octets parts token) :
    ∃ rest, IsToken rest token := by
  cases h with
  | mk _ htoken _ => exact ⟨_, htoken⟩

theorem IsToken.unique {token token' : Option Octets} (h : IsToken octets token)
    (h' : IsToken octets token') : token = token' := by
  cases h with
  | absent =>
    cases h' with
    | absent => rfl
    | present htoken => exact absurd rfl (htoken.ne_nil)
  | present htoken =>
    cases h' with
    | absent => exact absurd rfl (htoken.ne_nil)
    | present _ => rfl

theorem IsLaidOut.unique {parts' : StatusInfo.Parts} {token token' : Option Octets}
    (h : IsLaidOut octets parts token) (h' : IsLaidOut octets parts' token') :
    parts = parts' ∧ token = token' := by
  cases h with
  | mk hinfo htoken houter =>
    cases h' with
    | mk hinfo' htoken' houter' =>
      have hcontent := houter.content_unique houter' (by decide)
      obtain ⟨rfl, rfl⟩ := isElement_append_inj hinfo hinfo' hcontent
      exact ⟨StatusInfo.Parts.toValue_inj (Value.isElement_unique hinfo hinfo'),
        htoken.unique htoken'⟩

end Asn1.TimeStamp.Response
