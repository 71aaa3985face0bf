import Asn1.Proofs.Ber.Element
import Asn1.TimeStamp.Grammar

/-!
# Members at a cursor

Reading a member is decided by the element at the cursor alone: `expectMember_of_exact` gives the
result, whatever the content of the element is, and `isMember_of_expectMember` says what was there
after a success. Looking at the next octet before reading changes nothing but the error for an
unexpected identifier (`readMember_of_startsWith`).
-/

namespace Asn1.TimeStamp

open Ber

variable {tag : UInt8} {octets content : Octets}

/-! ## Members and the grammar of elements -/

theorem isIdentifier_singleton (hshort : Identifier.isLong tag = false) : IsIdentifier [tag] := by
  apply IsIdentifier.short
  rw [Ne, ← Identifier.isLong_iff, hshort]
  decide

theorem eq_nil_of_isIdentifier {rest : Octets} (h : IsIdentifier (tag :: rest))
    (hshort : Identifier.isLong tag = false) : rest = [] := by
  cases h with
  | short _ => rfl
  | long hfirst _ _ =>
    rw [← Identifier.isLong_iff, hshort] at hfirst
    cases hfirst

theorem IsMember.exists_exact (h : IsMember tag octets content)
    (hshort : Identifier.isLong tag = false) :
    ∃ element : Element, element.IsExact ∧ element.raw = octets ∧
      element.header.identifier = [tag] ∧ element.content = content := by
  cases h with
  | mk hlength =>
    exact ⟨⟨_, content, _⟩, ⟨_, .mk (isIdentifier_singleton hshort) hlength, rfl, rfl⟩,
      rfl, rfl, rfl⟩

theorem isMember_of_exact {element : Element} (h : element.IsExact)
    (hidentifier : element.header.identifier = [tag]) :
    IsMember tag element.raw element.content := by
  obtain ⟨front, hfront, hlen, hraw⟩ := h
  obtain ⟨header, content, raw⟩ := element
  simp only at hlen hraw hidentifier
  rw [hraw]
  cases hfront with
  | mk _ hlength =>
    simp only at hlen hidentifier
    subst hidentifier hlen
    exact .mk hlength

theorem isMember_of_isElement {value : Value} (h : IsElement octets value)
    (hidentifier : value.identifier = [tag]) : ∃ content, IsMember tag octets content := by
  obtain ⟨element, hexact, rfl, hvalue⟩ := exists_exact_of_isElement h
  exact ⟨_, isMember_of_exact hexact (hvalue.identifier_eq ▸ hidentifier)⟩

theorem IsMember.isElement_primitive (h : IsMember tag octets content)
    (hshort : Identifier.isLong tag = false) (hbit : Identifier.isConstructed [tag] = false) :
    IsElement octets (.primitive [tag] content) := by
  cases h with
  | mk hlength => exact .primitive (isIdentifier_singleton hshort) hbit hlength

theorem IsMember.isElement_constructed {children : List Value} (h : IsMember tag octets content)
    (hshort : Identifier.isLong tag = false) (hbit : Identifier.isConstructed [tag] = true)
    (hchildren : AreElements content children) :
    IsElement octets (.constructed [tag] children) := by
  cases h with
  | mk hlength => exact .constructed (isIdentifier_singleton hshort) hbit hlength hchildren

theorem isElement_primitive_iff (hshort : Identifier.isLong tag = false)
    (hbit : Identifier.isConstructed [tag] = false) :
    IsElement octets (.primitive [tag] content) ↔ IsMember tag octets content := by
  constructor
  · intro h
    obtain ⟨element, hexact, rfl, hvalue⟩ := exists_exact_of_isElement h
    rw [← hvalue.content_eq]
    exact isMember_of_exact hexact hvalue.identifier_eq.symm
  · intro h
    exact h.isElement_primitive hshort hbit

theorem isElement_constructed_iff {children : List Value} (hshort : Identifier.isLong tag = false)
    (hbit : Identifier.isConstructed [tag] = true) :
    IsElement octets (.constructed [tag] children) ↔
      ∃ content, IsMember tag octets content ∧ AreElements content children := by
  constructor
  · intro h
    obtain ⟨element, hexact, rfl, hvalue⟩ := exists_exact_of_isElement h
    exact ⟨element.content, isMember_of_exact hexact hvalue.identifier_eq.symm,
      hvalue.areElements⟩
  · rintro ⟨content, h, hchildren⟩
    exact h.isElement_constructed hshort hbit hchildren

/-- The header of a member is read, and its content is left. -/
theorem IsMember.parse (h : IsMember tag octets content)
    (hshort : Identifier.isLong tag = false) :
    ∃ header, Header.parse octets = .ok (header, content) ∧ header.identifier = [tag] ∧
      header.contentLength = content.length := by
  cases h with
  | mk hlength =>
    have hparse := Header.parse_element (isIdentifier_singleton hshort) hlength []
    rw [List.append_nil, List.append_nil] at hparse
    exact ⟨_, hparse, rfl, rfl⟩

theorem IsMember.parse_sequence (h : IsMember sequenceTag octets content) :
    ∃ header, Header.parse octets = .ok (header, content) ∧ header.identifier = [sequenceTag] ∧
      header.contentLength = content.length ∧ header.isConstructed = true := by
  obtain ⟨header, hparse, hidentifier, hlen⟩ := h.parse (by decide)
  refine ⟨header, hparse, hidentifier, hlen, ?_⟩
  rw [Header.isConstructed, hidentifier]
  decide

/-- A header and the content it declares are a member, with the rest behind it. -/
theorem exists_isMember_of_parse {rest : Octets} {header : Header}
    (hparse : Header.parse octets = .ok (header, rest)) (hidentifier : header.identifier = [tag]) :
    ∃ head, IsMember tag head (rest.take header.contentLength) ∧
      octets = head ++ rest.drop header.contentLength := by
  obtain ⟨front, hfront, rfl, hfit⟩ := Header.parse_eq_ok_iff.mp hparse
  refine ⟨front ++ rest.take header.contentLength, ?_, ?_⟩
  · cases hfront with
    | mk _ hlength =>
      simp only at hidentifier hfit ⊢
      subst hidentifier
      rw [← List.length_take_of_le hfit] at hlength
      exact .mk hlength
  · rw [List.append_assoc, List.take_append_drop]

theorem IsMember.ne_nil (h : IsMember tag octets content) : octets ≠ [] := by
  cases h
  simp

theorem IsMember.content_unique {content' : Octets} (h : IsMember tag octets content)
    (h' : IsMember tag octets content') (hshort : Identifier.isLong tag = false) :
    content = content' := by
  obtain ⟨header, hparse, -, -⟩ := h.parse hshort
  obtain ⟨header', hparse', -, -⟩ := h'.parse hshort
  rw [hparse] at hparse'
  simp only [Except.ok.injEq, Prod.mk.injEq] at hparse'
  exact hparse'.2

/-! ## Reading members -/

variable {window : Window}

theorem expectMember_of_end (h : window.InBounds) (hend : window.remaining = []) (tag : UInt8)
    (field : Field) : expectMember window tag field = .error (.missing field) := by
  rw [expectMember, if_pos (h.isExhausted_iff.mpr hend)]

theorem expectMember_of_more (hmore : ¬ window.isExhausted = true) (tag : UInt8) (field : Field) :
    expectMember window tag field = (do
      let (element, window) ← readMember window
      checkIdentifier element tag field
      return (element, window)) := by
  rw [expectMember, if_neg hmore]
  cases readMember window with
  | error error => rfl
  | ok result =>
    simp only [ok_bind]
    cases checkIdentifier result.1 tag field <;> rfl

theorem not_isExhausted_of_exact {element : Element} {rest : Octets} (h : window.InBounds)
    (hexact : element.IsExact) (hremaining : window.remaining = element.raw ++ rest) :
    ¬ window.isExhausted = true := by
  intro hend
  rw [h.isExhausted_iff.mp hend] at hremaining
  exact hexact.raw_ne_nil (List.append_eq_nil_iff.mp hremaining.symm).1

/-- The element at the cursor is read and its identifier is checked. -/
theorem expectMember_of_exact {element : Element} {rest : Octets} (h : window.InBounds)
    (hexact : element.IsExact) (hremaining : window.remaining = element.raw ++ rest)
    (tag : UInt8) (field : Field) :
    ∃ window', window'.InBounds ∧ window'.remaining = rest ∧
      expectMember window tag field =
        if element.header.identifier = [tag] then .ok (element, window')
        else .error (.unexpectedIdentifier field element.header.identifier) := by
  obtain ⟨window', hread, hbounds, hrest⟩ := Element.read_of_exact h hexact hremaining
  have hmore := not_isExhausted_of_exact h hexact hremaining
  refine ⟨window', hbounds, hrest, ?_⟩
  simp only [expectMember, if_neg hmore, readMember_eq_ok.mpr hread, checkIdentifier]
  by_cases hidentifier : element.header.identifier = [tag]
  · simp only [if_pos hidentifier]
  · simp only [if_neg hidentifier]

theorem isMember_of_expectMember {window' : Window} {element : Element} {field : Field}
    (h : window.InBounds) (hread : expectMember window tag field = .ok (element, window')) :
    IsMember tag element.raw element.content ∧ window.Passes element.raw window' := by
  rw [expectMember] at hread
  split at hread
  · cases hread
  · split at hread
    · cases hread
    · rename_i element' behind hmember
      rw [checkIdentifier] at hread
      split at hread
      · cases hread
      · rename_i hcheck
        split at hcheck
        · rename_i hidentifier
          cases hread
          obtain ⟨hexact, hpasses⟩ := Element.exact_of_read h (readMember_eq_ok.mp hmember)
          exact ⟨isMember_of_exact hexact hidentifier, hpasses⟩
        · cases hcheck

theorem identifier_of_startsWith {window' : Window} {element : Element} (h : window.InBounds)
    (hnext : startsWith window tag = true) (hshort : Identifier.isLong tag = false)
    (hread : Element.read window = .ok (element, window')) :
    element.header.identifier = [tag] := by
  obtain ⟨⟨front, hfront, -, hraw⟩, hpasses⟩ := Element.exact_of_read h hread
  rw [startsWith, hpasses.remaining, hraw] at hnext
  obtain ⟨⟨identifier, n, count⟩, content, raw⟩ := element
  cases hfront with
  | @mk identifier length n hid _ =>
    cases identifier with
    | nil => cases hid
    | cons first rest =>
      simp only [List.cons_append, List.head?_cons, beq_iff_eq, Option.some.injEq] at hnext
      subst hnext
      rw [eq_nil_of_isIdentifier hid hshort]

/-- A member announced by its first octet has the identifier that the octet is. -/
theorem readMember_of_startsWith (h : window.InBounds) (hnext : startsWith window tag = true)
    (hshort : Identifier.isLong tag = false) (field : Field) :
    readMember window = expectMember window tag field := by
  have hmore : ¬ window.isExhausted = true := by
    intro hend
    rw [startsWith, h.isExhausted_iff.mp hend] at hnext
    cases hnext
  rw [expectMember, if_neg hmore]
  cases hmember : readMember window with
  | error error => rfl
  | ok result =>
    obtain ⟨element, window'⟩ := result
    have hidentifier := identifier_of_startsWith h hnext hshort (readMember_eq_ok.mp hmember)
    simp only [checkIdentifier, if_pos hidentifier]

/-! ## Windows over elements of the grammar -/

/-- What is left in a window is the elements of some values. -/
structure Denotes (window : Window) (values : List Value) : Prop where
  inBounds : window.InBounds
  elements : AreElements window.remaining values

namespace Denotes

variable {value : Value} {values : List Value}

theorem remaining_eq_nil (h : Denotes window []) : window.remaining = [] := by
  exact areElements_nil_iff.mp h.2

theorem isExhausted_nil (h : Denotes window []) : window.isExhausted = true :=
  h.inBounds.isExhausted_iff.mpr h.remaining_eq_nil

theorem exists_head (h : Denotes window (value :: values)) :
    ∃ head tail, window.remaining = head ++ tail ∧ IsElement head value ∧
      AreElements tail values := by
  exact areElements_cons_iff.mp h.2

theorem isExhausted_cons (h : Denotes window (value :: values)) :
    ¬ window.isExhausted = true := by
  intro hend
  obtain ⟨head, tail, hremaining, hhead, -⟩ := h.exists_head
  rw [h.inBounds.isExhausted_iff.mp hend] at hremaining
  exact ne_nil_of_isElement hhead (List.append_eq_nil_iff.mp hremaining.symm).1

/-- Reading goes from value to value. -/
theorem expectMember (h : Denotes window (value :: values)) (tag : UInt8) (field : Field) :
    ∃ element window', IsElement element.raw value ∧ element.header.Holds element.content value ∧
      Denotes window' values ∧
      TimeStamp.expectMember window tag field =
        if value.identifier = [tag] then .ok (element, window')
        else .error (.unexpectedIdentifier field value.identifier) := by
  obtain ⟨head, tail, hremaining, hhead, htail⟩ := h.exists_head
  obtain ⟨element, hexact, rfl, hvalue⟩ := exists_exact_of_isElement hhead
  obtain ⟨window', hbounds, hrest, hread⟩ :=
    expectMember_of_exact h.inBounds hexact hremaining tag field
  rw [← hvalue.identifier_eq] at hread
  exact ⟨element, window', hhead, hvalue, ⟨hbounds, hrest ▸ htail⟩, hread⟩

theorem expectMember_primitive (h : Denotes window (.primitive [tag] content :: values))
    (field : Field) :
    ∃ element window', TimeStamp.expectMember window tag field = .ok (element, window') ∧
      element.content = content ∧ Denotes window' values := by
  obtain ⟨element, window', -, hvalue, hbehind, hread⟩ := h.expectMember tag field
  exact ⟨element, window', hread.trans (if_pos rfl), hvalue.content_eq, hbehind⟩

theorem expectMember_constructed {children : List Value}
    (h : Denotes window (.constructed [tag] children :: values)) (field : Field) :
    ∃ element window', TimeStamp.expectMember window tag field = .ok (element, window') ∧
      Denotes element.inside children ∧ Denotes window' values := by
  obtain ⟨element, window', -, hvalue, hbehind, hread⟩ := h.expectMember tag field
  exact ⟨element, window', hread.trans (if_pos rfl),
    ⟨Window.inBounds_ofOctets _, hvalue.areElements⟩, hbehind⟩

/-- The next octet is the first one of the next identifier. -/
theorem startsWith_eq (h : Denotes window values) (tag : UInt8) :
    startsWith window tag =
      ((values.head?.bind fun value => value.identifier.head?) == some tag) := by
  cases values with
  | nil =>
    rw [startsWith, h.remaining_eq_nil]
    rfl
  | cons value values =>
    obtain ⟨head, tail, hremaining, hhead, -⟩ := h.exists_head
    have hfirst : (head ++ tail).head? = value.identifier.head? := by
      cases hhead with
      | primitive hid => cases hid <;> rfl
      | constructed hid => cases hid <;> rfl
    rw [startsWith, hremaining, hfirst]
    rfl

end Denotes

end Asn1.TimeStamp
