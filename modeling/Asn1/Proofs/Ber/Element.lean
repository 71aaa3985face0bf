import Asn1.Ber.Element
import Asn1.Proofs.Value.Encode

/-!
# Elements at a cursor

An exact element is a header and just the content that it declares. Where one stands at the cursor
of a window, the reader returns it and moves behind it (`read_of_exact`), and it returns nothing
else (`exact_of_read`). The elements of the grammar are exact, and so is the encoding of a value.
-/

namespace Asn1.Ber

/-- The cursor has moved over some octets. -/
structure Window.Passes (window : Window) (octets : Octets) (window' : Window) : Prop where
  remaining : window.remaining = octets ++ window'.remaining
  inBounds : window'.InBounds

/-- The octets of the element are its header and the content that the header declares. -/
def Element.IsExact (element : Element) : Prop :=
  ∃ front, IsHeader front element.header ∧
    element.header.contentLength = element.content.length ∧ element.raw = front ++ element.content

theorem IsHeader.ne_nil {octets : Octets} {header : Header} (h : IsHeader octets header) :
    octets ≠ [] := by
  cases h with
  | mk hid _ => cases hid <;> simp

namespace Element

theorem IsExact.raw_ne_nil {element : Element} (h : element.IsExact) : element.raw ≠ [] := by
  obtain ⟨front, hfront, -, hraw⟩ := h
  rw [hraw]
  exact List.append_ne_nil_of_left_ne_nil hfront.ne_nil _

theorem read_eq {window : Window} (h : window.InBounds) :
    read window =
      match Header.parse window.remaining with
      | .error error => .error error
      | .ok (header, rest) =>
        .ok (⟨header, rest.take header.contentLength,
            window.remaining.take header.elementLength⟩,
          (window.advance header.headerLength).advance header.contentLength) := by
  rw [read, Header.decode_eq h]
  cases hparse : Header.parse window.remaining with
  | error error => rfl
  | ok result => simp only [Window.readBytes_behind hparse]

theorem read_ne_trailingData (window : Window) :
    read window ≠ .error .trailingData := by
  intro h
  simp only [read] at h
  split at h
  · rename_i hheader
    cases h
    exact Header.decode_ne_trailingData window hheader
  · split at h
    · rename_i hbytes
      cases h
      simp only [Window.readBytes] at hbytes
      split at hbytes <;> cases hbytes
    · cases h

/-- What is read is exact, and the cursor moves over it. -/
theorem exact_of_read {window window' : Window} {element : Element} (h : window.InBounds)
    (hread : read window = .ok (element, window')) :
    element.IsExact ∧ window.Passes element.raw window' := by
  rw [read_eq h] at hread
  split at hread
  · cases hread
  · rename_i header rest hparse
    have hinside := h.behind hparse
    have hfit := Window.contentLength_le_behind hparse
    have hrest := Window.remaining_behind hparse
    obtain ⟨front, hfront, hremaining, hle⟩ := Header.parse_eq_ok_iff.mp hparse
    have hraw : window.remaining.take header.elementLength =
        front ++ rest.take header.contentLength := by
      rw [hremaining, Header.elementLength, hfront.headerLength_eq, List.take_length_add_append]
    cases hread
    refine ⟨⟨front, hfront, (List.length_take_of_le hle).symm, hraw⟩, ?_, hinside.advance hfit⟩
    rw [hraw, Window.remaining_advance, hrest, List.append_assoc, List.take_append_drop,
        hremaining]

/-- An exact element at the cursor is read, whatever follows it. -/
theorem read_of_exact {window : Window} {element : Element} {rest : Octets} (h : window.InBounds)
    (hexact : element.IsExact) (hremaining : window.remaining = element.raw ++ rest) :
    ∃ window', read window = .ok (element, window') ∧ window'.InBounds ∧
      window'.remaining = rest := by
  obtain ⟨front, hfront, hlen, hraw⟩ := hexact
  rw [hraw, List.append_assoc] at hremaining
  have hparse : Header.parse window.remaining = .ok (element.header, element.content ++ rest) := by
    rw [hremaining]
    exact Header.parse_append hfront (by simp [hlen])
  have hcontent : (element.content ++ rest).take element.header.contentLength =
      element.content := by
    rw [hlen, List.take_left]
  have htake : window.remaining.take element.header.elementLength = element.raw := by
    rw [hremaining, Header.elementLength, hfront.headerLength_eq, List.take_length_add_append,
      hcontent, hraw]
  refine ⟨_, ?_, (h.behind hparse).advance (Window.contentLength_le_behind hparse), ?_⟩
  · rw [read_eq h, hparse]
    simp only [hcontent, htake]
  · rw [Window.remaining_advance, Window.remaining_behind hparse, hlen, List.drop_left]

end Element

/-! ## Elements of the grammar and encodings -/

theorem Header.Holds.identifier_eq {header : Header} {content : Octets} {value : Value}
    (h : header.Holds content value) : value.identifier = header.identifier := by
  cases h <;> rfl

theorem Header.Holds.content_eq {header : Header} {content identifier octets : Octets}
    (h : header.Holds content (.primitive identifier octets)) : content = octets := by
  generalize hvalue : Value.primitive identifier octets = value at h
  cases h with
  | primitive _ =>
    cases hvalue
    rfl
  | constructed _ _ => cases hvalue

theorem Header.Holds.areElements {header : Header} {content identifier : Octets}
    {children : List Value} (h : header.Holds content (.constructed identifier children)) :
    AreElements content children := by
  generalize hvalue : Value.constructed identifier children = value at h
  cases h with
  | primitive _ => cases hvalue
  | constructed _ hchildren =>
    cases hvalue
    exact hchildren

theorem exists_exact_of_isElement {octets : Octets} {value : Value} (h : IsElement octets value) :
    ∃ element : Element, element.IsExact ∧ element.raw = octets ∧
      element.header.Holds element.content value := by
  obtain ⟨front, header, content, rfl, hfront, hlen, hvalue⟩ := exists_header_of_isElement h
  exact ⟨⟨header, content, front ++ content⟩, ⟨front, hfront, hlen, rfl⟩, rfl, hvalue⟩

end Asn1.Ber

namespace Asn1.Value

open Ber

/-- The content octets of the encoding of a value. -/
def encodedContent : Value → Octets
  | .primitive _ content => content
  | .node _ children _ => encodeAll children

/-- The encoding of a well-formed value is exact, its content being the encodings of its
children. -/
theorem exists_exact_encode {value : Value} (h : value.IsWellFormed) :
    ∃ element : Element, element.IsExact ∧ element.raw = value.encode ∧
      element.header.identifier = value.identifier ∧ element.content = value.encodedContent := by
  have hsized := isSized_of_isWellFormed h
  cases value with
  | primitive identifier content =>
    rw [IsWellFormed] at h
    refine ⟨⟨⟨identifier, content.length, _⟩, content, (Value.primitive identifier content).encode⟩,
      ⟨_, .mk h.1 (Length.isLength_encode h.2.2), rfl, ?_⟩, rfl, rfl, rfl⟩
    rw [encode]
  | node identifier children n =>
    rw [IsWellFormed] at h
    rw [IsSized] at hsized
    have hlen : (encodeAll children).length = n := by rw [length_encodeAll hsized.2, hsized.1]
    refine ⟨⟨⟨identifier, n, _⟩, encodeAll children, (Value.node identifier children n).encode⟩,
      ⟨_, .mk h.1 (Length.isLength_encode h.2.2.1), hlen.symm, ?_⟩, rfl, rfl, rfl⟩
    rw [encode]

end Asn1.Value
