import Asn1.Proofs.Ber.Header

/-!
# Elements in front of other octets

An element is a header and the content it declares, so the reader of headers finds it in front of
anything (`parse_of_isElement`), and where it ends is fixed by its own octets
(`isElement_append_inj`).
-/

namespace Asn1.Ber

/-- The values that an element with a given header can have, its content being what it is. -/
inductive Header.Holds (header : Header) (content : Octets) : Value → Prop
  | primitive (hbit : header.isConstructed = false) :
      Holds header content (.primitive header.identifier content)
  | constructed {children : List Value} (hbit : header.isConstructed = true)
      (hchildren : AreElements content children) :
      Holds header content (.constructed header.identifier children)

theorem isElement_of_header {front content : Octets} {header : Header} {value : Value}
    (hfront : IsHeader front header) (hlen : header.contentLength = content.length)
    (hvalue : header.Holds content value) : IsElement (front ++ content) value := by
  cases hfront with
  | mk hid hlength =>
    subst hlen
    cases hvalue with
    | primitive hbit => exact .primitive hid hbit hlength
    | constructed hbit hchildren => exact .constructed hid hbit hlength hchildren

theorem exists_header_of_isElement {octets : Octets} {value : Value} (h : IsElement octets value) :
    ∃ front header content, octets = front ++ content ∧ IsHeader front header ∧
      header.contentLength = content.length ∧ header.Holds content value := by
  cases h with
  | primitive hid hbit hlength => exact ⟨_, _, _, rfl, .mk hid hlength, rfl, .primitive hbit⟩
  | constructed hid hbit hlength hchildren =>
    exact ⟨_, _, _, rfl, .mk hid hlength, rfl, .constructed hbit hchildren⟩

/-- The reader of headers finds an element in front of anything. -/
theorem parse_of_isElement {octets : Octets} {value : Value} (h : IsElement octets value)
    (tail : Octets) :
    ∃ header content, Header.parse (octets ++ tail) = .ok (header, content ++ tail) ∧
      header.contentLength = content.length ∧ header.Holds content value := by
  obtain ⟨front, header, content, rfl, hfront, hlen, hvalue⟩ := exists_header_of_isElement h
  refine ⟨header, content, ?_, hlen, hvalue⟩
  rw [List.append_assoc]
  exact Header.parse_append hfront (by simp [hlen])

/-- A header and the content it declares are an element, with the rest behind it. -/
theorem exists_isElement_of_parse {octets rest : Octets} {header : Header} {value : Value}
    (hparse : Header.parse octets = .ok (header, rest))
    (hvalue : header.Holds (rest.take header.contentLength) value) :
    ∃ head, IsElement head value ∧ octets = head ++ rest.drop header.contentLength := by
  obtain ⟨front, hfront, rfl⟩ := Header.exists_of_parse hparse
  have hlen := (Header.length_take_of_parse hparse).symm
  refine ⟨_, isElement_of_header hfront hlen hvalue, ?_⟩
  rw [List.append_assoc, List.take_append_drop]

theorem ne_nil_of_isElement {octets : Octets} {value : Value} (h : IsElement octets value) :
    octets ≠ [] := by
  rintro rfl
  obtain ⟨header, content, hparse, -, -⟩ := parse_of_isElement h []
  simp [Header.parse, Identifier.split?] at hparse

/-- An element ends where it ends, whatever comes after it. -/
theorem isElement_append_inj {octets octets' tail tail' : Octets} {value value' : Value}
    (h : IsElement octets value) (h' : IsElement octets' value')
    (heq : octets ++ tail = octets' ++ tail') : octets = octets' ∧ tail = tail' := by
  obtain ⟨header, content, hparse, hlen, -⟩ := parse_of_isElement h tail
  obtain ⟨header', content', hparse', hlen', -⟩ := parse_of_isElement h' tail'
  rw [heq, hparse'] at hparse
  simp only [Except.ok.injEq, Prod.mk.injEq] at hparse
  obtain ⟨rfl, hrest⟩ := hparse
  have htail : tail = tail' := (List.append_inj hrest (by omega)).2.symm
  subst htail
  exact ⟨List.append_cancel_right heq, rfl⟩

/-! ## Elements one after the other -/

theorem areElements_nil_iff {octets : Octets} : AreElements octets [] ↔ octets = [] := by
  constructor
  · intro h
    cases h
    rfl
  · rintro rfl
    exact .nil

theorem areElements_cons_iff {octets : Octets} {value : Value} {values : List Value} :
    AreElements octets (value :: values) ↔
      ∃ head tail, octets = head ++ tail ∧ IsElement head value ∧ AreElements tail values := by
  constructor
  · intro h
    cases h with
    | cons hhead htail => exact ⟨_, _, rfl, hhead, htail⟩
  · rintro ⟨head, tail, rfl, hhead, htail⟩
    exact .cons hhead htail

theorem areElements_flatten {parts : List Octets} {values : List Value}
    (h : List.Forall₂ IsElement parts values) : AreElements parts.flatten values := by
  induction h with
  | nil => exact .nil
  | cons hpart _ ih => exact .cons hpart ih

theorem areElements_singleton_iff {octets : Octets} {value : Value} :
    AreElements octets [value] ↔ IsElement octets value := by
  rw [areElements_cons_iff]
  constructor
  · rintro ⟨head, tail, rfl, hhead, htail⟩
    rw [areElements_nil_iff.mp htail, List.append_nil]
    exact hhead
  · intro h
    exact ⟨octets, [], (List.append_nil octets).symm, h, .nil⟩

theorem areElements_append_iff {octets : Octets} {values values' : List Value} :
    AreElements octets (values ++ values') ↔
      ∃ front back, octets = front ++ back ∧ AreElements front values ∧
        AreElements back values' := by
  induction values generalizing octets with
  | nil => simp [areElements_nil_iff]
  | cons value values ih =>
    rw [List.cons_append, areElements_cons_iff]
    constructor
    · rintro ⟨head, tail, rfl, hhead, htail⟩
      obtain ⟨front, back, rfl, hfront, hback⟩ := ih.mp htail
      exact ⟨head ++ front, back, (List.append_assoc _ _ _).symm, .cons hhead hfront, hback⟩
    · rintro ⟨front, back, rfl, hfront, hback⟩
      obtain ⟨head, tail, rfl, hhead, htail⟩ := areElements_cons_iff.mp hfront
      exact ⟨head, tail ++ back, List.append_assoc _ _ _, hhead, ih.mpr ⟨_, _, rfl, htail, hback⟩⟩

end Asn1.Ber
