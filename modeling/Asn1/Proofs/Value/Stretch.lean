import Asn1.Proofs.Value.Listing

/-!
# Where the values of a tree stand

A value of a tree has a position in it, and the element that it was read from has the same position
in the input: `stretch?` finds its octets, going down by one header for each level. They are an
element for that value (`exists_stretch`).
-/

namespace Asn1.Ber

/-- The octets of the element with a number among elements one after the other. -/
def elementAt? (elements : Octets) (number : Nat) : Option Octets :=
  match Header.parse elements with
  | .error _ => none
  | .ok (header, rest) =>
    match number with
    | 0 => some (elements.take header.elementLength)
    | number + 1 => elementAt? (rest.drop header.contentLength) number

/-- The octets of the element at a position inside an element: the numbers of the elements on the
way down to it. -/
def stretch? (element : Octets) : List Nat → Option Octets
  | [] => some element
  | number :: position =>
    match Header.parse element with
    | .error _ => none
    | .ok (header, rest) =>
      (elementAt? (rest.take header.contentLength) number).bind (stretch? · position)

variable {octets : Octets} {value node : Value}

theorem exists_elementAt {children : List Value} {number : Nat}
    (h : AreElements octets children) (hchild : children[number]? = some node) :
    ∃ part, elementAt? octets number = some part ∧ part <:+: octets ∧ IsElement part node := by
  induction number generalizing octets children with
  | zero =>
    cases h with
    | nil => cases hchild
    | @cons head tail value values hhead htail =>
      cases hchild
      -- The header and the content that it declares are the whole first element.
      obtain ⟨header, content, hparse, hlen, -⟩ := parse_of_isElement hhead tail
      have hbounds := Header.bounds_of_parse hparse
      simp only [List.length_append] at hbounds
      have hsize : header.elementLength = head.length := by
        rw [Header.elementLength]
        omega
      refine ⟨head, ?_, (List.prefix_append head tail).isInfix, hhead⟩
      rw [elementAt?, hparse]
      simp only [hsize, List.take_left]
  | succ number ih =>
    cases h with
    | nil => cases hchild
    | @cons head tail value values hhead htail =>
      -- Behind that content stand the elements that the next numbers count.
      obtain ⟨header, content, hparse, hlen, -⟩ := parse_of_isElement hhead tail
      obtain ⟨part, hpart, hinfix, helement⟩ := ih htail hchild
      refine ⟨part, ?_, hinfix.trans (List.suffix_append head tail).isInfix, helement⟩
      rw [elementAt?, hparse]
      simp only [hlen, List.drop_left]
      exact hpart

/-- The octets at the position of a value are an element for it. -/
theorem exists_stretch {position : List Nat} (h : IsElement octets value)
    (hnode : value.at? position = some node) :
    ∃ part, stretch? octets position = some part ∧ part <:+: octets ∧ IsElement part node := by
  induction position generalizing octets value with
  | nil =>
    cases value <;> cases hnode <;> exact ⟨octets, rfl, List.infix_rfl, h⟩
  | cons number position ih =>
    obtain ⟨front, header, content, rfl, hfront, hlen, hvalue⟩ := exists_header_of_isElement h
    have hparse := Header.parse_append hfront (Nat.le_of_eq hlen)
    cases hvalue with
    | primitive hbit => cases hnode
    | @constructed children hbit hchildren =>
      obtain ⟨child, hchild, hbelow⟩ := Option.bind_eq_some_iff.mp hnode
      obtain ⟨element, helementAt, hinside, helement⟩ := exists_elementAt hchildren hchild
      obtain ⟨part, hpart, hinfix, hpartElement⟩ := ih helement hbelow
      refine ⟨part, ?_, hinfix.trans (hinside.trans (List.suffix_append front content).isInfix),
        hpartElement⟩
      rw [stretch?, hparse]
      simp only [hlen, List.take_length, helementAt, Option.bind_some]
      exact hpart

end Asn1.Ber
