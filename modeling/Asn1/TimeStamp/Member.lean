import Asn1.Ber.Element
import Asn1.TimeStamp.Error

/-!
# Members

A member of a time-stamp response is an element inside another one, and its field asks for a
certain identifier. Main statement: `length_remaining_of_expectMember`, reading a member uses
octets up.
-/

namespace Asn1.TimeStamp

/-- The identifier octet of an integer. -/
def integerTag : UInt8 := 0x02

/-- The identifier octet of a bit string. -/
def bitStringTag : UInt8 := 0x03

/-- The identifier octet of a text in UTF-8. -/
def utf8StringTag : UInt8 := 0x0c

/-- The identifier octet of a sequence. -/
def sequenceTag : UInt8 := 0x30

/-- Refuses an element whose identifier is not the one octet that a field asks for. -/
def checkIdentifier (element : Ber.Element) (tag : UInt8) (field : Field) : Except Error Unit :=
  if element.header.identifier = [tag] then
    .ok ()
  else
    .error (.unexpectedIdentifier field element.header.identifier)

/-- Reads the next element of a window over another element's content. -/
def readMember (window : Ber.Window) : Except Error (Ber.Element × Ber.Window) :=
  match Ber.Element.readWithin window with
  | .error error => .error (.ber error)
  | .ok member => .ok member

/-- Reads the next element, which must be there and have the identifier that its field asks for. -/
def expectMember (window : Ber.Window) (tag : UInt8) (field : Field) :
    Except Error (Ber.Element × Ber.Window) :=
  if window.isExhausted then
    .error (.missing field)
  else
    match readMember window with
    | .error error => .error error
    | .ok (element, window) =>
      match checkIdentifier element tag field with
      | .error error => .error error
      | .ok () => .ok (element, window)

/-- Whether the next element starts with the given octet. -/
def startsWith (window : Ber.Window) (tag : UInt8) : Bool :=
  window.remaining.head? == some tag

/-- A member is an element that is read. -/
theorem readMember_eq_ok {window : Ber.Window} {member : Ber.Element × Ber.Window} :
    readMember window = .ok member ↔ Ber.Element.read window = .ok member := by
  rw [← Ber.Element.readWithin_eq_ok]
  unfold readMember
  split <;> simp_all

/-- A member read from a window leaves less of it. -/
theorem length_remaining_of_expectMember {window window' : Ber.Window} {element : Ber.Element}
    {tag : UInt8} {field : Field} (h : expectMember window tag field = .ok (element, window')) :
    window'.remaining.length < window.remaining.length := by
  simp only [expectMember] at h
  split at h
  · simp at h
  · split at h
    · simp at h
    · rename_i element' behind hread
      split at h
      · simp at h
      · simp only [Except.ok.injEq, Prod.mk.injEq] at h
        obtain ⟨-, rfl⟩ := h
        exact Ber.Element.length_remaining_of_read (readMember_eq_ok.1 hread)

end Asn1.TimeStamp
