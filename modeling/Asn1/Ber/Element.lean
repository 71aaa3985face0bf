import Asn1.Ber.Header

/-!
# Single elements

An element taken from a window whole: its header, its content octets and all of its octets as they
stand. The content is not looked into.
-/

namespace Asn1.Ber

/-- One element with its octets. -/
structure Element where
  header : Header
  content : Octets
  /-- Identifier, length and content octets as received. -/
  raw : Octets
  deriving Repr, DecidableEq

namespace Element

/-- Reads the element at the cursor, and the window behind it. -/
def read (window : Window) : Except Error (Element × Window) :=
  match Header.decode window with
  | .error error => .error error
  | .ok (header, window') =>
    match window'.readBytes header.contentLength with
    | .error error => .error error
    | .ok (content, window'') =>
      .ok (⟨header, content, window.remaining.take header.elementLength⟩, window'')

/-- Reads the element at the cursor of a window over another element's content. That content lies
inside the input, so an element that runs over its end is longer than the one around it. -/
def readWithin (window : Window) : Except Error (Element × Window) :=
  match read window with
  | .error error => .error error.within
  | .ok result => .ok result

/-- An element read from a window leaves less of it. -/
theorem length_remaining_of_read {window window' : Window} {element : Element}
    (h : read window = .ok (element, window')) :
    window'.remaining.length < window.remaining.length := by
  simp only [read] at h
  split at h
  · simp at h
  · rename_i header moved hheader
    split at h
    · simp at h
    · rename_i content behind hread
      simp only [Except.ok.injEq, Prod.mk.injEq] at h
      obtain ⟨-, rfl⟩ := h
      obtain ⟨hdata, hoffset, htwo, hfit⟩ := Header.decode_eq_ok hheader
      simp only [Window.readBytes] at hread
      split at hread
      · simp at hread
      · cases hread
        simp only [Window.length_remaining, hdata] at *
        omega

/-- Inside an element the same elements are read, only the errors differ. -/
theorem readWithin_eq_ok {window : Window} {result : Element × Window} :
    readWithin window = .ok result ↔ read window = .ok result := by
  unfold readWithin
  split <;> simp_all

/-- The window over the content of an element. -/
def inside (element : Element) : Window :=
  .ofOctets element.content

end Element

end Asn1.Ber
