import Asn1.Ber.Identifier
import Asn1.Ber.Length
import Asn1.Ber.Window

/-!
# Headers

The header of an element is its identifier and its length octets. A header is accepted only when
the content it declares is there, so the reader of a header may take that many octets. Main
statement: `decode_eq_ok` says where the cursor stands after a header.
-/

namespace Asn1.Ber

/-- A decoded header. -/
structure Header where
  identifier : Octets
  /-- The number of content octets that follow. -/
  contentLength : Nat
  /-- The number of identifier and length octets. -/
  headerLength : Nat
  deriving Repr, DecidableEq

namespace Header

/-- Whether the element is constructed. -/
def isConstructed (header : Header) : Bool :=
  Identifier.isConstructed header.identifier

/-- The number of octets of the whole element. -/
def elementLength (header : Header) : Nat :=
  header.headerLength + header.contentLength

/-- Reads the header in front of some octets and returns what follows it. -/
def parse (input : Octets) : Except Error (Header × Octets) :=
  match Identifier.split? input with
  | none => .error .earlyEof
  | some (identifier, afterIdentifier) =>
    match Length.decode afterIdentifier with
    | .error error => .error error
    | .ok (contentLength, rest) =>
      if rest.length < contentLength then
        .error .earlyEof
      else
        .ok (⟨identifier, contentLength, input.length - rest.length⟩, rest)

/-- Reads the header at the cursor; the cursor of the returned window stands behind it. -/
def decode (window : Window) : Except Error (Header × Window) :=
  match parse window.remaining with
  | .error error => .error error
  | .ok (header, _) =>
    match window.seek (window.offset + header.headerLength) with
    | .error error => .error error
    | .ok window => .ok (header, window)

/-- A header takes at least two octets, and the content it declares follows it. -/
theorem bounds_of_parse {input rest : Octets} {header : Header}
    (h : parse input = .ok (header, rest)) :
    2 ≤ header.headerLength ∧ header.headerLength + rest.length = input.length ∧
      header.contentLength ≤ rest.length := by
  simp only [parse] at h
  split at h
  · simp at h
  · rename_i identifier afterIdentifier hid
    split at h
    · simp at h
    · rename_i contentLength rest' hlen
      split at h
      · simp at h
      · rename_i hfit
        simp only [Except.ok.injEq, Prod.mk.injEq] at h
        obtain ⟨rfl, rfl⟩ := h
        obtain ⟨hsplit, hne⟩ := Identifier.eq_append_of_split? hid
        have hlt := Length.length_lt_of_decode hlen
        have hpos := List.length_pos_iff.2 hne
        have htotal := congrArg List.length hsplit
        simp only [List.length_append] at htotal
        refine ⟨?_, ?_, ?_⟩ <;> simp only [Nat.not_lt] at hfit ⊢ <;> omega

/-- After a header the cursor has moved by the header's length and the declared content follows. -/
theorem decode_eq_ok {window window' : Window} {header : Header}
    (h : decode window = .ok (header, window')) :
    window'.data = window.data ∧ window'.offset = window.offset + header.headerLength ∧
      2 ≤ header.headerLength ∧
      window'.offset + header.contentLength ≤ window'.data.length := by
  simp only [decode] at h
  split at h
  · simp at h
  · rename_i header' rest hparse
    split at h
    · simp at h
    · rename_i moved hseek
      simp only [Except.ok.injEq, Prod.mk.injEq] at h
      obtain ⟨rfl, rfl⟩ := h
      obtain ⟨htwo, htotal, hfit⟩ := bounds_of_parse hparse
      have hremaining := Window.length_remaining window
      simp only [Window.seek] at hseek
      split at hseek
      · simp at hseek
      · cases hseek
        refine ⟨rfl, rfl, htwo, ?_⟩
        simp only
        omega

end Header

end Asn1.Ber
