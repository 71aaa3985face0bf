import Asn1.Ber.Session
import Asn1.Proofs.Ber.InPlace
import Asn1.Proofs.Except

/-!
# Headers at a cursor

What the reader of headers answers at a cursor depends on the remaining octets alone, wherever the
cursor stands. `StartsWithHeader` says when it accepts them. Otherwise the octet behind a complete
identifier decides, and where there is none or it is no reason to refuse, octets are missing
(`parse_eq_earlyEof_iff`). Read in place, a header that is refused leaves the window as it was, and in
a session so are all windows (`decode_at_cursor`).
-/

namespace Asn1.Ber

/-- The octets are an identifier, definite length octets, and then at least as many octets as the
length says. -/
structure StartsWithHeader (input identifier length tail : Octets) (n : Nat) : Prop where
  isIdentifier : IsIdentifier identifier
  isLength : IsLength length n
  eq_append : input = identifier ++ length ++ tail
  fits : n ≤ tail.length

/-- The octet stands behind a complete identifier at the start. -/
def FollowsIdentifier (octet : UInt8) (input : Octets) : Prop :=
  ∃ identifier tail, IsIdentifier identifier ∧ input = identifier ++ octet :: tail

namespace Header

variable {input : Octets} {window window' : Window} {header : Header} {error : Error}

/-! ## What is read and what is refused -/

theorem parse_eq_ok_iff_startsWith {rest : Octets} :
    parse input = .ok (header, rest) ↔
      ∃ identifier length n, StartsWithHeader input identifier length rest n ∧
        header = ⟨identifier, n, identifier.length + length.length⟩ := by
  rw [parse_eq_ok_iff]
  constructor
  · rintro ⟨octets, ⟨hid, hlength⟩, hinput, hfit⟩
    exact ⟨_, _, _, ⟨hid, hlength, hinput, hfit⟩, rfl⟩
  · rintro ⟨identifier, length, n, h, rfl⟩
    exact ⟨_, .mk h.isIdentifier h.isLength, h.eq_append, h.fits⟩

theorem parse_eq_indefinite_iff :
    parse input = .error .indefiniteLength ↔ FollowsIdentifier 0x80 input := by
  rw [parse_eq_error_iff (by simp)]
  constructor
  · rintro ⟨identifier, rest, hid, hinput, hdecode⟩
    obtain ⟨tail, rfl⟩ := Length.decode_eq_indefinite_iff.mp hdecode
    exact ⟨identifier, tail, hid, hinput⟩
  · rintro ⟨identifier, tail, hid, hinput⟩
    exact ⟨identifier, _, hid, hinput, Length.decode_eq_indefinite_iff.mpr ⟨tail, rfl⟩⟩

theorem parse_eq_unsupported_iff :
    parse input = .error .unsupportedLength ↔
      ∃ octet, 0x85 ≤ octet ∧ FollowsIdentifier octet input := by
  rw [parse_eq_error_iff (by simp)]
  constructor
  · rintro ⟨identifier, rest, hid, hinput, hdecode⟩
    obtain ⟨octet, tail, hmany, rfl⟩ := Length.decode_eq_unsupported_iff.mp hdecode
    exact ⟨octet, hmany, identifier, tail, hid, hinput⟩
  · rintro ⟨octet, hmany, identifier, tail, hid, hinput⟩
    exact ⟨identifier, _, hid, hinput, Length.decode_of_many hmany tail⟩

/-- Octets are missing where nothing is accepted and the length has no refused form. -/
theorem parse_eq_earlyEof_iff :
    parse input = .error .earlyEof ↔
      (¬ ∃ identifier length tail n, StartsWithHeader input identifier length tail n) ∧
        ¬ FollowsIdentifier 0x80 input ∧
        ¬ ∃ octet, 0x85 ≤ octet ∧ FollowsIdentifier octet input := by
  rw [← parse_eq_indefinite_iff, ← parse_eq_unsupported_iff]
  constructor
  · intro h
    refine ⟨?_, by simp [h], by simp [h]⟩
    rintro ⟨identifier, length, tail, n, hstarts⟩
    have hok := parse_eq_ok_iff_startsWith.mpr ⟨identifier, length, n, hstarts, rfl⟩
    rw [h] at hok
    cases hok
  · rintro ⟨hrejected, hdefinite, hsupported⟩
    cases hparse : parse input with
    | ok result =>
      obtain ⟨header, rest⟩ := result
      obtain ⟨identifier, length, n, hstarts, -⟩ := parse_eq_ok_iff_startsWith.mp hparse
      exact absurd ⟨identifier, length, rest, n, hstarts⟩ hrejected
    | error error =>
      rcases error_of_parse hparse with rfl | rfl | rfl
      · rfl
      · exact absurd hparse hdefinite
      · exact absurd hparse hsupported

/-! ## At a cursor -/

/-- A window in which a header is found is in bounds. -/
theorem inBounds_of_parse {rest : Octets} (h : parse window.remaining = .ok (header, rest)) :
    window.InBounds := by
  have hbounds := bounds_of_parse h
  have hlen := window.length_remaining
  simp only [Window.InBounds]
  omega

theorem decode_of_parse {rest : Octets} (h : parse window.remaining = .ok (header, rest)) :
    decode window = .ok (header, window.advance header.headerLength) := by
  rw [decode_eq (inBounds_of_parse h), h]

theorem decode_eq_error_iff :
    decode window = .error error ↔ parse window.remaining = .error error := by
  cases hparse : parse window.remaining with
  | ok result => simp [decode_of_parse hparse]
  | error error' => simp [decode, hparse]

theorem decode_eq_ok_iff :
    decode window = .ok (header, window') ↔
      ∃ rest, parse window.remaining = .ok (header, rest) ∧
        window' = window.advance header.headerLength := by
  constructor
  · intro h
    cases hparse : parse window.remaining with
    | ok result =>
      rw [decode_of_parse hparse] at h
      cases h
      exact ⟨result.2, rfl, rfl⟩
    | error error =>
      rw [decode_eq_error_iff.mpr hparse] at h
      cases h
  · rintro ⟨rest, hparse, rfl⟩
    exact decode_of_parse hparse

theorem decode_eq_ok_iff_startsWith :
    decode window = .ok (header, window') ↔
      ∃ identifier length tail n,
        StartsWithHeader window.remaining identifier length tail n ∧
        header.identifier = identifier ∧ header.contentLength = n ∧
        header.headerLength = identifier.length + length.length ∧
        header.isConstructed = identifier.head?.any (fun first => first.toNat.testBit 5) ∧
        window'.data = window.data ∧
        window'.offset = window.offset + (identifier.length + length.length) ∧
        window'.remaining = tail := by
  rw [decode_eq_ok_iff]
  constructor
  · rintro ⟨rest, hparse, rfl⟩
    obtain ⟨identifier, length, n, hstarts, rfl⟩ := parse_eq_ok_iff_startsWith.mp hparse
    exact ⟨identifier, length, rest, n, hstarts, rfl, rfl, rfl,
      Identifier.isConstructed_eq identifier, rfl, rfl, Window.remaining_behind hparse⟩
  · rintro ⟨identifier, length, tail, n, hstarts, hid, hn, hlen, -, hdata, hoffset, -⟩
    obtain rfl : header = ⟨identifier, n, identifier.length + length.length⟩ := by
      rw [← hlen, ← hn, ← hid]
    obtain rfl : window' = window.advance (identifier.length + length.length) := by
      rw [Window.advance, ← hoffset, ← hdata]
    exact ⟨tail, parse_eq_ok_iff_startsWith.mpr ⟨identifier, length, n, hstarts, rfl⟩, rfl⟩

/-- A header is read the same way in front of more octets. -/
theorem decode_append {longer : Window} {more : Octets}
    (h : decode window = .ok (header, window'))
    (hlonger : longer.remaining = window.remaining ++ more) :
    decode longer = .ok (header, longer.advance header.headerLength) := by
  obtain ⟨rest, hparse, -⟩ := decode_eq_ok_iff.mp h
  have hmore := parse_append_of_ok hparse more
  rw [← hlonger] at hmore
  exact decode_of_parse hmore

end Header

namespace Session

variable {session : Session} {number : Nat} {window window' : Window} {header : Header}

/-- A refused action leaves every window as it was. -/
theorem perform_of_error {action : Action} {error : Error}
    (hwindow : session.windows[number]? = some window)
    (h : session.performOn number window action = .error error) :
    session.perform number action = (some (.error error), session) := by
  simp only [perform, hwindow, h]

theorem perform_readHeader_of_error {error : Error}
    (hwindow : session.windows[number]? = some window) (h : Header.decode window = .error error) :
    session.perform number .readHeader = (some (.error error), session) := by
  apply perform_of_error hwindow
  rw [performOn, h, error_bind]

theorem perform_readHeader_of_ok (hwindow : session.windows[number]? = some window)
    (h : Header.decode window = .ok (header, window')) :
    session.perform number .readHeader =
      (some (.ok (.header header)), session.update number window') := by
  simp only [perform, hwindow, performOn, h, ok_bind]
  rfl

end Session

/-- At any cursor a header is accepted exactly when the remaining octets start with one and hold the
content it declares, and the cursor moves behind it. Otherwise the octet behind a complete
identifier tells whether the form of the length is refused, and in all other cases octets are
missing. The window is then as it was: done in place, the reading misses no range of a window in
bounds, and it moves the cursor only when all of the header is accepted. More octets behind an
accepted header change nothing. -/
theorem Header.decode_at_cursor (window : Window) :
    (∀ header window', decode window = .ok (header, window') ↔
      ∃ identifier length tail n,
        StartsWithHeader window.remaining identifier length tail n ∧
        header.identifier = identifier ∧ header.contentLength = n ∧
        header.headerLength = identifier.length + length.length ∧
        header.isConstructed = identifier.head?.any (fun first => first.toNat.testBit 5) ∧
        window'.data = window.data ∧
        window'.offset = window.offset + (identifier.length + length.length) ∧
        window'.remaining = tail) ∧
      (decode window = .error .indefiniteLength ↔ FollowsIdentifier 0x80 window.remaining) ∧
      (decode window = .error .unsupportedLength ↔
        ∃ octet, 0x85 ≤ octet ∧ FollowsIdentifier octet window.remaining) ∧
      (decode window = .error .earlyEof ↔
        (¬ ∃ identifier length tail n,
          StartsWithHeader window.remaining identifier length tail n) ∧
        ¬ FollowsIdentifier 0x80 window.remaining ∧
        ¬ ∃ octet, 0x85 ≤ octet ∧ FollowsIdentifier octet window.remaining) ∧
      decode window ≠ .error .invalidOffset ∧
      (window.InBounds →
        (∀ error, decode window = .error error →
          InPlace.readHeader? window = some (.error error, window)) ∧
        ∀ header window', decode window = .ok (header, window') →
          InPlace.readHeader? window = some (.ok header, window')) ∧
      (∀ (session : Session) number, session.windows[number]? = some window →
        (∀ error, decode window = .error error →
          session.perform number .readHeader = (some (.error error), session)) ∧
        ∀ header window', decode window = .ok (header, window') →
          session.perform number .readHeader =
            (some (.ok (.header header)), session.update number window')) ∧
      ∀ header window', decode window = .ok (header, window') →
        ∀ longer more, longer.remaining = window.remaining ++ more →
          decode longer = .ok (header, longer.advance header.headerLength) := by
  refine ⟨fun header window' => decode_eq_ok_iff_startsWith, ?_, ?_, ?_, ?_,
    fun hbounds => ⟨fun error h => ?_, fun header window' h => ?_⟩,
    fun session number hwindow => ⟨fun error h => ?_, fun header window' h => ?_⟩, ?_⟩
  · rw [decode_eq_error_iff, parse_eq_indefinite_iff]
  · rw [decode_eq_error_iff, parse_eq_unsupported_iff]
  · rw [decode_eq_error_iff, parse_eq_earlyEof_iff]
  · intro h
    simpa using error_of_parse (decode_eq_error_iff.mp h)
  · rw [InPlace.readHeader?_eq hbounds, h, InPlace.settle]
  · rw [InPlace.readHeader?_eq hbounds, h, InPlace.settle]
  · exact Session.perform_readHeader_of_error hwindow h
  · exact Session.perform_readHeader_of_ok hwindow h
  · intro header window' h longer more hlonger
    exact decode_append h hlonger

/-- In the middle of a buffer the header is read from where the cursor stands. When its content is
cut off, its octets have been looked at and the cursor has not moved. -/
example : InPlace.readHeader? ⟨[0xff, 0x02, 0x01, 0x05, 0xee], 1⟩ =
      some (.ok ⟨[0x02], 1, 2⟩, ⟨[0xff, 0x02, 0x01, 0x05, 0xee], 3⟩) ∧
    InPlace.readHeader? ⟨[0xff, 0x02, 0x01], 1⟩ =
      some (.error .earlyEof, ⟨[0xff, 0x02, 0x01], 1⟩) := by
  decide

end Asn1.Ber
