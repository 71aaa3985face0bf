import Asn1.Ber.Header

/-!
# Windows that are changed in place

The operations on a window as they are done on one that is changed in place: each answers and leaves
a window behind, also when it fails. Octets are handed out by taking a range of them, and a range
that does not lie in them is a fault, for which there is neither an answer nor a window.
-/

namespace Asn1.Ber.InPlace

/-- The octets at positions `start` up to, not including, `stop`. -/
def range? (octets : Octets) (start stop : Nat) : Option Octets :=
  if start ≤ stop ∧ stop ≤ octets.length then
    some ((octets.drop start).take (stop - start))
  else
    none

/-- The octets in front of a rest of them, which must not be longer than they are. -/
def before? (octets rest : Octets) : Option Octets :=
  if rest.length ≤ octets.length then range? octets 0 (octets.length - rest.length) else none

/-- The octets from the cursor to the end. -/
def remaining? (window : Window) : Option Octets :=
  range? window.data window.offset window.data.length

/-- Reads the octet at the cursor. -/
def readByte (window : Window) : Except Error UInt8 × Window :=
  match window.data[window.offset]? with
  | none => (.error .earlyEof, window)
  | some octet => (.ok octet, { window with offset := window.offset + 1 })

/-- Reads the next octets, if there are so many. -/
def readBytes? (window : Window) (count : Nat) : Option (Except Error Octets × Window) := do
  let remaining ← remaining? window
  if remaining.length < count then
    return (.error .earlyEof, window)
  else
    let octets ← range? window.data window.offset (window.offset + count)
    return (.ok octets, { window with offset := window.offset + count })

/-- Moves the cursor, which may stand at the end but not behind it. -/
def seek (window : Window) (position : Nat) : Except Error Unit × Window :=
  if window.data.length < position then
    (.error .invalidOffset, window)
  else
    (.ok (), { window with offset := position })

/-- The window over a range of the octets. The window at hand stays as it is. -/
def slice? (window : Window) (start stop : Nat) : Option (Except Error Window) := do
  if stop < start ∨ window.data.length < stop then
    return .error .invalidSlice
  else
    let octets ← range? window.data start stop
    return .ok (.ofOctets octets)

/-- Reads the header at the cursor. Only once all of it is accepted does the cursor move. -/
def readHeader? (window : Window) : Option (Except Error Header × Window) := do
  let input ← remaining? window
  match Identifier.split? input with
  | none => return (.error .earlyEof, window)
  | some (_, afterIdentifier) =>
    let identifier ← before? input afterIdentifier
    match Length.decode afterIdentifier with
    | .error error => return (.error error, window)
    | .ok (contentLength, rest) =>
      let headerLength := input.length - rest.length
      if rest.length < contentLength then
        return (.error .earlyEof, window)
      else
        match seek window (window.offset + headerLength) with
        | (.error error, window) => return (.error error, window)
        | (.ok (), window) => return (.ok ⟨identifier, contentLength, headerLength⟩, window)

end Asn1.Ber.InPlace
