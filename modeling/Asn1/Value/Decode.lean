import Asn1.Ber.Stack

/-!
# Decoding values

A value is decoded from exactly one element that spans the whole input. The tree is built on an
explicit stack of frames, so the nesting of the input never turns into nested calls.
-/

namespace Asn1

namespace Ber

/-- Decodes the element at the cursor. The result holds the value with the window behind it, and
the events reported on the way, in order. -/
def decodeElement (limit : Nat) (window : Window) :
    Except Error (Value × Window) × List Event :=
  match Header.decode window with
  | .error error => (.error error, [])
  | .ok (header, window) =>
    if header.isConstructed then
      if limit = 0 then
        (.error (.nestingTooDeep limit), [.tooDeep limit])
      else
        match Frame.enter header window with
        | .error error => (.error error, [])
        | .ok (frame, window) =>
          let (result, log) := Stack.run limit ⟨frame, []⟩ []
          (result.map (·, window), log.reverse)
    else
      match window.readBytes header.contentLength with
      | .error error => (.error error, [])
      | .ok (octets, window) => (.ok (.primitive header.identifier octets, window), [])

end Ber

namespace Value

/-- The hard cap on the nesting depth that may be asked for. -/
def depthCap : Nat := 1024

/-- Decodes the one element that makes up the input, and tells the events on the way. At most
`limit` constructed values may nest, and never more than `depthCap`. -/
def decodeWithEvents (input : Octets) (limit : Nat) :
    Except Ber.Error Value × List Ber.Event :=
  match Ber.decodeElement (min limit depthCap) (.ofOctets input) with
  | (.error error, events) => (.error error, events)
  | (.ok (value, window), events) =>
    if window.isExhausted then
      (.ok value, events)
    else
      (.error .trailingData, events ++ [.trailing window.remaining.length])

/-- Decodes the one element that makes up the input, with at most `limit` nested constructed
values. -/
def decode (input : Octets) (limit : Nat) : Except Ber.Error Value :=
  (decodeWithEvents input limit).1

end Value

end Asn1
