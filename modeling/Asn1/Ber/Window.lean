import Asn1.Octets
import Asn1.Ber.Error

/-!
# Windows

A window is an octet string with a cursor. Reading moves the cursor forward and returns the moved
window; a failing operation returns none, so the window at hand stays as it was. A slice of a
window is a window of its own, with its own cursor at the start.
-/

namespace Asn1.Ber

/-- An octet string and a cursor into it. -/
structure Window where
  data : Octets
  /-- The number of octets before the cursor. -/
  offset : Nat
  deriving Repr, DecidableEq

namespace Window

/-- The window over an octet string, with its cursor at the start. -/
def ofOctets (data : Octets) : Window :=
  ⟨data, 0⟩

/-- The octets from the cursor to the end. -/
def remaining (window : Window) : Octets :=
  window.data.drop window.offset

/-- Whether the cursor stands at the end. -/
def isExhausted (window : Window) : Bool :=
  window.offset == window.data.length

/-- The octet at the cursor, and the window behind it. -/
def readByte (window : Window) : Except Error (UInt8 × Window) :=
  match window.data[window.offset]? with
  | none => .error .earlyEof
  | some octet => .ok (octet, { window with offset := window.offset + 1 })

/-- The next `count` octets, and the window behind them. -/
def readBytes (window : Window) (count : Nat) : Except Error (Octets × Window) :=
  if window.remaining.length < count then
    .error .earlyEof
  else
    .ok (window.remaining.take count, { window with offset := window.offset + count })

/-- The window with its cursor moved to `position`, which may be the end but not behind it. -/
def seek (window : Window) (position : Nat) : Except Error Window :=
  if window.data.length < position then
    .error .invalidOffset
  else
    .ok { window with offset := position }

/-- The window over the octets at positions `start` up to, not including, `stop`. Positions count
from the start of the data, wherever the cursor stands. -/
def slice (window : Window) (start stop : Nat) : Except Error Window :=
  if stop < start ∨ window.data.length < stop then
    .error .invalidSlice
  else
    .ok (ofOctets ((window.data.drop start).take (stop - start)))

@[simp] theorem remaining_ofOctets (data : Octets) : (ofOctets data).remaining = data := rfl

theorem length_remaining (window : Window) :
    window.remaining.length = window.data.length - window.offset := by
  simp [remaining]

theorem isExhausted_iff (window : Window) :
    window.isExhausted = true ↔ window.offset = window.data.length := by
  simp [isExhausted]

end Window

end Asn1.Ber
