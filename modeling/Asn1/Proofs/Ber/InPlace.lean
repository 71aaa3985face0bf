import Asn1.Ber.InPlace
import Asn1.Proofs.Ber.Header

/-!
# Windows in bounds are safe in place

The operations that change a window in place take ranges of its octets, and a range may be missed. On
a window in bounds none is, whatever is asked for; the operations then do what they do when they
return the window, and one that fails leaves the window as it was (`works`).
-/

namespace Asn1.Ber.InPlace

/-- What an operation leaves behind when it is done in place: the window that it returns, or the one
at hand when it fails. -/
def settle {α : Type} (window : Window) : Except Error (α × Window) → Except Error α × Window
  | .error error => (.error error, window)
  | .ok (result, window') => (.ok result, window')

/-- In place the operations on a window miss no range, whatever they are asked for, and do what they
do otherwise. One that fails leaves the window as it was. -/
structure Works (window : Window) : Prop where
  readByte : readByte window = settle window window.readByte
  readBytes : ∀ count, readBytes? window count = some (settle window (window.readBytes count))
  seek : ∀ position,
    seek window position = settle window ((window.seek position).map fun moved => ((), moved))
  slice : ∀ start stop, slice? window start stop = some (window.slice start stop)
  readHeader : readHeader? window = some (settle window (Header.decode window))

theorem range?_eq_some {octets : Octets} {start stop : Nat} (hle : start ≤ stop)
    (hstop : stop ≤ octets.length) :
    range? octets start stop = some ((octets.drop start).take (stop - start)) := by
  rw [range?, if_pos ⟨hle, hstop⟩]

theorem before?_append (octets rest : Octets) : before? (octets ++ rest) rest = some octets := by
  have hlen : (octets ++ rest).length - rest.length = octets.length := by
    rw [List.length_append, Nat.add_sub_cancel]
  rw [before?, hlen, if_pos (by simp), range?_eq_some (Nat.zero_le _) (by simp)]
  simp

section InBounds

variable {window : Window}

theorem remaining?_eq (h : window.InBounds) : remaining? window = some window.remaining := by
  rw [remaining?, range?_eq_some h (Nat.le_refl _), Window.remaining,
    List.take_of_length_le (by simp)]

theorem readByte_eq (window : Window) : readByte window = settle window window.readByte := by
  unfold readByte Window.readByte
  cases window.data[window.offset]? <;> rfl

theorem readBytes?_eq (h : window.InBounds) (count : Nat) :
    readBytes? window count = some (settle window (window.readBytes count)) := by
  have hlen := h.length_remaining
  rw [readBytes?, Window.readBytes, remaining?_eq h, Option.bind_eq_bind, Option.bind_some]
  by_cases hshort : window.remaining.length < count
  · rw [if_pos hshort, if_pos hshort]
    rfl
  · -- What the comparison with the rest has let through lies in the octets.
    rw [if_neg hshort, if_neg hshort, range?_eq_some (by omega) (by omega),
      Nat.add_sub_cancel_left]
    rfl

theorem seek_eq (window : Window) (position : Nat) :
    seek window position =
      settle window ((window.seek position).map fun moved => ((), moved)) := by
  unfold seek Window.seek
  by_cases h : window.data.length < position
  · rw [if_pos h, if_pos h]
    rfl
  · rw [if_neg h, if_neg h]
    rfl

theorem slice?_eq (window : Window) (start stop : Nat) :
    slice? window start stop = some (window.slice start stop) := by
  unfold slice? Window.slice
  by_cases h : stop < start ∨ window.data.length < stop
  · rw [if_pos h, if_pos h]
    rfl
  · rw [if_neg h, if_neg h, range?_eq_some (by omega) (by omega)]
    rfl

theorem readHeader?_eq (h : window.InBounds) :
    readHeader? window = some (settle window (Header.decode window)) := by
  rw [readHeader?, remaining?_eq h, Option.bind_eq_bind, Option.bind_some]
  unfold Header.decode Header.parse
  cases hsplit : Identifier.split? window.remaining with
  | none => rfl
  | some parts =>
    obtain ⟨identifier, afterIdentifier⟩ := parts
    have hbefore : before? window.remaining afterIdentifier = some identifier := by
      rw [(Identifier.eq_append_of_split? hsplit).1, before?_append]
    simp only [hbefore, Option.bind_some]
    cases Length.decode afterIdentifier with
    | error error => rfl
    | ok result =>
      obtain ⟨contentLength, rest⟩ := result
      by_cases hfit : rest.length < contentLength
      · simp only [if_pos hfit]
        rfl
      · simp only [if_neg hfit, seek_eq]
        cases window.seek (window.offset + (window.remaining.length - rest.length)) <;> rfl

theorem works (h : window.InBounds) : Works window :=
  ⟨readByte_eq window, readBytes?_eq h, seek_eq window, slice?_eq window, readHeader?_eq h⟩

end InBounds

end Asn1.Ber.InPlace
