import Asn1.Ber.Frame

/-!
# Windows in bounds

The cursor of a window in bounds stands at an octet or at the end. Every operation that moves it
does so by `advance`, and in bounds what the operations answer depends on the remaining octets
alone. What an operation has done when it succeeds is said by one lemma for each. Opening a frame
over content that is there never fails (`Frame.enter_of_le`).
-/

namespace Asn1.Ber

namespace Window

/-- The cursor is not behind the end. -/
def InBounds (window : Window) : Prop :=
  window.offset ≤ window.data.length

/-- The window with its cursor `count` octets further on. -/
def advance (window : Window) (count : Nat) : Window :=
  { window with offset := window.offset + count }

@[simp] theorem remaining_advance (window : Window) (count : Nat) :
    (window.advance count).remaining = window.remaining.drop count := by
  simp [remaining, advance, List.drop_drop]

theorem inBounds_ofOctets (data : Octets) : (ofOctets data).InBounds :=
  Nat.zero_le _

theorem InBounds.length_remaining {window : Window} (h : window.InBounds) :
    window.offset + window.remaining.length = window.data.length := by
  simp only [InBounds] at h
  rw [Window.length_remaining]
  omega

theorem InBounds.advance {window : Window} (h : window.InBounds) {count : Nat}
    (hcount : count ≤ window.remaining.length) : (window.advance count).InBounds := by
  have hlen := h.length_remaining
  simp only [InBounds, Window.advance]
  omega

theorem InBounds.isExhausted_iff {window : Window} (h : window.InBounds) :
    window.isExhausted = true ↔ window.remaining = [] := by
  have hlen := h.length_remaining
  rw [Window.isExhausted_iff, ← List.length_eq_zero_iff]
  omega

theorem readBytes_of_le {window : Window} {count : Nat}
    (h : count ≤ window.remaining.length) :
    window.readBytes count = .ok (window.remaining.take count, window.advance count) := by
  rw [readBytes, if_neg (Nat.not_lt.mpr h)]
  rfl

theorem InBounds.seek_advance {window : Window} (h : window.InBounds) {count : Nat}
    (hcount : count ≤ window.remaining.length) :
    window.seek (window.offset + count) = .ok (window.advance count) := by
  have hlen := h.length_remaining
  rw [seek, if_neg (by omega)]
  rfl

theorem InBounds.slice_here {window : Window} (h : window.InBounds) {count : Nat}
    (hcount : count ≤ window.remaining.length) :
    window.slice window.offset (window.offset + count) =
      .ok (ofOctets (window.remaining.take count)) := by
  have hlen := h.length_remaining
  rw [slice, if_neg (by omega), Nat.add_sub_cancel_left]
  rfl

section Succeeds

variable {window moved : Window}

theorem readByte_eq_ok_iff {octet : UInt8} :
    window.readByte = .ok (octet, moved) ↔
      window.data[window.offset]? = some octet ∧ moved = window.advance 1 := by
  unfold readByte
  cases window.data[window.offset]? with
  | none => simp
  | some found => simp [advance, eq_comm]

theorem readBytes_eq_ok_iff {count : Nat} {octets : Octets} :
    window.readBytes count = .ok (octets, moved) ↔
      count ≤ window.remaining.length ∧ octets = window.remaining.take count ∧
        moved = window.advance count := by
  unfold readBytes
  by_cases hshort : window.remaining.length < count
  · simp [hshort, Nat.not_le.mpr hshort]
  · simp [hshort, Nat.not_lt.mp hshort, advance, eq_comm]

theorem seek_eq_ok_iff {position : Nat} :
    window.seek position = .ok moved ↔
      position ≤ window.data.length ∧ moved = { window with offset := position } := by
  unfold seek
  by_cases hbehind : window.data.length < position
  · simp [hbehind, Nat.not_le.mpr hbehind]
  · simp [hbehind, Nat.not_lt.mp hbehind, eq_comm]

theorem slice_eq_ok_iff {start stop : Nat} {sliced : Window} :
    window.slice start stop = .ok sliced ↔
      start ≤ stop ∧ stop ≤ window.data.length ∧
        sliced = ofOctets ((window.data.drop start).take (stop - start)) := by
  unfold slice
  by_cases hrange : stop < start ∨ window.data.length < stop
  · rw [if_pos hrange]
    constructor
    · intro h
      cases h
    · rintro ⟨hstart, hstop, -⟩
      omega
  · rw [not_or, Nat.not_lt, Nat.not_lt] at hrange
    rw [if_neg (by omega), Except.ok.injEq, eq_comm]
    simp [hrange]

end Succeeds

end Window

/-- The frame of an element whose content is there: a window of its own over the content, and the
outer cursor behind it. -/
theorem Frame.enter_of_le {header : Header} {window : Window} (h : window.InBounds)
    (hfit : header.contentLength ≤ window.remaining.length) :
    Frame.enter header window =
      .ok (⟨header.identifier, .ofOctets (window.remaining.take header.contentLength), []⟩,
        window.advance header.contentLength) := by
  rw [Frame.enter]
  simp only [h.slice_here hfit, h.seek_advance hfit]

end Asn1.Ber
