import Asn1.Ber.Header
import Asn1.Value

/-!
# Frames

A frame is a constructed element that is being decoded: its identifier, a window over its content,
and the children read so far.
-/

namespace Asn1.Ber

/-- A constructed element whose children are still being read. -/
structure Frame where
  identifier : Octets
  content : Window
  /-- The children read so far, the newest first. -/
  children : List Value

namespace Frame

/-- Opens the element of a header just read from a window. The frame gets its own window over the
declared content, and the cursor of the outer window moves behind it. -/
def enter (header : Header) (window : Window) : Except Error (Frame × Window) :=
  let stop := window.offset + header.contentLength
  match window.slice window.offset stop with
  | .error error => .error error
  | .ok content =>
    match window.seek stop with
    | .error error => .error error
    | .ok window => .ok (⟨header.identifier, content, []⟩, window)

/-- The frame with one more child. -/
def push (frame : Frame) (value : Value) : Frame :=
  { frame with children := value :: frame.children }

/-- The value of a frame whose content is used up. -/
def finish (frame : Frame) : Value :=
  .constructed frame.identifier frame.children.reverse

/-- Entering an element splits what was left into its content and what follows it. -/
theorem enter_eq_ok {header : Header} {window window' : Window} {frame : Frame}
    (h : enter header window = .ok (frame, window')) :
    frame.content.remaining.length + window'.remaining.length = window.remaining.length := by
  simp only [enter] at h
  split at h
  · simp at h
  · rename_i content hslice
    split at h
    · simp at h
    · rename_i moved hseek
      simp only [Except.ok.injEq, Prod.mk.injEq] at h
      obtain ⟨rfl, rfl⟩ := h
      simp only [Window.slice] at hslice
      split at hslice
      · simp at hslice
      · cases hslice
        simp only [Window.seek] at hseek
        split at hseek
        · simp at hseek
        · cases hseek
          simp only [Window.remaining_ofOctets, List.length_take, List.length_drop,
            Window.length_remaining] at *
          omega

end Frame

end Asn1.Ber
