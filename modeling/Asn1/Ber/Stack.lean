import Asn1.Ber.Event
import Asn1.Ber.Frame

/-!
# Stacks of frames

The constructed elements around the cursor form a stack of frames, and `step` moves the innermost
one on: it closes a finished frame, reads a primitive child, or opens a frame for a constructed
child. `run` goes on until the outermost element is complete or refused. Main statement:
`pending_step`, every step that does not end the decoding brings the end nearer.
-/

namespace Asn1.Ber

/-- The frames around the cursor, which are at least one. -/
structure Stack where
  /-- The innermost frame. -/
  top : Frame
  /-- The frames around it, from the inside out. -/
  below : List Frame

namespace Stack

/-- The number of frames. -/
def depth (stack : Stack) : Nat :=
  stack.below.length + 1

/-- What is still to be done for some frames: the octets left in them, and the frames left to
close. -/
def pendingIn : List Frame → Nat
  | [] => 0
  | frame :: frames => frame.content.remaining.length + 1 + pendingIn frames

/-- What is still to be done for all frames of a stack. -/
def pending (stack : Stack) : Nat :=
  pendingIn (stack.top :: stack.below)

end Stack

/-- The outcome of one step. -/
inductive Progress where
  | running (stack : Stack)
  | finished (value : Value)
  | failed (error : Error)

/-- Fails with an error met inside an element. -/
def Progress.failWithin (error : Error) : Progress × List Event :=
  (.failed error.within, match error with
    | .earlyEof => [.overrun]
    | _ => [])

/-- One step of the innermost frame, and the events it reports. At most `limit` frames may be open
at once. -/
def Stack.step (limit : Nat) (stack : Stack) : Progress × List Event :=
  let top := stack.top
  if top.content.isExhausted then
    match stack.below with
    | [] => (.finished top.finish, [.closed stack.depth])
    | parent :: below => (.running ⟨parent.push top.finish, below⟩, [.closed stack.depth])
  else
    match Header.decode top.content with
    | .error error => Progress.failWithin error
    | .ok (header, content) =>
      if header.isConstructed then
        if limit ≤ stack.depth then
          (.failed (.nestingTooDeep limit), [.tooDeep limit])
        else
          match Frame.enter header content with
          | .error error => Progress.failWithin error
          | .ok (frame, content) =>
            (.running ⟨frame, { top with content } :: stack.below⟩,
              [.opened (stack.depth + 1)])
      else
        match content.readBytes header.contentLength with
        | .error error => Progress.failWithin error
        | .ok (octets, content) =>
          let top := { top with content }
          (.running ⟨top.push (.primitive header.identifier octets), stack.below⟩, [])

/-- A step that goes on leaves less to be done. -/
theorem Stack.pending_step {limit : Nat} {stack stack' : Stack} {events : List Event}
    (h : stack.step limit = (.running stack', events)) : stack'.pending < stack.pending := by
  obtain ⟨top, below⟩ := stack
  simp only [Stack.step] at h
  split at h
  · split at h
    · simp at h
    · simp only [Prod.mk.injEq, Progress.running.injEq] at h
      obtain ⟨rfl, -⟩ := h
      simp [Stack.pending, Stack.pendingIn, Frame.push]
  · split at h
    · simp [Progress.failWithin] at h
    · rename_i header content hheader
      obtain ⟨hdata, hoffset, htwo, hfit⟩ := Header.decode_eq_ok hheader
      have hbefore := Window.length_remaining top.content
      have hafter := Window.length_remaining content
      rw [hdata] at hafter hfit
      split at h
      · split at h
        · simp at h
        · split at h
          · simp [Progress.failWithin] at h
          · rename_i frame content' henter
            simp only [Prod.mk.injEq, Progress.running.injEq] at h
            obtain ⟨rfl, -⟩ := h
            have := Frame.enter_eq_ok henter
            simp only [Stack.pending, Stack.pendingIn]
            omega
      · split at h
        · simp [Progress.failWithin] at h
        · rename_i octets content' hread
          simp only [Prod.mk.injEq, Progress.running.injEq] at h
          obtain ⟨rfl, -⟩ := h
          simp only [Window.readBytes] at hread
          split at hread
          · simp at hread
          · cases hread
            simp only [Stack.pending, Stack.pendingIn, Frame.push, Window.length_remaining, hdata]
            omega

/-- Steps a stack of frames until the outermost element is complete or refused. `log` holds the
events reported so far, the newest first. -/
def Stack.run (limit : Nat) (stack : Stack) (log : List Event) :
    Except Error Value × List Event :=
  match _h : stack.step limit with
  | (.running stack', events) => stack'.run limit (events.reverse ++ log)
  | (.finished value, events) => (.ok value, events.reverse ++ log)
  | (.failed error, events) => (.error error, events.reverse ++ log)
termination_by stack.pending
decreasing_by exact Stack.pending_step ‹_›

end Asn1.Ber
