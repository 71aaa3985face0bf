import Asn1.Ber.Stack

/-!
# The decoding loop on a plain list of frames

A `Stack` has an innermost frame by construction. Here the loop works on a list of frames, the
innermost first, which nothing keeps from being empty: a turn looks for the innermost frame, pops
it when it is used up, and looks for the one around it. Where a frame is missing that ought to be
there, the turn ends the loop with a fault of structure and reports nothing.
-/

namespace Asn1.Ber

/-- The outcome of one turn of the loop. -/
inductive Turn where
  | again (frames : List Frame)
  | done (result : Except Error Value)

/-- Ends the loop with an error met inside an element. -/
def Turn.failWithin (error : Error) : Turn × List Event :=
  (.done (.error error.within), (Progress.failWithin error).2)

namespace Loop

/-- One turn of the loop, and the events it reports. At most `limit` frames may be open at once. -/
def turn (limit : Nat) (frames : List Frame) : Turn × List Event :=
  match frames.head? with
  | none => (.done (.error .lengthMismatch), [])
  | some top =>
    if top.content.isExhausted then
      match frames with
      | [] => (.done (.error .lengthMismatch), [])
      | frame :: [] => (.done (.ok frame.finish), [.closed frames.length])
      | frame :: parent :: below =>
        (.again (parent.push frame.finish :: below), [.closed frames.length])
    else
      match Header.decode top.content with
      | .error error => Turn.failWithin error
      | .ok (header, content) =>
        if header.isConstructed then
          if limit ≤ frames.length then
            (.done (.error (.nestingTooDeep limit)), [.tooDeep limit])
          else
            match Frame.enter header content with
            | .error error => Turn.failWithin error
            | .ok (frame, content) =>
              (.again (frame :: { top with content } :: frames.tail),
                [.opened (frames.length + 1)])
        else
          match content.readBytes header.contentLength with
          | .error error => Turn.failWithin error
          | .ok (octets, content) =>
            let top := { top with content }
            (.again (top.push (.primitive header.identifier octets) :: frames.tail), [])

/-- The loop for at most so many turns: nothing if it has not returned by then. `log` holds the
events reported so far, the newest first. -/
def run (limit : Nat) : Nat → List Frame → List Event → Option (Except Error Value × List Event)
  | 0, _, _ => none
  | turns + 1, frames, log =>
    match turn limit frames with
    | (.again frames, events) => run limit turns frames (events.reverse ++ log)
    | (.done result, events) => some (result, events.reverse ++ log)

/-- The frames that there are at the head of the loop, turn after turn. -/
inductive AtHead (limit : Nat) (start : List Frame) : List Frame → Prop
  | start : AtHead limit start start
  | again {frames frames' : List Frame} {events : List Event} (h : AtHead limit start frames)
      (hturn : turn limit frames = (.again frames', events)) : AtHead limit start frames'

end Loop

end Asn1.Ber
