import Asn1.Ber.Loop

/-!
# Sums of sizes

Where two sizes are added up while an input is decoded, whether it is accepted or not, and while a
value is encoded. Positions are added to lengths at the windows that the decoding visits, and the
sizes of values are added up when a frame becomes a value.
-/

namespace Asn1

/-- The numbers that are added up to find the size of a value's encoding. -/
inductive Value.Adds (value : Value) : Nat → Nat → Prop
  /-- The octets of a long length are counted behind the first one. -/
  | lengthOctets (h : 128 ≤ value.contentLength) :
      Adds value 1 (Octets.significant value.contentLength)
  | header : Adds value value.identifier.length (Ber.Length.octetCount value.contentLength)
  | whole : Adds value (value.identifier.length + Ber.Length.octetCount value.contentLength)
      value.contentLength

namespace Ber

/-- The sum of two numbers is the same in words of 64 bits, which drop what has no room in them. -/
def FitsWord (m n : Nat) : Prop :=
  (UInt64.ofNat m + UInt64.ofNat n).toNat = m + n

/-- The frames that there are at the head of the loop while an input is decoded, turn after turn. -/
inductive FramesOf (limit : Nat) (input : Octets) : List Frame → Prop
  | atHead {header : Header} {window outer : Window} {root : Frame} {frames : List Frame}
      (hdecode : Header.decode (.ofOctets input) = .ok (header, window))
      (hbit : header.isConstructed = true) (hroom : 0 < limit)
      (henter : Frame.enter header window = .ok (root, outer))
      (hhead : Loop.AtHead limit [root] frames) : FramesOf limit input frames

/-- The windows at which elements are read while an input is decoded. -/
inductive Visits (limit : Nat) (input : Octets) : Window → Prop
  | outermost : Visits limit input (.ofOctets input)
  | inside {frames : List Frame} {frame : Frame} (hframes : FramesOf limit input frames)
      (hmem : frame ∈ frames) : Visits limit input frame.content

/-- The numbers that are added up while an input is decoded. -/
inductive Adds (limit : Nat) (input : Octets) : Nat → Nat → Prop
  /-- The cursor moves behind a header. -/
  | header {window behind : Window} {header : Header} (hvisits : Visits limit input window)
      (hdecode : Header.decode window = .ok (header, behind)) :
      Adds limit input window.offset header.headerLength
  /-- A header and its content are one element. -/
  | element {window behind : Window} {header : Header} (hvisits : Visits limit input window)
      (hdecode : Header.decode window = .ok (header, behind)) :
      Adds limit input header.headerLength header.contentLength
  /-- Content is read or entered, and the cursor moves behind it. -/
  | content {window behind : Window} {header : Header} (hvisits : Visits limit input window)
      (hdecode : Header.decode window = .ok (header, behind)) :
      Adds limit input behind.offset header.contentLength
  /-- The size of the next child comes to those of the children before it. -/
  | child {frames : List Frame} {frame : Frame} {front : List Value} {value : Value}
      (hframes : FramesOf limit input frames) (hmem : frame ∈ frames)
      (hchild : front ++ [value] <+: frame.children.reverse) :
      Adds limit input (Value.totalLength front) value.encodedLength
  /-- The size of a child is found. -/
  | size {frames : List Frame} {frame : Frame} {value : Value} {m n : Nat}
      (hframes : FramesOf limit input frames) (hmem : frame ∈ frames)
      (hchild : value ∈ frame.children) (hadds : value.Adds m n) : Adds limit input m n
  /-- One more frame is counted. -/
  | depth {frames : List Frame} (hframes : FramesOf limit input frames) :
      Adds limit input frames.length 1

end Ber

end Asn1
