import Asn1.Value.Decode

/-!
# Decoding by descent

The same decoding as `Value.decode`, written the plain way: an element's content is read by a call
of its own, children in document order and depth first. The calls nest as deep as the input does,
so this is the definition to reason with, and the one on a stack is the one to run.
-/

namespace Asn1.Value

/-- Reads the elements that make up the content of an element with `depth` constructed elements
around its content, itself included. -/
def descendAll (limit depth : Nat) (content : Octets) : Except Ber.Error (List Value) :=
  if content.isEmpty then
    .ok []
  else
    match _h : Ber.Header.parse content with
    | .error error => .error error.within
    | .ok (header, rest) =>
      if header.isConstructed then
        if limit ≤ depth then
          .error (.nestingTooDeep limit)
        else do
          let children ← descendAll limit (depth + 1) (rest.take header.contentLength)
          let values ← descendAll limit depth (rest.drop header.contentLength)
          return .constructed header.identifier children :: values
      else do
        let values ← descendAll limit depth (rest.drop header.contentLength)
        return .primitive header.identifier (rest.take header.contentLength) :: values
termination_by content.length
decreasing_by
  all_goals
    have := Ber.Header.bounds_of_parse ‹_›
    simp only [List.length_take, List.length_drop]
    omega

/-- Reads the one element that makes up the input, with at most `limit` nested constructed values
and never more than the cap. -/
def descend (input : Octets) (limit : Nat) : Except Ber.Error Value :=
  let limit := min limit depthCap
  match Ber.Header.parse input with
  | .error error => .error error
  | .ok (header, rest) =>
    if header.isConstructed then
      if limit = 0 then
        .error (.nestingTooDeep limit)
      else do
        let children ← descendAll limit 1 (rest.take header.contentLength)
        if header.contentLength = rest.length then
          return .constructed header.identifier children
        else
          throw .trailingData
    else if header.contentLength = rest.length then
      return .primitive header.identifier (rest.take header.contentLength)
    else
      throw .trailingData

end Asn1.Value
