import Asn1.Proofs.Value.Decode

/-!
# One level deeper

Octets are read inside an element as they are read alone, if the limit makes room for the element
around them. The one error that tells the limit tells the larger one (`descendAll_succ`). So for an
element that is the only one inside another, decoding it says what the descent makes of it
(`descendAll_single`).
-/

namespace Asn1

open Ber

/-- The error under a limit that is larger by one. -/
def Ber.Error.deepen : Error → Error
  | .nestingTooDeep limit => .nestingTooDeep (limit + 1)
  | error => error

/-- An error of a header is the same under every limit. -/
theorem Ber.Header.deepen_within {input : Octets} {error : Error}
    (h : Header.parse input = .error error) : error.within.deepen = error.within := by
  rcases Header.error_of_parse h with rfl | rfl | rfl <;> rfl

namespace Value

/-- A level around the octets is made up for by the limit. -/
theorem descendAll_succ (limit depth : Nat) (content : Octets) :
    descendAll (limit + 1) (depth + 1) content =
      (descendAll limit depth content).mapError Error.deepen := by
  fun_induction descendAll limit depth content with
  | case1 depth content hempty =>
    rw [List.isEmpty_iff.mp hempty, descendAll_nil]
    rfl
  | case2 depth content hne error hparse =>
    have hmore : content ≠ [] := by simpa using hne
    rw [descendAll_refused hmore hparse, Except.mapError, Header.deepen_within hparse]
  | case3 depth content hne header rest hparse hbit hdeep =>
    rw [descendAll_tooDeep hparse hbit (Nat.succ_le_succ hdeep)]
    rfl
  | case4 depth content hne header rest hparse hbit hdeep ihchildren ihvalues =>
    rw [descendAll_constructed hparse hbit (Nat.succ_lt_succ (Nat.not_le.mp hdeep)), ihchildren,
      ihvalues]
    cases descendAll limit (depth + 1) (rest.take header.contentLength) with
    | error error => rfl
    | ok children =>
      cases descendAll limit depth (rest.drop header.contentLength) <;> rfl
  | case5 depth content hne header rest hparse hbit ihvalues =>
    rw [descendAll_primitive hparse (by simpa using hbit), ihvalues]
    cases descendAll limit depth (rest.drop header.contentLength) <;> rfl

section Spanning

variable {limit depth : Nat} {input content : Octets} {header : Header}

/-- Decoding a constructed element is the descent into its content. -/
theorem decode_of_parse (hparse : Header.parse input = .ok (header, content))
    (hbit : header.isConstructed = true) (hlen : header.contentLength = content.length)
    (hroom : 0 < min limit depthCap) :
    decode input limit =
      (descendAll (min limit depthCap) 1 content).map (constructed header.identifier) := by
  rw [decode_eq_descend, descend_constructed hparse hbit hroom, hlen, List.take_length]
  cases descendAll (min limit depthCap) 1 content with
  | error error => rfl
  | ok children => simp only [ok_bind, if_true, Except.map, pure, Except.pure]

/-- An element with nothing behind it is read as one that stands alone. -/
theorem descendAll_single (hparse : Header.parse input = .ok (header, content))
    (hbit : header.isConstructed = true) (hlen : header.contentLength = content.length)
    (hpos : 0 < limit) (hcap : limit ≤ depthCap) :
    descendAll (limit + 1) 1 input =
      ((decode input limit).mapError Error.deepen).map fun value => [value] := by
  have hlimit : min limit depthCap = limit := Nat.min_eq_left hcap
  have hinside : descendAll (limit + 1) 2 content =
      (descendAll limit 1 content).mapError Error.deepen :=
    descendAll_succ limit 1 content
  rw [decode_of_parse hparse hbit hlen (hlimit.symm ▸ hpos), hlimit,
    descendAll_constructed hparse hbit (Nat.succ_lt_succ hpos), hlen, List.take_length,
    List.drop_length, descendAll_nil, hinside]
  cases descendAll limit 1 content <;> rfl

end Spanning

end Value

end Asn1
