import Asn1.ObjectIdentifier

/-!
# Content octets of object identifiers

The content octets are a sequence of subidentifiers in base 128, most significant group first; every
octet of a subidentifier but the last has its high bit set. The first subidentifier packs the first
two arcs as 40 · first + second, where first is 0, 1 or 2 and second is below 40 for 0 and 1.
-/

namespace Asn1.ObjectIdentifier

/-- Reads subidentifiers. `value` is the number of the groups read of the current one, and
`isOpen` says whether there are such groups. -/
def readSubidentifiers (value : Nat) (isOpen : Bool) : Octets → Except Error (List UInt64)
  | [] => if isOpen then .error .incompleteEncoding else .ok []
  | octet :: rest =>
    if UInt64.size / 128 ≤ value then
      .error .arcOverflow
    else
      let value := value * 128 + (octet &&& 0x7f).toNat
      if octet &&& 0x80 = 0x80 then
        readSubidentifiers value true rest
      else
        match readSubidentifiers 0 false rest with
        | .error error => .error error
        | .ok subidentifiers => .ok (UInt64.ofNat value :: subidentifiers)

/-- The object identifier with a given first subidentifier and further arcs. -/
def ofSubidentifiers (head : UInt64) (rest : List UInt64) : ObjectIdentifier :=
  if head < 40 then ⟨0, head, rest⟩
  else if head < 80 then ⟨1, head - 40, rest⟩
  else ⟨2, head - 80, rest⟩

/-- The object identifier of content octets. -/
def ofContent (content : Octets) : Except Error ObjectIdentifier :=
  if content.isEmpty then
    .error .noData
  else
    match readSubidentifiers 0 false content with
    | .error error => .error error
    | .ok [] => .error .noData
    | .ok (head :: rest) => .ok (ofSubidentifiers head rest)

/-- The groups of a number in front of its last one, each with the high bit set, before `tail`. -/
def highGroups (n : Nat) (tail : Octets) : Octets :=
  if n = 0 then tail else highGroups (n / 128) (UInt8.ofNat (n % 128 + 128) :: tail)
termination_by n
decreasing_by omega

/-- The octets of a subidentifier, as few as possible. -/
def base128 (n : Nat) : Octets :=
  highGroups (n / 128) [UInt8.ofNat (n % 128)]

/-- The content octets of an object identifier. -/
def toContent (oid : ObjectIdentifier) : Except Error Octets :=
  if 2 < oid.first ∨ (oid.first < 2 ∧ 40 ≤ oid.second) then
    .error (.invalidFirstArcs oid.first oid.second)
  else
    let head := oid.first.toNat * 40 + oid.second.toNat
    if UInt64.size ≤ head then
      .error .arcOverflow
    else
      .ok (base128 head ++ oid.rest.flatMap fun arc => base128 arc.toNat)

/-- The object identifier that a value holds: a primitive one whose identifier is the octet 06. -/
def ofValue : Value → Except Error ObjectIdentifier
  | .primitive identifier content =>
    if identifier = [0x06] then ofContent content else .error (.unexpectedIdentifier identifier)
  | .node identifier _ _ => .error (.unexpectedIdentifier identifier)

end Asn1.ObjectIdentifier
