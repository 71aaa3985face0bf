import Asn1.ObjectIdentifier

/-!
# Subidentifiers

Content octets of an object identifier fall into subidentifiers, each of which stands for a number
of any size. This is the meaning of the octets without regard to the width of arcs and to the way
they are read. A number has more than one subidentifier, since groups of zero bits can stand in
front of it; the shortest one has none.
-/

namespace Asn1.ObjectIdentifier

/-- The subidentifiers of content octets. They are cut behind each octet with the high bit clear, so
only the last one can lack such an octet. -/
def subidentifiers (content : Octets) : List Octets :=
  content.splitBy fun octet _ => 0x80 ≤ octet

/-- The number of a subidentifier: the low seven bits of its octets are the digits in base 128. -/
def base128Value (subidentifier : Octets) : Nat :=
  subidentifier.foldl (fun n octet => n * 128 + octet.toNat % 128) 0

/-- The arcs that the numbers of subidentifiers stand for. The first number packs two arcs. -/
def unpackArcs : List Nat → List Nat
  | [] => []
  | head :: rest =>
    if head < 40 then 0 :: head :: rest
    else if head < 80 then 1 :: (head - 40) :: rest
    else 2 :: (head - 80) :: rest

/-- A subidentifier without the octets 80 at its start, which are groups of zero bits. -/
def dropPadding (subidentifier : Octets) : Octets :=
  subidentifier.dropWhile (· == 0x80)

/-- Content octets with each subidentifier as short as possible. -/
def shortest (content : Octets) : Octets :=
  (subidentifiers content).flatMap dropPadding

/-- No subidentifier starts with the octet 80. -/
def IsShortest (content : Octets) : Prop :=
  ∀ subidentifier ∈ subidentifiers content, subidentifier.head? ≠ some 0x80

@[simp] theorem base128Value_nil : base128Value [] = 0 := rfl

theorem base128Value_concat (octets : Octets) (octet : UInt8) :
    base128Value (octets ++ [octet]) = base128Value octets * 128 + octet.toNat % 128 := by
  simp [base128Value]

end Asn1.ObjectIdentifier
