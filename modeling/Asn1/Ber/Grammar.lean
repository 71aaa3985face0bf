import Asn1.Value

/-!
# The grammar of elements

Which octets are an element, and which value they denote. The grammar is the part of the basic
encoding rules with definite lengths of at most four octets behind the first; it speaks of whole
octet strings and the numbers of octets, and knows no cursor, no limit and no order of reading.
-/

namespace Asn1.Ber

/-- The octets of an identifier: one octet whose low five bits do not make 31, or one where they do,
then octets of 128 or more, and a last one below 128. -/
inductive IsIdentifier : Octets → Prop
  | short {octet : UInt8} (h : octet.toNat % 32 ≠ 31) : IsIdentifier [octet]
  | long {first last : UInt8} {middle : Octets} (hfirst : first.toNat % 32 = 31)
      (hmiddle : ∀ octet ∈ middle, 128 ≤ octet.toNat) (hlast : last.toNat < 128) :
      IsIdentifier (first :: (middle ++ [last]))

/-- The octets of a definite length: the length itself below 128, or 128 plus a count of one to
four and that many big-endian octets, leading zeros allowed. -/
inductive IsLength : Octets → Nat → Prop
  | short {length : Nat} (h : length < 128) : IsLength [UInt8.ofNat length] length
  | long {octets : Octets} (hpos : 1 ≤ octets.length) (hmax : octets.length ≤ 4) :
      IsLength (UInt8.ofNat (128 + octets.length) :: octets) (Octets.toNat octets)

mutual

/-- The octets of an element and the value they denote. -/
inductive IsElement : Octets → Value → Prop
  | primitive {identifier length content : Octets} (hid : IsIdentifier identifier)
      (hbit : Identifier.isConstructed identifier = false)
      (hlength : IsLength length content.length) :
      IsElement (identifier ++ length ++ content) (.primitive identifier content)
  | constructed {identifier length content : Octets} {children : List Value}
      (hid : IsIdentifier identifier) (hbit : Identifier.isConstructed identifier = true)
      (hlength : IsLength length content.length) (hchildren : AreElements content children) :
      IsElement (identifier ++ length ++ content) (.constructed identifier children)

/-- The octets of elements one after the other and the values they denote. -/
inductive AreElements : Octets → List Value → Prop
  | nil : AreElements [] []
  | cons {head tail : Octets} {value : Value} {values : List Value} (hhead : IsElement head value)
      (htail : AreElements tail values) : AreElements (head ++ tail) (value :: values)

end

end Asn1.Ber
