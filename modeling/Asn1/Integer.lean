import Asn1.Octets

/-!
# Content octets of integers

The content octets of an integer are its two's complement, most significant octet first. Decoding
takes one to eight octets. Encoding leaves out leading octets that only repeat the sign.
-/

namespace Asn1.Integer

/-- Whether the high bit of an octet is set. -/
def isNegative (octet : UInt8) : Bool :=
  octet &&& 0x80 == 0x80

/-- The two's complement value of octets. -/
def value : Octets → Int
  | [] => 0
  | first :: rest =>
    let sign : Int := if isNegative first then -1 else 0
    (first :: rest).foldl (fun n octet => n * 256 + (octet.toNat : Int)) sign

/-- The value of octets as it is gathered in a signed word of 64 bits, which starts with the sign in
all its bits and is moved up by eight for each octet. -/
def gather : Octets → Int64
  | [] => 0
  | first :: rest =>
    let sign : Int64 := if isNegative first then -1 else 0
    (first :: rest).foldl (fun word octet => word <<< 8 ||| octet.toUInt64.toInt64) sign

/-- The number that a word of octets stands for: that of its bits as a signed integer. -/
def twosComplement (content : Octets) : Int :=
  (BitVec.ofNat (8 * content.length) (Octets.toNat content)).toInt

/-- The number of content octets, of which there must be one to eight. -/
def decode? (content : Octets) : Option Int64 :=
  if content.isEmpty ∨ 8 < content.length then none else some (Int64.ofInt (value content))

/-- Whether the first octet of a two's complement adds nothing to the second. -/
def isRedundant (first second : UInt8) : Bool :=
  (first == 0x00 && !isNegative second) || (first == 0xff && isNegative second)

/-- The two's complement without redundant leading octets; the last octet always stays. -/
def trim : Octets → Octets
  | first :: second :: rest =>
    if isRedundant first second then trim (second :: rest) else first :: second :: rest
  | octets => octets

/-- The content octets of a number. -/
def encode (n : Int64) : Octets :=
  trim (Octets.ofNat 8 n.toUInt64.toNat)

end Asn1.Integer
