import Asn1.Octets

/-!
# Octets in hexadecimal

Each octet is written as two lower-case hexadecimal digits. `text` writes them without a gap,
`bracketed` as a list between brackets, and `preview` separated by blanks and cut after a limit.
-/

namespace Asn1.Hex

/-- The lower-case hexadecimal digit of a number below sixteen. -/
def digit (n : Nat) : Char :=
  Char.ofNat (if n < 10 then 48 + n else 87 + n)

/-- The two digits of an octet, the high one first. -/
def digits (octet : UInt8) : List Char :=
  [digit (octet.toNat / 16), digit (octet.toNat % 16)]

/-- One octet as two digits. -/
def octet (octet : UInt8) : String :=
  String.ofList (digits octet)

/-- An octet string as an unbroken run of digits. -/
def text (octets : Octets) : String :=
  String.ofList (octets.flatMap digits)

/-- An octet string as a bracketed list, such as `[3f, 01]`. -/
def bracketed (octets : Octets) : String :=
  "[" ++ String.intercalate ", " (octets.map octet) ++ "]"

/-- At most `limit` octets separated by blanks; dots follow when some were left out. -/
def preview (octets : Octets) (limit : Nat) : String :=
  let shown := String.intercalate " " ((octets.take limit).map octet)
  if limit < octets.length then shown ++ " ..." else shown

end Asn1.Hex
