import Asn1.Octets.Hex

/-!
# Hexadecimal dumps

A dump shows sixteen octets to the row: the offset of the first one, a cell for each column with a
wider gap in the middle, and between two bars the octets as characters. The cells of a short last
row are filled with blanks, so the bars of all rows stand below each other.
-/

namespace Asn1.Hex

/-- The number of octets in a full row. -/
def rowLength : Nat := 16

/-- An offset in at least eight digits. -/
def offsetDigits (offset : Nat) : List Char :=
  (Nat.toDigits 16 offset).leftpad 8 '0'

/-- The cell of a column: the octet's digits or blanks, and a blank behind them. -/
def cell : Option UInt8 → List Char
  | none => [' ', ' ', ' ']
  | some octet => digits octet ++ [' ']

/-- The cells of a row, with one more blank behind the eighth. -/
def cells (octets : Octets) : List Char :=
  (List.range rowLength).flatMap fun column =>
    cell octets[column]? ++ if column = 7 then [' '] else []

/-- An octet as a printable character of ASCII, the blank included, or a dot for the others. -/
def printable (octet : UInt8) : Char :=
  if 0x20 ≤ octet ∧ octet < 0x7f then Char.ofNat octet.toNat else '.'

/-- One row, without a line end. -/
def row (offset : Nat) (octets : Octets) : List Char :=
  offsetDigits offset ++ [' ', ' '] ++ cells octets ++ [' ', '|'] ++ octets.map printable ++ ['|']

/-- The rows for octets that start at an offset. -/
def rows (offset : Nat) (octets : Octets) : List (List Char) :=
  if octets.isEmpty then
    []
  else
    row offset (octets.take rowLength) :: rows (offset + rowLength) (octets.drop rowLength)
termination_by octets.length
decreasing_by
  have := List.length_pos_iff.2 (mt List.isEmpty_iff.2 ‹_›)
  simp only [List.length_drop, rowLength]
  omega

/-- The dump of an octet string; each row ends its line. -/
def dump (octets : Octets) : String :=
  String.ofList ((rows 0 octets).flatMap (· ++ ['\n']))

end Asn1.Hex
