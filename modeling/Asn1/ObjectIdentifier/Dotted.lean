import Asn1.ObjectIdentifier

/-!
# Dotted text of object identifiers

The dotted text of an object identifier is its arcs in decimal with a dot between two. Reading
allows what `Decimal.read` allows of each component. `matchesText` compares an object identifier
with a text without building the one that the text stands for, and `isTextOf` is the same comparison
with the text in front.
-/

namespace Asn1.ObjectIdentifier

/-- The dotted text. -/
def text (oid : ObjectIdentifier) : String :=
  String.intercalate "." (oid.arcs.map fun arc => toString arc.toNat)

/-- The components of a dotted text: what stands between its dots. -/
def components (text : String) : List (List Char) :=
  text.toList.splitOn '.'

/-- Reads components from the left; the first one that is no number is the error. -/
def readComponents : List (List Char) → Except Error (List UInt64)
  | [] => .ok []
  | component :: rest =>
    match Decimal.read component with
    | .error cause => .error (.invalidComponent cause)
    | .ok arc =>
      match readComponents rest with
      | .error error => .error error
      | .ok arcs => .ok (arc :: arcs)

/-- The object identifier of a dotted text. -/
def ofText (text : String) : Except Error ObjectIdentifier :=
  match readComponents (components text) with
  | .error error => .error error
  | .ok (first :: second :: rest) => .ok ⟨first, second, rest⟩
  | .ok _ => .error .tooFewComponents

/-- Whether components are the numbers of some arcs, one for one. -/
def matchesComponents : List UInt64 → List (List Char) → Bool
  | [], [] => true
  | arc :: arcs, component :: rest =>
    (match Decimal.read component with
      | .ok number => number == arc
      | .error _ => false) && matchesComponents arcs rest
  | _, _ => false

/-- Whether a text is dotted text of the object identifier. -/
def matchesText (oid : ObjectIdentifier) (text : String) : Bool :=
  matchesComponents oid.arcs (components text)

/-- Whether a text is dotted text of an object identifier, asked of the text. -/
def isTextOf (text : String) (oid : ObjectIdentifier) : Bool :=
  oid.matchesText text

end Asn1.ObjectIdentifier
