import Asn1.Octets.Hex
import Asn1.Value

/-!
# Listings

A listing shows a value with one line for each element, in document order, indented by two blanks
per level. The elements still to be shown wait in a list, so the depth of the tree does not turn
into nested calls. `rendering` is the same text written the plain way, by recursion on the tree.
-/

namespace Asn1.Value

/-- The number of content octets that a listing shows of a primitive value. -/
def previewLimit : Nat := 16

/-- What a listing says of one element. -/
def caption : Value → String
  | .primitive identifier content =>
    let length := content.length
    let header := identifier.length + Ber.Length.octetCount length
    let sizes := Hex.text identifier ++ s!" ({length} octets, {header} header)"
    if content.isEmpty then sizes else sizes ++ " " ++ Hex.preview content previewLimit
  | .node identifier children contentLength =>
    let noun := if children.length = 1 then "child" else "children"
    Hex.text identifier ++
      s!" constructed ({contentLength} octets, {children.length} {noun})"

/-- The line for an element at a level, without a line end. -/
def line (level : Nat) (value : Value) : String :=
  String.ofList (List.replicate (2 * level) ' ') ++ value.caption

/-- The elements directly inside a value, for the level below its own. -/
def inner (level : Nat) : Value → List (Nat × Value)
  | .primitive _ _ => []
  | .node _ children _ => children.map (level + 1, ·)

/-- The number of elements in the trees that wait to be listed. -/
def waitingCount (waiting : List (Nat × Value)) : Nat :=
  countAll (waiting.map Prod.snd)

/-- Listing an element puts fewer elements in its place. -/
theorem waitingCount_inner_lt (level : Nat) (value : Value) (waiting : List (Nat × Value)) :
    waitingCount (value.inner level ++ waiting) < waitingCount ((level, value) :: waiting) := by
  cases value with
  | primitive => simp [waitingCount, inner, countAll, count]
  | node identifier children contentLength =>
    simp [waitingCount, inner, countAll, count, countAll_append, Function.comp_def]

/-- Lists the elements that wait, behind the `lines` listed so far, the newest first. -/
def listWaiting (waiting : List (Nat × Value)) (lines : List String) : List String :=
  match waiting with
  | [] => lines.reverse
  | (level, value) :: waiting =>
    listWaiting (value.inner level ++ waiting) (value.line level :: lines)
termination_by waitingCount waiting
decreasing_by exact waitingCount_inner_lt _ _ _

/-- The lines of the listing of a value. -/
def listingLines (value : Value) : List String :=
  listWaiting [(0, value)] []

/-- The listing of a value; each element ends its line. -/
def listing (value : Value) : String :=
  String.join (value.listingLines.map (· ++ "\n"))

mutual

/-- The line of a value at a level, then its children one level deeper. -/
def rendering (level : Nat) : Value → String
  | .primitive identifier content => line level (.primitive identifier content) ++ "\n"
  | .node identifier children contentLength =>
    line level (.node identifier children contentLength) ++ "\n" ++
      renderingAll (level + 1) children

/-- Several values at a level, one after the other. -/
def renderingAll (level : Nat) : List Value → String
  | [] => ""
  | value :: values => value.rendering level ++ renderingAll level values

end

end Asn1.Value
