import Asn1.Ber.Identifier
import Asn1.Ber.Length

/-!
# Values

A decoded element is a tree. A primitive value holds its content octets; a constructed value holds
its children and, fixed when it is built, the number of octets that their encodings take together.
`constructed` is the way to build one; `IsSized` says that all those numbers in a tree are right.
-/

namespace Asn1

/-- An element: identifier octets and either content octets or inner elements. -/
inductive Value where
  | primitive (identifier content : Octets)
  /-- An element around others, with the number of content octets that they encode to. -/
  | node (identifier : Octets) (children : List Value) (contentLength : Nat)
  deriving Repr

namespace Value

/-- The identifier octets. -/
def identifier : Value → Octets
  | .primitive identifier _ => identifier
  | .node identifier _ _ => identifier

/-- Whether the value is constructed. -/
def isConstructed : Value → Bool
  | .primitive _ _ => false
  | .node _ _ _ => true

/-- The content octets of a primitive value. -/
def content? : Value → Option Octets
  | .primitive _ content => some content
  | .node _ _ _ => none

/-- The children of a constructed value. -/
def children? : Value → Option (List Value)
  | .primitive _ _ => none
  | .node _ children _ => some children

/-- The number of content octets in the encoding of a value. -/
def contentLength : Value → Nat
  | .primitive _ content => content.length
  | .node _ _ contentLength => contentLength

/-- The number of octets in the encoding of a value. -/
def encodedLength (value : Value) : Nat :=
  value.identifier.length + Ber.Length.octetCount value.contentLength + value.contentLength

/-- The number of octets in the encodings of several values together. -/
def totalLength : List Value → Nat
  | [] => 0
  | value :: values => value.encodedLength + totalLength values

/-- The constructed value with the given children. -/
def constructed (identifier : Octets) (children : List Value) : Value :=
  .node identifier children (totalLength children)

mutual

/-- Every content length stored in the tree is the total length of the children it stands for. -/
def IsSized : Value → Prop
  | .primitive _ _ => True
  | .node _ children contentLength => contentLength = totalLength children ∧ AreSized children

/-- Every value of a list is sized. -/
def AreSized : List Value → Prop
  | [] => True
  | value :: values => value.IsSized ∧ AreSized values

end

mutual

/-- The number of values in a tree, its root included. -/
def count : Value → Nat
  | .primitive _ _ => 1
  | .node _ children _ => 1 + countAll children

/-- The number of values in the trees of a list. -/
def countAll : List Value → Nat
  | [] => 0
  | value :: values => value.count + countAll values

end

mutual

/-- The greatest number of constructed values on a path from the root. -/
def depth : Value → Nat
  | .primitive _ _ => 0
  | .node _ children _ => 1 + depthAll children

/-- The greatest depth in a list of trees. -/
def depthAll : List Value → Nat
  | [] => 0
  | value :: values => max value.depth (depthAll values)

end

mutual

/-- The values of a tree in document order, each with its level; the root is at `level`. -/
def preorder (level : Nat) : Value → List (Nat × Value)
  | .primitive identifier content => [(level, .primitive identifier content)]
  | .node identifier children contentLength =>
    (level, .node identifier children contentLength) :: preorderAll (level + 1) children

/-- The values of several trees in document order. -/
def preorderAll (level : Nat) : List Value → List (Nat × Value)
  | [] => []
  | value :: values => value.preorder level ++ preorderAll level values

end

mutual

/-- Whether two values are equal, decided level by level. -/
def decideEq : (v w : Value) → Decidable (v = w)
  | .primitive i c, .primitive j d =>
    if h : i = j ∧ c = d then .isTrue (by simp [h]) else .isFalse (by simpa using h)
  | .primitive _ _, .node _ _ _ => .isFalse (by simp)
  | .node _ _ _, .primitive _ _ => .isFalse (by simp)
  | .node i cs n, .node j ds m =>
    match decideEqAll cs ds with
    | .isTrue hcs =>
      if h : i = j ∧ n = m then .isTrue (by simp [h, hcs])
      else .isFalse (by simp only [node.injEq, not_and]; exact fun hi _ hn => h ⟨hi, hn⟩)
    | .isFalse hcs => .isFalse (by simp [hcs])

/-- Whether two lists of values are equal. -/
def decideEqAll : (vs ws : List Value) → Decidable (vs = ws)
  | [], [] => .isTrue rfl
  | [], _ :: _ => .isFalse (by simp)
  | _ :: _, [] => .isFalse (by simp)
  | v :: vs, w :: ws =>
    match decideEq v w with
    | .isTrue hv =>
      match decideEqAll vs ws with
      | .isTrue hvs => .isTrue (by rw [hv, hvs])
      | .isFalse hvs => .isFalse (by simp [hvs])
    | .isFalse hv => .isFalse (by simp [hv])

end

instance : DecidableEq Value := decideEq

@[simp] theorem identifier_constructed (identifier : Octets) (children : List Value) :
    (constructed identifier children).identifier = identifier := rfl

@[simp] theorem contentLength_constructed (identifier : Octets) (children : List Value) :
    (constructed identifier children).contentLength = totalLength children := rfl

@[simp] theorem totalLength_nil : totalLength [] = 0 := rfl

@[simp] theorem totalLength_cons (value : Value) (values : List Value) :
    totalLength (value :: values) = value.encodedLength + totalLength values := rfl

theorem totalLength_append (vs ws : List Value) :
    totalLength (vs ++ ws) = totalLength vs + totalLength ws := by
  induction vs with
  | nil => simp
  | cons v vs ih => simp [ih, Nat.add_assoc]

theorem countAll_append (vs ws : List Value) :
    countAll (vs ++ ws) = countAll vs + countAll ws := by
  induction vs with
  | nil => simp [countAll]
  | cons v vs ih => simp [countAll, ih, Nat.add_assoc]

theorem isSized_primitive (identifier content : Octets) :
    (primitive identifier content).IsSized := by
  simp [IsSized]

theorem isSized_constructed {identifier : Octets} {children : List Value}
    (h : AreSized children) : (constructed identifier children).IsSized := by
  simpa [constructed, IsSized] using h

end Value

end Asn1
