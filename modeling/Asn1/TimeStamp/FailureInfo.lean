import Asn1.Octets

/-!
# Failure reasons

A set of failure reasons is a bit string: an octet with the number of unused bits at the end, then
the bits, the most significant one of each octet first. Each reason has its bit; other bits may be
set in a bit string that was received, and are kept. `bits` is the list of the bits, apart from how
octets hold them.
-/

namespace Asn1.TimeStamp

/-- The reasons that have a bit of their own. -/
inductive FailureReason where
  | badAlg
  | badRequest
  | badDataFormat
  | timeNotAvailable
  | unacceptedPolicy
  | unacceptedExtension
  | addInfoNotAvailable
  | systemFailure
  deriving Repr, DecidableEq

namespace FailureReason

/-- The number of a reason's bit. -/
def bit : FailureReason → Nat
  | .badAlg => 0
  | .badRequest => 2
  | .badDataFormat => 5
  | .timeNotAvailable => 14
  | .unacceptedPolicy => 15
  | .unacceptedExtension => 16
  | .addInfoNotAvailable => 17
  | .systemFailure => 25

/-- All reasons in the order of their bits. -/
def all : List FailureReason :=
  [.badAlg, .badRequest, .badDataFormat, .timeNotAvailable, .unacceptedPolicy,
    .unacceptedExtension, .addInfoNotAvailable, .systemFailure]

/-- The one-word name of a reason. -/
def name : FailureReason → String
  | .badAlg => "BadAlg"
  | .badRequest => "BadRequest"
  | .badDataFormat => "BadDataFormat"
  | .timeNotAvailable => "TimeNotAvailable"
  | .unacceptedPolicy => "UnacceptedPolicy"
  | .unacceptedExtension => "UnacceptedExtension"
  | .addInfoNotAvailable => "AddInfoNotAvailable"
  | .systemFailure => "SystemFailure"

theorem mem_all (reason : FailureReason) : reason ∈ all := by
  cases reason <;> decide

end FailureReason

/-- A set of failure reasons, as the content octets of its bit string. -/
structure FailureInfo where
  content : Octets
  deriving Repr, DecidableEq

namespace FailureInfo

/-- The octet whose only set bit is the one with the given number, counted from the high end. -/
def mask (bit : Nat) : UInt8 :=
  0x80 >>> UInt8.ofNat bit

/-- The bit octets with the bit of a given number set as well. -/
def setBit (bits : Octets) (bit : Nat) : Octets :=
  bits.modify (bit / 8) (· ||| mask (bit % 8))

/-- The bit string of some reasons, as short as it can be: its last bit is the highest one set, and
without reasons it has no bits. -/
def ofReasons (reasons : List FailureReason) : FailureInfo :=
  match (reasons.map FailureReason.bit).max? with
  | none => ⟨[0]⟩
  | some highest =>
    let bits := List.replicate (highest / 8 + 1) 0
    ⟨UInt8.ofNat (7 - highest % 8) ::
      reasons.foldl (fun bits reason => setBit bits reason.bit) bits⟩

/-- Whether octets are the content of a bit string: the unused bits are fewer than eight, none
without bit octets, and they are clear. -/
def isBitString : Octets → Bool
  | [] => false
  | [unused] => unused == 0
  | unused :: bits =>
    unused < 8 && (bits.getLastD 0) &&& ((1 <<< unused) - 1) == 0

/-- The set with the given content octets, if they are a bit string. -/
def ofContent? (content : Octets) : Option FailureInfo :=
  if isBitString content then some ⟨content⟩ else none

/-- Whether a reason is in the set: its bit exists, is not unused, and is set. -/
def contains (info : FailureInfo) (reason : FailureReason) : Bool :=
  match info.content with
  | [] => false
  | unused :: bits =>
    if bits.length * 8 - min unused.toNat (bits.length * 8) ≤ reason.bit then
      false
    else
      (bits.getD (reason.bit / 8) 0) &&& mask (reason.bit % 8) != 0

/-- The reasons in the set, in the order of their bits. -/
def reasons (info : FailureInfo) : List FailureReason :=
  FailureReason.all.filter info.contains

/-- Whether a reason is in the set, if all octets that the look-up asks for are there. -/
def contains? (info : FailureInfo) (reason : FailureReason) : Option Bool := do
  let unused ← info.content[0]?
  let bits := info.content.drop 1
  if bits.length * 8 - min unused.toNat (bits.length * 8) ≤ reason.bit then
    return false
  else
    let octet ← bits[reason.bit / 8]?
    return octet &&& mask (reason.bit % 8) != 0

/-- The bits of an octet, the most significant one first. -/
def octetBits (octet : UInt8) : List Bool :=
  (List.range 8).map fun number => octet.toNat.testBit (7 - number)

/-- The bits of the set by their numbers, without the unused ones. -/
def bits (info : FailureInfo) : List Bool :=
  match info.content with
  | [] => []
  | unused :: octets => (octets.flatMap octetBits).take (octets.length * 8 - unused.toNat)

end FailureInfo

end Asn1.TimeStamp
