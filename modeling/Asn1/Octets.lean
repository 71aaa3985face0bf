/-!
# Octets

An octet string is a list of octets. `toNat` reads one as a big-endian number, `ofNat` writes a
number into a given count of octets, and `significant` counts the octets a number needs.
-/

namespace Asn1

/-- An octet string. -/
abbrev Octets := List UInt8

namespace Octets

/-- The big-endian value of an octet string; the empty one is zero. -/
def toNat (octets : Octets) : Nat :=
  octets.foldl (fun n octet => n * 256 + octet.toNat) 0

/-- The last `width` big-endian octets of a number, zero octets in front where it is short. -/
def ofNat : (width n : Nat) → Octets
  | 0, _ => []
  | width + 1, n => ofNat width (n / 256) ++ [UInt8.ofNat n]

/-- The number of big-endian octets of a number without leading zero octets, none for zero. -/
def significant (n : Nat) : Nat :=
  if n = 0 then 0 else n.log2 / 8 + 1

@[simp] theorem toNat_nil : toNat [] = 0 := rfl

theorem toNat_concat (octets : Octets) (octet : UInt8) :
    toNat (octets ++ [octet]) = toNat octets * 256 + octet.toNat := by
  simp [toNat]

/-- The high bit of an octet is worth 128, and the other bits are worth less. -/
theorem and_0x80_iff (octet : UInt8) : octet &&& 0x80 = 0x80 ↔ 128 ≤ octet.toNat := by
  have h : ∀ n : Fin 256, UInt8.ofFin n &&& 0x80 = 0x80 ↔ 128 ≤ (UInt8.ofFin n).toNat := by
    decide +kernel
  exact h octet.toFin

@[simp] theorem length_ofNat (width n : Nat) : (ofNat width n).length = width := by
  induction width generalizing n with
  | zero => rfl
  | succ width ih => simp [ofNat, ih]

end Octets

end Asn1
