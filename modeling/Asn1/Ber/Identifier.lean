import Asn1.Octets

/-!
# Identifier octets

The identifier of an element is one octet, or, when its low five bits are all set, that octet
followed by any number of octets with the high bit set and a last octet with the high bit clear.
Bit six of the first octet tells a constructed element from a primitive one. What each test of bits
says of the number of an octet stands beside it.
-/

namespace Asn1.Ber.Identifier

/-- Whether more identifier octets follow the first one: its low five bits are all set. -/
def isLong (first : UInt8) : Bool :=
  first &&& 0x1f == 0x1f

theorem isLong_iff {first : UInt8} : isLong first = true ↔ first.toNat % 32 = 31 := by
  have hlow : first.toNat &&& 31 = first.toNat % 32 :=
    Nat.and_two_pow_sub_one_eq_mod first.toNat 5
  rw [isLong, beq_iff_eq, ← UInt8.toNat_inj, UInt8.toNat_and, ← hlow]
  rfl

/-- Whether another identifier octet follows this one, which is not the first: its high bit is
set. -/
def continues (octet : UInt8) : Bool :=
  octet &&& 0x80 == 0x80

theorem continues_iff {octet : UInt8} : continues octet = true ↔ 128 ≤ octet.toNat := by
  rw [continues, beq_iff_eq, Octets.and_0x80_iff]

/-- Whether identifier octets announce a constructed element. -/
def isConstructed : Octets → Bool
  | [] => false
  | first :: _ => first &&& 0x20 == 0x20

/-- The bit that tells a constructed element is bit six of the first octet. -/
theorem isConstructed_eq (identifier : Octets) :
    isConstructed identifier = identifier.head?.any fun first => first.toNat.testBit 5 := by
  cases identifier with
  | nil => rfl
  | cons first rest =>
    have h : ∀ n : Fin 256, (UInt8.ofFin n &&& 0x20 == 0x20) = (UInt8.ofFin n).toNat.testBit 5 := by
      decide +kernel
    exact h first.toFin

/-- Splits octets into a leading identifier and what follows it; `none` when they end first. -/
def split? : Octets → Option (Octets × Octets)
  | [] => none
  | first :: rest =>
    if isLong first then
      match rest.dropWhile continues with
      | [] => none
      | last :: tail => some (first :: (rest.takeWhile continues ++ [last]), tail)
    else
      some ([first], rest)

/-- An identifier and what follows it make up the octets, and an identifier is not empty. -/
theorem eq_append_of_split? {octets identifier tail : Octets}
    (h : split? octets = some (identifier, tail)) :
    octets = identifier ++ tail ∧ identifier ≠ [] := by
  cases octets with
  | nil => simp [split?] at h
  | cons first rest =>
    simp only [split?] at h
    split at h
    · split at h
      · simp at h
      · rename_i last rest' hrest
        simp only [Option.some.injEq, Prod.mk.injEq] at h
        obtain ⟨rfl, rfl⟩ := h
        have := List.takeWhile_append_dropWhile (p := continues) (l := rest)
        rw [hrest] at this
        simp [this]
    · simp only [Option.some.injEq, Prod.mk.injEq] at h
      obtain ⟨rfl, rfl⟩ := h
      simp

end Asn1.Ber.Identifier
