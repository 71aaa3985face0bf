import Mathlib.Data.List.Induction
import Mathlib.Tactic.Ring
import Asn1.Octets

/-!
# Big-endian numbers

An octet string of a given width and the number below `256 ^ width` that it stands for determine
each other: `toNat_ofNat` and `ofNat_toNat`. The octets a number needs are counted by
`significant_le_iff`, and an octet string without a leading zero octet has just that many.
-/

namespace Asn1.Octets

theorem toNat_append (front back : Octets) :
    toNat (front ++ back) = toNat front * 256 ^ back.length + toNat back := by
  induction back using List.reverseRecOn with
  | nil => simp
  | append_singleton back octet ih =>
    rw [← List.append_assoc, toNat_concat, ih, toNat_concat, List.length_append,
      List.length_singleton, pow_succ]
    ring

theorem toNat_cons (octet : UInt8) (octets : Octets) :
    toNat (octet :: octets) = octet.toNat * 256 ^ octets.length + toNat octets := by
  have h : toNat [octet] = octet.toNat := by simp [toNat]
  rw [← h, ← toNat_append]
  rfl

theorem toNat_lt (octets : Octets) : toNat octets < 256 ^ octets.length := by
  induction octets using List.reverseRecOn with
  | nil => simp
  | append_singleton octets octet ih =>
    have hoctet := octet.toNat_lt
    rw [toNat_concat, List.length_append, List.length_singleton, pow_succ]
    omega

/-- A number that fits is read back from its octets. -/
theorem toNat_ofNat {width n : Nat} (h : n < 256 ^ width) : toNat (ofNat width n) = n := by
  induction width generalizing n with
  | zero =>
    have hn : n = 0 := by simpa using h
    subst hn
    rfl
  | succ width ih =>
    have hquot : n / 256 < 256 ^ width := by
      apply Nat.div_lt_of_lt_mul
      rwa [mul_comm, ← pow_succ]
    rw [ofNat, toNat_concat, ih hquot, UInt8.toNat_ofNat']
    omega

/-- Octets are written back from their number, leading zero octets included. -/
theorem ofNat_toNat (octets : Octets) : ofNat octets.length (toNat octets) = octets := by
  induction octets using List.reverseRecOn with
  | nil => rfl
  | append_singleton octets octet ih =>
    have hoctet := octet.toNat_lt
    have hquot : (toNat octets * 256 + octet.toNat) / 256 = toNat octets := by omega
    have hlast : UInt8.ofNat (toNat octets * 256 + octet.toNat) = octet := by
      apply UInt8.toNat_inj.mp
      rw [UInt8.toNat_ofNat']
      omega
    rw [List.length_append, List.length_singleton, toNat_concat, ofNat, hquot, ih, hlast]

/-! ## How many octets a number needs -/

theorem significant_le_iff {n width : Nat} : significant n ≤ width ↔ n < 256 ^ width := by
  unfold significant
  split
  · rename_i hn
    simp [hn]
  · rename_i hn
    have hpow : (256 : Nat) ^ width = 2 ^ (8 * width) := by
      rw [pow_mul]
      rfl
    rw [hpow, ← Nat.log2_lt hn]
    omega

theorem lt_pow_significant (n : Nat) : n < 256 ^ significant n :=
  significant_le_iff.mp (Nat.le_refl _)

theorem significant_mono {m n : Nat} (h : m ≤ n) : significant m ≤ significant n :=
  significant_le_iff.mpr (Nat.lt_of_le_of_lt h (lt_pow_significant n))

/-- The number of an octet string needs no more octets than are there. -/
theorem significant_toNat_le (octets : Octets) : significant (toNat octets) ≤ octets.length :=
  significant_le_iff.mpr (toNat_lt octets)

/-- It needs them all exactly when the first one is not zero. -/
theorem significant_toNat_cons_iff (octet : UInt8) (octets : Octets) :
    significant (toNat (octet :: octets)) = octets.length + 1 ↔ octet ≠ 0 := by
  have hle := significant_toNat_le (octet :: octets)
  have hshort : significant (toNat (octet :: octets)) ≤ octets.length ↔ octet = 0 := by
    rw [significant_le_iff, toNat_cons]
    constructor
    · intro h
      by_contra hne
      have hpos : 1 ≤ octet.toNat :=
        Nat.pos_of_ne_zero fun h0 => hne (UInt8.toNat_inj.mp h0)
      have := Nat.mul_le_mul_right (256 ^ octets.length) hpos
      omega
    · rintro rfl
      simpa using toNat_lt octets
  rw [List.length_cons] at hle
  rw [Ne, ← hshort]
  omega

end Asn1.Octets
