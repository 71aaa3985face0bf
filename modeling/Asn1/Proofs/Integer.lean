import Asn1.Integer
import Asn1.Proofs.Octets

/-!
# Two's complement

The value of content octets is their big-endian number, less a power of 256 where the sign bit is
set (`value_cons`), which is the number of their bits as a signed integer
(`value_eq_twosComplement`). Up to eight octets hold numbers of 64 bits, so decoding them gives the
value (`toInt_of_decode?`). Minimal content of a number that one octet can hold is a single octet
(`length_of_isMinimal`).
-/

namespace Asn1.Integer

open Octets

/-- No octet in front only repeats the sign. -/
def IsMinimal : Octets → Prop
  | first :: second :: _ => isRedundant first second = false
  | _ => True

theorem isNegative_eq (octet : UInt8) : isNegative octet = decide (128 ≤ octet.toNat) := by
  rw [Bool.eq_iff_iff, isNegative, beq_iff_eq, and_0x80_iff, decide_eq_true_iff]

theorem foldl_eq (octets : Octets) (sign : Int) :
    octets.foldl (fun n octet => n * 256 + (octet.toNat : Int)) sign =
      sign * (256 ^ octets.length : Nat) + (toNat octets : Nat) := by
  induction octets using List.reverseRecOn with
  | nil => simp
  | append_singleton octets octet ih =>
    rw [List.foldl_append, List.foldl_cons, List.foldl_nil, ih, toNat_concat, List.length_append,
      List.length_singleton, pow_succ]
    push_cast
    ring

theorem value_cons (first : UInt8) (rest : Octets) :
    value (first :: rest) = ((first.toNat * 256 ^ rest.length + toNat rest : Nat) : Int) -
      if 128 ≤ first.toNat then ((256 * 256 ^ rest.length : Nat) : Int) else 0 := by
  rw [value, foldl_eq, toNat_cons, List.length_cons, pow_succ, Nat.mul_comm 256, isNegative_eq]
  by_cases hneg : 128 ≤ first.toNat
  · simp only [hneg, decide_true, if_true]
    ring
  · simp only [hneg, decide_false, Bool.false_eq_true, if_false]
    ring

/-- Content octets hold the numbers that so many octets have room for. -/
theorem value_bounds (first : UInt8) (rest : Octets) :
    -((128 * 256 ^ rest.length : Nat) : Int) ≤ value (first :: rest) ∧
      value (first :: rest) < ((128 * 256 ^ rest.length : Nat) : Int) := by
  have hfirst := first.toNat_lt
  have hrest := toNat_lt rest
  rw [value_cons]
  generalize 256 ^ rest.length = p at *
  by_cases hneg : 128 ≤ first.toNat
  · have hlow := Nat.mul_le_mul_right p hneg
    have hhigh := Nat.mul_le_mul_right p (Nat.le_of_lt_succ hfirst)
    rw [if_pos hneg]
    omega
  · have hhigh := Nat.mul_le_mul_right p (Nat.le_of_lt_succ (Nat.not_le.mp hneg))
    rw [if_neg hneg]
    omega

/-- Eight octets are as many as 64 bits, so nothing is lost. -/
theorem toInt_of_decode? {content : Octets} {n : Int64} (h : decode? content = some n) :
    n.toInt = value content := by
  rw [decode?] at h
  split at h
  · cases h
  · rename_i hlen
    cases h
    obtain ⟨first, rest, rfl⟩ : ∃ first rest, content = first :: rest := by
      cases content with
      | nil => simp at hlen
      | cons first rest => exact ⟨_, _, rfl⟩
    obtain ⟨hlow, hhigh⟩ := value_bounds first rest
    have hwidth : 256 ^ rest.length ≤ 256 ^ 7 := by
      apply Nat.pow_le_pow_right (by decide)
      simp only [List.length_cons] at hlen
      omega
    apply Int64.toInt_ofInt_of_le
    · omega
    · omega

/-- Reading content octets gives the number of their bits as a signed integer. -/
theorem value_eq_twosComplement (content : Octets) : value content = twosComplement content := by
  cases content with
  | nil => rfl
  | cons first rest =>
    have hrest := toNat_lt rest
    have hnat := toNat_lt (first :: rest)
    have hwidth : 2 ^ (8 * (first :: rest).length) = 256 ^ (first :: rest).length :=
      pow_mul 2 8 _
    rw [twosComplement, BitVec.toInt_eq_toNat_cond, BitVec.toNat_ofNat, hwidth,
      Nat.mod_eq_of_lt hnat, value_cons, toNat_cons, List.length_cons, pow_succ, Nat.mul_comm _ 256]
    generalize 256 ^ rest.length = p at *
    -- The sign bit is set just when the number is in the upper half of those with so many bits.
    by_cases hneg : 128 ≤ first.toNat
    · have hhalf := Nat.mul_le_mul_right p hneg
      rw [if_pos hneg, if_neg (by omega)]
    · have hhalf := Nat.mul_le_mul_right p (Nat.le_of_lt_succ (Nat.not_le.mp hneg))
      rw [if_neg hneg, if_pos (by omega), Int.sub_zero]

/-- One to eight content octets are decoded, and to the number they stand for. -/
theorem exists_decode?_iff {content : Octets} {n : Int} :
    (∃ code, decode? content = some code ∧ code.toInt = n) ↔
      1 ≤ content.length ∧ content.length ≤ 8 ∧ twosComplement content = n := by
  rw [← value_eq_twosComplement]
  constructor
  · rintro ⟨code, hdecode, rfl⟩
    have hvalue := toInt_of_decode? hdecode
    rw [decode?] at hdecode
    split at hdecode
    · cases hdecode
    · rename_i hlen
      rw [List.isEmpty_iff_length_eq_zero] at hlen
      exact ⟨by omega, by omega, hvalue.symm⟩
  · rintro ⟨hmin, hmax, rfl⟩
    have hlen : ¬ (content.isEmpty = true ∨ 8 < content.length) := by
      rw [List.isEmpty_iff_length_eq_zero]
      omega
    have hdecode : decode? content = some (Int64.ofInt (value content)) := by
      rw [decode?, if_neg hlen]
    exact ⟨_, hdecode, toInt_of_decode? hdecode⟩

/-- For a number that the other octets have room for, the first one is redundant. -/
theorem isRedundant_of_bounds {first second : UInt8} {rest : Octets}
    (hlow : -((128 * 256 ^ rest.length : Nat) : Int) ≤ value (first :: second :: rest))
    (hhigh : value (first :: second :: rest) < ((128 * 256 ^ rest.length : Nat) : Int)) :
    isRedundant first second = true := by
  have hfirst := first.toNat_lt
  have hsecond := second.toNat_lt
  have hrest := toNat_lt rest
  rw [value_cons, toNat_cons, List.length_cons, pow_succ, ← Nat.mul_assoc] at hlow hhigh
  simp only [isRedundant, isNegative_eq]
  generalize 256 ^ rest.length = p at *
  by_cases hneg : 128 ≤ first.toNat
  · rw [if_pos hneg] at hlow hhigh
    have hfull : first.toNat = 255 := by
      by_contra hne
      have := Nat.mul_le_mul_right p (show first.toNat ≤ 254 by omega)
      have := Nat.mul_le_mul_right p (show second.toNat ≤ 255 by omega)
      omega
    have hsign : 128 ≤ second.toNat := by
      by_contra hlt
      have := Nat.mul_le_mul_right p (show second.toNat ≤ 127 by omega)
      rw [hfull] at hlow
      omega
    have hff : first = 0xff := UInt8.toNat_inj.mp hfull
    simp [hff, hsign]
  · rw [if_neg hneg] at hlow hhigh
    have hzero : first.toNat = 0 := by
      by_contra hne
      have := Nat.mul_le_mul_right p (show 1 ≤ first.toNat by omega)
      omega
    have hsign : ¬ 128 ≤ second.toNat := by
      intro hge
      have := Nat.mul_le_mul_right p hge
      omega
    have h0 : first = 0 := UInt8.toNat_inj.mp hzero
    simp [h0, Nat.not_le.mp hsign]

/-- Minimal content of a small number is a single octet. -/
theorem length_of_isMinimal {content : Octets} (h : IsMinimal content) (hne : content ≠ [])
    (hlow : -128 ≤ value content) (hhigh : value content < 128) : content.length = 1 := by
  match content, h with
  | [], _ => exact absurd rfl hne
  | [first], _ => rfl
  | first :: second :: rest, h =>
    have hpos : 0 < 256 ^ rest.length := Nat.pow_pos (by decide)
    have hlow' : -((128 * 256 ^ rest.length : Nat) : Int) ≤ value (first :: second :: rest) := by
      omega
    have hhigh' : value (first :: second :: rest) < ((128 * 256 ^ rest.length : Nat) : Int) := by
      omega
    rw [IsMinimal, isRedundant_of_bounds hlow' hhigh'] at h
    cases h

end Asn1.Integer
