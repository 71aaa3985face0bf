import Asn1.Proofs.Value.Decode

/-!
# Inputs that end early or go on

Whether an input ends early is decided by its outermost header alone, under every limit
(`decode_eq_earlyEof_iff`). So what is cut off from an element is missed, and what is added behind
one is found to be too much (`decode_of_cut`, `decode_append`). Octets are too many only behind an
element that is accepted (`exists_front_of_trailing`).
-/

namespace Asn1.Value

open Ber

variable {limit : Nat} {input front back : Octets} {value : Value}

/-- A proper prefix is what is left when some octets are cut off at the end. -/
theorem isPrefix_and_ne_iff : front <+: input ∧ front ≠ input ↔
    ∃ back, back ≠ [] ∧ input = front ++ back := by
  constructor
  · rintro ⟨⟨back, rfl⟩, hne⟩
    refine ⟨back, ?_, rfl⟩
    rintro rfl
    exact hne (List.append_nil front).symm
  · rintro ⟨back, hne, rfl⟩
    exact ⟨List.prefix_append front back, fun heq => hne (List.self_eq_append_right.mp heq)⟩

theorem decode_eq_earlyEof_iff :
    decode input limit = .error .earlyEof ↔ Header.parse input = .error .earlyEof := by
  rw [decode_eq_error_iff, refusal_earlyEof_iff]

/-- What comes before the cut is refused under every limit. -/
theorem decode_of_cut (h : decode (front ++ back) limit = .ok value) (hne : back ≠ [])
    (limit' : Nat) : decode front limit' = .error .earlyEof := by
  obtain ⟨header, content, hparse, hlen, -⟩ := parse_of_isElement (decode_eq_ok_iff.mp h).1 []
  rw [List.append_nil, List.append_nil] at hparse
  exact decode_eq_earlyEof_iff.mpr (Header.parse_of_cut hparse hlen hne)

theorem decode_append (h : decode front limit = .ok value) (hne : back ≠ []) :
    decode (front ++ back) limit = .error .trailingData := by
  obtain ⟨helement, hdepth⟩ := decode_eq_ok_iff.mp h
  exact decode_eq_error_iff.mpr (.trailing helement hdepth hne)

/-- Octets are left over behind an element that is accepted under the same limit. -/
theorem exists_front_of_trailing (h : decode input limit = .error .trailingData) :
    ∃ front back value, back ≠ [] ∧ input = front ++ back ∧ decode front limit = .ok value := by
  have hrefusal := decode_eq_error_iff.mp h
  cases hrefusal with
  | header hparse => simpa using Header.error_of_parse hparse
  | inside _ _ _ hinside => simpa using hinside.error_cases
  | @trailing head tail value hhead hdepth hmore =>
    exact ⟨head, tail, value, hmore, rfl, decode_eq_ok_iff.mpr ⟨hhead, hdepth⟩⟩

end Asn1.Value
