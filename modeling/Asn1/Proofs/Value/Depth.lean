import Asn1.Proofs.Value.Limit

/-!
# The limit on nesting

A limit changes what is decoded in one way only: it refuses, and with the one error that tells the
limit. A refusal for anything else is the same under every larger limit (`Refusal.mono`), so is a
success, and a good element is refused exactly when it nests deeper than the limit
(`decode_of_isElement`).
-/

namespace Asn1.Value

open Ber

variable {limit limit' : Nat} {input : Octets} {value : Value} {error : Error}

/-! ## Larger limits -/

/-- A fault that is not one of the limit comes first under a larger limit, too. -/
theorem Fault.mono {depth : Nat} {content : Octets} (h : Fault limit depth content error)
    (hne : error ≠ .nestingTooDeep limit) (hle : limit ≤ limit') :
    Fault limit' depth content error := by
  induction h with
  | header hmore hparse => exact .header hmore hparse
  | tooDeep => exact absurd rfl hne
  | inside hparse hbit hroom _ ih =>
    exact .inside hparse hbit (Nat.lt_of_lt_of_le hroom hle) (ih hne)
  | @behind depth head tail value error hhead hdepth _ ih =>
    have hroom := Nat.sub_le_sub_right hle depth
    exact .behind hhead (Nat.le_trans hdepth hroom) (ih hne)

theorem Refusal.mono (h : Refusal limit input error) (hne : error ≠ .nestingTooDeep limit)
    (hle : limit ≤ limit') : Refusal limit' input error := by
  cases h with
  | header hparse => exact .header hparse
  | tooDeep _ _ hzero => exact absurd (hzero ▸ rfl) hne
  | inside hparse hbit hroom hinside =>
    exact .inside hparse hbit (Nat.lt_of_lt_of_le hroom hle) (hinside.mono hne hle)
  | trailing hhead hdepth hmore => exact .trailing hhead (Nat.le_trans hdepth hle) hmore

/-! ## Good elements -/

/-- Elements inside another one are read if they fit under the limit, and refused for it if they do
not. -/
theorem descendAll_of_areElements {octets : Octets} {values : List Value}
    (h : AreElements octets values) (limit depth : Nat) :
    descendAll limit depth octets =
      if depthAll values ≤ limit - depth then .ok values else .error (.nestingTooDeep limit) := by
  by_cases hdepth : depthAll values ≤ limit - depth
  · rw [if_pos hdepth]
    exact descendAll_eq_ok_iff.mpr ⟨h, hdepth⟩
  · rw [if_neg hdepth]
    cases hread : descendAll limit depth octets with
    | ok values' =>
      obtain ⟨h', hdepth'⟩ := descendAll_eq_ok_iff.mp hread
      exact absurd (areElements_unique h h' ▸ hdepth') hdepth
    | error error =>
      -- Any other fault would be there under a limit that has room for the elements.
      by_contra hother
      have hne : error ≠ .nestingTooDeep limit := fun heq => hother (heq ▸ rfl)
      have hroom : descendAll (limit + depth + depthAll values) depth octets = .ok values :=
        descendAll_eq_ok_iff.mpr ⟨h, by omega⟩
      rw [descendAll_of_fault ((fault_of_descendAll hread).mono hne (by omega))] at hroom
      cases hroom

/-- A good element is decoded to its value if it nests within the limit. If it does not, the limit
is what it is refused for. -/
theorem decode_of_isElement (h : IsElement input value) (limit : Nat) :
    decode input limit =
      if value.depth ≤ min limit depthCap then .ok value
      else .error (.nestingTooDeep (min limit depthCap)) := by
  obtain ⟨header, content, hparse, hlen, hvalue⟩ := parse_of_isElement h []
  rw [List.append_nil, List.append_nil] at hparse
  cases hvalue with
  | primitive hbit =>
    have hdepth : (primitive header.identifier content).depth ≤ min limit depthCap := Nat.zero_le _
    rw [if_pos hdepth]
    exact decode_eq_ok_iff.mpr ⟨h, hdepth⟩
  | @constructed children hbit hchildren =>
    rw [depth_constructed]
    rcases Nat.eq_zero_or_pos (min limit depthCap) with hzero | hroom
    · rw [decode_eq_descend, descend_tooDeep hparse hbit hzero, hzero, if_neg (by omega)]
    · rw [decode_of_parse hparse hbit hlen hroom, descendAll_of_areElements hchildren]
      by_cases hdepth : depthAll children ≤ min limit depthCap - 1
      · rw [if_pos hdepth, if_pos (Nat.add_le_of_le_sub' hroom hdepth)]
        rfl
      · rw [if_neg hdepth, if_neg (by omega)]
        rfl

/-- Under a larger limit nothing changes for an input that is not refused for its nesting. An input
that is one element succeeds just when no more constructed values nest in it than the limit and the
cap allow; otherwise it is refused, and the refusal tells the limit. -/
theorem limit_only_cuts (x : Octets) :
    (∀ m₁ m₂, (∀ limit, decode x m₁ ≠ .error (.nestingTooDeep limit)) →
        min m₁ depthCap ≤ min m₂ depthCap → decode x m₂ = decode x m₁) ∧
      ∀ value, IsElement x value → ∀ m,
        (decode x m = .ok value ↔ value.depth ≤ min m depthCap) ∧
          (¬ value.depth ≤ min m depthCap →
            decode x m = .error (.nestingTooDeep (min m depthCap))) := by
  constructor
  · intro m₁ m₂ hother hle
    cases hdecode : decode x m₁ with
    | ok value =>
      obtain ⟨helement, hdepth⟩ := decode_eq_ok_iff.mp hdecode
      exact decode_eq_ok_iff.mpr ⟨helement, Nat.le_trans hdepth hle⟩
    | error error =>
      have hne : error ≠ .nestingTooDeep (min m₁ depthCap) := fun heq => hother _ (heq ▸ hdecode)
      exact decode_eq_error_iff.mpr ((decode_eq_error_iff.mp hdecode).mono hne hle)
  · intro value helement m
    rw [decode_of_isElement helement m]
    by_cases hdepth : value.depth ≤ min m depthCap
    · simp [hdepth]
    · simp [hdepth]

/-- Three nested elements are read under every limit from three on. Where the innermost one holds an
octet that is no element, it is refused for that octet under every limit that reaches it. -/
theorem limit_only_cuts_nested :
    IsElement [0x30, 4, 0x30, 2, 0x30, 0]
        (constructed [0x30] [constructed [0x30] [constructed [0x30] []]]) ∧
      decode [0x30, 4, 0x30, 2, 0x30, 0] 5000 =
        .ok (constructed [0x30] [constructed [0x30] [constructed [0x30] []]]) ∧
      decode [0x30, 4, 0x30, 2, 0x30, 0] 2 = .error (.nestingTooDeep 2) ∧
      decode [0x30, 5, 0x30, 3, 0x30, 1, 5] 2 = .error (.nestingTooDeep 2) ∧
      decode [0x30, 5, 0x30, 3, 0x30, 1, 5] 3 = .error .lengthMismatch ∧
      decode [0x30, 5, 0x30, 3, 0x30, 1, 5] 5000 = .error .lengthMismatch := by
  have hread : decode [0x30, 4, 0x30, 2, 0x30, 0] 3 =
      .ok (constructed [0x30] [constructed [0x30] [constructed [0x30] []]]) := by
    cbv
  have hcut : decode [0x30, 5, 0x30, 3, 0x30, 1, 5] 2 = .error (.nestingTooDeep 2) := by
    cbv
  have hfault : decode [0x30, 5, 0x30, 3, 0x30, 1, 5] 3 = .error .lengthMismatch := by
    cbv
  have hother : ∀ limit, decode [0x30, 5, 0x30, 3, 0x30, 1, 5] 3 ≠
      .error (.nestingTooDeep limit) := by
    simp [hfault]
  have helement := (decode_eq_ok_iff.mp hread).1
  obtain ⟨-, hgood⟩ := limit_only_cuts [0x30, 4, 0x30, 2, 0x30, 0]
  obtain ⟨hlarger, -⟩ := limit_only_cuts [0x30, 5, 0x30, 3, 0x30, 1, 5]
  refine ⟨helement, (hgood _ helement 5000).1.mpr (by decide), ?_, hcut, hfault, ?_⟩
  · exact (hgood _ helement 2).2 (by decide)
  · rw [hlarger 3 5000 hother (by decide), hfault]

end Asn1.Value
