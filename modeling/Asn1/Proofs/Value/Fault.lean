import Asn1.Proofs.Value.Descent

/-!
# The first fault

Why a decoding is refused, said of the octets alone. A fault lies behind faultless elements, in a
header, in an element without room for it, or inside an element; the first one in document order
decides the error. `descend_eq_error_iff` says that the descent finds just that one.
-/

namespace Asn1.Value

open Ber

/-- The first fault in the content of an element, with `depth` constructed elements around that
content, and the error it is refused with. -/
inductive Fault (limit : Nat) : (depth : Nat) → (content : Octets) → Error → Prop
  /-- The header at the front is no good; one that ends early runs over the element around it. -/
  | header {depth : Nat} {content : Octets} {error : Error} (hmore : content ≠ [])
      (hparse : Header.parse content = .error error) : Fault limit depth content error.within
  /-- A constructed element is at the front and there is no room for it. -/
  | tooDeep {depth : Nat} {content rest : Octets} {header : Header}
      (hparse : Header.parse content = .ok (header, rest)) (hbit : header.isConstructed = true)
      (hdeep : limit ≤ depth) : Fault limit depth content (.nestingTooDeep limit)
  /-- The fault is inside the element at the front. -/
  | inside {depth : Nat} {content rest : Octets} {header : Header} {error : Error}
      (hparse : Header.parse content = .ok (header, rest)) (hbit : header.isConstructed = true)
      (hroom : depth < limit)
      (hinside : Fault limit (depth + 1) (rest.take header.contentLength) error) :
      Fault limit depth content error
  /-- The element at the front is without fault, and the fault is behind it. -/
  | behind {depth : Nat} {head tail : Octets} {value : Value} {error : Error}
      (hhead : IsElement head value) (hdepth : value.depth ≤ limit - depth)
      (htail : Fault limit depth tail error) : Fault limit depth (head ++ tail) error

/-- Why an input is refused that should be one element. -/
inductive Refusal (limit : Nat) : Octets → Error → Prop
  /-- The outermost header is no good. -/
  | header {input : Octets} {error : Error} (hparse : Header.parse input = .error error) :
      Refusal limit input error
  /-- The outermost element is constructed, and none may be. -/
  | tooDeep {input rest : Octets} {header : Header}
      (hparse : Header.parse input = .ok (header, rest)) (hbit : header.isConstructed = true)
      (hzero : limit = 0) : Refusal limit input (.nestingTooDeep 0)
  /-- There is a fault inside the outermost element. -/
  | inside {input rest : Octets} {header : Header} {error : Error}
      (hparse : Header.parse input = .ok (header, rest)) (hbit : header.isConstructed = true)
      (hroom : 0 < limit) (hinside : Fault limit 1 (rest.take header.contentLength) error) :
      Refusal limit input error
  /-- The outermost element is without fault, and octets follow it. -/
  | trailing {head tail : Octets} {value : Value} (hhead : IsElement head value)
      (hdepth : value.depth ≤ limit) (hmore : tail ≠ []) :
      Refusal limit (head ++ tail) .trailingData

/-! ## Which errors there are -/

theorem Fault.error_cases {limit depth : Nat} {content : Octets} {error : Error}
    (h : Fault limit depth content error) :
    error = .lengthMismatch ∨ error = .indefiniteLength ∨ error = .unsupportedLength ∨
      error = .nestingTooDeep limit := by
  induction h with
  | header _ hparse =>
    rcases Header.error_of_parse hparse with rfl | rfl | rfl
    · exact .inl rfl
    · exact .inr (.inl rfl)
    · exact .inr (.inr (.inl rfl))
  | tooDeep => exact .inr (.inr (.inr rfl))
  | inside _ _ _ _ ih => exact ih
  | behind _ _ _ ih => exact ih

/-- An input ends early only at its outermost header. -/
theorem refusal_earlyEof_iff {limit : Nat} {input : Octets} :
    Refusal limit input .earlyEof ↔ Header.parse input = .error .earlyEof := by
  constructor
  · intro h
    cases h with
    | header hparse => exact hparse
    | inside _ _ _ hinside => simpa using hinside.error_cases
  · exact .header

theorem Refusal.error_cases {limit : Nat} {input : Octets} {error : Error}
    (h : Refusal limit input error) :
    error = .earlyEof ∨ error = .trailingData ∨ error = .lengthMismatch ∨
      error = .indefiniteLength ∨ error = .unsupportedLength ∨ error = .nestingTooDeep limit := by
  cases h with
  | header hparse =>
    rcases Header.error_of_parse hparse with rfl | rfl | rfl
    · exact .inl rfl
    · exact .inr (.inr (.inr (.inl rfl)))
    · exact .inr (.inr (.inr (.inr (.inl rfl))))
  | tooDeep _ _ hzero =>
    rw [hzero]
    exact .inr (.inr (.inr (.inr (.inr rfl))))
  | inside _ _ _ hinside => exact .inr (.inr hinside.error_cases)
  | trailing => exact .inr (.inl rfl)

/-! ## Inside an element -/

theorem descendAll_of_fault {limit depth : Nat} {content : Octets} {error : Error}
    (h : Fault limit depth content error) : descendAll limit depth content = .error error := by
  induction h with
  | header hmore hparse => exact descendAll_refused hmore hparse
  | tooDeep hparse hbit hdeep => exact descendAll_tooDeep hparse hbit hdeep
  | inside hparse hbit hroom _ ih =>
    rw [descendAll_constructed hparse hbit hroom, ih]
    rfl
  | behind hhead hdepth _ ih =>
    rw [descendAll_append_of_isElement hhead hdepth, ih]
    rfl

/-- A fault behind the element at the front is one of the whole content. -/
theorem Fault.behind_of_parse {limit depth : Nat} {content rest : Octets} {header : Header}
    {value : Value} {error : Error} (hparse : Header.parse content = .ok (header, rest))
    (hvalue : header.Holds (rest.take header.contentLength) value)
    (hdepth : value.depth ≤ limit - depth)
    (htail : Fault limit depth (rest.drop header.contentLength) error) :
    Fault limit depth content error := by
  obtain ⟨head, hhead, rfl⟩ := exists_isElement_of_parse hparse hvalue
  exact .behind hhead hdepth htail

theorem fault_of_descendAll {limit depth : Nat} {content : Octets} {error : Error}
    (h : descendAll limit depth content = .error error) : Fault limit depth content error := by
  fun_induction descendAll limit depth content generalizing error with
  | case1 => simp at h
  | case2 depth content hne error' hparse =>
    cases h
    exact .header (by simpa using hne) hparse
  | case3 depth content hne header rest hparse hbit hdeep =>
    cases h
    exact .tooDeep hparse hbit hdeep
  | case4 depth content hne header rest hparse hbit hdeep ihchildren ihvalues =>
    -- The children come before what is behind the element, and so do their faults.
    rcases bind_eq_error.mp h with hchildren | ⟨children, hchildren, h⟩
    · exact .inside hparse hbit (Nat.not_le.mp hdeep) (ihchildren hchildren)
    · obtain ⟨hinner, hdepth⟩ := descendAll_sound hchildren
      rcases bind_eq_error.mp h with hvalues | ⟨others, _, h⟩
      · refine .behind_of_parse hparse (.constructed hbit hinner) ?_ (ihvalues hvalues)
        rw [depth_constructed]
        omega
      · cases h
  | case5 depth content hne header rest hparse hbit ihvalues =>
    rcases bind_eq_error.mp h with hvalues | ⟨others, _, h⟩
    · refine .behind_of_parse hparse (.primitive (by simpa using hbit)) ?_ (ihvalues hvalues)
      rw [Value.depth]
      exact Nat.zero_le _
    · cases h

/-! ## The whole input -/

theorem descend_of_refusal {limit : Nat} {input : Octets} {error : Error}
    (h : Refusal (min limit depthCap) input error) : descend input limit = .error error := by
  cases h with
  | header hparse => exact descend_refused hparse
  | tooDeep hparse hbit hzero => exact descend_tooDeep hparse hbit hzero
  | inside hparse hbit hroom hinside =>
    rw [descend_constructed hparse hbit hroom, descendAll_of_fault hinside]
    rfl
  | @trailing head tail value hhead hdepth hmore =>
    obtain ⟨header, content, hparse, hlen, hvalue⟩ := parse_of_isElement hhead tail
    have htake : (content ++ tail).take header.contentLength = content := by
      rw [hlen, List.take_left]
    have hleft : ¬ header.contentLength = (content ++ tail).length := by
      have := List.length_pos_iff.mpr hmore
      rw [hlen, List.length_append]
      omega
    cases hvalue with
    | primitive hbit => rw [descend_primitive hparse hbit, if_neg hleft]
    | @constructed children hbit hchildren =>
      rw [depth_constructed] at hdepth
      have hinner : descendAll (min limit depthCap) 1 content = .ok children :=
        descendAll_eq_ok_iff.mpr ⟨hchildren, by omega⟩
      rw [descend_constructed hparse hbit (by omega), htake, hinner, ok_bind, if_neg hleft]
      rfl

/-- Octets that follow an element that is as long as its header says. -/
theorem Refusal.trailing_of_parse {limit : Nat} {input rest : Octets} {header : Header}
    {value : Value} (hparse : Header.parse input = .ok (header, rest))
    (hvalue : header.Holds (rest.take header.contentLength) value)
    (hdepth : value.depth ≤ limit) (hleft : ¬ header.contentLength = rest.length) :
    Refusal limit input .trailingData := by
  obtain ⟨head, hhead, rfl⟩ := exists_isElement_of_parse hparse hvalue
  have hfit := (Header.bounds_of_parse hparse).2.2
  refine .trailing hhead hdepth (List.ne_nil_of_length_pos ?_)
  rw [List.length_drop]
  omega

theorem refusal_of_descend {limit : Nat} {input : Octets} {error : Error}
    (h : descend input limit = .error error) : Refusal (min limit depthCap) input error := by
  cases hparse : Header.parse input with
  | error error' =>
    rw [descend_refused hparse] at h
    cases h
    exact .header hparse
  | ok result =>
    obtain ⟨header, rest⟩ := result
    cases hbit : header.isConstructed with
    | false =>
      rw [descend_primitive hparse hbit] at h
      split at h
      · cases h
      · rename_i hleft
        cases h
        exact .trailing_of_parse hparse (.primitive hbit) (Nat.zero_le _) hleft
    | true =>
      rcases Nat.eq_zero_or_pos (min limit depthCap) with hzero | hroom
      · rw [descend_tooDeep hparse hbit hzero] at h
        cases h
        exact .tooDeep hparse hbit hzero
      · rw [descend_constructed hparse hbit hroom] at h
        rcases bind_eq_error.mp h with hchildren | ⟨children, hchildren, h⟩
        · exact .inside hparse hbit hroom (fault_of_descendAll hchildren)
        · obtain ⟨hinner, hdepth⟩ := descendAll_sound hchildren
          split at h
          · cases h
          · rename_i hleft
            cases h
            refine .trailing_of_parse hparse (.constructed hbit hinner) ?_ hleft
            rw [depth_constructed]
            omega

/-- The descent refuses an input for its first fault, and octets behind the element last. -/
theorem descend_eq_error_iff {limit : Nat} {input : Octets} {error : Error} :
    descend input limit = .error error ↔ Refusal (min limit depthCap) input error :=
  ⟨refusal_of_descend, descend_of_refusal⟩

end Asn1.Value
