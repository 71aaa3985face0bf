import Asn1.Value.Descent
import Asn1.Proofs.Ber.Grammar
import Asn1.Proofs.Except

/-!
# What the descent reads

Inside an element the descent reads exactly the concatenations of elements that the grammar
allows and that nest no deeper than the limit leaves room for (`descendAll_eq_ok_iff`). It goes
through elements one after the other: those in front do not change what is made of the octets
behind them (`descendAll_append`).
-/

namespace Asn1.Value

open Ber

theorem depth_constructed (identifier : Octets) (children : List Value) :
    (constructed identifier children).depth = 1 + depthAll children := by
  rw [constructed, depth]

/-! ## One element at a time -/

section Equations

variable {limit depth : Nat} {content rest : Octets} {header : Header}

@[simp] theorem descendAll_nil : descendAll limit depth [] = .ok [] := by
  rw [descendAll]
  rfl

/-- Octets that are left are an element, as far as their header goes. -/
theorem descendAll_of_ne_nil (hne : content ≠ []) :
    descendAll limit depth content =
      match Header.parse content with
      | .error error => .error error.within
      | .ok (header, rest) =>
        if header.isConstructed then
          if limit ≤ depth then
            .error (.nestingTooDeep limit)
          else do
            let children ← descendAll limit (depth + 1) (rest.take header.contentLength)
            let values ← descendAll limit depth (rest.drop header.contentLength)
            return .constructed header.identifier children :: values
        else do
          let values ← descendAll limit depth (rest.drop header.contentLength)
          return .primitive header.identifier (rest.take header.contentLength) :: values := by
  rw [descendAll, if_neg (by simpa using hne)]
  split <;> simp_all only

theorem ne_nil_of_parse (hparse : Header.parse content = .ok (header, rest)) : content ≠ [] := by
  rintro rfl
  simp [Header.parse, Identifier.split?] at hparse

theorem descendAll_refused {error : Error} (hne : content ≠ [])
    (hparse : Header.parse content = .error error) :
    descendAll limit depth content = .error error.within := by
  simp only [descendAll_of_ne_nil hne, hparse]

theorem descendAll_tooDeep (hparse : Header.parse content = .ok (header, rest))
    (hbit : header.isConstructed = true) (hdeep : limit ≤ depth) :
    descendAll limit depth content = .error (.nestingTooDeep limit) := by
  simp only [descendAll_of_ne_nil (ne_nil_of_parse hparse), hparse, if_pos hbit, if_pos hdeep]

theorem descendAll_constructed (hparse : Header.parse content = .ok (header, rest))
    (hbit : header.isConstructed = true) (hdeep : depth < limit) :
    descendAll limit depth content = (do
      let children ← descendAll limit (depth + 1) (rest.take header.contentLength)
      let values ← descendAll limit depth (rest.drop header.contentLength)
      return .constructed header.identifier children :: values) := by
  simp only [descendAll_of_ne_nil (ne_nil_of_parse hparse), hparse, if_pos hbit,
    if_neg (Nat.not_le.mpr hdeep)]

theorem descendAll_primitive (hparse : Header.parse content = .ok (header, rest))
    (hbit : header.isConstructed = false) :
    descendAll limit depth content = (do
      let values ← descendAll limit depth (rest.drop header.contentLength)
      return .primitive header.identifier (rest.take header.contentLength) :: values) := by
  simp only [descendAll_of_ne_nil (ne_nil_of_parse hparse), hparse, hbit, Bool.false_eq_true,
    if_false]

end Equations

/-! ## Elements one after the other -/

mutual

/-- An element in front is read, and the rest is read as if it stood alone. -/
theorem descendAll_append_of_isElement {limit depth : Nat} {octets : Octets} {value : Value}
    (h : IsElement octets value) (hdepth : value.depth ≤ limit - depth) (tail : Octets) :
    descendAll limit depth (octets ++ tail) =
      (descendAll limit depth tail).map (value :: ·) := by
  cases h with
  | @primitive identifier length content hid hbit hlength =>
    rw [descendAll_primitive (Header.parse_element hid hlength tail) hbit, List.take_left,
      List.drop_left]
    cases descendAll limit depth tail <;> rfl
  | @constructed identifier length content children hid hbit hlength hchildren =>
    rw [depth_constructed] at hdepth
    -- The content is read on its own, so nothing follows the children there.
    have hinner : descendAll limit (depth + 1) (content ++ []) = _ :=
      descendAll_append hchildren (by omega) []
    rw [List.append_nil, descendAll_nil] at hinner
    rw [descendAll_constructed (Header.parse_element hid hlength tail) hbit (by omega),
      List.take_left, List.drop_left, hinner]
    cases descendAll limit depth tail <;> simp [Except.map, bind, Except.bind, pure, Except.pure]

/-- Elements in front are read, and the rest is read as if it stood alone. -/
theorem descendAll_append {limit depth : Nat} {octets : Octets} {values : List Value}
    (h : AreElements octets values) (hdepth : depthAll values ≤ limit - depth) (tail : Octets) :
    descendAll limit depth (octets ++ tail) =
      (descendAll limit depth tail).map (values ++ ·) := by
  cases h with
  | nil =>
    rw [List.nil_append]
    cases descendAll limit depth tail <;> rfl
  | @cons head behind value values hhead htail =>
    rw [depthAll] at hdepth
    rw [List.append_assoc, descendAll_append_of_isElement hhead (by omega),
      descendAll_append htail (by omega)]
    cases descendAll limit depth tail <;> rfl

end

/-- What the descent reads is in the grammar and within the limit. -/
theorem descendAll_sound {limit depth : Nat} {octets : Octets} {values : List Value}
    (h : descendAll limit depth octets = .ok values) :
    AreElements octets values ∧ depthAll values ≤ limit - depth := by
  fun_induction descendAll limit depth octets generalizing values with
  | case1 depth octets hempty =>
    cases h
    rw [List.isEmpty_iff.mp hempty, depthAll]
    exact ⟨.nil, Nat.zero_le _⟩
  | case2 => simp at h
  | case3 => simp at h
  | case4 depth octets hne header rest hparse hbit hdeep ihchildren ihvalues =>
    rw [bind_eq_ok] at h
    obtain ⟨children, hchildren, h⟩ := h
    rw [bind_eq_ok] at h
    obtain ⟨others, hvalues, h⟩ := h
    cases h
    obtain ⟨hinner, hdepth⟩ := ihchildren hchildren
    obtain ⟨hothers, hdepth'⟩ := ihvalues hvalues
    obtain ⟨head, hhead, rfl⟩ := exists_isElement_of_parse hparse (.constructed hbit hinner)
    refine ⟨.cons hhead hothers, ?_⟩
    rw [depthAll, depth_constructed]
    omega
  | case5 depth octets hne header rest hparse hbit ihvalues =>
    rw [bind_eq_ok] at h
    obtain ⟨others, hvalues, h⟩ := h
    cases h
    obtain ⟨hothers, hdepth⟩ := ihvalues hvalues
    obtain ⟨head, hhead, rfl⟩ :=
      exists_isElement_of_parse hparse (.primitive (by simpa using hbit))
    refine ⟨.cons hhead hothers, ?_⟩
    rw [depthAll, Value.depth]
    omega

/-- Inside an element the descent accepts the grammar, as far as the limit leaves room. -/
theorem descendAll_eq_ok_iff {limit depth : Nat} {octets : Octets} {values : List Value} :
    descendAll limit depth octets = .ok values ↔
      AreElements octets values ∧ depthAll values ≤ limit - depth := by
  constructor
  · exact descendAll_sound
  · rintro ⟨h, hdepth⟩
    have := descendAll_append h hdepth []
    rw [List.append_nil, descendAll_nil] at this
    rw [this]
    simp [Except.map]

/-! ## The whole input -/

section Whole

variable {limit : Nat} {input rest : Octets} {header : Header}

theorem descend_refused {error : Error} (hparse : Header.parse input = .error error) :
    descend input limit = .error error := by
  simp only [descend, hparse]

theorem descend_tooDeep (hparse : Header.parse input = .ok (header, rest))
    (hbit : header.isConstructed = true) (hzero : min limit depthCap = 0) :
    descend input limit = .error (.nestingTooDeep 0) := by
  simp only [descend, hparse, hbit, hzero, if_true]

theorem descend_constructed (hparse : Header.parse input = .ok (header, rest))
    (hbit : header.isConstructed = true) (hroom : 0 < min limit depthCap) :
    descend input limit = (do
      let children ← descendAll (min limit depthCap) 1 (rest.take header.contentLength)
      if header.contentLength = rest.length then
        return .constructed header.identifier children
      else
        throw .trailingData) := by
  simp only [descend, hparse, hbit, if_true, if_neg (Nat.ne_of_gt hroom)]

theorem descend_primitive (hparse : Header.parse input = .ok (header, rest))
    (hbit : header.isConstructed = false) :
    descend input limit =
      if header.contentLength = rest.length then
        .ok (.primitive header.identifier (rest.take header.contentLength))
      else
        .error .trailingData := by
  simp only [descend, hparse, hbit, Bool.false_eq_true, if_false]
  rfl

/-- A header whose declared content is all that follows it is an element with that content. -/
theorem isElement_of_parse {value : Value} (hparse : Header.parse input = .ok (header, rest))
    (hlen : header.contentLength = rest.length)
    (hvalue : header.Holds (rest.take header.contentLength) value) : IsElement input value := by
  obtain ⟨head, hhead, hinput⟩ := exists_isElement_of_parse hparse hvalue
  rw [List.drop_of_length_le (by omega), List.append_nil] at hinput
  exact hinput ▸ hhead

theorem descend_sound {value : Value} (h : descend input limit = .ok value) :
    IsElement input value ∧ value.depth ≤ min limit depthCap := by
  cases hparse : Header.parse input with
  | error error =>
    rw [descend_refused hparse] at h
    cases h
  | ok result =>
    obtain ⟨header, rest⟩ := result
    cases hbit : header.isConstructed with
    | false =>
      rw [descend_primitive hparse hbit] at h
      split at h
      · rename_i hlen
        cases h
        exact ⟨isElement_of_parse hparse hlen (.primitive hbit), Nat.zero_le _⟩
      · cases h
    | true =>
      rcases Nat.eq_zero_or_pos (min limit depthCap) with hzero | hroom
      · rw [descend_tooDeep hparse hbit hzero] at h
        cases h
      · rw [descend_constructed hparse hbit hroom, bind_eq_ok] at h
        obtain ⟨children, hchildren, h⟩ := h
        obtain ⟨hinner, hdepth⟩ := descendAll_sound hchildren
        split at h
        · rename_i hlen
          cases h
          refine ⟨isElement_of_parse hparse hlen (.constructed hbit hinner), ?_⟩
          rw [depth_constructed]
          omega
        · cases h

theorem descend_complete {value : Value} (h : IsElement input value)
    (hdepth : value.depth ≤ min limit depthCap) : descend input limit = .ok value := by
  obtain ⟨header, content, hparse, hlen, hvalue⟩ := parse_of_isElement h []
  rw [List.append_nil, List.append_nil] at hparse
  have htake : content.take header.contentLength = content := by
    rw [hlen, List.take_length]
  cases hvalue with
  | primitive hbit => rw [descend_primitive hparse hbit, if_pos hlen, htake]
  | @constructed children hbit hchildren =>
    rw [depth_constructed] at hdepth
    have hinner : descendAll (min limit depthCap) 1 content = .ok children :=
      descendAll_eq_ok_iff.mpr ⟨hchildren, by omega⟩
    rw [descend_constructed hparse hbit (by omega), htake, hinner, ok_bind, if_pos hlen]
    rfl

/-- The descent accepts one element that nests within the limit, and gives its value. -/
theorem descend_eq_ok_iff {value : Value} :
    descend input limit = .ok value ↔
      IsElement input value ∧ value.depth ≤ min limit depthCap :=
  ⟨descend_sound, fun ⟨h, hdepth⟩ => descend_complete h hdepth⟩

end Whole

/-! ## One reading -/

/-- Octets are the elements of one list of values only. -/
theorem areElements_unique {octets : Octets} {values values' : List Value}
    (h : AreElements octets values) (h' : AreElements octets values') : values = values' := by
  -- A limit above both depths lets the descent read the octets either way.
  have hread : descendAll (depthAll values + depthAll values') 0 octets = .ok values :=
    descendAll_eq_ok_iff.mpr ⟨h, by omega⟩
  have hread' : descendAll (depthAll values + depthAll values') 0 octets = .ok values' :=
    descendAll_eq_ok_iff.mpr ⟨h', by omega⟩
  rw [hread] at hread'
  exact Except.ok.inj hread'

theorem isElement_unique {octets : Octets} {value value' : Value} (h : IsElement octets value)
    (h' : IsElement octets value') : value = value' := by
  have hlist := areElements_unique (areElements_singleton_iff.mpr h)
    (areElements_singleton_iff.mpr h')
  exact (List.cons.inj hlist).1

end Asn1.Value
