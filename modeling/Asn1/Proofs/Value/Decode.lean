import Asn1.Proofs.Ber.Stack
import Asn1.Proofs.Value.Encode
import Asn1.Proofs.Value.Fault

/-!
# What decoding accepts and refuses

Decoding on a stack of frames and decoding by descent are the same function of the input and the
limit (`decode_eq_descend`). So decoding accepts the element grammar up to the limit on nesting
(`decode_accepts_grammar`), and refuses everything else for its first fault in document order
(`decode_refines_descent`).
-/

namespace Asn1

open Ber

namespace Ber

/-- The stack over the content of an element, when its header was just read and is followed by
`rest`. -/
def Stack.start (header : Header) (rest : Octets) : Stack :=
  ⟨⟨header.identifier, .ofOctets (rest.take header.contentLength), []⟩, []⟩

theorem Stack.inBounds_start (header : Header) (rest : Octets) : (start header rest).InBounds := by
  intro frame hmem
  rw [List.mem_singleton.mp hmem]
  exact Window.inBounds_ofOctets _

/-- A stack of one fresh frame comes to the value of the element it was opened for. -/
theorem Stack.outcome_start (limit : Nat) (header : Header) (rest : Octets) :
    (start header rest).outcome limit =
      (Value.descendAll limit 1 (rest.take header.contentLength)).map
        (.constructed header.identifier) := by
  simp only [outcome, start, depth, Frame.resume, Window.remaining_ofOctets]
  cases Value.descendAll limit (List.length [] + 1) (rest.take header.contentLength) <;> rfl

/-- The input with its cursor behind the element of a header at the start. -/
def Header.past (header : Header) (input : Octets) : Window :=
  ((Window.ofOctets input).advance header.headerLength).advance header.contentLength

/-! ## The outermost element -/

section Outermost

variable {limit : Nat} {input rest : Octets} {header : Header}

theorem decodeElement_refused {error : Error} (hparse : Header.parse input = .error error) :
    decodeElement limit (.ofOctets input) = (.error error, []) := by
  simp only [decodeElement, Header.decode_eq (Window.inBounds_ofOctets input),
    Window.remaining_ofOctets, hparse]

theorem decodeElement_primitive (hparse : Header.parse input = .ok (header, rest))
    (hbit : header.isConstructed = false) :
    decodeElement limit (.ofOctets input) =
      (.ok (.primitive header.identifier (rest.take header.contentLength), header.past input),
        []) := by
  have hwindow : Header.parse (Window.ofOctets input).remaining = .ok (header, rest) := by
    rw [Window.remaining_ofOctets, hparse]
  simp only [decodeElement, Header.decode_eq (Window.inBounds_ofOctets input),
    Window.remaining_ofOctets, hparse, hbit, Bool.false_eq_true, if_false,
    Window.readBytes_behind hwindow, Header.past]

theorem decodeElement_tooDeep (hparse : Header.parse input = .ok (header, rest))
    (hbit : header.isConstructed = true) :
    decodeElement 0 (.ofOctets input) = (.error (.nestingTooDeep 0), [.tooDeep 0]) := by
  simp only [decodeElement, Header.decode_eq (Window.inBounds_ofOctets input),
    Window.remaining_ofOctets, hparse, hbit, if_true]

/-- The content of a constructed element is read by a run from the stack over it. -/
theorem decodeElement_constructed (hparse : Header.parse input = .ok (header, rest))
    (hbit : header.isConstructed = true) (hroom : 0 < limit) :
    decodeElement limit (.ofOctets input) =
      (((Stack.start header rest).run limit []).1.map (·, header.past input),
        ((Stack.start header rest).run limit []).2.reverse) := by
  have hinput := Window.inBounds_ofOctets input
  have hwindow : Header.parse (Window.ofOctets input).remaining = .ok (header, rest) := by
    rw [Window.remaining_ofOctets, hparse]
  simp only [decodeElement, Header.decode_eq hinput, Window.remaining_ofOctets, hparse, hbit,
    if_true, if_neg (Nat.ne_of_gt hroom), hinput.enter_behind hwindow, Stack.start, Header.past]

end Outermost

end Ber

namespace Value

/-- Decoding on a stack of frames is decoding by descent, errors included. -/
theorem decode_eq_descend (input : Octets) (limit : Nat) :
    decode input limit = descend input limit := by
  cases hparse : Header.parse input with
  | error error =>
    rw [descend_refused hparse]
    simp only [decode, decodeWithEvents, decodeElement_refused hparse]
  | ok result =>
    obtain ⟨header, rest⟩ := result
    have hbehind : (header.past input).isExhausted = true ↔ header.contentLength = rest.length :=
      Window.isExhausted_behind hparse
    cases hbit : header.isConstructed with
    | false =>
      simp only [decode, decodeWithEvents, decodeElement_primitive hparse hbit, hbehind,
        descend_primitive hparse hbit]
      split <;> rfl
    | true =>
      rcases Nat.eq_zero_or_pos (min limit depthCap) with hzero | hroom
      · simp only [decode, decodeWithEvents, hzero, decodeElement_tooDeep hparse hbit,
          descend_tooDeep hparse hbit hzero]
      · -- The outermost element is the only frame, so the run comes to its descent.
        have hrun := Stack.run_eq_outcome (min limit depthCap) (Stack.inBounds_start header rest) []
        rw [Stack.outcome_start] at hrun
        simp only [decode, decodeWithEvents, decodeElement_constructed hparse hbit hroom,
          descend_constructed hparse hbit hroom, hrun]
        cases descendAll (min limit depthCap) 1 (rest.take header.contentLength) with
        | error error => rfl
        | ok children =>
          simp only [Except.map, hbehind, bind, Except.bind]
          split <;> rfl

theorem decode_eq_ok_iff {input : Octets} {limit : Nat} {value : Value} :
    decode input limit = .ok value ↔
      IsElement input value ∧ value.depth ≤ min limit depthCap := by
  rw [decode_eq_descend, descend_eq_ok_iff]

theorem decode_eq_error_iff {input : Octets} {limit : Nat} {error : Error} :
    decode input limit = .error error ↔ Refusal (min limit depthCap) input error := by
  rw [decode_eq_descend, descend_eq_error_iff]

/-- Decoding accepts exactly the elements of the grammar that nest within the limit. The value is
the one the grammar gives them, with the content lengths that its children add up to. -/
theorem decode_accepts_grammar (input : Octets) (limit : Nat) (value : Value) :
    decode input limit = .ok value ↔
      IsElement input value ∧ value.IsSized ∧ value.depth ≤ min limit depthCap := by
  rw [decode_eq_ok_iff]
  constructor
  · rintro ⟨h, hdepth⟩
    exact ⟨h, isSized_of_isElement h, hdepth⟩
  · rintro ⟨h, -, hdepth⟩
    exact ⟨h, hdepth⟩

/-- Decoding on the stack agrees with the descent on every input, and the first fault in document
order decides the error. Only the outermost header can end early, and the bounds of windows are
never violated. -/
theorem decode_refines_descent (input : Octets) (limit : Nat) :
    decode input limit = descend input limit ∧
      (∀ error, decode input limit = .error error ↔ Refusal (min limit depthCap) input error) ∧
      (decode input limit = .error .earlyEof ↔ Header.parse input = .error .earlyEof) ∧
      decode input limit ≠ .error .invalidSlice ∧ decode input limit ≠ .error .invalidOffset := by
  refine ⟨decode_eq_descend input limit, fun _ => decode_eq_error_iff, ?_, ?_, ?_⟩
  · rw [decode_eq_error_iff]
    exact refusal_earlyEof_iff
  · rw [Ne, decode_eq_error_iff]
    intro h
    simpa using h.error_cases
  · rw [Ne, decode_eq_error_iff]
    intro h
    simpa using h.error_cases

end Value

end Asn1
