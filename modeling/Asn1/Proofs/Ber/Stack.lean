import Asn1.Ber.Stack
import Asn1.Proofs.Value.Descent

/-!
# Stacks of frames and the descent

What one step of a stack can do is said once, by `Stack.Moves`; everything else here is a case
analysis on it. A stack stands for what is still to be read at every level: `Stack.outcome` reads
it by descent, frame after frame from the inside out. A step does not change the outcome
(`Moves.outcome`), so a whole run ends in it (`run_eq_outcome`).
-/

namespace Asn1.Ber

/-- The frame with its cursor behind the element of a header just found there. -/
def Frame.skip (frame : Frame) (header : Header) : Frame :=
  { frame with
    content := (frame.content.advance header.headerLength).advance header.contentLength }

theorem Frame.remaining_skip {frame : Frame} {header : Header} {rest : Octets}
    (hparse : Header.parse frame.content.remaining = .ok (header, rest)) :
    (frame.skip header).content.remaining = rest.drop header.contentLength := by
  rw [Frame.skip, Window.remaining_advance, Window.remaining_behind hparse]

theorem Frame.inBounds_skip {frame : Frame} {header : Header} {rest : Octets}
    (h : frame.content.InBounds)
    (hparse : Header.parse frame.content.remaining = .ok (header, rest)) :
    (frame.skip header).content.InBounds :=
  (h.behind hparse).advance (Window.contentLength_le_behind hparse)

namespace Stack

/-- The windows of all frames are in bounds. -/
def InBounds (stack : Stack) : Prop :=
  ∀ frame ∈ stack.top :: stack.below, frame.content.InBounds

/-- What one step can do to a stack whose windows are in bounds. -/
inductive Moves (limit : Nat) : Stack → Progress × List Event → Prop
  /-- The outermost element is complete. -/
  | finish {top : Frame} (hend : top.content.remaining = []) :
      Moves limit ⟨top, []⟩ (.finished top.finish, [.closed 1])
  /-- An inner element is complete and becomes a child. -/
  | close {top parent : Frame} {below : List Frame} (hend : top.content.remaining = []) :
      Moves limit ⟨top, parent :: below⟩
        (.running ⟨parent.push top.finish, below⟩, [.closed (below.length + 2)])
  /-- The next child has no good header. -/
  | refuse {top : Frame} {below : List Frame} {error : Error}
      (hmore : top.content.remaining ≠ [])
      (hparse : Header.parse top.content.remaining = .error error) :
      Moves limit ⟨top, below⟩ (.failed error.within, (Progress.failWithin error).2)
  /-- The next child is constructed and there is no room for it. -/
  | tooDeep {top : Frame} {below : List Frame} {header : Header} {rest : Octets}
      (hparse : Header.parse top.content.remaining = .ok (header, rest))
      (hbit : header.isConstructed = true) (hdeep : limit ≤ below.length + 1) :
      Moves limit ⟨top, below⟩ (.failed (.nestingTooDeep limit), [.tooDeep limit])
  /-- The next child is constructed and is entered. -/
  | enter {top : Frame} {below : List Frame} {header : Header} {rest : Octets}
      (hparse : Header.parse top.content.remaining = .ok (header, rest))
      (hbit : header.isConstructed = true) (hroom : below.length + 1 < limit) :
      Moves limit ⟨top, below⟩
        (.running ⟨⟨header.identifier, .ofOctets (rest.take header.contentLength), []⟩,
          top.skip header :: below⟩, [.opened (below.length + 2)])
  /-- The next child is primitive and is read. -/
  | read {top : Frame} {below : List Frame} {header : Header} {rest : Octets}
      (hparse : Header.parse top.content.remaining = .ok (header, rest))
      (hbit : header.isConstructed = false) :
      Moves limit ⟨top, below⟩
        (.running ⟨(top.skip header).push
          (.primitive header.identifier (rest.take header.contentLength)), below⟩, [])

theorem moves_step {limit : Nat} {stack : Stack} (h : stack.InBounds) :
    Moves limit stack (stack.step limit) := by
  obtain ⟨top, below⟩ := stack
  have htop : top.content.InBounds := h top (by simp)
  by_cases hend : top.content.remaining = []
  · have hexhausted := htop.isExhausted_iff.mpr hend
    cases below with
    | nil =>
      simp only [step, if_pos hexhausted]
      exact .finish hend
    | cons parent below =>
      simp only [step, if_pos hexhausted]
      exact .close hend
  · -- In bounds no read behind a header can fail, so what the header says decides.
    have hexhausted : ¬ top.content.isExhausted = true :=
      fun hex => hend (htop.isExhausted_iff.mp hex)
    cases hparse : Header.parse top.content.remaining with
    | error error =>
      simp only [step, if_neg hexhausted, Header.decode_eq htop, hparse]
      exact .refuse hend hparse
    | ok result =>
      obtain ⟨header, rest⟩ := result
      simp only [step, if_neg hexhausted, Header.decode_eq htop, hparse]
      cases hbit : header.isConstructed with
      | false =>
        simp only [Bool.false_eq_true, if_false, Window.readBytes_behind hparse]
        exact .read hparse hbit
      | true =>
        simp only [if_true]
        by_cases hdeep : limit ≤ depth ⟨top, below⟩
        · rw [if_pos hdeep]
          exact .tooDeep hparse hbit hdeep
        · rw [if_neg hdeep]
          simp only [htop.enter_behind hparse]
          exact .enter hparse hbit (Nat.not_le.mp hdeep)

/-- A step keeps the windows in bounds. -/
theorem Moves.inBounds {limit : Nat} {stack stack' : Stack} {events : List Event}
    (hmoves : Moves limit stack (.running stack', events)) (h : stack.InBounds) :
    stack'.InBounds := by
  cases hmoves with
  | @close top parent below hend =>
    intro frame hmem
    rcases List.mem_cons.mp hmem with rfl | hmem
    · exact h parent (by simp)
    · exact h frame (by simp [hmem])
  | @enter top below header rest hparse hbit hroom =>
    intro frame hmem
    rcases List.mem_cons.mp hmem with rfl | hmem
    · exact Window.inBounds_ofOctets _
    · rcases List.mem_cons.mp hmem with rfl | hmem
      · exact Frame.inBounds_skip (h top (by simp)) hparse
      · exact h frame (by simp [hmem])
  | @read top below header rest hparse hbit =>
    intro frame hmem
    rcases List.mem_cons.mp hmem with rfl | hmem
    · exact Frame.inBounds_skip (h top (by simp)) hparse
    · exact h frame (by simp [hmem])

end Stack

/-! ## What a stack comes to -/

/-- Reads the rest of a frame's content by descent and completes the frame. `depth` constructed
elements are around that content. -/
def Frame.resume (limit depth : Nat) (frame : Frame) : Except Error Value :=
  (Value.descendAll limit depth frame.content.remaining).map fun values =>
    .constructed frame.identifier (frame.children.reverse ++ values)

section Resume

variable {limit depth : Nat} {frame : Frame} {header : Header} {rest : Octets}

theorem Frame.resume_end (hend : frame.content.remaining = []) :
    frame.resume limit depth = .ok frame.finish := by
  rw [resume, hend, Value.descendAll_nil, finish]
  simp [Except.map]

theorem Frame.resume_refused {error : Error} (hmore : frame.content.remaining ≠ [])
    (hparse : Header.parse frame.content.remaining = .error error) :
    frame.resume limit depth = .error error.within := by
  rw [resume, Value.descendAll_refused hmore hparse]
  rfl

theorem Frame.resume_tooDeep (hparse : Header.parse frame.content.remaining = .ok (header, rest))
    (hbit : header.isConstructed = true) (hdeep : limit ≤ depth) :
    frame.resume limit depth = .error (.nestingTooDeep limit) := by
  rw [resume, Value.descendAll_tooDeep hparse hbit hdeep]
  rfl

/-- A constructed child is read first, and the frame goes on behind it. -/
theorem Frame.resume_constructed
    (hparse : Header.parse frame.content.remaining = .ok (header, rest))
    (hbit : header.isConstructed = true) (hroom : depth < limit) :
    frame.resume limit depth = (do
      let children ← Value.descendAll limit (depth + 1) (rest.take header.contentLength)
      ((frame.skip header).push (.constructed header.identifier children)).resume limit depth) := by
  have hskip := remaining_skip hparse
  rw [resume, Value.descendAll_constructed hparse hbit hroom]
  cases Value.descendAll limit (depth + 1) (rest.take header.contentLength) with
  | error error => rfl
  | ok children =>
    simp only [bind, Except.bind, resume, push, hskip]
    cases Value.descendAll limit depth (rest.drop header.contentLength) <;>
      simp [Except.map, pure, Except.pure, skip]

/-- A primitive child is read, and the frame goes on behind it. -/
theorem Frame.resume_primitive
    (hparse : Header.parse frame.content.remaining = .ok (header, rest))
    (hbit : header.isConstructed = false) :
    frame.resume limit depth = ((frame.skip header).push
      (.primitive header.identifier (rest.take header.contentLength))).resume limit depth := by
  have hskip := remaining_skip hparse
  rw [resume, Value.descendAll_primitive hparse hbit]
  simp only [resume, push, hskip]
  cases Value.descendAll limit depth (rest.drop header.contentLength) <;>
    simp [Except.map, bind, Except.bind, pure, Except.pure, skip]

end Resume

namespace Stack

/-- Hands a value to the innermost of some frames, and what comes of that to the next. -/
def resumeBelow (limit : Nat) : List Frame → Value → Except Error Value
  | [], value => .ok value
  | frame :: frames, value => do
    let parent ← (frame.push value).resume limit (frames.length + 1)
    resumeBelow limit frames parent

/-- What the rest of a decoding comes to, read by descent from the innermost frame out. -/
def outcome (limit : Nat) (stack : Stack) : Except Error Value := do
  let value ← stack.top.resume limit stack.depth
  resumeBelow limit stack.below value

end Stack

/-- What the rest of a decoding comes to after a step. -/
def Progress.outcome (limit : Nat) : Progress → Except Error Value
  | .running stack => stack.outcome limit
  | .finished value => .ok value
  | .failed error => .error error

namespace Stack

/-- No step changes what a decoding comes to. -/
theorem Moves.outcome {limit : Nat} {stack : Stack} {progress : Progress} {events : List Event}
    (h : Moves limit stack (progress, events)) : progress.outcome limit = stack.outcome limit := by
  cases h with
  | finish hend =>
    simp only [Stack.outcome, Frame.resume_end hend]
    rfl
  | close hend =>
    simp only [Stack.outcome, Frame.resume_end hend]
    rfl
  | refuse hmore hparse =>
    simp only [Stack.outcome, Frame.resume_refused hmore hparse]
    rfl
  | tooDeep hparse hbit hdeep =>
    simp only [Stack.outcome, depth, Frame.resume_tooDeep hparse hbit hdeep]
    rfl
  | @enter top below header rest hparse hbit hroom =>
    simp only [Progress.outcome, Stack.outcome, depth, List.length_cons,
      Frame.resume_constructed hparse hbit hroom]
    rw [Frame.resume, Window.remaining_ofOctets]
    cases Value.descendAll limit (below.length + 1 + 1) (rest.take header.contentLength) <;> rfl
  | read hparse hbit =>
    simp only [Progress.outcome, Stack.outcome, depth, Frame.resume_primitive hparse hbit]

/-- A run ends in what its stack comes to. -/
theorem run_eq_outcome (limit : Nat) {stack : Stack} (h : stack.InBounds) (log : List Event) :
    (stack.run limit log).1 = stack.outcome limit := by
  -- Along the run the windows stay in bounds, which is what makes every step one of the moves.
  fun_induction run limit stack log with
  | case1 stack log stack' events hstep ih =>
    have hmoves : Moves limit stack (.running stack', events) := hstep ▸ moves_step h
    rw [ih (hmoves.inBounds h), ← hmoves.outcome]
    rfl
  | case2 stack log value events hstep =>
    have hmoves : Moves limit stack (.finished value, events) := hstep ▸ moves_step h
    exact hmoves.outcome
  | case3 stack log error events hstep =>
    have hmoves : Moves limit stack (.failed error, events) := hstep ▸ moves_step h
    exact hmoves.outcome

end Stack

end Asn1.Ber
