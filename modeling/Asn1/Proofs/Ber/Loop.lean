import Mathlib.Data.List.Forall2
import Asn1.Ber.Loop
import Asn1.Proofs.Ber.Cursor
import Asn1.Proofs.Value.Walk

/-!
# The loop never runs out of frames

On a list with a frame in it a turn of the loop is a step of a stack (`turn_cons`), so what a turn
can do is what `Stack.Moves` says. Two facts about the loop follow. What is still to be done shrinks
with every turn, and at the start it is less than the input (`run_start`). And every turn keeps the
frames nested in one another and accounted for by the children read so far (`Invariant.again`). In
particular there is always a frame.
-/

namespace Asn1.Ber

/-! ## Turns and steps -/

/-- The turn of the loop that the outcome of a step stands for. -/
def Progress.turn : Progress → Turn
  | .running stack => .again (stack.top :: stack.below)
  | .finished value => .done (.ok value)
  | .failed error => .done (.error error)

namespace Loop

theorem turn_cons (limit : Nat) (top : Frame) (below : List Frame) :
    turn limit (top :: below) =
      ((Stack.step limit ⟨top, below⟩).1.turn, (Stack.step limit ⟨top, below⟩).2) := by
  -- Both ask the same of the innermost frame in the same order, so the cases are those of `step`.
  by_cases hend : top.content.isExhausted = true
  · simp only [turn, Stack.step, List.head?_cons, if_pos hend]
    cases below <;> rfl
  · simp only [turn, Stack.step, List.head?_cons, if_neg hend]
    cases Header.decode top.content with
    | error error => rfl
    | ok result =>
      obtain ⟨header, content⟩ := result
      cases hbit : header.isConstructed with
      | false =>
        simp only [hbit, Bool.false_eq_true, if_false]
        cases content.readBytes header.contentLength <;> rfl
      | true =>
        simp only [hbit, if_true]
        by_cases hdeep : limit ≤ (top :: below).length
        · have hdepth : limit ≤ Stack.depth ⟨top, below⟩ := hdeep
          rw [if_pos hdeep, if_pos hdepth]
          rfl
        · have hdepth : ¬ limit ≤ Stack.depth ⟨top, below⟩ := hdeep
          rw [if_neg hdeep, if_neg hdepth]
          cases Frame.enter header content <;> rfl

/-- Frames in bounds turn as a stack of them moves. -/
theorem exists_moves (limit : Nat) {top : Frame} {below : List Frame}
    (h : Stack.InBounds ⟨top, below⟩) :
    ∃ progress events, turn limit (top :: below) = (progress.turn, events) ∧
      Stack.Moves limit ⟨top, below⟩ (progress, events) :=
  ⟨_, _, turn_cons limit top below, Stack.moves_step h⟩

theorem exists_moves_of_again {limit : Nat} {top : Frame} {below frames : List Frame}
    {events : List Event} (h : Stack.InBounds ⟨top, below⟩)
    (hturn : turn limit (top :: below) = (.again frames, events)) :
    ∃ stack, frames = stack.top :: stack.below ∧
      Stack.Moves limit ⟨top, below⟩ (.running stack, events) := by
  obtain ⟨progress, reported, hmoved, hmoves⟩ := exists_moves limit h
  rw [hmoved] at hturn
  cases progress with
  | running stack =>
    cases hturn
    exact ⟨stack, rfl, hmoves⟩
  | finished value => cases hturn
  | failed error => cases hturn

/-- A loop with enough turns left runs as the stack does. -/
theorem run_eq_some {limit turns : Nat} {stack : Stack} {log : List Event}
    (h : stack.pending ≤ turns) :
    run limit turns (stack.top :: stack.below) log = some (stack.run limit log) := by
  have hpos (stack : Stack) : 0 < stack.pending := by
    rw [Stack.pending, Stack.pendingIn]
    omega
  -- Every turn is paid for by what it leaves less to be done.
  fun_induction Stack.run limit stack log generalizing turns with
  | case1 stack log stack' events hstep ih =>
    have hless := Stack.pending_step hstep
    obtain ⟨turns, rfl⟩ := Nat.exists_eq_add_of_lt ((hpos stack).trans_le h)
    simp only [Nat.zero_add, run, turn_cons, hstep, Progress.turn]
    exact ih (by omega)
  | case2 stack log value events hstep =>
    obtain ⟨turns, rfl⟩ := Nat.exists_eq_add_of_lt ((hpos stack).trans_le h)
    simp only [run, turn_cons, hstep, Progress.turn]
  | case3 stack log error events hstep =>
    obtain ⟨turns, rfl⟩ := Nat.exists_eq_add_of_lt ((hpos stack).trans_le h)
    simp only [run, turn_cons, hstep, Progress.turn]

/-- The loop over the content of an element takes fewer turns than the element has octets, since
each frame that is closed was opened by a header of two octets or more. -/
theorem run_start {limit : Nat} {input rest : Octets} {header : Header}
    (hparse : Header.parse input = .ok (header, rest)) :
    run limit input.length [(Stack.start header rest).top] [] =
      some ((Stack.start header rest).run limit []) := by
  have hbounds := Header.bounds_of_parse hparse
  have hpending : (Stack.start header rest).pending =
      (rest.take header.contentLength).length + 1 := rfl
  rw [Header.length_take_of_parse hparse] at hpending
  have henough : (Stack.start header rest).pending ≤ input.length := by omega
  exact run_eq_some henough

end Loop

/-! ## Frames in one another -/

/-- Behind an element its content is the slice that ends at the cursor. -/
theorem Window.InBounds.slice_behind {window : Window} {header : Header} {rest : Octets}
    (h : window.InBounds) (hparse : Header.parse window.remaining = .ok (header, rest)) :
    ∃ start, ((window.advance header.headerLength).advance header.contentLength).slice start
        ((window.advance header.headerLength).advance header.contentLength).offset =
      .ok (.ofOctets (rest.take header.contentLength)) := by
  have hslice := (h.behind hparse).slice_here (contentLength_le_behind hparse)
  rw [remaining_behind hparse] at hslice
  exact ⟨(window.advance header.headerLength).offset, hslice⟩

/-- The content of a frame is the slice of a window that ends at the cursor of that window. -/
def Frame.IsSliceOf (frame : Frame) (window : Window) : Prop :=
  ∃ start, window.slice start window.offset = .ok (.ofOctets frame.content.data)

namespace Frame

/-- The octets before the cursor. -/
def consumed (frame : Frame) : Octets :=
  frame.content.data.take frame.content.offset

/-- The octets before the cursor are the elements of the finished children, and behind them what
`IsLast` holds of. So the sizes of all these add up to the position of the cursor. -/
def IsAccounted (IsLast : Octets → Prop) (frame : Frame) : Prop :=
  ∃ parts last, List.Forall₂ IsElement parts frame.children.reverse ∧ IsLast last ∧
    frame.consumed = parts.flatten ++ last ∧
    frame.content.offset = (parts.map List.length).sum + last.length

/-- The octets are those of a child that is open: a header for it, and its content. -/
def IsOpened (child : Frame) (octets : Octets) : Prop :=
  ∃ front header, IsHeader front header ∧ header.isConstructed = true ∧
    header.identifier = child.identifier ∧ header.contentLength = child.content.data.length ∧
    octets = front ++ child.content.data

variable {frame : Frame}

/-- Once a frame is used up, its octets are the elements of its children. -/
theorem IsAccounted.areElements (h : frame.IsAccounted (· = []))
    (hend : frame.content.remaining = []) :
    AreElements frame.content.data frame.children.reverse := by
  obtain ⟨parts, last, hparts, rfl, hconsumed, -⟩ := h
  have hall : frame.consumed = frame.content.data := by
    rw [consumed, List.take_of_length_le (List.drop_eq_nil_iff.mp hend)]
  rw [← hall, hconsumed, List.append_nil]
  exact areElements_flatten hparts

/-- A complete child joins the finished ones. -/
theorem IsAccounted.push {IsLast : Octets → Prop} {value : Value} (h : frame.IsAccounted IsLast)
    (hlast : ∀ octets, IsLast octets → IsElement octets value) :
    (frame.push value).IsAccounted (· = []) := by
  obtain ⟨parts, last, hparts, hkind, hconsumed, hoffset⟩ := h
  refine ⟨parts ++ [last], [], ?_, rfl, ?_, ?_⟩
  · rw [Frame.push, List.reverse_cons]
    exact List.rel_append hparts (.cons (hlast last hkind) .nil)
  · rw [List.append_nil, List.flatten_concat]
    exact hconsumed
  · rw [List.map_append, List.sum_append, List.map_singleton, List.sum_singleton]
    exact hoffset

/-- Behind the next header and its content the octets of both come last. -/
theorem IsAccounted.skip {IsLast : Octets → Prop} {header : Header} {rest : Octets}
    (h : frame.IsAccounted (· = []))
    (hparse : Header.parse frame.content.remaining = .ok (header, rest))
    (hlast : ∀ front, IsHeader front header → IsLast (front ++ rest.take header.contentLength)) :
    (frame.skip header).IsAccounted IsLast := by
  obtain ⟨parts, last, hparts, rfl, hconsumed, hoffset⟩ := h
  obtain ⟨front, hfront, hremaining⟩ := Header.exists_of_parse hparse
  have hdrop : frame.content.data.drop frame.content.offset = front ++ rest := hremaining
  refine ⟨parts, front ++ rest.take header.contentLength, hparts, hlast front hfront, ?_, ?_⟩
  · rw [consumed, List.append_nil] at hconsumed
    simp only [consumed, Frame.skip, Window.advance, Nat.add_assoc]
    rw [List.take_add, hconsumed, hdrop, hfront.headerLength_eq, List.take_length_add_append]
  · rw [List.length_nil, Nat.add_zero] at hoffset
    simp only [Frame.skip, Window.advance, hoffset, hfront.headerLength_eq, List.length_append,
      Header.length_take_of_parse hparse, Nat.add_assoc]

end Frame

/-- Every frame is over a slice of the next one's window, and the last over one of the outer
window. -/
def Nested (outer : Window) : List Frame → Prop
  | [] => True
  | [root] => root.IsSliceOf outer
  | child :: parent :: below => child.IsSliceOf parent.content ∧ Nested outer (parent :: below)

/-- Every frame is accounted for, with the frame before it as the child that is open. What holds of
the last octets of the innermost frame is `IsLast`. -/
def Accounted (IsLast : Octets → Prop) : List Frame → Prop
  | [] => True
  | frame :: below => frame.IsAccounted IsLast ∧ Accounted frame.IsOpened below

section Replace

variable {top top' : Frame} {below : List Frame}

/-- The frames below see only the content of the innermost one. -/
theorem Nested.replace {outer : Window} (h : Nested outer (top :: below))
    (hdata : top'.content.data = top.content.data) : Nested outer (top' :: below) := by
  cases below with
  | nil => simpa only [Nested, Frame.IsSliceOf, hdata] using h
  | cons parent below => simpa only [Nested, Frame.IsSliceOf, hdata] using h

theorem Accounted.replace (h : Accounted top.IsOpened below)
    (hidentifier : top'.identifier = top.identifier)
    (hdata : top'.content.data = top.content.data) : Accounted top'.IsOpened below := by
  have hopened : top'.IsOpened = top.IsOpened := by
    funext octets
    simp only [Frame.IsOpened, hidentifier, hdata]
  rwa [hopened]

end Replace

namespace Loop

/-- What holds of the frames at the head of a loop whose outermost element lies in `outer`. -/
structure Invariant (limit : Nat) (outer : Window) (frames : List Frame) : Prop where
  nonempty : 1 ≤ frames.length
  room : frames.length ≤ limit
  inBounds : ∀ frame ∈ frames, frame.content.InBounds
  nested : Nested outer frames
  accounted : Accounted (· = []) frames

variable {limit : Nat} {outer : Window} {frames : List Frame}

theorem Invariant.exists_cons (h : Invariant limit outer frames) :
    ∃ top below, frames = top :: below ∧ Stack.InBounds ⟨top, below⟩ := by
  obtain ⟨top, below, rfl⟩ := List.exists_cons_of_length_pos h.nonempty
  exact ⟨top, below, rfl, h.inBounds⟩

/-- A turn keeps the invariant. -/
theorem Invariant.again {frames' : List Frame} {events : List Event}
    (h : Invariant limit outer frames) (hturn : turn limit frames = (.again frames', events)) :
    Invariant limit outer frames' := by
  obtain ⟨top, below, rfl, hbounds⟩ := h.exists_cons
  obtain ⟨stack, rfl, hmoves⟩ := exists_moves_of_again hbounds hturn
  have hinBounds := hmoves.inBounds hbounds
  obtain ⟨-, hroom, -, hnested, htop, hbelow⟩ := h
  cases hmoves with
  | @close _ parent below hend =>
    -- The open child of the parent becomes its last finished one.
    have helement : ∀ octets, top.IsOpened octets → IsElement octets top.finish := by
      rintro octets ⟨front, header, hfront, hbit, hidentifier, hlength, rfl⟩
      refine isElement_of_header hfront hlength ?_
      rw [Frame.finish, ← hidentifier]
      exact .constructed hbit (htop.areElements hend)
    rw [List.length_cons, List.length_cons] at hroom
    exact ⟨by simp, by simp; omega, hinBounds, hnested.2.replace rfl, hbelow.1.push helement,
      hbelow.2.replace rfl rfl⟩
  | @enter _ _ header rest hparse hbit hfits =>
    -- The new frame has consumed nothing, and the one around it is behind all of the new one.
    have hlength := (Header.length_take_of_parse hparse).symm
    refine ⟨by simp, by simp; omega, hinBounds,
      ⟨(hbounds top (by simp)).slice_behind hparse, hnested.replace rfl⟩,
      ⟨[], [], .nil, rfl, rfl, rfl⟩, ?_, hbelow.replace rfl rfl⟩
    exact htop.skip hparse fun front hfront => ⟨front, header, hfront, hbit, rfl, hlength, rfl⟩
  | @read _ _ header rest hparse hbit =>
    have hlength := (Header.length_take_of_parse hparse).symm
    refine ⟨by simp, hroom, hinBounds, hnested.replace rfl, ?_, hbelow.replace rfl rfl⟩
    have hread : (top.skip header).IsAccounted
        (IsElement · (.primitive header.identifier (rest.take header.contentLength))) :=
      htop.skip hparse fun front hfront => isElement_of_header hfront hlength (.primitive hbit)
    exact hread.push fun octets helement => helement

/-- At the start there is the frame of the outermost element, with nothing consumed. -/
theorem Invariant.start {input rest : Octets} {header : Header}
    (hparse : Header.parse input = .ok (header, rest)) (hroom : 1 ≤ limit) :
    Invariant limit (header.past input) [(Stack.start header rest).top] where
  nonempty := le_refl 1
  room := hroom
  inBounds := Stack.inBounds_start header rest
  nested := (Window.inBounds_ofOctets input).slice_behind hparse
  accounted := ⟨⟨[], [], .nil, rfl, rfl, rfl⟩, trivial⟩

theorem Invariant.atHead {start : List Frame} (h : Invariant limit outer start)
    (hhead : AtHead limit start frames) : Invariant limit outer frames := by
  induction hhead with
  | start => exact h
  | again _ hturn ih => exact ih.again hturn

/-- A fault of structure is found in an inner element that runs over the end of its frame, and never
for want of a frame. -/
theorem Invariant.overrun {events : List Event} (h : Invariant limit outer frames)
    (hturn : turn limit frames = (.done (.error .lengthMismatch), events)) :
    events = [.overrun] := by
  obtain ⟨top, below, rfl, hbounds⟩ := h.exists_cons
  obtain ⟨progress, reported, hmoved, hmoves⟩ := exists_moves limit hbounds
  rw [hmoved] at hturn
  cases progress with
  | running stack => cases hturn
  | finished value => cases hturn
  | failed error =>
    cases hturn
    cases hmoves.verdict with
    | overrun => rfl

/-- Where the outermost element is constructed and may nest at all, which is where there is a loop,
the element is entered. The loop returns after no more turns than the input has octets, with what
the decoding on a stack gives. Wherever it is at its head there are one or more frames, and no more
than allowed; each frame is in bounds, over the slice that ends at the cursor of the window around
it, and accounted for by its children. So no element fails to be entered, and no turn is without a
frame. -/
theorem ends_and_stays_accounted (input : Octets) (limit : Nat) {header : Header} {window : Window}
    (hdecode : Header.decode (.ofOctets input) = .ok (header, window))
    (hbit : header.isConstructed = true) (hroom : 0 < limit) :
    ∃ root outer, Frame.enter header window = .ok (root, outer) ∧
      (∃ result log,
        run (min limit Value.depthCap) input.length [root] [] = some (result, log) ∧
          decodeElement (min limit Value.depthCap) (.ofOctets input) =
            (result.map (·, outer), log.reverse)) ∧
      ∀ frames, AtHead (min limit Value.depthCap) [root] frames →
        Invariant (min limit Value.depthCap) outer frames ∧
        (∀ frame ∈ frames, ∀ header content,
          Header.decode frame.content = .ok (header, content) →
            ∃ entered, Frame.enter header content = .ok entered) ∧
        ∀ events,
          turn (min limit Value.depthCap) frames = (.done (.error .lengthMismatch), events) →
            events = [.overrun] := by
  have hcapped : 0 < min limit Value.depthCap := Nat.lt_min.mpr ⟨hroom, by decide⟩
  have hinput := Window.inBounds_ofOctets input
  obtain ⟨rest, hparse, rfl⟩ := Header.decode_eq_ok_iff.mp hdecode
  rw [Window.remaining_ofOctets] at hparse
  refine ⟨(Stack.start header rest).top, header.past input, hinput.enter_behind hparse,
    ⟨_, _, run_start hparse, decodeElement_constructed hparse hbit hcapped⟩, ?_⟩
  intro frames hhead
  have hinvariant := (Invariant.start hparse hcapped).atHead hhead
  refine ⟨hinvariant, ?_, fun events => hinvariant.overrun⟩
  intro frame hmem header content hdecode
  obtain ⟨rest, hparse, rfl⟩ := Header.decode_eq_ok_iff.mp hdecode
  exact ⟨_, (hinvariant.inBounds frame hmem).enter_behind hparse⟩

/-- Two sequences in one another and a null behind the inner one, at the limit that this takes. -/
theorem ends_and_stays_accounted_nested :
    ∃ root outer, Frame.enter ⟨[0x30], 6, 2⟩ ⟨[0x30, 6, 0x31, 2, 5, 0, 5, 0], 2⟩ =
        .ok (root, outer) ∧
      run 2 8 [root] [] = some
        (.ok (.constructed [0x30] [.constructed [0x31] [.primitive [5] []], .primitive [5] []]),
          [.closed 1, .closed 2, .opened 2]) ∧
      Invariant 2 outer [root] := by
  have hdecode : Header.decode (.ofOctets [0x30, 6, 0x31, 2, 5, 0, 5, 0]) =
      .ok (⟨[0x30], 6, 2⟩, ⟨[0x30, 6, 0x31, 2, 5, 0, 5, 0], 2⟩) := by
    cbv
  obtain ⟨root, outer, henter, -, hheads⟩ :=
    ends_and_stays_accounted _ 2 hdecode rfl (by decide)
  have hroot : root = ⟨[0x30], .ofOctets [0x31, 2, 5, 0, 5, 0], []⟩ := by
    cases henter
    rfl
  refine ⟨root, outer, henter, ?_, (hheads [root] .start).1⟩
  rw [hroot]
  rfl

end Loop

end Asn1.Ber
