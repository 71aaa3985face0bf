import Asn1.Proofs.Converter

/-!
# What decoding reports

The records of an accepted input are a walk through its tree: one on entering a constructed value,
except the outermost, and one on leaving it. They tell the shape of the tree and nothing of its
content. A run has at every step reported the walk through what it has read so far
(`Moves.trail`). A refused input ends the walk early, and the fault is reported last if it is one of
structure.
-/

namespace Asn1

open Ber

namespace Value

/-! ## The walk through a tree -/

/-- The record of entering the constructed value that is the `depth`-th around its content. -/
def openedRecord (depth : Nat) : Log.Record :=
  ⟨.trace, "der::value", s!"opened constructed value at depth {depth}"⟩

/-- The record of leaving it. -/
def closedRecord (depth : Nat) : Log.Record :=
  ⟨.trace, "der::value", s!"closed constructed value at depth {depth}"⟩

mutual

/-- The records of entering and leaving the constructed values of a tree whose root is at a
depth. -/
def walk (depth : Nat) : Value → List Log.Record
  | .primitive _ _ => []
  | .node _ children _ =>
    openedRecord depth :: (walkAll (depth + 1) children ++ [closedRecord depth])

/-- The records of several trees one after the other. -/
def walkAll (depth : Nat) : List Value → List Log.Record
  | [] => []
  | value :: values => value.walk depth ++ walkAll depth values

end

/-- The records of the outermost value, which is entered without one. -/
def walkRoot : Value → List Log.Record
  | .primitive _ _ => []
  | .node _ children _ => walkAll 2 children ++ [closedRecord 1]

theorem walkAll_append (depth : Nat) (values others : List Value) :
    walkAll depth (values ++ others) = walkAll depth values ++ walkAll depth others := by
  induction values with
  | nil => rfl
  | cons value values ih => rw [List.cons_append, walkAll, walkAll, ih, List.append_assoc]

theorem walkAll_concat (depth : Nat) (values : List Value) (value : Value) :
    walkAll depth (values ++ [value]) = walkAll depth values ++ value.walk depth := by
  rw [walkAll_append, walkAll, walkAll, List.append_nil]

mutual

theorem level_of_mem_walk (depth : Nat) : (value : Value) →
    ∀ record ∈ value.walk depth, record.level = .trace
  | .primitive _ _ => by simp [walk]
  | .node _ children _ => by
    simpa [walk, openedRecord, closedRecord, or_imp, forall_and] using
      level_of_mem_walkAll (depth + 1) children

theorem level_of_mem_walkAll (depth : Nat) : (values : List Value) →
    ∀ record ∈ walkAll depth values, record.level = .trace
  | [] => by simp [walkAll]
  | value :: values => by
    simpa [walkAll, or_imp, forall_and] using
      ⟨level_of_mem_walk depth value, level_of_mem_walkAll depth values⟩

end

theorem level_of_mem_walkRoot {value : Value} :
    ∀ record ∈ value.walkRoot, record.level = .trace := by
  cases value with
  | primitive identifier content => simp [walkRoot]
  | node identifier children contentLength =>
    simpa [walkRoot, closedRecord, or_imp, forall_and] using level_of_mem_walkAll 2 children

/-! ## Shapes -/

mutual

/-- The trees differ in content octets only: they branch alike, and at each place are the same
identifier and as many content octets. -/
def SameShape : Value → Value → Prop
  | .primitive identifier content, .primitive identifier' content' =>
    identifier = identifier' ∧ content.length = content'.length
  | .node identifier children _, .node identifier' children' _ =>
    identifier = identifier' ∧ SameShapes children children'
  | .primitive _ _, .node _ _ _ => False
  | .node _ _ _, .primitive _ _ => False

/-- The trees of two lists differ in content octets only. -/
def SameShapes : List Value → List Value → Prop
  | [], [] => True
  | value :: values, value' :: values' => value.SameShape value' ∧ SameShapes values values'
  | [], _ :: _ => False
  | _ :: _, [] => False

end

mutual

/-- The walk goes by the shape. -/
theorem SameShape.walk_eq (depth : Nat) : {value value' : Value} →
    value.SameShape value' → value.walk depth = value'.walk depth
  | .primitive _ _, .primitive _ _, _ => rfl
  | .node _ _ _, .node _ _ _, h => by
    rw [walk, walk, SameShapes.walkAll_eq (depth + 1) h.2]

theorem SameShapes.walkAll_eq (depth : Nat) : {values values' : List Value} →
    SameShapes values values' → walkAll depth values = walkAll depth values'
  | [], [], _ => rfl
  | _ :: _, _ :: _, h => by
    rw [walkAll, walkAll, SameShape.walk_eq depth h.1, SameShapes.walkAll_eq depth h.2]

end

theorem SameShape.walkRoot_eq {value value' : Value} (h : value.SameShape value') :
    value.walkRoot = value'.walkRoot := by
  cases value with
  | primitive _ _ =>
    cases value' with
    | primitive _ _ => rfl
    | node _ _ _ => exact h.elim
  | node _ _ _ =>
    cases value' with
    | primitive _ _ => exact h.elim
    | node _ _ _ => rw [walkRoot, walkRoot, SameShapes.walkAll_eq 2 h.2]

mutual

/-- The size of the encoding goes by the shape. -/
theorem SameShape.encodedLength_eq : {value value' : Value} → value.SameShape value' →
    value.IsSized → value'.IsSized → value.encodedLength = value'.encodedLength
  | .primitive _ _, .primitive _ _, h, _, _ => by
    simp only [encodedLength, Value.identifier, contentLength, h.1, h.2]
  | .node _ _ _, .node _ _ _, h, hsized, hsized' => by
    have htotal := SameShapes.totalLength_eq h.2 hsized.2 hsized'.2
    simp only [encodedLength, Value.identifier, contentLength, h.1, hsized.1, hsized'.1, htotal]

theorem SameShapes.totalLength_eq : {values values' : List Value} → SameShapes values values' →
    AreSized values → AreSized values' → totalLength values = totalLength values'
  | [], [], _, _, _ => rfl
  | _ :: _, _ :: _, h, hsized, hsized' => by
    rw [totalLength_cons, totalLength_cons, SameShape.encodedLength_eq h.1 hsized.1 hsized'.1,
      SameShapes.totalLength_eq h.2 hsized.2 hsized'.2]

end

end Value

namespace Ber

open Value

/-! ## The walk so far -/

/-- The records of entering the constructed values around the cursor and of the children that are
complete, from the outside in. -/
def Frame.trail : List Frame → List Log.Record
  | [] => []
  | [root] => walkAll 2 root.children.reverse
  | frame :: parent :: below =>
    trail (parent :: below) ++ openedRecord (below.length + 2) ::
      walkAll (below.length + 3) frame.children.reverse

/-- What has been reported when a stack is reached. -/
def Stack.trail (stack : Stack) : List Log.Record :=
  Frame.trail (stack.top :: stack.below)

/-- A child that is complete adds its walk. -/
theorem Frame.trail_push (frame : Frame) (value : Value) (below : List Frame) :
    trail (frame.push value :: below) =
      trail (frame :: below) ++ value.walk (below.length + 2) := by
  cases below with
  | nil =>
    rw [trail, trail, push, List.reverse_cons, walkAll_concat]
    rfl
  | cons parent below =>
    rw [trail, trail, push, List.reverse_cons, walkAll_concat, List.append_assoc,
      List.cons_append]
    rfl

theorem Frame.trail_skip (frame : Frame) (header : Header) (below : List Frame) :
    trail (frame.skip header :: below) = trail (frame :: below) := by
  cases below <;> rfl

/-- A step that goes on reports the next part of the walk. -/
theorem Stack.Moves.trail {limit : Nat} {stack stack' : Stack} {events : List Event}
    (h : Moves limit stack (.running stack', events)) :
    stack'.trail = stack.trail ++ events.map Event.record := by
  cases h with
  | @close top parent below hend =>
    rw [Stack.trail, Frame.trail_push, Stack.trail, Frame.trail, List.append_assoc,
      Frame.finish, Value.constructed, walk]
    rfl
  | @enter top below header rest hparse hbit hroom =>
    rw [Stack.trail, Frame.trail, Frame.trail_skip]
    rfl
  | @read top below header rest hparse hbit =>
    rw [Stack.trail, Frame.trail_push, Frame.trail_skip]
    rfl

theorem Frame.level_of_mem_trail (frames : List Frame) :
    ∀ record ∈ trail frames, record.level = .trace := by
  fun_induction trail frames with
  | case1 => simp
  | case2 root => exact level_of_mem_walkAll 2 root.children.reverse
  | case3 frame parent below ih =>
    intro record hrecord
    rcases List.mem_append.mp hrecord with hrecord | hrecord
    · exact ih record hrecord
    · rcases List.mem_cons.mp hrecord with rfl | hrecord
      · rfl
      · exact level_of_mem_walkAll _ _ record hrecord

/-! ## The whole report -/

/-- The events that a refusal ends with: a fault of structure is reported, and a header that cannot
be read is not. -/
inductive Verdict : Error → List Event → Prop
  | overrun : Verdict .lengthMismatch [.overrun]
  | tooDeep (limit : Nat) : Verdict (.nestingTooDeep limit) [.tooDeep limit]
  | trailing (count : Nat) : Verdict .trailingData [.trailing count]
  | earlyEof : Verdict .earlyEof []
  | indefiniteLength : Verdict .indefiniteLength []
  | unsupportedLength : Verdict .unsupportedLength []

/-- The records of a decoding: all of the walk through its value, or some of a walk and the verdict
on the input. -/
inductive Reported : Except Error Value → List Log.Record → Prop
  | accepted (value : Value) : Reported (.ok value) value.walkRoot
  | refused {error : Error} {front : List Log.Record} {last : List Event}
      (hfront : ∀ record ∈ front, record.level = .trace) (hlast : Verdict error last) :
      Reported (.error error) (front ++ last.map Event.record)

theorem verdict_of_parse {input : Octets} {error : Error} (h : Header.parse input = .error error) :
    Verdict error [] := by
  rcases Header.error_of_parse h with rfl | rfl | rfl
  · exact .earlyEof
  · exact .indefiniteLength
  · exact .unsupportedLength

namespace Stack

variable {limit : Nat} {stack : Stack}

theorem Moves.walkRoot_eq {value : Value} {events : List Event}
    (h : Moves limit stack (.finished value, events)) :
    value.walkRoot = stack.trail ++ events.map Event.record := by
  cases h with
  | finish hend => rfl

theorem Moves.verdict {error : Error} {events : List Event}
    (h : Moves limit stack (.failed error, events)) : Verdict error events := by
  cases h with
  | refuse hmore hparse =>
    rcases Header.error_of_parse hparse with rfl | rfl | rfl
    · exact .overrun
    · exact .indefiniteLength
    · exact .unsupportedLength
  | tooDeep hparse hbit hdeep => exact .tooDeep limit

/-- A run that starts with the walk so far in its log ends with a report. -/
theorem reported_run {log : List Event} (h : stack.InBounds)
    (hlog : log.reverse.map Event.record = stack.trail) :
    Reported (stack.run limit log).1 ((stack.run limit log).2.reverse.map Event.record) := by
  fun_induction run limit stack log with
  | case1 stack log stack' events hstep ih =>
    have hmoves : Moves limit stack (.running stack', events) := hstep ▸ moves_step h
    refine ih (hmoves.inBounds h) ?_
    rw [List.reverse_append, List.reverse_reverse, List.map_append, hlog, hmoves.trail]
  | case2 stack log value events hstep =>
    have hmoves : Moves limit stack (.finished value, events) := hstep ▸ moves_step h
    rw [List.reverse_append, List.reverse_reverse, List.map_append, hlog, ← hmoves.walkRoot_eq]
    exact .accepted value
  | case3 stack log error events hstep =>
    have hmoves : Moves limit stack (.failed error, events) := hstep ▸ moves_step h
    rw [List.reverse_append, List.reverse_reverse, List.map_append, hlog]
    exact .refused (Frame.level_of_mem_trail _) hmoves.verdict

end Stack

theorem reported_decodeElement (limit : Nat) (input : Octets) :
    Reported ((decodeElement limit (.ofOctets input)).1.map Prod.fst)
      ((decodeElement limit (.ofOctets input)).2.map Event.record) := by
  have hnone : ∀ record ∈ ([] : List Log.Record), record.level = .trace := by simp
  cases hparse : Header.parse input with
  | error error =>
    rw [decodeElement_refused hparse]
    exact .refused hnone (verdict_of_parse hparse)
  | ok result =>
    obtain ⟨header, rest⟩ := result
    cases hbit : header.isConstructed with
    | false =>
      rw [decodeElement_primitive hparse hbit]
      exact .accepted _
    | true =>
      rcases Nat.eq_zero_or_pos limit with rfl | hroom
      · rw [decodeElement_tooDeep hparse hbit]
        exact .refused hnone (.tooDeep 0)
      · have hlog : ([] : List Event).reverse.map Event.record = (Stack.start header rest).trail :=
          rfl
        have hrun : Reported ((Stack.start header rest).run limit []).1 _ :=
          Stack.reported_run (Stack.inBounds_start header rest) hlog
        rw [decodeElement_constructed hparse hbit hroom]
        cases hresult : ((Stack.start header rest).run limit []).1 <;> rwa [hresult] at hrun

end Ber

namespace Value

/-- Every decoding ends with a report. -/
theorem reported_decodeWithEvents (input : Octets) (limit : Nat) :
    Reported (decodeWithEvents input limit).1
      ((decodeWithEvents input limit).2.map Event.record) := by
  have hreported := reported_decodeElement (min limit depthCap) input
  simp only [decodeWithEvents]
  split
  · rename_i error events helement
    rwa [helement] at hreported
  · rename_i value window events helement
    rw [helement] at hreported
    generalize hrecords : events.map Event.record = records at hreported
    cases hreported with
    | accepted =>
      split
      · rw [hrecords]
        exact .accepted value
      · rw [List.map_append, hrecords]
        exact .refused level_of_mem_walkRoot (.trailing _)

/-- The records of decoding an input. -/
def decodeRecords (input : Octets) (limit : Nat) : List Log.Record :=
  (decodeWithEvents input limit).2.map Event.record

theorem decodeRecords_of_ok {input : Octets} {limit : Nat} {value : Value}
    (h : decode input limit = .ok value) : decodeRecords input limit = value.walkRoot := by
  have hreported := reported_decodeWithEvents input limit
  rw [show (decodeWithEvents input limit).1 = .ok value from h] at hreported
  generalize hrecords : (decodeWithEvents input limit).2.map Event.record = records at hreported
  cases hreported with
  | accepted => exact hrecords

theorem decodeRecords_of_error {input : Octets} {limit : Nat} {error : Error}
    (h : decode input limit = .error error) :
    ∃ front last, decodeRecords input limit = front ++ last.map Event.record ∧
      (∀ record ∈ front, record.level = .trace) ∧ Verdict error last := by
  have hreported := reported_decodeWithEvents input limit
  rw [show (decodeWithEvents input limit).1 = .error error from h] at hreported
  generalize hrecords : (decodeWithEvents input limit).2.map Event.record = records at hreported
  cases hreported with
  | @refused _ front last hfront hlast => exact ⟨front, last, hrecords, hfront, hlast⟩

/-- A limit above the cap is the cap. -/
theorem decodeWithEvents_min (input : Octets) (limit : Nat) :
    decodeWithEvents input (min limit depthCap) = decodeWithEvents input limit := by
  rw [decodeWithEvents, Nat.min_assoc, Nat.min_self, decodeWithEvents]

end Value

namespace Converter

open Value

/-- The record of a conversion, with the sizes before and after. -/
def canonicalizedRecord (received encoded : Nat) : Log.Record :=
  ⟨.debug, "der", s!"canonicalized {received} BER octets into {encoded} DER octets"⟩

/-- The records of converting an input. -/
def convertRecords (converter : Converter) (input : Octets) : List Log.Record :=
  (converter.convertWithEvents input).2.map Event.record

variable {input : Octets} {limit : Nat}

theorem convertRecords_of_ok {value : Value} (h : Value.decode input limit = .ok value) :
    (withMaxDepth limit).convertRecords input =
      decodeRecords input limit ++
        [canonicalizedRecord input.length value.encode.length] := by
  have hresult : (Value.decodeWithEvents input limit).1 = .ok value := h
  rw [convertRecords, convertWithEvents, Converter.decodeWithEvents, withMaxDepth,
    decodeWithEvents_min, decodeRecords]
  generalize Value.decodeWithEvents input limit = report at hresult
  obtain ⟨result, events⟩ := report
  obtain rfl : result = .ok value := hresult
  simp only [toDer_eq_encode, List.map_append]
  rfl

theorem convertRecords_of_error {error : Error} (h : Value.decode input limit = .error error) :
    (withMaxDepth limit).convertRecords input = decodeRecords input limit := by
  have hresult : (Value.decodeWithEvents input limit).1 = .error error := h
  rw [convertRecords, convertWithEvents, Converter.decodeWithEvents, withMaxDepth,
    decodeWithEvents_min, decodeRecords]
  generalize Value.decodeWithEvents input limit = report at hresult
  obtain ⟨result, events⟩ := report
  obtain rfl : result = .error error := hresult
  rfl

end Converter

namespace Value

/-- The records of an accepted input are the walk through its tree, and a conversion adds the sizes
before and after. So inputs of one size whose trees have the same shape are reported alike, whatever
their content. Of a refused input there may be some records of a walk; at the end one record at the
debug level says that the input violates the structure, or nothing says that a header could not be
read. -/
theorem report_tells_shape (input : Octets) (limit : Nat) :
    (∀ value, decode input limit = .ok value →
      decodeRecords input limit = value.walkRoot ∧
        (∀ record ∈ value.walkRoot, record.level = .trace) ∧
        (Converter.withMaxDepth limit).convertRecords input =
          value.walkRoot ++
            [Converter.canonicalizedRecord input.length value.encode.length] ∧
        ∀ other limit' value', decode other limit' = .ok value' →
          other.length = input.length → value.SameShape value' →
          decodeRecords other limit' = decodeRecords input limit ∧
            (Converter.withMaxDepth limit').convertRecords other =
              (Converter.withMaxDepth limit).convertRecords input) ∧
      ∀ error, decode input limit = .error error →
        (Converter.withMaxDepth limit).convertRecords input = decodeRecords input limit ∧
          ((∃ front last, decodeRecords input limit = front ++ [last] ∧
              (∀ record ∈ front, record.level = .trace) ∧ last.level = .debug ∧
              (error = .lengthMismatch ∨ (∃ limit', error = .nestingTooDeep limit') ∨
                error = .trailingData)) ∨
            (∀ record ∈ decodeRecords input limit, record.level = .trace) ∧
              (error = .earlyEof ∨ error = .indefiniteLength ∨ error = .unsupportedLength)) := by
  refine ⟨?_, ?_⟩
  · intro value h
    have hrecords := decodeRecords_of_ok h
    refine ⟨hrecords, level_of_mem_walkRoot, ?_, ?_⟩
    · rw [Converter.convertRecords_of_ok h, hrecords]
    · intro other limit' value' h' hlength hshape
      have hsame : decodeRecords other limit' = decodeRecords input limit := by
        rw [decodeRecords_of_ok h', hrecords, hshape.walkRoot_eq]
      obtain ⟨helement, hsized, -⟩ := (decode_accepts_grammar _ _ _).mp h
      obtain ⟨helement', hsized', -⟩ := (decode_accepts_grammar _ _ _).mp h'
      refine ⟨hsame, ?_⟩
      rw [Converter.convertRecords_of_ok h, Converter.convertRecords_of_ok h', hsame, hlength,
        length_encode hsized, length_encode hsized', hshape.encodedLength_eq hsized hsized']
  · intro error h
    obtain ⟨front, last, hrecords, hfront, hverdict⟩ := decodeRecords_of_error h
    refine ⟨Converter.convertRecords_of_error h, ?_⟩
    rw [hrecords]
    cases hverdict with
    | overrun => exact .inl ⟨front, _, rfl, hfront, rfl, .inl rfl⟩
    | tooDeep limit' => exact .inl ⟨front, _, rfl, hfront, rfl, .inr (.inl ⟨limit', rfl⟩)⟩
    | trailing count => exact .inl ⟨front, _, rfl, hfront, rfl, .inr (.inr rfl)⟩
    | earlyEof => exact .inr ⟨by simpa using hfront, .inl rfl⟩
    | indefiniteLength => exact .inr ⟨by simpa using hfront, .inr (.inl rfl)⟩
    | unsupportedLength => exact .inr ⟨by simpa using hfront, .inr (.inr rfl)⟩

/-- Two inputs with other content in an inner element are reported alike, and an input whose second
element runs over the end of the outermost one is reported up to there. -/
theorem report_tells_shape_nested :
    decode [0x30, 8, 0x31, 3, 4, 1, 0xca, 5, 0x81, 0] 2 =
        .ok (constructed [0x30] [constructed [0x31] [.primitive [4] [0xca]], .primitive [5] []]) ∧
      decode [0x30, 8, 0x31, 3, 4, 1, 0xfe, 5, 0x81, 0] 7 =
        .ok (constructed [0x30] [constructed [0x31] [.primitive [4] [0xfe]], .primitive [5] []]) ∧
      decodeRecords [0x30, 8, 0x31, 3, 4, 1, 0xca, 5, 0x81, 0] 2 =
        [openedRecord 2, closedRecord 2, closedRecord 1] ∧
      (Converter.withMaxDepth 7).convertRecords [0x30, 8, 0x31, 3, 4, 1, 0xfe, 5, 0x81, 0] =
        (Converter.withMaxDepth 2).convertRecords [0x30, 8, 0x31, 3, 4, 1, 0xca, 5, 0x81, 0] ∧
      decode [0x30, 4, 0x31, 0, 4, 9] 2 = .error .lengthMismatch ∧
      (Converter.withMaxDepth 2).convertRecords [0x30, 4, 0x31, 0, 4, 9] =
        decodeRecords [0x30, 4, 0x31, 0, 4, 9] 2 := by
  have h : decode [0x30, 8, 0x31, 3, 4, 1, 0xca, 5, 0x81, 0] 2 =
      .ok (constructed [0x30] [constructed [0x31] [.primitive [4] [0xca]], .primitive [5] []]) := by
    cbv
  have h' : decode [0x30, 8, 0x31, 3, 4, 1, 0xfe, 5, 0x81, 0] 7 =
      .ok (constructed [0x30] [constructed [0x31] [.primitive [4] [0xfe]], .primitive [5] []]) := by
    cbv
  have hrefused : decode [0x30, 4, 0x31, 0, 4, 9] 2 = .error .lengthMismatch := by
    cbv
  obtain ⟨hrecords, -, -, hsame⟩ := (report_tells_shape _ 2).1 _ h
  exact ⟨h, h', hrecords, (hsame _ 7 _ h' rfl (by simp [SameShape, SameShapes, constructed])).2,
    hrefused, ((report_tells_shape _ 2).2 _ hrefused).1⟩

end Value

end Asn1
