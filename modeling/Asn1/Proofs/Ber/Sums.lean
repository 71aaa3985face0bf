import Asn1.Ber.Sums
import Asn1.Proofs.Ber.Loop
import Asn1.Proofs.Value.Stretch

/-!
# Sums that fit a word

Every size that is added up while an input is decoded is a part of the input. The frames lie in one
another, so the content of each is no longer than the input (`Nested.length_le`), and the children
of a frame are encoded in no more octets than they were read from (`Accounted.totalLength_le`). A
header is accepted only in front of its content, so no sum is formed from a length that is declared
too large. All sums are then those of whole numbers (`sums_fit_words`).
-/

namespace Asn1.Ber

theorem fitsWord_of_lt {m n : Nat} (h : m + n < 2 ^ 64) : FitsWord m n := by
  have hm : m < 2 ^ 64 := by omega
  have hn : n < 2 ^ 64 := by omega
  rw [FitsWord, UInt64.toNat_add, UInt64.toNat_ofNat_of_lt' hm, UInt64.toNat_ofNat_of_lt' hn,
    Nat.mod_eq_of_lt h]

end Asn1.Ber

/-! ## Sizes of values -/

namespace Asn1.Value

variable {value : Value} {values : List Value}

/-- What is added up for the size of a value is no more than that size. -/
theorem Adds.le_encodedLength {m n : Nat} (h : value.Adds m n) : m + n ≤ value.encodedLength := by
  unfold encodedLength
  cases h with
  | lengthOctets hlong =>
    rw [Ber.Length.octetCount, if_neg (Nat.not_lt.mpr hlong)]
    omega
  | header => exact Nat.le_add_right _ _
  | whole => exact Nat.le_refl _

/-- The content length of a well-formed value has room in four octets. -/
theorem IsWellFormed.contentLength_lt (h : value.IsWellFormed) :
    value.contentLength < 256 ^ 4 := by
  cases value with
  | primitive identifier content =>
    rw [IsWellFormed] at h
    exact h.2.2
  | node identifier children contentLength =>
    rw [IsWellFormed] at h
    exact h.2.2.1

theorem totalLength_le_of_isPrefix {front : List Value} (h : front <+: values) :
    totalLength front ≤ totalLength values := by
  obtain ⟨back, rfl⟩ := h
  rw [totalLength_append]
  exact Nat.le_add_right _ _

theorem encodedLength_le_of_mem (h : value ∈ values) :
    value.encodedLength ≤ totalLength values := by
  obtain ⟨front, back, rfl⟩ := List.append_of_mem h
  rw [totalLength_append, totalLength_cons]
  omega

end Asn1.Value

namespace Asn1.Ber

/-! ## Sizes of frames -/

theorem Frame.IsSliceOf.length_le {frame : Frame} {window : Window} (h : frame.IsSliceOf window) :
    frame.content.data.length ≤ window.data.length := by
  obtain ⟨start, hslice⟩ := h
  obtain ⟨-, hstop, heq⟩ := Window.slice_eq_ok_iff.mp hslice
  have hdata : frame.content.data = (window.data.drop start).take (window.offset - start) :=
    congrArg Window.data heq
  rw [hdata, List.length_take, List.length_drop]
  omega

/-- Frames in one another are over no more octets than the window around them all. -/
theorem Nested.length_le {outer : Window} {frames : List Frame} (h : Nested outer frames) :
    ∀ frame ∈ frames, frame.content.data.length ≤ outer.data.length := by
  induction frames with
  | nil => simp
  | cons child below ih =>
    cases below with
    | nil => simpa using Frame.IsSliceOf.length_le h
    | cons parent below =>
      -- The child lies in its parent, and that is one of the frames below.
      obtain ⟨hchild, hbelow⟩ := h
      have hparent := ih hbelow parent (by simp)
      rw [List.forall_mem_cons]
      exact ⟨hchild.length_le.trans hparent, ih hbelow⟩

/-- The children read so far are encoded in no more octets than the content has. -/
theorem Frame.IsAccounted.totalLength_le {IsLast : Octets → Prop} {frame : Frame}
    (h : frame.IsAccounted IsLast) :
    Value.totalLength frame.children.reverse ≤ frame.content.data.length := by
  obtain ⟨parts, last, hparts, -, hconsumed, -⟩ := h
  have hsizes := Value.totalLength_le (areElements_flatten hparts)
  have hlength := congrArg List.length hconsumed
  simp only [Frame.consumed, List.length_take, List.length_append] at hlength
  omega

theorem Accounted.totalLength_le {IsLast : Octets → Prop} {frames : List Frame}
    (h : Accounted IsLast frames) :
    ∀ frame ∈ frames,
      Value.totalLength frame.children.reverse ≤ frame.content.data.length := by
  induction frames generalizing IsLast with
  | nil => simp
  | cons top below ih =>
    obtain ⟨htop, hbelow⟩ := h
    rw [List.forall_mem_cons]
    exact ⟨htop.totalLength_le, ih hbelow⟩

/-! ## Sizes while an input is decoded -/

section Decoding

variable {limit : Nat} {input : Octets} {frames : List Frame} {window behind : Window}
  {header : Header}

/-- The loop is entered with the frame of the outermost element, so its invariant holds. -/
theorem FramesOf.exists_invariant (h : FramesOf limit input frames) :
    ∃ header : Header, Loop.Invariant limit (header.past input) frames := by
  obtain ⟨hdecode, hbit, hroom, henter, hhead⟩ := h
  obtain ⟨rest, hparse, rfl⟩ := Header.decode_eq_ok_iff.mp hdecode
  rw [(Window.inBounds_ofOctets input).enter_behind hparse] at henter
  cases henter
  exact ⟨_, (Loop.Invariant.start hparse hroom).atHead hhead⟩

theorem FramesOf.length_le (h : FramesOf limit input frames) :
    ∀ frame ∈ frames, frame.content.data.length ≤ input.length := by
  obtain ⟨header, hinvariant⟩ := h.exists_invariant
  exact hinvariant.nested.length_le

theorem FramesOf.totalLength_le (h : FramesOf limit input frames) :
    ∀ frame ∈ frames, Value.totalLength frame.children.reverse ≤ input.length := by
  intro frame hmem
  obtain ⟨header, hinvariant⟩ := h.exists_invariant
  exact (hinvariant.accounted.totalLength_le frame hmem).trans (h.length_le frame hmem)

theorem Visits.length_le (h : Visits limit input window) :
    window.data.length ≤ input.length := by
  cases h with
  | outermost => exact Nat.le_refl _
  | inside hframes hmem => exact hframes.length_le _ hmem

/-- A header and its content lie in the window that the header was read from, and the content lies
behind the cursor. -/
theorem Header.lengths_le_of_decode (h : Header.decode window = .ok (header, behind)) :
    header.elementLength ≤ window.data.length ∧
      behind.offset + header.contentLength ≤ window.data.length := by
  obtain ⟨hdata, hoffset, -, hfits⟩ := Header.decode_eq_ok h
  rw [hdata] at hfits
  refine ⟨?_, hfits⟩
  rw [Header.elementLength]
  omega

/-- No sum is more than the input has octets, apart from the number of frames. -/
theorem Adds.le {m n : Nat} (h : Adds limit input m n) :
    m + n ≤ input.length ∨ m + n ≤ limit + 1 := by
  cases h with
  | header hvisits hdecode =>
    -- The cursor stops where the content begins, and that has to fit as well.
    have hle := hvisits.length_le
    obtain ⟨-, hcontent⟩ := Header.lengths_le_of_decode hdecode
    obtain ⟨-, hoffset, -⟩ := Header.decode_eq_ok hdecode
    omega
  | element hvisits hdecode =>
    exact .inl ((Header.lengths_le_of_decode hdecode).1.trans hvisits.length_le)
  | content hvisits hdecode =>
    exact .inl ((Header.lengths_le_of_decode hdecode).2.trans hvisits.length_le)
  | @child frames frame front value hframes hmem hchild =>
    -- The sum so far and the next size are those of a front of the children.
    have hsum := Value.totalLength_le_of_isPrefix hchild
    rw [Value.totalLength_append, Value.totalLength_cons, Value.totalLength_nil] at hsum
    exact .inl (hsum.trans (hframes.totalLength_le frame hmem))
  | @size frames frame value _ _ hframes hmem hchild hadds =>
    have hsize := Value.encodedLength_le_of_mem (List.mem_reverse.mpr hchild)
    exact .inl (hadds.le_encodedLength.trans (hsize.trans (hframes.totalLength_le frame hmem)))
  | depth hframes =>
    obtain ⟨header, hinvariant⟩ := hframes.exists_invariant
    exact .inr (Nat.add_le_add_right hinvariant.room 1)

end Decoding

end Asn1.Ber

namespace Asn1.Value

open Ber

/-- In no decoding of an input of less than `2 ^ 63` octets, whether it is accepted or not, does a
sum leave the words of 64 bits. Wherever a header is read, it and its content lie in the window, and
the window is no longer than the input. Each value of an accepted tree is encoded in no more octets
than stand in the input for it. Its content has a length of at most four octets, and what is added
up for its size leaves no word either. -/
theorem sums_fit_words {input : Octets} (hinput : input.length < 2 ^ 63) (limit : Nat) :
    (∀ window, Visits (min limit depthCap) input window →
        window.data.length ≤ input.length ∧
        ∀ header behind, Header.decode window = .ok (header, behind) →
          header.elementLength ≤ window.data.length ∧
          behind.offset + header.contentLength ≤ window.data.length) ∧
      (∀ m n, Ber.Adds (min limit depthCap) input m n → FitsWord m n) ∧
      ∀ value, decode input limit = .ok value →
        ∀ position node, value.at? position = some node →
          (∃ part, stretch? input position = some part ∧ part <:+: input ∧
            IsElement part node ∧ node.encodedLength ≤ part.length) ∧
          node.contentLength < 2 ^ 32 ∧ Octets.significant node.contentLength ≤ 4 ∧
          ∀ m n, node.Adds m n → FitsWord m n := by
  -- No more frames than this are counted, whatever the limit is.
  have hcap : min limit depthCap ≤ 1024 := Nat.min_le_right _ _
  refine ⟨?_, ?_, ?_⟩
  · intro window hvisits
    exact ⟨hvisits.length_le, fun header behind hdecode => Header.lengths_le_of_decode hdecode⟩
  · intro m n hadds
    have hle := hadds.le
    exact fitsWord_of_lt (by omega)
  · intro value hdecode position node hnode
    obtain ⟨part, hpart, hinfix, helement⟩ := exists_stretch (decode_eq_ok_iff.mp hdecode).1 hnode
    have hsize := encodedLength_le helement
    have hpartLength := hinfix.length_le
    have hcontent := (isWellFormed_of_isElement helement).contentLength_lt
    refine ⟨⟨part, hpart, hinfix, helement, hsize⟩, hcontent,
      Octets.significant_le_iff.mpr hcontent, ?_⟩
    intro m n hadds
    have hle := hadds.le_encodedLength
    exact fitsWord_of_lt (by omega)

/-- One padded length inside another. The outer header is followed by the other five octets of the
input, and the inner element stands in five octets where four are needed. -/
theorem sums_fit_words_nested :
    ([0x30, 0x81, 5, 0x31, 0x81, 2, 5, 0] : Octets).length < 2 ^ 63 ∧
      Header.elementLength ⟨[0x30], 5, 3⟩ ≤ 8 ∧
      FitsWord 3 5 ∧
      (∃ part, stretch? [0x30, 0x81, 5, 0x31, 0x81, 2, 5, 0] [0] = some part ∧
        (constructed [0x31] [.primitive [5] []]).encodedLength ≤ part.length) ∧
      FitsWord 2 2 := by
  have hinput : ([0x30, 0x81, 5, 0x31, 0x81, 2, 5, 0] : Octets).length < 2 ^ 63 := by decide
  have houter : Header.decode (.ofOctets [0x30, 0x81, 5, 0x31, 0x81, 2, 5, 0]) =
      .ok (⟨[0x30], 5, 3⟩, ⟨[0x30, 0x81, 5, 0x31, 0x81, 2, 5, 0], 3⟩) := by
    cbv
  have haccepted : decode [0x30, 0x81, 5, 0x31, 0x81, 2, 5, 0] 2 =
      .ok (.constructed [0x30] [.constructed [0x31] [.primitive [5] []]]) := by
    cbv
  obtain ⟨hwindows, hsums, hnodes⟩ := sums_fit_words hinput 2
  obtain ⟨⟨part, hpart, -, -, hsize⟩, -, -, hadds⟩ := hnodes _ haccepted [0] _ rfl
  exact ⟨hinput, ((hwindows _ .outermost).2 _ _ houter).1, hsums _ _ (.content .outermost houter),
    ⟨part, hpart, hsize⟩, hadds _ _ .whole⟩

end Asn1.Value
