import Mathlib.Data.List.Basic
import Asn1.Proofs.TimeStamp.FailureInfo

/-!
# Failure reasons as bits

Octets are looked at as the list of their bits. What is read as a set holds the bits of the set and
then as many clear ones as are unused, fewer than eight (`fills_of_isBitString`), so the bits
determine the content (`Fills.unique`). In this view a look-up takes one element of the list
(`contains_iff`), and setting a bit sets one (`flatMap_octetBits_setBit`). Main statement:
`bits_tell_reasons`.
-/

namespace Asn1.TimeStamp

theorem FailureReason.bit_inj {reason other : FailureReason} :
    reason.bit = other.bit ↔ reason = other := by
  cases reason <;> cases other <;> decide

theorem FailureReason.pairwise_all : all.Pairwise (·.bit < ·.bit) := by
  decide

namespace FailureInfo

variable {number : Nat}

/-! ## The bits of octets -/

theorem length_octetBits (octet : UInt8) : (octetBits octet).length = 8 := by
  rw [octetBits, List.length_map, List.length_range]

theorem getElem?_octetBits (octet : UInt8) (h : number < 8) :
    (octetBits octet)[number]? = some (octet.toNat.testBit (7 - number)) := by
  rw [octetBits, List.getElem?_map, List.getElem?_range h, Option.map_some]

theorem octetBits_inj {octet other : UInt8} (h : octetBits octet = octetBits other) :
    octet = other := by
  apply UInt8.toNat_inj.mp
  apply Nat.eq_of_testBit_eq
  intro bit
  by_cases hbit : bit < 8
  · have hnumber : 7 - bit < 8 := by omega
    have hget := getElem?_octetBits octet hnumber
    rw [h, getElem?_octetBits other hnumber, Option.some.injEq] at hget
    rw [show 7 - (7 - bit) = bit by omega] at hget
    exact hget.symm
  · have hpow := Nat.pow_le_pow_right (show 0 < 2 by decide) (Nat.not_lt.mp hbit)
    rw [Nat.testBit_lt_two_pow (Nat.lt_of_lt_of_le octet.toNat_lt hpow),
      Nat.testBit_lt_two_pow (Nat.lt_of_lt_of_le other.toNat_lt hpow)]

theorem length_flatMap_octetBits (octets : Octets) :
    (octets.flatMap octetBits).length = octets.length * 8 := by
  induction octets with
  | nil => rfl
  | cons octet octets ih =>
    rw [List.flatMap_cons, List.length_append, length_octetBits, ih, List.length_cons]
    omega

theorem flatMap_octetBits_inj {octets others : Octets}
    (h : octets.flatMap octetBits = others.flatMap octetBits) : octets = others := by
  induction octets generalizing others with
  | nil =>
    have hlength := congrArg List.length h
    rw [length_flatMap_octetBits, length_flatMap_octetBits, List.length_nil] at hlength
    exact (List.eq_nil_of_length_eq_zero (by omega)).symm
  | cons octet octets ih =>
    cases others with
    | nil =>
      have hlength := congrArg List.length h
      simp [length_octetBits] at hlength
    | cons other others =>
      rw [List.flatMap_cons, List.flatMap_cons] at h
      obtain ⟨hfirst, hrest⟩ :=
        List.append_inj h ((length_octetBits octet).trans (length_octetBits other).symm)
      rw [octetBits_inj hfirst, ih hrest]

/-- A bit of octets is in the octet of its number, counted from the high end there. -/
theorem getElem?_flatMap_octetBits (octets : Octets) (number : Nat) :
    (octets.flatMap octetBits)[number]? =
      octets[number / 8]?.map fun octet => octet.toNat.testBit (7 - number % 8) := by
  induction octets generalizing number with
  | nil => simp
  | cons octet octets ih =>
    rw [List.flatMap_cons]
    by_cases h : number < 8
    · rw [List.getElem?_append_left (by rwa [length_octetBits]), getElem?_octetBits octet h,
        Nat.div_eq_of_lt h, Nat.mod_eq_of_lt h, List.getElem?_cons_zero, Option.map_some]
    · have hoctet : number / 8 = (number - 8) / 8 + 1 := by omega
      have hbit : (number - 8) % 8 = number % 8 := by omega
      rw [List.getElem?_append_right (by rw [length_octetBits]; omega), length_octetBits, ih,
        hoctet, hbit, List.getElem?_cons_succ]

/-! ## Masks -/

theorem testBit_mask (h : number < 8) (bit : Nat) :
    (mask number).toNat.testBit bit = decide (7 - number = bit) := by
  have hmask : ∀ number : Fin 8, (mask number).toNat = 2 ^ (7 - number.val) := by decide
  rw [hmask ⟨number, h⟩, Nat.testBit_two_pow]

theorem and_mask_ne_zero (octet : UInt8) (h : number < 8) :
    (octet &&& mask number != 0) = octet.toNat.testBit (7 - number) := by
  rw [Bool.eq_iff_iff, bne_iff_ne, Ne, ← UInt8.toNat_inj, UInt8.toNat_and]
  constructor
  · intro hne
    by_contra hclear
    refine hne (Nat.eq_of_testBit_eq fun bit => ?_)
    rw [Nat.testBit_and, testBit_mask h]
    by_cases hbit : 7 - number = bit
    · simpa [← hbit] using hclear
    · simp [hbit]
  · intro hset hzero
    have hbit := congrArg (Nat.testBit · (7 - number)) hzero
    simp [Nat.testBit_and, testBit_mask h, hset] at hbit

/-- Setting a bit of octets sets it in the list of their bits. -/
theorem flatMap_octetBits_setBit (octets : Octets) (bit : Nat) :
    (setBit octets bit).flatMap octetBits = (octets.flatMap octetBits).set bit true := by
  apply List.ext_getElem?
  intro number
  have hmod : bit % 8 < 8 := Nat.mod_lt _ (by decide)
  rw [getElem?_flatMap_octetBits, setBit, List.getElem?_modify, List.getElem?_set,
    length_flatMap_octetBits, getElem?_flatMap_octetBits]
  by_cases hnumber : bit = number
  · subst hnumber
    cases hoctet : octets[bit / 8]? with
    | none =>
      have hlength := List.getElem?_eq_none_iff.mp hoctet
      have hbehind : ¬ bit < octets.length * 8 := by omega
      simp [hbehind]
    | some octet =>
      have hlength := (List.getElem?_eq_some_iff.mp hoctet).1
      have hinside : bit < octets.length * 8 := by omega
      simp [hinside, Nat.testBit_or, testBit_mask hmod]
  · rw [if_neg hnumber]
    cases octets[number / 8]? with
    | none => rfl
    | some octet =>
      by_cases hoctet : bit / 8 = number / 8
      · have hother : ¬ 7 - bit % 8 = 7 - number % 8 := by omega
        simp [hoctet, Nat.testBit_or, testBit_mask hmod, hother]
      · simp [hoctet]

/-! ## Bits and their octets -/

/-- The octets hold just these bits: clear ones behind them fill the last octet, and the first octet
says how many. -/
inductive Fills (bits : List Bool) : Octets → Prop
  | mk {unused : UInt8} {octets : Octets} (hunused : unused.toNat < 8)
      (hfill : octets.flatMap octetBits = bits ++ List.replicate unused.toNat false) :
      Fills bits (unused :: octets)

/-- The bits of the last octet that are clear are the last ones of all. -/
theorem drop_flatMap_octetBits {middle : Octets} {last : UInt8} {unused : Nat} (hunused : unused < 8)
    (hclear : ∀ bit < unused, last.toNat.testBit bit = false) :
    ((middle ++ [last]).flatMap octetBits).drop ((middle ++ [last]).length * 8 - unused) =
      List.replicate unused false := by
  have hlength : (middle ++ [last]).length = middle.length + 1 := by simp
  refine List.eq_replicate_iff.mpr ⟨?_, fun bit hbit => ?_⟩
  · rw [List.length_drop, length_flatMap_octetBits, hlength]
    omega
  · obtain ⟨number, hnumber⟩ := List.mem_iff_getElem?.mp hbit
    rw [List.getElem?_drop, getElem?_flatMap_octetBits] at hnumber
    obtain ⟨octet, hoctet, rfl⟩ := Option.map_eq_some_iff.mp hnumber
    have hinside := (List.getElem?_eq_some_iff.mp hoctet).1
    rw [hlength] at hoctet hinside ⊢
    have hlast : ((middle.length + 1) * 8 - unused + number) / 8 = middle.length := by omega
    rw [hlast, List.getElem?_concat_length, Option.some.injEq] at hoctet
    subst hoctet
    exact hclear _ (by omega)

/-- What is accepted as a bit string holds its bits, and the unused ones are clear. -/
theorem fills_of_isBitString {content : Octets} (h : isBitString content = true) :
    Fills (bits ⟨content⟩) content := by
  cases content with
  | nil => cases h
  | cons unused octets =>
    rcases List.eq_nil_or_concat octets with rfl | ⟨middle, last, rfl⟩
    · have hzero : unused = 0 := by simpa [isBitString] using h
      subst hzero
      exact .mk (by decide) rfl
    · rw [List.concat_eq_append] at h ⊢
      obtain ⟨hunused, hclear⟩ := isBitString_concat.mp h
      refine .mk hunused ?_
      rw [bits, ← drop_flatMap_octetBits hunused hclear, List.take_append_drop]

theorem Fills.unique {bits : List Bool} {content other : Octets} (h : Fills bits content)
    (h' : Fills bits other) : content = other := by
  cases h with
  | @mk unused octets hunused hfill =>
    cases h' with
    | @mk unused' octets' hunused' hfill' =>
      have hlength := congrArg List.length hfill
      have hlength' := congrArg List.length hfill'
      rw [length_flatMap_octetBits, List.length_append, List.length_replicate] at hlength hlength'
      have heq : unused = unused' := UInt8.toNat_inj.mp (by omega)
      rw [heq, ← hfill'] at hfill
      rw [heq, flatMap_octetBits_inj hfill]

/-! ## Looking a reason up -/

/-- A reason is in the set when its bit is there and set. -/
theorem contains_iff (info : FailureInfo) (reason : FailureReason) :
    info.contains reason = true ↔ info.bits[reason.bit]? = some true := by
  obtain ⟨content⟩ := info
  cases content with
  | nil => simp [contains, bits]
  | cons unused octets =>
    have hmod : reason.bit % 8 < 8 := Nat.mod_lt _ (by decide)
    simp only [contains, bits, List.getElem?_take, getElem?_flatMap_octetBits]
    rw [and_mask_ne_zero _ hmod]
    by_cases hbit : reason.bit < octets.length * 8 - unused.toNat
    · rw [if_neg (by omega), if_pos hbit]
      cases hoctet : octets[reason.bit / 8]? with
      | none => simp [List.getD_eq_getElem?_getD, hoctet]
      | some octet => simp [List.getD_eq_getElem?_getD, hoctet]
    · rw [if_pos (by omega), if_neg hbit]
      simp

/-- A look-up in octets that are there never goes out of range. -/
theorem contains?_eq {info : FailureInfo} (h : info.content ≠ []) (reason : FailureReason) :
    info.contains? reason = some (info.contains reason) := by
  obtain ⟨content⟩ := info
  cases content with
  | nil => exact absurd rfl h
  | cons unused octets =>
    simp only [contains?, contains, List.getElem?_cons_zero, List.drop_one, List.tail_cons,
      Option.bind_eq_bind, Option.bind_some]
    by_cases hbit : octets.length * 8 - min unused.toNat (octets.length * 8) ≤ reason.bit
    · rw [if_pos hbit, if_pos hbit]
      rfl
    · have hoctet : reason.bit / 8 < octets.length := by omega
      rw [if_neg hbit, if_neg hbit, List.getD_eq_getElem?_getD, List.getElem?_eq_getElem hoctet]
      rfl

/-! ## Sets made of reasons -/

/-- The number of bits that some reasons need: up to the highest one of them. -/
def extent (reasons : List FailureReason) : Nat :=
  match (reasons.map FailureReason.bit).max? with
  | none => 0
  | some highest => highest + 1

theorem lt_extent_iff {reasons : List FailureReason} :
    number < extent reasons ↔ ∃ reason ∈ reasons, number ≤ reason.bit := by
  rw [extent]
  cases hmax : (reasons.map FailureReason.bit).max? with
  | none =>
    have hnil : reasons = [] := by simpa using hmax
    simp [hnil]
  | some highest =>
    obtain ⟨hmem, hle⟩ := List.max?_eq_some_iff.mp hmax
    obtain ⟨top, htop, rfl⟩ := List.mem_map.mp hmem
    constructor
    · intro h
      exact ⟨top, htop, Nat.le_of_lt_succ h⟩
    · rintro ⟨reason, hreason, h⟩
      exact Nat.lt_succ_of_le (Nat.le_trans h (hle _ (List.mem_map_of_mem hreason)))

/-- Setting the bits of reasons one after the other sets just these. -/
theorem getElem?_foldl_setBit (reasons : List FailureReason) (octets : Octets) (number : Nat) :
    ((reasons.foldl (fun octets reason => setBit octets reason.bit) octets).flatMap
        octetBits)[number]? =
      (octets.flatMap octetBits)[number]?.map
        (decide (number ∈ reasons.map FailureReason.bit) || ·) := by
  induction reasons generalizing octets with
  | nil => simp
  | cons reason reasons ih =>
    rw [List.foldl_cons, ih, flatMap_octetBits_setBit, List.getElem?_set, List.map_cons]
    generalize octets.flatMap octetBits = bits
    by_cases hbit : reason.bit = number
    · subst hbit
      by_cases hinside : reason.bit < bits.length
      · simp [hinside]
      · simp [hinside]
    · have hne : ¬ number = reason.bit := fun h => hbit h.symm
      simp [hbit, hne]

theorem length_foldl_setBit (reasons : List FailureReason) (octets : Octets) :
    (reasons.foldl (fun octets reason => setBit octets reason.bit) octets).length =
      octets.length := by
  induction reasons generalizing octets with
  | nil => rfl
  | cons reason reasons ih => rw [List.foldl_cons, ih, length_setBit]

/-- The bits of a set made of reasons are those of the reasons, up to the highest one. -/
theorem bits_ofReasons (reasons : List FailureReason) :
    (ofReasons reasons).bits =
      (List.range (extent reasons)).map fun number =>
        decide (number ∈ reasons.map FailureReason.bit) := by
  rw [ofReasons, extent]
  cases hmax : (reasons.map FailureReason.bit).max? with
  | none => rfl
  | some highest =>
    have hunused : (UInt8.ofNat (7 - highest % 8)).toNat = 7 - highest % 8 := by
      rw [UInt8.toNat_ofNat']
      omega
    have hkeep : (highest / 8 + 1) * 8 - (7 - highest % 8) = highest + 1 := by omega
    simp only [bits, hunused, length_foldl_setBit, List.length_replicate, hkeep]
    apply List.ext_getElem?
    intro number
    rw [List.getElem?_take, getElem?_foldl_setBit, List.getElem?_map]
    by_cases hnumber : number < highest + 1
    · have hoctet : number / 8 < highest / 8 + 1 := by omega
      rw [if_pos hnumber, List.getElem?_range hnumber, getElem?_flatMap_octetBits,
        List.getElem?_replicate, if_pos hoctet]
      simp
    · rw [if_neg hnumber]
      simp [hnumber]

/-- A set made of reasons holds these and no others. -/
theorem contains_ofReasons_iff {reasons : List FailureReason} {reason : FailureReason} :
    (ofReasons reasons).contains reason = true ↔ reason ∈ reasons := by
  rw [contains_iff, bits_ofReasons, List.getElem?_map]
  constructor
  · intro h
    obtain ⟨number, hnumber, hset⟩ := Option.map_eq_some_iff.mp h
    rw [List.getElem?_eq_some_iff] at hnumber
    obtain ⟨hinside, rfl⟩ := hnumber
    rw [List.getElem_range, decide_eq_true_iff, List.mem_map] at hset
    obtain ⟨other, hother, hbit⟩ := hset
    rwa [← FailureReason.bit_inj.mp hbit]
  · intro h
    have hinside : reason.bit < extent reasons := lt_extent_iff.mpr ⟨reason, h, Nat.le_refl _⟩
    rw [List.getElem?_range hinside, Option.map_some,
      decide_eq_true (List.mem_map_of_mem h)]

/-- The last bit of a set made of reasons is one of them. -/
theorem getLast?_bits_ofReasons (reasons : List FailureReason) :
    (ofReasons reasons).bits.getLast? ≠ some false := by
  rw [bits_ofReasons, extent]
  cases hmax : (reasons.map FailureReason.bit).max? with
  | none => simp
  | some highest =>
    have hmem := (List.max?_eq_some_iff.mp hmax).1
    rw [List.range_succ, List.map_append, List.map_singleton, List.getLast?_concat,
      decide_eq_true hmem]
    simp

theorem mem_reasons_iff {info : FailureInfo} {reason : FailureReason} :
    reason ∈ info.reasons ↔ info.contains reason = true := by
  rw [reasons, List.mem_filter, and_iff_right reason.mem_all]

theorem pairwise_reasons (info : FailureInfo) : info.reasons.Pairwise (·.bit < ·.bit) :=
  FailureReason.pairwise_all.filter _

theorem extent_congr {reasons others : List FailureReason}
    (h : ∀ reason, reason ∈ reasons ↔ reason ∈ others) : extent reasons = extent others := by
  have hlt : ∀ number, number < extent reasons ↔ number < extent others := by
    intro number
    simp only [lt_extent_iff, h]
  have hleft := hlt (extent others)
  have hright := hlt (extent reasons)
  omega

/-- Sets made of reasons are equal when the same reasons were given, in whatever order and however
often. -/
theorem ofReasons_eq_iff {reasons others : List FailureReason} :
    ofReasons reasons = ofReasons others ↔ ∀ reason, reason ∈ reasons ↔ reason ∈ others := by
  constructor
  · intro h reason
    rw [← contains_ofReasons_iff, h, contains_ofReasons_iff]
  · intro h
    have hbits : (ofReasons reasons).bits = (ofReasons others).bits := by
      have hset : ∀ number, number ∈ reasons.map FailureReason.bit ↔
          number ∈ others.map FailureReason.bit := by
        intro number
        simp only [List.mem_map, h]
      simp only [bits_ofReasons, extent_congr h, hset]
    have hfills := fills_of_isBitString (isBitString_ofReasons reasons)
    have hfills' := fills_of_isBitString (isBitString_ofReasons others)
    have hcontent : (ofReasons reasons).content = (ofReasons others).content :=
      hfills.unique (hbits ▸ hfills')
    exact congrArg mk hcontent

/-! ## Reasons and bits -/

theorem IsObtained.fills {info : FailureInfo} (h : info.IsObtained) :
    Fills info.bits info.content :=
  fills_of_isBitString (ofContent?_eq_some_iff.mp (ofContent?_content h)).1

/-- No unused bit is set, so the bits that are set can be found in the octets as they stand. -/
theorem getElem?_bits_eq_some_true_iff {info : FailureInfo} (h : info.IsObtained) (number : Nat) :
    info.bits[number]? = some true ↔
      ∃ octet, info.content[1 + number / 8]? = some octet ∧
        octet.toNat.testBit (7 - number % 8) = true := by
  have hfills := h.fills
  generalize info.bits = bits at hfills ⊢
  generalize info.content = content at hfills ⊢
  cases hfills with
  | @mk unused octets hunused hfill =>
    have hpadded : (bits ++ List.replicate unused.toNat false)[number]? = some true ↔
        bits[number]? = some true := by
      by_cases hinside : number < bits.length
      · rw [List.getElem?_append_left hinside]
      · rw [List.getElem?_append_right (by omega), List.getElem?_replicate,
          List.getElem?_eq_none (Nat.not_lt.mp hinside)]
        split <;> simp
    rw [← hpadded, ← hfill, getElem?_flatMap_octetBits, Option.map_eq_some_iff, Nat.add_comm 1,
      List.getElem?_cons_succ]

/-- However a set was obtained, its octets hold its bits and then fewer than eight clear ones, none
if there are no bits, so a look-up finds all octets that it asks for. A set made of reasons holds
just these: they are listed once each in the order of their bits, the last bit belongs to one of
them, the octets are read as the set again, and the reasons determine the set. In octets that were
read, a reason is found when the bit with its number is there and set. -/
theorem bits_tell_reasons :
    (∀ info : FailureInfo, info.IsObtained →
      (∃ unused octets, info.content = unused :: octets ∧ unused.toNat < 8 ∧
        (octets = [] → unused = 0) ∧
        octets.flatMap octetBits = info.bits ++ List.replicate unused.toNat false) ∧
      ∀ reason, info.contains? reason = some (info.contains reason)) ∧
    (∀ reasons : List FailureReason,
      (∀ reason, (ofReasons reasons).contains reason = true ↔ reason ∈ reasons) ∧
      (∀ reason, reason ∈ (ofReasons reasons).reasons ↔ reason ∈ reasons) ∧
      (ofReasons reasons).reasons.Pairwise (·.bit < ·.bit) ∧
      ofContent? (ofReasons reasons).content = some (ofReasons reasons) ∧
      (ofReasons reasons).bits.getLast? ≠ some false ∧
      ∀ others, ofReasons reasons = ofReasons others ↔
        ∀ reason, reason ∈ reasons ↔ reason ∈ others) ∧
    ∀ content info, ofContent? content = some info → ∀ reason : FailureReason,
      (info.contains reason = true ↔ info.bits[reason.bit]? = some true) ∧
      (info.contains reason = true ↔ ∃ octet, content[1 + reason.bit / 8]? = some octet ∧
        octet.toNat.testBit (7 - reason.bit % 8) = true) := by
  refine ⟨fun info h => ?_, fun reasons => ?_, fun content info h reason => ?_⟩
  · have hfills := h.fills
    generalize hcontent : info.content = content at hfills
    cases hfills with
    | @mk unused octets hunused hfill =>
      refine ⟨⟨unused, octets, rfl, hunused, ?_, hfill⟩, contains?_eq (by simp [hcontent])⟩
      rintro rfl
      have hlength := congrArg List.length hfill
      rw [List.length_append, List.length_replicate] at hlength
      exact UInt8.toNat_inj.mp (Nat.eq_zero_of_add_eq_zero_left hlength.symm)
  · exact ⟨fun _ => contains_ofReasons_iff, fun _ => mem_reasons_iff.trans contains_ofReasons_iff,
      pairwise_reasons _, ofContent?_content (.inl ⟨reasons, rfl⟩), getLast?_bits_ofReasons reasons,
      fun _ => ofReasons_eq_iff⟩
  · have hobtained : info.IsObtained := .inr ⟨content, h⟩
    obtain ⟨-, rfl⟩ := ofContent?_eq_some_iff.mp h
    refine ⟨contains_iff _ reason, ?_⟩
    rw [contains_iff, getElem?_bits_eq_some_true_iff hobtained]

/-- Reasons in any order and more than once make one set. A bit string that goes on behind the last
reason, with bits that belong to none, is read, and its two unused bits are clear. -/
theorem bits_tell_reasons_foreign :
    ofReasons [.systemFailure, .badAlg, .systemFailure] = ofReasons [.badAlg, .systemFailure] ∧
      (ofReasons [.systemFailure, .badAlg, .systemFailure]).content = [6, 0x80, 0, 0, 0x40] ∧
      ofContent? [2, 0x60, 0, 0, 0, 0xc4] = some ⟨[2, 0x60, 0, 0, 0, 0xc4]⟩ ∧
      (⟨[2, 0x60, 0, 0, 0, 0xc4]⟩ : FailureInfo).contains .badRequest = true ∧
      (⟨[2, 0x60, 0, 0, 0, 0xc4]⟩ : FailureInfo).contains? .systemFailure = some false := by
  obtain ⟨hobtained, hmade, hread⟩ := bits_tell_reasons
  have hforeign : ofContent? [2, 0x60, 0, 0, 0, 0xc4] = some ⟨[2, 0x60, 0, 0, 0, 0xc4]⟩ := by
    decide
  obtain ⟨-, -, -, -, -, heq⟩ := hmade [.systemFailure, .badAlg, .systemFailure]
  refine ⟨(heq _).mpr ?_, by decide, hforeign, ?_, ?_⟩
  · intro reason
    cases reason <;> decide
  · exact (hread _ _ hforeign .badRequest).1.mpr (by decide)
  · rw [(hobtained _ (.inr ⟨_, hforeign⟩)).2]
    decide

end FailureInfo

end Asn1.TimeStamp
