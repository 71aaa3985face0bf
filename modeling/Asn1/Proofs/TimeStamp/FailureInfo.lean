import Mathlib.Data.List.Basic
import Asn1.TimeStamp.FailureInfo

/-!
# Failure reasons as bit strings

However a set of failure reasons comes about, its octets are a bit string: reading them back gives
the set (`ofContent?_content`). For a set made of reasons, setting a bit keeps the unused bits clear
(`EndsAt.setBit`). The check for a bit string looks at the lowest bits of the last octet, as many as
are unused (`isBitString_concat`).
-/

namespace Asn1.TimeStamp.FailureInfo

/-- The set was made of reasons, or it was read. -/
def IsObtained (info : FailureInfo) : Prop :=
  (∃ reasons, info = ofReasons reasons) ∨ ∃ content, ofContent? content = some info

/-- The bit octets reach just to the octet with the highest bit, and behind that bit all are
clear. -/
structure EndsAt (highest : Nat) (bits : Octets) : Prop where
  length : bits.length = highest / 8 + 1
  clear : bits.getLastD 0 &&& ((1 <<< UInt8.ofNat (7 - highest % 8)) - 1) = 0

theorem mask_and_unused {bit highest : Nat} (hbit : bit ≤ highest) (hhighest : highest < 8) :
    mask bit &&& ((1 <<< UInt8.ofNat (7 - highest)) - 1) = 0 := by
  have h : ∀ highest : Fin 8, ∀ bit : Fin 8, bit.val ≤ highest.val →
      mask bit &&& ((1 <<< UInt8.ofNat (7 - highest)) - 1) = 0 := by
    decide
  exact h ⟨highest, hhighest⟩ ⟨bit, Nat.lt_of_le_of_lt hbit hhighest⟩ hbit

theorem and_of_or {a b mask : UInt8} (ha : a &&& mask = 0) (hb : b &&& mask = 0) :
    (a ||| b) &&& mask = 0 := by
  have ha' := congrArg UInt8.toNat ha
  have hb' := congrArg UInt8.toNat hb
  rw [UInt8.toNat_and] at ha' hb'
  apply UInt8.toNat_inj.mp
  rw [UInt8.toNat_and, UInt8.toNat_or, Nat.and_or_distrib_right, ha', hb']
  rfl

theorem length_setBit (bits : Octets) (bit : Nat) : (setBit bits bit).length = bits.length := by
  rw [setBit, List.length_modify]

theorem getLastD_setBit (bits : Octets) (bit : Nat) (hne : bits ≠ []) :
    (setBit bits bit).getLastD 0 =
      if bit / 8 = bits.length - 1 then bits.getLastD 0 ||| mask (bit % 8)
      else bits.getLastD 0 := by
  have hlast : bits.length - 1 < bits.length := by
    have := List.length_pos_iff.mpr hne
    omega
  simp only [List.getLastD_eq_getLast?, List.getLast?_eq_getElem?, setBit,
    List.getElem?_modify, List.getElem?_eq_getElem hlast]
  split <;> simp_all

theorem EndsAt.setBit {highest bit : Nat} {bits : Octets} (h : EndsAt highest bits)
    (hbit : bit ≤ highest) : EndsAt highest (setBit bits bit) := by
  obtain ⟨hlength, hclear⟩ := h
  have hne : bits ≠ [] := by
    rintro rfl
    cases hlength
  refine ⟨(length_setBit bits bit).trans hlength, ?_⟩
  rw [getLastD_setBit bits bit hne]
  split
  · rename_i hoctet
    have hmask : mask (bit % 8) &&& ((1 <<< UInt8.ofNat (7 - highest % 8)) - 1) = 0 :=
      mask_and_unused (by omega) (by omega)
    exact and_of_or hclear hmask
  · exact hclear

theorem EndsAt.foldl {highest : Nat} {reasons : List FailureReason} {bits : Octets}
    (h : EndsAt highest bits) (hall : ∀ reason ∈ reasons, reason.bit ≤ highest) :
    EndsAt highest (reasons.foldl (fun bits reason => FailureInfo.setBit bits reason.bit) bits) := by
  induction reasons generalizing bits with
  | nil => exact h
  | cons reason reasons ih =>
    rw [List.foldl_cons]
    exact ih (h.setBit (hall reason (by simp))) fun other hother => hall other (by simp [hother])

theorem endsAt_replicate (highest : Nat) :
    EndsAt highest (List.replicate (highest / 8 + 1) 0) := by
  refine ⟨List.length_replicate, ?_⟩
  simp [List.getLastD_eq_getLast?, List.getLast?_replicate]

theorem isBitString_ofReasons (reasons : List FailureReason) :
    isBitString (ofReasons reasons).content = true := by
  rw [ofReasons]
  cases hmax : (reasons.map FailureReason.bit).max? with
  | none => rfl
  | some highest =>
    have hall : ∀ reason ∈ reasons, reason.bit ≤ highest := by
      intro reason hmem
      exact (List.max?_eq_some_iff.mp hmax).2 _ (List.mem_map_of_mem hmem)
    have hends := (endsAt_replicate highest).foldl hall
    simp only
    generalize reasons.foldl _ _ = bits at hends
    obtain ⟨hlength, hclear⟩ := hends
    obtain ⟨first, rest, rfl⟩ : ∃ first rest, bits = first :: rest := by
      cases bits with
      | nil => cases hlength
      | cons first rest => exact ⟨_, _, rfl⟩
    have hunused : UInt8.ofNat (7 - highest % 8) < 8 := by
      have hlt : 7 - highest % 8 < (8 : UInt8).toNat := Nat.lt_succ_of_le (Nat.sub_le _ _)
      rw [UInt8.lt_iff_toNat_lt, UInt8.toNat_ofNat']
      exact Nat.lt_of_le_of_lt (Nat.mod_le _ _) hlt
    rw [isBitString, hclear, decide_eq_true hunused]
    · rfl
    · simp

theorem ofContent?_eq_some_iff {content : Octets} {info : FailureInfo} :
    ofContent? content = some info ↔ isBitString content = true ∧ info = ⟨content⟩ := by
  rw [ofContent?]
  split
  · rename_i hbits
    simp [hbits, eq_comm]
  · rename_i hbits
    simp [hbits]

theorem ofContent?_content {info : FailureInfo} (h : info.IsObtained) :
    ofContent? info.content = some info := by
  have hbits : isBitString info.content = true := by
    rcases h with ⟨reasons, rfl⟩ | ⟨content, hcontent⟩
    · exact isBitString_ofReasons reasons
    · obtain ⟨hbits, rfl⟩ := ofContent?_eq_some_iff.mp hcontent
      exact hbits
  exact ofContent?_eq_some_iff.mpr ⟨hbits, rfl⟩

/-! ## Unused bits -/

/-- The mask of the unused bits has the lowest ones set. -/
theorem testBit_unusedMask {unused : UInt8} (hunused : unused.toNat < 8) (bit : Nat) :
    ((1 <<< unused) - 1).toNat.testBit bit = decide (bit < unused.toNat) := by
  by_cases hbit : bit < 8
  · have h : ∀ unused bit : Fin 8,
        ((1 <<< UInt8.ofNat unused) - 1).toNat.testBit bit = decide (bit < unused) := by
      decide
    have hmask := h ⟨unused.toNat, hunused⟩ ⟨bit, hbit⟩
    rwa [UInt8.ofNat_toNat] at hmask
  · have hlt := ((1 <<< unused) - 1).toNat_lt
    have hpow := Nat.pow_le_pow_right (show 0 < 2 by decide) (Nat.not_lt.mp hbit)
    rw [Nat.testBit_lt_two_pow (Nat.lt_of_lt_of_le hlt hpow), eq_comm, decide_eq_false_iff_not]
    omega

/-- No bit under the mask is set just when the lowest ones, as many as are unused, are clear. -/
theorem and_unusedMask_eq_zero_iff {unused last : UInt8} (hunused : unused.toNat < 8) :
    last &&& ((1 <<< unused) - 1) = 0 ↔
      ∀ bit < unused.toNat, last.toNat.testBit bit = false := by
  rw [← UInt8.toNat_inj, UInt8.toNat_and]
  constructor
  · intro h bit hbit
    have hclear := congrArg (Nat.testBit · bit) h
    simpa [Nat.testBit_and, testBit_unusedMask hunused, hbit] using hclear
  · intro h
    apply Nat.eq_of_testBit_eq
    intro bit
    rw [Nat.testBit_and, testBit_unusedMask hunused]
    by_cases hbit : bit < unused.toNat
    · simp [h bit hbit]
    · simp [hbit]

/-- Of octets of bits, the last one decides. -/
theorem isBitString_concat {unused last : UInt8} {middle : Octets} :
    isBitString (unused :: (middle ++ [last])) = true ↔
      unused.toNat < 8 ∧ ∀ bit < unused.toNat, last.toNat.testBit bit = false := by
  have hlast : (middle ++ [last]).getLastD 0 = last := by
    rw [List.getLastD_concat]
  rw [isBitString, hlast, Bool.and_eq_true, decide_eq_true_iff, UInt8.lt_iff_toNat_lt,
    beq_iff_eq]
  · exact and_congr_right and_unusedMask_eq_zero_iff
  · simp

end Asn1.TimeStamp.FailureInfo
