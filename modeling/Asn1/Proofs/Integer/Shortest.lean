import Asn1.Proofs.Except
import Asn1.Proofs.Integer
import Asn1.TimeStamp.StatusInfo

/-!
# Shortest contents of integers

Two contents with the same value are the same octets as soon as they are equally long
(`eq_of_length_eq`), and of two different lengths the greater one has a redundant octet in front
(`length_le_of_isMinimal`). So the content without such an octet is the shortest, and it is what
trimming leaves, which takes nothing from the value. Main statement: `decodes_and_encodes_shortest`.
-/

namespace Asn1.Integer

open Octets

/-- The first octet only repeats the sign of the second: it is zero in front of an octet below 128,
or 255 in front of one that is not. -/
def StartsRedundant (content : Octets) : Prop :=
  ∃ first second rest, content = first :: second :: rest ∧
    (first = 0x00 ∧ second < 0x80 ∨ first = 0xff ∧ 0x80 ≤ second)

theorem isRedundant_iff {first second : UInt8} :
    isRedundant first second = true ↔
      first = 0x00 ∧ second < 0x80 ∨ first = 0xff ∧ 0x80 ≤ second := by
  have hlow : second < 0x80 ↔ ¬ 128 ≤ second.toNat := by
    rw [UInt8.lt_iff_toNat_lt, Nat.not_le]
    rfl
  have hhigh : 0x80 ≤ second ↔ 128 ≤ second.toNat := UInt8.le_iff_toNat_le
  rw [hlow, hhigh]
  simp [isRedundant, isNegative_eq]

theorem isMinimal_iff {content : Octets} : IsMinimal content ↔ ¬ StartsRedundant content := by
  match content with
  | [] => simp [IsMinimal, StartsRedundant]
  | [first] => simp [IsMinimal, StartsRedundant]
  | first :: second :: rest =>
    have hstarts : StartsRedundant (first :: second :: rest) ↔ isRedundant first second = true := by
      rw [isRedundant_iff]
      constructor
      · rintro ⟨_, _, _, heq, h⟩
        cases heq
        exact h
      · intro h
        exact ⟨first, second, rest, rfl, h⟩
    rw [hstarts, IsMinimal, Bool.not_eq_true]

/-! ## Contents with the same value -/

section SameValue

variable {content other : Octets}

/-- So many bits are told by their number as a signed integer. -/
theorem eq_of_length_eq (hlen : content.length = other.length) (h : value content = value other) :
    content = other := by
  have hnat := toNat_lt content
  have hnat' := toNat_lt other
  have hwidth : 2 ^ (8 * other.length) = 256 ^ other.length := pow_mul 2 8 _
  rw [value_eq_twosComplement, value_eq_twosComplement, twosComplement, twosComplement, hlen,
    BitVec.toInt_inj] at h
  have hsame : toNat content = toNat other := by
    have hmod := congrArg BitVec.toNat h
    rw [BitVec.toNat_ofNat, BitVec.toNat_ofNat, hwidth] at hmod
    rw [hlen] at hnat
    rwa [Nat.mod_eq_of_lt hnat, Nat.mod_eq_of_lt hnat'] at hmod
  rw [← ofNat_toNat content, ← ofNat_toNat other, hlen, hsame]

/-- Fewer octets have no room for a number whose first octet is not redundant. -/
theorem length_le_of_isMinimal (hminimal : IsMinimal content) (hne : other ≠ [])
    (h : value content = value other) : content.length ≤ other.length := by
  by_contra hlonger
  obtain ⟨first', rest', rfl⟩ := List.exists_cons_of_ne_nil hne
  match content, hminimal with
  | [], _ => simp at hlonger
  | [first], _ => simp at hlonger
  | first :: second :: rest, hminimal =>
    obtain ⟨hlow, hhigh⟩ := value_bounds first' rest'
    have hroom : 256 ^ rest'.length ≤ 256 ^ rest.length := by
      apply Nat.pow_le_pow_right (by decide)
      simp only [List.length_cons] at hlonger
      omega
    rw [← h] at hlow hhigh
    have hlow' : -((128 * 256 ^ rest.length : Nat) : Int) ≤ value (first :: second :: rest) := by
      omega
    have hhigh' : value (first :: second :: rest) < ((128 * 256 ^ rest.length : Nat) : Int) := by
      omega
    rw [IsMinimal, isRedundant_of_bounds hlow' hhigh'] at hminimal
    cases hminimal

end SameValue

/-! ## Trimming -/

/-- A redundant first octet can be left out. -/
theorem value_cons_of_isRedundant {first second : UInt8} {rest : Octets}
    (h : isRedundant first second = true) :
    value (first :: second :: rest) = value (second :: rest) := by
  rw [value_cons, value_cons, toNat_cons, List.length_cons, pow_succ]
  simp only [isRedundant, isNegative_eq, Bool.or_eq_true, Bool.and_eq_true, beq_iff_eq,
    Bool.not_eq_true', decide_eq_false_iff_not, decide_eq_true_eq] at h
  generalize 256 ^ rest.length = p
  rcases h with ⟨rfl, hsign⟩ | ⟨rfl, hsign⟩
  · rw [if_neg (by decide), if_neg hsign]
    simp
  · rw [if_pos (by decide), if_pos hsign]
    have hff : (0xff : UInt8).toNat = 255 := rfl
    rw [hff]
    omega

theorem value_trim (content : Octets) : value (trim content) = value content := by
  fun_induction trim content with
  | case1 first second rest hred ih => rw [ih, value_cons_of_isRedundant hred]
  | case2 first second rest hred => rfl
  | case3 octets hshort => rfl

theorem isMinimal_trim (content : Octets) : IsMinimal (trim content) := by
  fun_induction trim content with
  | case1 first second rest hred ih => exact ih
  | case2 first second rest hred => simpa [IsMinimal] using hred
  | case3 octets hshort =>
    rcases octets with _ | ⟨first, _ | ⟨second, rest⟩⟩
    · trivial
    · trivial
    · exact absurd rfl (hshort first second rest)

theorem length_trim_le (content : Octets) : (trim content).length ≤ content.length := by
  fun_induction trim content with
  | case1 first second rest hred ih =>
    rw [List.length_cons]
    exact Nat.le_succ_of_le ih
  | case2 first second rest hred => exact Nat.le_refl _
  | case3 octets hshort => exact Nat.le_refl _

theorem trim_ne_nil {content : Octets} (h : content ≠ []) : trim content ≠ [] := by
  fun_induction trim content with
  | case1 first second rest hred ih => exact ih (by simp)
  | case2 first second rest hred => simp
  | case3 octets hshort => exact h

/-! ## What is written -/

section Encode

variable (n : Int64)

theorem value_encode : value (encode n) = n.toInt := by
  have hsize : n.toUInt64.toNat < 256 ^ 8 := n.toUInt64.toNat_lt
  rw [encode, value_trim, value_eq_twosComplement, twosComplement, length_ofNat, toNat_ofNat hsize]
  show (BitVec.ofNat 64 n.toBitVec.toNat).toInt = n.toBitVec.toInt
  rw [BitVec.ofNat_toNat, BitVec.setWidth_eq]

theorem isMinimal_encode : IsMinimal (encode n) :=
  isMinimal_trim _

theorem encode_ne_nil : encode n ≠ [] := by
  apply trim_ne_nil
  rw [← List.length_pos_iff, length_ofNat]
  decide

theorem length_encode_le : (encode n).length ≤ 8 := by
  have h := length_trim_le (ofNat 8 n.toUInt64.toNat)
  rwa [length_ofNat] at h

/-- A number is read back from what is written for it. -/
theorem decode?_encode : decode? (encode n) = some n := by
  have hpos := List.length_pos_iff.mpr (encode_ne_nil n)
  obtain ⟨code, hdecode, hcode⟩ :=
    exists_decode?_iff.mpr ⟨hpos, length_encode_le n, (value_eq_twosComplement _).symm⟩
  rw [value_encode] at hcode
  rw [hdecode, Int64.toInt_inj.mp hcode]

end Encode

section Decode

variable {content : Octets} {n : Int64}

theorem decode?_eq_none_iff :
    decode? content = none ↔ content.length = 0 ∨ 8 < content.length := by
  rw [decode?, ← List.isEmpty_iff_length_eq_zero]
  by_cases h : content.isEmpty = true ∨ 8 < content.length
  · rw [if_pos h]
    exact iff_of_true rfl h
  · rw [if_neg h]
    exact iff_of_false (by simp) h

theorem ne_nil_of_decode? (h : decode? content = some n) : content ≠ [] := by
  rintro rfl
  cases h

theorem value_eq_value_encode (h : decode? content = some n) :
    value content = value (encode n) := by
  rw [value_encode, toInt_of_decode? h]

/-- Of all contents of a number the written one is the shortest, and the only one of its length. -/
theorem length_encode_lt (h : decode? content = some n) (hne : content ≠ encode n) :
    (encode n).length < content.length := by
  have hvalue := value_eq_value_encode h
  have hle := length_le_of_isMinimal (isMinimal_encode n) (ne_nil_of_decode? h) hvalue.symm
  exact Nat.lt_of_le_of_ne hle fun hlen => hne (eq_of_length_eq hlen.symm hvalue)

theorem encode_eq_iff (h : decode? content = some n) :
    encode n = content ↔ IsMinimal content := by
  have hvalue := value_eq_value_encode h
  constructor
  · rintro rfl
    exact isMinimal_encode n
  · intro hminimal
    have hle := length_le_of_isMinimal hminimal (encode_ne_nil n) hvalue
    have hge := length_le_of_isMinimal (isMinimal_encode n) (ne_nil_of_decode? h) hvalue.symm
    exact eq_of_length_eq (Nat.le_antisymm hge hle) hvalue.symm

end Decode

/-! ## Words of 64 bits -/

/-- The bits of the octet are clear in the word that was moved up, so putting them in adds. -/
theorem shiftLeft_or_ofInt (n : Int) (octet : UInt8) :
    Int64.ofInt n <<< 8 ||| octet.toUInt64.toInt64 =
      Int64.ofInt (n * 256 + (octet.toNat : Int)) := by
  have hdisjoint : BitVec.ofInt 64 n <<< 8 &&& octet.toBitVec.setWidth 64 = 0#64 := by
    ext i hi
    by_cases hlow : i < 8
    · simp [hlow]
    · simp [BitVec.getLsbD_of_ge _ _ (Nat.not_lt.mp hlow)]
  have hshift : BitVec.ofInt 64 n <<< 8 = BitVec.ofInt 64 (n * 256) := by
    rw [BitVec.shiftLeft_eq_mul_twoPow, BitVec.ofInt_mul]
    rfl
  have hoctet : octet.toBitVec.setWidth 64 = BitVec.ofInt 64 (octet.toNat : Int) := by
    rw [BitVec.ofInt_natCast, ← BitVec.ofNat_toNat]
    rfl
  apply Int64.toBitVec.inj
  show BitVec.ofInt 64 n <<< 8 ||| octet.toBitVec.setWidth 64 = _
  rw [← BitVec.add_eq_or_of_and_eq_zero _ _ hdisjoint, hshift, hoctet, ← BitVec.ofInt_add]
  rfl

theorem foldl_shiftLeft_or (octets : Octets) (n : Int) :
    octets.foldl (fun (word : Int64) octet => word <<< 8 ||| octet.toUInt64.toInt64)
        (Int64.ofInt n) =
      Int64.ofInt (octets.foldl (fun n octet => n * 256 + (octet.toNat : Int)) n) := by
  induction octets generalizing n with
  | nil => rfl
  | cons octet octets ih => rw [List.foldl_cons, List.foldl_cons, shiftLeft_or_ofInt, ih]

/-- Gathered in a word, the value is kept but for what the word has no room for. -/
theorem gather_eq (content : Octets) : gather content = Int64.ofInt (value content) := by
  cases content with
  | nil => rfl
  | cons first rest =>
    have hsign : (if isNegative first then -1 else 0 : Int64) =
        Int64.ofInt (if isNegative first then -1 else 0) := by
      cases isNegative first <;> rfl
    simp only [gather, value]
    rw [hsign, foldl_shiftLeft_or]

theorem decode?_eq_gather {content : Octets} (hmin : 1 ≤ content.length)
    (hmax : content.length ≤ 8) : decode? content = some (gather content) := by
  have hlen : ¬ (content.isEmpty = true ∨ 8 < content.length) := by
    rw [List.isEmpty_iff_length_eq_zero]
    omega
  rw [decode?, if_neg hlen, gather_eq]

/-! ## The status of a response -/

/-- The integer of a status is refused for its length only. -/
theorem readStatus_eq_invalidInteger_iff {window behind : Ber.Window} {element : Ber.Element}
    (h : TimeStamp.expectMember window TimeStamp.integerTag .pkiStatus = .ok (element, behind)) :
    TimeStamp.StatusInfo.readStatus window = .error .invalidInteger ↔
      decode? element.content = none := by
  rw [TimeStamp.StatusInfo.readStatus, h, ok_bind]
  dsimp only
  cases decode? element.content with
  | none => exact iff_of_true rfl rfl
  | some code =>
    -- Behind a decoded integer only the status can be refused, and it is by another error.
    refine iff_of_false ?_ nofun
    dsimp only
    cases TimeStamp.Status.ofCode? code.toInt with
    | none =>
      intro heq
      cases heq
    | some status =>
      intro heq
      cases heq

/-- One to eight octets are decoded to their two's complement, gathered in a word of 64 bits; any
other number of them is no integer, and the reader of a status says so. What is written for a number
is read back, and every other content of the number is longer. So a content is what is written for
its number just when its first octet is not redundant. -/
theorem decodes_and_encodes_shortest (content : Octets) (n : Int64) :
    (1 ≤ content.length ∧ content.length ≤ 8 →
        decode? content = some (gather content) ∧
          (gather content).toInt = twosComplement content) ∧
      (decode? content = none ↔ ¬ (1 ≤ content.length ∧ content.length ≤ 8)) ∧
      (∀ window element behind,
        TimeStamp.expectMember window TimeStamp.integerTag .pkiStatus = .ok (element, behind) →
          (TimeStamp.StatusInfo.readStatus window = .error .invalidInteger ↔
            ¬ (1 ≤ element.content.length ∧ element.content.length ≤ 8))) ∧
      decode? (encode n) = some n ∧
      (decode? content = some n → content ≠ encode n → (encode n).length < content.length) ∧
      (decode? content = some n → (encode n = content ↔ ¬ StartsRedundant content)) := by
  have hrefused (octets : Octets) :
      decode? octets = none ↔ ¬ (1 ≤ octets.length ∧ octets.length ≤ 8) := by
    rw [decode?_eq_none_iff]
    omega
  refine ⟨?_, hrefused content, ?_, decode?_encode n, length_encode_lt, fun h => ?_⟩
  · rintro ⟨hmin, hmax⟩
    have hdecode := decode?_eq_gather hmin hmax
    refine ⟨hdecode, ?_⟩
    rw [toInt_of_decode? hdecode, value_eq_twosComplement]
  · intro window element behind hread
    rw [readStatus_eq_invalidInteger_iff hread, hrefused]
  · rw [encode_eq_iff h, isMinimal_iff]

/-- The least number of 64 bits takes all eight octets, and a ninth one in front is refused. -/
example : encode Int64.minValue = [0x80, 0, 0, 0, 0, 0, 0, 0] ∧
    decode? [0xff, 0x80, 0, 0, 0, 0, 0, 0, 0] = none := by
  decide

end Asn1.Integer
