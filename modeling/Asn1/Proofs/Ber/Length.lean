import Asn1.Ber.Grammar
import Asn1.Proofs.Octets

/-!
# Length octets and their grammar

The first octet announces one of four things (`announces`), and what is read follows from that. The
reader of length octets accepts exactly what the grammar allows (`decode_eq_ok_iff`), and octets
behind them do not matter to it, unless octets were missing. What `encode` writes for a length below
`256 ^ 4` is in the grammar. Among all length octets of one length the written ones are the only ones
of their size, and the others are longer (`octetCount_le_of_isLength`, `eq_encode_of_isLength`). From
`256 ^ 4` on the written octets are still a definite length (`isDefinite_encode`), but one with
more octets than the reader takes (`decode_encode_of_le`).
-/

namespace Asn1.Ber.Length

/-! ## The first octet -/

theorem toNat_and_0x7f (octet : UInt8) : (octet &&& 0x7f).toNat = octet.toNat % 128 := by
  rw [UInt8.toNat_and]
  exact Nat.and_two_pow_sub_one_eq_mod octet.toNat 7

theorem toNat_ofNat_of_lt {n : Nat} (h : n < 256) : (UInt8.ofNat n).toNat = n := by
  rw [UInt8.toNat_ofNat']
  exact Nat.mod_eq_of_lt h

/-- The high bit and a count of octets in one octet. -/
theorem or_count {count : Nat} (h : count < 128) :
    0x80 ||| UInt8.ofNat count = UInt8.ofNat (128 + count) := by
  apply UInt8.toNat_inj.mp
  rw [UInt8.toNat_or, toNat_ofNat_of_lt (by omega), toNat_ofNat_of_lt (by omega)]
  exact (Nat.two_pow_add_eq_or_of_lt (i := 7) h 1).symm

/-- What the first octet of a length announces: the length itself, an end that is not known, or that
the length follows in so many octets. -/
inductive Announces : UInt8 → Prop
  | short {n : Nat} (h : n < 128) : Announces (UInt8.ofNat n)
  | indefinite : Announces 0x80
  | long {count : Nat} (hpos : 1 ≤ count) (hmax : count ≤ 4) :
      Announces (UInt8.ofNat (128 + count))
  | many {first : UInt8} (h : 0x85 ≤ first) : Announces first

theorem announces (first : UInt8) : Announces first := by
  by_cases hshort : first.toNat < 128
  · have h := Announces.short hshort
    rwa [UInt8.ofNat_toNat] at h
  · by_cases hlong : first.toNat ≤ 132
    · obtain ⟨count, hcount⟩ := Nat.exists_eq_add_of_le (Nat.not_lt.mp hshort)
      have hfirst : first = UInt8.ofNat (128 + count) := by rw [← hcount, UInt8.ofNat_toNat]
      rw [hfirst]
      rcases Nat.eq_zero_or_pos count with rfl | hpos
      · exact .indefinite
      · exact .long hpos (by omega)
    · exact .many (UInt8.le_iff_toNat_le.mpr (Nat.not_le.mp hlong))

/-! ## Reading -/

theorem decode_short {n : Nat} (h : n < 128) (rest : Octets) :
    decode (UInt8.ofNat n :: rest) = .ok (n, rest) := by
  have hfirst := toNat_ofNat_of_lt (n := n) (by omega)
  have hlt : UInt8.ofNat n < 0x80 := by
    rw [UInt8.lt_iff_toNat_lt, hfirst]
    exact h
  rw [decode, if_pos hlt, hfirst]

theorem decode_indefinite (rest : Octets) :
    decode (0x80 :: rest) = .error .indefiniteLength := rfl

/-- Behind the first octet of the long form the announced octets are looked for. -/
theorem decode_long {count : Nat} (hpos : 1 ≤ count) (hmax : count ≤ 4) (rest : Octets) :
    decode (UInt8.ofNat (128 + count) :: rest) =
      if rest.length < count then .error .earlyEof
      else .ok (Octets.toNat (rest.take count), rest.drop count) := by
  have hfirst := toNat_ofNat_of_lt (n := 128 + count) (by omega)
  have hge : ¬ UInt8.ofNat (128 + count) < 0x80 := by
    rw [UInt8.lt_iff_toNat_lt, hfirst]
    exact Nat.not_lt.mpr (Nat.le_add_right 128 count)
  have hne : UInt8.ofNat (128 + count) ≠ 0x80 := by
    intro heq
    rw [heq] at hfirst
    have : 128 = 128 + count := hfirst
    omega
  have hcount : (UInt8.ofNat (128 + count) &&& 0x7f).toNat = count := by
    rw [toNat_and_0x7f, hfirst]
    omega
  have hfew : ¬ maxOctets < count := Nat.not_lt.mpr hmax
  rw [decode, if_neg hge, if_neg hne]
  simp only [hcount, if_neg hfew]

/-- A first octet that announces more than four octets is refused, however few follow it. -/
theorem decode_of_many {first : UInt8} (h : 0x85 ≤ first) (rest : Octets) :
    decode (first :: rest) = .error .unsupportedLength := by
  have hfirst : 133 ≤ first.toNat := UInt8.le_iff_toNat_le.mp h
  have hmax := first.toNat_lt
  have hge : ¬ first < 0x80 := by
    rw [UInt8.lt_iff_toNat_lt]
    exact Nat.not_lt.mpr (Nat.le_trans (by decide) hfirst)
  have hne : first ≠ 0x80 := by
    rintro rfl
    exact absurd hfirst (by decide)
  have hmany : maxOctets < (first &&& 0x7f).toNat := by
    rw [toNat_and_0x7f, maxOctets]
    omega
  rw [decode, if_neg hge, if_neg hne]
  simp only [if_pos hmany]

/-- Length octets are read as the length they stand for, whatever follows them. -/
theorem decode_append {octets : Octets} {n : Nat} (h : IsLength octets n) (tail : Octets) :
    decode (octets ++ tail) = .ok (n, tail) := by
  cases h with
  | short hn => exact decode_short hn tail
  | long hpos hmax =>
    rw [List.cons_append, decode_long hpos hmax, if_neg (by simp), List.take_left, List.drop_left]

/-- What is read as a length stands in front of the rest. -/
theorem exists_of_decode {input tail : Octets} {n : Nat} (h : decode input = .ok (n, tail)) :
    ∃ octets, IsLength octets n ∧ input = octets ++ tail := by
  cases input with
  | nil => simp [decode] at h
  | cons first rest =>
    cases announces first with
    | short hn =>
      rw [decode_short hn] at h
      cases h
      exact ⟨_, .short hn, rfl⟩
    | indefinite => cases h
    | @long count hpos hmax =>
      rw [decode_long hpos hmax] at h
      split at h
      · cases h
      · rename_i hfit
        cases h
        have hlen : (rest.take count).length = count := List.length_take_of_le (Nat.not_lt.mp hfit)
        have hlong : IsLength (UInt8.ofNat (128 + (rest.take count).length) :: rest.take count) _ :=
          .long (by omega) (by omega)
        rw [hlen] at hlong
        exact ⟨_, hlong, by simp⟩
    | many hmany =>
      rw [decode_of_many hmany] at h
      cases h

theorem decode_eq_ok_iff {input tail : Octets} {n : Nat} :
    decode input = .ok (n, tail) ↔ ∃ octets, IsLength octets n ∧ input = octets ++ tail := by
  constructor
  · exact exists_of_decode
  · rintro ⟨octets, h, rfl⟩
    exact decode_append h tail

/-- A length is refused because octets are missing, because it is indefinite, or because it
announces too many octets. -/
theorem refusal_of_decode {input : Octets} {error : Error} (h : decode input = .error error) :
    error = .earlyEof ∨
      (error = .indefiniteLength ∧ ∃ tail, input = 0x80 :: tail) ∨
      (error = .unsupportedLength ∧ ∃ first tail, 0x85 ≤ first ∧ input = first :: tail) := by
  cases input with
  | nil =>
    cases h
    exact .inl rfl
  | cons first rest =>
    cases announces first with
    | short hn =>
      rw [decode_short hn] at h
      cases h
    | indefinite =>
      cases h
      exact .inr (.inl ⟨rfl, rest, rfl⟩)
    | long hpos hmax =>
      rw [decode_long hpos hmax] at h
      split at h
      · cases h
        exact .inl rfl
      · cases h
    | many hmany =>
      rw [decode_of_many hmany] at h
      cases h
      exact .inr (.inr ⟨rfl, first, rest, hmany, rfl⟩)

theorem error_of_decode {input : Octets} {error : Error} (h : decode input = .error error) :
    error = .earlyEof ∨ error = .indefiniteLength ∨ error = .unsupportedLength :=
  (refusal_of_decode h).imp id (Or.imp And.left And.left)

theorem decode_eq_indefinite_iff {input : Octets} :
    decode input = .error .indefiniteLength ↔ ∃ tail, input = 0x80 :: tail := by
  constructor
  · intro h
    simpa using refusal_of_decode h
  · rintro ⟨tail, rfl⟩
    exact decode_indefinite tail

theorem decode_eq_unsupported_iff {input : Octets} :
    decode input = .error .unsupportedLength ↔
      ∃ first tail, 0x85 ≤ first ∧ input = first :: tail := by
  constructor
  · intro h
    simpa using refusal_of_decode h
  · rintro ⟨first, tail, hmany, rfl⟩
    exact decode_of_many hmany tail

/-! ## More octets behind -/

/-- The form of a length is refused for its first octet, so octets behind it do not help. -/
theorem decode_append_of_error {input : Octets} {error : Error} (h : decode input = .error error)
    (hne : error ≠ .earlyEof) (tail : Octets) : decode (input ++ tail) = .error error := by
  rcases refusal_of_decode h with heof | ⟨rfl, rest, rfl⟩ | ⟨rfl, first, rest, hmany, rfl⟩
  · exact absurd heof hne
  · exact decode_indefinite (rest ++ tail)
  · exact decode_of_many hmany (rest ++ tail)

/-- Length octets end where they end: no two readings of one input differ. -/
theorem isLength_append_inj {octets octets' tail tail' : Octets} {n n' : Nat}
    (h : IsLength octets n) (h' : IsLength octets' n')
    (heq : octets ++ tail = octets' ++ tail') : octets = octets' ∧ n = n' ∧ tail = tail' := by
  have hread := decode_append h tail
  rw [heq, decode_append h' tail'] at hread
  simp only [Except.ok.injEq, Prod.mk.injEq] at hread
  obtain ⟨rfl, rfl⟩ := hread
  exact ⟨List.append_cancel_right heq, rfl, rfl⟩

/-! ## Writing -/

theorem lt_of_isLength {octets : Octets} {n : Nat} (h : IsLength octets n) : n < 256 ^ 4 := by
  cases h with
  | short hn => omega
  | @long octets _ hmax =>
    exact Nat.lt_of_lt_of_le (Octets.toNat_lt octets) (Nat.pow_le_pow_right (by decide) hmax)

/-- The long form as it is written: a count, then that many octets. -/
theorem encode_long {n : Nat} (h : 128 ≤ n) (hcount : Octets.significant n < 128) :
    encode n = UInt8.ofNat (128 + Octets.significant n) ::
      Octets.ofNat (Octets.significant n) n := by
  have hge : ¬ n < 0x80 := Nat.not_lt.mpr h
  simp only [encode, if_neg hge, or_count hcount]

theorem encode_of_le {n : Nat} (h : 128 ≤ n) (hmax : n < 256 ^ 4) :
    encode n = UInt8.ofNat (128 + Octets.significant n) ::
      Octets.ofNat (Octets.significant n) n := by
  have hcount : Octets.significant n ≤ 4 := Octets.significant_le_iff.mpr hmax
  exact encode_long h (by omega)

/-- The octets of a definite length as the basic rules have them, with up to 126 octets behind the
first one. -/
inductive IsDefinite : Octets → Nat → Prop
  | short {n : Nat} (h : n < 128) : IsDefinite [UInt8.ofNat n] n
  | long {octets : Octets} (hpos : 1 ≤ octets.length) (hmax : octets.length ≤ 126) :
      IsDefinite (UInt8.ofNat (128 + octets.length) :: octets) (Octets.toNat octets)

theorem isLength_iff {octets : Octets} {n : Nat} :
    IsLength octets n ↔ IsDefinite octets n ∧ octets.length ≤ 5 := by
  constructor
  · intro h
    cases h with
    | short hn => exact ⟨.short hn, by simp⟩
    | long hpos hmax => exact ⟨.long hpos (by omega), Nat.succ_le_succ hmax⟩
  · rintro ⟨h, hlen⟩
    cases h with
    | short hn => exact .short hn
    | long hpos hmax => exact .long hpos (Nat.le_of_succ_le_succ hlen)

/-- Length octets stand for one length only. -/
theorem IsDefinite.unique {octets : Octets} {m n : Nat} (hm : IsDefinite octets m)
    (hn : IsDefinite octets n) : m = n := by
  -- The short form is a single octet, and the long form has more.
  generalize heq : octets = octets' at hn
  cases hm with
  | short hm =>
    cases hn with
    | short hn =>
      have hfirst := congrArg UInt8.toNat (List.singleton_inj.mp heq)
      rwa [toNat_ofNat_of_lt (by omega), toNat_ofNat_of_lt (by omega)] at hfirst
    | long hpos _ =>
      obtain ⟨-, rfl⟩ := List.cons.inj heq
      simp at hpos
  | long hpos _ =>
    cases hn with
    | short _ =>
      obtain ⟨-, rfl⟩ := List.cons.inj heq
      simp at hpos
    | long _ _ =>
      obtain ⟨-, rfl⟩ := List.cons.inj heq
      rfl

/-- A length that 126 octets can hold is written as a definite length. -/
theorem isDefinite_encode {n : Nat} (h : n < 256 ^ 126) : IsDefinite (encode n) n := by
  by_cases hn : n < 128
  · rw [encode, if_pos hn]
    exact .short hn
  · have hcount : Octets.significant n ≤ 126 := Octets.significant_le_iff.mpr h
    have hpos : 1 ≤ Octets.significant n := by
      by_contra hzero
      have hlt : n < 256 ^ 0 := Octets.significant_le_iff.mp (by omega)
      omega
    have hvalue := Octets.toNat_ofNat (Octets.lt_pow_significant n)
    have hlong : IsDefinite (UInt8.ofNat (128 + (Octets.ofNat (Octets.significant n) n).length) ::
        Octets.ofNat (Octets.significant n) n) _ :=
      .long (by simpa using hpos) (by simpa using hcount)
    rw [hvalue, Octets.length_ofNat] at hlong
    rwa [encode_long (Nat.not_lt.mp hn) (by omega)]

theorem octetCount_le_iff {n width : Nat} (h : 128 ≤ n) :
    octetCount n ≤ width + 1 ↔ n < 256 ^ width := by
  rw [octetCount, if_neg (Nat.not_lt.mpr h), ← Octets.significant_le_iff, Nat.add_comm,
    Nat.add_le_add_iff_right]

/-- A length that four octets can hold is written as length octets. -/
theorem isLength_encode {n : Nat} (h : n < 256 ^ 4) : IsLength (encode n) n := by
  have hwide : (256 : Nat) ^ 4 ≤ 256 ^ 126 := Nat.pow_le_pow_right (by decide) (by decide)
  refine isLength_iff.mpr ⟨isDefinite_encode (Nat.lt_of_lt_of_le h hwide), ?_⟩
  rw [length_encode]
  by_cases hn : n < 128
  · simp [octetCount, hn]
  · exact (octetCount_le_iff (Nat.not_lt.mp hn)).mpr h

theorem octetCount_mono {m n : Nat} (h : m ≤ n) : octetCount m ≤ octetCount n := by
  have := Octets.significant_mono h
  unfold octetCount
  split <;> split <;> omega

/-- No length octets are shorter than the written ones. -/
theorem octetCount_le_of_isLength {octets : Octets} {n : Nat} (h : IsLength octets n) :
    octetCount n ≤ octets.length := by
  cases h with
  | short hn => simp [octetCount, hn]
  | @long octets hpos _ =>
    have := Octets.significant_toNat_le octets
    simp only [octetCount, List.length_cons]
    split <;> omega

/-- Length octets as short as the written ones are the written ones. -/
theorem eq_encode_of_isLength {octets : Octets} {n : Nat} (h : IsLength octets n)
    (hlen : octets.length ≤ octetCount n) : octets = encode n := by
  have hmax := lt_of_isLength h
  cases h with
  | short hn => simp [encode, hn]
  | @long octets hpos _ =>
    have hle := Octets.significant_toNat_le octets
    simp only [octetCount, List.length_cons] at hlen
    split at hlen
    · omega
    · rename_i hge
      have hcount : Octets.significant (Octets.toNat octets) = octets.length := by omega
      rw [encode_of_le (Nat.not_lt.mp hge) hmax, hcount, Octets.ofNat_toNat]

/-! ## Reading what was written -/

/-- From `256 ^ 4` on a length is written with more octets than are read. -/
theorem decode_encode_of_le {n : Nat} (h : 256 ^ 4 ≤ n) (hmax : n < 256 ^ 8) (rest : Octets) :
    decode (encode n ++ rest) = .error .unsupportedLength := by
  have hcount : Octets.significant n ≤ 8 := Octets.significant_le_iff.mpr hmax
  have hmany : ¬ Octets.significant n ≤ 4 :=
    fun hfew => absurd (Octets.significant_le_iff.mp hfew) (Nat.not_lt.mpr h)
  rw [encode_long (by omega) (by omega), List.cons_append]
  apply decode_of_many
  rw [UInt8.le_iff_toNat_le, toNat_ofNat_of_lt (by omega)]
  show 133 ≤ _
  omega

/-- All octets that are read as one length are at least as long as the written ones, and only
those are as short. -/
theorem length_of_decode {octets rest : Octets} {n : Nat}
    (h : decode (octets ++ rest) = .ok (n, rest)) :
    octetCount n ≤ octets.length ∧ (octets.length = octetCount n ↔ octets = encode n) := by
  obtain ⟨length, hlength, heq⟩ := decode_eq_ok_iff.mp h
  obtain rfl := List.append_cancel_right heq
  refine ⟨octetCount_le_of_isLength hlength, fun hlen => ?_, ?_⟩
  · exact eq_encode_of_isLength hlength (Nat.le_of_eq hlen)
  · rintro rfl
    exact length_encode n

/-- Any length is written with as many octets as are foreseen for it, behind any octets. Below
`2 ^ 32` it is read back from them, whatever follows, and of all octets read as that length they are
the only ones so short. From `2 ^ 32` on they are refused for their form. -/
theorem decode_inverts_write {n : Nat} (hn : n < 2 ^ 64) :
    (∀ out, (write out n).toList = out.toList ++ encode n ∧ (encode n).length = octetCount n) ∧
      (n < 2 ^ 32 → ∀ rest, decode (encode n ++ rest) = .ok (n, rest)) ∧
      (∀ octets rest, decode (octets ++ rest) = .ok (n, rest) →
        octetCount n ≤ octets.length ∧ (octets.length = octetCount n ↔ octets = encode n)) ∧
      (2 ^ 32 ≤ n → ∀ rest, decode (encode n ++ rest) = .error .unsupportedLength) := by
  refine ⟨fun out => ⟨toList_write out n, length_encode n⟩, fun hfits rest => ?_,
    fun octets rest => length_of_decode, fun hwide rest => ?_⟩
  · exact decode_append (isLength_encode (by omega)) rest
  · exact decode_encode_of_le (by omega) (by omega) rest

/-- The shortest octets of 128 are two, and the same length with a leading zero octet is read as
well. The length `2 ^ 32` is written with six octets, and refused. -/
theorem decode_inverts_write_edges :
    (128 : Nat) < 2 ^ 64 ∧ (2 ^ 32 : Nat) < 2 ^ 64 ∧
      decode (encode 128 ++ [0xaa]) = .ok (128, [0xaa]) ∧
      decode ([0x82, 0x00, 0x80] ++ [0xaa]) = .ok (128, [0xaa]) ∧
      octetCount 128 ≤ [0x82, 0x00, (0x80 : UInt8)].length ∧
      decode (encode (2 ^ 32) ++ []) = .error .unsupportedLength := by
  have hpadded : decode ([0x82, 0x00, 0x80] ++ [0xaa]) = .ok (128, [0xaa]) := by cbv
  obtain ⟨-, hread, hshortest, -⟩ := decode_inverts_write (n := 128) (by decide)
  obtain ⟨-, -, -, hrefused⟩ := decode_inverts_write (n := 2 ^ 32) (by decide)
  exact ⟨by decide, by decide, hread (by decide) [0xaa], hpadded, (hshortest _ _ hpadded).1,
    hrefused (Nat.le_refl _) []⟩

end Asn1.Ber.Length
