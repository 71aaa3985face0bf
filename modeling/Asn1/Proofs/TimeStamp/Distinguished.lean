import Asn1.Proofs.TimeStamp.RoundTrip

/-!
# What is written is in distinguished form

Converting a written response changes nothing, if the limit has room for it. The token was decoded
on its own, under the default limit, and stands one level deeper in the response. So a response
with a token that reaches the limit is written, and conversion under the same limit refuses it
(`convert_toDer`).
-/

namespace Asn1.TimeStamp.Response

open Ber

variable {response : Response} {value : Option Value}

/-! ## The level around the token -/

/-- There is no token, or there is one that can be decoded and nests within a limit. -/
def TokenNestsWithin (response : Response) (limit : Nat) : Prop :=
  response.token = none ∨ ∃ token value, response.token = some token ∧
    Converter.default.decode token = .ok value ∧ value.depth ≤ limit

theorem tokenNestsWithin_iff {limit : Nat} (hvalue : response.tokenValue = .ok value) :
    response.TokenNestsWithin limit ↔ Value.depthAll value.toList ≤ limit := by
  rcases tokenValue_eq_ok_iff.mp hvalue with ⟨hnone, rfl⟩ | ⟨token, inner, htoken, hdecode, rfl⟩
  · simp [TokenNestsWithin, hnone, Value.depthAll]
  · simp [TokenNestsWithin, htoken, hdecode, Value.depthAll]

/-- A token that was decoded for writing nests within the default limit. -/
theorem tokenNestsWithin_default (hvalue : response.tokenValue = .ok value) :
    response.TokenNestsWithin Converter.default.maxDepth := by
  rcases tokenValue_eq_ok_iff.mp hvalue with ⟨hnone, -⟩ | ⟨token, inner, htoken, hdecode, -⟩
  · exact .inl hnone
  · exact .inr ⟨token, inner, htoken, hdecode, (Converter.decode_eq_ok_iff.mp hdecode).2⟩

/-- The status information nests less deep than any limit here, so only the token counts. -/
theorem depth_toValue_le_iff {limit : Nat} (hroom : 2 ≤ limit) :
    (response.toValue value).depth ≤ limit + 1 ↔ Value.depthAll value.toList ≤ limit := by
  have hinfo := depth_toValue_le response.status.parts
  rw [toValue, ← StatusInfo.toValue_parts, Value.depth_constructed, Value.depthAll]
  omega

/-- Conversion of the written octets, under any limit that has room for the status information. -/
theorem convert_encode_toValue (converter : Converter) {limit : Nat}
    (hvalue : response.tokenValue = .ok value)
    (hsize : (response.toValue value).encode.length < 2 ^ 32)
    (hlimit : converter.maxDepth = limit + 1) (hroom : 2 ≤ limit) :
    (response.TokenNestsWithin limit →
        converter.convert (response.toValue value).encode = .ok (response.toValue value).encode) ∧
      (¬ response.TokenNestsWithin limit →
        converter.convert (response.toValue value).encode =
          .error (.nestingTooDeep (limit + 1))) := by
  rw [Converter.convert_encode (isWellFormed_toValue hvalue hsize), hlimit,
    tokenNestsWithin_iff hvalue]
  constructor
  · intro hdepth
    exact if_pos ((depth_toValue_le_iff hroom).mpr hdepth)
  · intro hdeep
    exact if_neg (mt (depth_toValue_le_iff hroom).mp hdeep)

/-! ## Nested sequences -/

/-- The octets of `n` sequences, each one the content of the one before. -/
def sequences : Nat → Octets
  | 0 => []
  | n + 1 => [sequenceTag] ++ [UInt8.ofNat (2 * n)] ++ sequences n

/-- The value of the outermost of `n` sequences, if there is one. -/
def nested : Nat → List Value
  | 0 => []
  | n + 1 => [.constructed [sequenceTag] (nested n)]

theorem length_sequences (n : Nat) : (sequences n).length = 2 * n := by
  induction n with
  | zero => rfl
  | succ n ih =>
    rw [sequences, List.length_append, ih]
    simp only [List.length_append, List.length_singleton]
    omega

theorem depthAll_nested (n : Nat) : Value.depthAll (nested n) = n := by
  induction n with
  | zero => rfl
  | succ n ih =>
    rw [nested, Value.depthAll, Value.depthAll, Value.depth_constructed, ih]
    omega

/-- One length octet will do for the content of up to 64 nested sequences. -/
theorem isElement_sequences {n : Nat} (h : n < 64)
    (helements : AreElements (sequences n) (nested n)) :
    IsElement (sequences (n + 1)) (.constructed [sequenceTag] (nested n)) := by
  have hlength : IsLength [UInt8.ofNat (2 * n)] (sequences n).length := by
    rw [length_sequences]
    exact .short (by omega)
  exact .constructed (isIdentifier_singleton (by decide)) (by decide) hlength helements

theorem areElements_sequences {n : Nat} (h : n ≤ 64) : AreElements (sequences n) (nested n) := by
  induction n with
  | zero => exact .nil
  | succ n ih =>
    rw [nested, areElements_singleton_iff]
    exact isElement_sequences h (ih (Nat.le_of_succ_le h))

/-- Sequences that nest within the default limit are decoded. -/
theorem decode_sequences {n : Nat} (h : n < 64) :
    Converter.default.decode (sequences (n + 1)) = .ok (.constructed [sequenceTag] (nested n)) := by
  have helement := isElement_sequences h (areElements_sequences (Nat.le_of_lt h))
  refine Converter.decode_eq_ok_iff.mpr ⟨helement, ?_⟩
  rw [Value.depth_constructed, depthAll_nested, Nat.add_comm]
  exact h

theorem tokenValue_sequences (status : StatusInfo) {n : Nat} (h : n < 64) :
    (⟨status, some (sequences (n + 1))⟩ : Response).tokenValue =
      .ok (some (.constructed [sequenceTag] (nested n))) :=
  tokenValue_eq_ok_iff.mpr (.inr ⟨_, _, rfl, decode_sequences h, rfl⟩)

theorem tokenNestsWithin_sequences {status : StatusInfo} {n limit : Nat} (h : n < 64) :
    (⟨status, some (sequences (n + 1))⟩ : Response).TokenNestsWithin limit ↔ n < limit := by
  have hdepth := depthAll_nested (n + 1)
  rw [nested] at hdepth
  rw [tokenNestsWithin_iff (tokenValue_sequences status h), Option.toList_some, hdepth]
  exact Nat.succ_le_iff

/-! ## Conversion of what is written -/

/-- A written response is its own conversion under a limit of one more than the default. It is under
the default limit if its token leaves room for the level around it; if not, conversion refuses what
was written. -/
theorem convert_toDer (response : Response) (d : Octets) (h : response.toDer = .ok d)
    (hsize : d.length < 2 ^ 32) :
    (Converter.withMaxDepth 65).convert d = .ok d ∧
      (Converter.default.convert d = .ok d ↔ response.TokenNestsWithin 63) ∧
      (¬ response.TokenNestsWithin 63 →
        Converter.default.convert d = .error (.nestingTooDeep 64)) := by
  obtain ⟨value, hvalue, rfl⟩ := toDer_eq_ok_iff.mp h
  obtain ⟨hwider, -⟩ := convert_encode_toValue (.withMaxDepth 65) hvalue hsize rfl (by decide)
  obtain ⟨hfits, hdeep⟩ := convert_encode_toValue .default hvalue hsize rfl (by decide)
  refine ⟨hwider (tokenNestsWithin_default hvalue), ⟨?_, hfits⟩, hdeep⟩
  intro hconvert
  by_contra hnot
  rw [hdeep hnot] at hconvert
  cases hconvert

set_option maxRecDepth 4000 in
/-- With a token of 63 nested sequences, what is written is left as it is. With one more, it takes
the larger limit to read it again. -/
theorem convert_toDer_nested :
    (⟨.ofStatus .granted, some (sequences 63)⟩ : Response).toDer =
        .ok ([0x30, 0x81, 131, 0x30, 3, 2, 1, 0] ++ sequences 63) ∧
      Converter.default.convert ([0x30, 0x81, 131, 0x30, 3, 2, 1, 0] ++ sequences 63) =
        .ok ([0x30, 0x81, 131, 0x30, 3, 2, 1, 0] ++ sequences 63) ∧
      (⟨.ofStatus .granted, some (sequences 64)⟩ : Response).toDer =
        .ok ([0x30, 0x81, 133, 0x30, 3, 2, 1, 0] ++ sequences 64) ∧
      (Converter.withMaxDepth 65).convert ([0x30, 0x81, 133, 0x30, 3, 2, 1, 0] ++ sequences 64) =
        .ok ([0x30, 0x81, 133, 0x30, 3, 2, 1, 0] ++ sequences 64) ∧
      Converter.default.convert ([0x30, 0x81, 133, 0x30, 3, 2, 1, 0] ++ sequences 64) =
        .error (.nestingTooDeep 64) := by
  have hwrite : (⟨.ofStatus .granted, some (sequences 63)⟩ : Response).toDer =
      .ok ([0x30, 0x81, 131, 0x30, 3, 2, 1, 0] ++ sequences 63) := by
    refine toDer_eq_ok_iff.mpr ⟨_, tokenValue_sequences (n := 62) _ (by decide), ?_⟩
    rfl
  have hwrite' : (⟨.ofStatus .granted, some (sequences 64)⟩ : Response).toDer =
      .ok ([0x30, 0x81, 133, 0x30, 3, 2, 1, 0] ++ sequences 64) := by
    refine toDer_eq_ok_iff.mpr ⟨_, tokenValue_sequences (n := 63) _ (by decide), ?_⟩
    rfl
  obtain ⟨-, hsame, -⟩ := convert_toDer _ _ hwrite (by simp [length_sequences])
  obtain ⟨hwider, -, hrefused⟩ := convert_toDer _ _ hwrite' (by simp [length_sequences])
  rw [tokenNestsWithin_sequences (n := 62) (by decide)] at hsame
  rw [tokenNestsWithin_sequences (n := 63) (by decide)] at hrefused
  exact ⟨hwrite, hsame.mpr (by decide), hwrite', hwider, hrefused (by decide)⟩

end Asn1.TimeStamp.Response
