import Asn1.TimeStamp.Summary
import Asn1.Proofs.Converter

/-!
# Tokens and their sizes

The summary of a response compares its token as received with the token's conversion. So what is
proved of conversion holds of the sizes and the flag shown there (`convert_shortest`).
-/

namespace Asn1.TimeStamp

open Ber

/-- The token in distinguished form is its conversion under the default limit. -/
theorem Response.canonicalToken_eq (response : Response) :
    response.canonicalToken = match response.token with
      | none => .ok none
      | some token => ((Converter.default.convert token).mapError Error.ber).map some := by
  simp only [canonicalToken, canonicalTokenWithLog, Converter.convert]
  cases response.token with
  | none => rfl
  | some token =>
    cases hresult : (Converter.default.convertWithEvents token).1 with
    | error error => simp [hresult, Except.mapError, Except.map]
    | ok der => simp [hresult, Except.mapError, Except.map]

/-- There is a token in distinguished form if there is none at all or if it can be converted. -/
theorem Response.canonicalToken_eq_ok_iff {response : Response} {canonical : Option Octets} :
    response.canonicalToken = .ok canonical ↔
      (response.token = none ∧ canonical = none) ∨
        ∃ received der, response.token = some received ∧
          Converter.default.convert received = .ok der ∧ canonical = some der := by
  rw [canonicalToken_eq]
  cases response.token with
  | none => simp [eq_comm]
  | some token => simp [map_eq_ok, mapError_eq_ok, @eq_comm _ canonical]

theorem Summary.ofResponse_eq (response : Response) :
    ofResponse response = response.canonicalToken.map (ofCanonical response) := rfl

/-- The summary of a response with a token is made from the token's conversion. -/
theorem Summary.ofResponse_of_convert {response : Response} {received der : Octets}
    (hreceived : response.token = some received)
    (h : Converter.default.convert received = .ok der) :
    ofResponse response = .ok (ofCanonical response (some der)) := by
  rw [ofResponse_eq, Response.canonicalToken_eq_ok_iff.mpr (.inr ⟨_, _, hreceived, h, rfl⟩)]
  rfl

/-- The token part of a summary is about the token of the response and its conversion. -/
theorem exists_token_of_summary {response : Response} {summary : Summary} {token : TokenSummary}
    (h : Summary.ofResponse response = .ok summary) (htoken : summary.token = some token) :
    ∃ received der, response.token = some received ∧
      Converter.default.convert received = .ok der ∧ token = .ofOctets received der := by
  obtain ⟨canonical, hcanonical, rfl⟩ := map_eq_ok.mp h
  rcases Response.canonicalToken_eq_ok_iff.mp hcanonical with
    ⟨hnone, -⟩ | ⟨received, der, hreceived, hconvert, rfl⟩
  · simp [Summary.ofCanonical, hnone] at htoken
  · simp only [Summary.ofCanonical, hreceived, Option.some.injEq] at htoken
    exact ⟨received, der, hreceived, hconvert, htoken.symm⟩

theorem TokenSummary.sizes {received der : Octets}
    (h : Converter.default.convert received = .ok der) :
    ((ofOctets received der).isCanonical = true ↔
        (ofOctets received der).receivedLength = (ofOctets received der).derLength) ∧
      (ofOctets received der).derLength ≤ (ofOctets received der).receivedLength := by
  have hlen := Converter.length_convert_eq_iff h
  simp only [ofOctets, beq_iff_eq]
  refine ⟨?_, Converter.length_le_of_convert h rfl⟩
  rw [← hlen]
  exact eq_comm

/-- A converted input is the one shortest encoding of its value: no longer than the input, as long
only if the input is that encoding, which is when all its length octets are minimal. A summary
therefore calls a token canonical exactly when its two sizes agree. -/
theorem convert_shortest (limit : Nat) :
    (∀ y d, (Converter.withMaxDepth limit).convert y = .ok d →
      d.length ≤ y.length ∧ (d.length = y.length ↔ y = d) ∧
        (y = d ↔ ∀ length n, HasLength y length n → IsMinimal length n) ∧
        ∀ z, (Converter.withMaxDepth limit).decode z = (Converter.withMaxDepth limit).decode y →
          z ≠ d → d.length < z.length) ∧
      ∀ response summary token, Summary.ofResponse response = .ok summary →
        summary.token = some token →
          (token.isCanonical = true ↔ token.receivedLength = token.derLength) ∧
            token.derLength ≤ token.receivedLength := by
  constructor
  · intro y d h
    refine ⟨Converter.length_le_of_convert h rfl, Converter.length_convert_eq_iff h,
      Converter.eq_convert_iff_isMinimal h, ?_⟩
    intro z hz hne
    by_contra hlen
    exact hne (Converter.eq_of_length_convert h hz (Nat.not_lt.mp hlen))
  · intro response summary token h htoken
    obtain ⟨received, der, -, hconvert, rfl⟩ := exists_token_of_summary h htoken
    exact TokenSummary.sizes hconvert

/-- A token with padded length octets is longer than its conversion, and its summary says that it
was not received in distinguished form. -/
theorem convert_shortest_padded :
    Converter.default.convert [0x30, 0x83, 0, 0, 2, 5, 0] = .ok [0x30, 2, 5, 0] ∧
      (¬ ∀ length n, HasLength [0x30, 0x83, 0, 0, 2, 5, 0] length n → IsMinimal length n) ∧
      Summary.ofResponse ⟨.ofStatus .granted, some [0x30, 0x83, 0, 0, 2, 5, 0]⟩ =
          .ok ⟨.granted, [], [], some ⟨7, 4, false⟩⟩ ∧
      (false = true ↔ 7 = 4) := by
  have hconvert : Converter.default.convert [0x30, 0x83, 0, 0, 2, 5, 0] = .ok [0x30, 2, 5, 0] := by
    cbv
  have hsummary : Summary.ofResponse ⟨.ofStatus .granted, some [0x30, 0x83, 0, 0, 2, 5, 0]⟩ =
      .ok ⟨.granted, [], [], some ⟨7, 4, false⟩⟩ :=
    Summary.ofResponse_of_convert rfl hconvert
  obtain ⟨-, -, hminimal, -⟩ := (convert_shortest 64).1 _ _ hconvert
  obtain ⟨hflag, -⟩ := (convert_shortest 64).2 _ _ _ hsummary rfl
  refine ⟨hconvert, ?_, hsummary, hflag⟩
  intro hall
  exact absurd (hminimal.mpr hall) (by decide)

end Asn1.TimeStamp
