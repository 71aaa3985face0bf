import Asn1.Proofs.Json
import Asn1.Proofs.TimeStamp.Token
import Mathlib.Data.List.Nodup

/-!
# Summaries and their JSON documents

Statuses and failure reasons are told apart by their names, so the document of a summary holds all
that the summary consists of (`Summary.toJson_inj`). Its text can be read back whatever characters
the strings are made of, and two responses are summarized by the same text exactly when their
summaries agree part by part (`Summary.json_eq_json_iff`).
-/

namespace Asn1.TimeStamp

theorem Status.name_inj {status other : Status} (h : status.name = other.name) :
    status = other := by
  cases status <;> cases other <;> first | rfl | exact absurd h (by decide)

theorem FailureReason.name_inj {reason other : FailureReason} (h : reason.name = other.name) :
    reason = other :=
  List.inj_on_of_nodup_map (show (all.map name).Nodup by decide) (mem_all reason) (mem_all other) h

theorem TokenSummary.toJson_inj {token other : TokenSummary} (h : token.toJson = other.toJson) :
    token = other := by
  obtain ⟨receivedLength, derLength, isCanonical⟩ := token
  obtain ⟨receivedLength', derLength', isCanonical'⟩ := other
  simpa [toJson] using h

theorem TokenSummary.ofOctets_eq_iff {received received' der der' : Octets} :
    ofOctets received der = ofOctets received' der' ↔
      received.length = received'.length ∧ der.length = der'.length ∧
        (received = der ↔ received' = der') := by
  rw [ofOctets, ofOctets, TokenSummary.mk.injEq, Bool.eq_iff_iff, beq_iff_eq, beq_iff_eq]

namespace Summary

variable {summary other : Summary} {response response' : Response}
  {canonical canonical' : Option Octets}

theorem toJson_inj (h : summary.toJson = other.toJson) : summary = other := by
  obtain ⟨status, strings, failures, token⟩ := summary
  obtain ⟨status', strings', failures', token'⟩ := other
  obtain ⟨hparts, htoken⟩ := List.append_inj (Json.object.inj h) rfl
  simp only [List.cons.injEq, Prod.mk.injEq, Json.string.injEq, Json.array.injEq, true_and,
    and_true] at hparts
  obtain ⟨hstatus, hstrings, hfailures⟩ := hparts
  obtain rfl := Status.name_inj hstatus
  obtain rfl := (List.map_inj_right fun _ _ => Json.string.inj).mp hstrings
  obtain rfl := (List.map_inj_right fun _ _ heq =>
    FailureReason.name_inj (Json.string.inj heq)).mp hfailures
  cases token with
  | none =>
    cases token' with
    | none => rfl
    | some token' => simp at htoken
  | some token =>
    cases token' with
    | none => simp at htoken
    | some token' =>
      simp only [List.cons.injEq, Prod.mk.injEq, true_and, and_true] at htoken
      rw [TokenSummary.toJson_inj htoken]

theorem pretty_toJson_eq_iff : summary.toJson.pretty = other.toJson.pretty ↔ summary = other := by
  constructor
  · intro h
    exact toJson_inj (Json.pretty_inj h)
  · rintro rfl
    rfl

/-! ## Responses -/

/-- A token is summarized with its distinguished form if there is a token. -/
theorem token_ofCanonical (h : response.canonicalToken = .ok canonical) :
    (response.token = none ∧ canonical = none ∧ (ofCanonical response canonical).token = none) ∨
      ∃ received der, response.token = some received ∧ canonical = some der ∧
        (ofCanonical response canonical).token = some (.ofOctets received der) := by
  rcases Response.canonicalToken_eq_ok_iff.mp h with
    ⟨hnone, rfl⟩ | ⟨received, der, hreceived, -, rfl⟩
  · exact .inl ⟨hnone, rfl, by simp [ofCanonical, hnone]⟩
  · exact .inr ⟨received, der, hreceived, rfl, by simp [ofCanonical, hreceived]⟩

theorem token_ofCanonical_eq_iff (h : response.canonicalToken = .ok canonical)
    (h' : response'.canonicalToken = .ok canonical') :
    (ofCanonical response canonical).token = (ofCanonical response' canonical').token ↔
      response.token.map List.length = response'.token.map List.length ∧
        canonical.map List.length = canonical'.map List.length ∧
        (response.token = canonical ↔ response'.token = canonical') := by
  rcases token_ofCanonical h with ⟨hnone, rfl, htoken⟩ | ⟨received, der, hsome, rfl, htoken⟩
  · rcases token_ofCanonical h' with ⟨hnone', rfl, htoken'⟩ | ⟨received', der', hsome', rfl, htoken'⟩
    · simp [hnone, hnone', htoken, htoken']
    · simp [hnone, hsome', htoken, htoken']
  · rcases token_ofCanonical h' with ⟨hnone', rfl, htoken'⟩ | ⟨received', der', hsome', rfl, htoken'⟩
    · simp [hsome, hnone', htoken, htoken']
    · rw [hsome, hsome', htoken, htoken']
      simp only [Option.some.injEq, Option.map_some, TokenSummary.ofOctets_eq_iff]

theorem failures_ofCanonical (response : Response) (canonical : Option Octets) :
    (ofCanonical response canonical).failures =
      response.status.failInfo.elim [] FailureInfo.reasons := by
  simp only [ofCanonical]
  cases response.status.failInfo <;> rfl

theorem ofCanonical_eq_iff :
    ofCanonical response canonical = ofCanonical response' canonical' ↔
      response.status.status = response'.status.status ∧
        response.status.strings = response'.status.strings ∧
        response.status.failInfo.elim [] FailureInfo.reasons =
          response'.status.failInfo.elim [] FailureInfo.reasons ∧
        (ofCanonical response canonical).token = (ofCanonical response' canonical').token := by
  rw [← failures_ofCanonical response canonical, ← failures_ofCanonical response' canonical',
    ← Summary.mk.injEq]
  rfl

/-- The summaries of two responses whose tokens can be converted have the same JSON text exactly
when the responses agree on the status, the texts and the failure reasons, and neither has a token
or both have tokens of the same size, with distinguished forms of the same size, and both or none of
them received in that form. -/
theorem json_eq_json_iff (h : response.canonicalToken = .ok canonical)
    (h' : response'.canonicalToken = .ok canonical') :
    ofResponse response = .ok (ofCanonical response canonical) ∧
      ofResponse response' = .ok (ofCanonical response' canonical') ∧
      ((ofCanonical response canonical).toJson.pretty =
          (ofCanonical response' canonical').toJson.pretty ↔
        response.status.status = response'.status.status ∧
          response.status.strings = response'.status.strings ∧
          response.status.failInfo.elim [] FailureInfo.reasons =
            response'.status.failInfo.elim [] FailureInfo.reasons ∧
          response.token.map List.length = response'.token.map List.length ∧
          canonical.map List.length = canonical'.map List.length ∧
          (response.token = canonical ↔ response'.token = canonical')) := by
  refine ⟨by rw [ofResponse_eq, h]; rfl, by rw [ofResponse_eq, h']; rfl, ?_⟩
  rw [pretty_toJson_eq_iff, ofCanonical_eq_iff, token_ofCanonical_eq_iff h h']

/-- A single string that looks like the end of one element and the beginning of another is not
summarized like the two elements. -/
theorem json_eq_json_iff_quoted :
    (Response.mk ⟨.granted, ["a", "b"], none⟩ (some [0x30, 0x83, 0, 0, 2, 5, 0])).canonicalToken =
        .ok (some [0x30, 2, 5, 0]) ∧
      (Response.mk ⟨.granted, ["a\",\n    \"b"], none⟩
          (some [0x30, 0x83, 0, 0, 2, 5, 0])).canonicalToken = .ok (some [0x30, 2, 5, 0]) ∧
      (ofCanonical ⟨⟨.granted, ["a", "b"], none⟩, some [0x30, 0x83, 0, 0, 2, 5, 0]⟩
          (some [0x30, 2, 5, 0])).toJson.pretty ≠
        (ofCanonical ⟨⟨.granted, ["a\",\n    \"b"], none⟩, some [0x30, 0x83, 0, 0, 2, 5, 0]⟩
          (some [0x30, 2, 5, 0])).toJson.pretty := by
  have hconvert : Converter.default.convert [0x30, 0x83, 0, 0, 2, 5, 0] = .ok [0x30, 2, 5, 0] := by
    cbv
  have hcanonical (strings : List String) :
      (Response.mk ⟨.granted, strings, none⟩ (some [0x30, 0x83, 0, 0, 2, 5, 0])).canonicalToken =
        .ok (some [0x30, 2, 5, 0]) :=
    Response.canonicalToken_eq_ok_iff.mpr (.inr ⟨_, _, rfl, hconvert, rfl⟩)
  refine ⟨hcanonical _, hcanonical _, ?_⟩
  intro h
  obtain ⟨-, -, hiff⟩ := json_eq_json_iff (hcanonical ["a", "b"]) (hcanonical ["a\",\n    \"b"])
  exact absurd (hiff.mp h).2.1 (by decide)

end Summary

end Asn1.TimeStamp
