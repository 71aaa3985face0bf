import Asn1.SignatureAlgorithm
import Asn1.Proofs.ObjectIdentifier.Dotted

/-!
# Signature algorithms by dotted text

The tables of schemes hold object identifiers. Since an object identifier matches the dotted text of
another one just when the two are equal, the scheme is the one that is found by comparing with the
dotted texts in the order of the tables (`resolve_eq_findByText`).
-/

namespace Asn1.SignatureAlgorithm

/-- The scheme of the first entry whose dotted text an object identifier matches. -/
def findByText (table : List (ObjectIdentifier × SignatureAlgorithm)) (oid : ObjectIdentifier) :
    SignatureAlgorithm :=
  ((table.find? fun entry => oid.matchesText entry.1.text).map (·.2)).getD .unknown

theorem lookup_eq_find? (table : List (ObjectIdentifier × SignatureAlgorithm))
    (oid : ObjectIdentifier) :
    table.lookup oid = (table.find? fun entry => oid.matchesText entry.1.text).map (·.2) := by
  induction table with
  | nil => rfl
  | cons entry table ih =>
    obtain ⟨key, scheme⟩ := entry
    have hmatch : oid.matchesText key.text = (oid == key) := by
      rw [Bool.eq_iff_iff, beq_iff_eq]
      exact ObjectIdentifier.matchesText_text_iff
    rw [List.lookup_cons, List.find?_cons, hmatch, ih]
    cases oid == key <;> rfl

theorem resolve_eq_findByText (digest signature : ObjectIdentifier) :
    resolve digest signature =
      if signature.matchesText rsaEncryption.text then findByText rsaByDigest digest
      else findByText combined signature := by
  rw [resolve, lookup_eq_find?, lookup_eq_find?, ← findByText, ← findByText]
  by_cases hsignature : signature = rsaEncryption
  · rw [if_pos hsignature, if_pos (ObjectIdentifier.matchesText_text_iff.mpr hsignature)]
  · rw [if_neg hsignature, if_neg (mt ObjectIdentifier.matchesText_text_iff.mp hsignature)]

/-- The texts that plain RSA encryption and the digests are compared with. -/
example : rsaEncryption.text = "1.2.840.113549.1.1.1" ∧
    rsaByDigest.map (fun entry => entry.1.text) =
      ["1.3.14.3.2.26", "2.16.840.1.101.3.4.2.1", "2.16.840.1.101.3.4.2.2",
        "2.16.840.1.101.3.4.2.3"] := by
  decide

end Asn1.SignatureAlgorithm
