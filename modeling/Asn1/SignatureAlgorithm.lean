import Asn1.ObjectIdentifier

/-!
# Signature algorithms

A signer names a digest algorithm and a signature algorithm. The second one either fixes the digest
by itself, or is plain RSA encryption, and then the digest algorithm decides.
-/

namespace Asn1

/-- A signature scheme with its digest. -/
inductive SignatureAlgorithm where
  | sha1WithRsa
  | sha256WithRsa
  | sha384WithRsa
  | sha512WithRsa
  | ecdsaWithSha1
  | ecdsaWithSha256
  | ecdsaWithSha384
  | ecdsaWithSha512
  /-- The two identifiers name no known scheme. -/
  | unknown
  deriving Repr, DecidableEq

namespace SignatureAlgorithm

/-- How the scheme is shown. -/
def text : SignatureAlgorithm → String
  | .sha1WithRsa => "SHA1-RSA"
  | .sha256WithRsa => "SHA256-RSA"
  | .sha384WithRsa => "SHA384-RSA"
  | .sha512WithRsa => "SHA512-RSA"
  | .ecdsaWithSha1 => "ECDSA-SHA1"
  | .ecdsaWithSha256 => "ECDSA-SHA256"
  | .ecdsaWithSha384 => "ECDSA-SHA384"
  | .ecdsaWithSha512 => "ECDSA-SHA512"
  | .unknown => "unknown"

/-- The one-word name of the scheme. -/
def name : SignatureAlgorithm → String
  | .sha1WithRsa => "Sha1WithRsa"
  | .sha256WithRsa => "Sha256WithRsa"
  | .sha384WithRsa => "Sha384WithRsa"
  | .sha512WithRsa => "Sha512WithRsa"
  | .ecdsaWithSha1 => "EcdsaWithSha1"
  | .ecdsaWithSha256 => "EcdsaWithSha256"
  | .ecdsaWithSha384 => "EcdsaWithSha384"
  | .ecdsaWithSha512 => "EcdsaWithSha512"
  | .unknown => "Unknown"

/-- The identifier of plain RSA encryption. -/
def rsaEncryption : ObjectIdentifier := ⟨1, 2, [840, 113549, 1, 1, 1]⟩

/-- The digest algorithms and the schemes they make with plain RSA encryption. -/
def rsaByDigest : List (ObjectIdentifier × SignatureAlgorithm) :=
  [(⟨1, 3, [14, 3, 2, 26]⟩, .sha1WithRsa),
    (⟨2, 16, [840, 1, 101, 3, 4, 2, 1]⟩, .sha256WithRsa),
    (⟨2, 16, [840, 1, 101, 3, 4, 2, 2]⟩, .sha384WithRsa),
    (⟨2, 16, [840, 1, 101, 3, 4, 2, 3]⟩, .sha512WithRsa)]

/-- The signature algorithms that name their digest themselves. -/
def combined : List (ObjectIdentifier × SignatureAlgorithm) :=
  [(⟨1, 2, [840, 113549, 1, 1, 5]⟩, .sha1WithRsa),
    (⟨1, 2, [840, 113549, 1, 1, 11]⟩, .sha256WithRsa),
    (⟨1, 2, [840, 113549, 1, 1, 12]⟩, .sha384WithRsa),
    (⟨1, 2, [840, 113549, 1, 1, 13]⟩, .sha512WithRsa),
    (⟨1, 2, [840, 10045, 4, 1]⟩, .ecdsaWithSha1),
    (⟨1, 2, [840, 10045, 4, 3, 2]⟩, .ecdsaWithSha256),
    (⟨1, 2, [840, 10045, 4, 3, 3]⟩, .ecdsaWithSha384),
    (⟨1, 2, [840, 10045, 4, 3, 4]⟩, .ecdsaWithSha512)]

/-- The scheme named by a digest algorithm and a signature algorithm. -/
def resolve (digest signature : ObjectIdentifier) : SignatureAlgorithm :=
  if signature = rsaEncryption then
    (rsaByDigest.lookup digest).getD .unknown
  else
    (combined.lookup signature).getD .unknown

end SignatureAlgorithm

end Asn1
