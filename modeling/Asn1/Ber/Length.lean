import Asn1.Octets
import Asn1.Ber.Error

/-!
# Length octets

A definite length below 128 is one octet. Any length can be written in the long form: an octet
that holds 128 plus a count, then the length in that many big-endian octets. Decoding takes counts
up to four and allows leading zero octets; encoding uses one octet where it can and otherwise the
long form without leading zero octets, which is the shortest form there is. `write` appends the
encoding to a buffer (`toList_write`).
-/

namespace Asn1.Ber.Length

/-- The most octets a long-form length may use behind its first octet. -/
def maxOctets : Nat := 4

/-- Reads a definite length and returns what follows it. -/
def decode : Octets → Except Error (Nat × Octets)
  | [] => .error .earlyEof
  | first :: rest =>
    if first < 0x80 then
      .ok (first.toNat, rest)
    else if first = 0x80 then
      .error .indefiniteLength
    else
      let count := (first &&& 0x7f).toNat
      if maxOctets < count then
        .error .unsupportedLength
      else if rest.length < count then
        .error .earlyEof
      else
        .ok (Octets.toNat (rest.take count), rest.drop count)

/-- The number of octets in the shortest encoding of a length. -/
def octetCount (length : Nat) : Nat :=
  if length < 0x80 then 1 else 1 + Octets.significant length

/-- The shortest encoding of a length. -/
def encode (length : Nat) : Octets :=
  if length < 0x80 then
    [UInt8.ofNat length]
  else
    let count := Octets.significant length
    (0x80 ||| UInt8.ofNat count) :: Octets.ofNat count length

/-- Appends the shortest encoding of a length to a buffer. -/
def write (out : Array UInt8) (length : Nat) : Array UInt8 :=
  if length < 0x80 then
    out.push (UInt8.ofNat length)
  else
    let count := Octets.significant length
    out.push (0x80 ||| UInt8.ofNat count) ++ Octets.ofNat count length

@[simp] theorem length_encode (length : Nat) : (encode length).length = octetCount length := by
  unfold encode octetCount
  split <;> simp [Nat.add_comm]

@[simp] theorem toList_write (out : Array UInt8) (length : Nat) :
    (write out length).toList = out.toList ++ encode length := by
  unfold write encode
  split <;> simp

/-- The octets behind a length are a shorter rest of the octets. -/
theorem length_lt_of_decode {octets tail : Octets} {length : Nat}
    (h : decode octets = .ok (length, tail)) : tail.length < octets.length := by
  cases octets with
  | nil => simp [decode] at h
  | cons first rest =>
    simp only [decode] at h
    split at h
    · simp only [Except.ok.injEq, Prod.mk.injEq] at h
      obtain ⟨-, rfl⟩ := h
      simp
    · split at h
      · simp at h
      · split at h
        · simp at h
        · split at h
          · simp at h
          · simp only [Except.ok.injEq, Prod.mk.injEq] at h
            obtain ⟨-, rfl⟩ := h
            simp only [List.length_drop, List.length_cons]
            omega

end Asn1.Ber.Length
