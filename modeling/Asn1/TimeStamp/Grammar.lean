import Asn1.Ber.Grammar
import Asn1.TimeStamp.Response

/-!
# The grammar of time-stamp responses

Which octets are a response, and what they mean. A response holds status information and then a
token or nothing. The status information is an element of the grammar of elements, and `Parts` are
its members as they stand there; the content of the token may be anything. `IsResponse` says the
same member by member, of octets only.
-/

namespace Asn1.TimeStamp

open Ber

/-- The octets of an element with a one-octet identifier, and its content. -/
inductive IsMember (tag : UInt8) : (octets content : Octets) → Prop
  | mk {length content : Octets} (hlength : IsLength length content.length) :
      IsMember tag ([tag] ++ length ++ content) content

namespace StatusInfo

/-- The contents of the members of status information. -/
structure Parts where
  status : Octets
  /-- The texts, if there is a sequence of them; it may be empty. -/
  texts : Option (List Octets)
  failInfo : Option Octets
  deriving Repr, DecidableEq

namespace Parts

/-- The sequence of texts. -/
def textsValue (texts : List Octets) : Value :=
  .constructed [sequenceTag] (texts.map (.primitive [utf8StringTag]))

/-- The members that are there, in their order. -/
def members (parts : Parts) : List Value :=
  .primitive [integerTag] parts.status ::
    ((parts.texts.map textsValue).toList ++
      (parts.failInfo.map (.primitive [bitStringTag])).toList)

def toValue (parts : Parts) : Value :=
  .constructed [sequenceTag] parts.members

/-- The members are good ones and say what the information is. A missing sequence of texts and an
empty one mean the same. -/
structure Means (parts : Parts) (info : StatusInfo) : Prop where
  status : ((Integer.decode? parts.status).bind fun code => Status.ofCode? code.toInt) =
    some info.status
  strings : (parts.texts.getD []).map Utf8.decode? = info.strings.map some
  failInfo : parts.failInfo.map FailureInfo.ofContent? = info.failInfo.map some

end Parts

/-- The members that are written for status information. -/
def parts (info : StatusInfo) : Parts where
  status := Integer.encode (Int64.ofNat info.status.code)
  texts := if info.strings.isEmpty then none else some (info.strings.map Utf8.encode)
  failInfo := info.failInfo.map FailureInfo.content

theorem toValue_parts (info : StatusInfo) : info.parts.toValue = info.toValue := by
  obtain ⟨status, strings, failInfo⟩ := info
  cases failInfo <;> cases strings <;>
    simp [parts, Parts.toValue, Parts.members, Parts.textsValue, toValue, Function.comp_def]

end StatusInfo

/-- The octets of a token, which is kept as it stands, or none at all. -/
inductive Response.IsToken : Octets → Option Octets → Prop
  | absent : IsToken [] none
  | present {octets content : Octets} (h : IsMember sequenceTag octets content) :
      IsToken octets (some octets)

/-- The octets of a response, the members of its status information, and its token. -/
inductive Response.IsLaidOut : Octets → StatusInfo.Parts → Option Octets → Prop
  | mk {octets info rest : Octets} {parts : StatusInfo.Parts} {token : Option Octets}
      (hinfo : IsElement info parts.toValue) (htoken : IsToken rest token)
      (houter : IsMember sequenceTag octets (info ++ rest)) : IsLaidOut octets parts token

/-! ## Member by member -/

namespace StatusInfo

/-- The octets of a status: an integer of one to eight octets whose number stands for it. -/
inductive IsStatus : Octets → Status → Prop
  | mk {octets content : Octets} {status : Status} (hmember : IsMember integerTag octets content)
      (hmin : 1 ≤ content.length) (hmax : content.length ≤ 8)
      (hcode : Integer.twosComplement content = status.code) : IsStatus octets status

/-- The octets of texts one after the other. -/
inductive AreTexts : Octets → List String → Prop
  | nil : AreTexts [] []
  | cons {head tail : Octets} {string : String} {strings : List String}
      (hhead : IsMember utf8StringTag head (Utf8.encode string)) (htail : AreTexts tail strings) :
      AreTexts (head ++ tail) (string :: strings)

/-- The octets of a sequence of texts, or none at all. -/
inductive IsFreeText : Octets → List String → Prop
  | absent : IsFreeText [] []
  | present {octets content : Octets} {strings : List String}
      (hmember : IsMember sequenceTag octets content) (htexts : AreTexts content strings) :
      IsFreeText octets strings

/-- The content of a bit string: no bits and none unused, or octets of bits of which fewer than
eight at the end are unused and clear. -/
inductive IsBits : Octets → Prop
  | empty : IsBits [0]
  | octets {unused last : UInt8} {middle : Octets} (hunused : unused.toNat < 8)
      (hclear : ∀ bit < unused.toNat, last.toNat.testBit bit = false) :
      IsBits (unused :: (middle ++ [last]))

/-- The octets of failure reasons, or none at all. -/
inductive IsFailInfo : Octets → Option FailureInfo → Prop
  | absent : IsFailInfo [] none
  | present {octets content : Octets} (hmember : IsMember bitStringTag octets content)
      (hbits : IsBits content) : IsFailInfo octets (some ⟨content⟩)

/-- The octets of status information: a status, then the texts and the reasons if they are there. -/
inductive IsStatusInfo : Octets → StatusInfo → Prop
  | mk {octets front texts reasons : Octets} {info : StatusInfo}
      (hstatus : IsStatus front info.status) (htexts : IsFreeText texts info.strings)
      (hreasons : IsFailInfo reasons info.failInfo)
      (hmember : IsMember sequenceTag octets (front ++ (texts ++ reasons))) :
      IsStatusInfo octets info

end StatusInfo

/-- The octets of a response: status information, then a token if it is there. -/
inductive Response.IsResponse : Octets → Response → Prop
  | mk {octets info rest : Octets} {response : Response}
      (hinfo : StatusInfo.IsStatusInfo info response.status)
      (htoken : IsToken rest response.token)
      (houter : IsMember sequenceTag octets (info ++ rest)) : IsResponse octets response

end Asn1.TimeStamp
