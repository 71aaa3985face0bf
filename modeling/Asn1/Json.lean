import Asn1.Octets.Hex

/-!
# JSON documents

A JSON document and its indented text. Each element of an array and each field of an object stands
on a line of its own, indented by two blanks per level; fields keep their order, and empty arrays
and objects stay on one line. In a string the quote, the backslash and the control characters below
the blank are escaped, and every other character stands for itself.
-/

namespace Asn1

/-- A JSON document whose numbers are natural numbers. -/
inductive Json where
  | null
  | bool (value : Bool)
  | number (value : Nat)
  | string (value : String)
  | array (elements : List Json)
  | object (fields : List (String × Json))
  deriving Repr

namespace Json

/-- How a character is written inside a string. -/
def escape (c : Char) : List Char :=
  if c = '"' then ['\\', '"']
  else if c = '\\' then ['\\', '\\']
  else if c = '\x08' then ['\\', 'b']
  else if c = '\t' then ['\\', 't']
  else if c = '\n' then ['\\', 'n']
  else if c = '\x0c' then ['\\', 'f']
  else if c = '\r' then ['\\', 'r']
  else if c.toNat < 0x20 then
    ['\\', 'u', '0', '0', Hex.digit (c.toNat / 16), Hex.digit (c.toNat % 16)]
  else [c]

/-- A string between quotes, in front of `tail`. -/
def renderString (s : String) (tail : List Char) : List Char :=
  '"' :: (s.toList.flatMap escape ++ '"' :: tail)

/-- A new line indented to a level, in front of `tail`. -/
def renderBreak (level : Nat) (tail : List Char) : List Char :=
  '\n' :: (List.replicate (2 * level) ' ' ++ tail)

mutual

/-- The text of a document that starts at a level of indentation, in front of `tail`. -/
def render (level : Nat) : Json → List Char → List Char
  | .null, tail => "null".toList ++ tail
  | .bool true, tail => "true".toList ++ tail
  | .bool false, tail => "false".toList ++ tail
  | .number value, tail => Nat.toDigits 10 value ++ tail
  | .string value, tail => renderString value tail
  | .array [], tail => '[' :: ']' :: tail
  | .array (element :: elements), tail =>
    '[' :: renderBreak (level + 1) (render (level + 1) element
      (renderElements level elements tail))
  | .object [], tail => '{' :: '}' :: tail
  | .object ((name, value) :: fields), tail =>
    '{' :: renderBreak (level + 1) (renderString name (':' :: ' ' ::
      render (level + 1) value (renderFields level fields tail)))

/-- The further elements of an array at a level, and its end. -/
def renderElements (level : Nat) : List Json → List Char → List Char
  | [], tail => renderBreak level (']' :: tail)
  | element :: elements, tail =>
    ',' :: renderBreak (level + 1) (render (level + 1) element
      (renderElements level elements tail))

/-- The further fields of an object at a level, and its end. -/
def renderFields (level : Nat) : List (String × Json) → List Char → List Char
  | [], tail => renderBreak level ('}' :: tail)
  | (name, value) :: fields, tail =>
    ',' :: renderBreak (level + 1) (renderString name (':' :: ' ' ::
      render (level + 1) value (renderFields level fields tail)))

end

/-- The indented text of a document, without a line end behind it. -/
def pretty (json : Json) : String :=
  String.ofList (json.render 0 [])

end Json

end Asn1
