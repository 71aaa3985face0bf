/-!
# Decimal numbers

Reading the decimal text of a 64-bit number: an optional single plus sign, then one or more digits.
Leading zeros are allowed. The first offence from the left decides the error. `Denotes` is the
meaning of such a text without regard to the width of numbers, and `IsPlain` picks one text for
each number.
-/

namespace Asn1.Decimal

/-- Why a text is not the number of a 64-bit word. -/
inductive Error where
  | empty
  | invalidDigit
  | tooLarge
  deriving Repr, DecidableEq

/-- The sentence for an error. -/
def Error.message : Error → String
  | .empty => "cannot parse integer from empty string"
  | .invalidDigit => "invalid digit found in string"
  | .tooLarge => "number too large to fit in target type"

/-- Reads digits behind the number `value` of those before them. -/
def readDigits (value : Nat) : List Char → Except Error UInt64
  | [] => .ok (UInt64.ofNat value)
  | digit :: rest =>
    if digit.isDigit then
      let value := value * 10 + (digit.toNat - 48)
      if value < UInt64.size then readDigits value rest else .error .tooLarge
    else
      .error .invalidDigit

/-- Reads the text of a number. A sign without digits is an invalid digit. -/
def read : List Char → Except Error UInt64
  | [] => .error .empty
  | '+' :: digit :: rest => readDigits 0 (digit :: rest)
  | text => readDigits 0 text

/-- One or more digits. -/
def AreDigits (text : List Char) : Prop :=
  text ≠ [] ∧ ∀ digit ∈ text, digit.isDigit

/-- The number that a text stands for: digits in base 10, with or without a plus sign in front. -/
inductive Denotes : List Char → Nat → Prop
  | digits {text : List Char} (h : AreDigits text) : Denotes text (Nat.ofDigitChars 10 text 0)
  | signed {text : List Char} (h : AreDigits text) :
      Denotes ('+' :: text) (Nat.ofDigitChars 10 text 0)

/-- There is no sign, and no zero in front of other digits. -/
def IsPlain (text : List Char) : Prop :=
  '+' ∉ text ∧ (text.head? = some '0' → text = ['0'])

end Asn1.Decimal
