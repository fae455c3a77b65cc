/-!
# Numerals

A numeral on the command line is one or more ASCII digits, after at most one plus sign, whose
value fits in 64 bits. Leading zeros are free; a minus sign, a blank, a separator or a digit of
another script is no part of a numeral.
-/

namespace Consequence.Text

def digitsValue (digits : List Char) : Nat :=
  digits.foldl (fun value c => 10 * value + (c.toNat - '0'.toNat)) 0

/-- The value of a run of digits, if there is one and it fits in 64 bits. -/
def readDigits (digits : List Char) : Option Nat :=
  if digits ≠ [] ∧ digits.all Char.isDigit ∧ digitsValue digits < UInt64.size then
    some (digitsValue digits)
  else
    none

def readNumeral : List Char → Option Nat
  | '+' :: digits => readDigits digits
  | digits => readDigits digits

end Consequence.Text
