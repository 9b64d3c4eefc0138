import PrincipalForm.Text

/-!
Decimal numerals of machine words. A numeral may begin with a plus sign. It is read from the left,
so the first digit that is none, or that takes the number beyond a word, decides what is wrong.
-/

namespace PrincipalForm.Text

def wordSize : Nat := 0x10000000000000000

inductive NumeralProblem where
  | empty
  | invalidDigit
  | tooLarge
  deriving DecidableEq

def NumeralProblem.message : NumeralProblem → String
  | .empty => "cannot parse integer from empty string"
  | .invalidDigit => "invalid digit found in string"
  | .tooLarge => "number too large to fit in target type"

/-- Read further digits of a number of which some are read. -/
def readDigits : Nat → Text → Except NumeralProblem Nat
  | number, [] => .ok number
  | number, c :: rest =>
      if c.isDigit then
        let next := 10 * number + (c.toNat - '0'.toNat)
        if next < wordSize then readDigits next rest else .error .tooLarge
      else .error .invalidDigit

/-- A sign needs a digit after it. -/
def readNumeral : Text → Except NumeralProblem Nat
  | [] => .error .empty
  | ['+'] => .error .invalidDigit
  | '+' :: rest => readDigits 0 rest
  | digits => readDigits 0 digits

end PrincipalForm.Text
