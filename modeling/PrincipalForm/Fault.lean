import PrincipalForm.Token
import PrincipalForm.Text.Quoted

namespace PrincipalForm

/-- The most distinct letters a truth table may range over. -/
def letterLimit : Nat := 10

/-- Why a sequence of tokens in Polish order has no value. -/
inductive Malformation where
  | missingOperand (operator : Token)
  | unbalanced (parenthesis : Token)
  | noValue
  | leftover (operands : Nat)
  deriving DecidableEq

inductive Fault where
  | illegalCharacter (character : Char) (position : Nat)
  | emptyFormula
  | tooManyLetters (count : Nat)
  | malformed (cause : Malformation)
  | unassigned (letter : Letter)
  deriving DecidableEq

namespace Malformation

def message : Malformation → String
  | .missingOperand operator => s!"missing operand for '{operator.symbol}'"
  | .unbalanced parenthesis => s!"unbalanced '{parenthesis.symbol}'"
  | .noValue => "expression has no value"
  | .leftover operands => s!"{operands} operands left without an operator"

end Malformation

namespace Fault

def message : Fault → String
  | .illegalCharacter character position =>
      s!"illegal character {String.ofList (Text.quotedChar character)} at position {position}"
  | .emptyFormula => "formula is empty"
  | .tooManyLetters count => s!"too many variables: {count} (at most {letterLimit} supported)"
  | .malformed cause => s!"syntax error: {cause.message}"
  | .unassigned letter => s!"variable {letter.name} has no assigned value"

end Fault

end PrincipalForm
