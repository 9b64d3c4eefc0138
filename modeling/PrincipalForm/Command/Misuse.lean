import PrincipalForm.Command.Arguments
import PrincipalForm.Text.Numeral
import PrincipalForm.Text.Visible

/-!
Arguments that cannot be used, by cause, and the message that says so. Of an argument the message
has only what a terminal shows.
-/

namespace PrincipalForm.Command

inductive Misuse where
  | unexpectedArgument (argument : Text)
  | unexpectedValue (value : Text) (owner : String)
  | repeated (owner : String)
  | missingValue (owner : String)
  | invalidNumber (value : Text) (problem : Text.NumeralProblem)
  | invalidLevel (value : Text)
  deriving DecidableEq

namespace Misuse

def shown (argument : Text) : String := String.ofList (Text.visible argument)

def detail : Misuse → String
  | .unexpectedArgument argument => s!"unexpected argument '{shown argument}' found"
  | .unexpectedValue value owner =>
      s!"unexpected value '{shown value}' for '{owner}' found; no more were expected"
  | .repeated owner => s!"the argument '{owner}' cannot be used multiple times"
  | .missingValue owner => s!"a value is required for '{owner}' but none was supplied"
  | .invalidNumber value problem =>
      let owner := Setting.fold.display
      s!"invalid value '{shown value}' for '{owner}': {problem.message}"
  | .invalidLevel value =>
      let owner := Setting.level.display
      let problem := "attempted to convert a string that doesn't match an existing log level"
      s!"invalid value '{shown value}' for '{owner}': {problem}"

def message (misuse : Misuse) : String := s!"error: {misuse.detail}"

end Misuse

end PrincipalForm.Command
