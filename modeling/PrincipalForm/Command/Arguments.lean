import PrincipalForm.Batch
import PrincipalForm.Level

namespace PrincipalForm.Command

structure Arguments where
  file? : Option Text := none
  table : Bool := false
  fold : Nat := ({} : Layout).shown
  noFold : Bool := false
  polish : Bool := false
  level : Level := .warn
  deriving DecidableEq

inductive Switch where
  | table
  | noFold
  | polish
  deriving DecidableEq

inductive Setting where
  | fold
  | level
  deriving DecidableEq

def Switch.display : Switch → String
  | .table => "--table"
  | .noFold => "--no-fold"
  | .polish => "--postfix"

def Setting.display : Setting → String
  | .fold => "--fold <N>"
  | .level => "--log-level <LOG_LEVEL>"

namespace Arguments

/-- A layout is wanted only with tables; folding is lifted whatever number is given for it. -/
def options (arguments : Arguments) : Options where
  polish := arguments.polish
  layout? := if arguments.table then some ⟨!arguments.noFold, arguments.fold⟩ else none

def switchOn (arguments : Arguments) : Switch → Arguments
  | .table => { arguments with table := true }
  | .noFold => { arguments with noFold := true }
  | .polish => { arguments with polish := true }

def fileText (arguments : Arguments) : String :=
  match arguments.file? with
  | none => "None"
  | some file => s!"Some({String.ofList (Text.quoted file)})"

def text (arguments : Arguments) : String :=
  let flags := s!"table: {arguments.table}, fold: {arguments.fold}, no_fold: {arguments.noFold}"
  let rest := s!"postfix: {arguments.polish}, log_level: {arguments.level.name}"
  s!"Cli \x7b input: {arguments.fileText}, {flags}, {rest} \x7d"

end Arguments

end PrincipalForm.Command
