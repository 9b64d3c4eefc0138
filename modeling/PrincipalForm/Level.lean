namespace PrincipalForm

inductive Level where
  | off
  | error
  | warn
  | info
  | debug
  | trace
  deriving DecidableEq

namespace Level

def rank : Level → Nat
  | .off => 0
  | .error => 1
  | .warn => 2
  | .info => 3
  | .debug => 4
  | .trace => 5

/-- Whether a reader at a level is shown entries of another. -/
def shows (chosen entry : Level) : Bool := entry.rank ≤ chosen.rank

def name : Level → String
  | .off => "Off"
  | .error => "Error"
  | .warn => "Warn"
  | .info => "Info"
  | .debug => "Debug"
  | .trace => "Trace"

def label : Level → String
  | .off => "OFF"
  | .error => "ERROR"
  | .warn => "WARN"
  | .info => "INFO"
  | .debug => "DEBUG"
  | .trace => "TRACE"

/-- A level by name, in any case. -/
def ofName? (text : String) : Option Level :=
  [off, error, warn, info, debug, trace].find? fun level => level.label = text.map Char.toUpper

end Level

end PrincipalForm
