import PrincipalForm.Command.Misuse

/-!
Reading the arguments of the command. They are taken from the left. A setting named without a value
waits for one and is settled, with its faults, only when the next parameter comes or the arguments
end; so an argument that is no parameter at all is refused before an earlier setting is looked at.
-/

namespace PrincipalForm.Command

inductive Stop where
  | help
  | version
  | misuse (misuse : Misuse)
  deriving DecidableEq

inductive Meaning where
  | switch (switch : Switch)
  | setting (setting : Setting)
  | help
  | version
  deriving DecidableEq

namespace Meaning

def ofName? (name : Text) : Option Meaning :=
  match String.ofList name with
  | "table" => some (.switch .table)
  | "no-fold" => some (.switch .noFold)
  | "postfix" => some (.switch .polish)
  | "fold" => some (.setting .fold)
  | "log-level" => some (.setting .level)
  | "help" => some .help
  | "version" => some .version
  | _ => none

def ofInitial? : Char → Option Meaning
  | 'h' => some .help
  | 'V' => some .version
  | _ => none

end Meaning

/-- The shapes of an argument. A single dash is a plain one. -/
inductive Word where
  | endOfOptions
  | named (name : Text) (value? : Option Text)
  | initials (letters : Text)
  | plain (text : Text)
  deriving DecidableEq

namespace Word

/-- A name and its value are parted by the first equals sign. -/
def ofNamed (text : Text) : Word :=
  match text.dropWhile (· ≠ '=') with
  | [] => .named text none
  | _ :: value => .named (text.takeWhile (· ≠ '=')) (some value)

def ofText : Text → Word
  | ['-', '-'] => .endOfOptions
  | '-' :: '-' :: rest => ofNamed rest
  | ['-'] => .plain ['-']
  | '-' :: letters => .initials letters
  | text => .plain text

end Word

/-- The parameter named last, if it is not settled yet. -/
inductive Pending where
  | none
  | setting (setting : Setting) (value? : Option Text)
  | file (name : Text)
  deriving DecidableEq

structure Progress where
  arguments : Arguments := {}
  switched : List Switch := []
  settled : List Setting := []
  pending : Pending := .none
  fileNamed : Bool := false
  optionsEnded : Bool := false

namespace Progress

def refuse {Value : Type} (misuse : Misuse) : Except Stop Value := .error (.misuse misuse)

def withValue (arguments : Arguments) (value : Text) : Setting → Except Stop Arguments
  | .fold =>
      match Text.readNumeral value with
      | .ok number => .ok { arguments with fold := number }
      | .error problem => refuse (.invalidNumber value problem)
  | .level =>
      match Level.ofName? (String.ofList value) with
      | some level => .ok { arguments with level := level }
      | none => refuse (.invalidLevel value)

/-- A missing value is found first, then a repeated setting, then an unusable value. -/
def settle (progress : Progress) (setting : Setting) : Option Text → Except Stop Progress
  | none => refuse (.missingValue setting.display)
  | some value =>
      if setting ∈ progress.settled then refuse (.repeated setting.display)
      else do
        let arguments ← withValue progress.arguments value setting
        .ok { progress with arguments, settled := setting :: progress.settled, pending := .none }

def nameFile (progress : Progress) : Text → Except Stop Progress
  | [] => refuse (.missingValue "[FILE]")
  | name =>
      let arguments := { progress.arguments with file? := some name }
      .ok { progress with arguments, pending := .none }

def resolve (progress : Progress) : Except Stop Progress :=
  match progress.pending with
  | .none => .ok progress
  | .setting setting value? => progress.settle setting value?
  | .file name => progress.nameFile name

def switchOn (progress : Progress) (switch : Switch) : Except Stop Progress := do
  let progress ← progress.resolve
  if switch ∈ progress.switched then refuse (.repeated switch.display)
  else
    let arguments := progress.arguments.switchOn switch
    .ok { progress with arguments, switched := switch :: progress.switched }

/-- What is asked for at once is given only after the parameter before it is settled. -/
def stopAt {Value : Type} (progress : Progress) (stop : Stop) : Except Stop Value := do
  let _ ← progress.resolve
  .error stop

def named (progress : Progress) (name : Text) (value? : Option Text) : Except Stop Progress :=
  match Meaning.ofName? name, value? with
  | none, _ => refuse (.unexpectedArgument ('-' :: '-' :: name))
  | some (.setting setting), some value => do
      let progress ← progress.resolve
      progress.settle setting (some value)
  | some (.setting setting), none => do
      let progress ← progress.resolve
      .ok { progress with pending := .setting setting none }
  | some (.switch switch), some value => refuse (.unexpectedValue value switch.display)
  | some .help, some value => refuse (.unexpectedValue value "--help")
  | some .version, some value => refuse (.unexpectedValue value "--version")
  | some (.switch switch), none => progress.switchOn switch
  | some .help, none => progress.stopAt .help
  | some .version, none => progress.stopAt .version

/-- Each initial that has a meaning ends the reading, so only the first one counts. -/
def initials (progress : Progress) : Text → Except Stop Progress
  | [] => .ok progress
  | initial :: _ =>
      match Meaning.ofInitial? initial with
      | some .version => progress.stopAt .version
      | some _ => progress.stopAt .help
      | none => refuse (.unexpectedArgument ['-', initial])

def positional (progress : Progress) (text : Text) : Except Stop Progress :=
  if progress.fileNamed then refuse (.unexpectedArgument text)
  else do
    let progress ← progress.resolve
    .ok { progress with pending := .file text, fileNamed := true }

def plain (progress : Progress) (text : Text) : Except Stop Progress :=
  match progress.pending with
  | .setting setting none => .ok { progress with pending := .setting setting (some text) }
  | _ => progress.positional text

def take (progress : Progress) (argument : Text) : Except Stop Progress :=
  if progress.optionsEnded then progress.positional argument
  else
    match Word.ofText argument with
    | .endOfOptions => .ok { progress with optionsEnded := true }
    | .named name value? => progress.named name value?
    | .initials letters => progress.initials letters
    | .plain text => progress.plain text

end Progress

def readFrom (progress : Progress) : List Text → Except Stop Arguments
  | [] => do
      let last ← progress.resolve
      .ok last.arguments
  | argument :: rest => do
      let next ← progress.take argument
      readFrom next rest

def read (arguments : List Text) : Except Stop Arguments := readFrom {} arguments

end PrincipalForm.Command
