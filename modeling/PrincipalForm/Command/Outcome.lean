import PrincipalForm.Command.Reading
import PrincipalForm.Command.Source

/-!
What the command does with its arguments: the text it writes, what it logs, and the code it exits
with. Faults of formulas are logged and do not change the code; a file that cannot be read does.
-/

namespace PrincipalForm.Command

structure Message where
  level : Level
  text : String
  deriving DecidableEq

structure Outcome where
  code : Nat
  written : Text := []
  log : List Message := []
  misuse? : Option String := none
  causes : List String := []
  deriving DecidableEq

def version : String := "pdnf-rs 0.1.0\n"

def helpLines : List String :=
  ["Print the principal disjunctive normal form of each formula, one per line",
    "",
    "Usage: pdnf [OPTIONS] [FILE]",
    "",
    "Arguments:",
    "  [FILE]  File with one formula per line (standard input if absent or `-`)",
    "",
    "Options:",
    "      --table                  Print the truth table of each formula",
    "      --fold <N>               Number of truth table rows shown before folding [default: 10]",
    "      --no-fold                Print every truth table row",
    "      --postfix                Print the postfix form of each formula",
    "      --log-level <LOG_LEVEL>  Log level [default: warn]",
    "  -h, --help                   Print help",
    "  -V, --version                Print version"]

def help : String := String.join (helpLines.map fun line => line ++ "\n")

def undecodable : List String := ["Could not read input", "stream did not contain valid UTF-8"]

def unreadableFolder : List String := ["Could not read input", Trouble.isFolder.message]

def unopened (name : Text) (trouble : Trouble) : List String :=
  [s!"Could not open '{String.ofList name}'", trouble.message]

/-- The file that the arguments name, unless they mean the standard input. -/
def Arguments.source? (arguments : Arguments) : Option Text :=
  if arguments.file? = some ['-'] then none else arguments.file?

namespace Outcome

def logged (level : Level) (messages : List Message) : List Message :=
  messages.filter fun message => level.shows message.level

def ofStop : Stop → Outcome
  | .help => { code := 0, written := help.toList }
  | .version => { code := 0, written := version.toList }
  | .misuse misuse => { code := 2, misuse? := some misuse.message }

def opening (arguments : Arguments) : Message := ⟨.info, s!"args = {arguments.text}"⟩

def rejections (report : Report) : List Message :=
  report.rejections.map fun rejection => ⟨.error, rejection.message⟩

def closing (report : Report) : Message :=
  ⟨.info, s!"done, {report.rejections.length} formula(s) rejected"⟩

/-- A batch that ends for want of text keeps what it has written, and is not declared done. -/
def ofReport (arguments : Arguments) (report : Report) : Outcome :=
  let begun := opening arguments :: rejections report
  match report.ending with
  | .finished =>
      { code := 0
        written := report.written
        log := logged arguments.level (begun ++ [closing report]) }
  | .unreadable =>
      { code := 1
        written := report.written
        log := logged arguments.level begun
        causes := undecodable }

def ofSource (arguments : Arguments) : Source → Outcome
  | .content bytes => ofReport arguments (Batch.run arguments.options bytes)
  | .folder =>
      { code := 1
        log := logged arguments.level [opening arguments]
        causes := unreadableFolder }
  | .absent trouble =>
      { code := 1
        log := logged arguments.level [opening arguments]
        causes := unopened (arguments.source?.getD []) trouble }

end Outcome

/-- The command run where `sourceOf` says what a file name leads to and `input` is the standard
input. Neither is asked for before the arguments are read, and at most one of them is. -/
def run {m : Type → Type} [Monad m] (sourceOf : Text → m Source) (input : m Text.Bytes)
    (arguments : List Text) : m Outcome := do
  match read arguments with
  | .error stop => return Outcome.ofStop stop
  | .ok arguments =>
      match arguments.source? with
      | none => return Outcome.ofSource arguments (.content (← input))
      | some name => return Outcome.ofSource arguments (← sourceOf name)

/-- A cause with its number before the first line, and later lines set in as far. A line without
text is left empty. -/
def numbered (place : Nat) (cause : Text) : List Text :=
  let inset (line : Text) : Text := if line = [] then [] else List.replicate 6 ' ' ++ line
  match cause.splitOn '\n' with
  | [] => []
  | first :: later =>
      (Text.rightAligned 4 (toString place).toList ++ ':' :: ' ' :: first) :: later.map inset

def causeLines (causes : List String) : List Text :=
  causes.zipIdx.flatMap fun (cause, place) => numbered place cause.toList

end PrincipalForm.Command
