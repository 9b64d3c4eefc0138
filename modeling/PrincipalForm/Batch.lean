import PrincipalForm.Formula
import PrincipalForm.Text.Blank
import PrincipalForm.Text.Lines

/-!
Batches: one formula a line. Blank lines are passed over. A line whose formula has a fault is
rejected and writes nothing; the lines after it are still worked on. A line without text ends the
batch.
-/

namespace PrincipalForm

/-- What is written for each formula besides its expansion. -/
structure Options where
  polish : Bool := false
  layout? : Option Layout := none
  deriving DecidableEq

structure Rejection where
  line : Nat
  text : Text
  fault : Fault
  deriving DecidableEq

inductive Ending where
  | finished
  | unreadable
  deriving DecidableEq

structure Report where
  written : Text
  rejections : List Rejection
  ending : Ending
  deriving DecidableEq

def Rejection.message (rejection : Rejection) : String :=
  let quoted := String.ofList (Text.quoted rejection.text)
  s!"line {rejection.line}: {quoted}: {rejection.fault.message}"

namespace Batch

def polishLine (options : Options) : Request Text :=
  if options.polish then do
    let sequence ← Request.polish
    pure (Token.write sequence ++ ['\n'])
  else pure []

def tableLines (options : Options) : Request Text :=
  match options.layout? with
  | some layout => Request.render layout
  | none => pure []

def expansionLine : Request Text := do
  let minterms ← Request.expansion
  pure (minterms.write ++ ['\n'])

def sheet (options : Options) : Request Text := do
  let first ← polishLine options
  let second ← tableLines options
  let third ← expansionLine
  pure (first ++ second ++ third)

def lineSheet (options : Options) (line : Text) : Except Fault Text :=
  (sheet options).onText line

def report (options : Options) : Nat → List (Option Text) → Report
  | _, [] => ⟨[], [], .finished⟩
  | _, none :: _ => ⟨[], [], .unreadable⟩
  | number, some line :: rest =>
      let later := report options (number + 1) rest
      if Text.blank line then later
      else
        match lineSheet options line with
        | .ok written => { later with written := written ++ later.written }
        | .error fault =>
            { later with rejections := ⟨number, line, fault⟩ :: later.rejections }

/-- Lines are numbered from one, blank lines included. -/
def run (options : Options) (bytes : Text.Bytes) : Report :=
  report options 1 (Text.lines bytes)

end Batch

end PrincipalForm
