import PrincipalForm.Command.Outcome

namespace PrincipalForm.Command

def drain (stream : IO.FS.Stream) : IO Text.Bytes := do
  let content ← stream.readBinToEnd
  return content.data.toList

def sourceOf (name : Text) : IO Source := do
  try
    let content ← IO.FS.readBinFile (String.ofList name)
    return .content content.data.toList
  catch
    | .noFileOrDirectory .. => return .absent .notFound
    | .inappropriateType _ code _ =>
        return if code = 21 then .folder else .absent .notFolder
    | failure@(.invalidArgument _ code _) =>
        -- a name is looked up before it is opened, and then the code comes negated
        return .absent (if code = 36 ∨ -code = 36 then .nameTooLong else .other failure.toString)
    | failure => return .absent (.other failure.toString)

end PrincipalForm.Command

open PrincipalForm.Command in
def main (arguments : List String) : IO UInt32 := do
  let outcome ← run sourceOf (IO.getStdin >>= drain) (arguments.map String.toList)
  IO.print (String.ofList outcome.written)
  for message in outcome.log do
    IO.eprintln s!"[{message.level.label}] {message.text}"
  for line in outcome.misuse?.toList do
    IO.eprintln line
  for line in causeLines outcome.causes do
    IO.eprintln (String.ofList line)
  return UInt32.ofNat outcome.code
