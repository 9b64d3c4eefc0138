import PrincipalForm.Text.Lines

namespace PrincipalForm.Command

inductive Trouble where
  | notFound
  | notFolder
  | isFolder
  | nameTooLong
  | other (description : String)
  deriving DecidableEq

def Trouble.message : Trouble → String
  | .notFound => "No such file or directory (os error 2)"
  | .notFolder => "Not a directory (os error 20)"
  | .isFolder => "Is a directory (os error 21)"
  | .nameTooLong => "File name too long (os error 36)"
  | .other description => description

/-- A folder can be opened, but not read. -/
inductive Source where
  | content (bytes : Text.Bytes)
  | folder
  | absent (trouble : Trouble)
  deriving DecidableEq

end PrincipalForm.Command
