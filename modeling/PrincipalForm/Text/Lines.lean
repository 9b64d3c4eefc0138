import PrincipalForm.Text

/-!
Bytes read as lines of text. A line ends at a newline, and a carriage return directly before that
newline belongs to the line end. What follows the last newline is one more line, taken as it is,
unless it is empty. A line whose bytes are not UTF-8 has no text.
-/

namespace PrincipalForm.Text

abbrev Bytes := List UInt8

namespace Lines

def newline : UInt8 := 10

def carriageReturn : UInt8 := 13

/-- The line gathered so far, newest byte first, when its newline is reached. -/
def ended : Bytes → Bytes
  | [] => []
  | byte :: earlier =>
      if byte = carriageReturn then earlier.reverse else (byte :: earlier).reverse

/-- The lines still to come, given the bytes gathered for the first of them, newest first. -/
def gather : Bytes → Bytes → List Bytes
  | [], [] => []
  | byte :: earlier, [] => [(byte :: earlier).reverse]
  | gathered, byte :: rest =>
      if byte = newline then ended gathered :: gather [] rest
      else gather (byte :: gathered) rest

def split (bytes : Bytes) : List Bytes := gather [] bytes

end Lines

def decode? (bytes : Bytes) : Option Text :=
  bytes.toByteArray.utf8Decode?.map Array.toList

def encode (text : Text) : Bytes := text.flatMap String.utf8EncodeChar

theorem decode?_encode (text : Text) : decode? (encode text) = some text := by
  have same : (encode text).toByteArray = text.utf8Encode := by
    simp [encode, List.utf8Encode]
  simp [decode?, same]

/-- The lines of a sequence of bytes, `none` standing for one that is not UTF-8. -/
def lines (bytes : Bytes) : List (Option Text) := (Lines.split bytes).map decode?

end PrincipalForm.Text
