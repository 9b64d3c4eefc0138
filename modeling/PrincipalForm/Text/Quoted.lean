import PrincipalForm.Text
import PrincipalForm.Text.Printable
import PrincipalForm.Text.Extending

/-!
Quoted text, as it appears in messages. Line ends, tabs, the backslash and the enclosing mark are
written as an escape of two characters; what cannot be shown, or would attach to its neighbour, is
written by its code point in hexadecimal between braces; all else is written as it is.
-/

namespace PrincipalForm.Text

/-- A code point by number, as in \u{301}. -/
def numbered (c : Char) : Text :=
  ['\\', 'u', '\x7b'] ++ Nat.toDigits 16 c.toNat ++ ['\x7d']

def escaped (mark c : Char) : Text :=
  match c with
  | '\x00' => ['\\', '0']
  | '\t' => ['\\', 't']
  | '\n' => ['\\', 'n']
  | '\r' => ['\\', 'r']
  | '\\' => ['\\', '\\']
  | c =>
      if c = mark then ['\\', c]
      else if extending c || !printable c then numbered c
      else [c]

def quotedChar (c : Char) : Text := '\x27' :: escaped '\x27' c ++ ['\x27']

def quoted (text : Text) : Text := '\x22' :: text.flatMap (escaped '\x22') ++ ['\x22']

end PrincipalForm.Text
