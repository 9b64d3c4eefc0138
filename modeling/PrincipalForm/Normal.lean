import PrincipalForm.Alphabet

/-!
Normal infix. Spaces are dropped, two negations in a row cancel, and an operand that directly
follows another gets the conjunction that their juxtaposition means.
-/

namespace PrincipalForm.Normal

def endsOperand : Token → Bool
  | .atom _ | .closing => true
  | _ => false

def startsOperand : Token → Bool
  | .atom _ | .opening | .neg => true
  | _ => false

/-- What is written is kept newest first; a second negation takes back the one before it. -/
def push : List Token → Token → List Token
  | .neg :: written, .neg => written
  | written, token => token :: written

/-- The conjunction is decided by two neighbours of the text, whether or not they are cancelled. -/
def spell : List Token → List Token → List Token
  | written, [] => written.reverse
  | written, [last] => (push written last).reverse
  | written, token :: next :: rest =>
      if endsOperand token && startsOperand next then
        spell (.conj :: push written token) (next :: rest)
      else
        spell (push written token) (next :: rest)

end PrincipalForm.Normal

namespace PrincipalForm

def normalize (text : Text) : Except Fault (List Token) := do
  Alphabet.check text
  match Token.read text with
  | [] => .error .emptyFormula
  | tokens => .ok (Normal.spell [] tokens)

end PrincipalForm
