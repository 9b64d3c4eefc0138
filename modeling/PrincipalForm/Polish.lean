import PrincipalForm.Token

/-!
Reverse Polish order. Operators are held back until one of lower priority arrives, so each stands
after its operands. An opening parenthesis shields what is held beneath it until the closing one
takes it away; a closing one without partner passes to the output, and openings without partner
follow at the end, so unbalanced parentheses stay visible.
-/

namespace PrincipalForm

abbrev Polish := List Token

namespace Polish

def givesWay (arriving held : Token) : Bool :=
  held ≠ .opening && arriving.arrivingPriority ≤ held.heldPriority

/-- The held tokens that an arriving token sends to the output, newest first, and those it
leaves. -/
def release (arriving : Token) (held : List Token) : List Token × List Token :=
  held.span (givesWay arriving)

/-- Arrange the tokens still to come, given the ones held back, newest first. -/
def arrangeHolding : List Token → List Token → Polish
  | held, [] => held
  | held, .atom letter :: rest => .atom letter :: arrangeHolding held rest
  | held, .closing :: rest =>
      let (released, kept) := release .closing held
      match kept with
      | .opening :: below => released ++ arrangeHolding below rest
      | kept => released ++ .closing :: arrangeHolding kept rest
  | held, token :: rest =>
      let (released, kept) := release token held
      released ++ arrangeHolding (token :: kept) rest

def arrange (tokens : List Token) : Polish := arrangeHolding [] tokens

end Polish

end PrincipalForm
