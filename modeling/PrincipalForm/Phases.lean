import PrincipalForm.Normal

/-!
Normal infix in two phases: first every missing conjunction is written, then every run of negations
is cut to its parity. Both phases look at a text as a whole, where `Normal.spell` passes over it
once.
-/

namespace PrincipalForm.Phases

/-- A conjunction between any two neighbours of which the first ends an operand and the second
starts one. -/
def conjoin : List Token → List Token
  | [] => []
  | [last] => [last]
  | token :: next :: rest =>
      if Normal.endsOperand token && Normal.startsOperand next then
        token :: .conj :: conjoin (next :: rest)
      else
        token :: conjoin (next :: rest)

def runs (tokens : List Token) : List (List Token) :=
  tokens.splitBy fun left right => decide (left = .neg) == decide (right = .neg)

/-- Of a run of negations one is left if there is an odd number of them; other runs stay. -/
def parity (run : List Token) : List Token :=
  if run.all (· = .neg) then List.replicate (run.length % 2) .neg else run

def cancel (tokens : List Token) : List Token := (runs tokens).flatMap parity

def normal (tokens : List Token) : List Token := cancel (conjoin tokens)

end PrincipalForm.Phases
