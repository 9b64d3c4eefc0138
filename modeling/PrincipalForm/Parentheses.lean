import PrincipalForm.Token

/-!
Nested matching of parentheses. A closing parenthesis takes the nearest opening one before it that
is still open; what is left over on either side is unmatched.
-/

namespace PrincipalForm

structure Unmatched where
  openings : Nat
  closings : Nat
  deriving DecidableEq

namespace Parentheses

/-- The unmatched parentheses of tokens that follow a given number of open ones. -/
def unmatchedAfter : Nat → List Token → Unmatched
  | depth, [] => ⟨depth, 0⟩
  | depth, .opening :: rest => unmatchedAfter (depth + 1) rest
  | 0, .closing :: rest =>
      let later := unmatchedAfter 0 rest
      { later with closings := later.closings + 1 }
  | depth + 1, .closing :: rest => unmatchedAfter depth rest
  | depth, _ :: rest => unmatchedAfter depth rest

theorem unmatchedAfter_other (depth : Nat) (token : Token) (rest : List Token)
    (notOpening : token ≠ .opening) (notClosing : token ≠ .closing) :
    unmatchedAfter depth (token :: rest) = unmatchedAfter depth rest := by
  cases token with
  | opening => exact absurd rfl notOpening
  | closing => exact absurd rfl notClosing
  | atom letter | conj | disj | neg => simp only [unmatchedAfter]

def unmatched (tokens : List Token) : Unmatched := unmatchedAfter 0 tokens

def Balanced (tokens : List Token) : Prop := unmatched tokens = ⟨0, 0⟩

instance (tokens : List Token) : Decidable (Balanced tokens) :=
  inferInstanceAs (Decidable (_ = _))

end Parentheses

end PrincipalForm
