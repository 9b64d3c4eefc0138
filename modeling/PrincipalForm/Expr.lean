import PrincipalForm.Polish
import PrincipalForm.Valuation

/-!
Formulas as trees. A tree has a truth value under any assignment of values to its letters, and an
order in which its letters, or all of its nodes, are named from left to right. Operands stand before
their operator, so the tree's Polish sequence is its postorder.
-/

namespace PrincipalForm

inductive Expr where
  | atom (letter : Letter)
  | neg (operand : Expr)
  | conj (left right : Expr)
  | disj (left right : Expr)
  deriving DecidableEq

namespace Expr

def eval (value : Letter → Bool) : Expr → Bool
  | .atom letter => value letter
  | .neg operand => !eval value operand
  | .conj left right => eval value left && eval value right
  | .disj left right => eval value left || eval value right

def occurrences : Expr → List Letter
  | .atom letter => [letter]
  | .neg operand => occurrences operand
  | .conj left right => occurrences left ++ occurrences right
  | .disj left right => occurrences left ++ occurrences right

def polish : Expr → Polish
  | .atom letter => [.atom letter]
  | .neg operand => polish operand ++ [.neg]
  | .conj left right => polish left ++ polish right ++ [.conj]
  | .disj left right => polish left ++ polish right ++ [.disj]

theorem eval_congr (expr : Expr) (first second : Letter → Bool)
    (same : ∀ letter ∈ expr.occurrences, first letter = second letter) :
    expr.eval first = expr.eval second := by
  induction expr with
  | atom letter => exact same letter (by simp [occurrences])
  | neg operand ih => simp [eval, ih same]
  | conj left right leftSame rightSame =>
      simp only [occurrences, List.mem_append] at same
      simp [eval, leftSame fun letter member => same letter (Or.inl member),
        rightSame fun letter member => same letter (Or.inr member)]
  | disj left right leftSame rightSame =>
      simp only [occurrences, List.mem_append] at same
      simp [eval, leftSame fun letter member => same letter (Or.inl member),
        rightSame fun letter member => same letter (Or.inr member)]

theorem letters_polish (expr : Expr) :
    expr.polish.filterMap Token.letter? = expr.occurrences := by
  induction expr with
  | atom letter => rfl
  | neg operand ih => simp [polish, occurrences, ih, Token.letter?]
  | conj left right leftLetters rightLetters =>
      simp [polish, occurrences, leftLetters, rightLetters, Token.letter?]
  | disj left right leftLetters rightLetters =>
      simp [polish, occurrences, leftLetters, rightLetters, Token.letter?]

end Expr

namespace Valuation

def Covers (valuation : Valuation) (letters : List Letter) : Prop :=
  ∀ letter ∈ letters, letter ∈ valuation.letters

/-- The value of a letter, false where the valuation gives none. -/
def holds (valuation : Valuation) (letter : Letter) : Bool :=
  decide ((letter, true) ∈ valuation.entries)

theorem holds_of_get? {valuation : Valuation} {letter : Letter} {value : Bool}
    (found : valuation.get? letter = some value) : valuation.holds letter = value := by
  rw [Bool.eq_iff_iff, holds, decide_eq_true_eq, ← get?_eq_some_iff, found, Option.some.injEq]

end Valuation

end PrincipalForm
