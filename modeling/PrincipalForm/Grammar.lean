import PrincipalForm.Expr

/-!
The grammar of formulas. A sum adds products, a product multiplies factors, and a factor is a
letter, a negated factor, or a sum in parentheses; sums and products group to the left. In the text
that a person writes, a product may also have its factors side by side with no operator; in normal
infix it may not.
-/

namespace PrincipalForm

inductive Phrase where
  | sum
  | product
  | factor
  deriving DecidableEq

/-- Whether a product may have its factors side by side. -/
inductive Style where
  | written
  | explicit
  deriving DecidableEq

inductive Derives (style : Style) : Phrase → List Token → Expr → Prop where
  | letter (letter : Letter) : Derives style .factor [.atom letter] (.atom letter)
  | negation {tokens : List Token} {expr : Expr} (operand : Derives style .factor tokens expr) :
      Derives style .factor (.neg :: tokens) (.neg expr)
  | group {tokens : List Token} {expr : Expr} (inner : Derives style .sum tokens expr) :
      Derives style .factor (.opening :: tokens ++ [.closing]) expr
  | factor {tokens : List Token} {expr : Expr} (only : Derives style .factor tokens expr) :
      Derives style .product tokens expr
  | product {before after : List Token} {left right : Expr}
      (first : Derives style .product before left) (last : Derives style .factor after right) :
      Derives style .product (before ++ .conj :: after) (.conj left right)
  | adjacent {before after : List Token} {left right : Expr} (allowed : style = .written)
      (first : Derives style .product before left) (last : Derives style .factor after right) :
      Derives style .product (before ++ after) (.conj left right)
  | term {tokens : List Token} {expr : Expr} (only : Derives style .product tokens expr) :
      Derives style .sum tokens expr
  | sum {before after : List Token} {left right : Expr}
      (first : Derives style .sum before left) (last : Derives style .product after right) :
      Derives style .sum (before ++ .disj :: after) (.disj left right)

/-- A text reads as a tree if it is, spaces apart, the writing of tokens that do. -/
def Reads (text : Text) (expr : Expr) : Prop :=
  ∃ tokens, Token.write tokens = text.filter (· ≠ ' ') ∧ Derives .written .sum tokens expr

end PrincipalForm
