import PrincipalForm.Proofs.Precedence

namespace PrincipalForm

namespace Expr

/-- The trees built so far, newest first, after one token more. -/
def build : List Expr → Token → Option (List Expr)
  | trees, .atom letter => some (.atom letter :: trees)
  | operand :: trees, .neg => some (.neg operand :: trees)
  | right :: left :: trees, .conj => some (.conj left right :: trees)
  | right :: left :: trees, .disj => some (.disj left right :: trees)
  | _, _ => none

theorem foldlM_build_polish (expr : Expr) (trees : List Expr) :
    expr.polish.foldlM build trees = some (expr :: trees) := by
  induction expr generalizing trees with
  | atom letter => rfl
  | neg operand ih =>
      rw [polish, List.foldlM_append, ih]
      rfl
  | conj left right ihLeft ihRight | disj left right ihLeft ihRight =>
      rw [polish, List.foldlM_append, List.foldlM_append, ihLeft, Option.bind_eq_bind,
        Option.bind_some, ihRight]
      rfl

theorem polish_inj {left right : Expr} (same : left.polish = right.polish) : left = right := by
  have built := foldlM_build_polish left []
  rw [same, foldlM_build_polish right []] at built
  exact (List.cons.inj (Option.some.inj built)).1.symm

end Expr

variable {tokens : List Token} {expr : Expr}

theorem Derives.unique (derives : Derives .explicit .sum tokens expr) {other : Expr}
    (others : Derives .explicit .sum tokens other) : other = expr :=
  Expr.polish_inj (others.arrange_eq_polish.symm.trans derives.arrange_eq_polish)

/-- The text of a phrase is arranged in the postorder of its tree, and it has no other tree. -/
theorem arrange_read_write (derives : Derives .explicit .sum tokens expr) :
    Polish.arrange (Token.read (Token.write tokens)) = expr.polish ∧
      ∀ other, Derives .explicit .sum tokens other → other = expr := by
  rw [Token.read_write]
  exact ⟨derives.arrange_eq_polish, fun other others => derives.unique others⟩

/-- The text `((a))+!!(b+a)*b+c`, whose last sum is its outermost. -/
theorem arrange_read_write_of_groups :
    Derives .explicit .sum
        [.opening, .opening, .atom .a, .closing, .closing, .disj, .neg, .neg, .opening, .atom .b, .disj,
          .atom .a, .closing, .conj, .atom .b, .disj, .atom .c]
        (.disj (.disj (.atom .a) (.conj (.neg (.neg (.disj (.atom .b) (.atom .a)))) (.atom .b)))
          (.atom .c)) ∧
      Polish.arrange (Token.read "((a))+!!(b+a)*b+c".toList) =
        [.atom .a, .atom .b, .atom .a, .disj, .neg, .neg, .atom .b, .conj, .disj, .atom .c, .disj] := by
  have group : Derives .explicit .factor [.opening, .atom .b, .disj, .atom .a, .closing]
      (.disj (.atom .b) (.atom .a)) := .group (.sum (.term (.factor (.letter .b))) (.factor (.letter .a)))
  have nested : Derives .explicit .factor [.opening, .opening, .atom .a, .closing, .closing] (.atom .a) :=
    .group (.term (.factor (.group (.term (.factor (.letter .a))))))
  have derives := Derives.sum (.sum (.term (.factor nested))
    (.product (.factor (.negation (.negation group))) (.letter .b))) (.factor (.letter .c))
  exact ⟨derives, (arrange_read_write derives).1⟩

end PrincipalForm
