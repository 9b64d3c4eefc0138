import Mathlib.Data.List.TakeDrop
import PrincipalForm.Grammar

/-!
Arranging a phrase of normal infix gives the postorder of its tree. While a phrase is read, its
operators may be held back above those that were held before it; what was held before stays in place
as long as the operator that a phrase of its kind is built with would not send it out.
-/

namespace PrincipalForm

def Phrase.operator : Phrase → Token
  | .sum => .disj
  | .product => .conj
  | .factor => .neg

/-- The loosest operator that may stand next to a phrase of a kind within its own level. -/
def Phrase.follower : Phrase → Token
  | .sum => .disj
  | .product => .conj
  | .factor => .conj

namespace Polish

def Stops (arriving : Token) (held : List Token) : Prop :=
  ∀ token ∈ held.head?, givesWay arriving token = false

theorem givesWay_of_le {arriving looser held : Token}
    (le : looser.arrivingPriority ≤ arriving.arrivingPriority)
    (gives : givesWay arriving held = true) : givesWay looser held = true := by
  simp only [givesWay, Bool.and_eq_true, decide_eq_true_eq] at gives ⊢
  exact ⟨gives.1, Nat.le_trans le gives.2⟩

theorem stops_of_le {arriving tighter : Token} {held : List Token}
    (le : arriving.arrivingPriority ≤ tighter.arrivingPriority) (stops : Stops arriving held) :
    Stops tighter held := by
  intro token newest
  cases gives : givesWay tighter token with
  | false => rfl
  | true => exact (givesWay_of_le le gives).symm.trans (stops token newest)

theorem stops_cons {arriving newest : Token} (held : List Token)
    (stays : givesWay arriving newest = false) : Stops arriving (newest :: held) := by
  intro token same
  cases same
  exact stays

theorem release_append (arriving : Token) (pending held : List Token)
    (gives : ∀ token ∈ pending, givesWay arriving token = true) (stops : Stops arriving held) :
    release arriving (pending ++ held) = (pending, held) := by
  have kept : held.takeWhile (givesWay arriving) = [] ∧ held.dropWhile (givesWay arriving) = held := by
    cases held with
    | nil => exact ⟨rfl, rfl⟩
    | cons token rest =>
        have stays := stops token rfl
        simp [stays]
  rw [release, List.span_eq_takeWhile_dropWhile, List.takeWhile_append_of_pos gives,
    List.dropWhile_append_of_pos gives, kept.1, kept.2, List.append_nil]

/-- An operator sends out what is pending and is then held back itself. -/
theorem arrangeHolding_operator (operator : Token) (pending held rest : List Token)
    (notAtom : operator.isAtom = false) (notClosing : operator ≠ .closing)
    (gives : ∀ token ∈ pending, givesWay operator token = true) (stops : Stops operator held) :
    arrangeHolding (pending ++ held) (operator :: rest) =
      pending ++ arrangeHolding (operator :: held) rest := by
  cases operator with
  | atom letter => cases notAtom
  | closing => exact absurd rfl notClosing
  | conj | disj | neg | opening =>
      simp only [arrangeHolding, release_append _ pending held gives stops]

/-- A closing parenthesis sends out what is pending within its group and ends the group. -/
theorem arrangeHolding_closing (pending below rest : List Token)
    (gives : ∀ token ∈ pending, givesWay .closing token = true) :
    arrangeHolding (pending ++ .opening :: below) (.closing :: rest) =
      pending ++ arrangeHolding below rest := by
  simp only [arrangeHolding, release_append _ pending (.opening :: below) gives (stops_cons below rfl)]

end Polish

namespace Derives

open Polish

variable {phrase : Phrase} {tokens : List Token} {expr : Expr}

/-- A phrase is written but for the operators that are still pending when it ends; these stand above
what was held before it and give way to whatever may follow it. -/
def Arranges (phrase : Phrase) (tokens : List Token) (expr : Expr) (held rest : List Token) : Prop :=
  ∃ written pending, written ++ pending = expr.polish ∧
    (∀ token ∈ pending, givesWay phrase.follower token = true) ∧
    arrangeHolding held (tokens ++ rest) = written ++ arrangeHolding (pending ++ held) rest

theorem gives_concat {arriving operator : Token} {pending : List Token}
    (gives : ∀ token ∈ pending, givesWay arriving token = true)
    (last : givesWay arriving operator = true) :
    ∀ token ∈ pending ++ [operator], givesWay arriving token = true := by
  intro token member
  rcases List.mem_append.mp member with inner | newest
  · exact gives token inner
  · exact List.mem_singleton.mp newest ▸ last

/-- Two phrases joined by a binary operator: the operator sends out what the first left pending, and
is itself pending above what was held before it. -/
theorem arranges_join {phrase inner : Phrase} {before after held rest : List Token}
    {left right joined : Expr} (operator : Token) (notAtom : operator.isAtom = false)
    (notClosing : operator ≠ .closing) (follows : phrase.follower = operator)
    (yields : givesWay operator operator = true)
    (looser : operator.arrivingPriority ≤ inner.follower.arrivingPriority)
    (order : joined.polish = left.polish ++ right.polish ++ [operator])
    (stops : Stops operator held) (first : Arranges phrase before left held (operator :: after ++ rest))
    (last : Arranges inner after right (operator :: held) rest) :
    Arranges phrase (before ++ operator :: after) joined held rest := by
  subst follows
  obtain ⟨leftWritten, leftPending, leftWhole, leftGives, leftArranged⟩ := first
  obtain ⟨rightWritten, rightPending, rightWhole, rightGives, rightArranged⟩ := last
  refine ⟨leftWritten ++ leftPending ++ rightWritten, rightPending ++ [phrase.follower], ?_,
    gives_concat (fun token member => givesWay_of_le looser (rightGives token member)) yields, ?_⟩
  · rw [order, ← leftWhole, ← rightWhole]
    simp only [List.append_assoc]
  · calc arrangeHolding held (before ++ phrase.follower :: after ++ rest)
        = leftWritten ++
            arrangeHolding (leftPending ++ held) (phrase.follower :: (after ++ rest)) := by
          rw [List.append_assoc]
          exact leftArranged
      _ = leftWritten ++ leftPending ++
            arrangeHolding (phrase.follower :: held) (after ++ rest) := by
          rw [arrangeHolding_operator _ _ held _ notAtom notClosing leftGives stops,
            List.append_assoc]
      _ = leftWritten ++ leftPending ++ rightWritten ++
            arrangeHolding (rightPending ++ [phrase.follower] ++ held) rest := by
          rw [rightArranged]
          simp only [List.append_assoc, List.singleton_append]

theorem arranges (derives : Derives .explicit phrase tokens expr) (held rest : List Token)
    (stops : Stops phrase.operator held) : Arranges phrase tokens expr held rest := by
  -- each part of a phrase is read above other held tokens and before other tokens to come
  induction derives generalizing held rest with
  | letter letter => exact ⟨[.atom letter], [], rfl, by simp, rfl⟩
  | @negation tokens expr operand ih =>
      obtain ⟨written, pending, whole, gives, arranged⟩ := ih (.neg :: held) rest (stops_cons held rfl)
      refine ⟨written, pending ++ [.neg], ?_, gives_concat gives rfl, ?_⟩
      · rw [← List.append_assoc, whole]; rfl
      · calc arrangeHolding held (.neg :: tokens ++ rest)
            = arrangeHolding (.neg :: held) (tokens ++ rest) :=
              arrangeHolding_operator .neg [] held _ rfl Token.noConfusion (by simp) stops
          _ = written ++ arrangeHolding (pending ++ [.neg] ++ held) rest := by
              rw [arranged, List.append_assoc]; rfl
  | @group tokens expr inner ih =>
      -- the parenthesis lets nothing through, so the inner sum may begin above it
      obtain ⟨written, pending, whole, gives, arranged⟩ :=
        ih (.opening :: held) (.closing :: rest) (stops_cons held rfl)
      refine ⟨written ++ pending, [], by rw [List.append_nil, whole], by simp, ?_⟩
      calc arrangeHolding held (.opening :: tokens ++ [.closing] ++ rest)
          = arrangeHolding (.opening :: held) (tokens ++ .closing :: rest) := by
            rw [List.cons_append, List.cons_append, List.append_assoc]
            exact arrangeHolding_operator .opening [] held _ rfl Token.noConfusion (by simp)
              (stops_of_le (by decide) stops)
        _ = written ++ (pending ++ arrangeHolding held rest) := by
            rw [arranged, arrangeHolding_closing pending held rest fun token member =>
              givesWay_of_le (by decide) (gives token member)]
        _ = written ++ pending ++ arrangeHolding held rest := (List.append_assoc ..).symm
  | factor only ih => exact ih held rest (stops_of_le (by decide) stops)
  | product first last ihFirst ihLast =>
      exact arranges_join .conj rfl Token.noConfusion rfl rfl (by decide) rfl stops
        (ihFirst held _ stops) (ihLast (.conj :: held) rest (stops_cons held rfl))
  | adjacent allowed first last ihFirst ihLast => cases allowed
  | term only ih =>
      obtain ⟨written, pending, whole, gives, arranged⟩ := ih held rest (stops_of_le (by decide) stops)
      exact ⟨written, pending, whole,
        fun token member => givesWay_of_le (by decide) (gives token member), arranged⟩
  | sum first last ihFirst ihLast =>
      exact arranges_join .disj rfl Token.noConfusion rfl rfl (by decide) rfl stops
        (ihFirst held _ stops) (ihLast (.disj :: held) rest (stops_cons held rfl))

theorem arrange_eq_polish (derives : Derives .explicit .sum tokens expr) :
    arrange tokens = expr.polish := by
  obtain ⟨written, pending, whole, _, arranged⟩ :=
    derives.arranges [] [] fun token newest => by cases newest
  calc arrange tokens = arrangeHolding [] (tokens ++ []) := by rw [List.append_nil]; rfl
    _ = written ++ (pending ++ []) := by rw [arranged]; simp only [arrangeHolding]
    _ = expr.polish := by rw [List.append_nil, whole]

end Derives

end PrincipalForm
