import PrincipalForm.Fault
import PrincipalForm.Polish
import PrincipalForm.Valuation

/-!
Evaluation of a sequence in Polish order on a stack of truth values. A letter adds its value and an
operator takes its operands away; a sequence has a value when exactly one is left. Both operands of
a binary operator are always taken, so no operand hides a fault of the other.
-/

namespace PrincipalForm

namespace Evaluation

/-- The stack after one token, newest value first. -/
def step (valuation : Valuation) : List Bool → Token → Except Fault (List Bool)
  | stack, .atom letter =>
      match valuation.get? letter with
      | some value => .ok (value :: stack)
      | none => .error (.unassigned letter)
  | value :: stack, .neg => .ok ((!value) :: stack)
  | right :: left :: stack, .conj => .ok ((left && right) :: stack)
  | right :: left :: stack, .disj => .ok ((left || right) :: stack)
  | _, .opening => .error (.malformed (.unbalanced .opening))
  | _, .closing => .error (.malformed (.unbalanced .closing))
  | _, operator => .error (.malformed (.missingOperand operator))

def run (valuation : Valuation) : List Bool → Polish → Except Fault (List Bool)
  | stack, [] => .ok stack
  | stack, token :: rest => do
      let next ← step valuation stack token
      run valuation next rest

def outcome : List Bool → Except Fault Bool
  | [value] => .ok value
  | [] => .error (.malformed .noValue)
  | values => .error (.malformed (.leftover values.length))

end Evaluation

def evaluate (polish : Polish) (valuation : Valuation) : Except Fault Bool := do
  let stack ← Evaluation.run valuation [] polish
  Evaluation.outcome stack

end PrincipalForm
