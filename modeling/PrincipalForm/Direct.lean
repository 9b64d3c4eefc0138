import PrincipalForm.Session

/-!
Answers without holding anything. Each stage is computed from the text of a formula alone, and a
session is no more than the text last built under each name. What formulas hold is right when each
filled cell is what its stage gives, and a later cell is filled only if the one before it is.
-/

namespace PrincipalForm

namespace Direct

def normal (text : Text) : Except Fault (List Token) := normalize text

def polish (text : Text) : Except Fault Polish := do
  let tokens ← normal text
  .ok (Polish.arrange tokens)

def table (text : Text) : Except Fault Table := do
  let sequence ← polish text
  Table.generate (Letter.roster text) sequence

def expansion (text : Text) : Except Fault Expansion := do
  let rows ← table text
  .ok (Expansion.ofTable rows)

def answer (text : Text) : Question → Except Fault Answer
  | .origin => .ok (.text text)
  | .letters => .ok (.letters (Letter.roster text))
  | .normal => return .tokens (← normal text)
  | .polish => return .tokens (← polish text)
  | .table => return .table (← table text)
  | .expansion => return .expansion (← expansion text)
  | .tautology => return .verdict ((← table text).rows.all Row.value)
  | .contradiction => return .verdict (← expansion text).minterms.isEmpty
  | .satisfiable => return .verdict (!(← expansion text).minterms.isEmpty)
  | .render layout => return .text (layout.render (← table text))
  | .contains valuation =>
      return .verdict (decide (Minterm.ofValuation valuation ∈ (← expansion text).minterms))
  | .evaluate valuation => do
      let sequence ← polish text
      let value ← PrincipalForm.evaluate sequence valuation
      return .verdict value

def find (texts : Slot → Option Text) (slot : Slot) : Except Refusal Text :=
  match texts slot with
  | some text => .ok text
  | none => .error (.noSlot slot)

def stage {Value : Type} (answer : Except Fault Value) : Except Refusal Value :=
  answer.mapError .fault

def comparison (texts : Slot → Option Text) (left right : Slot) :
    Comparison → Except Refusal Bool
  | .equivalent => do
      let first ← find texts left
      let second ← find texts right
      return decide ((← stage (expansion first)) = (← stage (expansion second)))
  | .sameOrigin => do
      let first ← find texts left
      let second ← find texts right
      return decide (first = second)
  | .sameTable => do
      let first ← stage (table (← find texts left))
      let second ← stage (table (← find texts right))
      return decide (first = second)
  | .samePolish => do
      let first ← stage (polish (← find texts left))
      let second ← stage (polish (← find texts right))
      return decide (first = second)

def respond (texts : Slot → Option Text) : Instruction → Except Refusal Answer
  | .build _ text => do
      let formula ← stage (Formula.ofText text)
      return .built formula.origin formula.letters
  | .copy slot _ => do
      let _ ← find texts slot
      return .copied
  | .ask slot question => do stage (answer (← find texts slot) question)
  | .compare left right comparison =>
      return .verdict (← Direct.comparison texts left right comparison)

/-- The texts after an instruction. Only what succeeds in building or copying changes them. -/
def next (texts : Slot → Option Text) : Instruction → Slot → Option Text
  | .build slot text => fun other =>
      match Formula.ofText text with
      | .ok _ => if other = slot then some text else texts other
      | .error _ => texts other
  | .copy slot target => fun other =>
      match texts slot with
      | some text => if other = target then some text else texts other
      | none => texts other
  | _ => texts

end Direct

/-- What a formula holds agrees with its text, stage by stage. -/
structure Formula.Coherent (formula : Formula) : Prop where
  admitted :
    Formula.ofText formula.origin = .ok { origin := formula.origin, letters := formula.letters }
  normal : ∀ value, formula.normal? = some value → Direct.normal formula.origin = .ok value
  polish : ∀ value, formula.polish? = some value → Direct.polish formula.origin = .ok value
  table : ∀ value, formula.table? = some value → Direct.table formula.origin = .ok value
  expansion : ∀ value, formula.expansion? = some value → Direct.expansion formula.origin = .ok value
  normalFirst : formula.polish?.isSome = true → formula.normal?.isSome = true
  polishFirst : formula.table?.isSome = true → formula.polish?.isSome = true
  tableFirst : formula.expansion?.isSome = true → formula.table?.isSome = true

end PrincipalForm
