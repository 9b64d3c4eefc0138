import PrincipalForm.Formula

/-!
Sessions: formulas under names, and instructions about them. An instruction that is refused leaves
every name with the formula it had, though a formula may have come to hold stages on the way.
-/

namespace PrincipalForm

abbrev Slot := String

structure Session where
  formulas : List (Slot × Formula)

inductive Question where
  | origin
  | letters
  | normal
  | polish
  | table
  | expansion
  | tautology
  | contradiction
  | satisfiable
  | render (layout : Layout)
  | contains (valuation : Valuation)
  | evaluate (valuation : Valuation)
  deriving DecidableEq

inductive Comparison where
  | equivalent
  | sameOrigin
  | sameTable
  | samePolish
  deriving DecidableEq

inductive Instruction where
  | build (slot : Slot) (text : Text)
  | copy (slot target : Slot)
  | ask (slot : Slot) (question : Question)
  | compare (left right : Slot) (comparison : Comparison)
  deriving DecidableEq

inductive Answer where
  | built (origin : Text) (letters : List Letter)
  | copied
  | text (text : Text)
  | letters (letters : List Letter)
  | tokens (tokens : List Token)
  | table (table : Table)
  | expansion (expansion : Expansion)
  | verdict (value : Bool)
  deriving DecidableEq

inductive Refusal where
  | noSlot (slot : Slot)
  | fault (fault : Fault)
  deriving DecidableEq

structure Response where
  answer : Except Refusal Answer
  session : Session
  entries : List Entry

namespace Question

def request : Question → Request Answer
  | .origin => return .text (← Request.read Formula.origin)
  | .letters => return .letters (← Request.read Formula.letters)
  | .normal => return .tokens (← Request.normal)
  | .polish => return .tokens (← Request.polish)
  | .table => return .table (← Request.table)
  | .expansion => return .expansion (← Request.expansion)
  | .tautology => return .verdict (← Request.tautology)
  | .contradiction => return .verdict (← Request.contradiction)
  | .satisfiable => return .verdict (← Request.satisfiable)
  | .render layout => return .text (← Request.render layout)
  | .contains valuation => return .verdict (← Request.contains valuation)
  | .evaluate valuation => return .verdict (← Request.evaluate valuation)

end Question

namespace Session

def empty : Session := ⟨[]⟩

def get? (session : Session) (slot : Slot) : Option Formula := session.formulas.lookup slot

def put (session : Session) (slot : Slot) (formula : Formula) : Session :=
  ⟨(slot, formula) :: session.formulas.filter fun entry => entry.1 ≠ slot⟩

/-- Work on a session that keeps its entries and the formulas' new cells when it is refused. -/
def Step (Value : Type) : Type := Session → Except Refusal Value × Session × List Entry

namespace Step

variable {Value Next : Type}

protected def pure (value : Value) : Step Value := fun session => (.ok value, session, [])

protected def bind (first : Step Value) (next : Value → Step Next) : Step Next :=
  fun session =>
    match first session with
    | (.error refusal, after, entries) => (.error refusal, after, entries)
    | (.ok value, after, entries) =>
        let (answer, last, later) := next value after
        (answer, last, entries ++ later)

instance : Monad Step where
  pure := Step.pure
  bind := Step.bind

def ofRecorded (recorded : Recorded Value) : Step Value :=
  fun session => (recorded.answer.mapError .fault, session, recorded.entries)

def find (slot : Slot) : Step Formula := fun session =>
  match session.get? slot with
  | some formula => (.ok formula, session, [])
  | none => (.error (.noSlot slot), session, [])

def store (slot : Slot) (formula : Formula) : Step Unit :=
  fun session => (.ok (), session.put slot formula, [])

def ask (slot : Slot) (request : Request Value) : Step Value := fun session =>
  match session.get? slot with
  | some formula =>
      let reply := request formula
      (reply.answer.mapError .fault, session.put slot reply.formula, reply.entries)
  | none => (.error (.noSlot slot), session, [])

end Step

/-- Both formulas are looked up before an equivalence or an origin is asked for; tables and Polish
sequences are asked for one formula after the other. -/
def comparison (left right : Slot) : Comparison → Step Bool
  | .equivalent => do
      let _ ← Step.find left
      let _ ← Step.find right
      let first ← Step.ask left Request.expansion
      let second ← Step.ask right Request.expansion
      pure (decide (first = second))
  | .sameOrigin => do
      let first ← Step.find left
      let second ← Step.find right
      pure (decide (first.origin = second.origin))
  | .sameTable => do
      let first ← Step.ask left Request.table
      let second ← Step.ask right Request.table
      pure (decide (first = second))
  | .samePolish => do
      let first ← Step.ask left Request.polish
      let second ← Step.ask right Request.polish
      pure (decide (first = second))

def step : Instruction → Step Answer
  | .build slot text => do
      let formula ← Step.ofRecorded (Recorded.formula text)
      Step.store slot formula
      pure (.built formula.origin formula.letters)
  | .copy slot target => do
      let formula ← Step.find slot
      Step.store target formula
      pure .copied
  | .ask slot question => Step.ask slot question.request
  | .compare left right comparison => do
      let same ← Session.comparison left right comparison
      pure (.verdict same)

def run (session : Session) (instruction : Instruction) : Response :=
  let (answer, after, entries) := step instruction session
  ⟨answer, after, entries⟩

end Session

end PrincipalForm
