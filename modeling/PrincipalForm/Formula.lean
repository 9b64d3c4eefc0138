import PrincipalForm.Journal
import PrincipalForm.Layout

/-!
Formulas, and the requests made of them. A formula holds its text, its letters, and the result of
each stage that has been computed for it. A request answers from what is held and computes what is
not, holding it from then on. What a stage needs is requested first, so a request that fails may
still leave earlier stages held; a failed stage itself is not held and will be tried again.
-/

namespace PrincipalForm

structure Formula where
  origin : Text
  letters : List Letter
  normal? : Option (List Token) := none
  polish? : Option Polish := none
  table? : Option Table := none
  expansion? : Option Expansion := none
  deriving DecidableEq

namespace Formula

/-- A formula with nothing computed yet. A text of spaces only is empty. -/
def ofText (text : Text) : Except Fault Formula := do
  Alphabet.check text
  if text.all (· = ' ') then .error .emptyFormula
  else .ok { origin := text, letters := Letter.roster text }

end Formula

def Recorded.formula (text : Text) : Recorded Formula :=
  noting (Formula.ofText text) fun formula => .admitted formula.origin formula.letters

/-- What comes of a request: the answer, the formula with what it now holds, and the entries. -/
structure Reply (Value : Type) where
  answer : Except Fault Value
  formula : Formula
  entries : List Entry

def Request (Value : Type) : Type := Formula → Reply Value

namespace Request

variable {Value Next : Type}

protected def pure (value : Value) : Request Value := fun formula => ⟨.ok value, formula, []⟩

/-- What the first request left held stays held even if it failed. -/
protected def bind (first : Request Value) (next : Value → Request Next) : Request Next :=
  fun formula =>
    let reply := first formula
    match reply.answer with
    | .error fault => ⟨.error fault, reply.formula, reply.entries⟩
    | .ok value =>
        let later := next value reply.formula
        ⟨later.answer, later.formula, reply.entries ++ later.entries⟩

instance : Monad Request where
  pure := Request.pure
  bind := Request.bind

def ofRecorded (recorded : Recorded Value) : Request Value :=
  fun formula => ⟨recorded.answer, formula, recorded.entries⟩

/-- The answer of a formula built of a text for the occasion. -/
def onText (request : Request Value) (text : Text) : Except Fault Value := do
  let formula ← Formula.ofText text
  (request formula).answer

def read (part : Formula → Value) : Request Value :=
  fun formula => ⟨.ok (part formula), formula, []⟩

/-- Answer from a cell of the formula, or compute the answer and fill the cell with it. -/
def held (cell : Formula → Option Value) (fill : Formula → Value → Formula)
    (compute : Request Value) : Request Value :=
  fun formula =>
    match cell formula with
    | some value => ⟨.ok value, formula, []⟩
    | none =>
        let reply := compute formula
        match reply.answer with
        | .error fault => ⟨.error fault, reply.formula, reply.entries⟩
        | .ok value => ⟨.ok value, fill reply.formula value, reply.entries⟩

def normal : Request (List Token) :=
  held Formula.normal? (fun formula value => { formula with normal? := some value }) do
    let origin ← read Formula.origin
    ofRecorded (Recorded.normal origin)

def polish : Request Polish :=
  held Formula.polish? (fun formula value => { formula with polish? := some value }) do
    let tokens ← normal
    ofRecorded (Recorded.polish tokens)

def table : Request Table :=
  held Formula.table? (fun formula value => { formula with table? := some value }) do
    let sequence ← polish
    let letters ← read Formula.letters
    ofRecorded (Recorded.table letters sequence)

def expansion : Request Expansion :=
  held Formula.expansion? (fun formula value => { formula with expansion? := some value }) do
    let rows ← table
    ofRecorded (Recorded.expansion rows)

/-- A single valuation is evaluated anew each time. -/
def evaluate (valuation : Valuation) : Request Bool := do
  let sequence ← polish
  ofRecorded (Recorded.value sequence valuation)

def tautology : Request Bool := do
  let rows ← table
  pure (decide (rows.trueRows.length = rows.size))

def contradiction : Request Bool := do
  let minterms ← expansion
  pure minterms.isContradiction

def satisfiable : Request Bool := do
  let never ← contradiction
  pure (!never)

def render (layout : Layout) : Request Text := do
  let rows ← table
  pure (layout.render rows)

def contains (valuation : Valuation) : Request Bool := do
  let minterms ← expansion
  pure (decide (Minterm.ofValuation valuation ∈ minterms))

end Request

end PrincipalForm
