import PrincipalForm.Evaluation

/-!
Truth tables: the value of a Polish sequence under every valuation of a list of letters, in order of
the valuations' indices, so that the first letter changes slowest. A table ranges over at most
`letterLimit` letters; a longer list is refused before any row is computed.
-/

namespace PrincipalForm

structure Row where
  valuation : Valuation
  value : Bool
  deriving DecidableEq

structure Table where
  letters : List Letter
  rows : List Row
  deriving DecidableEq

namespace Table

def row (letters : List Letter) (polish : Polish) (index : Nat) : Except Fault Row := do
  let valuation := Valuation.ofIndex letters index
  let value ← evaluate polish valuation
  .ok ⟨valuation, value⟩

/-- The rows of the given indices, or the fault of the first row that has one. -/
def rowsAt (letters : List Letter) (polish : Polish) : List Nat → Except Fault (List Row)
  | [] => .ok []
  | index :: rest => do
      let first ← row letters polish index
      let later ← rowsAt letters polish rest
      .ok (first :: later)

def valuationCount (letters : List Letter) : Nat := Nat.pow 2 letters.length

def generate (letters : List Letter) (polish : Polish) : Except Fault Table :=
  if letterLimit < letters.length then .error (.tooManyLetters letters.length)
  else do
    let rows ← rowsAt letters polish (List.range (valuationCount letters))
    .ok ⟨letters, rows⟩

def size (table : Table) : Nat := table.rows.length

def trueRows (table : Table) : List Row := table.rows.filter Row.value

end Table

end PrincipalForm
