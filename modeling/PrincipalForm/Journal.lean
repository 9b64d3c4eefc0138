import PrincipalForm.Level
import PrincipalForm.Normal
import PrincipalForm.Expansion

/-!
The journal of the stages. Each stage that succeeds leaves one entry, and building a table leaves
one more for each row. A computation keeps its entries together with its answer, also when it fails,
so what was computed on the way to a fault stays in the journal.
-/

namespace PrincipalForm

inductive Entry where
  | admitted (origin : Text) (letters : List Letter)
  | normalized (origin : Text) (normal : List Token)
  | arranged (normal : List Token) (polish : Polish)
  | evaluated (polish : Polish) (valuation : Valuation) (value : Bool)
  | tabulated (polish : Polish) (rows trueRows : Nat)
  | expanded (minterms rows : Nat)
  deriving DecidableEq

namespace Entry

def level : Entry → Level
  | .evaluated .. => .trace
  | _ => .debug

/-- A letter is shown by the number of its character. -/
def letterText (letter : Letter) : String := s!"Var({letter.name.toNat})"

def text : Entry → String
  | .admitted origin letters =>
      let names := ", ".intercalate (letters.map letterText)
      s!"Formula::new({String.ofList (Text.quoted origin)}), variables = [{names}]"
  | .normalized origin normal =>
      let written := Text.quoted (Token.write normal)
      s!"preprocess({String.ofList (Text.quoted origin)}) -> {String.ofList written}"
  | .arranged normal polish =>
      let written := Text.quoted (Token.write normal)
      s!"to_postfix({String.ofList written}) -> {String.ofList (Token.write polish)}"
  | .evaluated polish valuation value =>
      let sequence := String.ofList (Token.write polish)
      s!"evaluate({sequence}, {String.ofList valuation.write}) -> {value}"
  | .tabulated polish rows trueRows =>
      s!"truth table for {String.ofList (Token.write polish)}: {rows} rows, {trueRows} true"
  | .expanded minterms rows => s!"pdnf: {minterms} minterms out of {rows} rows"

end Entry

structure Recorded (Value : Type) where
  answer : Except Fault Value
  entries : List Entry

namespace Recorded

variable {Value Next : Type}

protected def pure (value : Value) : Recorded Value := ⟨.ok value, []⟩

/-- The entries of the first computation stay even if it fails. -/
protected def bind (first : Recorded Value) (next : Value → Recorded Next) : Recorded Next :=
  match first.answer with
  | .error fault => ⟨.error fault, first.entries⟩
  | .ok value =>
      let second := next value
      ⟨second.answer, first.entries ++ second.entries⟩

instance : Monad Recorded where
  pure := Recorded.pure
  bind := Recorded.bind

/-- An answer that leaves one entry if it is not a fault. -/
def noting (answer : Except Fault Value) (entry : Value → Entry) : Recorded Value :=
  match answer with
  | .error fault => ⟨.error fault, []⟩
  | .ok value => ⟨.ok value, [entry value]⟩

theorem bind_answer (first : Recorded Value) (next : Value → Recorded Next) :
    (first >>= next).answer = first.answer.bind fun value => (next value).answer := by
  simp only [Bind.bind, Recorded.bind]
  cases first.answer <;> rfl

theorem noting_answer (answer : Except Fault Value) (entry : Value → Entry) :
    (noting answer entry).answer = answer := by
  cases answer <;> rfl

end Recorded

namespace Recorded

def normal (origin : Text) : Recorded (List Token) :=
  noting (normalize origin) (.normalized origin)

def polish (normal : List Token) : Recorded Polish :=
  noting (.ok (Polish.arrange normal)) (.arranged normal)

def value (polish : Polish) (valuation : Valuation) : Recorded Bool :=
  noting (evaluate polish valuation) (.evaluated polish valuation)

def rowsAt (letters : List Letter) (polish : Polish) : List Nat → Recorded (List Row)
  | [] => pure []
  | index :: rest => do
      let valuation := Valuation.ofIndex letters index
      let value ← value polish valuation
      let later ← rowsAt letters polish rest
      pure (⟨valuation, value⟩ :: later)

def table (letters : List Letter) (polish : Polish) : Recorded Table :=
  if letterLimit < letters.length then ⟨.error (.tooManyLetters letters.length), []⟩
  else do
    let rows ← rowsAt letters polish (List.range (Table.valuationCount letters))
    let table : Table := ⟨letters, rows⟩
    noting (.ok table) fun table => .tabulated polish table.size table.trueRows.length

def expansion (table : Table) : Recorded Expansion :=
  noting (.ok (Expansion.ofTable table)) fun expansion => .expanded expansion.size table.size

theorem rowsAt_answer (letters : List Letter) (polish : Polish) (indices : List Nat) :
    (rowsAt letters polish indices).answer = Table.rowsAt letters polish indices := by
  induction indices with
  | nil => rfl
  | cons index rest ih =>
      simp only [rowsAt, Table.rowsAt, Table.row, bind_answer, value, noting_answer, ih]
      cases evaluate polish (Valuation.ofIndex letters index) with
      | error fault => rfl
      | ok value => rfl

theorem table_answer (letters : List Letter) (polish : Polish) :
    (table letters polish).answer = Table.generate letters polish := by
  unfold table Table.generate
  split
  · rfl
  · simp only [bind_answer, rowsAt_answer, noting_answer]
    rfl

end Recorded

end PrincipalForm
