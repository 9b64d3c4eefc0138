import PrincipalForm.Table

/-!
Tables laid out as text. Each letter has a column of six characters in which its name and its values
stand to the right, and after five spaces follows the result. A folded table breaks off after a
given number of rows and says so by a line of dots.
-/

namespace PrincipalForm

structure Layout where
  fold : Bool := true
  shown : Nat := 10
  deriving DecidableEq

namespace Layout

def columnWidth : Nat := 6

/-- What stands between the last column and the result. -/
def gap : Text := List.replicate 5 ' '

def truthName (value : Bool) : Text := (if value then "True" else "False").toList

def cell (text : Text) : Text := text.rightAligned columnWidth

def heading (letters : List Letter) : Text :=
  (letters.flatMap fun letter => cell [letter.name]) ++ gap ++ "Truth Value".toList

def rule (letters : List Letter) : Text :=
  List.replicate (columnWidth * (letters.length + 1) + 16) '-'

def rowLine (row : Row) : Text :=
  (row.valuation.values.flatMap fun value => cell (truthName value)) ++ gap ++ truthName row.value

def ellipsis : Text := List.replicate 6 '.'

/-- A table is folded only if that leaves rows out. -/
def folds (layout : Layout) (table : Table) : Bool :=
  layout.fold && layout.shown < table.size

def lines (layout : Layout) (table : Table) : List Text :=
  let rows := table.rows.map rowLine
  let body := if layout.folds table then rows.take layout.shown ++ [ellipsis] else rows
  heading table.letters :: rule table.letters :: body

def render (layout : Layout) (table : Table) : Text :=
  (layout.lines table).flatMap fun line => line ++ ['\n']

end Layout

end PrincipalForm
