import PrincipalForm.Proofs.Columns
import PrincipalForm.Proofs.Multiplicity

/-!
Tables read back from their text. The length of the heading tells the number of columns, and its columns the
letters. The letters tell the valuations of the rows, so a line need not show them apart: behind as many
columns as any other line of the table has, it shows the result.
-/

namespace PrincipalForm

namespace Layout

theorem length_heading (letters : List Letter) :
    (heading letters).length = columnWidth * letters.length + 16 := by
  have widths : (letters.flatMap fun letter => cell [letter.name]).length =
      columnWidth * letters.length := by
    simp [List.length_flatMap, length_cell_name, Nat.mul_comm]
  rw [heading, List.length_append, List.length_append, widths]
  rfl

theorem cell_name_inj {left right : Letter} (same : cell [left.name] = cell [right.name]) :
    left = right := by
  have names : [left.name] = [right.name] := List.append_cancel_left same
  exact Letter.eq_of_name (List.singleton_inj.mp names)

theorem heading_inj {left right : List Letter} (same : heading left = heading right) :
    left = right := by
  have sizes : left.length = right.length := by
    have widths := congrArg List.length same
    rw [length_heading, length_heading, columnWidth] at widths
    omega
  apply List.ext_getElem sizes
  intro spot inside within
  have here := column_heading (List.getElem?_eq_getElem inside)
  have there := column_heading (List.getElem?_eq_getElem within)
  rw [same, there] at here
  exact (cell_name_inj here).symm

theorem truthName_inj {left right : Bool} (same : truthName left = truthName right) : left = right := by
  revert same
  cases left <;> cases right <;> decide

theorem rows_inj {left right : List Row}
    (valuations : left.map Row.valuation = right.map Row.valuation)
    (lines : left.map rowLine = right.map rowLine) : left = right := by
  induction left generalizing right with
  | nil => exact (List.map_eq_nil_iff.mp valuations.symm).symm
  | cons first later ih =>
      cases right with
      | nil => cases valuations
      | cons other rest =>
          obtain ⟨here, valuations⟩ := List.cons.inj valuations
          obtain ⟨line, lines⟩ := List.cons.inj lines
          have rows : first = other := by
            obtain ⟨valuation, value⟩ := first
            obtain ⟨known, result⟩ := other
            obtain rfl : valuation = known := here
            exact congrArg (Row.mk valuation) (truthName_inj (List.append_cancel_left line))
          rw [rows, ih valuations lines]

theorem lines_of_render_eq {layout second : Layout} {table other : Table}
    (whole : layout.fold = false) (wholeOther : second.fold = false)
    (same : layout.render table = second.render other) :
    heading table.letters = heading other.letters ∧
      table.rows.map rowLine = other.rows.map rowLine := by
  have split := congrArg (List.splitOn '\n') same
  have unfolds : ∀ {layout : Layout} (table : Table), layout.fold = false →
      layout.folds table = false := by
    intro layout table plain
    rw [folds, plain, Bool.false_and]
  rw [splitOn_render, splitOn_render, lines_of_not_folds (unfolds table whole),
    lines_of_not_folds (unfolds other wholeOther)] at split
  have lines := List.append_cancel_right split
  exact ⟨(List.cons.inj lines).1, (List.cons.inj (List.cons.inj lines).2).2⟩

end Layout

/-- Tables of any letters and sequences that look the same without folding are the same. -/
theorem table_of_unfolded_text {letters others : List Letter} {polish sequence : Polish}
    {table other : Table} (generated : Table.generate letters polish = .ok table)
    (generatedOther : Table.generate others sequence = .ok other) {layout second : Layout}
    (whole : layout.fold = false) (wholeOther : second.fold = false)
    (same : layout.render table = second.render other) : table = other := by
  obtain ⟨headings, lines⟩ := Layout.lines_of_render_eq whole wholeOther same
  obtain ⟨_, columns, _⟩ := (Table.generate_eq_ok_iff table).mp generated
  obtain ⟨_, columnsOther, _⟩ := (Table.generate_eq_ok_iff other).mp generatedOther
  have letters := Layout.heading_inj headings
  have valuations : table.rows.map Row.valuation = other.rows.map Row.valuation := by
    rw [Table.valuations_rows generated, Table.valuations_rows generatedOther, ← columns,
      ← columnsOther, letters]
  have rows := Layout.rows_inj valuations lines
  cases table
  cases other
  cases letters
  cases rows
  rfl

/-- The sequences `a` and `a!!` have one table over `b`, `a` and once more `b`, as the texts of their tables
say. -/
theorem table_of_text_of_repeated_letter :
    ∃ table other, Table.generate [.b, .a, .b] [.atom .a] = .ok table ∧
      Table.generate [.b, .a, .b] [.atom .a, .neg, .neg] = .ok other ∧ table = other := by
  cases generated : Table.generate [.b, .a, .b] [.atom .a] with
  | error fault => cases generated
  | ok table =>
      cases others : Table.generate [.b, .a, .b] [.atom .a, .neg, .neg] with
      | error fault => cases others
      | ok other =>
          have same : Layout.unfolded.render table = Layout.unfolded.render other := by
            cases generated
            cases others
            rfl
          exact ⟨table, other, rfl, rfl, table_of_unfolded_text generated others rfl rfl same⟩

end PrincipalForm
