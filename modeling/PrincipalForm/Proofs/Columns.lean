import PrincipalForm.Proofs.Canonicity
import PrincipalForm.Proofs.Lines
import PrincipalForm.Proofs.Tabulation

/-!
Tables as text. The lines of a rendered table are the heading, the rule and one line for each row, and a
folded table is the unfolded one with its last rows left out. All columns are of one width, so a value
stands below the name of its letter, whatever names and values stand before it.
-/

namespace PrincipalForm

namespace Text

theorem splitOn_ofLines {pieces : List Text} (unbroken : ∀ piece ∈ pieces, '\n' ∉ piece) :
    (ofLines pieces).splitOn '\n' = pieces ++ [[]] := by
  induction pieces with
  | nil => rfl
  | cons piece rest ih =>
      have later := ih fun other member => unbroken other (List.mem_cons_of_mem piece member)
      have opened : ofLines (piece :: rest) = piece ++ '\n' :: ofLines rest := by simp [ofLines]
      have here := unbroken piece List.mem_cons_self
      rw [opened, List.splitOn_append_cons_self_of_not_mem here, later, List.cons_append]

section Widths

variable {Item : Type} {write : Item → Text} {width : Nat}

theorem drop_flatMap_cons (even : ∀ item, (write item).length = width) (first : Item)
    (later : List Item) (rest : Text) (place : Nat) :
    ((first :: later).flatMap write ++ rest).drop (width * (place + 1)) =
      (later.flatMap write ++ rest).drop (width * place) := by
  have widths : width * (place + 1) = (write first).length + width * place := by
    rw [even, Nat.mul_succ, Nat.add_comm]
  rw [List.flatMap_cons, List.append_assoc, widths, List.drop_length_add_append]

theorem take_drop_flatMap (even : ∀ item, (write item).length = width) {items : List Item}
    {place : Nat} {item : Item} (here : items[place]? = some item) (rest : Text) :
    ((items.flatMap write ++ rest).drop (width * place)).take width = write item := by
  induction items generalizing place with
  | nil => cases here
  | cons first later ih =>
      cases place with
      | zero =>
          cases here
          simp [List.take_left' (even item)]
      | succ before =>
          rw [drop_flatMap_cons even]
          exact ih here

theorem drop_flatMap (even : ∀ item, (write item).length = width) (items : List Item) (rest : Text) :
    (items.flatMap write ++ rest).drop (width * items.length) = rest := by
  induction items with
  | nil => rfl
  | cons first later ih => rw [List.length_cons, drop_flatMap_cons even, ih]

end Widths

end Text

namespace Layout

def column (place : Nat) (line : Text) : Text := (line.drop (6 * place)).take 6

def afterColumns (columns : Nat) (line : Text) : Text := line.drop (6 * columns)

def unfolded : Layout := { fold := false }

theorem length_cell {text : Text} (narrow : text.length ≤ columnWidth) :
    (cell text).length = columnWidth := by
  rw [cell, Text.rightAligned, List.length_append, List.length_replicate]
  omega

theorem length_cell_name (letter : Letter) : (cell [letter.name]).length = columnWidth :=
  length_cell (Nat.le_of_ble_eq_true rfl)

theorem length_cell_truthName (value : Bool) : (cell (truthName value)).length = columnWidth := by
  cases value <;> decide

theorem newline_not_mem_cell {text : Text} (unbroken : '\n' ∉ text) : '\n' ∉ cell text := by
  simp [cell, Text.rightAligned, unbroken]

theorem newline_not_mem_heading (letters : List Letter) : '\n' ∉ heading letters := by
  have named : ∀ letter : Letter, '\n' ∉ cell [letter.name] := fun letter =>
    newline_not_mem_cell fun member => letter.name_ne rfl (List.mem_singleton.mp member).symm
  simp [heading, named, gap]

theorem newline_not_mem_rowLine (row : Row) : '\n' ∉ rowLine row := by
  have named : ∀ value, '\n' ∉ truthName value := by decide
  simp [rowLine, newline_not_mem_cell, named, gap]

theorem splitOn_render (layout : Layout) (table : Table) :
    (layout.render table).splitOn '\n' = layout.lines table ++ [[]] := by
  have row : ∀ line ∈ table.rows.map rowLine, '\n' ∉ line := by
    simpa using fun found _ => newline_not_mem_rowLine found
  have body : ∀ line ∈ (layout.lines table).drop 2, '\n' ∉ line := by
    intro line member
    simp only [lines, List.drop_succ_cons, List.drop_zero] at member
    split at member
    · rcases List.mem_append.mp member with early | last
      · exact row line (List.mem_of_mem_take early)
      · rw [List.mem_singleton.mp last]
        decide
    · exact row line member
  have ruled : '\n' ∉ rule table.letters := by simp [rule]
  exact Text.splitOn_ofLines (List.forall_mem_cons.mpr
    ⟨newline_not_mem_heading table.letters, List.forall_mem_cons.mpr ⟨ruled, body⟩⟩)

theorem lines_of_folds {layout : Layout} {table : Table} (folded : layout.folds table = true) :
    layout.lines table = (unfolded.lines table).take (layout.shown + 2) ++ [ellipsis] := by
  rw [lines, if_pos folded]
  rfl

theorem lines_of_not_folds {layout : Layout} {table : Table} (whole : layout.folds table = false) :
    layout.lines table = unfolded.lines table := by
  rw [lines, if_neg (Bool.eq_false_iff.mp whole)]
  rfl

theorem folds_iff (layout : Layout) (table : Table) :
    layout.folds table = true ↔ layout.fold = true ∧ layout.shown < table.rows.length := by
  rw [folds, Table.size, Bool.and_eq_true, decide_eq_true_eq]

theorem length_lines_unfolded (table : Table) :
    (unfolded.lines table).length = table.rows.length + 2 := by
  simp [lines, unfolded, folds]

theorem render_of_folds {layout : Layout} {table : Table} (folded : layout.folds table = true) :
    layout.render table =
      Text.ofLines (((unfolded.render table).splitOn '\n').take (layout.shown + 2)) ++
        (ellipsis ++ ['\n']) := by
  have few : layout.shown + 2 ≤ (unfolded.lines table).length := by
    have short := ((layout.folds_iff table).mp folded).2
    rw [length_lines_unfolded]
    omega
  have rendered : layout.render table = Text.ofLines (layout.lines table) := rfl
  rw [rendered, lines_of_folds folded, splitOn_render, List.take_append_of_le_length few, Text.ofLines,
    List.flatMap_append, List.flatMap_singleton, Text.ofLines]

theorem column_heading {letters : List Letter} {spot : Nat} {letter : Letter}
    (here : letters[spot]? = some letter) : column spot (heading letters) = cell [letter.name] := by
  rw [column, heading, List.append_assoc]
  exact Text.take_drop_flatMap length_cell_name here _

theorem column_rowLine {row : Row} {spot : Nat} {value : Bool}
    (here : row.valuation.values[spot]? = some value) :
    column spot (rowLine row) = cell (truthName value) := by
  rw [column, rowLine, List.append_assoc]
  exact Text.take_drop_flatMap length_cell_truthName here _

theorem afterColumns_heading (letters : List Letter) :
    afterColumns letters.length (heading letters) = gap ++ "Truth Value".toList := by
  rw [afterColumns, heading, List.append_assoc]
  exact Text.drop_flatMap length_cell_name letters _

theorem afterColumns_rowLine (row : Row) :
    afterColumns row.valuation.size (rowLine row) = gap ++ truthName row.value := by
  have columns : row.valuation.size = row.valuation.values.length := (List.length_map _).symm
  rw [afterColumns, rowLine, List.append_assoc, columns]
  exact Text.drop_flatMap length_cell_truthName _ _

end Layout

theorem Valuation.getElem?_values {valuation : Valuation} {place : Nat} {letter : Letter}
    (here : valuation.letters[place]? = some letter) :
    ∃ value, valuation.values[place]? = some value ∧ (letter, value) ∈ valuation.entries := by
  rw [letters, List.getElem?_map, Option.map_eq_some_iff] at here
  obtain ⟨⟨_, value⟩, entered, rfl⟩ := here
  refine ⟨value, ?_, List.mem_of_getElem? entered⟩
  rw [values, List.getElem?_map, entered, Option.map_some]

/-- A heading and lines below it show a table: the name of each letter stands to the right of its column, and
so does, in the line of each row, the letter's value in the row. Behind the columns stands the result. -/
structure Layout.Shows (heading : Text) (body : List Text) (table : Table) : Prop where
  size : body.length = table.rows.length
  names : ∀ (spot : Nat) (letter : Letter), table.letters[spot]? = some letter →
    column spot heading = List.replicate 5 ' ' ++ [letter.name]
  title : afterColumns table.letters.length heading = List.replicate 5 ' ' ++ "Truth Value".toList
  cells : ∀ (place : Nat) (found : Row) (line : Text),
    table.rows[place]? = some found → body[place]? = some line →
      ∀ (spot : Nat) (letter : Letter), table.letters[spot]? = some letter →
        ∃ value, (letter, value) ∈ found.valuation.entries ∧
          column spot line = (if value then "  True" else " False").toList
  results : ∀ (place : Nat) (found : Row) (line : Text),
    table.rows[place]? = some found → body[place]? = some line →
      afterColumns table.letters.length line =
        List.replicate 5 ' ' ++ (if found.value then "True" else "False").toList

theorem Table.Complete.shows {letters : List Letter} {polish : Polish} {table : Table}
    (complete : table.Complete letters polish) :
    Layout.Shows (Layout.heading table.letters) (table.rows.map Layout.rowLine) table := by
  have written : ∀ (place : Nat) (found : Row) (line : Text), table.rows[place]? = some found →
      (table.rows.map Layout.rowLine)[place]? = some line →
        line = Layout.rowLine found ∧ found.valuation.letters = table.letters := by
    intro place found line present below
    rw [List.getElem?_map, present, Option.map_some] at below
    exact ⟨(Option.some.inj below).symm, (complete.rows place found present).1.trans complete.columns.symm⟩
  constructor
  case size => exact List.length_map _
  case names => exact fun spot letter here => Layout.column_heading here
  case title => exact Layout.afterColumns_heading table.letters
  case cells =>
    intro place found line present below spot letter here
    obtain ⟨rfl, ranged⟩ := written place found line present below
    rw [← ranged] at here
    obtain ⟨value, stands, entered⟩ := Valuation.getElem?_values here
    refine ⟨value, entered, (Layout.column_rowLine stands).trans ?_⟩
    cases value <;> rfl
  case results =>
    intro place found line present below
    obtain ⟨rfl, ranged⟩ := written place found line present below
    rw [← ranged, Valuation.letters, List.length_map]
    exact Layout.afterColumns_rowLine found

/-- A folded table is made of the first lines of the unfolded one and a line of dots, if that leaves rows out,
and is the unfolded one otherwise. The unfolded one has two lines and then one for each row, and shows in
each column the letter and the letter's values. -/
theorem folding_cuts_rows {letters : List Letter} {polish : Polish} {table : Table}
    (sorted : Ascending.Sorted id letters) (generated : Table.generate letters polish = .ok table) :
    (∀ layout : Layout,
        (layout.fold = true → layout.shown < table.rows.length →
          layout.render table =
            Text.ofLines (((Layout.unfolded.render table).splitOn '\n').take (2 + layout.shown)) ++
              "......\n".toList) ∧
        (¬ (layout.fold = true ∧ layout.shown < table.rows.length) →
          layout.render table = Layout.unfolded.render table)) ∧
      ∃ heading rule body,
        (Layout.unfolded.render table).splitOn '\n' = heading :: rule :: body ++ [[]] ∧
          rule = List.replicate (6 * (table.letters.length + 1) + 16) '-' ∧
          Layout.Shows heading body table := by
  constructor
  · intro layout
    constructor
    · intro folding short
      rw [Nat.add_comm]
      exact Layout.render_of_folds ((layout.folds_iff table).mpr ⟨folding, short⟩)
    · intro whole
      rw [← layout.folds_iff table, Bool.not_eq_true] at whole
      exact congrArg Text.ofLines (Layout.lines_of_not_folds whole)
  · exact ⟨_, _, _, Layout.splitOn_render .unfolded table, rfl,
      (Table.complete_of_generate generated sorted).shows⟩

/-- The four rows of `a!` over `a` and `b` are cut after the third, and not cut after the fourth. -/
theorem folding_of_four_rows :
    ∃ table, Table.generate [.a, .b] [.atom .a, .neg] = .ok table ∧
      ({ shown := 3 } : Layout).render table =
        Text.ofLines (((Layout.unfolded.render table).splitOn '\n').take 5) ++
          "......\n".toList ∧
      ({ shown := 4 } : Layout).render table = Layout.unfolded.render table ∧
      ∃ heading rule body, (Layout.unfolded.render table).splitOn '\n' =
        heading :: rule :: body ++ [[]] ∧ Layout.Shows heading body table := by
  have sorted : Ascending.Sorted id [Letter.a, .b] := by decide
  cases generated : Table.generate [.a, .b] [.atom .a, .neg] with
  | error fault => cases generated
  | ok table =>
      have size : table.rows.length = 4 := Table.length_rows generated
      obtain ⟨folds, heading, rule, body, text, _, shows⟩ := folding_cuts_rows sorted generated
      have cut := (folds { shown := 3 }).1 rfl
      have whole := (folds { shown := 4 }).2
      rw [size] at cut whole
      exact ⟨table, rfl, cut (by decide), whole (by decide), heading, rule, body, text, shows⟩

end PrincipalForm
