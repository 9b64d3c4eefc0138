import PrincipalForm.Proofs.Compilation
import PrincipalForm.Proofs.Uniformity

/-!
The stages in the journal. A formula that has been asked for some stages holds those of them that can
be computed, and nothing more. A request for a further stage leaves the entries of the stages in
between, in order, and none for a stage that was asked for before, whether or not it could be computed.
-/

namespace PrincipalForm

def Question.depth : Question → Nat
  | .origin | .letters => 0
  | .normal => 1
  | .polish | .evaluate _ => 2
  | .table | .tautology | .render _ => 3
  | .expansion | .contradiction | .satisfiable | .contains _ => 4

namespace Direct

/-- One entry for each stage that can be computed, in the order of the stages. -/
def milestones (text : Text) : List Entry :=
  .normalized text (Normal.spell [] (Token.read text)) ::
    .arranged (Normal.spell [] (Token.read text)) text.polish ::
      match table text with
      | .error _ => []
      | .ok rows =>
          [.tabulated text.polish rows.size rows.trueRows.length,
            .expanded (Expansion.ofTable rows).size rows.size]

def rowEntry (polish : Polish) (row : Row) : Entry := .evaluated polish row.valuation row.value

def rowEntries (text : Text) : List Entry :=
  match table text with
  | .error _ => []
  | .ok table => table.rows.map (rowEntry text.polish)

/-- What is entered along with a milestone: the rows of a table just before the table. -/
def passage (text : Text) : Entry → List Entry
  | .tabulated polish rows trueRows => rowEntries text ++ [.tabulated polish rows trueRows]
  | milestone => [milestone]

def recorded (text : Text) (passed depth : Nat) : List Entry :=
  (((milestones text).take depth).drop passed).flatMap (passage text)

/-- The entry that a question leaves on its own account, each time it is asked. -/
def remark (text : Text) : Question → List Entry
  | .evaluate valuation =>
      match evaluate text.polish valuation with
      | .error _ => []
      | .ok value => [.evaluated text.polish valuation value]
  | _ => []

end Direct

/-- The formula of a text that has been asked for some stages. -/
def Formula.reaching (text : Text) (depth : Nat) : Formula where
  origin := text
  letters := Letter.roster text
  normal? := if 1 ≤ depth then (Direct.normal text).toOption else none
  polish? := if 2 ≤ depth then (Direct.polish text).toOption else none
  table? := if 3 ≤ depth then (Direct.table text).toOption else none
  expansion? := if 4 ≤ depth then (Direct.expansion text).toOption else none

namespace Direct

variable {text : Text} {rows : Table} {fault : Fault}

theorem take_drop_append {Item : Type} (items : List Item) {low middle high : Nat}
    (below : low ≤ middle) (above : middle ≤ high) :
    (items.take middle).drop low ++ (items.take high).drop middle = (items.take high).drop low := by
  have cut : items.take middle = (items.take high).take middle := by
    rw [List.take_take, Nat.min_eq_left above]
  have joined := List.take_append_drop (middle - low) ((items.take high).drop low)
  rw [← List.drop_take, ← cut, List.drop_drop, Nat.add_sub_cancel' below] at joined
  exact joined

theorem recorded_append (text : Text) {low middle high : Nat} (below : low ≤ middle)
    (above : middle ≤ high) :
    recorded text low middle ++ recorded text middle high = recorded text low high := by
  rw [recorded, recorded, ← List.flatMap_append, take_drop_append _ below above, recorded]

theorem recorded_of_le (text : Text) {passed depth : Nat} (reached : depth ≤ passed) :
    recorded text passed depth = [] := by
  rw [recorded, List.drop_eq_nil_of_le, List.flatMap_nil]
  exact Nat.le_trans (List.length_take_le _ _) reached

theorem recorded_table (tabulated : table text = .ok rows) :
    recorded text 2 3 = rows.rows.map (rowEntry text.polish) ++
      [.tabulated text.polish rows.size rows.trueRows.length] := by
  simp [recorded, milestones, passage, rowEntries, tabulated]

theorem recorded_expansion (tabulated : table text = .ok rows) :
    recorded text 3 4 = [.expanded (Expansion.ofTable rows).size rows.size] := by
  simp [recorded, milestones, passage, tabulated]

theorem recorded_of_fault (failed : table text = .error fault) {passed : Nat} (depth : Nat)
    (arranged : 2 ≤ passed) : recorded text passed depth = [] := by
  have short : (milestones text).length ≤ passed := by simpa [milestones, failed] using arranged
  rw [recorded, List.drop_eq_nil_of_le, List.flatMap_nil]
  exact Nat.le_trans (List.length_take_le' _ _) short

theorem table_eq (admissible : text.Admissible) :
    table text = Table.generate (Letter.roster text) text.polish := by
  rw [table, admissible.polish_eq]
  rfl

end Direct

theorem Table.valuations_rowsAt {letters : List Letter} {polish : Polish} {indices : List Nat}
    {rows : List Row} (made : Table.rowsAt letters polish indices = .ok rows) :
    rows.map Row.valuation = indices.map (Valuation.ofIndex letters) := by
  induction indices generalizing rows with
  | nil => cases made; rfl
  | cons index rest ih =>
      obtain ⟨first, here, others⟩ := Fault.bind_eq_ok_iff.mp made
      obtain ⟨later, listed, same⟩ := Fault.bind_eq_ok_iff.mp others
      cases same
      rw [List.map_cons, List.map_cons, ((Table.row_eq_ok_iff index first).mp here).1, ih listed]

namespace Direct

variable {text : Text} {rows : Table} {fault : Fault}

/-- A table that cannot be built has too many letters, or its first row is malformed already. -/
theorem table_fault (admissible : text.Admissible) (failed : table text = .error fault) :
    (letterLimit < (Letter.roster text).length ∧ fault = .tooManyLetters (Letter.roster text).length) ∨
      ((Letter.roster text).length ≤ letterLimit ∧ (∃ cause, fault = .malformed cause) ∧
        evaluate text.polish (Valuation.ofIndex (Letter.roster text) 0) = .error fault) := by
  rw [table_eq admissible] at failed
  by_cases many : letterLimit < (Letter.roster text).length
  · rw [Table.generate, if_pos many] at failed
    exact Or.inl ⟨many, (Except.error.inj failed).symm⟩
  · have few := Nat.not_lt.mp many
    have first := (Table.generate_eq_error_iff few fault).mp failed
    exact Or.inr ⟨few, Text.malformed_of_fault (Valuation.covers_of_letters
      (Valuation.letters_ofIndex _ 0 (Letter.roster_sorted text))) first, first⟩

end Direct

theorem Text.Admissible.normal_ne_error {text : Text} (admissible : text.Admissible) (fault : Fault) :
    Direct.normal text ≠ .error fault := by
  intro failed
  rw [admissible.normal_eq] at failed
  cases failed

theorem Text.Admissible.polish_ne_error {text : Text} (admissible : text.Admissible) (fault : Fault) :
    Direct.polish text ≠ .error fault := by
  intro failed
  rw [admissible.polish_eq] at failed
  cases failed

theorem Recorded.normal_entries {text : Text} (admissible : text.Admissible) :
    (Recorded.normal text).entries = Direct.recorded text 0 1 := by
  rw [Recorded.normal, admissible.normalize_eq]
  rfl

theorem Recorded.table_entries {text : Text} (admissible : text.Admissible) :
    (Recorded.table (Letter.roster text) text.polish).entries = Direct.recorded text 2 3 := by
  cases tabulated : Direct.table text with
  | error fault =>
      rw [Direct.recorded_of_fault tabulated 3 (Nat.le_refl 2)]
      rw [Direct.table_eq admissible] at tabulated
      exact table_entries_of_fault tabulated
  | ok rows =>
      rw [Direct.recorded_table tabulated]
      rw [Direct.table_eq admissible] at tabulated
      exact table_entries_of_rows tabulated

namespace Formula

variable {text : Text}

theorem cell_eq_some_iff {Value : Type} {stage depth : Nat} {direct : Except Fault Value}
    {value : Value} :
    (if stage ≤ depth then direct.toOption else none) = some value ↔
      stage ≤ depth ∧ direct = .ok value := by
  by_cases reached : stage ≤ depth
  · rw [if_pos reached, and_iff_right reached]
    cases direct <;> simp [Except.toOption]
  · rw [if_neg reached]
    simp [reached]

theorem coherent_reaching (admissible : text.Admissible) (depth : Nat) :
    (reaching text depth).Coherent where
  admitted := admissible.ofText_eq
  normal := fun _ found => (cell_eq_some_iff.mp found).2
  polish := fun _ found => (cell_eq_some_iff.mp found).2
  table := fun _ found => (cell_eq_some_iff.mp found).2
  expansion := fun _ found => (cell_eq_some_iff.mp found).2
  normalFirst := by
    intro filled
    obtain ⟨sequence, found⟩ := Option.isSome_iff_exists.mp filled
    obtain ⟨reached, arranged⟩ := cell_eq_some_iff.mp found
    obtain ⟨tokens, normalized, _⟩ := Fault.bind_eq_ok_iff.mp arranged
    have held := cell_eq_some_iff.mpr ⟨Nat.le_of_succ_le reached, normalized⟩
    exact Option.isSome_iff_exists.mpr ⟨tokens, held⟩
  polishFirst := by
    intro filled
    obtain ⟨rows, found⟩ := Option.isSome_iff_exists.mp filled
    obtain ⟨reached, tabulated⟩ := cell_eq_some_iff.mp found
    obtain ⟨sequence, arranged, _⟩ := Fault.bind_eq_ok_iff.mp tabulated
    have held := cell_eq_some_iff.mpr ⟨Nat.le_of_succ_le reached, arranged⟩
    exact Option.isSome_iff_exists.mpr ⟨sequence, held⟩
  tableFirst := by
    intro filled
    obtain ⟨minterms, found⟩ := Option.isSome_iff_exists.mp filled
    obtain ⟨reached, expanded⟩ := cell_eq_some_iff.mp found
    obtain ⟨rows, tabulated, _⟩ := Fault.bind_eq_ok_iff.mp expanded
    have held := cell_eq_some_iff.mpr ⟨Nat.le_of_succ_le reached, tabulated⟩
    exact Option.isSome_iff_exists.mpr ⟨rows, held⟩

end Formula

namespace Request

variable {Value Next : Type} {depth : Nat} {own : Text → List Entry} {after : Formula → Prop}

/-- Asked of a formula that has passed some stages, the request leaves the entries of the further stages
up to a depth, and some of its own, and takes the formula to that depth. -/
def Reaches (request : Request Value) (depth : Nat) (own : Text → List Entry) : Prop :=
  ∀ text : Text, text.Admissible → ∀ passed,
    (request (.reaching text passed)).formula = .reaching text (max passed depth) ∧
      (request (.reaching text passed)).entries = Direct.recorded text passed depth ++ own text

theorem reaches_origin : Reaches (read Formula.origin) 0 (fun _ => []) := by
  intro text _ passed
  rw [Nat.max_zero, Direct.recorded_of_le text (Nat.zero_le passed)]
  exact ⟨rfl, rfl⟩

theorem reaches_letters : Reaches (read Formula.letters) 0 (fun _ => []) := by
  intro text _ passed
  rw [Nat.max_zero, Direct.recorded_of_le text (Nat.zero_le passed)]
  exact ⟨rfl, rfl⟩

theorem Meets.answer_reaching {request : Request Value} {direct : Text → Except Fault Value}
    (meets : Meets (fun _ => True) request direct after) {text : Text}
    (admissible : text.Admissible) (passed : Nat) :
    (request (.reaching text passed)).answer = direct text :=
  (meets _ (Formula.coherent_reaching admissible passed) trivial).1

/-- What follows a request may add entries of its own, but reaches no further. -/
theorem reaches_bind {first : Request Value} {next : Value → Request Next}
    {direct : Text → Except Fault Value} (meets : Meets (fun _ => True) first direct after)
    (reaches : Reaches first depth (fun _ => []))
    (adds : ∀ text : Text, text.Admissible → ∀ value, direct text = .ok value → ∀ passed,
      (next value (.reaching text passed)).formula = .reaching text passed ∧
        (next value (.reaching text passed)).entries = own text)
    (stops : ∀ text : Text, text.Admissible → ∀ fault, direct text = .error fault → own text = []) :
    Reaches (first >>= next) depth own := by
  intro text admissible passed
  have answer := meets.answer_reaching admissible passed
  obtain ⟨formula, entries⟩ := reaches text admissible passed
  rw [List.append_nil] at entries
  have opened : (first >>= next) (.reaching text passed) =
      Request.bind first next (.reaching text passed) := rfl
  rw [opened]
  cases given : direct text with
  | error fault =>
      rw [given] at answer
      simp only [Request.bind, answer, stops text admissible fault given, List.append_nil]
      exact ⟨formula, entries⟩
  | ok value =>
      obtain ⟨later, added⟩ := adds text admissible value given (max passed depth)
      rw [given] at answer
      simp only [Request.bind, answer, formula, entries, later, added, and_self]

theorem reaches_map {request : Request Value} (reaches : Reaches request depth own)
    (wrap : Value → Next) : Reaches (request >>= fun value => pure (wrap value)) depth own := by
  intro text admissible passed
  have opened : (request >>= fun value => pure (wrap value)) (.reaching text passed) =
      Request.bind request (fun value => pure (wrap value)) (.reaching text passed) := rfl
  rw [← (reaches text admissible passed).1, ← (reaches text admissible passed).2, opened, Request.bind]
  cases (request (.reaching text passed)).answer with
  | error fault => exact ⟨rfl, rfl⟩
  | ok value => exact ⟨rfl, List.append_nil _⟩

/-- A cell is filled when its stage is first reached. A stage that cannot be computed is tried again, but
enters nothing. -/
theorem reaches_held {cell : Formula → Option Value} {fill : Formula → Value → Formula}
    {compute : Request Value} {direct : Text → Except Fault Value}
    (meets : Meets (fun _ => True) compute direct after)
    (reaches : Reaches compute depth fun text => Direct.recorded text depth (depth + 1))
    (holds : ∀ text passed, cell (.reaching text passed) =
      if depth + 1 ≤ passed then (direct text).toOption else none)
    (filled : ∀ text value, direct text = .ok value →
      fill (.reaching text depth) value = .reaching text (depth + 1))
    (empty : ∀ text fault, direct text = .error fault →
      Formula.reaching text (depth + 1) = .reaching text depth)
    (silent : ∀ text : Text, text.Admissible → ∀ fault, direct text = .error fault →
      Direct.recorded text depth (depth + 1) = []) :
    Reaches (held cell fill compute) (depth + 1) (fun _ => []) := by
  intro text admissible passed
  have answer := meets.answer_reaching admissible passed
  obtain ⟨formula, entries⟩ := reaches text admissible passed
  rw [List.append_nil]
  have cellGiven := holds text passed
  by_cases reached : depth + 1 ≤ passed
  · -- nothing is left to be entered, whether the stage is answered from its cell or tried again
    rw [if_pos reached] at cellGiven
    rw [Nat.max_eq_left reached, Direct.recorded_of_le text reached]
    rw [Nat.max_eq_left (Nat.le_of_succ_le reached)] at formula
    rw [Direct.recorded_of_le text (Nat.le_of_succ_le reached), List.nil_append] at entries
    cases given : direct text with
    | ok value =>
        rw [given] at cellGiven
        rw [held, cellGiven]
        exact ⟨rfl, rfl⟩
    | error fault =>
        rw [given] at cellGiven answer
        simp only [held, cellGiven, Except.toOption, answer]
        exact ⟨formula, entries.trans (silent text admissible fault given)⟩
  · have below := Nat.le_of_lt_succ (Nat.not_le.mp reached)
    rw [if_neg reached] at cellGiven
    rw [Nat.max_eq_right (Nat.le_succ_of_le below)]
    rw [Nat.max_eq_right below] at formula
    rw [Direct.recorded_append text below (Nat.le_succ depth)] at entries
    cases given : direct text with
    | ok value =>
        rw [given] at answer
        simp only [held, cellGiven, answer, formula]
        exact ⟨filled text value given, entries⟩
    | error fault =>
        rw [given] at answer
        simp only [held, cellGiven, answer]
        exact ⟨formula.trans (empty text fault given).symm, entries⟩

theorem reaches_normal : Reaches normal 1 (fun _ => []) := by
  refine reaches_held computes_normal (reaches_bind meets_origin reaches_origin ?_ ?_) ?_ ?_ ?_ ?_
  · rintro text admissible _ ⟨rfl⟩ passed
    exact ⟨rfl, Recorded.normal_entries admissible⟩
  · intro text _ fault failed
    cases failed
  · exact fun text passed => rfl
  · intro text tokens normalized
    simp [Formula.reaching, normalized, Except.toOption]
  · intro text fault failed
    simp [Formula.reaching, failed, Except.toOption]
  · intro text admissible fault failed
    exact absurd failed (admissible.normal_ne_error fault)

theorem reaches_polish : Reaches polish 2 (fun _ => []) := by
  refine reaches_held computes_polish (reaches_bind meets_normal reaches_normal ?_ ?_) ?_ ?_ ?_ ?_
  · intro text admissible tokens normalized passed
    rw [admissible.normal_eq] at normalized
    cases normalized
    exact ⟨rfl, rfl⟩
  · intro text admissible fault failed
    exact absurd failed (admissible.normal_ne_error fault)
  · exact fun text passed => rfl
  · intro text sequence arranged
    simp [Formula.reaching, arranged, Except.toOption]
  · intro text fault failed
    simp [Formula.reaching, failed, Except.toOption]
  · intro text admissible fault failed
    exact absurd failed (admissible.polish_ne_error fault)

theorem reaches_table : Reaches table 3 (fun _ => []) := by
  refine reaches_held computes_table (reaches_bind meets_polish reaches_polish ?_ ?_) ?_ ?_ ?_ ?_
  · intro text admissible sequence arranged passed
    rw [admissible.polish_eq] at arranged
    cases arranged
    exact ⟨rfl, Recorded.table_entries admissible⟩
  · intro text admissible fault failed
    exact absurd failed (admissible.polish_ne_error fault)
  · exact fun text passed => rfl
  · intro text rows tabulated
    simp [Formula.reaching, tabulated, Except.toOption]
  · intro text fault failed
    simp [Formula.reaching, failed, Except.toOption]
  · intro text _ fault failed
    exact Direct.recorded_of_fault failed 3 (Nat.le_refl 2)

theorem reaches_expansion : Reaches expansion 4 (fun _ => []) := by
  refine reaches_held computes_expansion (reaches_bind meets_table reaches_table ?_ ?_) ?_ ?_ ?_ ?_
  · intro text _ rows tabulated passed
    exact ⟨rfl, (Direct.recorded_expansion tabulated).symm⟩
  · intro text _ fault failed
    exact Direct.recorded_of_fault failed 4 (by decide)
  · exact fun text passed => rfl
  · intro text minterms expanded
    simp [Formula.reaching, expanded, Except.toOption]
  · intro text fault failed
    simp [Formula.reaching, failed, Except.toOption]
  · intro text _ fault failed
    cases tabulated : Direct.table text with
    | error first => exact Direct.recorded_of_fault tabulated 4 (by decide)
    | ok rows => rw [Direct.expansion, tabulated] at failed; cases failed

theorem reaches_evaluate (valuation : Valuation) :
    Reaches (evaluate valuation) 2 (Direct.remark · (.evaluate valuation)) := by
  refine reaches_bind meets_polish reaches_polish ?_ ?_
  · intro text admissible sequence arranged passed
    rw [admissible.polish_eq] at arranged
    cases arranged
    exact ⟨rfl, Recorded.value_entries _ _⟩
  · intro text admissible fault failed
    exact absurd failed (admissible.polish_ne_error fault)

theorem reaches_question (question : Question) :
    Reaches question.request question.depth (Direct.remark · question) := by
  cases question with
  | origin => exact reaches_map reaches_origin Answer.text
  | letters => exact reaches_map reaches_letters Answer.letters
  | normal => exact reaches_map reaches_normal Answer.tokens
  | polish => exact reaches_map reaches_polish Answer.tokens
  | table => exact reaches_map reaches_table Answer.table
  | expansion => exact reaches_map reaches_expansion Answer.expansion
  | tautology => exact reaches_map (reaches_map reaches_table _) Answer.verdict
  | contradiction => exact reaches_map (reaches_map reaches_expansion _) Answer.verdict
  | satisfiable => exact reaches_map (reaches_map (reaches_map reaches_expansion _) _) Answer.verdict
  | render layout => exact reaches_map (reaches_map reaches_table _) Answer.text
  | contains valuation => exact reaches_map (reaches_map reaches_expansion _) Answer.verdict
  | evaluate valuation => exact reaches_map (reaches_evaluate valuation) Answer.verdict

end Request

end PrincipalForm
