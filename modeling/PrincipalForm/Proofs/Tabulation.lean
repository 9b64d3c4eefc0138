import Mathlib.Tactic.Ring
import PrincipalForm.Proofs.Faults

/-!
Tables in order. Over ascending letters a valuation stands in the row that its index says, and in no
other. The index is the number that the values spell, so that of two rows the earlier is false, and the
later true, at the first letter on which they differ.
-/

namespace PrincipalForm

namespace Valuation

theorem digits_bits (letters : List Letter) (number index : Nat) :
    ((bits letters index).map Prod.snd).foldl digit number =
      number * 2 ^ letters.length + index % 2 ^ letters.length := by
  induction letters generalizing number with
  | nil => simp [bits, Nat.mod_one]
  | cons letter rest ih =>
      rw [bits, List.map_cons, List.foldl_cons, ih, List.length_cons, Nat.mod_pow_succ, digit,
        Nat.pow_succ, Nat.toNat_testBit]
      ring

theorem index_ofIndex (letters : List Letter) (index : Nat) (sorted : Ascending.Sorted id letters) :
    (ofIndex letters index).index = index % 2 ^ letters.length := by
  have spelt := digits_bits letters 0 index
  rw [Nat.zero_mul, Nat.zero_add, ← entries_ofIndex letters index sorted] at spelt
  exact spelt

theorem digit_lt_iff (low high : Nat) (value other : Bool) :
    digit low value < digit high other ↔ low < high ∨ low = high ∧ value < other := by
  have less : false < true := by decide
  have greater : ¬ true < false := by decide
  cases value <;> cases other <;> simp [digit, less, greater] <;> omega

theorem digit_eq_iff (low high : Nat) (value other : Bool) :
    digit low value = digit high other ↔ low = high ∧ value = other := by
  cases value <;> cases other <;> simp [digit] <;> omega

/-- Of numbers with as many digits the one is less that is less at the first digit that differs. -/
theorem digits_lt_iff {left right : List Bool} (size : left.length = right.length) (low high : Nat) :
    left.foldl digit low < right.foldl digit high ↔ low < high ∨ low = high ∧ left < right := by
  induction left generalizing right low high with
  | nil =>
      obtain rfl := List.length_eq_zero_iff.mp size.symm
      simp
  | cons value rest ih =>
      cases right with
      | nil => cases size
      | cons other later =>
          rw [List.foldl_cons, List.foldl_cons, ih (Nat.succ.inj size), digit_lt_iff, digit_eq_iff,
            List.cons_lt_cons_iff, and_assoc, or_assoc, ← and_or_left]

theorem values_lt_iff {left right : Valuation} (same : left.letters = right.letters) :
    left.values < right.values ↔ left.index < right.index := by
  have size : left.values.length = right.values.length := by
    rw [values, values, List.length_map, List.length_map, ← List.length_map Prod.fst,
      ← List.length_map Prod.fst]
    exact congrArg List.length same
  have order := digits_lt_iff size 0 0
  rw [eq_self_iff_true, true_and, or_iff_right (Nat.lt_irrefl 0)] at order
  exact order.symm

end Valuation

/-- The rows of a table are the valuations of letters in the order of their indices, each with the value of
a sequence. -/
structure Table.Complete (table : Table) (letters : List Letter) (polish : Polish) : Prop where
  columns : table.letters = letters
  size : table.rows.length = 2 ^ letters.length
  rows : ∀ (place : Nat) (found : Row), table.rows[place]? = some found →
    found.valuation.letters = letters ∧ found.valuation.index = place ∧
      evaluate polish found.valuation = .ok found.value
  occurs : ∀ valuation : Valuation, valuation.letters = letters →
    ∃! place : Nat, ∃ found : Row, table.rows[place]? = some found ∧ found.valuation = valuation
  /-- The first letter changes slowest, from false to true. -/
  ordered : table.rows.Pairwise fun earlier later => earlier.valuation.values < later.valuation.values

namespace Table

variable {letters : List Letter} {polish : Polish} {table : Table}

theorem getElem?_rows_iff (generated : generate letters polish = .ok table) (place : Nat) (found : Row) :
    table.rows[place]? = some found ↔
      place < valuationCount letters ∧ row letters polish place = .ok found := by
  obtain ⟨_, _, listed⟩ := (generate_eq_ok_iff table).mp generated
  have here := congrArg (·[place]?) listed
  beta_reduce at here
  rw [List.getElem?_map, List.getElem?_map] at here
  constructor
  · intro present
    rw [present, Option.map_some] at here
    obtain ⟨index, ranged, made⟩ := Option.map_eq_some_iff.mp here
    obtain ⟨within, same⟩ := List.getElem?_eq_some_iff.mp ranged
    rw [List.getElem_range] at same
    rw [List.length_range] at within
    exact ⟨within, same ▸ made⟩
  · rintro ⟨within, made⟩
    rw [List.getElem?_range within, Option.map_some, made] at here
    obtain ⟨other, present, same⟩ := Option.map_eq_some_iff.mp here.symm
    rw [present, Except.ok.inj same]

theorem length_rows (generated : generate letters polish = .ok table) :
    table.rows.length = 2 ^ letters.length := by
  obtain ⟨_, _, listed⟩ := (generate_eq_ok_iff table).mp generated
  have count := congrArg List.length listed
  rw [List.length_map, List.length_map, List.length_range] at count
  exact count.symm

theorem complete_of_generate (generated : generate letters polish = .ok table)
    (sorted : Ascending.Sorted id letters) : Complete table letters polish := by
  obtain ⟨_, columns, _⟩ := (generate_eq_ok_iff table).mp generated
  have size := length_rows generated
  have rows : ∀ (place : Nat) (found : Row), table.rows[place]? = some found →
      found.valuation.letters = letters ∧ found.valuation.index = place ∧
        evaluate polish found.valuation = .ok found.value := by
    intro place found present
    obtain ⟨within, made⟩ := (getElem?_rows_iff generated place found).mp present
    obtain ⟨numbered, valued⟩ := (row_eq_ok_iff place found).mp made
    refine ⟨?_, ?_, valued⟩
    · rw [numbered, Valuation.letters_ofIndex letters place sorted]
    · rw [numbered, Valuation.index_ofIndex letters place sorted]
      exact Nat.mod_eq_of_lt within
  refine ⟨columns, size, rows, ?_, ?_⟩
  · rintro valuation rfl
    have within : valuation.index < table.rows.length := by
      rw [size]
      exact valuation.index_lt
    have present := List.getElem?_eq_getElem within
    obtain ⟨_, made⟩ := (getElem?_rows_iff generated _ _).mp present
    have numbered := ((row_eq_ok_iff _ _).mp made).1
    rw [Valuation.ofIndex_index] at numbered
    refine ⟨valuation.index, ⟨_, present, numbered⟩, ?_⟩
    rintro other ⟨found, elsewhere, rfl⟩
    exact (rows other found elsewhere).2.1.symm
  · rw [List.pairwise_iff_getElem]
    intro earlier later inside within before
    obtain ⟨ranged, first, _⟩ := rows earlier _ (List.getElem?_eq_getElem inside)
    obtain ⟨others, second, _⟩ := rows later _ (List.getElem?_eq_getElem within)
    rw [Valuation.values_lt_iff (ranged.trans others.symm), first, second]
    exact before

end Table

/-- A table over ascending letters has each of their valuations in one row, in the order of their indices
and with its value. So has the table of a formula that compiles, whatever the formula was asked before. -/
theorem tables_complete :
    (∀ (letters : List Letter) (polish : Polish) (table : Table), Ascending.Sorted id letters →
        Table.generate letters polish = .ok table → table.Complete letters polish) ∧
      ∀ (text : Text) (formula : Formula) (calls : List Question),
        Formula.ofText text = .ok formula →
          (∀ given, (Request.expansion (formula.after calls)).answer = .ok given →
            ∃ table, (Request.table (formula.after calls)).answer = .ok table) ∧
          ∀ table, (Request.table (formula.after calls)).answer = .ok table →
            ∃ polish, (Request.polish (formula.after calls)).answer = .ok polish ∧
              table.Complete formula.letters polish := by
  constructor
  · exact fun letters polish table sorted generated => Table.complete_of_generate generated sorted
  · intro text formula calls built
    obtain ⟨admissible, same⟩ := (Formula.ofText_eq_ok_iff text formula).mp built
    have fresh : formula = .reaching text 0 := same
    subst fresh
    rw [Request.meets_expansion.answer_after admissible, Request.meets_table.answer_after admissible,
      Request.meets_polish.answer_after admissible, Direct.expansion_eq_map, Direct.table_eq admissible]
    constructor
    · intro given compiled
      cases generated : Table.generate (Letter.roster text) text.polish with
      | error fault => rw [generated] at compiled; cases compiled
      | ok table => exact ⟨table, rfl⟩
    · exact fun table generated => ⟨text.polish, admissible.polish_eq,
        Table.complete_of_generate generated (Letter.roster_sorted text)⟩

/-- The letters `a` and `c` with the sequence `a!c*`, and the formula of the text `!ac`. -/
theorem tables_complete_of_negated_letter :
    (∃ table, Table.generate [.a, .c] [.atom .a, .neg, .atom .c, .conj] = .ok table ∧
        table.rows.length = 4 ∧
        ∃! place : Nat, ∃ found : Row, table.rows[place]? = some found ∧
          found.valuation = .ofPairs [(.c, true), (.a, false)]) ∧
      ∃ formula table, Formula.ofText ['!', 'a', 'c'] = .ok formula ∧
        (Request.table (formula.after [.evaluate .empty, .expansion])).answer = .ok table ∧
        table.rows.Pairwise fun earlier later =>
          earlier.valuation.values < later.valuation.values := by
  constructor
  · have sorted : Ascending.Sorted id [Letter.a, .c] := by
      unfold Ascending.Sorted
      decide
    cases generated : Table.generate [.a, .c] [.atom .a, .neg, .atom .c, .conj] with
    | error fault => cases generated
    | ok table =>
        have complete := tables_complete.1 _ _ table sorted generated
        exact ⟨table, rfl, complete.size, complete.occurs _ (by decide)⟩
  · cases built : Formula.ofText ['!', 'a', 'c'] with
    | error fault => cases built
    | ok formula =>
        obtain ⟨tabulates, completes⟩ :=
          tables_complete.2 _ formula [.evaluate .empty, .expansion] built
        cases compiled : (Request.expansion (formula.after [.evaluate .empty, .expansion])).answer with
        | error fault => cases built; cases compiled
        | ok given =>
            obtain ⟨table, tabulated⟩ := tabulates given compiled
            obtain ⟨_, _, complete⟩ := completes table tabulated
            exact ⟨formula, table, rfl, tabulated, complete.ordered⟩

end PrincipalForm
