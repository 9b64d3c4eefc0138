import PrincipalForm.Table

/-!
What a table ranges over. Valuations of the same letters are numbered without gap or repetition, the
index of a valuation being the number of its values, so the rows of a table are all the valuations of
its letters with what the sequence gives under them.
-/

namespace PrincipalForm

theorem Fault.bind_eq_ok_iff {First Value : Type} {first : Except Fault First}
    {next : First → Except Fault Value} {value : Value} :
    (first >>= next) = .ok value ↔ ∃ middle, first = .ok middle ∧ next middle = .ok value := by
  cases first with
  | error fault => simp [Bind.bind, Except.bind]
  | ok middle => simp [Bind.bind, Except.bind]

namespace Ascending

variable {Key Value : Type} [LT Key] [DecidableEq Key] [KeyOrder Key]

theorem lookup_reverse (entries : List (Key × Value)) (sorted : Sorted Prod.fst entries)
    (key : Key) : entries.reverse.lookup key = entries.lookup key := by
  induction entries with
  | nil => rfl
  | cons first rest ih =>
      have parts := List.pairwise_cons.mp sorted
      rw [List.reverse_cons, List.lookup_append, ih parts.2, lookup_cons, lookup_cons,
        List.lookup_nil]
      by_cases head : key = first.1
      · have fresh : rest.lookup key = none := by
          cases found : rest.lookup key with
          | none => rfl
          | some value =>
              have member := (lookup_eq_some_iff rest parts.2 key value).mp found
              exact absurd (parts.1 _ member) (head ▸ KeyOrder.irrefl key)
        rw [fresh, Option.none_or]
      · rw [if_neg head, if_neg head, Option.or_none]

end Ascending

namespace Valuation

theorem eq_of_entries {left right : Valuation} (same : left.entries = right.entries) :
    left = right := by
  cases left; cases right; cases same; rfl

theorem letters_sorted (valuation : Valuation) : Ascending.Sorted id valuation.letters :=
  List.pairwise_map.mpr valuation.sorted

theorem ofPairs_eq (pairs : List (Letter × Bool)) (sorted : Ascending.Sorted Prod.fst pairs) :
    ofPairs pairs = ⟨pairs, sorted⟩ := by
  apply eq_of_get?
  intro letter
  rw [get?_ofPairs, Ascending.lookup_reverse pairs sorted]
  rfl

theorem map_fst_bits (letters : List Letter) (index : Nat) :
    (bits letters index).map Prod.fst = letters := by
  induction letters with
  | nil => rfl
  | cons letter rest ih => rw [bits, List.map_cons, ih]

theorem bits_sorted (letters : List Letter) (index : Nat) (sorted : Ascending.Sorted id letters) :
    Ascending.Sorted Prod.fst (bits letters index) := by
  have keys : Ascending.Sorted id ((bits letters index).map Prod.fst) :=
    (map_fst_bits letters index).symm ▸ sorted
  exact List.pairwise_map.mp keys

theorem entries_ofIndex (letters : List Letter) (index : Nat)
    (sorted : Ascending.Sorted id letters) : (ofIndex letters index).entries = bits letters index :=
  congrArg entries (ofPairs_eq _ (bits_sorted letters index sorted))

theorem letters_ofIndex (letters : List Letter) (index : Nat)
    (sorted : Ascending.Sorted id letters) : (ofIndex letters index).letters = letters := by
  rw [Valuation.letters, entries_ofIndex letters index sorted, map_fst_bits]

/-- One more digit of a binary number that is read from its front. -/
def digit (number : Nat) (value : Bool) : Nat := 2 * number + value.toNat

theorem testBit_digit_succ (number place : Nat) (value : Bool) :
    (digit number value).testBit (place + 1) = number.testBit place := by
  have halved : digit number value / 2 = number := by
    cases value <;> simp only [digit, Bool.toNat_true, Bool.toNat_false] <;> omega
  rw [Nat.testBit_add_one, halved]

theorem testBit_digit_zero (number : Nat) (value : Bool) :
    (digit number value).testBit 0 = value := by
  rw [Nat.testBit_zero, digit]
  cases value <;> simp

theorem testBit_digits (values : List Bool) (number place : Nat) :
    (values.foldl digit number).testBit (values.length + place) = number.testBit place := by
  induction values generalizing number place with
  | nil => rw [List.length_nil, Nat.zero_add, List.foldl_nil]
  | cons value rest ih =>
      -- the digit that is read now moves the number one place to the left
      have moved : (value :: rest).length + place = rest.length + (place + 1) := by
        rw [List.length_cons]
        omega
      rw [moved, List.foldl_cons, ih, testBit_digit_succ]

theorem digits_lt (values : List Bool) (number : Nat) :
    values.foldl digit number < (number + 1) * Nat.pow 2 values.length := by
  induction values generalizing number with
  | nil => exact Nat.lt_of_lt_of_eq (Nat.lt_succ_self number) (Nat.mul_one _).symm
  | cons value rest ih =>
      have within : digit number value + 1 ≤ (number + 1) * 2 := by
        cases value <;> simp only [digit, Bool.toNat_true, Bool.toNat_false] <;> omega
      have grown : (number + 1) * 2 * Nat.pow 2 rest.length =
          (number + 1) * Nat.pow 2 (value :: rest).length := by
        rw [Nat.mul_assoc, Nat.mul_comm 2]
        rfl
      apply Nat.lt_of_lt_of_le (ih (digit number value))
      rw [← grown]
      exact Nat.mul_le_mul_right _ within

theorem bits_digits (entries : List (Letter × Bool)) (number : Nat) :
    bits (entries.map Prod.fst) ((entries.map Prod.snd).foldl digit number) = entries := by
  induction entries generalizing number with
  | nil => rfl
  | cons entry rest ih =>
      have here := testBit_digits (rest.map Prod.snd) (digit number entry.2) 0
      rw [testBit_digit_zero, Nat.add_zero, List.length_map] at here
      rw [List.map_cons, List.map_cons, List.foldl_cons, bits, ih, List.length_map, here]

theorem index_lt (valuation : Valuation) :
    valuation.index < Table.valuationCount valuation.letters := by
  have bound := digits_lt valuation.values 0
  rw [Nat.zero_add, Nat.one_mul, values, List.length_map] at bound
  rw [Table.valuationCount, letters, List.length_map]
  exact bound

theorem ofIndex_index (valuation : Valuation) :
    ofIndex valuation.letters valuation.index = valuation := by
  apply eq_of_entries
  rw [entries_ofIndex _ _ valuation.letters_sorted]
  exact bits_digits valuation.entries 0

end Valuation

namespace Table

variable {letters : List Letter} {polish : Polish}

theorem row_eq_ok_iff (index : Nat) (found : Row) :
    row letters polish index = .ok found ↔
      found.valuation = Valuation.ofIndex letters index ∧
        evaluate polish found.valuation = .ok found.value := by
  rw [row, Fault.bind_eq_ok_iff]
  constructor
  · rintro ⟨value, valued, same⟩
    cases same
    exact ⟨rfl, valued⟩
  · rintro ⟨numbered, valued⟩
    rw [← numbered]
    exact ⟨found.value, valued, rfl⟩

theorem rowsAt_eq_ok_iff (indices : List Nat) (rows : List Row) :
    rowsAt letters polish indices = .ok rows ↔
      indices.map (row letters polish) = rows.map Except.ok := by
  induction indices generalizing rows with
  | nil => cases rows <;> simp [rowsAt]
  | cons index rest ih =>
      rw [rowsAt, Fault.bind_eq_ok_iff, List.map_cons]
      constructor
      · rintro ⟨first, made, others⟩
        obtain ⟨later, listed, same⟩ := Fault.bind_eq_ok_iff.mp others
        cases same
        rw [made, (ih later).mp listed, List.map_cons]
      · intro same
        cases rows with
        | nil => cases same
        | cons first later =>
            obtain ⟨made, listed⟩ := List.cons.inj same
            exact ⟨first, made, Fault.bind_eq_ok_iff.mpr ⟨later, (ih later).mpr listed, rfl⟩⟩

theorem generate_eq_ok_iff (table : Table) :
    generate letters polish = .ok table ↔
      letters.length ≤ letterLimit ∧ table.letters = letters ∧
        (List.range (valuationCount letters)).map (row letters polish) =
          table.rows.map Except.ok := by
  rw [← rowsAt_eq_ok_iff, generate]
  by_cases many : letterLimit < letters.length
  · rw [if_pos many]
    simp [Nat.not_le.mpr many]
  · rw [if_neg many, Fault.bind_eq_ok_iff]
    constructor
    · rintro ⟨rows, made, same⟩
      cases same
      exact ⟨Nat.not_lt.mp many, rfl, made⟩
    · rintro ⟨_, rfl, made⟩
      exact ⟨table.rows, made, rfl⟩

theorem exists_rowsAt {indices : List Nat}
    (each : ∀ index ∈ indices, ∃ found, row letters polish index = .ok found) :
    ∃ rows, rowsAt letters polish indices = .ok rows := by
  induction indices with
  | nil => exact ⟨[], rfl⟩
  | cons index rest ih =>
      obtain ⟨first, made⟩ := each index List.mem_cons_self
      obtain ⟨later, others⟩ := ih fun other member => each other (List.mem_cons_of_mem index member)
      exact ⟨first :: later, by rw [rowsAt, made, others]; rfl⟩

theorem mem_rows_of_index {table : Table} (generated : generate letters polish = .ok table)
    (found : Row) :
    found ∈ table.rows ↔
      ∃ index < valuationCount letters, row letters polish index = .ok found := by
  obtain ⟨_, _, made⟩ := (generate_eq_ok_iff table).mp generated
  have listed : Except.ok found ∈ table.rows.map (Except.ok : Row → Except Fault Row) ↔
      found ∈ table.rows := by simp
  rw [← listed, ← made, List.mem_map]
  simp only [List.mem_range]

theorem mem_rows_iff {table : Table} (generated : generate letters polish = .ok table)
    (sorted : Ascending.Sorted id letters) (found : Row) :
    found ∈ table.rows ↔
      found.valuation.letters = letters ∧
        evaluate polish found.valuation = .ok found.value := by
  rw [mem_rows_of_index generated]
  constructor
  · rintro ⟨index, _, numbered⟩
    obtain ⟨same, valued⟩ := (row_eq_ok_iff index found).mp numbered
    exact ⟨same ▸ Valuation.letters_ofIndex letters index sorted, valued⟩
  · rintro ⟨rfl, valued⟩
    have numbered := (Valuation.ofIndex_index found.valuation).symm
    exact ⟨_, found.valuation.index_lt, (row_eq_ok_iff _ found).mpr ⟨numbered, valued⟩⟩

theorem exists_generate_iff (sorted : Ascending.Sorted id letters) :
    (∃ table, generate letters polish = .ok table) ↔
      letters.length ≤ letterLimit ∧
        ∀ valuation : Valuation, valuation.letters = letters →
          ∃ value, evaluate polish valuation = .ok value := by
  constructor
  · rintro ⟨table, generated⟩
    obtain ⟨within, _, made⟩ := (generate_eq_ok_iff table).mp generated
    refine ⟨within, ?_⟩
    rintro valuation rfl
    have numbered : row valuation.letters polish valuation.index ∈ table.rows.map Except.ok := by
      rw [← made]
      exact List.mem_map_of_mem (List.mem_range.mpr valuation.index_lt)
    obtain ⟨found, _, same⟩ := List.mem_map.mp numbered
    obtain ⟨restored, valued⟩ := (row_eq_ok_iff _ found).mp same.symm
    rw [Valuation.ofIndex_index] at restored
    exact ⟨found.value, restored ▸ valued⟩
  · rintro ⟨within, valued⟩
    have each : ∀ index ∈ List.range (valuationCount letters),
        ∃ found, row letters polish index = .ok found := by
      intro index _
      obtain ⟨value, known⟩ := valued _ (Valuation.letters_ofIndex letters index sorted)
      exact ⟨⟨_, value⟩, (row_eq_ok_iff index _).mpr ⟨rfl, known⟩⟩
    obtain ⟨rows, made⟩ := exists_rowsAt each
    have listed := (rowsAt_eq_ok_iff _ rows).mp made
    exact ⟨⟨letters, rows⟩, (generate_eq_ok_iff _).mpr ⟨within, rfl, listed⟩⟩

end Table

end PrincipalForm
