import PrincipalForm.Proofs.Tabulation

/-!
Tables over letters in any order, with repetitions. A letter that occurs again later in the list is without
influence, so its column doubles the rows, and another order of the columns permutes them. The valuations
that a list numbers are therefore those of its distinct letters, each as often as any other, and the
expansion does not show how often.
-/

namespace PrincipalForm

namespace Valuation

/-- The valuations that the indices of letters stand for, in order. -/
def numbered (letters : List Letter) : List Valuation :=
  (List.range (Table.valuationCount letters)).map (ofIndex letters)

def supply (letter : Letter) (value : Bool) (valuation : Valuation) : Valuation :=
  if (valuation.get? letter).isSome then valuation else valuation.set letter value

theorem get?_supply (letter other : Letter) (value : Bool) (valuation : Valuation) :
    (supply letter value valuation).get? other =
      (valuation.get? other).or (if other = letter then some value else none) := by
  unfold supply
  by_cases same : other = letter
  · subst same
    cases present : valuation.get? other with
    | some found => simp [present]
    | none => simp [get?_set]
  · cases present : valuation.get? letter <;> simp [same, get?_set]

theorem supply_of_mem {letter : Letter} {valuation : Valuation} (value : Bool)
    (present : letter ∈ valuation.letters) : supply letter value valuation = valuation :=
  if_pos ((mem_letters_iff valuation letter).mp present)

theorem supply_comm {first second : Letter} (different : first ≠ second) (value other : Bool)
    (valuation : Valuation) :
    supply first value (supply second other valuation) =
      supply second other (supply first value valuation) := by
  apply eq_of_get?
  intro letter
  simp only [get?_supply]
  by_cases same : letter = first
  · subst same
    simp [different]
  · simp [same]

/-- The letters further back in a list have decided before the first one does. -/
theorem ofIndex_cons (letter : Letter) (rest : List Letter) (index : Nat) :
    ofIndex (letter :: rest) index =
      supply letter (index.testBit rest.length) (ofIndex rest index) := by
  apply eq_of_get?
  intro other
  rw [get?_supply, ofIndex, ofIndex, get?_ofPairs, get?_ofPairs, bits, List.reverse_cons,
    List.lookup_append, Ascending.lookup_cons other _ [], List.lookup_nil]

theorem bits_two_pow_add (letters : List Letter) {place : Nat} (within : letters.length ≤ place)
    (index : Nat) : bits letters (2 ^ place + index) = bits letters index := by
  induction letters with
  | nil => rfl
  | cons letter rest ih =>
      have below : rest.length < place := within
      rw [bits, bits, Nat.testBit_two_pow_add_gt below, ih (Nat.le_of_lt below)]

/-- A letter more numbers the valuations of the others twice, first with the letter false. -/
theorem numbered_cons (letter : Letter) (rest : List Letter) :
    numbered (letter :: rest) =
      (numbered rest).map (supply letter false) ++ (numbered rest).map (supply letter true) := by
  have doubled : Table.valuationCount (letter :: rest) = 2 ^ rest.length + 2 ^ rest.length := by
    rw [← Nat.two_mul, ← Nat.pow_succ']
    rfl
  have count : Table.valuationCount rest = 2 ^ rest.length := rfl
  rw [numbered, numbered, doubled, count, List.range_add, List.map_append, List.map_map, List.map_map,
    List.map_map]
  congr 1
  · apply List.map_congr_left
    intro index member
    rw [ofIndex_cons, Nat.testBit_lt_two_pow (List.mem_range.mp member), Function.comp_apply]
  · apply List.map_congr_left
    intro index member
    have low := Nat.testBit_lt_two_pow (List.mem_range.mp member)
    rw [Function.comp_apply, ofIndex_cons, Nat.testBit_two_pow_add_eq, low, Bool.not_false, ofIndex,
      bits_two_pow_add rest (Nat.le_refl _), Function.comp_apply, ofIndex]

theorem numbered_perm {letters others : List Letter} (order : letters.Perm others) :
    (numbered letters).Perm (numbered others) := by
  induction order with
  | nil => exact .refl _
  | cons letter order ih =>
      rw [numbered_cons, numbered_cons]
      exact (ih.map _).append (ih.map _)
  | swap first second rest =>
      by_cases same : first = second
      · rw [same]
      · have commute : ∀ value other, supply first value ∘ supply second other =
            supply second other ∘ supply first value := fun value other =>
          funext fun valuation => supply_comm same value other valuation
        simp only [numbered_cons, List.map_append, List.map_map, commute, List.append_assoc]
        exact (List.perm_append_comm_assoc _ _ _).append_left _
  | trans first second ihFirst ihSecond => exact ihFirst.trans ihSecond

/-- A letter that occurs again doubles the valuations and changes none. -/
theorem numbered_cons_of_mem {letter : Letter} {rest : List Letter} (again : letter ∈ rest) :
    numbered (letter :: rest) = numbered rest ++ numbered rest := by
  have kept : ∀ value, (numbered rest).map (supply letter value) = numbered rest := by
    intro value
    refine (List.map_congr_left fun valuation member => ?_).trans (List.map_id _)
    obtain ⟨index, _, rfl⟩ := List.mem_map.mp member
    exact supply_of_mem value ((mem_letters_ofIndex rest index letter).mpr again)
  rw [numbered_cons, kept, kept]

theorem countP_numbered (letters : List Letter) (counted : Valuation → Bool) :
    (numbered letters).countP counted =
      2 ^ (letters.length - letters.dedup.length) * (numbered letters.dedup).countP counted := by
  induction letters generalizing counted with
  | nil => simp
  | cons letter rest ih =>
      by_cases again : letter ∈ rest
      · have size : rest.dedup.length ≤ rest.length := (List.dedup_sublist rest).length_le
        rw [List.dedup_cons_of_mem again, numbered_cons_of_mem again, List.countP_append, ih,
          List.length_cons, Nat.succ_sub size, Nat.pow_succ]
        ring
      · rw [List.dedup_cons_of_notMem again, numbered_cons, numbered_cons, List.countP_append,
          List.countP_append, List.countP_map, List.countP_map, List.countP_map, List.countP_map,
          ih, ih, List.length_cons, List.length_cons, Nat.add_sub_add_right, Nat.mul_add]

variable {letters ordered : List Letter}

theorem countP_numbered_ordered (distinct : ordered.Nodup)
    (same : ∀ letter, letter ∈ ordered ↔ letter ∈ letters) (counted : Valuation → Bool) :
    (numbered letters).countP counted =
      2 ^ (letters.length - ordered.length) * (numbered ordered).countP counted := by
  have order : letters.dedup.Perm ordered := by
    apply (List.perm_ext_iff_of_nodup (List.nodup_dedup letters) distinct).mpr
    intro letter
    rw [List.mem_dedup, same]
  rw [countP_numbered, order.length_eq, (numbered_perm order).countP_eq]

theorem mem_numbered_iff (distinct : ordered.Nodup)
    (same : ∀ letter, letter ∈ ordered ↔ letter ∈ letters) (valuation : Valuation) :
    valuation ∈ numbered letters ↔ valuation ∈ numbered ordered := by
  have copies : 0 < 2 ^ (letters.length - ordered.length) := Nat.two_pow_pos _
  rw [← List.count_pos_iff, ← List.count_pos_iff, List.count_eq_countP,
    countP_numbered_ordered distinct same, ← List.count_eq_countP,
    Nat.mul_pos_iff_of_pos_left copies]

end Valuation

namespace Table

variable {letters : List Letter} {polish : Polish} {table : Table}

theorem valuations_rows (generated : generate letters polish = .ok table) :
    table.rows.map Row.valuation = Valuation.numbered letters := by
  obtain ⟨_, _, listed⟩ := (generate_eq_ok_iff table).mp generated
  exact valuations_rowsAt ((rowsAt_eq_ok_iff _ _).mpr listed)

theorem value_of_mem (generated : generate letters polish = .ok table) {found : Row}
    (member : found ∈ table.rows) : evaluate polish found.valuation = .ok found.value := by
  obtain ⟨index, _, made⟩ := (mem_rows_of_index generated found).mp member
  exact ((row_eq_ok_iff index found).mp made).2

theorem length_trueRows (generated : generate letters polish = .ok table) :
    table.trueRows.length =
      (Valuation.numbered letters).countP fun valuation => evaluate polish valuation = .ok true := by
  rw [← valuations_rows generated, List.countP_map, trueRows, ← List.countP_eq_length_filter]
  apply List.countP_congr
  intro found member
  rw [Function.comp_apply, value_of_mem generated member, decide_eq_true_eq, Except.ok.injEq]

end Table

namespace Expansion

theorem mem_ofTable_iff_numbered {letters : List Letter} {polish : Polish} {table : Table}
    (generated : Table.generate letters polish = .ok table) (minterm : Minterm) :
    minterm ∈ ofTable table ↔ ∃ valuation ∈ Valuation.numbered letters,
      evaluate polish valuation = .ok true ∧ Minterm.ofValuation valuation = minterm := by
  rw [ofTable, mem_ofList_iff, ← Table.valuations_rows generated]
  simp only [List.mem_map, Table.trueRows, List.mem_filter]
  constructor
  · rintro ⟨row, ⟨member, holds⟩, same⟩
    have valued := Table.value_of_mem generated member
    exact ⟨row.valuation, ⟨row, member, rfl⟩, holds ▸ valued, same⟩
  · rintro ⟨_, ⟨row, member, rfl⟩, holds, same⟩
    have valued := Table.value_of_mem generated member
    exact ⟨row, ⟨member, Except.ok.inj (valued.symm.trans holds)⟩, same⟩

end Expansion

theorem Fault.Alike.error_iff {First Second : Type} {related : First → Second → Prop}
    {first : Except Fault First} {second : Except Fault Second} (alike : Alike related first second)
    (fault : Fault) : first = .error fault ↔ second = .error fault := by
  cases first <;> cases second <;> simp_all [Alike]

namespace Letter

def ordered (letters : List Letter) : List Letter := roster (write letters)

variable (letters : List Letter)

theorem ordered_sorted : Ascending.Sorted id (ordered letters) := roster_sorted _

theorem nodup_ordered : (ordered letters).Nodup := nodup_roster _

theorem mem_ordered_iff (letter : Letter) : letter ∈ ordered letters ↔ letter ∈ letters := by
  have injective : Function.Injective name := fun _ _ => eq_of_name
  rw [ordered, mem_roster_iff, mem_filterMap_ofChar?_iff, write,
    List.mem_map_of_injective injective]

theorem length_ordered : (ordered letters).length = letters.toFinset.card := by
  apply length_roster
  intro letter
  rw [List.mem_toFinset]
  exact mem_ordered_iff letters letter

theorem length_ordered_le : (ordered letters).length ≤ letters.length :=
  length_ordered letters ▸ letters.toFinset_card_le

end Letter

theorem Table.generate_ordered_eq_error_iff {letters : List Letter} (few : letters.length ≤ letterLimit)
    (polish : Polish) (fault : Fault) :
    generate letters polish = .error fault ↔
      generate (Letter.ordered letters) polish = .error fault := by
  have fewer := Nat.le_trans (Letter.length_ordered_le letters) few
  have same : (Valuation.ofIndex letters 0).letters =
      (Valuation.ofIndex (Letter.ordered letters) 0).letters := by
    apply Ascending.eq_of_mem_iff (Valuation.letters_sorted _) (Valuation.letters_sorted _)
    intro letter
    rw [Valuation.mem_letters_ofIndex, Valuation.mem_letters_ofIndex, Letter.mem_ordered_iff]
  rw [generate_eq_error_iff few, generate_eq_error_iff fewer]
  exact (Evaluation.evaluate_alike same polish).error_iff fault

/-- The table over any few letters fails exactly if the one over the same letters in order, each once, does,
and with the same fault. Otherwise it has a row for each index, its true rows are those of the table in
order with each repetition of a letter doubling them, and the expansions of the two are the same. -/
theorem expansion_of_rearranged {letters : List Letter} (few : letters.length ≤ 10)
    (polish : Polish) :
    -- the letters in order
    Ascending.Sorted id (Letter.ordered letters) ∧
      (∀ letter, letter ∈ Letter.ordered letters ↔ letter ∈ letters) ∧
      -- the same fault for both
      (∀ fault, Table.generate letters polish = .error fault ↔
        Table.generate (Letter.ordered letters) polish = .error fault) ∧
      ∀ table, Table.generate letters polish = .ok table →
        ∃ ordered, Table.generate (Letter.ordered letters) polish = .ok ordered ∧
          Expansion.ofTable table = Expansion.ofTable ordered ∧ table.size = 2 ^ letters.length ∧
          table.trueRows.length =
            2 ^ (letters.length - letters.toFinset.card) * ordered.trueRows.length := by
  have fails := Table.generate_ordered_eq_error_iff few polish
  have same := Letter.mem_ordered_iff letters
  refine ⟨Letter.ordered_sorted letters, same, fails, fun table generated => ?_⟩
  cases others : Table.generate (Letter.ordered letters) polish with
  | error fault => cases generated.symm.trans ((fails fault).mpr others)
  | ok ordered =>
      have distinct := Letter.nodup_ordered letters
      refine ⟨ordered, rfl, ?_, Table.length_rows generated, ?_⟩
      · apply Expansion.eq_of_mem_iff
        intro minterm
        rw [Expansion.mem_ofTable_iff_numbered generated, Expansion.mem_ofTable_iff_numbered others]
        simp only [Valuation.mem_numbered_iff distinct same]
      · rw [Table.length_trueRows generated, Table.length_trueRows others,
          ← Letter.length_ordered letters]
        exact Valuation.countP_numbered_ordered distinct same _

/-- The sequence `ac!+` over the letters `c`, `a` and once more `c` has three true valuations, each in two
rows. A sequence that asks for another letter is refused over them as over `a` and `c`. -/
theorem expansion_of_repeated_column :
    (∃ table ordered, Table.generate [.c, .a, .c] [.atom .a, .atom .c, .neg, .disj] = .ok table ∧
        Table.generate [.a, .c] [.atom .a, .atom .c, .neg, .disj] = .ok ordered ∧
        Expansion.ofTable table = Expansion.ofTable ordered ∧ table.size = 8 ∧
        table.trueRows.length = 2 * ordered.trueRows.length) ∧
      Table.generate [.c, .a, .c] [.atom .b, .neg] = .error (.unassigned .b) := by
  have few : [Letter.c, .a, .c].length ≤ 10 := by decide
  have inOrder : Letter.ordered [.c, .a, .c] = [.a, .c] := by decide
  constructor
  · obtain ⟨_, _, _, same⟩ := expansion_of_rearranged few [.atom .a, .atom .c, .neg, .disj]
    cases generated : Table.generate [.c, .a, .c] [.atom .a, .atom .c, .neg, .disj] with
    | error fault => cases generated
    | ok table =>
        obtain ⟨ordered, others, expansions, size, copies⟩ := same table generated
        exact ⟨table, ordered, rfl, inOrder ▸ others, expansions, size, copies⟩
  · obtain ⟨_, _, fails, _⟩ := expansion_of_rearranged few [.atom .b, .neg]
    apply (fails _).mpr
    rw [inOrder]
    rfl

end PrincipalForm
