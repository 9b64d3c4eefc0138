import PrincipalForm.Journal
import PrincipalForm.Proofs.Enumeration

/-!
Faults do not depend on truth values. Two evaluations of a sequence under valuations of the same letters
go alike: step by step their stacks have the same height, so either both have a value or both end in the
same fault. The rows of a table are such evaluations, and a table that fails does so at its first row,
before anything is entered in the journal.
-/

namespace PrincipalForm

/-- Two computations end in the same fault, or in values that are related. -/
def Fault.Alike {First Second : Type} (related : First → Second → Prop) :
    Except Fault First → Except Fault Second → Prop
  | .ok first, .ok second => related first second
  | .error first, .error second => first = second
  | _, _ => False

theorem Fault.Alike.bind {First Second Third Fourth : Type} {related : First → Second → Prop}
    {later : Third → Fourth → Prop} {first : Except Fault First} {second : Except Fault Second}
    {next : First → Except Fault Third} {other : Second → Except Fault Fourth}
    (alike : Alike related first second)
    (follows : ∀ left right, related left right → Alike later (next left) (other right)) :
    Alike later (first >>= next) (second >>= other) := by
  cases first with
  | error fault =>
      cases second with
      | error _ => exact alike
      | ok right => exact alike.elim
  | ok left =>
      cases second with
      | error _ => exact alike.elim
      | ok right => exact follows left right alike

namespace Evaluation

inductive SameHeight : List Bool → List Bool → Prop where
  | bottom : SameHeight [] []
  | above (value other : Bool) {left right : List Bool} (below : SameHeight left right) :
      SameHeight (value :: left) (other :: right)

variable {first second : Valuation} {left right : List Bool}

theorem SameHeight.length (heights : SameHeight left right) : left.length = right.length := by
  induction heights with
  | bottom => rfl
  | above value other below ih => rw [List.length_cons, List.length_cons, ih]

theorem step_alike (same : first.letters = second.letters) (heights : SameHeight left right)
    (token : Token) :
    Fault.Alike SameHeight (step first left token) (step second right token) := by
  cases token with
  | atom letter =>
      have known : (first.get? letter).isSome = (second.get? letter).isSome := by
        rw [Bool.eq_iff_iff, ← first.mem_letters_iff, ← second.mem_letters_iff, same]
      cases here : first.get? letter with
      | none =>
          have there : second.get? letter = none := by simpa [here] using known.symm
          simp only [step, here, there]
          rfl
      | some value =>
          obtain ⟨other, there⟩ : ∃ other, second.get? letter = some other := by
            rw [← Option.isSome_iff_exists, ← known, here]
            rfl
          simp only [step, here, there]
          exact .above value other heights
  | neg =>
      cases heights with
      | bottom => rfl
      | above value other below => exact .above (!value) (!other) below
  | conj | disj =>
      rcases heights with _ | ⟨_, _, _ | ⟨_, _, below⟩⟩
      · rfl
      · rfl
      · exact .above _ _ below
  | opening | closing =>
      rcases heights with _ | ⟨_, _, _ | ⟨_, _, below⟩⟩
      · rfl
      · rfl
      · rfl

theorem run_alike (same : first.letters = second.letters) (heights : SameHeight left right)
    (polish : Polish) :
    Fault.Alike SameHeight (run first left polish) (run second right polish) := by
  induction polish generalizing left right with
  | nil => exact heights
  | cons token rest ih => exact (step_alike same heights token).bind fun _ _ next => ih next

theorem outcome_alike (heights : SameHeight left right) :
    Fault.Alike (fun _ _ => True) (outcome left) (outcome right) := by
  rcases heights with _ | ⟨_, _, _ | ⟨value, other, below⟩⟩
  · rfl
  · exact trivial
  · simp only [outcome, List.length_cons, below.length]
    rfl

theorem evaluate_alike (same : first.letters = second.letters) (polish : Polish) :
    Fault.Alike (fun _ _ => True) (evaluate polish first) (evaluate polish second) :=
  (run_alike same .bottom polish).bind fun _ _ heights => outcome_alike heights

end Evaluation

namespace Valuation

theorem mem_letters_ofIndex (letters : List Letter) (index : Nat) (letter : Letter) :
    letter ∈ (ofIndex letters index).letters ↔ letter ∈ letters := by
  rw [mem_letters_iff, ofIndex, get?_ofPairs, List.lookup_isSome_iff]
  constructor
  · rintro ⟨pair, member, same⟩
    rw [beq_iff_eq.mp same, ← map_fst_bits letters index]
    exact List.mem_map_of_mem (List.mem_reverse.mp member)
  · intro listed
    rw [← map_fst_bits letters index] at listed
    obtain ⟨pair, member, rfl⟩ := List.mem_map.mp listed
    exact ⟨pair, List.mem_reverse.mpr member, beq_self_eq_true _⟩

theorem letters_ofIndex_eq (letters : List Letter) (index other : Nat) :
    (ofIndex letters index).letters = (ofIndex letters other).letters := by
  apply Ascending.eq_of_mem_iff (letters_sorted _) (letters_sorted _)
  intro letter
  rw [mem_letters_ofIndex, mem_letters_ofIndex]

end Valuation

namespace Table

variable {letters : List Letter} {polish : Polish}

/-- The first row of a table exists, so it is the first to fault. -/
theorem range_valuationCount (letters : List Letter) :
    ∃ rest, List.range (valuationCount letters) = 0 :: rest := by
  obtain ⟨last, count⟩ := Nat.exists_eq_add_one_of_ne_zero
    (Nat.ne_of_gt (Nat.pow_pos (n := letters.length) Nat.two_pos))
  exact ⟨_, (congrArg List.range count).trans (List.range_succ_eq_map)⟩

theorem exists_row {value : Bool} (index : Nat)
    (valued : evaluate polish (Valuation.ofIndex letters 0) = .ok value) :
    ∃ found, row letters polish index = .ok found := by
  have alike := Evaluation.evaluate_alike (Valuation.letters_ofIndex_eq letters 0 index) polish
  rw [valued] at alike
  cases evaluated : evaluate polish (Valuation.ofIndex letters index) with
  | error fault => rw [evaluated] at alike; exact alike.elim
  | ok other => exact ⟨⟨_, other⟩, (row_eq_ok_iff index _).mpr ⟨rfl, evaluated⟩⟩

theorem generate_eq_error_iff (few : letters.length ≤ letterLimit) (fault : Fault) :
    generate letters polish = .error fault ↔
      evaluate polish (Valuation.ofIndex letters 0) = .error fault := by
  obtain ⟨rest, indices⟩ := range_valuationCount letters
  have opened : generate letters polish =
      (rowsAt letters polish (0 :: rest) >>= fun rows => .ok ⟨letters, rows⟩) := by
    rw [generate, if_neg (Nat.not_lt.mpr few), indices]
  cases valued : evaluate polish (Valuation.ofIndex letters 0) with
  | error first =>
      have failed : generate letters polish = .error first := by
        rw [opened, rowsAt, row, valued]
        rfl
      rw [failed, Except.error.injEq, Except.error.injEq]
  | ok value =>
      have each : ∀ index ∈ 0 :: rest, ∃ found, row letters polish index = .ok found :=
        fun index _ => exists_row index valued
      obtain ⟨rows, made⟩ := exists_rowsAt each
      rw [opened, made]
      exact iff_of_false (fun failed => by cases failed) (fun failed => by cases failed)

end Table

namespace Recorded

variable {Value Next : Type} {letters : List Letter} {polish : Polish}

theorem bind_entries {first : Recorded Value} {value : Value} (next : Value → Recorded Next)
    (answered : first.answer = .ok value) :
    (first >>= next).entries = first.entries ++ (next value).entries := by
  simp only [Bind.bind, Recorded.bind, answered]

theorem bind_entries_of_fault {first : Recorded Value} {fault : Fault}
    (next : Value → Recorded Next) (failed : first.answer = .error fault) :
    (first >>= next).entries = first.entries := by
  simp only [Bind.bind, Recorded.bind, failed]

theorem value_answer (polish : Polish) (valuation : Valuation) :
    (Recorded.value polish valuation).answer = evaluate polish valuation :=
  noting_answer _ _

theorem value_entries (polish : Polish) (valuation : Valuation) :
    (Recorded.value polish valuation).entries =
      match evaluate polish valuation with
      | .error _ => []
      | .ok value => [.evaluated polish valuation value] := by
  rw [Recorded.value]
  cases evaluate polish valuation <;> rfl

theorem rowsAt_entries {indices : List Nat} {rows : List Row}
    (made : Table.rowsAt letters polish indices = .ok rows) :
    (rowsAt letters polish indices).entries =
      rows.map fun row => .evaluated polish row.valuation row.value := by
  induction indices generalizing rows with
  | nil => cases made; rfl
  | cons index rest ih =>
      obtain ⟨⟨valuation, value⟩, here, others⟩ := Fault.bind_eq_ok_iff.mp made
      obtain ⟨later, listed, same⟩ := Fault.bind_eq_ok_iff.mp others
      obtain ⟨rfl, valued⟩ := (Table.row_eq_ok_iff index _).mp here
      cases same
      have answered := (rowsAt_answer letters polish rest).trans listed
      rw [rowsAt, bind_entries _ ((value_answer _ _).trans valued), bind_entries _ answered,
        value_entries, valued, ih listed]
      exact congrArg (_ :: ·) (List.append_nil _)

theorem rowsAt_entries_of_fault {index : Nat} {fault : Fault} (rest : List Nat)
    (failed : evaluate polish (Valuation.ofIndex letters index) = .error fault) :
    (rowsAt letters polish (index :: rest)).entries = [] := by
  rw [rowsAt, bind_entries_of_fault _ ((value_answer _ _).trans failed),
    value_entries, failed]

theorem table_entries_of_fault {fault : Fault} (failed : Table.generate letters polish = .error fault) :
    (table letters polish).entries = [] := by
  by_cases few : letters.length ≤ letterLimit
  · have first := (Table.generate_eq_error_iff few fault).mp failed
    obtain ⟨rest, indices⟩ := Table.range_valuationCount letters
    have stopped : (rowsAt letters polish (0 :: rest)).answer = .error fault := by
      rw [rowsAt_answer, Table.rowsAt, Table.row, first]
      rfl
    rw [table, if_neg (Nat.not_lt.mpr few), indices, bind_entries_of_fault _ stopped,
      rowsAt_entries_of_fault rest first]
  · rw [table, if_pos (Nat.not_le.mp few)]

theorem table_entries_of_rows {built : Table} (generated : Table.generate letters polish = .ok built) :
    (table letters polish).entries =
      (built.rows.map fun row => .evaluated polish row.valuation row.value) ++
        [.tabulated polish built.size built.trueRows.length] := by
  obtain ⟨few, rfl, listed⟩ := (Table.generate_eq_ok_iff built).mp generated
  have made := (Table.rowsAt_eq_ok_iff _ _).mpr listed
  rw [table, if_neg (Nat.not_lt.mpr few), bind_entries _ ((rowsAt_answer _ _ _).trans made),
    rowsAt_entries made]
  rfl

end Recorded

/-- Two evaluations of a sequence under valuations of the same letters both have a value or have the same
fault. Hence a table of any few letters has the fault of its first row, and then nothing is entered for
it; otherwise each row is entered, and the table after its rows. -/
theorem faults_uniform :
    (∀ (polish : Polish) (first second : Valuation), first.letters = second.letters →
        (∃ value other, evaluate polish first = .ok value ∧ evaluate polish second = .ok other) ∨
          ∃ fault, evaluate polish first = .error fault ∧ evaluate polish second = .error fault) ∧
      ∀ (letters : List Letter) (polish : Polish), letters.length ≤ 10 →
        (Recorded.table letters polish).answer = Table.generate letters polish ∧
        (∀ fault, Table.generate letters polish = .error fault ↔
          evaluate polish (Valuation.ofIndex letters 0) = .error fault) ∧
        (∀ fault, Table.generate letters polish = .error fault →
          (Recorded.table letters polish).entries = []) ∧
        ∀ table, Table.generate letters polish = .ok table →
          (Recorded.table letters polish).entries =
              (table.rows.map fun row => .evaluated polish row.valuation row.value) ++
                [.tabulated polish table.size table.trueRows.length] ∧
            (Recorded.table letters polish).entries.map Entry.level =
              List.replicate table.size .trace ++ [.debug] := by
  constructor
  · intro polish first second same
    have alike := Evaluation.evaluate_alike same polish
    cases here : evaluate polish first with
    | error fault =>
        cases there : evaluate polish second with
        | error other =>
            rw [here, there] at alike
            exact Or.inr ⟨fault, rfl, congrArg Except.error alike.symm⟩
        | ok other => rw [here, there] at alike; exact alike.elim
    | ok value =>
        cases there : evaluate polish second with
        | error other => rw [here, there] at alike; exact alike.elim
        | ok other => exact Or.inl ⟨value, other, rfl, rfl⟩
  · intro letters polish few
    refine ⟨Recorded.table_answer letters polish, Table.generate_eq_error_iff few,
      fun fault failed => Recorded.table_entries_of_fault failed, fun table generated => ?_⟩
    have entries := Recorded.table_entries_of_rows generated
    refine ⟨entries, ?_⟩
    rw [entries, List.map_append, List.map_map]
    exact congrArg (· ++ [Level.debug]) (List.map_const' ..)

/-- Over letters of which one is repeated, a sequence that asks for another letter has no row, and one that
does not has a row for each index. -/
theorem faults_uniform_of_repeated_letter :
    (∃ fault, evaluate [.atom .a, .atom .b, .disj, .conj] (.ofPairs [(.a, true), (.b, false)]) =
        .error fault ∧
      evaluate [.atom .a, .atom .b, .disj, .conj] (.ofPairs [(.b, true), (.a, true)]) = .error fault) ∧
      Table.generate [.b, .a, .b] [.atom .a, .atom .c, .conj] = .error (.unassigned .c) ∧
      (Recorded.table [.b, .a, .b] [.atom .a, .atom .c, .conj]).entries = [] ∧
      ∃ table, Table.generate [.b, .a, .b] [.atom .a, .atom .b, .conj] = .ok table ∧
        (Recorded.table [.b, .a, .b] [.atom .a, .atom .b, .conj]).entries.map Entry.level =
          List.replicate 8 .trace ++ [.debug] := by
  have few : [Letter.b, .a, .b].length ≤ 10 := by decide
  refine ⟨?_, ?_⟩
  · have same : (Valuation.ofPairs [(.a, true), (.b, false)]).letters =
        (Valuation.ofPairs [(.b, true), (.a, true)]).letters := by decide
    rcases faults_uniform.1 [.atom .a, .atom .b, .disj, .conj] _ _ same with
      ⟨value, other, valued, _⟩ | failed
    · cases valued
    · exact failed
  · obtain ⟨_, first, silent, _⟩ := faults_uniform.2 [.b, .a, .b] [.atom .a, .atom .c, .conj] few
    have failed := (first (.unassigned .c)).mpr rfl
    refine ⟨failed, silent _ failed, ?_⟩
    obtain ⟨_, fails, _, entered⟩ := faults_uniform.2 [.b, .a, .b] [.atom .a, .atom .b, .conj] few
    cases generated : Table.generate [.b, .a, .b] [.atom .a, .atom .b, .conj] with
    | error fault => cases (fails fault).mp generated
    | ok table =>
        refine ⟨table, rfl, ?_⟩
        rw [(entered table generated).2]
        cases generated
        rfl

end PrincipalForm
