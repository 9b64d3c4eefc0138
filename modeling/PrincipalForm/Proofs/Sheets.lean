import PrincipalForm.Proofs.Batches
import PrincipalForm.Proofs.Compilation

namespace PrincipalForm

theorem normalize_of_refused {text : Text} {fault : Fault}
    (refused : Formula.ofText text = .error fault) : normalize text = .error fault := by
  rw [Formula.ofText] at refused
  rw [normalize]
  cases checked : Alphabet.check text with
  | error offence =>
      rw [checked] at refused
      cases refused
      rfl
  | ok _ =>
      -- a legal text is refused for having spaces only, and then has no token
      have legal := (Alphabet.check_eq_ok_iff text).mp checked
      rw [checked] at refused
      cases empty : text.all (· = ' ') with
      | false => rw [empty] at refused; cases refused
      | true =>
          rw [empty] at refused
          cases refused
          rw [(Token.read_eq_nil_iff text legal).mpr empty]
          rfl

/-- What is asked for besides the expansion, as it is written before it. -/
def Options.heading (options : Options) (sequence : Polish) (table : Table) : Text :=
  (if options.polish then Token.write sequence ++ ['\n'] else []) ++
    match options.layout? with
    | some layout => layout.render table
    | none => []

namespace Batch

variable {options : Options}

theorem meets_polishLine :
    Request.Meets (fun _ => True) (polishLine options)
      (fun text => if options.polish then do
          let sequence ← Direct.polish text
          .ok (Token.write sequence ++ ['\n'])
        else .ok [])
      (fun _ => True) := by
  rw [polishLine]
  cases options.polish with
  | true => exact Request.meets_weaken (Request.meets_map Request.meets_polish _)
  | false => exact Request.meets_pure []

theorem meets_tableLines :
    Request.Meets (fun _ => True) (tableLines options)
      (fun text => match options.layout? with
        | some layout => do
            let table ← Direct.table text
            .ok (layout.render table)
        | none => .ok [])
      (fun _ => True) := by
  rw [tableLines]
  cases options.layout? with
  | some layout => exact Request.meets_weaken (Request.meets_map Request.meets_table _)
  | none => exact Request.meets_pure []

theorem meets_expansionLine :
    Request.Meets (fun _ => True) expansionLine
      (fun text => do
        let minterms ← Direct.expansion text
        .ok (minterms.write ++ ['\n']))
      (fun _ => True) :=
  Request.meets_weaken (Request.meets_map Request.meets_expansion _)

/-- A sheet fails exactly if there is no table: no earlier stage fails alone, and no later one at all. -/
theorem meets_sheet (options : Options) :
    Request.Meets (fun _ => True) (sheet options)
      (fun text => do
        let table ← Direct.table text
        .ok (options.heading text.polish table ++ ((Expansion.ofTable table).write ++ ['\n'])))
      (fun _ => True) := by
  refine Request.meets_congr (Request.meets_bind meets_polishLine fun first =>
    Request.meets_bind meets_tableLines fun second =>
      Request.meets_map meets_expansionLine fun third => first ++ second ++ third) fun text => ?_
  cases tabulated : Direct.table text with
  | ok table =>
      obtain ⟨admissible, _⟩ := (Direct.table_eq_ok_iff text table).mp tabulated
      rw [admissible.polish_eq, Direct.expansion_eq_map, tabulated]
      obtain ⟨_ | _, _ | layout⟩ := options <;> rfl
  | error fault =>
      rw [Direct.expansion_eq_map, tabulated]
      -- the sequence may be written before the fault shows; if it is not arranged, that is the fault
      cases arranged : Direct.polish text with
      | ok sequence => obtain ⟨_ | _, _ | layout⟩ := options <;> rfl
      | error cause =>
          rw [Direct.table, arranged] at tabulated
          cases tabulated
          obtain ⟨_ | _, _ | layout⟩ := options <;> rfl

theorem lineSheet_eq (options : Options) (line : Text) :
    lineSheet options line = (Direct.table line).map fun table =>
      options.heading line.polish table ++ ((Expansion.ofTable table).write ++ ['\n']) := by
  rw [lineSheet, Request.onText]
  cases admitted : Formula.ofText line with
  | error fault =>
      have failed : Direct.table line = .error fault := by
        rw [Direct.table, Direct.polish, Direct.normal, normalize_of_refused admitted]
        rfl
      rw [failed]
      rfl
  | ok formula =>
      have answer := (meets_sheet options formula (.ofText admitted) trivial).1
      obtain ⟨_, rfl⟩ := (Formula.ofText_eq_ok_iff line formula).mp admitted
      refine Eq.trans answer ?_
      beta_reduce
      cases Direct.table line <;> rfl

theorem lineSheet_eq_error_iff (options : Options) (line : Text) (fault : Fault) :
    lineSheet options line = .error fault ↔ Direct.table line = .error fault := by
  rw [lineSheet_eq]
  cases Direct.table line with
  | error cause => simp [Except.map]
  | ok table => simp [Except.map]

theorem exists_lineSheet_iff (options : Options) (line : Text) :
    (∃ written, lineSheet options line = .ok written) ↔
      ∃ table, Direct.table line = .ok table := by
  rw [lineSheet_eq]
  cases Direct.table line with
  | error cause => simp [Except.map]
  | ok table => simp [Except.map]

def sheet? (options : Options) (line : Text) : Option Text :=
  if Text.blank line then none else (lineSheet options line).toOption

def rejection? (options : Options) : Text × Nat → Option Rejection
  | (line, number) =>
      if Text.blank line then none
      else
        match lineSheet options line with
        | .ok _ => none
        | .error fault => some ⟨number, line, fault⟩

end Batch

def Text.readable : List (Option Text) → List Text
  | some line :: rest => line :: readable rest
  | _ => []

namespace Batch

theorem report_eq (options : Options) (number : Nat) (lines : List (Option Text)) :
    report options number lines =
      { written := ((Text.readable lines).filterMap (sheet? options)).flatten
        rejections := ((Text.readable lines).zipIdx number).filterMap (rejection? options)
        ending := if lines.all Option.isSome then .finished else .unreadable } := by
  induction lines generalizing number with
  | nil => rfl
  | cons line rest ih =>
      cases line with
      | none => rfl
      | some line =>
          rw [report, ih, Text.readable, List.zipIdx_cons, List.filterMap_cons, List.filterMap_cons,
            sheet?, rejection?]
          by_cases blank : Text.blank line = true
          · rw [if_pos blank, if_pos blank, if_pos blank]
            rfl
          · rw [if_neg blank, if_neg blank, if_neg blank]
            cases lineSheet options line <;> rfl

theorem rejection?_eq (first second : Options) : rejection? first = rejection? second := by
  funext entry
  rw [rejection?, rejection?, lineSheet_eq, lineSheet_eq]
  cases Direct.table entry.1 <;> rfl

theorem sheet?_of_rejected {entry : Text × Nat} {rejection : Rejection}
    (rejected : rejection? options entry = some rejection) :
    sheet? options rejection.text = none := by
  obtain ⟨line, number⟩ := entry
  rw [rejection?] at rejected
  by_cases blank : Text.blank line = true
  · rw [if_pos blank] at rejected
    cases rejected
  · rw [if_neg blank] at rejected
    cases written : lineSheet options line with
    | ok text => rw [written] at rejected; cases rejected
    | error fault =>
        rw [written] at rejected
        cases rejected
        rw [sheet?, if_neg blank, written]
        rfl

theorem rejection?_of_written {line written : Text} (given : sheet? options line = some written)
    (number : Nat) : rejection? options (line, number) = none := by
  rw [sheet?] at given
  rw [rejection?]
  split at given
  · cases given
  · rename_i filled
    rw [if_neg filled]
    cases answered : lineSheet options line with
    | ok text => rfl
    | error fault => rw [answered] at given; cases given

theorem length_sheets_add_rejections (options : Options) (number : Nat) (lines : List Text) :
    (lines.filterMap (sheet? options)).length +
        ((lines.zipIdx number).filterMap (rejection? options)).length =
      (lines.filter fun line => !Text.blank line).length := by
  induction lines generalizing number with
  | nil => rfl
  | cons line rest ih =>
      have later := ih (number + 1)
      rw [List.zipIdx_cons, List.filterMap_cons, List.filterMap_cons, List.filter_cons, sheet?,
        rejection?]
      by_cases blank : Text.blank line = true
      · rw [if_pos blank, if_pos blank, blank]
        exact later
      · rw [if_neg blank, if_neg blank, Bool.eq_false_iff.mpr blank]
        cases lineSheet options line with
        | ok written => simp [Except.toOption]; omega
        | error fault => simp [Except.toOption]; omega

/-- Options only add to what a line writes. Whether it is rejected, and for what fault, does not depend on
them; its sheet is what it writes without any, after the Polish sequence and the table if they are asked
for. So the same lines of a batch are rejected, and only the others write anything. -/
theorem options_only_add (first second : Options) :
    (∀ line : Text,
      ((∃ written, lineSheet first line = .ok written) ↔
          ∃ written, lineSheet second line = .ok written) ∧
        (∀ fault, lineSheet first line = .error fault ↔ lineSheet second line = .error fault) ∧
        ∀ written, lineSheet first line = .ok written →
          ∃ formula sequence table plain, Formula.ofText line = .ok formula ∧
            (Request.polish formula).answer = .ok sequence ∧
            (Request.table formula).answer = .ok table ∧
            lineSheet {} line = .ok plain ∧ written = first.heading sequence table ++ plain) ∧
      ∀ bytes : Text.Bytes,
        (run first bytes).rejections = (run second bytes).rejections ∧
          (run first bytes).ending = (run second bytes).ending ∧
          (run first bytes).written =
            ((Text.readable (Text.lines bytes)).filterMap (sheet? first)).flatten ∧
          ∀ rejection ∈ (run first bytes).rejections, sheet? first rejection.text = none := by
  constructor
  · intro line
    refine ⟨?_, ?_, ?_⟩
    · rw [exists_lineSheet_iff, exists_lineSheet_iff]
    · intro fault
      rw [lineSheet_eq_error_iff, lineSheet_eq_error_iff]
    · intro written given
      obtain ⟨table, tabulated⟩ := (exists_lineSheet_iff first line).mp ⟨written, given⟩
      obtain ⟨admissible, _⟩ := (Direct.table_eq_ok_iff line table).mp tabulated
      have admitted := admissible.ofText_eq
      have coherent := Formula.Coherent.ofText admitted
      have arranged := (Request.meets_polish _ coherent trivial).1.trans admissible.polish_eq
      have answered := (Request.meets_table _ coherent trivial).1.trans tabulated
      rw [lineSheet_eq, tabulated] at given
      cases given
      refine ⟨_, line.polish, table, _, admitted, arranged, answered, ?_, rfl⟩
      rw [lineSheet_eq, tabulated]
      rfl
  · intro bytes
    rw [run, run, report_eq, report_eq, rejection?_eq second first]
    refine ⟨rfl, rfl, rfl, fun rejection member => ?_⟩
    obtain ⟨entry, _, rejected⟩ := List.mem_filterMap.mp member
    exact sheet?_of_rejected rejected

/-- The lines `a+` and `a`, with the Polish sequence and the table asked for. -/
theorem options_add_to_letter :
    lineSheet ⟨true, some {}⟩ ['a', '+'] = .error (.malformed (.missingOperand .disj)) ∧
      (∃ formula sequence table plain, Formula.ofText ['a'] = .ok formula ∧
        (Request.polish formula).answer = .ok sequence ∧
        (Request.table formula).answer = .ok table ∧
        lineSheet {} ['a'] = .ok plain ∧
        ("a\n     a     Truth Value\n----------------------------\n" ++
            " False     False\n  True     True\na\n").toList =
          Options.heading ⟨true, some {}⟩ sequence table ++ plain) ∧
      (run ⟨true, some {}⟩ [97, 43, 10, 97, 10]).rejections =
        [⟨1, ['a', '+'], .malformed (.missingOperand .disj)⟩] := by
  obtain ⟨lines, batches⟩ := options_only_add ⟨true, some {}⟩ {}
  obtain ⟨_, refused, _⟩ := lines ['a', '+']
  obtain ⟨_, _, given⟩ := lines ['a']
  exact ⟨(refused _).mpr (by decide), given _ (by decide), (batches _).1.trans (by decide)⟩

end Batch

end PrincipalForm
