import PrincipalForm.Batch
import PrincipalForm.Proofs.Lines

namespace PrincipalForm

def Rejection.lowered (count : Nat) (rejection : Rejection) : Rejection :=
  { rejection with line := rejection.line + count }

namespace Report

def empty : Report := ⟨[], [], .finished⟩

def lowered (count : Nat) (report : Report) : Report :=
  { report with rejections := report.rejections.map (Rejection.lowered count) }

/-- A report and, unless it ends for want of text, one of what follows. -/
def followedBy (first second : Report) : Report :=
  match first.ending with
  | .finished =>
      { written := first.written ++ second.written
        rejections := first.rejections ++ second.rejections
        ending := second.ending }
  | .unreadable => first

variable {first : Report}

theorem followedBy_of_finished (finished : first.ending = .finished) (second : Report) :
    first.followedBy second =
      ⟨first.written ++ second.written, first.rejections ++ second.rejections, second.ending⟩ := by
  rw [followedBy, finished]

theorem followedBy_of_unreadable (unreadable : first.ending = .unreadable) (second : Report) :
    first.followedBy second = first := by
  rw [followedBy, unreadable]

theorem followedBy_assoc (first second third : Report) :
    (first.followedBy second).followedBy third = first.followedBy (second.followedBy third) := by
  obtain ⟨written, rejections, _ | _⟩ := first
  · obtain ⟨others, further, _ | _⟩ := second
    · simp only [followedBy, List.append_assoc]
    · rfl
  · rfl

theorem lowered_followedBy (count : Nat) (first second : Report) :
    (first.followedBy second).lowered count =
      (first.lowered count).followedBy (second.lowered count) := by
  obtain ⟨written, rejections, _ | _⟩ := first
  · simp only [followedBy, lowered, List.map_append]
  · rfl

end Report

namespace Batch

variable {options : Options}

def lineReport (options : Options) (number : Nat) : Option Text → Report
  | none => ⟨[], [], .unreadable⟩
  | some line =>
      if Text.blank line then .empty
      else
        match lineSheet options line with
        | .ok written => ⟨written, [], .finished⟩
        | .error fault => ⟨[], [⟨number, line, fault⟩], .finished⟩

/-- Nothing is carried from a line to the next but the number. -/
theorem report_cons (number : Nat) (line : Option Text) (rest : List (Option Text)) :
    report options number (line :: rest) =
      (lineReport options number line).followedBy (report options (number + 1) rest) := by
  cases line with
  | none => rfl
  | some line =>
      rw [report, lineReport]
      split
      · rfl
      · cases lineSheet options line <;> rfl

theorem report_append (number : Nat) (first second : List (Option Text)) :
    report options number (first ++ second) =
      (report options number first).followedBy (report options (number + first.length) second) := by
  induction first generalizing number with
  | nil => rfl
  | cons line rest ih =>
      have moved : number + (line :: rest).length = number + 1 + rest.length := by
        rw [List.length_cons]
        omega
      rw [List.cons_append, report_cons, report_cons, ih, Report.followedBy_assoc, moved]

theorem lineReport_lowered (number count : Nat) (line : Option Text) :
    lineReport options (number + count) line = (lineReport options number line).lowered count := by
  cases line with
  | none => rfl
  | some line =>
      rw [lineReport, lineReport]
      split
      · rfl
      · cases lineSheet options line <;> rfl

theorem report_lowered (number count : Nat) (lines : List (Option Text)) :
    report options (number + count) lines = (report options number lines).lowered count := by
  induction lines generalizing number with
  | nil => rfl
  | cons line rest ih =>
      rw [report_cons, report_cons, lineReport_lowered, Report.lowered_followedBy, ← ih,
        Nat.add_right_comm]

theorem run_followedBy {first : Text.Bytes}
    (ended : first = [] ∨ first.getLast? = some Text.Lines.newline) (second : Text.Bytes) :
    run options (first ++ second) =
      (run options first).followedBy ((run options second).lowered (Text.lines first).length) := by
  rw [run, run, run, Text.lines_append ended, report_append, report_lowered]

/-- A batch whose lines have all ended and been read may be followed by another: what both write and
reject is written and rejected in turn, the lines of the second being numbered on. A batch that ends at a
line without text ends there whatever follows. -/
theorem lines_independent (options : Options) {first : Text.Bytes}
    (ended : first = [] ∨ first.getLast? = some Text.Lines.newline) (second : Text.Bytes) :
    ((run options first).ending = .finished →
      (run options (first ++ second)).written =
          (run options first).written ++ (run options second).written ∧
        (run options (first ++ second)).rejections =
          (run options first).rejections ++
            (run options second).rejections.map (Rejection.lowered (Text.lines first).length) ∧
        (run options (first ++ second)).rejections.length =
          (run options first).rejections.length + (run options second).rejections.length ∧
        (run options (first ++ second)).ending = (run options second).ending) ∧
      ((run options first).ending = .unreadable →
        run options (first ++ second) = run options first) := by
  rw [run_followedBy ended]
  constructor
  · intro finished
    rw [Report.followedBy_of_finished finished]
    refine ⟨rfl, rfl, ?_, rfl⟩
    rw [List.length_append, Report.lowered, List.length_map]
  · intro unreadable
    exact Report.followedBy_of_unreadable unreadable _

/-- The lines `a`, a blank one and `a?b`, followed by `b+`, by `b` and by bytes that are no text; and these
last followed by `a`. -/
theorem mixed_lines_independent :
    (run {} ([97, 10, 32, 10, 97, 63, 98, 10] ++ [98, 43, 10, 98, 10, 255, 10])).written =
        ['a', '\n', 'b', '\n'] ∧
      (run {} ([97, 10, 32, 10, 97, 63, 98, 10] ++ [98, 43, 10, 98, 10, 255, 10])).rejections =
        [⟨3, ['a', '?', 'b'], .illegalCharacter '?' 1⟩,
          ⟨4, ['b', '+'], .malformed (.missingOperand .disj)⟩] ∧
      (run {} ([97, 10, 32, 10, 97, 63, 98, 10] ++ [98, 43, 10, 98, 10, 255, 10])).ending =
        .unreadable ∧
      run {} ([98, 43, 10, 98, 10, 255, 10] ++ [97]) = run {} [98, 43, 10, 98, 10, 255, 10] := by
  have readable : ([97, 10, 32, 10, 97, 63, 98, 10] : Text.Bytes).getLast? = some 10 := by decide
  have broken : ([98, 43, 10, 98, 10, 255, 10] : Text.Bytes).getLast? = some 10 := by decide
  obtain ⟨finished, _⟩ := lines_independent {} (Or.inr readable) [98, 43, 10, 98, 10, 255, 10]
  obtain ⟨written, rejections, _, ending⟩ := finished (by decide)
  obtain ⟨_, unreadable⟩ := lines_independent {} (Or.inr broken) [97]
  exact ⟨written.trans (by decide), rejections.trans (by decide), ending.trans (by decide),
    unreadable (by decide)⟩

end Batch

end PrincipalForm
