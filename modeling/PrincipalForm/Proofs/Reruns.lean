import PrincipalForm.Proofs.Canonicity
import PrincipalForm.Proofs.Sheets

/-!
Runs over what runs have written. Without options a batch writes texts that compile to themselves, each on
a line of its own, except where it writes that a formula is a contradiction. So a second run loses those
lines and nothing else, and a third loses nothing.
-/

namespace PrincipalForm

namespace Text

theorem readable_map_some (lines : List Text) : readable (lines.map some) = lines := by
  induction lines with
  | nil => rfl
  | cons line rest ih => rw [List.map_cons, readable, ih]

theorem Admissible.not_blank {text : Text} (admissible : text.Admissible) : blank text = false := by
  have filled := admissible.filled
  rw [List.all_eq_false] at filled
  obtain ⟨c, member, other⟩ := filled
  rw [blank, List.all_eq_false]
  refine ⟨c, member, fun spaced => other ?_⟩
  rw [decide_eq_true_eq]
  exact white_of_legal (List.all_eq_true.mp admissible.legal c member) spaced

end Text

namespace Batch

/-- What is written for a line if nothing is asked for besides, without its line end. -/
def plain? (line : Text) : Option Text :=
  if Text.blank line then none else (Direct.expansion line).toOption.map Expansion.write

theorem sheet?_plain (line : Text) : sheet? {} line = (plain? line).map (· ++ ['\n']) := by
  rw [sheet?, plain?, lineSheet_eq, Direct.expansion_eq_map]
  split
  · rfl
  · cases Direct.table line <;> rfl

/-- The rejections of the lines on which a contradiction is written, the first line having a given
number. -/
def markers (number : Nat) (pieces : List Text) : List Rejection :=
  ((pieces.zipIdx number).filter fun entry => entry.1 = Expansion.contradiction).map fun entry =>
    ⟨entry.2, Expansion.contradiction, .illegalCharacter 'C' 0⟩

theorem length_markers (number : Nat) (pieces : List Text) :
    (markers number pieces).length = pieces.count Expansion.contradiction := by
  calc (markers number pieces).length
      = (pieces.zipIdx number).countP fun entry => entry.1 = Expansion.contradiction := by
        rw [markers, List.length_map, List.countP_eq_length_filter]
    _ = ((pieces.zipIdx number).map Prod.fst).countP (· = Expansion.contradiction) := by
        rw [List.countP_map]
        rfl
    _ = pieces.count Expansion.contradiction := by
        rw [List.zipIdx_map_fst]
        exact List.countP_congr fun piece _ => by rw [decide_eq_true_eq, beq_iff_eq]

def unmarked (pieces : List Text) : List Text := pieces.filter (· ≠ Expansion.contradiction)

theorem unmarked_unmarked (pieces : List Text) : unmarked (unmarked pieces) = unmarked pieces := by
  rw [unmarked, unmarked, List.filter_filter]
  exact List.filter_congr fun piece _ => Bool.and_self _

theorem markers_unmarked (number : Nat) (pieces : List Text) :
    markers number (unmarked pieces) = [] := by
  rw [← List.length_eq_zero_iff, length_markers, List.count_eq_zero]
  intro member
  exact of_decide_eq_true (List.mem_filter.mp member).2 rfl

/-- The text of an expansion: that of a contradiction, or one that compiles to itself. -/
inductive Settled : Text → Prop where
  | contradiction : Settled Expansion.contradiction
  | again {given : Expansion} (admissible : given.write.Admissible)
      (compiled : Direct.expansion given.write = .ok given) : Settled given.write

theorem settled_of_plain? {line piece : Text} (written : plain? line = some piece) :
    Settled piece := by
  rw [plain?] at written
  split at written
  · cases written
  · cases compiled : Direct.expansion line with
    | error fault => rw [compiled] at written; cases written
    | ok given =>
        rw [compiled] at written
        cases written
        cases never : given.isContradiction with
        | true =>
            have same : given.write = Expansion.contradiction := by rw [Expansion.write, never]; rfl
            exact same ▸ .contradiction
        | false =>
            obtain ⟨admissible, _, again⟩ := Direct.expansion_again compiled never
            exact .again admissible again

namespace Settled

variable {piece : Text} {pieces : List Text}

theorem unbroken (settled : Settled piece) : '\n' ∉ piece ∧ '\r' ∉ piece := by
  cases settled with
  | contradiction => decide
  | again admissible _ =>
      have legal := List.all_eq_true.mp admissible.legal
      constructor
      · intro member
        cases legal '\n' member
      · intro member
        cases legal '\r' member

theorem ne_contradiction {given : Expansion} (admissible : given.write.Admissible) :
    given.write ≠ Expansion.contradiction := by
  intro same
  have legal := admissible.legal
  rw [same, Expansion.illegal_contradiction] at legal
  cases legal

theorem sheet?_eq (settled : Settled piece) :
    sheet? {} piece = if piece = Expansion.contradiction then none else some (piece ++ ['\n']) := by
  cases settled with
  | contradiction => decide
  | again admissible compiled =>
      rw [if_neg (ne_contradiction admissible), sheet?_plain, plain?, admissible.not_blank, compiled]
      rfl

theorem rejection?_eq (settled : Settled piece) (number : Nat) :
    rejection? {} (piece, number) =
      if piece = Expansion.contradiction then
        some ⟨number, Expansion.contradiction, .illegalCharacter 'C' 0⟩
      else none := by
  cases settled with
  | contradiction => rfl
  | again admissible compiled =>
      rw [if_neg (ne_contradiction admissible)]
      apply rejection?_of_written
      rw [sheet?_eq (.again admissible compiled), if_neg (ne_contradiction admissible)]

theorem filterMap_sheet? (settled : ∀ piece ∈ pieces, Settled piece) :
    pieces.filterMap (sheet? {}) = (unmarked pieces).map (· ++ ['\n']) := by
  induction pieces with
  | nil => rfl
  | cons piece rest ih =>
      have later := ih fun other member => settled other (List.mem_cons_of_mem piece member)
      rw [unmarked] at later ⊢
      rw [List.filterMap_cons, sheet?_eq (settled piece List.mem_cons_self), later]
      by_cases marker : piece = Expansion.contradiction
      · simp [marker]
      · simp [marker]

theorem filterMap_rejection? (settled : ∀ piece ∈ pieces, Settled piece) (number : Nat) :
    (pieces.zipIdx number).filterMap (rejection? {}) = markers number pieces := by
  induction pieces generalizing number with
  | nil => rfl
  | cons piece rest ih =>
      have later := ih (fun other member => settled other (List.mem_cons_of_mem piece member))
        (number + 1)
      rw [markers] at later ⊢
      rw [List.zipIdx_cons, List.filterMap_cons, rejection?_eq (settled piece List.mem_cons_self),
        later]
      by_cases marker : piece = Expansion.contradiction
      · simp [marker]
      · simp [marker]

end Settled

theorem run_of_lines (options : Options) {bytes : Text.Bytes} {lines : List Text}
    (decoded : Text.lines bytes = lines.map some) :
    run options bytes =
      { written := (lines.filterMap (sheet? options)).flatten
        rejections := (lines.zipIdx 1).filterMap (rejection? options)
        ending := .finished } := by
  have whole : (lines.map some).all Option.isSome = true := by
    simp
  rw [run, decoded, report_eq, Text.readable_map_some, whole]
  rfl

theorem run_of_settled {pieces : List Text} (settled : ∀ piece ∈ pieces, Settled piece) :
    run {} (Text.encode (Text.ofLines pieces)) =
      { written := Text.ofLines (unmarked pieces)
        rejections := markers 1 pieces
        ending := .finished } := by
  have decoded := Text.lines_encode_ofLines fun piece member => (settled piece member).unbroken
  rw [run_of_lines {} decoded, Settled.filterMap_sheet? settled, Settled.filterMap_rejection? settled,
    ← List.flatMap_def]
  rfl

def plainLines (lines : List Text) : List Text := lines.filterMap plain?

theorem settled_of_mem_plainLines {lines : List Text} {piece : Text}
    (member : piece ∈ plainLines lines) : Settled piece := by
  obtain ⟨line, _, written⟩ := List.mem_filterMap.mp member
  exact settled_of_plain? written

theorem map_plainLines (lines : List Text) :
    (plainLines lines).map (· ++ ['\n']) = lines.filterMap (sheet? {}) := by
  rw [plainLines, List.map_filterMap]
  exact congrArg (lines.filterMap ·) (funext fun line => (sheet?_plain line).symm)

def rerun (report : Report) : Report := run {} (Text.encode report.written)

/-- What is written without options is lost to a second run only where it says that a formula is a
contradiction, and to a third not at all. -/
theorem output_settles {bytes : Text.Bytes} {lines : List Text}
    (decoded : Text.lines bytes = lines.map some) :
    -- a line is written for each line that is neither blank nor rejected
    (run {} bytes).written = Text.ofLines (plainLines lines) ∧
      Text.lines (Text.encode (run {} bytes).written) = (plainLines lines).map some ∧
      (plainLines lines).map (· ++ ['\n']) = lines.filterMap (sheet? {}) ∧
      (run {} bytes).rejections = (lines.zipIdx 1).filterMap (rejection? {}) ∧
      (plainLines lines).length + (run {} bytes).rejections.length =
        (lines.filter fun line => !Text.blank line).length ∧
      (run {} bytes).ending = .finished ∧
      -- the lines rejected next are those on which a contradiction is written
      rerun (run {} bytes) =
        { written := Text.ofLines (unmarked (plainLines lines))
          rejections := markers 1 (plainLines lines)
          ending := .finished } ∧
      (rerun (run {} bytes)).rejections.length = (plainLines lines).count Expansion.contradiction ∧
      -- from then on none is rejected
      rerun (rerun (run {} bytes)) =
        { written := (rerun (run {} bytes)).written, rejections := [], ending := .finished } := by
  have first := run_of_lines {} decoded
  have written : (run {} bytes).written = Text.ofLines (plainLines lines) := by
    rw [first, ← map_plainLines, ← List.flatMap_def]
    rfl
  have settled : ∀ piece ∈ plainLines lines, Settled piece := fun _ => settled_of_mem_plainLines
  have second : rerun (run {} bytes) =
      { written := Text.ofLines (unmarked (plainLines lines))
        rejections := markers 1 (plainLines lines)
        ending := .finished } := by
    rw [rerun, written, run_of_settled settled]
  have kept : ∀ piece ∈ unmarked (plainLines lines), Settled piece := fun piece member =>
    settled piece (List.mem_filter.mp member).1
  refine ⟨written, ?_, map_plainLines lines, ?_, ?_, ?_, second, ?_, ?_⟩
  · rw [written]
    exact Text.lines_encode_ofLines fun piece member => (settled piece member).unbroken
  · rw [first]
  · have counted := length_sheets_add_rejections {} 1 lines
    rw [← map_plainLines, List.length_map] at counted
    rw [first]
    exact counted
  · rw [first]
  · rw [second]
    exact length_markers 1 (plainLines lines)
  · rw [second, rerun, run_of_settled kept, unmarked_unmarked, markers_unmarked]

/-- The lines `a?b`, one that is blank, `a+b` and `a*!a`. -/
theorem output_of_sum_and_contradiction_settles :
    Text.lines [97, 63, 98, 10, 10, 97, 43, 98, 10, 97, 42, 33, 97, 10] =
        [['a', '?', 'b'], [], ['a', '+', 'b'], ['a', '*', '!', 'a']].map some ∧
      (run {} [97, 63, 98, 10, 10, 97, 43, 98, 10, 97, 42, 33, 97, 10]).written =
        "ab+a!b+!ab\nContradictory Formula\n".toList ∧
      rerun (run {} [97, 63, 98, 10, 10, 97, 43, 98, 10, 97, 42, 33, 97, 10]) =
        { written := "ab+a!b+!ab\n".toList
          rejections := [⟨2, "Contradictory Formula".toList, .illegalCharacter 'C' 0⟩]
          ending := .finished } := by
  have decoded : Text.lines [97, 63, 98, 10, 10, 97, 43, 98, 10, 97, 42, 33, 97, 10] =
      [['a', '?', 'b'], [], ['a', '+', 'b'], ['a', '*', '!', 'a']].map some := by decide
  obtain ⟨written, _, _, _, _, _, second, _⟩ := output_settles decoded
  exact ⟨decoded, written.trans (by decide), second.trans (by decide)⟩

end Batch

end PrincipalForm
