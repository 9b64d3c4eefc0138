import PrincipalForm.Proofs.Postorder
import PrincipalForm.Proofs.StackMachine

/-!
What evaluation accepts. A run on truth values goes along with the building of trees, as long as it
succeeds: the values on its stack are those of the trees built so far, and the postorders of these trees
are the tokens read so far. A sequence with a value is therefore the postorder of a tree, and of one only.
-/

namespace PrincipalForm

namespace Expr

/-- The postorders of trees on a stack, oldest first. -/
def forest (trees : List Expr) : Polish := trees.reverse.flatMap polish

theorem forest_cons (expr : Expr) (trees : List Expr) :
    forest (expr :: trees) = forest trees ++ expr.polish := by
  simp [forest]

theorem forest_of_build {trees next : List Expr} {token : Token}
    (built : build trees token = some next) : forest next = forest trees ++ [token] := by
  unfold build at built
  split at built
  iterate 4 next => cases built; simp [forest_cons, polish]
  next => cases built

theorem forest_of_foldlM {trees after : List Expr} {tokens : Polish}
    (built : tokens.foldlM build trees = some after) : forest after = forest trees ++ tokens := by
  induction tokens generalizing trees with
  | nil =>
      cases built
      rw [List.append_nil]
  | cons token rest ih =>
      rw [List.foldlM_cons] at built
      obtain ⟨next, moved, later⟩ := Option.bind_eq_some_iff.mp built
      rw [ih later, forest_of_build moved, List.append_assoc, List.singleton_append]

end Expr

theorem Token.mem_letters_iff (tokens : List Token) (letter : Letter) :
    letter ∈ tokens.filterMap letter? ↔ .atom letter ∈ tokens := by
  rw [List.mem_filterMap]
  constructor
  · rintro ⟨token, member, named⟩
    cases token with
    | atom other => cases named; exact member
    | _ => cases named
  · exact fun member => ⟨.atom letter, member, rfl⟩

namespace Evaluation

variable {valuation : Valuation} {trees : List Expr} {after : List Bool}

theorem exists_build_of_step {token : Token}
    (moved : step valuation (trees.map (Expr.eval valuation.holds)) token = .ok after) :
    ∃ next, Expr.build trees token = some next ∧ next.map (Expr.eval valuation.holds) = after ∧
      ∀ letter, token = .atom letter → letter ∈ valuation.letters := by
  cases token with
  | atom letter =>
      cases found : valuation.get? letter with
      | none => simp [step, found] at moved
      | some value =>
          have covered : letter ∈ valuation.letters :=
            (valuation.mem_letters_iff letter).mpr (Option.isSome_iff_exists.mpr ⟨value, found⟩)
          rw [step_atom _ letter covered] at moved
          cases moved
          refine ⟨.atom letter :: trees, rfl, rfl, ?_⟩
          rintro _ ⟨rfl⟩
          exact covered
  | neg =>
      cases trees with
      | nil => cases moved
      | cons operand below =>
          cases moved
          exact ⟨.neg operand :: below, rfl, rfl, fun _ => Token.noConfusion⟩
  | conj | disj =>
      rcases trees with _ | ⟨right, _ | ⟨left, below⟩⟩
      · cases moved
      · cases moved
      · cases moved
        exact ⟨_, rfl, rfl, fun _ => Token.noConfusion⟩
  | opening | closing =>
      rcases trees with _ | ⟨right, _ | ⟨left, below⟩⟩
      · cases moved
      · cases moved
      · cases moved

/-- A run that succeeds has built trees with the values that it leaves, and found every letter's value. -/
theorem exists_trees_of_run (trees : List Expr) {polish : Polish}
    (done : run valuation (trees.map (Expr.eval valuation.holds)) polish = .ok after) :
    ∃ grown, polish.foldlM Expr.build trees = some grown ∧
      grown.map (Expr.eval valuation.holds) = after ∧
      ∀ letter, .atom letter ∈ polish → letter ∈ valuation.letters := by
  induction polish generalizing trees with
  | nil =>
      cases done
      exact ⟨trees, rfl, rfl, fun _ member => absurd member List.not_mem_nil⟩
  | cons token rest ih =>
      obtain ⟨middle, moved, others⟩ := exists_step_of_run done
      obtain ⟨next, built, rfl, here⟩ := exists_build_of_step moved
      obtain ⟨grown, later, same, found⟩ := ih next others
      refine ⟨grown, ?_, same, fun letter member => ?_⟩
      · rw [List.foldlM_cons, built]
        exact later
      · rcases List.mem_cons.mp member with first | other
        · exact here letter first.symm
        · exact found letter other

theorem evaluate_eq_ok_iff (polish : Polish) (value : Bool) :
    evaluate polish valuation = .ok value ↔ ∃ expr : Expr, expr.polish = polish ∧
      valuation.Covers expr.occurrences ∧ expr.eval valuation.holds = value := by
  constructor
  · intro valued
    cases done : run valuation [] polish with
    | error fault => rw [evaluate_of_fault done] at valued; cases valued
    | ok stack =>
        rw [evaluate_of_run done] at valued
        obtain rfl := outcome_ok valued
        obtain ⟨grown, built, values, found⟩ := exists_trees_of_run [] done
        obtain ⟨expr, rfl, same⟩ := List.map_eq_singleton_iff.mp values
        have order : expr.polish = polish := by simpa [Expr.forest] using Expr.forest_of_foldlM built
        refine ⟨expr, order, fun letter occurs => found letter ?_, same⟩
        rwa [← expr.letters_polish, order, Token.mem_letters_iff] at occurs
  · rintro ⟨expr, rfl, covers, rfl⟩
    exact evaluate_polish expr covers

end Evaluation

/-- A sequence has a value exactly if it is the postorder of a tree whose letters have values, and the
value is the tree's. It is the postorder of no other tree. Any other sequence is malformed or asks for the
value of a letter that has none. -/
theorem evaluate_iff_tree (polish : Polish) (valuation : Valuation) :
    (∀ value, evaluate polish valuation = .ok value ↔ ∃ expr : Expr, expr.polish = polish ∧
        valuation.Covers expr.occurrences ∧ expr.eval valuation.holds = value) ∧
      (∀ left right : Expr, left.polish = polish → right.polish = polish → left = right) ∧
      ((¬ ∃ value, evaluate polish valuation = .ok value) →
        (∃ cause, evaluate polish valuation = .error (.malformed cause)) ∨
          ∃ letter, .atom letter ∈ polish ∧ letter ∉ valuation.letters ∧
            evaluate polish valuation = .error (.unassigned letter)) := by
  refine ⟨Evaluation.evaluate_eq_ok_iff polish, ?_, ?_⟩
  · rintro left right rfl same
    exact Expr.polish_inj same.symm
  · intro without
    cases evaluated : evaluate polish valuation with
    | ok value => exact absurd ⟨value, evaluated⟩ without
    | error fault =>
        rcases Evaluation.evaluate_fault evaluated with ⟨letter, member, absent, rfl⟩ | ⟨cause, rfl⟩
        · exact Or.inr ⟨letter, member, absent, rfl⟩
        · exact Or.inl ⟨cause, rfl⟩

/-- The sequence `ab+!c*` is the postorder of `!(a+b)*c` only, and `ab+!*` of no tree. -/
theorem evaluate_iff_tree_of_negated_sum :
    evaluate [.atom .a, .atom .b, .disj, .neg, .atom .c, .conj]
        (.ofPairs [(.a, false), (.b, false), (.c, true)]) = .ok true ∧
      (∀ expr : Expr, expr.polish = [.atom .a, .atom .b, .disj, .neg, .atom .c, .conj] →
        expr = .conj (.neg (.disj (.atom .a) (.atom .b))) (.atom .c)) ∧
      ∃ cause, evaluate [.atom .a, .atom .b, .disj, .neg, .conj] (.ofPairs [(.a, true), (.b, true)]) =
        .error (.malformed cause) := by
  refine ⟨?_, ?_, ?_⟩
  · obtain ⟨valued, _, _⟩ := evaluate_iff_tree [.atom .a, .atom .b, .disj, .neg, .atom .c, .conj]
      (.ofPairs [(.a, false), (.b, false), (.c, true)])
    refine (valued true).mpr ⟨.conj (.neg (.disj (.atom .a) (.atom .b))) (.atom .c), rfl, ?_, rfl⟩
    unfold Valuation.Covers
    decide
  · intro expr order
    obtain ⟨_, unique, _⟩ := evaluate_iff_tree [.atom .a, .atom .b, .disj, .neg, .atom .c, .conj] .empty
    exact unique _ _ order rfl
  · have refused : ¬ ∃ value, evaluate [.atom .a, .atom .b, .disj, .neg, .conj]
        (.ofPairs [(.a, true), (.b, true)]) = .ok value := by
      rintro ⟨value, valued⟩
      cases valued
    obtain ⟨_, _, otherwise⟩ := evaluate_iff_tree [.atom .a, .atom .b, .disj, .neg, .conj]
      (.ofPairs [(.a, true), (.b, true)])
    rcases otherwise refused with malformed | ⟨letter, member, absent, _⟩
    · exact malformed
    · have named : letter = .a ∨ letter = .b := by simpa using member
      rcases named with rfl | rfl
      · exact absurd (by decide) absent
      · exact absurd (by decide) absent

end PrincipalForm
