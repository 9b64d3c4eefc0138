import PrincipalForm.Evaluation
import PrincipalForm.Expr

/-!
What evaluation does with any sequence of tokens. The postorder of a tree adds the tree's value to
the stack. A run that succeeds has met no parenthesis and has changed the height of the stack by its
letters less its binary operators; a run that fails has met a letter without a value or is malformed.
-/

namespace PrincipalForm

namespace Token

def isJoint : Token → Bool
  | .conj | .disj => true
  | _ => false

def operands (tokens : List Token) : Nat := tokens.countP isAtom

def joints (tokens : List Token) : Nat := tokens.countP isJoint

theorem operands_cons (token : Token) (rest : List Token) :
    operands (token :: rest) = operands rest + token.isAtom.toNat := by
  rw [operands, List.countP_cons, operands]
  cases token.isAtom <;> rfl

theorem joints_cons (token : Token) (rest : List Token) :
    joints (token :: rest) = joints rest + token.isJoint.toNat := by
  rw [joints, List.countP_cons, joints]
  cases token.isJoint <;> rfl

end Token

namespace Evaluation

variable {valuation : Valuation}

theorem run_cons {stack next : List Bool} {token : Token} (rest : Polish)
    (moved : step valuation stack token = .ok next) :
    run valuation stack (token :: rest) = run valuation next rest := by
  simp only [run, moved]
  rfl

theorem run_cons_error {stack : List Bool} {token : Token} {fault : Fault} (rest : Polish)
    (failed : step valuation stack token = .error fault) :
    run valuation stack (token :: rest) = .error fault := by
  simp only [run, failed]
  rfl

theorem exists_step_of_run {stack after : List Bool} {token : Token} {rest : Polish}
    (done : run valuation stack (token :: rest) = .ok after) :
    ∃ next, step valuation stack token = .ok next ∧ run valuation next rest = .ok after := by
  cases moved : step valuation stack token with
  | error fault =>
      rw [run_cons_error rest moved] at done
      cases done
  | ok next => exact ⟨next, rfl, (run_cons rest moved).symm.trans done⟩

theorem run_append {stack middle : List Bool} {before : Polish} (after : Polish)
    (done : run valuation stack before = .ok middle) :
    run valuation stack (before ++ after) = run valuation middle after := by
  induction before generalizing stack with
  | nil => cases done; rfl
  | cons token rest ih =>
      obtain ⟨next, moved, later⟩ := exists_step_of_run done
      rw [List.cons_append, run_cons (rest ++ after) moved, ih later]

theorem step_atom (stack : List Bool) (letter : Letter) (covered : letter ∈ valuation.letters) :
    step valuation stack (.atom letter) = .ok (valuation.holds letter :: stack) := by
  obtain ⟨value, found⟩ := Option.isSome_iff_exists.mp ((valuation.mem_letters_iff letter).mp covered)
  simp only [step, found, Valuation.holds_of_get? found]

theorem run_polish (expr : Expr) (stack : List Bool)
    (covers : valuation.Covers expr.occurrences) :
    run valuation stack expr.polish = .ok (expr.eval valuation.holds :: stack) := by
  induction expr generalizing stack with
  | atom letter => exact run_cons [] (step_atom stack letter (covers letter List.mem_cons_self))
  | neg operand ih => exact run_append [.neg] (ih stack covers)
  | conj left right ihLeft ihRight | disj left right ihLeft ihRight =>
      have first := ihLeft stack fun letter member => covers letter (List.mem_append_left _ member)
      have last := ihRight (left.eval valuation.holds :: stack) fun letter member =>
        covers letter (List.mem_append_right _ member)
      rw [Expr.polish, List.append_assoc, run_append _ first, run_append _ last]
      rfl

/-- What a token that finds its operands does to the stack. -/
inductive Moves (valuation : Valuation) : List Bool → Token → List Bool → Prop
  | atom {letter : Letter} {value : Bool} (stack : List Bool)
      (found : valuation.get? letter = some value) :
      Moves valuation stack (.atom letter) (value :: stack)
  | neg (value : Bool) (stack : List Bool) : Moves valuation (value :: stack) .neg ((!value) :: stack)
  | conj (left right : Bool) (stack : List Bool) :
      Moves valuation (right :: left :: stack) .conj ((left && right) :: stack)
  | disj (left right : Bool) (stack : List Bool) :
      Moves valuation (right :: left :: stack) .disj ((left || right) :: stack)

theorem moves_of_step {stack next : List Bool} {token : Token}
    (moved : step valuation stack token = .ok next) : Moves valuation stack token next := by
  unfold step at moved
  split at moved
  next letter =>
    split at moved
    next value found =>
      cases moved
      exact .atom stack found
    next => cases moved
  next value below =>
    cases moved
    exact .neg value below
  next right left below =>
    cases moved
    exact .conj left right below
  next right left below =>
    cases moved
    exact .disj left right below
  all_goals cases moved

/-- What one token does to the height of the stack; no parenthesis succeeds. -/
theorem step_height {stack next : List Bool} {token : Token} (rest : Polish)
    (moved : step valuation stack token = .ok next) :
    next.length + Token.joints (token :: rest) + Token.operands rest =
        stack.length + Token.joints rest + Token.operands (token :: rest) ∧
      token ≠ .opening ∧ token ≠ .closing := by
  cases moves_of_step moved with
  | neg => exact ⟨rfl, Token.noConfusion, Token.noConfusion⟩
  | atom | conj | disj =>
      simp only [Token.operands_cons, Token.joints_cons, Token.isAtom, Token.isJoint,
        List.length_cons, Bool.toNat_true, Bool.toNat_false]
      exact ⟨by omega, Token.noConfusion, Token.noConfusion⟩

/-- A token that fails is a letter without a value or is out of place. -/
theorem step_fault {stack : List Bool} {token : Token} {fault : Fault}
    (failed : step valuation stack token = .error fault) :
    (∃ letter, token = .atom letter ∧ letter ∉ valuation.letters ∧ fault = .unassigned letter) ∨
      fault = .malformed (.unbalanced token) ∨ fault = .malformed (.missingOperand token) := by
  unfold step at failed
  split at failed
  next letter =>
    split at failed
    next => cases failed
    next absent =>
      cases failed
      exact Or.inl ⟨letter, rfl, (valuation.get?_eq_none_iff letter).mp absent, rfl⟩
  iterate 3 next => cases failed
  iterate 2 next => cases failed; exact Or.inr (Or.inl rfl)
  next => cases failed; exact Or.inr (Or.inr rfl)

theorem run_height {stack after : List Bool} {polish : Polish}
    (done : run valuation stack polish = .ok after) :
    after.length + Token.joints polish = stack.length + Token.operands polish ∧
      .opening ∉ polish ∧ .closing ∉ polish := by
  induction polish generalizing stack with
  | nil => cases done; simp [Token.joints, Token.operands]
  | cons token rest ih =>
      obtain ⟨next, moved, others⟩ := exists_step_of_run done
      -- the heights are added up without subtraction, so the counts of the rest cancel
      obtain ⟨height, notOpening, notClosing⟩ := step_height rest moved
      obtain ⟨later, noOpening, noClosing⟩ := ih others
      exact ⟨by omega, by simp [notOpening.symm, noOpening], by simp [notClosing.symm, noClosing]⟩

theorem run_fault {stack : List Bool} {polish : Polish} {fault : Fault}
    (failed : run valuation stack polish = .error fault) :
    (∃ letter, .atom letter ∈ polish ∧ letter ∉ valuation.letters ∧ fault = .unassigned letter) ∨
      ∃ token, fault = .malformed (.unbalanced token) ∨ fault = .malformed (.missingOperand token) := by
  induction polish generalizing stack with
  | nil => cases failed
  | cons token rest ih =>
      cases moved : step valuation stack token with
      | error first =>
          rw [run_cons_error rest moved] at failed
          cases failed
          rcases step_fault moved with ⟨letter, same, absent, cause⟩ | misplaced
          · exact Or.inl ⟨letter, by simp [same], absent, cause⟩
          · exact Or.inr ⟨token, misplaced⟩
      | ok next =>
          rw [run_cons rest moved] at failed
          rcases ih failed with ⟨letter, member, absent, cause⟩ | misplaced
          · exact Or.inl ⟨letter, List.mem_cons_of_mem token member, absent, cause⟩
          · exact Or.inr misplaced

theorem outcome_ok {stack : List Bool} {value : Bool} (single : outcome stack = .ok value) :
    stack = [value] := by
  unfold outcome at single
  split at single
  · cases single; rfl
  · cases single
  · cases single

theorem outcome_fault {stack : List Bool} {fault : Fault} (failed : outcome stack = .error fault) :
    ∃ cause, fault = .malformed cause := by
  unfold outcome at failed
  split at failed
  · cases failed
  · cases failed; exact ⟨_, rfl⟩
  · cases failed; exact ⟨_, rfl⟩

theorem evaluate_of_run {polish : Polish} {stack : List Bool}
    (done : run valuation [] polish = .ok stack) : evaluate polish valuation = outcome stack := by
  rw [evaluate, done]
  rfl

theorem evaluate_of_fault {polish : Polish} {fault : Fault}
    (failed : run valuation [] polish = .error fault) :
    evaluate polish valuation = .error fault := by
  rw [evaluate, failed]
  rfl

theorem evaluate_polish (expr : Expr) (covers : valuation.Covers expr.occurrences) :
    evaluate expr.polish valuation = .ok (expr.eval valuation.holds) :=
  evaluate_of_run (run_polish expr [] covers)

/-- A sequence with a value has one letter more than it has binary operators, and no parenthesis. -/
theorem evaluate_height {polish : Polish} {value : Bool}
    (valued : evaluate polish valuation = .ok value) :
    Token.operands polish = Token.joints polish + 1 ∧ .opening ∉ polish ∧ .closing ∉ polish := by
  cases done : run valuation [] polish with
  | error fault => rw [evaluate_of_fault done] at valued; cases valued
  | ok stack =>
      rw [evaluate_of_run done] at valued
      obtain ⟨height, noParentheses⟩ := run_height done
      rw [outcome_ok valued, List.length_singleton, List.length_nil, Nat.zero_add] at height
      exact ⟨by omega, noParentheses⟩

theorem evaluate_fault {polish : Polish} {fault : Fault}
    (failed : evaluate polish valuation = .error fault) :
    (∃ letter, .atom letter ∈ polish ∧ letter ∉ valuation.letters ∧ fault = .unassigned letter) ∨
      ∃ cause, fault = .malformed cause := by
  cases done : run valuation [] polish with
  | error first =>
      rw [evaluate_of_fault done] at failed
      cases failed
      rcases run_fault done with unassigned | ⟨token, unbalanced | missing⟩
      · exact Or.inl unassigned
      · exact Or.inr ⟨_, unbalanced⟩
      · exact Or.inr ⟨_, missing⟩
  | ok stack => rw [evaluate_of_run done] at failed; exact Or.inr (outcome_fault failed)

end Evaluation

end PrincipalForm
