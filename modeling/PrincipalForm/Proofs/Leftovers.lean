import PrincipalForm.Proofs.Admission

/-!
What a run leaves on the stack. An operator that takes values away puts one in their place, so a stack
with a value keeps one, and nothing is left only where there was nothing to evaluate. Each operand of a
text calls for an operator beside it, which normalising supplies if the text does not; so of a text, however
malformed, no operand is left over.
-/

namespace PrincipalForm

/-- What is wrong only with the stack that a whole run leaves. -/
def Malformation.isFinal : Malformation → Bool
  | .noValue | .leftover _ => true
  | .missingOperand _ | .unbalanced _ => false

namespace Evaluation

variable {valuation : Valuation} {stack after : List Bool} {token : Token} {polish : Polish}
  {cause : Malformation}

theorem step_ne_nil (moved : step valuation stack token = .ok after) : after ≠ [] := by
  cases moves_of_step moved with
  | atom | neg | conj | disj => exact List.cons_ne_nil _ _

theorem run_ne_nil (done : run valuation stack polish = .ok after)
    (filled : stack ≠ [] ∨ polish ≠ []) : after ≠ [] := by
  induction polish generalizing stack with
  | nil =>
      cases done
      exact filled.resolve_right fun nonempty => nonempty rfl
  | cons token rest ih =>
      obtain ⟨next, moved, later⟩ := exists_step_of_run done
      exact ih later (Or.inl (step_ne_nil moved))

theorem run_not_final (failed : run valuation stack polish = .error (.malformed cause)) :
    cause.isFinal = false := by
  rcases run_fault failed with ⟨letter, _, _, unassigned⟩ | ⟨token, unbalanced | missing⟩
  · cases unassigned
  · cases unbalanced
    rfl
  · cases missing
    rfl

/-- What is wrong with the stack that is left shows only once the run has come to its end. -/
theorem run_of_final (failed : evaluate polish valuation = .error (.malformed cause))
    (final : cause.isFinal = true) :
    ∃ left, run valuation [] polish = .ok left ∧ outcome left = .error (.malformed cause) := by
  cases done : run valuation [] polish with
  | error fault =>
      rw [evaluate_of_fault done] at failed
      cases failed
      rw [run_not_final done] at final
      cases final
  | ok left => exact ⟨left, rfl, (evaluate_of_run done).symm.trans failed⟩

theorem length_of_leftover {count : Nat}
    (surplus : outcome stack = .error (.malformed (.leftover count))) :
    stack.length = count ∧ 2 ≤ count := by
  unfold outcome at surplus
  split at surplus
  · cases surplus
  · cases surplus
  next notSingle notEmpty =>
    cases surplus
    refine ⟨rfl, ?_⟩
    match stack, notSingle, notEmpty with
    | [], _, notEmpty => exact absurd rfl notEmpty
    | [value], notSingle, _ => exact absurd rfl (notSingle value)
    | _ :: _ :: below, _, _ => exact Nat.le_add_left 2 below.length

theorem eq_nil_of_noValue (lacking : outcome stack = .error (.malformed .noValue)) : stack = [] := by
  unfold outcome at lacking
  split at lacking
  · cases lacking
  · rfl
  · cases lacking

theorem operands_of_leftover {count : Nat}
    (surplus : evaluate polish valuation = .error (.malformed (.leftover count))) :
    count + Token.joints polish = Token.operands polish ∧ 2 ≤ count := by
  obtain ⟨left, done, outcome⟩ := run_of_final surplus rfl
  obtain ⟨size, several⟩ := length_of_leftover outcome
  have height := (run_height done).1
  rw [size, List.length_nil, Nat.zero_add] at height
  exact ⟨height, several⟩

theorem evaluate_noValue_iff :
    evaluate polish valuation = .error (.malformed .noValue) ↔ polish = [] := by
  constructor
  · intro lacking
    obtain ⟨left, done, outcome⟩ := run_of_final lacking rfl
    by_contra filled
    exact run_ne_nil done (Or.inr filled) (eq_nil_of_noValue outcome)
  · rintro rfl
    rfl

end Evaluation

namespace Polish

theorem operands_arrange (tokens : List Token) :
    Token.operands (arrange tokens) = Token.operands tokens :=
  countP_arrange tokens Token.isAtom rfl rfl

theorem joints_arrange (tokens : List Token) :
    Token.joints (arrange tokens) = Token.joints tokens :=
  countP_arrange tokens Token.isJoint rfl rfl

end Polish

/-- The normal form of any text has at most one letter more than it has binary operators. So under no
valuation is an operand of it left over, and it has no value for want of one only if there is nothing of
it to evaluate. -/
theorem operands_all_joined {text : Text} {normal : List Token} (normalized : normalize text = .ok normal) :
    Token.operands normal ≤ Token.joints normal + 1 ∧
      ∀ valuation : Valuation,
        (∀ count, evaluate (Polish.arrange normal) valuation ≠ .error (.malformed (.leftover count))) ∧
        (evaluate (Polish.arrange normal) valuation = .error (.malformed .noValue) ↔
          Polish.arrange normal = []) := by
  obtain ⟨_, rfl⟩ := (normalize_eq_ok_iff text normal).mp normalized
  have joined : Token.operands (Normal.spell [] (Token.read text)) ≤
      Token.joints (Normal.spell [] (Token.read text)) + 1 := by
    have missing := Token.gaps_of_spell (Token.read text)
    omega
  refine ⟨joined, fun valuation => ⟨fun count surplus => ?_, Evaluation.evaluate_noValue_iff⟩⟩
  obtain ⟨height, several⟩ := Evaluation.operands_of_leftover surplus
  rw [Polish.operands_arrange, Polish.joints_arrange] at height
  omega

/-- Two letters side by side would leave one operand too many. In `)a(b!!c` conjunctions join the letters,
across the parentheses as across the negations that cancel, and of `!!` nothing is left to evaluate. -/
theorem operands_joined_of_malformed :
    evaluate (Polish.arrange [.atom .a, .atom .b]) (.ofPairs [(.a, true), (.b, true)]) =
        .error (.malformed (.leftover 2)) ∧
      (∃ normal, normalize [')', 'a', '(', 'b', '!', '!', 'c'] = .ok normal ∧
        Token.operands normal ≤ Token.joints normal + 1 ∧
        ∀ valuation count,
          evaluate (Polish.arrange normal) valuation ≠ .error (.malformed (.leftover count))) ∧
      ∃ normal, normalize ['!', '!'] = .ok normal ∧
        evaluate (Polish.arrange normal) .empty = .error (.malformed .noValue) := by
  have mixed : normalize [')', 'a', '(', 'b', '!', '!', 'c'] =
      .ok [.closing, .conj, .atom .a, .conj, .opening, .atom .b, .conj, .atom .c] := by
    decide
  have cancelled : normalize ['!', '!'] = .ok [] := rfl
  obtain ⟨joined, values⟩ := operands_all_joined mixed
  refine ⟨by decide, ⟨_, mixed, joined, fun valuation => (values valuation).1⟩, _, cancelled, ?_⟩
  exact ((operands_all_joined cancelled).2 .empty).2.mpr rfl

end PrincipalForm
