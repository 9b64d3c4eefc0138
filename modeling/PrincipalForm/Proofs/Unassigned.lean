import PrincipalForm.Proofs.Faults

/-!
Which letter a partial valuation is blamed for. The postorder of a tree names the letters in the order of
the text, and no operand is passed over, so evaluation stops at the first letter without a value, whatever
the letters before it may have decided.
-/

namespace PrincipalForm

namespace Valuation

def missing? (valuation : Valuation) (letters : List Letter) : Option Letter :=
  letters.find? fun letter => decide (letter ∉ valuation.letters)

variable {valuation : Valuation} {letters : List Letter}

theorem missing?_eq_none_iff : valuation.missing? letters = none ↔ valuation.Covers letters := by
  rw [missing?, List.find?_eq_none]
  apply forall₂_congr
  intro letter _
  rw [decide_eq_true_eq, not_not]

theorem not_mem_of_missing {letter : Letter} (missing : valuation.missing? letters = some letter) :
    letter ∉ valuation.letters := by
  rw [missing?] at missing
  simpa using List.find?_some missing

theorem missing?_append (valuation : Valuation) (before after : List Letter) :
    valuation.missing? (before ++ after) =
      (valuation.missing? before).or (valuation.missing? after) :=
  List.find?_append

end Valuation

namespace Evaluation

variable {valuation : Valuation}

theorem run_append_error {stack : List Bool} {before : Polish} {fault : Fault} (after : Polish)
    (failed : run valuation stack before = .error fault) :
    run valuation stack (before ++ after) = .error fault := by
  induction before generalizing stack with
  | nil => cases failed
  | cons token rest ih =>
      cases moved : step valuation stack token with
      | error first =>
          rw [run_cons_error rest moved] at failed
          rw [List.cons_append, run_cons_error (rest ++ after) moved, failed]
      | ok next =>
          rw [run_cons rest moved] at failed
          rw [List.cons_append, run_cons (rest ++ after) moved, ih failed]

theorem run_polish_of_missing (expr : Expr) (stack : List Bool) {letter : Letter}
    (missing : valuation.missing? expr.occurrences = some letter) :
    run valuation stack expr.polish = .error (.unassigned letter) := by
  induction expr generalizing stack with
  | atom other =>
      have absent := (valuation.get?_eq_none_iff letter).mpr (Valuation.not_mem_of_missing missing)
      obtain rfl : letter = other := List.mem_singleton.mp (List.mem_of_find?_eq_some missing)
      have failed : step valuation stack (.atom letter) = .error (.unassigned letter) := by
        simp only [step, absent]
      exact run_cons_error [] failed
  | neg operand ih => exact run_append_error [.neg] (ih stack missing)
  | conj left right ihLeft ihRight | disj left right ihLeft ihRight =>
      rw [Expr.occurrences, Valuation.missing?_append] at missing
      rw [Expr.polish, List.append_assoc]
      cases earlier : valuation.missing? left.occurrences with
      | some first =>
          rw [earlier] at missing
          cases missing
          exact run_append_error _ (ihLeft stack earlier)
      | none =>
          -- the left operand has a value, and yet the right one is evaluated
          rw [earlier, Option.none_or] at missing
          rw [run_append _ (run_polish left stack (Valuation.missing?_eq_none_iff.mp earlier))]
          exact run_append_error _ (ihRight _ missing)

theorem evaluate_of_missing (expr : Expr) {letter : Letter}
    (missing : valuation.missing? expr.occurrences = some letter) :
    evaluate expr.polish valuation = .error (.unassigned letter) :=
  evaluate_of_fault (run_polish_of_missing expr [] missing)

end Evaluation

/-- The first letter missed in a text stands behind letters of which none is missed. -/
theorem Text.split_of_missing {text : Text} {valuation : Valuation} {letter : Letter}
    (missing : valuation.missing? (text.filterMap Letter.ofChar?) = some letter) :
    ∃ before after, text = before ++ letter.name :: after ∧
      ∀ earlier : Letter, earlier.name ∈ before → earlier ∈ valuation.letters := by
  rw [Valuation.missing?, List.find?_filterMap, Option.bind_eq_some_iff] at missing
  obtain ⟨c, found, named⟩ := missing
  obtain rfl := (Letter.ofChar?_eq_some_iff c letter).mp named
  obtain ⟨_, before, after, split, passed⟩ := List.find?_eq_some_iff_append.mp found
  refine ⟨before, after, split, fun earlier member => ?_⟩
  have known := passed earlier.name member
  rw [(Letter.ofChar?_eq_some_iff _ earlier).mpr rfl] at known
  simpa using known

namespace Reads

variable {text : Text} {expr : Expr} {valuation : Valuation}

theorem occurrences_eq (reads : Reads text expr) :
    expr.occurrences = text.filterMap Letter.ofChar? :=
  reads.derives.occurrences.trans (Token.letters_read text)

theorem evaluate_of_missing (reads : Reads text expr) {letter : Letter}
    (missing : valuation.missing? (text.filterMap Letter.ofChar?) = some letter) :
    PrincipalForm.evaluate text.polish valuation = .error (.unassigned letter) := by
  obtain ⟨tree, order, alike⟩ := Text.polish_of_derives reads.derives
  rw [order]
  apply Evaluation.evaluate_of_missing
  rw [alike.occurrences, reads.occurrences_eq, missing]

end Reads

/-- A formula that the grammar generates has the value of its tree under a valuation of all its letters.
Under any other valuation it is refused for the letter of the leftmost place in the text at which there
is a letter without a value, whatever the formula was asked before. -/
theorem first_missing_is_named {text : Text} {expr : Expr} (reads : Reads text expr) :
    ∃ formula, Formula.ofText text = .ok formula ∧
      ∀ (calls : List Question) (valuation : Valuation),
        ((∀ letter : Letter, letter.name ∈ text → letter ∈ valuation.letters) →
          (Request.evaluate valuation (formula.after calls)).answer = .ok (expr.eval valuation.holds)) ∧
        ((∃ letter : Letter, letter.name ∈ text ∧ letter ∉ valuation.letters) →
          ∃ (before after : Text) (letter : Letter), text = before ++ letter.name :: after ∧
            (∀ earlier : Letter, earlier.name ∈ before → earlier ∈ valuation.letters) ∧
            letter ∉ valuation.letters ∧
            (Request.evaluate valuation (formula.after calls)).answer = .error (.unassigned letter)) := by
  have admissible := reads.admissible
  have admitted := admissible.ofText_eq
  refine ⟨.reaching text 0, admitted, fun calls valuation => ?_⟩
  rw [(Request.meets_evaluate valuation).answer_after admissible, admissible.polish_eq]
  constructor
  · intro assigned
    apply reads.evaluate
    intro letter listed
    have occurs := (Letter.mem_roster_iff text letter).mp listed
    exact assigned letter ((Letter.mem_filterMap_ofChar?_iff text letter).mp occurs)
  · rintro ⟨lacking, occurs, absent⟩
    cases missing : valuation.missing? (text.filterMap Letter.ofChar?) with
    | none =>
        have covers := Valuation.missing?_eq_none_iff.mp missing
        exact absurd (covers lacking ((Letter.mem_filterMap_ofChar?_iff text lacking).mpr occurs)) absent
    | some letter =>
        obtain ⟨before, after, split, passed⟩ := Text.split_of_missing missing
        exact ⟨before, after, letter, split, passed, Valuation.not_mem_of_missing missing,
          reads.evaluate_of_missing missing⟩

/-- In `b !c+a` where `a` is true the sum is true whatever the other letters are, and yet it is refused for
`b`, the first of them. Where all three have values it has one. -/
theorem first_missing_in_decided_sum :
    ∃ formula, Formula.ofText ['b', ' ', '!', 'c', '+', 'a'] = .ok formula ∧
      (Request.evaluate (.ofPairs [(.a, true)]) (formula.after [.table])).answer =
        .error (.unassigned .b) ∧
      (Request.evaluate (.ofPairs [(.a, false), (.b, true), (.c, false)])
        (formula.after [.table])).answer = .ok true := by
  have reads : Reads ['b', ' ', '!', 'c', '+', 'a']
      (.disj (.conj (.atom .b) (.neg (.atom .c))) (.atom .a)) :=
    ⟨_, by decide, .sum (.term (.adjacent rfl (.factor (.letter .b)) (.negation (.letter .c))))
      (.factor (.letter .a))⟩
  obtain ⟨formula, admitted, answers⟩ := first_missing_is_named reads
  refine ⟨formula, admitted, ?_, ?_⟩
  · obtain ⟨before, after, letter, split, passed, _, refused⟩ :=
      (answers [.table] (.ofPairs [(.a, true)])).2 ⟨.b, by decide, by decide⟩
    cases before with
    | nil =>
        have same : letter = .b := Letter.eq_of_name (List.cons.inj split).1.symm
        exact same ▸ refused
    | cons first rest =>
        have found : Letter.b.name = first := (List.cons.inj split).1
        exact absurd (passed .b (found ▸ List.mem_cons_self)) (by decide)
  · apply (answers [.table] _).1
    have letters : ∀ letter ∈ Letter.roster ['b', ' ', '!', 'c', '+', 'a'],
        letter ∈ (Valuation.ofPairs [(.a, false), (.b, true), (.c, false)]).letters := by
      decide
    intro letter occurs
    apply letters
    rw [Letter.mem_roster_iff, Letter.mem_filterMap_ofChar?_iff]
    exact occurs

end PrincipalForm
