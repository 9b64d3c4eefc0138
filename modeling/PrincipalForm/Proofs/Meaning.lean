import PrincipalForm.Proofs.Coherence

/-!
The meaning of a text. A text that the grammar generates is given the value of its tree, whatever its
spaces, groups, runs of negations and unwritten conjunctions. A text that it does not generate is
given no value: what is missing in it is missing from its Polish sequence too.
-/

namespace PrincipalForm

def Text.polish (text : Text) : Polish := Polish.arrange (Normal.spell [] (Token.read text))

namespace Derives

variable {style : Style} {phrase : Phrase} {tokens : List Token} {expr : Expr}

theorem occurrences (derives : Derives style phrase tokens expr) :
    expr.occurrences = tokens.filterMap Token.letter? := by
  induction derives with
  | letter letter => rfl
  | negation operand ih => exact ih
  | factor only ih => exact ih
  | term only ih => exact ih
  | group inner ih => simp [ih, List.filterMap_cons, Token.letter?]
  | product first last ihFirst ihLast =>
      simp [Expr.occurrences, ihFirst, ihLast, List.filterMap_cons, Token.letter?]
  | adjacent allowed first last ihFirst ihLast => simp [Expr.occurrences, ihFirst, ihLast]
  | sum first last ihFirst ihLast =>
      simp [Expr.occurrences, ihFirst, ihLast, List.filterMap_cons, Token.letter?]

end Derives

theorem Expr.occurrences_ne_nil (expr : Expr) : expr.occurrences ≠ [] := by
  induction expr with
  | atom letter => exact List.cons_ne_nil letter []
  | neg operand ih => exact ih
  | conj left right ih _ => exact List.append_ne_nil_of_left_ne_nil ih _
  | disj left right ih _ => exact List.append_ne_nil_of_left_ne_nil ih _

namespace Token

theorem letters_filter (tokens : List Token) :
    (tokens.filter isAtom).filterMap letter? = tokens.filterMap letter? := by
  rw [List.filterMap_filter]
  refine congrArg (tokens.filterMap ·) (funext fun token => ?_)
  cases token <;> rfl

theorem letters_spell (tokens : List Token) :
    (Normal.spell [] tokens).filterMap letter? = tokens.filterMap letter? := by
  rw [← letters_filter, Normal.filter_spell isAtom rfl, Phases.filter_conjoin isAtom rfl,
    letters_filter]

end Token

namespace Text

theorem letters_polish (text : Text) :
    text.polish.filterMap Token.letter? = text.filterMap Letter.ofChar? := by
  rw [polish, Polish.letters_arrange, Token.letters_spell, Token.letters_read]

theorem mem_roster_of_atom {text : Text} {letter : Letter} (member : .atom letter ∈ text.polish) :
    letter ∈ Letter.roster text := by
  rw [Letter.mem_roster_iff, ← letters_polish]
  exact List.mem_filterMap.mpr ⟨.atom letter, member, rfl⟩

theorem polish_of_derives {text : Text} {expr : Expr}
    (derives : Derives .written .sum (Token.read text) expr) :
    ∃ tree : Expr, text.polish = tree.polish ∧ tree.Alike expr := by
  obtain ⟨tree, normal, alike⟩ := derives.spell
  exact ⟨tree, normal.arrange_eq_polish, alike⟩

theorem evaluate_polish {text : Text} {expr : Expr} {valuation : Valuation}
    (derives : Derives .written .sum (Token.read text) expr)
    (covers : valuation.Covers expr.occurrences) :
    evaluate text.polish valuation = .ok (expr.eval valuation.holds) := by
  obtain ⟨tree, order, alike⟩ := polish_of_derives derives
  rw [← alike.occurrences] at covers
  rw [order, Evaluation.evaluate_polish tree covers, alike.eval]

end Text

theorem Text.Admissible.normal_eq {text : Text} (admissible : text.Admissible) :
    Direct.normal text = .ok (Normal.spell [] (Token.read text)) :=
  admissible.normalize_eq

theorem Text.Admissible.polish_eq {text : Text} (admissible : text.Admissible) :
    Direct.polish text = .ok text.polish := by
  rw [Direct.polish, admissible.normal_eq]
  rfl

theorem Formula.Coherent.answer_evaluate {formula : Formula} (coherent : formula.Coherent)
    (valuation : Valuation) :
    (Request.evaluate valuation formula).answer = evaluate formula.origin.polish valuation := by
  have answered := (Request.meets_evaluate valuation formula coherent trivial).1
  simp only [coherent.admissible.polish_eq] at answered
  exact answered

theorem Text.Admissible.evaluate_onText {text : Text} (admissible : text.Admissible)
    (valuation : Valuation) :
    (Request.evaluate valuation).onText text = evaluate text.polish valuation := by
  rw [(Request.meets_evaluate valuation).onText_eq admissible, admissible.polish_eq]
  rfl

theorem Token.read_filter (text : Text) : read (text.filter (· ≠ ' ')) = read text := by
  rw [read, List.filterMap_filter, read]
  refine congrArg (text.filterMap ·) (funext fun c => ?_)
  by_cases blank : c = ' '
  · rw [blank]
    rfl
  · simp [blank]

/-- The tokens of a text that reads as a tree are legal, and are the ones that are read. -/
theorem reads_iff (text : Text) (expr : Expr) :
    Reads text expr ↔
      text.all Alphabet.legal = true ∧ Derives .written .sum (Token.read text) expr := by
  constructor
  · rintro ⟨tokens, written, derives⟩
    have legal : ∀ c ∈ text.filter (· ≠ ' '), Alphabet.legal c = true := by
      rw [← written]
      exact List.all_eq_true.mp (Token.legal_write tokens)
    refine ⟨List.all_eq_true.mpr fun c member => ?_, ?_⟩
    · by_cases blank : c = ' '
      · rw [blank]
        rfl
      · exact legal c (List.mem_filter.mpr ⟨member, decide_eq_true blank⟩)
    · rwa [← Token.read_filter, ← written, Token.read_write]
  · rintro ⟨legal, derives⟩
    exact ⟨_, Token.write_read text legal, derives⟩

theorem Reads.legal {text : Text} {expr : Expr} (reads : Reads text expr) :
    text.all Alphabet.legal = true := ((reads_iff text expr).mp reads).1

theorem Reads.derives {text : Text} {expr : Expr} (reads : Reads text expr) :
    Derives .written .sum (Token.read text) expr := ((reads_iff text expr).mp reads).2

theorem Reads.admissible {text : Text} {expr : Expr} (reads : Reads text expr) :
    text.Admissible := by
  refine ⟨reads.legal, ?_⟩
  cases blank : text.all (· = ' ') with
  | false => rfl
  | true =>
      obtain ⟨first, head, _⟩ := reads.derives.starts
      rw [(Token.read_eq_nil_iff text reads.legal).mpr blank] at head
      cases head

theorem Reads.mem_roster_iff {text : Text} {expr : Expr} (reads : Reads text expr)
    (letter : Letter) : letter ∈ Letter.roster text ↔ letter ∈ expr.occurrences := by
  rw [Letter.mem_roster_iff, reads.derives.occurrences, Token.letters_read]

theorem Reads.roster_ne_nil {text : Text} {expr : Expr} (reads : Reads text expr) :
    Letter.roster text ≠ [] := by
  obtain ⟨letter, occurs⟩ := List.exists_mem_of_ne_nil _ expr.occurrences_ne_nil
  exact List.ne_nil_of_mem ((reads.mem_roster_iff letter).mpr occurs)

theorem Reads.evaluate {text : Text} {expr : Expr} {valuation : Valuation}
    (reads : Reads text expr) (covers : valuation.Covers (Letter.roster text)) :
    PrincipalForm.evaluate text.polish valuation = .ok (expr.eval valuation.holds) := by
  apply Text.evaluate_polish reads.derives
  intro letter occurs
  exact covers letter ((reads.mem_roster_iff letter).mpr occurs)

/-- A text that the grammar generates is admitted, and under a valuation that gives values to its letters
it has the value of its tree, from the formula as from the stages one after another. -/
theorem value_of_reads {text : Text} {expr : Expr} {valuation : Valuation} {value : Letter → Bool}
    (reads : Reads text expr)
    (given : ∀ letter ∈ expr.occurrences, (letter, value letter) ∈ valuation.entries) :
    ∃ formula, Formula.ofText text = .ok formula ∧
      (Request.evaluate valuation formula).answer = .ok (expr.eval value) ∧
      (do let normal ← normalize text
          evaluate (Polish.arrange normal) valuation) = .ok (expr.eval value) := by
  have admitted := reads.admissible.ofText_eq
  have covers : valuation.Covers expr.occurrences := fun letter occurs =>
    List.mem_map_of_mem (given letter occurs)
  have valued := Text.evaluate_polish reads.derives covers
  have same : expr.eval valuation.holds = expr.eval value := expr.eval_congr _ _ fun letter occurs =>
    Valuation.holds_of_get? ((valuation.get?_eq_some_iff letter _).mpr (given letter occurs))
  rw [same] at valued
  refine ⟨_, admitted, ?_, ?_⟩
  · rw [(Formula.Coherent.ofText admitted).answer_evaluate, valued]
  · rw [reads.admissible.normalize_eq]
    exact valued

/-- The text `!!a !(b+!c)` where `b` alone is false. -/
theorem value_of_negated_group :
    Reads ['!', '!', 'a', ' ', '!', '(', 'b', '+', '!', 'c', ')']
        (.conj (.neg (.neg (.atom .a))) (.neg (.disj (.atom .b) (.neg (.atom .c))))) ∧
      (∀ letter ∈ [Letter.a, .b, .c], (letter, decide (letter ≠ .b)) ∈
        (Valuation.ofPairs [(.a, true), (.b, false), (.c, true)]).entries) ∧
      ∃ formula, Formula.ofText ['!', '!', 'a', ' ', '!', '(', 'b', '+', '!', 'c', ')'] = .ok formula ∧
        (Request.evaluate (.ofPairs [(.a, true), (.b, false), (.c, true)]) formula).answer = .ok true ∧
        (do let normal ← normalize ['!', '!', 'a', ' ', '!', '(', 'b', '+', '!', 'c', ')']
            evaluate (Polish.arrange normal) (.ofPairs [(.a, true), (.b, false), (.c, true)])) =
          .ok true := by
  have reads : Reads ['!', '!', 'a', ' ', '!', '(', 'b', '+', '!', 'c', ')']
      (.conj (.neg (.neg (.atom .a))) (.neg (.disj (.atom .b) (.neg (.atom .c))))) :=
    ⟨_, by decide, .term (.adjacent rfl (.factor (.negation (.negation (.letter .a))))
      (.negation (.group (.sum (.term (.factor (.letter .b))) (.factor (.negation (.letter .c)))))))⟩
  have given : ∀ letter ∈ [Letter.a, .b, .c], (letter, decide (letter ≠ .b)) ∈
      (Valuation.ofPairs [(.a, true), (.b, false), (.c, true)]).entries := by
    decide
  exact ⟨reads, given, value_of_reads reads given⟩

theorem Text.malformed_of_fault {text : Text} {valuation : Valuation} {fault : Fault}
    (covers : valuation.Covers (Letter.roster text))
    (failed : evaluate text.polish valuation = .error fault) :
    ∃ cause, fault = .malformed cause := by
  rcases Evaluation.evaluate_fault failed with ⟨letter, member, absent, _⟩ | malformed
  · exact absurd (covers letter (Text.mem_roster_of_atom member)) absent
  · exact malformed

/-- Under a valuation of all its letters a text of the alphabet has a value exactly if the grammar
generates it, and is malformed otherwise. -/
theorem value_iff_reads {text : Text} {valuation : Valuation}
    (legal : text.all Alphabet.legal = true) (filled : ∃ c ∈ text, c ≠ ' ')
    (covers : valuation.Covers (Letter.roster text)) :
    ((∃ value, (Request.evaluate valuation).onText text = .ok value) ↔ ∃ expr, Reads text expr) ∧
      ((¬ ∃ expr, Reads text expr) →
        ∃ cause, (Request.evaluate valuation).onText text = .error (.malformed cause)) := by
  have admissible := Text.Admissible.of_exists legal filled
  rw [admissible.evaluate_onText valuation]
  have accepted : ∀ value, evaluate text.polish valuation = .ok value → ∃ expr, Reads text expr := by
    intro value valued
    obtain ⟨expr, derives⟩ := Recognition.exists_derives_of_evaluate valued
    exact ⟨expr, (reads_iff text expr).mpr ⟨legal, derives⟩⟩
  constructor
  · constructor
    · rintro ⟨value, valued⟩
      exact accepted value valued
    · rintro ⟨expr, reads⟩
      exact ⟨_, reads.evaluate covers⟩
  · -- no letter is unassigned, so the fault can only be a malformation
    intro ungrammatical
    cases outcome : evaluate text.polish valuation with
    | ok value => exact absurd (accepted value outcome) ungrammatical
    | error fault =>
        obtain ⟨cause, same⟩ := Text.malformed_of_fault covers outcome
        exact ⟨cause, congrArg Except.error same⟩

/-- In `(a+)!!b` the sum lacks an operand, though a letter follows the pair of negations. In `(a+!!b)` it
has one. -/
theorem values_of_open_and_closed_sum :
    (Valuation.ofPairs [(.a, true), (.b, true)]).Covers
        (Letter.roster ['(', 'a', '+', ')', '!', '!', 'b']) ∧
      (¬ ∃ expr, Reads ['(', 'a', '+', ')', '!', '!', 'b'] expr) ∧
      (∃ cause, (Request.evaluate (.ofPairs [(.a, true), (.b, true)])).onText
        ['(', 'a', '+', ')', '!', '!', 'b'] = .error (.malformed cause)) ∧
      (Valuation.ofPairs [(.a, true), (.b, true)]).Covers
        (Letter.roster ['(', 'a', '+', '!', '!', 'b', ')']) ∧
      (∃ expr, Reads ['(', 'a', '+', '!', '!', 'b', ')'] expr) ∧
      ∃ value, (Request.evaluate (.ofPairs [(.a, true), (.b, true)])).onText
        ['(', 'a', '+', '!', '!', 'b', ')'] = .ok value := by
  have covers : (Valuation.ofPairs [(.a, true), (.b, true)]).Covers
      (Letter.roster ['(', 'a', '+', ')', '!', '!', 'b']) := by
    unfold Valuation.Covers
    decide
  have coversToo : (Valuation.ofPairs [(.a, true), (.b, true)]).Covers
      (Letter.roster ['(', 'a', '+', '!', '!', 'b', ')']) := by
    unfold Valuation.Covers
    decide
  have unvalued : ¬ ∃ value, (Request.evaluate (.ofPairs [(.a, true), (.b, true)])).onText
      ['(', 'a', '+', ')', '!', '!', 'b'] = .ok value := by
    decide
  have reads : ∃ expr, Reads ['(', 'a', '+', '!', '!', 'b', ')'] expr :=
    ⟨_, _, by decide, .term (.factor (.group (.sum (.term (.factor (.letter .a)))
      (.factor (.negation (.negation (.letter .b)))))))⟩
  obtain ⟨accepted, refused⟩ := value_iff_reads (by decide) ⟨'a', by decide, by decide⟩ covers
  obtain ⟨valued, _⟩ := value_iff_reads (by decide) ⟨'a', by decide, by decide⟩ coversToo
  have ungrammatical := fun reads => unvalued (accepted.mpr reads)
  exact ⟨covers, ungrammatical, refused ungrammatical, coversToo, reads, valued.mpr reads⟩

end PrincipalForm
