import Mathlib.Data.Finset.Card
import PrincipalForm.Proofs.Membership

/-!
Formulas put together from others. In parentheses a text keeps its tree wherever it is put, so the
expansion of a sum, product or negation of groups is decided minterm by minterm by those of the groups.
A part may name fewer letters than the whole; of a valuation of the whole it sees those it names.
-/

namespace PrincipalForm

def Text.grouped (text : Text) : Text := '(' :: text ++ [')']

theorem Token.read_append (before after : Text) :
    read (before ++ after) = read before ++ read after := List.filterMap_append

namespace Valuation

def restrict (valuation : Valuation) (letters : List Letter) : Valuation :=
  ⟨valuation.entries.filter fun entry => entry.1 ∈ letters, valuation.sorted.filter _⟩

variable {valuation : Valuation} {letters : List Letter}

theorem letters_restrict (sorted : Ascending.Sorted id letters)
    (named : ∀ letter ∈ letters, letter ∈ valuation.letters) :
    (valuation.restrict letters).letters = letters := by
  apply Ascending.eq_of_mem_iff (letters_sorted _) sorted
  intro letter
  have kept : (valuation.restrict letters).letters =
      valuation.letters.filter fun letter => letter ∈ letters := by
    rw [Valuation.letters, Valuation.letters, List.filter_map]
    rfl
  rw [kept, List.mem_filter, decide_eq_true_eq]
  exact and_iff_right_of_imp (named letter)

theorem holds_restrict {letter : Letter} (member : letter ∈ letters) :
    (valuation.restrict letters).holds letter = valuation.holds letter := by
  rw [Bool.eq_iff_iff, holds, holds, decide_eq_true_eq, decide_eq_true_eq, restrict, List.mem_filter,
    decide_eq_true_eq]
  exact and_iff_left member

end Valuation

namespace Letter

theorem length_roster {text : Text} {letters : Finset Letter}
    (named : ∀ letter, letter ∈ roster text ↔ letter ∈ letters) :
    (roster text).length = letters.card := by
  have same : (roster text).toFinset = letters := by
    ext letter
    rw [List.mem_toFinset, named]
  rw [← same, List.toFinset_card_of_nodup (nodup_roster text)]

end Letter

namespace Reads

variable {text other : Text} {expr tree : Expr}

theorem eval_restrict (reads : Reads text expr) (valuation : Valuation) :
    expr.eval (valuation.restrict (Letter.roster text)).holds = expr.eval valuation.holds := by
  apply expr.eval_congr
  intro letter occurs
  rw [Valuation.holds_restrict ((reads.mem_roster_iff letter).mpr occurs)]

theorem legal_grouped (reads : Reads text expr) : text.grouped.all Alphabet.legal = true := by
  have legal := reads.legal
  simp only [Text.grouped, List.cons_append, List.all_cons, List.all_append, legal]
  decide

theorem grouped (reads : Reads text expr) :
    Derives .written .factor (Token.read text.grouped) expr := by
  have read : Token.read text.grouped = .opening :: Token.read text ++ [.closing] :=
    Token.read_append ('(' :: text) [')']
  rw [read]
  exact .group reads.derives

theorem negation (reads : Reads text expr) : Reads ('!' :: text.grouped) (.neg expr) := by
  refine (reads_iff _ _).mpr ⟨?_, .term (.factor (.negation reads.grouped))⟩
  rw [List.all_cons, reads.legal_grouped]
  rfl

/-- Two groups and what stands between them read as what the grammar makes of the three. -/
theorem joined (first : Reads text expr) (second : Reads other tree) (between : Text)
    (legal : between.all Alphabet.legal = true) {joined : Expr}
    (derives : Derives .written .sum
      (Token.read text.grouped ++ (Token.read between ++ Token.read other.grouped)) joined) :
    Reads (text.grouped ++ (between ++ other.grouped)) joined := by
  rw [reads_iff]
  constructor
  · rw [List.all_append, List.all_append, first.legal_grouped, legal, second.legal_grouped]
    rfl
  · rw [Token.read_append, Token.read_append]
    exact derives

theorem sum (first : Reads text expr) (second : Reads other tree) :
    Reads (text.grouped ++ '+' :: other.grouped) (.disj expr tree) :=
  first.joined second ['+'] rfl (.sum (.term (.factor first.grouped)) (.factor second.grouped))

theorem product (first : Reads text expr) (second : Reads other tree) :
    Reads (text.grouped ++ '*' :: other.grouped) (.conj expr tree) :=
  first.joined second ['*'] rfl (.term (.product (.factor first.grouped) second.grouped))

theorem adjacent (first : Reads text expr) (second : Reads other tree) :
    Reads (text.grouped ++ other.grouped) (.conj expr tree) :=
  first.joined second [] rfl (.term (.adjacent rfl (.factor first.grouped) second.grouped))

end Reads

namespace Request

variable {Value : Type} {request : Request Value}

theorem admissible_of_onText {text : Text} {value : Value}
    (answered : request.onText text = .ok value) : text.Admissible := by
  obtain ⟨formula, admitted, _⟩ := Fault.bind_eq_ok_iff.mp answered
  exact ((Formula.ofText_eq_ok_iff text formula).mp admitted).1

theorem reads_of_expansion {text : Text} {given : Expansion}
    (compiled : expansion.onText text = .ok given) :
    (Letter.roster text).length ≤ letterLimit ∧
      ∃ expr, Reads text expr ∧ given.Expresses (Letter.roster text) expr := by
  rw [meets_expansion.onText_eq (admissible_of_onText compiled)] at compiled
  exact (Direct.expansion_eq_ok_iff text given).mp compiled

theorem onText_map {Next : Type} {text : Text} {value : Value}
    (answered : request.onText text = .ok value) (wrap : Value → Next) :
    (request >>= fun value => pure (wrap value)).onText text = .ok (wrap value) := by
  obtain ⟨formula, admitted, answer⟩ := Fault.bind_eq_ok_iff.mp answered
  exact Fault.bind_eq_ok_iff.mpr ⟨formula, admitted, answer_map answer wrap⟩

end Request

theorem Expansion.Expresses.restrict_mem_iff {text : Text} {expr : Expr} {given : Expansion}
    (expresses : given.Expresses (Letter.roster text) expr) (reads : Reads text expr)
    {valuation : Valuation} (named : ∀ letter ∈ Letter.roster text, letter ∈ valuation.letters) :
    Minterm.ofValuation (valuation.restrict (Letter.roster text)) ∈ given ↔
      expr.eval valuation.holds = true := by
  rw [expresses.mem_iff (Valuation.letters_restrict (Letter.roster_sorted text) named),
    reads.eval_restrict]

namespace Reads

variable {text other whole : Text} {expr tree joined : Expr}

theorem exists_expansion (reads : Reads text expr)
    (few : (Letter.roster text).length ≤ letterLimit) :
    ∃ given, Request.expansion.onText text = .ok given ∧
      given.Expresses (Letter.roster text) expr := by
  rw [Request.meets_expansion.onText_eq reads.admissible]
  exact reads.compiles few

theorem mem_roster_join (reads : Reads whole joined) (first : Reads text expr)
    (second : Reads other tree)
    (occurrences : joined.occurrences = expr.occurrences ++ tree.occurrences) (letter : Letter) :
    letter ∈ Letter.roster whole ↔ letter ∈ Letter.roster text ∨ letter ∈ Letter.roster other := by
  rw [reads.mem_roster_iff, first.mem_roster_iff, second.mem_roster_iff, occurrences, List.mem_append]

/-- A text put together compiles if its parts have few enough letters together, and its expansion holds
the minterms of the valuations that make its tree true. -/
theorem exists_expansion_join (reads : Reads whole joined) (first : Reads text expr)
    (second : Reads other tree)
    (occurrences : joined.occurrences = expr.occurrences ++ tree.occurrences)
    (few : ((Letter.roster text).toFinset ∪ (Letter.roster other).toFinset).card ≤ letterLimit) :
    ∃ given, Request.expansion.onText whole = .ok given ∧
      ∀ valuation : Valuation, (∀ letter, letter ∈ valuation.letters ↔
        letter ∈ Letter.roster text ∨ letter ∈ Letter.roster other) →
        (Minterm.ofValuation valuation ∈ given ↔ joined.eval valuation.holds = true) := by
  have named := reads.mem_roster_join first second occurrences
  -- a letter of both parts counts once, as it has one place in the roster of the whole
  have size : (Letter.roster whole).length =
      ((Letter.roster text).toFinset ∪ (Letter.roster other).toFinset).card := by
    apply Letter.length_roster
    intro letter
    rw [named, Finset.mem_union, List.mem_toFinset, List.mem_toFinset]
  obtain ⟨given, compiled, expresses⟩ := reads.exists_expansion (size ▸ few)
  refine ⟨given, compiled, ?_⟩
  intro valuation spans
  apply expresses.mem_iff
  apply Ascending.eq_of_mem_iff valuation.letters_sorted (Letter.roster_sorted whole)
  intro letter
  rw [spans, named]

theorem exists_expansion_negation (reads : Reads text expr)
    (few : (Letter.roster text).length ≤ letterLimit) :
    ∃ given, Request.expansion.onText ('!' :: text.grouped) = .ok given ∧
      given.Expresses (Letter.roster text) (.neg expr) := by
  have same : Letter.roster ('!' :: text.grouped) = Letter.roster text := by
    apply Ascending.eq_of_mem_iff (Letter.roster_sorted _) (Letter.roster_sorted text)
    intro letter
    rw [reads.negation.mem_roster_iff, reads.mem_roster_iff, Expr.occurrences]
  obtain ⟨given, compiled, expresses⟩ := reads.negation.exists_expansion (same.symm ▸ few)
  exact ⟨given, compiled, same ▸ expresses⟩

end Reads

theorem Expansion.Expresses.isContradiction_iff {given : Expansion} {letters : List Letter}
    {expr : Expr} (expresses : given.Expresses letters expr) :
    given.isContradiction = true ↔
      ∀ valuation : Valuation, valuation.letters = letters → expr.eval valuation.holds = false := by
  rw [Expansion.isContradiction_iff]
  constructor
  · intro never valuation ranged
    apply Bool.eq_false_of_not_eq_true
    intro holds
    exact never _ ((expresses.mem_iff ranged).mpr holds)
  · intro never minterm member
    obtain ⟨valuation, ranged, holds, _⟩ := (expresses minterm).mp member
    rw [never valuation ranged] at holds
    cases holds

theorem Reads.all_rows_iff {text : Text} {expr : Expr} {table : Table} (reads : Reads text expr)
    (generated : Table.generate (Letter.roster text) text.polish = .ok table) :
    table.rows.all Row.value = true ↔ ∀ valuation : Valuation,
      valuation.letters = Letter.roster text → expr.eval valuation.holds = true := by
  have rows := Table.mem_rows_iff generated (Letter.roster_sorted text)
  rw [List.all_eq_true]
  constructor
  · intro all valuation ranged
    apply all ⟨valuation, expr.eval valuation.holds⟩
    exact (rows _).mpr ⟨ranged, reads.evaluate (Valuation.covers_of_letters ranged)⟩
  · intro always row member
    obtain ⟨ranged, valued⟩ := (rows row).mp member
    rw [reads.evaluate (Valuation.covers_of_letters ranged), always row.valuation ranged] at valued
    exact (Except.ok.inj valued).symm

theorem Reads.tautology_onText {text : Text} {expr : Expr} (reads : Reads text expr)
    (few : (Letter.roster text).length ≤ letterLimit) {negation : Expansion}
    (expresses : negation.Expresses (Letter.roster text) (.neg expr)) :
    Request.tautology.onText text = .ok negation.isContradiction := by
  obtain ⟨given, compiled, _⟩ := reads.compiles few
  obtain ⟨table, tabulated, _⟩ := Fault.bind_eq_ok_iff.mp compiled
  obtain ⟨_, generated⟩ := (Direct.table_eq_ok_iff text table).mp tabulated
  have made : Request.table.onText text = .ok table :=
    (Request.meets_table.onText_eq reads.admissible).trans tabulated
  have verdict : Request.tautology.onText text =
      .ok (decide (table.trueRows.length = table.size)) :=
    Request.onText_map made fun rows => decide (rows.trueRows.length = rows.size)
  rw [verdict, Request.all_true, Except.ok.injEq, Bool.eq_iff_iff, reads.all_rows_iff generated,
    expresses.isContradiction_iff]
  simp only [Expr.eval, Bool.not_eq_eq_eq_not, Bool.not_false]

/-- What the expansions of texts put together in parentheses hold. Of a valuation of the letters of two
texts each sees its own part: their sum holds the valuation's minterm if either text holds that of its
part, and their product, with or without a sign, if both do. The negation of a text holds the minterms
that the text does not, so that a tautology is a text whose negation is a contradiction. -/
theorem expansion_of_groups {first : Text} {given : Expansion}
    (compiled : Request.expansion.onText first = .ok given) :
    (∀ (second : Text) (other : Expansion), Request.expansion.onText second = .ok other →
      ((Letter.roster first).toFinset ∪ (Letter.roster second).toFinset).card ≤ 10 →
      ∃ sum product adjacent : Expansion,
        Request.expansion.onText (first.grouped ++ '+' :: second.grouped) = .ok sum ∧
        Request.expansion.onText (first.grouped ++ '*' :: second.grouped) = .ok product ∧
        Request.expansion.onText (first.grouped ++ second.grouped) = .ok adjacent ∧
        ∀ valuation : Valuation, (∀ letter, letter ∈ valuation.letters ↔
          letter ∈ Letter.roster first ∨ letter ∈ Letter.roster second) →
          (Minterm.ofValuation valuation ∈ sum ↔
            Minterm.ofValuation (valuation.restrict (Letter.roster first)) ∈ given ∨
              Minterm.ofValuation (valuation.restrict (Letter.roster second)) ∈ other) ∧
          (Minterm.ofValuation valuation ∈ product ↔
            Minterm.ofValuation (valuation.restrict (Letter.roster first)) ∈ given ∧
              Minterm.ofValuation (valuation.restrict (Letter.roster second)) ∈ other) ∧
          (Minterm.ofValuation valuation ∈ adjacent ↔
            Minterm.ofValuation (valuation.restrict (Letter.roster first)) ∈ given ∧
              Minterm.ofValuation (valuation.restrict (Letter.roster second)) ∈ other)) ∧
    (∃ negation : Expansion, Request.expansion.onText ('!' :: first.grouped) = .ok negation ∧
      ∀ valuation : Valuation, valuation.letters = Letter.roster first →
        (Minterm.ofValuation valuation ∈ negation ↔ Minterm.ofValuation valuation ∉ given)) ∧
    ∃ verdict, Request.tautology.onText first = .ok verdict ∧
      Request.contradiction.onText ('!' :: first.grouped) = .ok verdict := by
  obtain ⟨few, expr, reads, expresses⟩ := Request.reads_of_expansion compiled
  obtain ⟨negation, negated, opposite⟩ := reads.exists_expansion_negation few
  refine ⟨?_, ⟨negation, negated, ?_⟩, negation.isContradiction, ?_, ?_⟩
  · intro second other otherCompiled together
    obtain ⟨_, tree, readsOther, expressesOther⟩ := Request.reads_of_expansion otherCompiled
    obtain ⟨sum, summed, sumHolds⟩ :=
      (reads.sum readsOther).exists_expansion_join reads readsOther rfl together
    obtain ⟨product, multiplied, productHolds⟩ :=
      (reads.product readsOther).exists_expansion_join reads readsOther rfl together
    obtain ⟨adjacent, put, adjacentHolds⟩ :=
      (reads.adjacent readsOther).exists_expansion_join reads readsOther rfl together
    refine ⟨sum, product, adjacent, summed, multiplied, put, ?_⟩
    intro valuation spans
    have here : Minterm.ofValuation (valuation.restrict (Letter.roster first)) ∈ given ↔
        expr.eval valuation.holds = true := by
      apply expresses.restrict_mem_iff reads
      exact fun letter named => (spans letter).mpr (Or.inl named)
    have there : Minterm.ofValuation (valuation.restrict (Letter.roster second)) ∈ other ↔
        tree.eval valuation.holds = true := by
      apply expressesOther.restrict_mem_iff readsOther
      exact fun letter named => (spans letter).mpr (Or.inr named)
    rw [here, there]
    refine ⟨?_, ?_, ?_⟩
    · rw [sumHolds valuation spans, Expr.eval, Bool.or_eq_true]
    · rw [productHolds valuation spans, Expr.eval, Bool.and_eq_true]
    · rw [adjacentHolds valuation spans, Expr.eval, Bool.and_eq_true]
  · intro valuation ranged
    rw [opposite.mem_iff ranged, expresses.mem_iff ranged, Expr.eval, Bool.not_eq_true,
      Bool.not_eq_true']
  · exact reads.tautology_onText few opposite
  · exact Request.onText_map negated Expansion.isContradiction

/-- The texts `a+b` and `b!c` share a letter. Where only `b` is false, the first is true and the second
is not. -/
theorem expansion_of_overlapping_groups :
    ∃ sum product adjacent : Expansion,
      Request.expansion.onText
        ['(', 'a', '+', 'b', ')', '+', '(', 'b', '!', 'c', ')'] = .ok sum ∧
      Request.expansion.onText
        ['(', 'a', '+', 'b', ')', '*', '(', 'b', '!', 'c', ')'] = .ok product ∧
      Request.expansion.onText ['(', 'a', '+', 'b', ')', '(', 'b', '!', 'c', ')'] = .ok adjacent ∧
      ⟨['a', '!', 'b', 'c']⟩ ∈ sum ∧ ⟨['a', '!', 'b', 'c']⟩ ∉ product ∧
      ⟨['a', '!', 'b', 'c']⟩ ∉ adjacent := by
  have first : Request.expansion.onText ['a', '+', 'b'] =
      .ok (.ofList [⟨['a', 'b']⟩, ⟨['a', '!', 'b']⟩, ⟨['!', 'a', 'b']⟩]) := by decide
  have second : Request.expansion.onText ['b', '!', 'c'] = .ok (.ofList [⟨['b', '!', 'c']⟩]) := by
    decide
  obtain ⟨sum, product, adjacent, summed, multiplied, put, holds⟩ :=
    (expansion_of_groups first).1 _ _ second (by decide)
  have spans : ∀ letter, letter ∈ [Letter.a, .b, .c] ↔
      letter ∈ Letter.roster ['a', '+', 'b'] ∨ letter ∈ Letter.roster ['b', '!', 'c'] := by
    intro letter
    have left : Letter.roster ['a', '+', 'b'] = [.a, .b] := by decide
    have right : Letter.roster ['b', '!', 'c'] = [.b, .c] := by decide
    rw [left, right]
    grind
  obtain ⟨sumHolds, productHolds, adjacentHolds⟩ :=
    holds (.ofPairs [(.a, true), (.b, false), (.c, true)]) spans
  exact ⟨sum, product, adjacent, summed, multiplied, put, sumHolds.mpr (by decide),
    mt productHolds.mp (by decide), mt adjacentHolds.mp (by decide)⟩

end PrincipalForm
