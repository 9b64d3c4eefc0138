import PrincipalForm.Proofs.RoundTrip

/-!
The text of an expansion as a canonical form. Minterms have no plus sign in them and are all legal,
so what they are joined to can be taken apart again and is never the text of a contradiction. Formulas
of the same letters are then equivalent exactly if they have the same values, and exactly if their
expansions are written the same.
-/

namespace PrincipalForm

namespace Minterm

theorem mem_tokens {valuation : Valuation} {token : Token} (member : token ∈ tokens valuation) :
    token = .neg ∨ ∃ letter, token = .atom letter := by
  obtain ⟨⟨letter, value⟩, _, written⟩ := List.mem_flatMap.mp member
  cases value with
  | false =>
      rcases List.mem_cons.mp written with sign | name
      · exact Or.inl sign
      · exact Or.inr ⟨letter, List.mem_singleton.mp name⟩
  | true => exact Or.inr ⟨letter, List.mem_singleton.mp written⟩

theorem eq_of_text {left right : Minterm} (same : left.text = right.text) : left = right := by
  cases left; cases right; cases same; rfl

theorem plus_not_mem (valuation : Valuation) : '+' ∉ (ofValuation valuation).text := by
  intro member
  rw [← write_tokens] at member
  obtain ⟨token, listed, same⟩ := List.mem_map.mp member
  have plus : token = .disj := Token.symbol_inj same
  rcases mem_tokens listed with sign | ⟨letter, name⟩
  · rw [plus] at sign; cases sign
  · rw [plus] at name; cases name

end Minterm

namespace Expansion

variable {left right : Expansion} {letters others : List Letter}

theorem illegal_contradiction : contradiction.all Alphabet.legal = false := by decide

theorem legal_write_iff (ranges : left.Ranges letters) :
    left.write.all Alphabet.legal = true ↔ left.isContradiction = false := by
  obtain ⟨valuations, listed, _⟩ := exists_valuations ranges
  cases valuations with
  | nil =>
      have none : left.isContradiction = true := by rw [isContradiction, ← listed]; rfl
      rw [write, none, if_pos rfl, illegal_contradiction]
      exact iff_of_false Bool.noConfusion Bool.noConfusion
  | cons first rest =>
      have satisfiable : left.isContradiction = false := by rw [isContradiction, ← listed]; rfl
      rw [write_eq listed, satisfiable]
      exact iff_of_true (Token.legal_write _) rfl

theorem splitOn_write (ranges : left.Ranges letters) (satisfiable : left.isContradiction = false) :
    left.write.splitOn '+' = left.minterms.map Minterm.text := by
  rw [write, satisfiable]
  apply List.splitOn_intercalate
  · intro piece member
    obtain ⟨minterm, listed, rfl⟩ := List.mem_map.mp member
    obtain ⟨valuation, _, rfl⟩ := ranges minterm listed
    exact Minterm.plus_not_mem valuation
  · rw [isContradiction, List.isEmpty_eq_false_iff] at satisfiable
    exact mt List.map_eq_nil_iff.mp satisfiable

theorem write_inj (ranges : left.Ranges letters) (rangesOther : right.Ranges others)
    (same : left.write = right.write) : left = right := by
  -- only the text of a contradiction is illegal, so one of two equal texts is not without the other
  have alike : left.isContradiction = false ↔ right.isContradiction = false := by
    rw [← legal_write_iff ranges, ← legal_write_iff rangesOther, same]
  have minterms : left.minterms = right.minterms := by
    cases satisfiable : left.isContradiction with
    | false =>
        have pieces := congrArg (List.splitOn '+') same
        rw [splitOn_write ranges satisfiable, splitOn_write rangesOther (alike.mp satisfiable)] at pieces
        exact (List.map_inj_right fun _ _ => Minterm.eq_of_text).mp pieces
    | true =>
        have never : right.isContradiction = true := by
          rw [← Bool.not_eq_false, ← alike, satisfiable]
          exact Bool.noConfusion
        rw [List.isEmpty_iff.mp satisfiable, List.isEmpty_iff.mp never]
  cases left; cases right; cases minterms; rfl

end Expansion

theorem Formula.Coherent.expresses {formula : Formula} (coherent : formula.Coherent)
    {given : Expansion} (compiled : (Request.expansion formula).answer = .ok given) :
    ∃ expr, given.Expresses formula.letters expr ∧
      ∀ valuation : Valuation, valuation.letters = formula.letters →
        (Request.evaluate valuation formula).answer = .ok (expr.eval valuation.holds) := by
  rw [coherent.answer_expansion] at compiled
  obtain ⟨_, expr, reads, expresses⟩ := (Direct.expansion_eq_ok_iff _ given).mp compiled
  rw [← coherent.letters] at expresses
  refine ⟨expr, expresses, ?_⟩
  intro valuation ranged
  rw [coherent.letters] at ranged
  rw [coherent.answer_evaluate, reads.evaluate (Valuation.covers_of_letters ranged)]

/-- Formulas of the same letters that compile are equivalent exactly if they have the same value under
every valuation of the letters, and exactly if their expansions are written the same. -/
theorem equivalent_iff {session : Session} (reached : session.Reached) {left right : Slot}
    {first second : Formula} {given other : Expansion}
    (leftPresent : session.get? left = some first) (rightPresent : session.get? right = some second)
    (compiled : (Request.expansion first).answer = .ok given)
    (otherCompiled : (Request.expansion second).answer = .ok other)
    (same : first.letters = second.letters) :
    ((session.run (.compare left right .equivalent)).answer = .ok (.verdict true) ↔
        ∀ valuation : Valuation, valuation.letters = first.letters →
          (Request.evaluate valuation first).answer = (Request.evaluate valuation second).answer) ∧
      ((∀ valuation : Valuation, valuation.letters = first.letters →
          (Request.evaluate valuation first).answer = (Request.evaluate valuation second).answer) ↔
        given.write = other.write) := by
  have coherent := reached.coherent
  have firstCoherent := coherent left first leftPresent
  have secondCoherent := coherent right second rightPresent
  obtain ⟨expr, expresses, values⟩ := firstCoherent.expresses compiled
  obtain ⟨tree, otherExpresses, otherValues⟩ := secondCoherent.expresses otherCompiled
  rw [← same] at otherExpresses otherValues
  have answer := coherent.answer_equivalent (Session.texts_of_some leftPresent)
    (Session.texts_of_some rightPresent) (firstCoherent.answer_expansion ▸ compiled)
    (secondCoherent.answer_expansion ▸ otherCompiled)
  have valued : given = other ↔ ∀ valuation : Valuation, valuation.letters = first.letters →
      (Request.evaluate valuation first).answer = (Request.evaluate valuation second).answer := by
    rw [expresses.eq_iff otherExpresses]
    apply forall_congr'
    intro valuation
    apply imp_congr_right
    intro ranged
    rw [values valuation ranged, otherValues valuation ranged, Except.ok.injEq]
  constructor
  · rw [answer, ← valued, Except.ok.injEq, Answer.verdict.injEq, decide_eq_true_eq]
  · rw [← valued]
    exact ⟨congrArg Expansion.write, Expansion.write_inj expresses.ranges otherExpresses.ranges⟩

def Formula.negatedSum : Formula :=
  { origin := ['!', '(', 'a', '+', 'b', ')'], letters := [.a, .b] }

def Formula.productOfNegations : Formula :=
  { origin := ['!', 'a', '!', 'b'], letters := [.a, .b] }

def Session.deMorgan : Session :=
  ((Session.empty.run (.build "sum" Formula.negatedSum.origin)).session.run
    (.build "product" Formula.productOfNegations.origin)).session

/-- The expansion of `!(a+b)` and of `!a!b` is one minterm, the second formula itself. -/
theorem equivalent_of_negated_sum :
    (Session.deMorgan.run (.compare "sum" "product" .equivalent)).answer = .ok (.verdict true) ∧
      ∀ valuation : Valuation, valuation.letters = [.a, .b] →
        (Request.evaluate valuation .negatedSum).answer =
          (Request.evaluate valuation .productOfNegations).answer := by
  have reached : Session.deMorgan.Reached := .run (.run .empty _) _
  have sumPresent : Session.deMorgan.get? "sum" = some .negatedSum := by decide
  have productPresent : Session.deMorgan.get? "product" = some .productOfNegations := by decide
  have sum : (Request.expansion .negatedSum).answer = .ok (.ofList [⟨['!', 'a', '!', 'b']⟩]) := by
    decide
  have product : (Request.expansion .productOfNegations).answer =
      .ok (.ofList [⟨['!', 'a', '!', 'b']⟩]) := by
    decide
  obtain ⟨asked, written⟩ := equivalent_iff reached sumPresent productPresent sum product rfl
  have values := written.mpr rfl
  exact ⟨asked.mpr values, values⟩

end PrincipalForm
