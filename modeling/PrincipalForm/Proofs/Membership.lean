import PrincipalForm.Proofs.Canonicity

namespace PrincipalForm

namespace Expansion

variable {expansion left right : Expansion} {letters others : List Letter} {expr : Expr}

/-- A minterm tells the letters of its valuation as well as their values. -/
theorem Expresses.ofValuation_mem_iff (expresses : expansion.Expresses letters expr)
    (valuation : Valuation) :
    Minterm.ofValuation valuation ∈ expansion ↔
      valuation.letters = letters ∧ expr.eval valuation.holds = true := by
  by_cases ranged : valuation.letters = letters
  · simp only [ranged, true_and]
    exact expresses.mem_iff ranged
  · simp only [ranged, false_and, iff_false]
    intro member
    obtain ⟨source, inRange, _, same⟩ := (expresses _).mp member
    exact ranged (Minterm.ofValuation_inj same ▸ inRange)

theorem isContradiction_iff (expansion : Expansion) :
    expansion.isContradiction = true ↔ ∀ minterm, minterm ∉ expansion :=
  List.isEmpty_iff.trans List.eq_nil_iff_forall_not_mem

theorem Ranges.disjoint (ranges : left.Ranges letters) (rangesOther : right.Ranges others)
    (different : letters ≠ others) (minterm : Minterm) (member : minterm ∈ left) :
    minterm ∉ right := by
  intro shared
  obtain ⟨source, inRange, same⟩ := ranges minterm member
  obtain ⟨twin, inRangeOther, sameTwin⟩ := rangesOther minterm shared
  have one : source = twin := Minterm.ofValuation_inj (same.trans sameTwin.symm)
  apply different
  rw [← inRange, ← inRangeOther, one]

theorem Ranges.eq_iff (ranges : left.Ranges letters) (rangesOther : right.Ranges others)
    (different : letters ≠ others) :
    left = right ↔ left.isContradiction = true ∧ right.isContradiction = true := by
  have apart := ranges.disjoint rangesOther different
  constructor
  · -- an expansion over both has no minterm in common with itself
    rintro rfl
    have never : left.isContradiction = true :=
      (isContradiction_iff left).mpr fun minterm member => apart minterm member member
    exact ⟨never, never⟩
  · rintro ⟨never, neverOther⟩
    apply eq_of_mem_iff
    intro minterm
    exact iff_of_false ((isContradiction_iff left).mp never minterm)
      ((isContradiction_iff right).mp neverOther minterm)

end Expansion

theorem Request.answer_map {Value Next : Type} {request : Request Value} {formula : Formula}
    {value : Value} (answered : (request formula).answer = .ok value) (wrap : Value → Next) :
    ((request >>= fun value => pure (wrap value)) formula).answer = .ok (wrap value) := by
  have opened : (request >>= fun value => pure (wrap value)) formula =
      Request.bind request (fun value => pure (wrap value)) formula := rfl
  simp only [opened, Request.bind, answered]
  rfl

/-- An expansion holds the minterm of a valuation of the formula's letters exactly if the formula is
true under it, and holds that of no other valuation. -/
theorem contains_eq_evaluate {session : Session} (reached : session.Reached) {slot : Slot}
    {formula : Formula} {given : Expansion} (present : session.get? slot = some formula)
    (compiled : (Request.expansion formula).answer = .ok given) (valuation : Valuation) :
    (valuation.letters = formula.letters →
      (Request.contains valuation formula).answer =
        .ok (decide ((Request.evaluate valuation formula).answer = .ok true))) ∧
      (valuation.letters ≠ formula.letters →
        (Request.contains valuation formula).answer = .ok false) := by
  have coherent := reached.coherent slot formula present
  obtain ⟨expr, expresses, values⟩ := coherent.expresses compiled
  have answered : (Request.contains valuation formula).answer =
      .ok (decide (Minterm.ofValuation valuation ∈ given)) :=
    Request.answer_map compiled fun minterms => decide (Minterm.ofValuation valuation ∈ minterms)
  rw [answered, Except.ok.injEq, Except.ok.injEq, decide_eq_decide, decide_eq_false_iff_not,
    expresses.ofValuation_mem_iff]
  constructor
  · intro ranged
    rw [values valuation ranged, Except.ok.injEq]
    exact and_iff_right ranged
  · intro outside held
    exact outside held.1

/-- The formula `!(a+b)` is true where both letters are false; a valuation of `a` alone, or of a third
letter besides, has no minterm among its own. -/
theorem contains_of_negated_sum :
    (Request.contains (.ofPairs [(.b, false), (.a, false)]) .negatedSum).answer = .ok true ∧
      (Request.contains (.ofPairs [(.a, false)]) .negatedSum).answer = .ok false ∧
      (Request.contains (.ofPairs [(.a, false), (.b, false), (.c, true)]) .negatedSum).answer =
        .ok false := by
  have reached : Session.deMorgan.Reached := .run (.run .empty _) _
  have present : Session.deMorgan.get? "sum" = some .negatedSum := by decide
  have compiled : (Request.expansion .negatedSum).answer =
      .ok (.ofList [⟨['!', 'a', '!', 'b']⟩]) := by
    decide
  refine ⟨?_, ?_, ?_⟩
  · exact (contains_eq_evaluate reached present compiled _).1 (by decide)
  · exact (contains_eq_evaluate reached present compiled _).2 (by decide)
  · exact (contains_eq_evaluate reached present compiled _).2 (by decide)

/-- Formulas of different letters that compile are equivalent if both are contradictions, and are not
equivalent otherwise. -/
theorem equivalent_of_letters_ne {session : Session} (reached : session.Reached) {left right : Slot}
    {first second : Formula} {given other : Expansion}
    (leftPresent : session.get? left = some first) (rightPresent : session.get? right = some second)
    (compiled : (Request.expansion first).answer = .ok given)
    (otherCompiled : (Request.expansion second).answer = .ok other)
    (different : first.letters ≠ second.letters) :
    (session.run (.compare left right .equivalent)).answer =
      .ok (.verdict (given.isContradiction && other.isContradiction)) := by
  have coherent := reached.coherent
  have firstCoherent := coherent left first leftPresent
  have secondCoherent := coherent right second rightPresent
  obtain ⟨_, expresses, _⟩ := firstCoherent.expresses compiled
  obtain ⟨_, otherExpresses, _⟩ := secondCoherent.expresses otherCompiled
  have answer := coherent.answer_equivalent (Session.texts_of_some leftPresent)
    (Session.texts_of_some rightPresent) (firstCoherent.answer_expansion ▸ compiled)
    (secondCoherent.answer_expansion ▸ otherCompiled)
  have verdict : decide (given = other) = (given.isContradiction && other.isContradiction) := by
    rw [Bool.eq_iff_iff, decide_eq_true_eq, Bool.and_eq_true]
    exact expresses.ranges.eq_iff otherExpresses.ranges different
  rw [answer, verdict]

def Formula.splitByB : Formula :=
  { origin := ['a', 'b', '+', 'a', '!', 'b'], letters := [.a, .b] }

def Formula.onlyA : Formula := { origin := ['a'], letters := [.a] }

/-- The formula `ab+a!b` takes no heed of `b`, and still is not equivalent to `a`. -/
theorem equivalent_of_ignored_letter :
    ((((Session.empty.run (.build "split" Formula.splitByB.origin)).session.run
      (.build "only" Formula.onlyA.origin)).session.run
        (.compare "split" "only" .equivalent)).answer = .ok (.verdict false)) := by
  have reached : ((Session.empty.run (.build "split" Formula.splitByB.origin)).session.run
      (.build "only" Formula.onlyA.origin)).session.Reached := .run (.run .empty _) _
  have split : (Request.expansion .splitByB).answer =
      .ok (.ofList [⟨['a', 'b']⟩, ⟨['a', '!', 'b']⟩]) := by
    decide
  have only : (Request.expansion .onlyA).answer = .ok (.ofList [⟨['a']⟩]) := by decide
  exact equivalent_of_letters_ne reached (by decide) (by decide) split only (by decide)

def Formula.neverByA : Formula := { origin := ['a', '!', 'a'], letters := [.a] }

def Formula.neverByB : Formula := { origin := ['b', '!', 'b'], letters := [.b] }

/-- Different letters alone do not part formulas: `a!a` and `b!b` are equivalent. -/
theorem equivalent_of_contradictions :
    ¬ ∀ (session : Session), session.Reached → ∀ (left right : Slot) (first second : Formula)
      (given other : Expansion), session.get? left = some first → session.get? right = some second →
      (Request.expansion first).answer = .ok given → (Request.expansion second).answer = .ok other →
      first.letters ≠ second.letters →
      (session.run (.compare left right .equivalent)).answer = .ok (.verdict false) := by
  intro apart
  have reached : ((Session.empty.run (.build "a" Formula.neverByA.origin)).session.run
      (.build "b" Formula.neverByB.origin)).session.Reached := .run (.run .empty _) _
  have same := apart _ reached "a" "b" .neverByA .neverByB .empty .empty (by decide) (by decide)
    (by decide) (by decide) (by decide)
  revert same
  decide

end PrincipalForm
