import PrincipalForm.Proofs.Listing

/-!
Comparing minterms. Over the same letters the comparison of two minterms mirrors that of the indices of their
valuations, although a text is longer by a character for each letter that is false. Over whatever letters, a
minterm tells its valuation, and only a minterm and itself compare as equal.
-/

namespace PrincipalForm

namespace Valuation

theorem index_eq_iff {left right : Valuation} (same : left.letters = right.letters) :
    left.index = right.index ↔ left = right := by
  constructor
  · intro equal
    rw [← left.ofIndex_index, same, equal, right.ofIndex_index]
  · rintro rfl
    rfl

end Valuation

namespace Minterm

theorem ofValuation_eq_iff (left right : Valuation) : ofValuation left = ofValuation right ↔ left = right :=
  ⟨ofValuation_inj, congrArg ofValuation⟩

theorem compare_eq_iff (left right : Minterm) : compare left right = .eq ↔ left = right := by
  change compareOfLessAndEq left right = .eq ↔ left = right
  unfold compareOfLessAndEq
  by_cases before : left < right
  · have apart : left ≠ right := by
      rintro rfl
      exact KeyOrder.irrefl left before
    simp [before, apart]
  · simp [before]

/-- A comparison asks only which comes first and whether both are equal, and on both questions minterms
agree with indices the other way round. -/
theorem compare_ofValuation {left right : Valuation} (same : left.letters = right.letters) :
    compare (ofValuation left) (ofValuation right) = (compare left.index right.index).swap := by
  have before : ofValuation left < ofValuation right ↔ right.index < left.index := ofValuation_lt_iff same
  have equal : ofValuation left = ofValuation right ↔ right.index = left.index := by
    rw [ofValuation_eq_iff, Valuation.index_eq_iff same.symm, eq_comm]
  rw [Nat.compare_swap]
  change compareOfLessAndEq (ofValuation left) (ofValuation right) =
    compareOfLessAndEq right.index left.index
  simp only [compareOfLessAndEq, before, equal]

end Minterm

/-- Minterms of valuations that range over the same set of letters compare as the indices of the valuations
do, the other way round. Any two minterms are equal exactly if the valuations are, and compare as equal exactly
then. -/
theorem minterms_mirror_indices (left right : Valuation) :
    ((∀ letter, letter ∈ left.letters ↔ letter ∈ right.letters) →
        compare (Minterm.ofValuation left) (Minterm.ofValuation right) =
          (compare left.index right.index).swap) ∧
      (Minterm.ofValuation left = Minterm.ofValuation right ↔ left = right) ∧
      (compare (Minterm.ofValuation left) (Minterm.ofValuation right) = .eq ↔ left = right) := by
  have equal := Minterm.ofValuation_eq_iff left right
  refine ⟨?_, equal, ?_⟩
  · intro same
    have letters := Ascending.eq_of_mem_iff left.letters_sorted right.letters_sorted same
    exact Minterm.compare_ofValuation letters
  · rw [Minterm.compare_eq_iff, equal]

/-- The minterm `!abc` has the lesser index and comes after the longer `a!b!c`. -/
theorem minterms_of_unequal_lengths :
    ∃ left right : Valuation, (Minterm.ofValuation left).text = ['!', 'a', 'b', 'c'] ∧
      (Minterm.ofValuation right).text = ['a', '!', 'b', '!', 'c'] ∧
      (∀ letter, letter ∈ left.letters ↔ letter ∈ right.letters) ∧
      compare left.index right.index = .lt ∧
      compare (Minterm.ofValuation left) (Minterm.ofValuation right) = .gt := by
  refine ⟨.ofPairs [(.a, false), (.b, true), (.c, true)], .ofPairs [(.c, false), (.a, true), (.b, false)],
    by decide, by decide, fun _ => Iff.rfl, by decide, ?_⟩
  refine ((minterms_mirror_indices _ _).1 ?_).trans ?_
  · exact fun _ => Iff.rfl
  · decide

/-- Over different letters the indices do not say which comes first: `b` alone comes before `a!b`. -/
example :
    let left := Valuation.ofPairs [(.b, true)]
    let right := Valuation.ofPairs [(.a, true), (.b, false)]
    compare left.index right.index = .lt ∧
      compare (Minterm.ofValuation left) (Minterm.ofValuation right) = .lt := by
  decide

end PrincipalForm
