import PrincipalForm.Proofs.Tabulation

/-!
The order in which minterms are listed. A negation sorts before every letter, so of two minterms of the same
letters the greater text belongs to the valuation with the greater index. An expansion therefore lists
the true rows of a table from the last to the first, each by its own minterm.
-/

namespace PrincipalForm

theorem Letter.negation_lt (letter : Letter) : '!' < letter.name := by
  have first : 'a' ≤ letter.name := of_decide_eq_true (Bool.and_eq_true_iff.mp letter.lower).1
  exact Std.lt_of_lt_of_le (by decide) first

namespace Minterm

/-- At the first literal that differs the negated one sorts first, as false does before true. -/
theorem literal_append_lt_iff (letter : Letter) (value other : Bool) (rest later : Text) :
    literal (letter, value) ++ rest < literal (letter, other) ++ later ↔
      value < other ∨ value = other ∧ rest < later := by
  have before := letter.negation_lt
  have after := Char.lt_asymm before
  have apart := (Char.ne_of_lt before).symm
  cases value <;> cases other <;> simp [literal, List.cons_lt_cons_iff, before, after, apart]

theorem literals_lt_iff {left right : List (Letter × Bool)}
    (same : left.map Prod.fst = right.map Prod.fst) :
    left.flatMap literal < right.flatMap literal ↔ left.map Prod.snd < right.map Prod.snd := by
  induction left generalizing right with
  | nil =>
      obtain rfl := List.map_eq_nil_iff.mp same.symm
      exact iff_of_false (List.lt_irrefl _) (List.lt_irrefl _)
  | cons entry rest ih =>
      cases right with
      | nil => cases same
      | cons other later =>
          obtain ⟨letter, value⟩ := entry
          obtain ⟨name, sign⟩ := other
          obtain ⟨head, tails⟩ := List.cons.inj same
          obtain rfl : letter = name := head
          rw [List.flatMap_cons, List.flatMap_cons, literal_append_lt_iff, ih tails, List.map_cons,
            List.map_cons, List.cons_lt_cons_iff]

theorem ofValuation_lt_iff {left right : Valuation} (same : left.letters = right.letters) :
    ofValuation left < ofValuation right ↔ right.index < left.index := by
  rw [← Valuation.values_lt_iff same.symm]
  exact literals_lt_iff same.symm

end Minterm

namespace Valuation

end Valuation

namespace Expansion

variable {letters : List Letter} {polish : Polish} {table : Table}

theorem ranges_ofTable (generated : Table.generate letters polish = .ok table)
    (sorted : Ascending.Sorted id letters) : (ofTable table).Ranges letters := by
  intro minterm member
  obtain ⟨valuation, ranged, _, same⟩ := (mem_ofTable_iff generated sorted minterm).mp member
  exact ⟨valuation, ranged, same⟩

end Expansion

end PrincipalForm
