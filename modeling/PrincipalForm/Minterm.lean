import PrincipalForm.Valuation

/-!
Minterms. A minterm names each letter of a valuation once, in alphabetical order, with a negation
before those that are false. Minterms come in falling order of their texts; as the negation sorts
before every letter, the minterm of the all-true valuation is the first of those over its letters.
-/

namespace PrincipalForm

structure Minterm where
  text : Text
  deriving DecidableEq

namespace Minterm

def literal (entry : Letter × Bool) : Text :=
  if entry.2 then [entry.1.name] else ['!', entry.1.name]

def ofValuation (valuation : Valuation) : Minterm := ⟨valuation.entries.flatMap literal⟩

instance : LT Minterm := ⟨fun left right => right.text < left.text⟩

instance : DecidableLT Minterm := fun left right =>
  inferInstanceAs (Decidable (right.text < left.text))

instance : Ord Minterm := ⟨fun left right => compareOfLessAndEq left right⟩

instance : KeyOrder Minterm where
  irrefl := fun minterm => List.lt_irrefl minterm.text
  trans := fun {low middle high} first second =>
    have below : high.text < middle.text := second
    List.lt_trans below first
  connected := fun left right => by
    by_cases before : right.text < left.text
    · exact Or.inl before
    · by_cases after : left.text < right.text
      · exact Or.inr (Or.inr after)
      · have same : left.text = right.text :=
          List.le_antisymm (List.not_lt.mp before) (List.not_lt.mp after)
        cases left; cases right; cases same
        exact Or.inr (Or.inl rfl)

end Minterm

end PrincipalForm
