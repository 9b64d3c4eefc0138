import PrincipalForm.Minterm
import PrincipalForm.Table

/-!
The principal disjunctive normal form: the minterms of the rows on which a formula is true. The set
is kept in minterm order, so two expansions are equal exactly when they hold the same minterms.
-/

namespace PrincipalForm

structure Expansion where
  minterms : List Minterm
  sorted : Ascending.Sorted id minterms
  deriving DecidableEq

namespace Expansion

def empty : Expansion := ⟨[], .nil⟩

def insert (expansion : Expansion) (minterm : Minterm) : Expansion :=
  ⟨Ascending.enter id minterm expansion.minterms,
    Ascending.enter_sorted id minterm expansion.minterms expansion.sorted⟩

def ofList (minterms : List Minterm) : Expansion := minterms.foldl insert empty

def ofTable (table : Table) : Expansion :=
  ofList (table.trueRows.map fun row => Minterm.ofValuation row.valuation)

instance : Membership Minterm Expansion := ⟨fun expansion minterm => minterm ∈ expansion.minterms⟩

instance (minterm : Minterm) (expansion : Expansion) : Decidable (minterm ∈ expansion) :=
  inferInstanceAs (Decidable (minterm ∈ expansion.minterms))

theorem mem_insert_iff (expansion : Expansion) (minterm other : Minterm) :
    other ∈ expansion.insert minterm ↔ other = minterm ∨ other ∈ expansion :=
  Ascending.mem_enter_iff minterm other expansion.minterms

theorem mem_ofList_iff (minterms : List Minterm) (minterm : Minterm) :
    minterm ∈ ofList minterms ↔ minterm ∈ minterms := by
  have general : ∀ start : Expansion,
      minterm ∈ minterms.foldl insert start ↔ minterm ∈ minterms ∨ minterm ∈ start := by
    induction minterms with
    | nil => intro start; simp
    | cons first rest ih =>
        intro start
        rw [List.foldl_cons, ih, mem_insert_iff, List.mem_cons]
        constructor
        · rintro (later | same | old)
          · exact Or.inl (Or.inr later)
          · exact Or.inl (Or.inl same)
          · exact Or.inr old
        · rintro ((same | later) | old)
          · exact Or.inr (Or.inl same)
          · exact Or.inl later
          · exact Or.inr (Or.inr old)
  refine (general empty).trans ⟨?_, Or.inl⟩
  rintro (given | absurdity)
  · exact given
  · cases absurdity

theorem eq_of_mem_iff {left right : Expansion}
    (same : ∀ minterm, minterm ∈ left ↔ minterm ∈ right) : left = right := by
  have lists := Ascending.eq_of_mem_iff left.sorted right.sorted same
  cases left; cases right; cases lists; rfl

def size (expansion : Expansion) : Nat := expansion.minterms.length

def isContradiction (expansion : Expansion) : Bool := expansion.minterms.isEmpty

/-- What is written for a formula that is never true; it is not itself a formula. -/
def contradiction : Text := "Contradictory Formula".toList

def write (expansion : Expansion) : Text :=
  if expansion.isContradiction then contradiction
  else List.intercalate ['+'] (expansion.minterms.map Minterm.text)

end Expansion

end PrincipalForm
