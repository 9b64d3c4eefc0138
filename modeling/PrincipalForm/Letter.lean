import PrincipalForm.Text
import PrincipalForm.Ascending

/-!
Propositional letters. A letter is named by a single lowercase character. Alphabetical order is
the column order of a formula's table and the literal order of its minterms.
-/

namespace PrincipalForm

structure Letter where
  name : Char
  lower : name.isLower = true
  deriving DecidableEq

namespace Letter

def a : Letter := ⟨'a', rfl⟩

def b : Letter := ⟨'b', rfl⟩

def c : Letter := ⟨'c', rfl⟩

instance : LT Letter := ⟨fun left right => left.name < right.name⟩

instance : DecidableLT Letter := fun left right =>
  inferInstanceAs (Decidable (left.name < right.name))

theorem eq_of_name {left right : Letter} (same : left.name = right.name) : left = right := by
  cases left; cases right; cases same; rfl

theorem name_ne {c : Char} (other : c.isLower = false) (letter : Letter) : letter.name ≠ c := by
  rintro rfl
  cases other.symm.trans letter.lower

instance : KeyOrder Letter where
  irrefl := fun letter => Char.lt_irrefl letter.name
  trans := fun {low middle high} first second =>
    have below : low.name < middle.name := first
    Char.lt_trans below second
  connected := fun left right => by
    by_cases before : left.name < right.name
    · exact Or.inl before
    · by_cases after : right.name < left.name
      · exact Or.inr (Or.inr after)
      · exact Or.inr (Or.inl (eq_of_name
          (Char.le_antisymm (Char.not_lt.mp after) (Char.not_lt.mp before))))

def ofChar? (c : Char) : Option Letter :=
  if lower : c.isLower = true then some ⟨c, lower⟩ else none

theorem ofChar?_eq_some_iff (c : Char) (letter : Letter) :
    ofChar? c = some letter ↔ c = letter.name := by
  unfold ofChar?
  constructor
  · intro named
    split at named
    · cases named
      rfl
    · cases named
  · rintro rfl
    exact dif_pos letter.lower

theorem ofChar?_name (letter : Letter) : ofChar? letter.name = some letter := dif_pos letter.lower

theorem name_or_other (c : Char) : (∃ letter : Letter, c = letter.name) ∨ ofChar? c = none := by
  cases named : ofChar? c with
  | none => exact Or.inr rfl
  | some letter => exact Or.inl ⟨letter, (ofChar?_eq_some_iff c letter).mp named⟩

theorem mem_filterMap_ofChar?_iff (text : Text) (letter : Letter) :
    letter ∈ text.filterMap ofChar? ↔ letter.name ∈ text := by
  simp only [List.mem_filterMap, ofChar?_eq_some_iff, exists_eq_right]

/-- The letters of a text, each once, in alphabetical order. -/
def roster (text : Text) : List Letter :=
  (text.filterMap ofChar?).foldr (Ascending.enter id) []

theorem roster_sorted (text : Text) : Ascending.Sorted id (roster text) := by
  unfold roster
  induction text.filterMap ofChar? with
  | nil => exact List.Pairwise.nil
  | cons letter rest ih => exact Ascending.enter_sorted id letter _ ih

theorem nodup_roster (text : Text) : (roster text).Nodup := Ascending.nodup (roster_sorted text)

theorem mem_roster_iff (text : Text) (letter : Letter) :
    letter ∈ roster text ↔ letter ∈ text.filterMap ofChar? := by
  unfold roster
  induction text.filterMap ofChar? with
  | nil => rfl
  | cons first rest ih =>
      rw [List.foldr_cons, Ascending.mem_enter_iff, ih, List.mem_cons]

def write (letters : List Letter) : Text := letters.map name

end Letter

end PrincipalForm
