import PrincipalForm.Expansion

namespace PrincipalForm

structure Renaming where
  there : Letter → Letter
  back : Letter → Letter
  back_there : ∀ letter, back (there letter) = letter
  there_back : ∀ letter, there (back letter) = letter

namespace Renaming

def character (names : Renaming) (c : Char) : Char :=
  match Letter.ofChar? c with
  | some letter => (names.there letter).name
  | none => c

def text (names : Renaming) (text : Text) : Text := text.map names.character

def valuation (names : Renaming) (valuation : Valuation) : Valuation :=
  Valuation.ofPairs (valuation.entries.map fun entry => (names.there entry.1, entry.2))

/-- A renaming keeps the order of some letters if it takes them to letters in the same order. -/
def KeepsOrder (names : Renaming) (letters : List Letter) : Prop :=
  ∀ left ∈ letters, ∀ right ∈ letters, left < right → names.there left < names.there right

instance (names : Renaming) (letters : List Letter) : Decidable (names.KeepsOrder letters) :=
  inferInstanceAs (Decidable (∀ left ∈ letters, ∀ right ∈ letters,
    left < right → names.there left < names.there right))

theorem there_injective (names : Renaming) {left right : Letter}
    (same : names.there left = names.there right) : left = right := by
  rw [← names.back_there left, same, names.back_there right]

end Renaming

end PrincipalForm
