import PrincipalForm.Letter

/-!
Valuations give truth values to finitely many letters. The entries stand in alphabetical order, each
letter once, so two valuations are equal exactly when they give the same letters the same values.
-/

namespace PrincipalForm

structure Valuation where
  entries : List (Letter × Bool)
  sorted : Ascending.Sorted Prod.fst entries
  deriving DecidableEq

namespace Valuation

def empty : Valuation := ⟨[], .nil⟩

def set (valuation : Valuation) (letter : Letter) (value : Bool) : Valuation :=
  ⟨Ascending.enter Prod.fst (letter, value) valuation.entries,
    Ascending.enter_sorted Prod.fst (letter, value) valuation.entries valuation.sorted⟩

def get? (valuation : Valuation) (letter : Letter) : Option Bool :=
  valuation.entries.lookup letter

def letters (valuation : Valuation) : List Letter := valuation.entries.map Prod.fst

def values (valuation : Valuation) : List Bool := valuation.entries.map Prod.snd

def size (valuation : Valuation) : Nat := valuation.entries.length

/-- A later pair overrides an earlier one with the same letter. -/
def ofPairs (pairs : List (Letter × Bool)) : Valuation :=
  pairs.foldl (fun valuation pair => valuation.set pair.1 pair.2) empty

/-- Letters paired with the bits of a number, the first letter with the most significant. -/
def bits : List Letter → Nat → List (Letter × Bool)
  | [], _ => []
  | letter :: rest, index => (letter, index.testBit rest.length) :: bits rest index

/-- The valuation with a given index among those of the letters. Bits of the index beyond the number
of letters are not looked at, and a repeated letter takes the bit of its last place. -/
def ofIndex (letters : List Letter) (index : Nat) : Valuation := ofPairs (bits letters index)

/-- The values read as a binary number, the first letter most significant. -/
def index (valuation : Valuation) : Nat :=
  valuation.values.foldl (fun number value => 2 * number + value.toNat) 0

theorem get?_set (valuation : Valuation) (letter other : Letter) (value : Bool) :
    (valuation.set letter value).get? other =
      if other = letter then some value else valuation.get? other :=
  Ascending.lookup_enter letter other value valuation.entries

theorem get?_empty (letter : Letter) : empty.get? letter = none := rfl

theorem eq_of_get? {left right : Valuation}
    (same : ∀ letter, left.get? letter = right.get? letter) : left = right := by
  have entries := Ascending.eq_of_lookup left.sorted right.sorted same
  cases left; cases right; cases entries; rfl

theorem get?_eq_some_iff (valuation : Valuation) (letter : Letter) (value : Bool) :
    valuation.get? letter = some value ↔ (letter, value) ∈ valuation.entries :=
  Ascending.lookup_eq_some_iff valuation.entries valuation.sorted letter value

theorem mem_letters_iff (valuation : Valuation) (letter : Letter) :
    letter ∈ valuation.letters ↔ (valuation.get? letter).isSome = true := by
  rw [letters, List.mem_map, Option.isSome_iff_exists]
  constructor
  · rintro ⟨⟨_, value⟩, member, rfl⟩
    exact ⟨value, (get?_eq_some_iff valuation _ value).mpr member⟩
  · rintro ⟨value, found⟩
    exact ⟨(letter, value), (get?_eq_some_iff valuation letter value).mp found, rfl⟩

theorem get?_eq_none_iff (valuation : Valuation) (letter : Letter) :
    valuation.get? letter = none ↔ letter ∉ valuation.letters := by
  rw [mem_letters_iff, Option.not_isSome_iff_eq_none]

theorem get?_ofPairs (pairs : List (Letter × Bool)) (letter : Letter) :
    (ofPairs pairs).get? letter = pairs.reverse.lookup letter := by
  have general : ∀ start : Valuation,
      (pairs.foldl (fun valuation pair => valuation.set pair.1 pair.2) start).get? letter =
        (pairs.reverse.lookup letter).or (start.get? letter) := by
    induction pairs with
    | nil => intro start; rfl
    | cons pair rest ih =>
        intro start
        rw [List.foldl_cons, ih, get?_set, List.reverse_cons, List.lookup_append,
          Ascending.lookup_cons letter pair [], List.lookup_nil]
        by_cases same : letter = pair.1 <;> cases rest.reverse.lookup letter <;> simp [same]
  rw [ofPairs, general empty, get?_empty, Option.or_none]

/-- An entry is written as in `a=1`. -/
def writeEntry (entry : Letter × Bool) : Text :=
  [entry.1.name, '=', if entry.2 then '1' else '0']

def writeEntries : List (Letter × Bool) → Text
  | [] => []
  | [entry] => writeEntry entry
  | entry :: rest => writeEntry entry ++ ',' :: ' ' :: writeEntries rest

def write (valuation : Valuation) : Text := '\x7b' :: writeEntries valuation.entries ++ ['\x7d']

end Valuation

end PrincipalForm
