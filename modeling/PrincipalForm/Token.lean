import PrincipalForm.Letter

/-!
The tokens of formulas. Each token is one character; every other character, the space among them,
is no token. Two priorities per token say which of two operators is written first: the one that a
token has while it is held back, and the one that it has when it arrives.
-/

namespace PrincipalForm

inductive Token where
  | atom (letter : Letter)
  | conj
  | disj
  | neg
  | opening
  | closing
  deriving DecidableEq

namespace Token

def ofChar? : Char → Option Token
  | '*' => some .conj
  | '+' => some .disj
  | '!' => some .neg
  | '(' => some .opening
  | ')' => some .closing
  | c => (Letter.ofChar? c).map .atom

def symbol : Token → Char
  | .atom letter => letter.name
  | .conj => '*'
  | .disj => '+'
  | .neg => '!'
  | .opening => '('
  | .closing => ')'

def isAtom : Token → Bool
  | .atom _ => true
  | _ => false

def letter? : Token → Option Letter
  | .atom letter => some letter
  | _ => none

/-- Letters are never held back, and neither are closing parentheses. -/
def heldPriority : Token → Nat
  | .atom _ => 0
  | .opening => 1
  | .disj => 3
  | .conj => 5
  | .neg => 6
  | .closing => 10

/-- A negation arrives above its own held priority, so negations nest to the right; the two
binary operators arrive below theirs, so they group to the left. -/
def arrivingPriority : Token → Nat
  | .atom _ => 0
  | .closing => 1
  | .disj => 2
  | .conj => 4
  | .neg => 7
  | .opening => 10

/-- The tokens of a text in order; characters that are no token are passed over. -/
def read (text : Text) : List Token := text.filterMap ofChar?

def write (tokens : List Token) : Text := tokens.map symbol

theorem ofChar?_symbol (token : Token) : ofChar? token.symbol = some token := by
  cases token with
  | atom letter =>
      change ofChar? letter.name = some (.atom letter)
      unfold ofChar?
      split
      iterate 5 next same => exact absurd same (letter.name_ne rfl)
      next => rw [letter.ofChar?_name]; rfl
  | _ => rfl

theorem symbol_of_ofChar? {c : Char} {token : Token} (read : ofChar? c = some token) :
    token.symbol = c := by
  unfold ofChar? at read
  split at read
  iterate 5 next => cases read; rfl
  next =>
    obtain ⟨letter, named, rfl⟩ := Option.map_eq_some_iff.mp read
    unfold Letter.ofChar? at named
    split at named
    · cases named; rfl
    · cases named

theorem symbol_inj {left right : Token} (same : left.symbol = right.symbol) : left = right := by
  have read := congrArg ofChar? same
  rw [ofChar?_symbol, ofChar?_symbol] at read
  exact Option.some.inj read

theorem read_write (tokens : List Token) : read (write tokens) = tokens := by
  induction tokens with
  | nil => rfl
  | cons token rest ih =>
      simp only [read, write, List.map_cons, List.filterMap_cons, ofChar?_symbol] at ih ⊢
      rw [ih]

end Token

end PrincipalForm
