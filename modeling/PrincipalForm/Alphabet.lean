import PrincipalForm.Fault

namespace PrincipalForm.Alphabet

def legal (c : Char) : Bool := c.isLower || c ∈ ['+', '*', '!', '(', ')', ' ']

/-- The first illegal character with its place, the front of the text being `position`. -/
def offender? : Nat → Text → Option (Char × Nat)
  | _, [] => none
  | position, c :: rest =>
      if legal c then offender? (position + 1) rest else some (c, position)

def check (text : Text) : Except Fault Unit :=
  match offender? 0 text with
  | none => .ok ()
  | some (character, position) => .error (.illegalCharacter character position)

theorem legal_name (letter : Letter) : legal letter.name = true := by
  rw [legal, letter.lower, Bool.true_or]

theorem offender?_eq_none_iff (position : Nat) (text : Text) :
    offender? position text = none ↔ text.all legal = true := by
  induction text generalizing position with
  | nil => simp [offender?]
  | cons c rest ih =>
      by_cases known : legal c = true
      · simpa [offender?, known] using ih (position + 1)
      · simp [offender?, known]

end PrincipalForm.Alphabet
