namespace PrincipalForm

abbrev Text := List Char

namespace Text

/-- Text moved to the right end of a field, unchanged if it is at least as wide as the field. -/
def rightAligned (width : Nat) (text : Text) : Text :=
  List.replicate (width - text.length) ' ' ++ text

/-- Code points given by intervals, both ends included. -/
abbrev Intervals := List (Nat × Nat)

def within (intervals : Intervals) (code : Nat) : Bool :=
  intervals.any fun interval => interval.1 ≤ code && code ≤ interval.2

end Text

end PrincipalForm
