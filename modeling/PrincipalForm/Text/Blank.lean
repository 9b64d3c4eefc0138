import PrincipalForm.Text

namespace PrincipalForm.Text

/-- The property White_Space, of which the space of formulas is one character only. -/
def whiteIntervals : Intervals :=
  [(0x9, 0xd), (0x20, 0x20), (0x85, 0x85), (0xa0, 0xa0), (0x1680, 0x1680), (0x2000, 0x200a),
   (0x2028, 0x2029), (0x202f, 0x202f), (0x205f, 0x205f), (0x3000, 0x3000)]

def white (c : Char) : Bool := within whiteIntervals c.toNat

def blank (text : Text) : Bool := text.all white

end PrincipalForm.Text
