import PrincipalForm.Text

/-!
What a terminal shows of a text. Control characters are not shown, white space apart, and neither is
a control sequence: an escape and what follows it up to the end that its kind of sequence has. White
space within a sequence is shown, and from there on all is shown up to the next control character.
-/

namespace PrincipalForm.Text

/-- The control sequence that a text stands in, by what ends it. -/
inductive Sequence where
  | outside
  | escape
  | prefixed
  | control
  | command
  | header
  | parameters
  | suffix
  | string
  deriving DecidableEq

def between (low high c : Char) : Bool := low ≤ c && c ≤ high

def spacing (c : Char) : Bool := c ∈ ['\t', '\n', '\x0c', '\r']

def plain (c : Char) : Bool := spacing c || (' ' ≤ c && c ≠ '\x7f')

namespace Sequence

/-- The kind of sequence that a character behind the escape opens, unless it is the whole of it. -/
def opened (c : Char) : Sequence :=
  match c with
  | '[' => .control
  | ']' => .command
  | 'P' => .header
  | 'X' | '^' | '_' => .string
  | c =>
      if between ' ' '/' c then .prefixed
      else if between '0' '~' c then .outside
      else .escape

/-- A string ends at a byte of its encoding, which may stand within a character. -/
def terminator : UInt8 := 0x9c

def continued (c : Char) : Sequence → Sequence
  | .outside => .outside
  | .escape => opened c
  | .prefixed => if between '0' '~' c then .outside else .prefixed
  | .control => if between '@' '~' c then .outside else .control
  | .command => if c = '\x07' then .outside else .command
  | .header =>
      if between '@' '~' c then .string
      else if between ' ' '/' c then .suffix
      else if between '0' '?' c then .parameters
      else .header
  | .parameters =>
      if between '<' '~' c then .string
      else if between ' ' '/' c then .suffix
      else .parameters
  | .suffix => if between '0' '~' c then .string else .suffix
  | .string => if terminator ∈ String.utf8EncodeChar c then .outside else .string

/-- The sequence after a character that is not shown. Everywhere an escape begins a new sequence,
and two characters cancel the one at hand. -/
def next (sequence : Sequence) (c : Char) : Sequence :=
  if c = '\x1b' then .escape
  else if c = '\x18' ∨ c = '\x1a' then .outside
  else sequence.continued c

def shows (c : Char) : Sequence → Bool
  | .outside => plain c
  | .escape | .prefixed | .control => spacing c
  | .command | .header | .parameters | .suffix | .string => false

/-- The sequence that a shown character leaves. It is taken up again at the next control character,
unless a character beyond ASCII has been shown before. -/
def kept (sequence : Sequence) (c : Char) : Sequence :=
  if c.toNat < 128 then sequence else .outside

end Sequence

/-- What is shown of a text that stands in a sequence, `showing` if the character before it is. -/
def visibleFrom (showing : Bool) (sequence : Sequence) : Text → Text
  | [] => []
  | c :: rest =>
      if showing && plain c || sequence.shows c then
        c :: visibleFrom true (sequence.kept c) rest
      else visibleFrom false (sequence.next c) rest

def visible (text : Text) : Text := visibleFrom false .outside text

end PrincipalForm.Text
