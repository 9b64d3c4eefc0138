import PrincipalForm.Text.Lines

/-!
Lines of bytes and of text. Bytes that end a line can be followed by others without changing a line, and
texts written each on a line of its own are read back as they were, since no character but the line ends
themselves is encoded with their bytes.
-/

namespace PrincipalForm.Text

namespace Lines

theorem gather_append (gathered first second : Bytes) :
    gather gathered (first ++ newline :: second) =
      gather gathered (first ++ [newline]) ++ gather [] second := by
  induction first generalizing gathered with
  | nil => simp [gather]
  | cons byte rest ih =>
      rw [List.cons_append, List.cons_append, gather, gather]
      by_cases last : byte = newline
      · rw [if_pos last, if_pos last, ih, List.cons_append]
      · rw [if_neg last, if_neg last, ih]

theorem split_append {first : Bytes} (ended : first = [] ∨ first.getLast? = some newline)
    (second : Bytes) : split (first ++ second) = split first ++ split second := by
  rcases ended with rfl | last
  · rfl
  · obtain ⟨before, rfl⟩ := List.getLast?_eq_some_iff.mp last
    rw [List.append_assoc, List.singleton_append]
    exact gather_append [] before second

theorem gather_line {line : Bytes} (whole : newline ∉ line) (gathered rest : Bytes) :
    gather gathered (line ++ newline :: rest) = ended (line.reverse ++ gathered) :: gather [] rest := by
  induction line generalizing gathered with
  | nil => simp [gather]
  | cons byte later ih =>
      have other : byte ≠ newline := fun same => whole (same ▸ List.mem_cons_self)
      have further := ih fun member => whole (List.mem_cons_of_mem byte member)
      rw [List.cons_append, gather, if_neg other, further, List.reverse_cons, List.append_assoc]
      rfl

theorem ended_reverse {line : Bytes} (bare : carriageReturn ∉ line) : ended line.reverse = line := by
  cases backwards : line.reverse with
  | nil => exact (List.reverse_eq_nil_iff.mp backwards).symm
  | cons byte earlier =>
      have member : byte ∈ line := List.mem_reverse.mp (backwards ▸ List.mem_cons_self)
      have other : byte ≠ carriageReturn := fun same => bare (same ▸ member)
      rw [ended, if_neg other, ← backwards, List.reverse_reverse]

end Lines

theorem lines_append {first : Bytes} (ended : first = [] ∨ first.getLast? = some Lines.newline)
    (second : Bytes) : lines (first ++ second) = lines first ++ lines second := by
  rw [lines, Lines.split_append ended, List.map_append, lines, lines]

/-- A byte below 128 encodes the character of its number and no part of another. -/
theorem toNat_of_mem_utf8EncodeChar {byte : UInt8} {c : Char}
    (member : byte ∈ String.utf8EncodeChar c) (single : byte.toNat < 128) :
    byte.toNat = c.toNat := by
  -- every byte of a longer encoding has its highest bit set
  have low : ∀ number, byte = UInt8.ofNat number → number < 256 → number < 128 := by
    intro number same within
    rw [same, UInt8.toNat_ofNat', Nat.mod_eq_of_lt within] at single
    exact single
  have code : c.val.toNat = c.toNat := rfl
  unfold String.utf8EncodeChar at member
  rw [code] at member
  dsimp only at member
  split at member
  next short =>
    have small : c.toNat < 256 := by omega
    rw [List.mem_singleton.mp member, UInt8.toNat_ofNat', Nat.mod_eq_of_lt small]
  next =>
    split at member
    next =>
      simp only [List.mem_cons, List.not_mem_nil, or_false] at member
      rcases member with same | same <;> have := low _ same (by omega) <;> omega
    next =>
      split at member
      next =>
        simp only [List.mem_cons, List.not_mem_nil, or_false] at member
        rcases member with same | same | same <;> have := low _ same (by omega) <;> omega
      next =>
        simp only [List.mem_cons, List.not_mem_nil, or_false] at member
        rcases member with same | same | same | same <;> have := low _ same (by omega) <;> omega

theorem newline_mem_encode {text : Text} (member : Lines.newline ∈ encode text) : '\n' ∈ text := by
  obtain ⟨c, inside, encoded⟩ := List.mem_flatMap.mp member
  have number := toNat_of_mem_utf8EncodeChar encoded (by decide)
  have same : c = '\n' := Char.toNat_inj.mp number.symm
  exact same ▸ inside

theorem carriageReturn_mem_encode {text : Text} (member : Lines.carriageReturn ∈ encode text) :
    '\r' ∈ text := by
  obtain ⟨c, inside, encoded⟩ := List.mem_flatMap.mp member
  have number := toNat_of_mem_utf8EncodeChar encoded (by decide)
  have same : c = '\r' := Char.toNat_inj.mp number.symm
  exact same ▸ inside

/-- Text written as lines, each with its line end. -/
def ofLines (pieces : List Text) : Text := pieces.flatMap fun piece => piece ++ ['\n']

theorem lines_encode_ofLines {pieces : List Text}
    (whole : ∀ piece ∈ pieces, '\n' ∉ piece ∧ '\r' ∉ piece) :
    lines (encode (ofLines pieces)) = pieces.map some := by
  induction pieces with
  | nil => rfl
  | cons piece rest ih =>
      obtain ⟨unbroken, bare⟩ := whole piece List.mem_cons_self
      have later := ih fun other member => whole other (List.mem_cons_of_mem piece member)
      have written : encode (ofLines (piece :: rest)) =
          encode piece ++ Lines.newline :: encode (ofLines rest) := by
        simp only [encode, ofLines, List.flatMap_cons, List.flatMap_append, List.append_assoc]
        rfl
      have first := Lines.gather_line (mt newline_mem_encode unbroken) [] (encode (ofLines rest))
      rw [List.append_nil, Lines.ended_reverse (mt carriageReturn_mem_encode bare)] at first
      rw [lines, Lines.split] at later
      rw [lines, Lines.split, written, first, List.map_cons, decode?_encode, later, List.map_cons]

end PrincipalForm.Text
