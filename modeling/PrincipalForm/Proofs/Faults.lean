import PrincipalForm.Proofs.Chronicle
import PrincipalForm.Proofs.Connectives
import PrincipalForm.Proofs.Sheets

/-!
Which fault a text has. Faults are looked for in a fixed order: an illegal character, then the lack of a
token, then too many letters, then the syntax. Characters are told apart in several places, as legal, as
white, as tokens and as letters. For legal text the places agree, so that what one of them lets through
is not lost in another, and the letters of a text are all that its Polish sequence asks a value for.
-/

namespace PrincipalForm

namespace Alphabet

theorem offender?_append {before : Text} {offender : Char} (position : Nat) (after : Text)
    (clean : ∀ c ∈ before, legal c = true) (illegal : legal offender = false) :
    offender? position (before ++ offender :: after) =
      some (offender, position + before.length) := by
  induction before generalizing position with
  | nil => simp [offender?, illegal]
  | cons c rest ih =>
      obtain ⟨known, clean⟩ := List.forall_mem_cons.mp clean
      rw [List.cons_append, offender?, if_pos known, ih (position + 1) clean, List.length_cons]
      congr 2
      omega

theorem exists_offender {text : Text} (illegal : ∃ c ∈ text, legal c = false) :
    ∃ before offender after, text = before ++ offender :: after ∧
      (∀ c ∈ before, legal c = true) ∧ legal offender = false := by
  have occurs : (text.find? fun c => !legal c).isSome = true := by
    simpa [List.find?_isSome] using illegal
  obtain ⟨offender, found⟩ := Option.isSome_iff_exists.mp occurs
  obtain ⟨unknown, before, after, split, clean⟩ := List.find?_eq_some_iff_append.mp found
  exact ⟨before, offender, after, split, by simpa using clean, by simpa using unknown⟩

end Alphabet

namespace Text

def letterCount (text : Text) : Nat := (text.toFinset.filter fun c => c.isLower = true).card

theorem length_roster (text : Text) : (Letter.roster text).length = text.letterCount := by
  have distinct : Function.Injective Letter.name := fun _ _ => Letter.eq_of_name
  have counted : (Letter.roster text).length = (text.filterMap Letter.ofChar?).toFinset.card := by
    apply Letter.length_roster
    intro letter
    rw [Letter.mem_roster_iff, List.mem_toFinset]
  have named : (text.filterMap Letter.ofChar?).toFinset.image Letter.name =
      text.toFinset.filter fun c => c.isLower = true := by
    ext c
    simp [Letter.ofChar?]
  rw [counted, letterCount, ← named, Finset.card_image_of_injective _ distinct]

end Text

theorem Token.write_read_of_legal {text : Text} (legal : text.all Alphabet.legal = true) :
    write (read text) = text.filter fun c => !Text.white c := by
  rw [write_read text legal]
  refine List.filter_congr fun c member => ?_
  have known := List.all_eq_true.mp legal c member
  by_cases space : c = ' '
  · subst space
    rfl
  · have dark := Bool.eq_false_iff.mpr (mt (Text.white_of_legal known) space)
    rw [dark, decide_eq_true space]
    rfl

theorem Token.isSome_of_write {tokens : List Token} :
    ∀ c ∈ write tokens, (ofChar? c).isSome = true := by
  intro c member
  obtain ⟨token, _, rfl⟩ := List.mem_map.mp member
  rw [ofChar?_symbol]
  rfl

namespace Formula

theorem ofText_of_offender {before : Text} {offender : Char} (after : Text)
    (clean : ∀ c ∈ before, Alphabet.legal c = true) (illegal : Alphabet.legal offender = false) :
    ofText (before ++ offender :: after) =
      .error (.illegalCharacter offender before.length) := by
  rw [ofText, Alphabet.check, Alphabet.offender?_append 0 after clean illegal, Nat.zero_add]
  rfl

theorem ofText_of_spaces {text : Text} (spaces : ∀ c ∈ text, c = ' ') :
    ofText text = .error .emptyFormula := by
  have legal : text.all Alphabet.legal = true :=
    List.all_eq_true.mpr fun c member => spaces c member ▸ rfl
  have blank : text.all (· = ' ') = true :=
    List.all_eq_true.mpr fun c member => decide_eq_true (spaces c member)
  rw [ofText, (Alphabet.check_eq_ok_iff text).mpr legal, blank]
  rfl

end Formula

theorem normalize_eq_error_iff (text : Text) (fault : Fault) :
    normalize text = .error fault ↔ Formula.ofText text = .error fault := by
  constructor
  · intro failed
    cases admitted : Formula.ofText text with
    | error cause =>
        rw [normalize_of_refused admitted] at failed
        exact congrArg Except.error (Except.error.inj failed)
    | ok formula =>
        obtain ⟨admissible, _⟩ := (Formula.ofText_eq_ok_iff text formula).mp admitted
        rw [admissible.normalize_eq] at failed
        cases failed
  · exact normalize_of_refused

namespace Direct

variable {text : Text}

theorem table_of_many (admissible : text.Admissible) (many : letterLimit < text.letterCount) :
    table text = .error (.tooManyLetters text.letterCount) := by
  rw [← text.length_roster] at many ⊢
  rw [table_eq admissible, Table.generate, if_pos many]

/-- With few enough letters only the syntax can be wrong: every letter that is asked for has a value. -/
theorem table_of_few (admissible : text.Admissible) (few : text.letterCount ≤ letterLimit) :
    (∃ rows, table text = .ok rows) ∨ ∃ cause, table text = .error (.malformed cause) := by
  cases tabulated : table text with
  | ok rows => exact Or.inl ⟨rows, rfl⟩
  | error fault =>
      rcases table_fault admissible tabulated with ⟨many, _⟩ | ⟨_, ⟨cause, rfl⟩, _⟩
      · rw [text.length_roster] at many
        exact absurd few (Nat.not_le.mpr many)
      · exact Or.inr ⟨cause, rfl⟩

end Direct

theorem Request.Meets.answer_after {Value : Type} {request : Request Value}
    {direct : Text → Except Fault Value} {later : Formula → Prop}
    (meets : Meets (fun _ => True) request direct later) {text : Text}
    (admissible : text.Admissible) (calls : List Question) :
    (request ((Formula.reaching text 0).after calls)).answer = direct text := by
  rw [Formula.after_reaching admissible]
  exact meets.answer_reaching admissible _

/-- The fault of a text, in the order in which faults are found. -/
theorem faults_in_order (text : Text) :
    -- the first illegal character, with its place
    ((∃ c ∈ text, Alphabet.legal c = false) →
      ∃ before offender after, text = before ++ offender :: after ∧
        (∀ c ∈ before, Alphabet.legal c = true) ∧ Alphabet.legal offender = false ∧
        Formula.ofText text = .error (.illegalCharacter offender before.length)) ∧
      -- then the lack of a token
      ((∀ c ∈ text, c = ' ') → Formula.ofText text = .error .emptyFormula) ∧
      -- any other text has a formula
      ((∀ c ∈ text, Alphabet.legal c = true) → (∃ c ∈ text, c ≠ ' ') →
        ∃ formula normal, Formula.ofText text = .ok formula ∧ normalize text = .ok normal ∧
          -- reading drops what is white, and of the normal form nothing
          Token.write (Token.read text) = (text.filter fun c => !Text.white c) ∧
          (∀ c ∈ Token.write normal, (Token.ofChar? c).isSome = true) ∧
          ∀ calls : List Question,
            -- whatever the formula was asked before, it has its normal form and its Polish sequence
            (Request.normal (formula.after calls)).answer = .ok normal ∧
            (Request.polish (formula.after calls)).answer =
              .ok (Polish.arrange (Token.read (Token.write normal))) ∧
            -- too many letters are the fault, whatever the syntax
            (10 < text.letterCount →
              (Request.table (formula.after calls)).answer =
                  .error (.tooManyLetters text.letterCount) ∧
                (Request.expansion (formula.after calls)).answer =
                  .error (.tooManyLetters text.letterCount)) ∧
            -- and then only the syntax is left
            (text.letterCount ≤ 10 →
              (∃ table, (Request.table (formula.after calls)).answer = .ok table ∧
                (Request.expansion (formula.after calls)).answer = .ok (Expansion.ofTable table)) ∨
              ∃ cause, (Request.table (formula.after calls)).answer = .error (.malformed cause) ∧
                (Request.expansion (formula.after calls)).answer = .error (.malformed cause))) ∧
      ∀ fault, normalize text = .error fault ↔ Formula.ofText text = .error fault := by
  refine ⟨?_, Formula.ofText_of_spaces, ?_, normalize_eq_error_iff text⟩
  · intro illegal
    obtain ⟨before, offender, after, rfl, clean, unknown⟩ := Alphabet.exists_offender illegal
    exact ⟨before, offender, after, rfl, clean, unknown,
      Formula.ofText_of_offender after clean unknown⟩
  · intro legal filled
    have admissible := Text.Admissible.of_exists (List.all_eq_true.mpr legal) filled
    have admitted := admissible.ofText_eq
    refine ⟨.reaching text 0, Normal.spell [] (Token.read text), admitted, admissible.normal_eq,
      Token.write_read_of_legal admissible.legal, Token.isSome_of_write, fun calls => ?_⟩
    rw [Request.meets_normal.answer_after admissible, Request.meets_polish.answer_after admissible,
      Request.meets_table.answer_after admissible, Request.meets_expansion.answer_after admissible,
      Direct.expansion_eq_map, Token.read_write]
    refine ⟨admissible.normal_eq, admissible.polish_eq, fun many => ?_, fun few => ?_⟩
    · rw [Direct.table_of_many admissible many]
      exact ⟨rfl, rfl⟩
    · rcases Direct.table_of_few admissible few with ⟨rows, tabulated⟩ | ⟨cause, tabulated⟩
      · rw [tabulated]
        exact Or.inl ⟨rows, rfl, rfl⟩
      · rw [tabulated]
        exact Or.inr ⟨cause, rfl, rfl⟩

def Text.crowdedSum : Text := ['a', 'b', 'c', 'd', 'e', 'f', 'g', 'h', 'i', 'j', 'k', '+']

/-- In `a?B` the second character is the fault, two spaces are no formula, and a sum of eleven letters
without its second term has too many letters. -/
theorem faults_of_crowded_sum :
    normalize ['a', '?', 'B'] = .error (.illegalCharacter '?' 1) ∧
      Formula.ofText [' ', ' '] = .error .emptyFormula ∧
      Request.table.onText Text.crowdedSum = .error (.tooManyLetters 11) := by
  refine ⟨?_, ?_, ?_⟩
  · obtain ⟨_, _, _, same⟩ := faults_in_order ['a', '?', 'B']
    exact (same _).mpr rfl
  · obtain ⟨_, spaces, _, _⟩ := faults_in_order [' ', ' ']
    exact spaces (by simp)
  · have legal : ∀ c ∈ Text.crowdedSum, Alphabet.legal c = true := List.all_eq_true.mp (by decide)
    have filled : ∃ c ∈ Text.crowdedSum, c ≠ ' ' := ⟨'a', List.mem_cons_self, by decide⟩
    have count : Text.crowdedSum.letterCount = 11 := by
      rw [← Text.length_roster]
      decide
    have many : 10 < Text.crowdedSum.letterCount := by rw [count]; decide
    obtain ⟨_, _, otherwise, _⟩ := faults_in_order Text.crowdedSum
    obtain ⟨formula, normal, admitted, _, _, _, answers⟩ := otherwise legal filled
    obtain ⟨_, _, crowded, _⟩ := answers []
    have refused := (crowded many).1
    rw [count] at refused
    rw [Request.onText, admitted]
    exact refused

end PrincipalForm
