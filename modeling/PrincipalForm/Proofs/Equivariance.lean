import Mathlib.Data.List.Nodup
import Mathlib.Data.List.TakeDrop
import PrincipalForm.Proofs.Compilation
import PrincipalForm.Renaming

/-!
Stages of a renamed text. No stage looks at which letter a letter is: what is legal, where a conjunction is
missing, which negations cancel and which operators are held back is the same after renaming, so every stage
gives what it gives for the text itself, with the letters renamed. Under the renamed valuation the stack is
the same too, step by step.
-/

namespace PrincipalForm

namespace Renaming

variable (names : Renaming)

def token : Token → Token
  | .atom letter => .atom (names.there letter)
  | other => other

/-- Only an unassigned letter has a name in its fault. -/
def fault : Fault → Fault
  | .unassigned letter => .unassigned (names.there letter)
  | other => other

theorem character_name (letter : Letter) :
    names.character letter.name = (names.there letter).name := by
  rw [character, letter.ofChar?_name]

theorem character_of_none {c : Char} (other : Letter.ofChar? c = none) : names.character c = c := by
  rw [character, other]

theorem letter_character (c : Char) :
    Letter.ofChar? (names.character c) = (Letter.ofChar? c).map names.there := by
  rcases Letter.name_or_other c with ⟨letter, rfl⟩ | other
  · rw [character_name, Letter.ofChar?_name, Letter.ofChar?_name, Option.map_some]
  · rw [names.character_of_none other, other, Option.map_none]

theorem token_character (c : Char) :
    Token.ofChar? (names.character c) = (Token.ofChar? c).map names.token := by
  rcases Letter.name_or_other c with ⟨letter, rfl⟩ | other
  · have here := Token.ofChar?_symbol (.atom letter)
    have there := Token.ofChar?_symbol (.atom (names.there letter))
    rw [Token.symbol] at here there
    rw [character_name, here, there]
    rfl
  · rw [names.character_of_none other]
    cases found : Token.ofChar? c with
    | none => rfl
    | some token =>
        cases token with
        | atom letter =>
            obtain rfl := (Token.ofChar?_eq_some_iff c (.atom letter)).mp found
            cases other.symm.trans letter.ofChar?_name
        | _ => rfl

theorem legal_character (c : Char) : Alphabet.legal (names.character c) = Alphabet.legal c := by
  rcases Letter.name_or_other c with ⟨letter, rfl⟩ | other
  · rw [character_name, Alphabet.legal_name, Alphabet.legal_name]
  · rw [names.character_of_none other]

theorem read_text (text : Text) :
    Token.read (names.text text) = (Token.read text).map names.token := by
  simp [Token.read, Renaming.text, List.filterMap_map, List.map_filterMap, token_character]

theorem mem_map_there (letters : List Letter) (letter : Letter) :
    letter ∈ letters.map names.there ↔ names.back letter ∈ letters := by
  rw [List.mem_map]
  constructor
  · rintro ⟨named, member, rfl⟩
    rwa [names.back_there]
  · exact fun member => ⟨names.back letter, member, names.there_back letter⟩

theorem mem_roster_text (text : Text) (letter : Letter) :
    letter ∈ Letter.roster (names.text text) ↔ names.back letter ∈ Letter.roster text := by
  have renamed : (names.text text).filterMap Letter.ofChar? =
      (text.filterMap Letter.ofChar?).map names.there := by
    simp [Renaming.text, List.filterMap_map, List.map_filterMap, letter_character]
  rw [Letter.mem_roster_iff, Letter.mem_roster_iff, renamed, mem_map_there]

theorem length_roster_text (text : Text) :
    (Letter.roster (names.text text)).length = (Letter.roster text).length := by
  have distinct : ((Letter.roster text).map names.there).Nodup :=
    List.Nodup.map (fun _ _ same => names.there_injective same) (Letter.nodup_roster text)
  have order : (Letter.roster (names.text text)).Perm ((Letter.roster text).map names.there) := by
    apply (List.perm_ext_iff_of_nodup (Letter.nodup_roster _) distinct).mpr
    intro letter
    rw [mem_roster_text, mem_map_there]
  rw [order.length_eq, List.length_map]

/-- An illegal character is no letter, so it is found where it was and as it was. -/
theorem offender?_text (position : Nat) (text : Text) :
    Alphabet.offender? position (names.text text) = Alphabet.offender? position text := by
  induction text generalizing position with
  | nil => rfl
  | cons c rest ih =>
      have opened : names.text (c :: rest) = names.character c :: names.text rest := rfl
      rw [opened, Alphabet.offender?, Alphabet.offender?, legal_character, ih]
      by_cases known : Alphabet.legal c = true
      · rw [if_pos known, if_pos known]
      · rcases Letter.name_or_other c with ⟨letter, rfl⟩ | other
        · exact absurd (Alphabet.legal_name letter) known
        · rw [names.character_of_none other]

theorem character_eq_space_iff (c : Char) : names.character c = ' ' ↔ c = ' ' := by
  rcases Letter.name_or_other c with ⟨letter, rfl⟩ | other
  · rw [character_name]
    exact iff_of_false (Letter.name_ne rfl _) (Letter.name_ne rfl letter)
  · rw [names.character_of_none other]

theorem ofText_text (text : Text) :
    Formula.ofText (names.text text) = (Formula.ofText text).map fun _ =>
      { origin := names.text text, letters := Letter.roster (names.text text) } := by
  have blank : (names.text text).all (· = ' ') = text.all (· = ' ') := by
    simp [Renaming.text, List.all_map, Function.comp_def, character_eq_space_iff]
  rw [Formula.ofText, Formula.ofText, Alphabet.check, Alphabet.check, offender?_text, blank]
  cases Alphabet.offender? 0 text with
  | some found => rfl
  | none => cases text.all (· = ' ') <;> rfl

theorem push_token (written : List Token) (token : Token) :
    Normal.push (written.map names.token) (names.token token) =
      (Normal.push written token).map names.token := by
  cases token with
  | neg =>
      cases written with
      | nil => rfl
      | cons last earlier => cases last <;> rfl
  | _ => simp [Normal.push, Renaming.token]

theorem endsOperand_token (token : Token) :
    Normal.endsOperand (names.token token) = Normal.endsOperand token := by
  cases token <;> rfl

theorem startsOperand_token (token : Token) :
    Normal.startsOperand (names.token token) = Normal.startsOperand token := by
  cases token <;> rfl

theorem spell_token (written tokens : List Token) :
    Normal.spell (written.map names.token) (tokens.map names.token) =
      (Normal.spell written tokens).map names.token := by
  induction tokens generalizing written with
  | nil => simp [Normal.spell]
  | cons token rest ih =>
      cases rest with
      | nil => simp [Normal.spell, push_token]
      | cons next later =>
          have joined := ih (.conj :: Normal.push written token)
          have apart := ih (Normal.push written token)
          simp only [List.map_cons] at joined apart ⊢
          simp only [Normal.spell, endsOperand_token, startsOperand_token, push_token]
          split
          · exact joined
          · exact apart

theorem givesWay_token (arriving held : Token) :
    Polish.givesWay arriving (names.token held) = Polish.givesWay arriving held := by
  cases held <;> rfl

theorem release_token (arriving : Token) (held : List Token) :
    Polish.release arriving (held.map names.token) =
      ((Polish.release arriving held).1.map names.token,
        (Polish.release arriving held).2.map names.token) := by
  simp [Polish.release, List.span_eq_takeWhile_dropWhile, List.takeWhile_map, List.dropWhile_map,
    Function.comp_def, givesWay_token]

theorem arrangeHolding_token (held tokens : List Token) :
    Polish.arrangeHolding (held.map names.token) (tokens.map names.token) =
      (Polish.arrangeHolding held tokens).map names.token := by
  induction tokens generalizing held with
  | nil => simp [Polish.arrangeHolding]
  | cons token rest ih =>
      cases token with
      | atom letter => simp [Polish.arrangeHolding, Renaming.token, ih]
      | closing =>
          cases split : Polish.release .closing held with
          | mk released kept =>
              -- the closing parenthesis asks whether an opening one is next beneath
              cases kept with
              | nil => simp [Polish.arrangeHolding, Renaming.token, release_token, split, ← ih]
              | cons last below =>
                  cases last <;>
                    simp [Polish.arrangeHolding, Renaming.token, release_token, split, ← ih]
      | opening | conj | disj | neg =>
          simp [Polish.arrangeHolding, Renaming.token, release_token, ← ih]

theorem polish_text (text : Text) : (names.text text).polish = text.polish.map names.token := by
  have spelt := names.spell_token [] (Token.read text)
  have arranged := names.arrangeHolding_token [] (Normal.spell [] (Token.read text))
  rw [List.map_nil] at spelt arranged
  rw [Text.polish, Text.polish, read_text, spelt, Polish.arrange, Polish.arrange, arranged]

theorem lookup_there (entries : List (Letter × Bool)) (letter : Letter) :
    (entries.map fun entry => (names.there entry.1, entry.2)).lookup letter =
      entries.lookup (names.back letter) := by
  induction entries with
  | nil => rfl
  | cons entry rest ih =>
      have named : letter = names.there entry.1 ↔ names.back letter = entry.1 := by
        constructor
        · rintro rfl
          exact names.back_there entry.1
        · intro same
          rw [← same, names.there_back]
      simp [Ascending.lookup_cons, ih, named]

theorem get?_valuation (valuation : Valuation) (letter : Letter) :
    (names.valuation valuation).get? letter = valuation.get? (names.back letter) := by
  rw [Renaming.valuation, Valuation.get?_ofPairs, ← List.map_reverse, lookup_there,
    Ascending.lookup_reverse _ valuation.sorted]
  rfl

theorem mem_letters_valuation (valuation : Valuation) (letter : Letter) :
    letter ∈ (names.valuation valuation).letters ↔ names.back letter ∈ valuation.letters := by
  rw [Valuation.mem_letters_iff, Valuation.mem_letters_iff, get?_valuation]

theorem step_token (valuation : Valuation) (stack : List Bool) (token : Token) :
    Evaluation.step (names.valuation valuation) stack (names.token token) =
      (Evaluation.step valuation stack token).mapError names.fault := by
  cases token with
  | atom letter =>
      have given := names.get?_valuation valuation (names.there letter)
      rw [names.back_there] at given
      simp only [Renaming.token, Evaluation.step, given]
      cases valuation.get? letter <;> rfl
  | neg => cases stack <;> rfl
  | conj | disj | opening | closing =>
      rcases stack with _ | ⟨right, _ | ⟨left, below⟩⟩ <;> rfl

theorem run_token (valuation : Valuation) (stack : List Bool) (polish : Polish) :
    Evaluation.run (names.valuation valuation) stack (polish.map names.token) =
      (Evaluation.run valuation stack polish).mapError names.fault := by
  induction polish generalizing stack with
  | nil => rfl
  | cons token rest ih =>
      rw [List.map_cons, Evaluation.run, Evaluation.run, step_token]
      cases Evaluation.step valuation stack token with
      | error fault => rfl
      | ok next => exact ih next

theorem evaluate_token (polish : Polish) (valuation : Valuation) :
    evaluate (polish.map names.token) (names.valuation valuation) =
      (evaluate polish valuation).mapError names.fault := by
  rw [evaluate, evaluate, run_token]
  cases Evaluation.run valuation [] polish with
  | error fault => rfl
  | ok stack => rcases stack with _ | ⟨value, _ | ⟨other, below⟩⟩ <;> rfl

end Renaming

end PrincipalForm
