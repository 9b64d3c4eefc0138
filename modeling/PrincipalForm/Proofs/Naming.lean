import PrincipalForm.Proofs.Equivariance
import PrincipalForm.Proofs.Listing
import PrincipalForm.Proofs.Multiplicity

/-!
Letters as names. A renaming may put the letters of a text in another order, and with it the columns of the
table, its rows and the minterms. What is refused stays refused for the same fault, and what is true of a
valuation is true of the renamed one. Where the letters keep their order, so do the rows and the minterms, and
the expansion is written as before but for the names.
-/

namespace PrincipalForm

theorem Expansion.ofValuation_mem_ofTable_iff {letters : List Letter} {polish : Polish} {table : Table}
    (generated : Table.generate letters polish = .ok table) (sorted : Ascending.Sorted id letters)
    (valuation : Valuation) :
    Minterm.ofValuation valuation ∈ ofTable table ↔
      valuation.letters = letters ∧ evaluate polish valuation = .ok true := by
  rw [mem_ofTable_iff generated sorted]
  constructor
  · rintro ⟨source, ranged, holds, same⟩
    exact Minterm.ofValuation_inj same ▸ ⟨ranged, holds⟩
  · rintro ⟨ranged, holds⟩
    exact ⟨valuation, ranged, holds, rfl⟩

namespace Renaming

variable (names : Renaming)

def inverse : Renaming := ⟨names.back, names.there, names.there_back, names.back_there⟩

def minterm (minterm : Minterm) : Minterm := ⟨names.text minterm.text⟩

theorem valuation_inverse (valuation : Valuation) :
    names.valuation (names.inverse.valuation valuation) = valuation := by
  apply Valuation.eq_of_get?
  intro letter
  rw [get?_valuation, get?_valuation]
  exact congrArg valuation.get? (names.there_back letter)

theorem letters_valuation_eq_iff (valuation : Valuation) (text : Text) :
    (names.valuation valuation).letters = Letter.roster (names.text text) ↔
      valuation.letters = Letter.roster text := by
  constructor
  · intro same
    apply Ascending.eq_of_mem_iff valuation.letters_sorted (Letter.roster_sorted text)
    intro letter
    have renamed := names.mem_letters_valuation valuation (names.there letter)
    rw [same, mem_roster_text, names.back_there] at renamed
    exact renamed.symm
  · intro same
    apply Ascending.eq_of_mem_iff (Valuation.letters_sorted _) (Letter.roster_sorted _)
    intro letter
    rw [mem_letters_valuation, mem_roster_text, same]

section Faults

variable {text : Text}

theorem admissible_text (admissible : text.Admissible) : (names.text text).Admissible := by
  have renamed := names.ofText_text text
  rw [admissible.ofText_eq] at renamed
  exact ((Formula.ofText_eq_ok_iff (names.text text) _).mp renamed).1

/-- The first row of a table tells the fault of the table, and of two first rows the renamed one has the
same fault: no letter is unassigned in either. -/
theorem evaluate_first_eq_error_iff (text : Text) (fault : Fault) :
    evaluate (names.text text).polish (.ofIndex (Letter.roster (names.text text)) 0) = .error fault ↔
      evaluate text.polish (.ofIndex (Letter.roster text) 0) = .error fault := by
  have ranged := Valuation.letters_ofIndex _ 0 (Letter.roster_sorted text)
  have others := Valuation.letters_ofIndex _ 0 (Letter.roster_sorted (names.text text))
  have same := others.trans ((names.letters_valuation_eq_iff _ text).mpr ranged).symm
  have renamed := names.evaluate_token text.polish (.ofIndex (Letter.roster text) 0)
  rw [(Evaluation.evaluate_alike same _).error_iff, polish_text, renamed]
  cases outcome : evaluate text.polish (.ofIndex (Letter.roster text) 0) with
  | ok value => exact iff_of_false nofun nofun
  | error first =>
      obtain ⟨cause, rfl⟩ :=
        Text.malformed_of_fault (Valuation.covers_of_letters ranged) outcome
      rfl

theorem table_eq_error_iff (admissible : text.Admissible) (fault : Fault) :
    Direct.table (names.text text) = .error fault ↔ Direct.table text = .error fault := by
  rw [Direct.table_eq admissible, Direct.table_eq (names.admissible_text admissible)]
  have size := names.length_roster_text text
  by_cases few : (Letter.roster text).length ≤ letterLimit
  · rw [Table.generate_eq_error_iff few, Table.generate_eq_error_iff (size ▸ few)]
    exact names.evaluate_first_eq_error_iff text fault
  · have many := Nat.not_le.mp few
    rw [Table.generate, Table.generate, size, if_pos many, if_pos many]

end Faults

theorem evaluate_token_eq_true_iff (polish : Polish) (valuation : Valuation) :
    evaluate (polish.map names.token) (names.valuation valuation) = .ok true ↔
      evaluate polish valuation = .ok true := by
  rw [evaluate_token]
  cases evaluate polish valuation with
  | error fault => exact iff_of_false nofun nofun
  | ok value => rfl

theorem mem_ofTable_text_iff {text : Text} {table other : Table}
    (generated : Table.generate (Letter.roster text) text.polish = .ok table)
    (renamed : Table.generate (Letter.roster (names.text text)) (names.text text).polish = .ok other)
    (valuation : Valuation) :
    Minterm.ofValuation (names.valuation valuation) ∈ Expansion.ofTable other ↔
      Minterm.ofValuation valuation ∈ Expansion.ofTable table := by
  rw [Expansion.ofValuation_mem_ofTable_iff generated (Letter.roster_sorted _),
    Expansion.ofValuation_mem_ofTable_iff renamed (Letter.roster_sorted _), polish_text,
    letters_valuation_eq_iff, evaluate_token_eq_true_iff]

section Order

variable {names} {valuation : Valuation}

theorem entries_valuation (kept : names.KeepsOrder valuation.letters) :
    (names.valuation valuation).entries =
      valuation.entries.map fun entry => (names.there entry.1, entry.2) := by
  have sorted : Ascending.Sorted Prod.fst
      (valuation.entries.map fun entry => (names.there entry.1, entry.2)) := by
    apply List.pairwise_map.mpr
    apply valuation.sorted.imp_of_mem
    intro entry other inside within before
    exact kept _ (List.mem_map_of_mem inside) _ (List.mem_map_of_mem within) before
  exact congrArg Valuation.entries (Valuation.ofPairs_eq _ sorted)

theorem letters_valuation (kept : names.KeepsOrder valuation.letters) :
    (names.valuation valuation).letters = valuation.letters.map names.there := by
  simp [Valuation.letters, entries_valuation kept]

theorem index_valuation (kept : names.KeepsOrder valuation.letters) :
    (names.valuation valuation).index = valuation.index := by
  simp [Valuation.index, Valuation.values, entries_valuation kept, Function.comp_def]

theorem text_literal (entry : Letter × Bool) :
    names.text (Minterm.literal entry) = Minterm.literal (names.there entry.1, entry.2) := by
  have sign : names.character '!' = '!' := names.character_of_none rfl
  obtain ⟨letter, _ | _⟩ := entry <;>
    simp [Renaming.text, Minterm.literal, character_name, sign]

theorem ofValuation_valuation (kept : names.KeepsOrder valuation.letters) :
    Minterm.ofValuation (names.valuation valuation) = names.minterm (Minterm.ofValuation valuation) := by
  have literals : names.text (valuation.entries.flatMap Minterm.literal) =
      valuation.entries.flatMap fun entry => names.text (Minterm.literal entry) := List.map_flatMap
  simp only [Minterm.ofValuation, minterm, entries_valuation kept, List.flatMap_map, literals,
    text_literal]

theorem text_intercalate (pieces : List Text) :
    names.text (List.intercalate ['+'] pieces) = List.intercalate ['+'] (pieces.map names.text) := by
  have plus : names.character '+' = '+' := names.character_of_none rfl
  induction pieces with
  | nil => rfl
  | cons piece rest ih =>
      cases rest with
      | nil => rw [List.map_singleton, List.intercalate_singleton, List.intercalate_singleton]
      | cons next later =>
          rw [List.map_cons] at ih
          rw [List.map_cons, List.map_cons, List.intercalate_cons_cons, List.intercalate_cons_cons, ← ih]
          simp [Renaming.text, plus]

variable {letters others : List Letter} {given other : Expansion}

theorem minterms_of_keepsOrder (kept : names.KeepsOrder letters) (ranges : given.Ranges letters)
    (rangesOther : other.Ranges others)
    (same : ∀ valuation, Minterm.ofValuation (names.valuation valuation) ∈ other ↔
      Minterm.ofValuation valuation ∈ given) :
    other.minterms = given.minterms.map names.minterm := by
  have renamed : ∀ valuation : Valuation, valuation.letters = letters →
      Minterm.ofValuation (names.valuation valuation) =
        names.minterm (Minterm.ofValuation valuation) := by
    rintro valuation rfl
    exact ofValuation_valuation kept
  have ordered : (given.minterms.map names.minterm).Pairwise (· < ·) := by
    apply List.pairwise_map.mpr
    apply given.sorted.imp_of_mem
    intro earlier later inside within before
    obtain ⟨first, ranged, rfl⟩ := ranges earlier inside
    obtain ⟨second, rangedSecond, rfl⟩ := ranges later within
    have together := ranged.trans rangedSecond.symm
    have keptFirst : names.KeepsOrder first.letters := ranged ▸ kept
    have keptSecond : names.KeepsOrder second.letters := rangedSecond ▸ kept
    have letters : (names.valuation first).letters = (names.valuation second).letters := by
      rw [letters_valuation keptFirst, letters_valuation keptSecond, together]
    rw [← renamed first ranged, ← renamed second rangedSecond, Minterm.ofValuation_lt_iff letters,
      index_valuation keptFirst, index_valuation keptSecond]
    exact (Minterm.ofValuation_lt_iff together).mp before
  apply Ascending.eq_of_mem_iff other.sorted ordered
  intro minterm
  rw [List.mem_map]
  constructor
  · -- the minterm comes from the valuation with the names taken back
    intro member
    obtain ⟨valuation, _, rfl⟩ := rangesOther minterm member
    rw [← names.valuation_inverse valuation] at member ⊢
    have source := (same _).mp member
    obtain ⟨found, ranged, equal⟩ := ranges _ source
    rw [Minterm.ofValuation_inj equal] at ranged
    exact ⟨_, source, (renamed _ ranged).symm⟩
  · rintro ⟨earlier, member, rfl⟩
    obtain ⟨valuation, ranged, rfl⟩ := ranges earlier member
    rw [← renamed valuation ranged]
    exact (same valuation).mpr member

theorem write_of_minterms (renamed : other.minterms = given.minterms.map names.minterm)
    (satisfiable : given.isContradiction = false) : other.write = names.text given.write := by
  have texts : other.minterms.map Minterm.text = (given.minterms.map Minterm.text).map names.text := by
    rw [renamed, List.map_map, List.map_map]
    rfl
  have holds : other.isContradiction = false := by
    rw [Expansion.isContradiction, renamed, List.isEmpty_map]
    exact satisfiable
  rw [Expansion.write, Expansion.write, holds, satisfiable, texts, ← text_intercalate]
  rfl

end Order

end Renaming

/-- A renamed text is refused or has no expansion for the same fault as the text. If they compile, the renamed
expansion holds the minterms of the renamed valuations; and where the letters of the text keep their order, it
is written as the expansion of the text is, with the letters renamed, unless that is a contradiction. -/
theorem renaming_keeps_expansions (names : Renaming) (text : Text) :
    (∀ fault, Formula.ofText (names.text text) = .error fault ↔ Formula.ofText text = .error fault) ∧
      ∀ formula, Formula.ofText text = .ok formula →
        ∃ renamed, Formula.ofText (names.text text) = .ok renamed ∧
          -- whatever the two formulas were asked before
          ∀ calls others : List Question,
            (∀ fault, (Request.expansion (renamed.after others)).answer = .error fault ↔
              (Request.expansion (formula.after calls)).answer = .error fault) ∧
            ∀ given, (Request.expansion (formula.after calls)).answer = .ok given →
              ∃ other, (Request.expansion (renamed.after others)).answer = .ok other ∧
                (∀ valuation, Minterm.ofValuation valuation ∈ given ↔
                  Minterm.ofValuation (names.valuation valuation) ∈ other) ∧
                (names.KeepsOrder formula.letters → given.isContradiction = false →
                  other.write = names.text given.write) := by
  constructor
  · intro fault
    rw [names.ofText_text]
    cases Formula.ofText text with
    | error cause => rfl
    | ok formula => exact iff_of_false nofun nofun
  · intro formula admitted
    obtain ⟨admissible, same⟩ := (Formula.ofText_eq_ok_iff text formula).mp admitted
    have fresh : formula = .reaching text 0 := same
    subst fresh
    have legal := names.admissible_text admissible
    refine ⟨.reaching (names.text text) 0, legal.ofText_eq, ?_⟩
    intro calls others
    rw [Request.meets_expansion.answer_after legal, Request.meets_expansion.answer_after admissible,
      Direct.expansion_eq_map, Direct.expansion_eq_map]
    have fails := names.table_eq_error_iff admissible
    cases tabulated : Direct.table text with
    | error fault =>
        rw [(fails fault).mpr tabulated]
        exact ⟨fun _ => Iff.rfl, fun given compiled => by cases compiled⟩
    | ok table =>
        cases relabelled : Direct.table (names.text text) with
        | error fault => cases tabulated.symm.trans ((fails fault).mp relabelled)
        | ok other =>
            have generated := (Direct.table_eq admissible).symm.trans tabulated
            have renamed := (Direct.table_eq legal).symm.trans relabelled
            have members := names.mem_ofTable_text_iff generated renamed
            have ranges := Expansion.ranges_ofTable generated (Letter.roster_sorted _)
            have rangesOther := Expansion.ranges_ofTable renamed (Letter.roster_sorted _)
            refine ⟨fun fault => iff_of_false nofun nofun, fun given compiled => ?_⟩
            cases compiled
            refine ⟨_, rfl, fun valuation => (members valuation).symm, fun kept satisfiable => ?_⟩
            exact Renaming.write_of_minterms
              (Renaming.minterms_of_keepsOrder kept ranges rangesOther members) satisfiable

def Renaming.exchange (first second : Letter) : Renaming where
  there letter := if letter = first then second else if letter = second then first else letter
  back letter := if letter = first then second else if letter = second then first else letter
  back_there letter := by grind
  there_back letter := by grind

/-- With `c` for `b`, the expansion of `a+!b` is written as that of `a+!c`, the letters being in order as
before. An exchange of `a` and `b` puts them in another order, and the minterm of the letter that was alone
true is still there. -/
theorem renaming_of_sum :
    (Renaming.exchange .b .c).KeepsOrder [.a, .b] ∧
      (∃ renamed given other, Formula.ofText ['a', '+', '!', 'c'] = .ok renamed ∧
        (Request.expansion { origin := ['a', '+', '!', 'b'], letters := [.a, .b] }).answer =
          .ok given ∧
        (Request.expansion renamed).answer = .ok other ∧
        other.write = (Renaming.exchange .b .c).text given.write) ∧
      (∃ renamed other, Formula.ofText ['b', '+', '!', 'a'] = .ok renamed ∧
        (Request.expansion renamed).answer = .ok other ∧
        Minterm.ofValuation (.ofPairs [(.a, false), (.b, true)]) ∈ other) ∧
      Formula.ofText ((Renaming.exchange .a .b).text ['a', '?']) = .error (.illegalCharacter '?' 1) := by
  have built : Formula.ofText ['a', '+', '!', 'b'] =
      .ok { origin := ['a', '+', '!', 'b'], letters := [.a, .b] } := by
    decide
  have compiled :
      (Request.expansion { origin := ['a', '+', '!', 'b'], letters := [.a, .b] }).answer =
        .ok (.ofList [⟨['a', 'b']⟩, ⟨['a', '!', 'b']⟩, ⟨['!', 'a', '!', 'b']⟩]) := by
    decide
  have kept : (Renaming.exchange .b .c).KeepsOrder [.a, .b] := by decide
  refine ⟨kept, ?_, ?_, ?_⟩
  · obtain ⟨renamed, named, answers⟩ :=
      (renaming_keeps_expansions (.exchange .b .c) ['a', '+', '!', 'b']).2 _ built
    obtain ⟨other, given, _, written⟩ := (answers [] []).2 _ compiled
    exact ⟨renamed, _, other, named, compiled, given, written kept (by decide)⟩
  · obtain ⟨renamed, named, answers⟩ :=
      (renaming_keeps_expansions (.exchange .a .b) ['a', '+', '!', 'b']).2 _ built
    obtain ⟨other, given, members, _⟩ := (answers [] []).2 _ compiled
    exact ⟨renamed, other, named, given,
      (members (.ofPairs [(.a, true), (.b, false)])).mp (by decide)⟩
  · exact ((renaming_keeps_expansions (.exchange .a .b) ['a', '?']).1 _).mpr (by decide)

end PrincipalForm
