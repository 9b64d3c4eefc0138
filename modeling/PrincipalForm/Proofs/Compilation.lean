import PrincipalForm.Proofs.Enumeration
import PrincipalForm.Proofs.Meaning

namespace PrincipalForm

namespace Minterm

def literalTokens (entry : Letter × Bool) : List Token :=
  if entry.2 then [.atom entry.1] else [.neg, .atom entry.1]

def tokens (valuation : Valuation) : List Token := valuation.entries.flatMap literalTokens

theorem write_literalTokens (entry : Letter × Bool) :
    Token.write (literalTokens entry) = literal entry := by
  obtain ⟨letter, _ | _⟩ := entry <;> rfl

theorem write_tokens (valuation : Valuation) :
    Token.write (tokens valuation) = (ofValuation valuation).text := by
  rw [Token.write, tokens, List.map_flatMap]
  exact congrArg (valuation.entries.flatMap ·) (funext write_literalTokens)

/-- A negation belongs to the letter after it, so the literals can be told apart. -/
theorem flatMap_literalTokens_inj {left right : List (Letter × Bool)}
    (same : left.flatMap literalTokens = right.flatMap literalTokens) : left = right := by
  induction left generalizing right with
  | nil =>
      cases right with
      | nil => rfl
      | cons entry rest => obtain ⟨letter, _ | _⟩ := entry <;> cases same
  | cons entry rest ih =>
      cases right with
      | nil => obtain ⟨letter, _ | _⟩ := entry <;> cases same
      | cons other later =>
          obtain ⟨letter, value⟩ := entry
          obtain ⟨name, sign⟩ := other
          rw [List.flatMap_cons, List.flatMap_cons] at same
          cases value <;> cases sign <;> injection same with head tail
          · injection tail with atom tail
            cases atom
            rw [ih tail]
          · cases head
          · cases head
          · cases head
            rw [ih tail]

theorem ofValuation_inj {left right : Valuation}
    (same : ofValuation left = ofValuation right) : left = right := by
  apply Valuation.eq_of_entries
  apply flatMap_literalTokens_inj
  have read := congrArg (fun minterm => Token.read minterm.text) same
  beta_reduce at read
  rw [← write_tokens, ← write_tokens, Token.read_write, Token.read_write] at read
  exact read

end Minterm

namespace Expansion

theorem mem_ofTable_iff {letters : List Letter} {polish : Polish} {table : Table}
    (generated : Table.generate letters polish = .ok table) (sorted : Ascending.Sorted id letters)
    (minterm : Minterm) :
    minterm ∈ ofTable table ↔ ∃ valuation : Valuation, valuation.letters = letters ∧
      evaluate polish valuation = .ok true ∧ Minterm.ofValuation valuation = minterm := by
  rw [ofTable, mem_ofList_iff, List.mem_map]
  constructor
  · rintro ⟨⟨valuation, value⟩, chosen, same⟩
    obtain ⟨listed, holds⟩ := List.mem_filter.mp chosen
    obtain ⟨ranged, valued⟩ := (Table.mem_rows_iff generated sorted _).mp listed
    cases holds
    exact ⟨valuation, ranged, valued, same⟩
  · rintro ⟨valuation, ranged, valued, same⟩
    have listed := (Table.mem_rows_iff generated sorted ⟨valuation, true⟩).mpr ⟨ranged, valued⟩
    exact ⟨_, List.mem_filter.mpr ⟨listed, rfl⟩, same⟩

/-- The minterms are those of the valuations of the letters that make the tree true. -/
def Expresses (expansion : Expansion) (letters : List Letter) (expr : Expr) : Prop :=
  ∀ minterm, minterm ∈ expansion ↔ ∃ valuation : Valuation, valuation.letters = letters ∧
    expr.eval valuation.holds = true ∧ Minterm.ofValuation valuation = minterm

variable {left right : Expansion} {letters : List Letter} {first second : Expr}

theorem Expresses.mem_iff (expresses : left.Expresses letters first) {valuation : Valuation}
    (ranged : valuation.letters = letters) :
    Minterm.ofValuation valuation ∈ left ↔ first.eval valuation.holds = true := by
  rw [expresses]
  constructor
  · rintro ⟨other, _, holds, same⟩
    exact Minterm.ofValuation_inj same ▸ holds
  · intro holds
    exact ⟨valuation, ranged, holds, rfl⟩

theorem Expresses.eq_iff (expresses : left.Expresses letters first)
    (others : right.Expresses letters second) :
    left = right ↔ ∀ valuation : Valuation, valuation.letters = letters →
      first.eval valuation.holds = second.eval valuation.holds := by
  constructor
  · rintro rfl valuation ranged
    rw [Bool.eq_iff_iff, ← expresses.mem_iff ranged, others.mem_iff ranged]
  · intro agree
    apply eq_of_mem_iff
    intro minterm
    rw [expresses, others]
    apply exists_congr
    intro valuation
    apply and_congr_right
    intro ranged
    rw [agree valuation ranged]

end Expansion

theorem Valuation.covers_of_letters {valuation : Valuation} {letters : List Letter}
    (ranged : valuation.letters = letters) : valuation.Covers letters := by
  intro letter member
  exact ranged ▸ member

theorem Direct.table_eq_ok_iff (text : Text) (given : Table) :
    Direct.table text = .ok given ↔
      text.Admissible ∧ Table.generate (Letter.roster text) text.polish = .ok given := by
  rw [table, polish, Fault.bind_eq_ok_iff]
  constructor
  · rintro ⟨sequence, arranged, generated⟩
    obtain ⟨normal, normalized, same⟩ := Fault.bind_eq_ok_iff.mp arranged
    obtain ⟨admissible, rfl⟩ := (normalize_eq_ok_iff text normal).mp normalized
    cases same
    exact ⟨admissible, generated⟩
  · rintro ⟨admissible, generated⟩
    exact ⟨text.polish, admissible.polish_eq, generated⟩

theorem Direct.expansion_eq_map (text : Text) :
    Direct.expansion text = (Direct.table text).map Expansion.ofTable := by
  rw [expansion]
  cases table text <;> rfl

theorem Reads.expresses {text : Text} {expr : Expr} {table : Table} (reads : Reads text expr)
    (generated : Table.generate (Letter.roster text) text.polish = .ok table) :
    (Expansion.ofTable table).Expresses (Letter.roster text) expr := by
  intro minterm
  rw [Expansion.mem_ofTable_iff generated (Letter.roster_sorted text)]
  apply exists_congr
  intro valuation
  apply and_congr_right
  intro ranged
  rw [reads.evaluate (Valuation.covers_of_letters ranged), Except.ok.injEq]

theorem Reads.compiles {text : Text} {expr : Expr} (reads : Reads text expr)
    (within : (Letter.roster text).length ≤ letterLimit) :
    ∃ given, Direct.expansion text = .ok given ∧ given.Expresses (Letter.roster text) expr := by
  have valued : ∀ valuation : Valuation, valuation.letters = Letter.roster text →
      ∃ value, PrincipalForm.evaluate text.polish valuation = .ok value := fun valuation ranged =>
    ⟨_, reads.evaluate (Valuation.covers_of_letters ranged)⟩
  obtain ⟨table, generated⟩ :=
    (Table.exists_generate_iff (Letter.roster_sorted text)).mpr ⟨within, valued⟩
  have tabulated := (Direct.table_eq_ok_iff text table).mpr ⟨reads.admissible, generated⟩
  exact ⟨_, Fault.bind_eq_ok_iff.mpr ⟨table, tabulated, rfl⟩, reads.expresses generated⟩

/-- A text compiles if it reads as a tree and has few enough letters, and its expansion expresses the
tree. -/
theorem Direct.expansion_eq_ok_iff (text : Text) (given : Expansion) :
    Direct.expansion text = .ok given ↔
      (Letter.roster text).length ≤ letterLimit ∧
        ∃ expr, Reads text expr ∧ given.Expresses (Letter.roster text) expr := by
  have sorted := Letter.roster_sorted text
  constructor
  · intro compiled
    obtain ⟨table, tabulated, same⟩ := Fault.bind_eq_ok_iff.mp compiled
    cases same
    obtain ⟨admissible, generated⟩ := (table_eq_ok_iff text table).mp tabulated
    obtain ⟨within, valued⟩ := (Table.exists_generate_iff sorted).mp ⟨table, generated⟩
    -- one valuation with a value is enough to know that the text is grammatical
    obtain ⟨value, known⟩ := valued _ (Valuation.letters_ofIndex (Letter.roster text) 0 sorted)
    obtain ⟨expr, derives⟩ := Recognition.exists_derives_of_evaluate known
    have reads := (reads_iff text expr).mpr ⟨admissible.legal, derives⟩
    exact ⟨within, expr, reads, reads.expresses generated⟩
  · rintro ⟨within, expr, reads, expresses⟩
    obtain ⟨made, compiled, means⟩ := reads.compiles within
    have same : made = given := (means.eq_iff expresses).mpr fun _ _ => rfl
    rw [compiled, same]

end PrincipalForm
