import PrincipalForm.Proofs.Compilation
import PrincipalForm.Proofs.Sessions

/-!
An expansion is written as a formula that has it as its expansion. The literals of a minterm stand
side by side and so are a product, the minterms joined by plus signs are a sum of those products, and
each product is true of the one valuation that its minterm comes from.
-/

namespace PrincipalForm

namespace Valuation

def agrees (valuation : Valuation) (value : Letter → Bool) : Bool :=
  valuation.entries.all fun entry => value entry.1 == entry.2

theorem agrees_holds_iff {valuation other : Valuation} (same : valuation.letters = other.letters) :
    valuation.agrees other.holds = true ↔ valuation = other := by
  rw [agrees, List.all_eq_true]
  constructor
  · intro agree
    apply eq_of_get?
    intro letter
    by_cases member : letter ∈ valuation.letters
    · obtain ⟨value, found⟩ := Option.isSome_iff_exists.mp ((mem_letters_iff valuation letter).mp member)
      have entry := (get?_eq_some_iff valuation letter value).mp found
      obtain ⟨given, known⟩ := Option.isSome_iff_exists.mp
        ((mem_letters_iff other letter).mp (same ▸ member))
      have equal := agree _ entry
      rw [holds_of_get? known, beq_iff_eq] at equal
      rw [found, known, equal]
    · -- neither gives the letter a value
      have absent := mt (mem_letters_iff valuation letter).mpr member
      have absentToo := mt (mem_letters_iff other letter).mpr (same ▸ member)
      rw [Option.not_isSome_iff_eq_none] at absent absentToo
      rw [absent, absentToo]
  · rintro rfl ⟨letter, value⟩ entry
    have found := (get?_eq_some_iff valuation letter value).mpr entry
    rw [holds_of_get? found, beq_self_eq_true]

theorem any_agrees_iff {valuations : List Valuation} {valuation : Valuation}
    (same : ∀ other ∈ valuations, other.letters = valuation.letters) :
    valuations.any (·.agrees valuation.holds) = true ↔ valuation ∈ valuations := by
  rw [List.any_eq_true]
  constructor
  · rintro ⟨other, member, agrees⟩
    exact (agrees_holds_iff (same other member)).mp agrees ▸ member
  · intro member
    exact ⟨valuation, member, (agrees_holds_iff rfl).mpr rfl⟩

end Valuation

namespace Minterm

/-- The tokens of minterms joined by plus signs, the first of them apart. -/
def sumTokens (first : Valuation) (rest : List Valuation) : List Token :=
  tokens first ++ rest.flatMap fun valuation => .disj :: tokens valuation

theorem letters_tokens (valuation : Valuation) :
    (tokens valuation).filterMap Token.letter? = valuation.letters := by
  rw [tokens, Valuation.letters]
  induction valuation.entries with
  | nil => rfl
  | cons entry rest ih =>
      rw [List.flatMap_cons, List.filterMap_append, ih]
      obtain ⟨letter, _ | _⟩ := entry <;> rfl

theorem mem_letters_sumTokens {letters : List Letter} {first : Valuation} {rest : List Valuation}
    (ranged : ∀ valuation ∈ first :: rest, valuation.letters = letters) (letter : Letter) :
    letter ∈ (sumTokens first rest).filterMap Token.letter? ↔ letter ∈ letters := by
  rw [sumTokens, List.filterMap_append, letters_tokens, ranged first List.mem_cons_self,
    List.mem_append]
  constructor
  · rintro (member | member)
    · exact member
    · rw [List.filterMap_flatMap, List.mem_flatMap] at member
      obtain ⟨valuation, listed, named⟩ := member
      rw [List.filterMap_cons_none rfl, letters_tokens,
        ranged valuation (List.mem_cons_of_mem first listed)] at named
      exact named
  · exact Or.inl

theorem sumTokens_cons (first second : Valuation) (later : List Valuation) :
    sumTokens first (second :: later) = tokens first ++ .disj :: sumTokens second later := by
  simp only [sumTokens, List.flatMap_cons, List.cons_append]

theorem intercalate_eq (first : Valuation) (rest : List Valuation) :
    List.intercalate ['+'] ((first :: rest).map fun valuation => (ofValuation valuation).text) =
      Token.write (sumTokens first rest) := by
  induction rest generalizing first with
  | nil =>
      simp only [sumTokens, List.flatMap_nil, List.append_nil, write_tokens, List.map_cons, List.map_nil,
        List.intercalate_singleton]
  | cons second later ih =>
      have written : Token.write (sumTokens first (second :: later)) =
          Token.write (tokens first) ++ '+' :: Token.write (sumTokens second later) := by
        simp only [sumTokens_cons, Token.write, List.map_append, List.map_cons]
        rfl
      rw [written, write_tokens, ← ih second, List.map_cons, List.map_cons, List.intercalate_cons_cons,
        List.append_assoc, List.singleton_append]

end Minterm

namespace Derives

theorem ofLiteral (entry : Letter × Bool) :
    ∃ tree, Derives .written .factor (Minterm.literalTokens entry) tree ∧
      ∀ value, tree.eval value = (value entry.1 == entry.2) := by
  obtain ⟨letter, sign⟩ := entry
  cases sign with
  | false => exact ⟨_, .negation (.letter letter), fun value => by simp [Expr.eval]⟩
  | true => exact ⟨_, .letter letter, fun value => by simp [Expr.eval]⟩

/-- A product may go on with literals, which it takes to hold as well. -/
theorem literals {before : List Token} {expr : Expr}
    (first : Derives .written .product before expr) (entries : List (Letter × Bool)) :
    ∃ tree, Derives .written .product (before ++ entries.flatMap Minterm.literalTokens) tree ∧
      ∀ value, tree.eval value =
        (expr.eval value && entries.all fun entry => value entry.1 == entry.2) := by
  induction entries generalizing before expr with
  | nil => exact ⟨expr, by simpa using first, fun value => by simp⟩
  | cons entry rest ih =>
      -- products group to the left, so the literal joins what is before it
      obtain ⟨factor, literal, meaning⟩ := ofLiteral entry
      obtain ⟨tree, derives, agrees⟩ := ih (.adjacent rfl first literal)
      refine ⟨tree, by simpa [List.append_assoc] using derives, ?_⟩
      intro value
      rw [agrees, Expr.eval, meaning, List.all_cons, Bool.and_assoc]

theorem minterm {valuation : Valuation} (lettered : valuation.letters ≠ []) :
    ∃ tree, Derives .written .product (Minterm.tokens valuation) tree ∧
      ∀ value, tree.eval value = valuation.agrees value := by
  cases listed : valuation.entries with
  | nil => rw [Valuation.letters, listed] at lettered; exact absurd rfl lettered
  | cons entry rest =>
      obtain ⟨factor, literal, meaning⟩ := ofLiteral entry
      obtain ⟨tree, derives, agrees⟩ := (Derives.factor literal).literals rest
      refine ⟨tree, by simpa only [Minterm.tokens, listed, List.flatMap_cons] using derives, ?_⟩
      intro value
      rw [agrees, meaning, Valuation.agrees, listed, List.all_cons]

/-- A sum may go on with minterms, of which it takes one to hold instead. -/
theorem addends {before : List Token} {expr : Expr} (first : Derives .written .sum before expr)
    (rest : List Valuation) (lettered : ∀ valuation ∈ rest, valuation.letters ≠ []) :
    ∃ tree, Derives .written .sum
        (before ++ rest.flatMap fun valuation => .disj :: Minterm.tokens valuation) tree ∧
      ∀ value, tree.eval value = (expr.eval value || rest.any (·.agrees value)) := by
  induction rest generalizing before expr with
  | nil => exact ⟨expr, by simpa using first, fun value => by simp⟩
  | cons valuation later ih =>
      obtain ⟨last, product, meaning⟩ := minterm (lettered valuation List.mem_cons_self)
      obtain ⟨tree, derives, agrees⟩ := ih (.sum first product) fun other member =>
        lettered other (List.mem_cons_of_mem valuation member)
      refine ⟨tree, by simpa [List.append_assoc] using derives, ?_⟩
      intro value
      rw [agrees, Expr.eval, meaning, List.any_cons, Bool.or_assoc]

theorem sumTokens {first : Valuation} {rest : List Valuation}
    (lettered : ∀ valuation ∈ first :: rest, valuation.letters ≠ []) :
    ∃ tree, Derives .written .sum (Minterm.sumTokens first rest) tree ∧
      ∀ value, tree.eval value = (first :: rest).any (·.agrees value) := by
  obtain ⟨product, leading, meaning⟩ := minterm (lettered first List.mem_cons_self)
  obtain ⟨tree, derives, agrees⟩ := (Derives.term leading).addends rest fun other member =>
    lettered other (List.mem_cons_of_mem first member)
  refine ⟨tree, derives, ?_⟩
  intro value
  rw [agrees, meaning, List.any_cons]

end Derives

namespace Expansion

def Ranges (expansion : Expansion) (letters : List Letter) : Prop :=
  ∀ minterm ∈ expansion, ∃ valuation : Valuation,
    valuation.letters = letters ∧ Minterm.ofValuation valuation = minterm

variable {expansion : Expansion} {letters : List Letter}

theorem Expresses.ranges {expr : Expr} (expresses : expansion.Expresses letters expr) :
    expansion.Ranges letters := by
  intro minterm member
  obtain ⟨valuation, ranged, _, same⟩ := (expresses minterm).mp member
  exact ⟨valuation, ranged, same⟩

theorem ranges_ofList {valuations : List Valuation}
    (ranged : ∀ valuation ∈ valuations, valuation.letters = letters) :
    (ofList (valuations.map Minterm.ofValuation)).Ranges letters := by
  intro minterm member
  obtain ⟨valuation, listed, same⟩ := List.mem_map.mp ((mem_ofList_iff _ minterm).mp member)
  exact ⟨valuation, ranged valuation listed, same⟩

theorem exists_valuations {minterms : List Minterm}
    (ranges : ∀ minterm ∈ minterms, ∃ valuation : Valuation,
      valuation.letters = letters ∧ Minterm.ofValuation valuation = minterm) :
    ∃ valuations : List Valuation, valuations.map Minterm.ofValuation = minterms ∧
      ∀ valuation ∈ valuations, valuation.letters = letters := by
  induction minterms with
  | nil => exact ⟨[], rfl, fun _ absurdity => by cases absurdity⟩
  | cons minterm rest ih =>
      obtain ⟨first, ranged, same⟩ := ranges minterm List.mem_cons_self
      obtain ⟨later, listed, others⟩ := ih fun other member =>
        ranges other (List.mem_cons_of_mem minterm member)
      refine ⟨first :: later, by rw [List.map_cons, same, listed], ?_⟩
      exact List.forall_mem_cons.mpr ⟨ranged, others⟩

theorem expresses_of_agrees {valuations : List Valuation} {tree : Expr}
    (listed : valuations.map Minterm.ofValuation = expansion.minterms)
    (ranged : ∀ valuation ∈ valuations, valuation.letters = letters)
    (agrees : ∀ value, tree.eval value = valuations.any (·.agrees value)) :
    expansion.Expresses letters tree := by
  intro minterm
  have member : minterm ∈ expansion ↔ minterm ∈ valuations.map Minterm.ofValuation :=
    listed ▸ Iff.rfl
  rw [member, List.mem_map]
  apply exists_congr
  intro valuation
  have holds_iff : valuation.letters = letters →
      (tree.eval valuation.holds = true ↔ valuation ∈ valuations) := by
    intro inRange
    rw [agrees]
    apply Valuation.any_agrees_iff
    intro other chosen
    rw [ranged other chosen, inRange]
  constructor
  · rintro ⟨chosen, same⟩
    have inRange := ranged valuation chosen
    exact ⟨inRange, (holds_iff inRange).mpr chosen, same⟩
  · rintro ⟨inRange, holds, same⟩
    exact ⟨(holds_iff inRange).mp holds, same⟩

theorem write_eq {first : Valuation} {rest : List Valuation}
    (listed : (first :: rest).map Minterm.ofValuation = expansion.minterms) :
    expansion.write = Token.write (Minterm.sumTokens first rest) := by
  have satisfiable : expansion.isContradiction = false := by
    rw [isContradiction, ← listed, List.map_cons, List.isEmpty_cons]
  rw [write, satisfiable, ← Minterm.intercalate_eq, ← listed, List.map_map]
  rfl

theorem reads_write (ranges : expansion.Ranges letters) (lettered : letters ≠ [])
    (satisfiable : expansion.isContradiction = false) :
    Letter.roster expansion.write = letters ∧
      ∃ expr, Reads expansion.write expr ∧ expansion.Expresses letters expr := by
  obtain ⟨valuations, listed, ranged⟩ := exists_valuations ranges
  cases valuations with
  | nil => rw [isContradiction, ← listed] at satisfiable; cases satisfiable
  | cons first rest =>
      have sorted : Ascending.Sorted id letters :=
        ranged first List.mem_cons_self ▸ first.letters_sorted
      obtain ⟨tree, derives, agrees⟩ := Derives.sumTokens fun valuation member =>
        (ranged valuation member).symm ▸ lettered
      rw [write_eq listed]
      constructor
      · apply Ascending.eq_of_mem_iff (Letter.roster_sorted _) sorted
        intro letter
        rw [Letter.mem_roster_iff, ← Token.letters_read, Token.read_write]
        exact Minterm.mem_letters_sumTokens ranged letter
      · have reads : Reads (Token.write (Minterm.sumTokens first rest)) tree :=
          (reads_iff _ _).mpr ⟨Token.legal_write _, by rw [Token.read_write]; exact derives⟩
        exact ⟨tree, reads, expresses_of_agrees listed ranged agrees⟩

end Expansion

theorem Direct.expansion_write {expansion : Expansion} {letters : List Letter}
    (ranges : expansion.Ranges letters) (lettered : letters ≠ [])
    (few : letters.length ≤ letterLimit) (satisfiable : expansion.isContradiction = false) :
    expansion.write.Admissible ∧ Letter.roster expansion.write = letters ∧
      Direct.expansion expansion.write = .ok expansion := by
  obtain ⟨roster, expr, reads, expresses⟩ := expansion.reads_write ranges lettered satisfiable
  refine ⟨reads.admissible, roster, ?_⟩
  rw [Direct.expansion_eq_ok_iff, roster]
  exact ⟨few, expr, reads, expresses⟩

theorem Direct.expansion_again {text : Text} {given : Expansion}
    (compiled : Direct.expansion text = .ok given) (satisfiable : given.isContradiction = false) :
    given.write.Admissible ∧ Letter.roster given.write = Letter.roster text ∧
      Direct.expansion given.write = .ok given := by
  obtain ⟨few, expr, reads, expresses⟩ := (expansion_eq_ok_iff text given).mp compiled
  exact expansion_write expresses.ranges reads.roster_ne_nil few satisfiable

theorem Expansion.satisfiable_ofList {valuations : List Valuation} (nonempty : valuations ≠ []) :
    (Expansion.ofList (valuations.map Minterm.ofValuation)).isContradiction = false := by
  obtain ⟨valuation, member⟩ := List.exists_mem_of_ne_nil valuations nonempty
  have listed := (mem_ofList_iff _ (Minterm.ofValuation valuation)).mpr (List.mem_map_of_mem member)
  exact List.isEmpty_eq_false_iff.mpr (List.ne_nil_of_mem listed)

theorem Session.Coherent.rebuild {session : Session} (coherent : session.Coherent)
    {slot : Slot} (target : Slot) {formula : Formula} {given : Expansion}
    (present : session.get? slot = some formula)
    (compiled : (Request.expansion formula).answer = .ok given)
    (satisfiable : given.isContradiction = false) :
    (session.run (.build target given.write)).answer = .ok (.built given.write formula.letters) ∧
      ((session.run (.build target given.write)).session.run (.ask target .expansion)).answer =
        .ok (.expansion given) ∧
      ((session.run (.build target given.write)).session.run
        (.compare slot target .equivalent)).answer = .ok (.verdict true) := by
  have kept := coherent slot formula present
  rw [kept.answer_expansion] at compiled
  obtain ⟨admissible, roster, again⟩ := Direct.expansion_again compiled satisfiable
  have admitted := admissible.ofText_eq
  obtain ⟨answer, keptAfter, textsAfter⟩ := coherent.run (.build target given.write)
  rw [Direct.next, admitted] at textsAfter
  have named : (session.run (.build target given.write)).session.texts target =
      some given.write := by
    rw [textsAfter]
    exact if_pos rfl
  refine ⟨?_, ?_, ?_⟩
  · rw [answer, Direct.respond, admitted, kept.letters, ← roster]
    rfl
  · rw [keptAfter.answer_ask named, Direct.answer, again]
    rfl
  · -- the slot may be the one that was built anew, and then holds the new text itself
    by_cases same : slot = target
    · rw [same, keptAfter.answer_equivalent named named again again, decide_eq_true rfl]
    · have other : (session.run (.build target given.write)).session.texts slot =
          some formula.origin := by
        rw [textsAfter]
        beta_reduce
        rw [if_neg same, texts_of_some present]
      rw [keptAfter.answer_equivalent other named compiled again, decide_eq_true rfl]

/-- The expansion made of the minterms of valuations of the same letters is written as a formula of
those letters that has it as its expansion. Hence a formula that compiles, and not to a contradiction,
is equivalent to the one built from the text of its expansion, and both write the same. -/
theorem expansion_round_trip :
    (∀ (letters : List Letter) (chosen : List Valuation), letters ≠ [] →
      letters.length ≤ 10 → chosen ≠ [] →
      (∀ valuation ∈ chosen, valuation.letters = letters) →
      ∃ formula, Formula.ofText (Expansion.ofList (chosen.map Minterm.ofValuation)).write =
          .ok formula ∧
        formula.letters = letters ∧
        (Request.expansion formula).answer =
          .ok (Expansion.ofList (chosen.map Minterm.ofValuation)) ∧
        (Request.expansion formula).answer.map Expansion.write =
          .ok (Expansion.ofList (chosen.map Minterm.ofValuation)).write) ∧
    (∀ session : Session, session.Reached →
      ∀ (slot target : Slot) (formula : Formula) (given : Expansion),
      session.get? slot = some formula → (Request.expansion formula).answer = .ok given →
      given.isContradiction = false →
      (session.run (.build target given.write)).answer = .ok (.built given.write formula.letters) ∧
        ((session.run (.build target given.write)).session.run (.ask target .expansion)).answer =
          .ok (.expansion given) ∧
        ((session.run (.build target given.write)).session.run
          (.compare slot target .equivalent)).answer = .ok (.verdict true)) := by
  constructor
  · intro letters chosen lettered few nonempty ranged
    obtain ⟨admissible, roster, direct⟩ := Direct.expansion_write
      (Expansion.ranges_ofList ranged) lettered few (Expansion.satisfiable_ofList nonempty)
    have admitted := admissible.ofText_eq
    have compiled := (Formula.Coherent.ofText admitted).answer_expansion.trans direct
    exact ⟨_, admitted, roster, compiled, congrArg (Except.map Expansion.write) compiled⟩
  · intro session reached slot target formula given present compiled satisfiable
    exact reached.coherent.rebuild target present compiled satisfiable

/-- The minterms `a!bc` and `!abc`, and the expansion of `a+b` built anew. -/
theorem round_trip_of_two_minterms :
    (∃ formula, Formula.ofText ['a', '!', 'b', 'c', '+', '!', 'a', 'b', 'c'] = .ok formula ∧
      formula.letters = [.a, .b, .c] ∧
      (Request.expansion formula).answer.map Expansion.write =
        .ok ['a', '!', 'b', 'c', '+', '!', 'a', 'b', 'c']) ∧
    ((((Session.empty.run (.build "sum" ['a', '+', 'b'])).session.run
      (.build "again" ['a', 'b', '+', 'a', '!', 'b', '+', '!', 'a', 'b'])).session.run
        (.compare "sum" "again" .equivalent)).answer = .ok (.verdict true)) := by
  obtain ⟨ofMinterms, rebuilt⟩ := expansion_round_trip
  constructor
  · obtain ⟨formula, admitted, roster, _, written⟩ := ofMinterms [.a, .b, .c]
      [.ofPairs [(.a, false), (.b, true), (.c, true)], .ofPairs [(.a, true), (.b, false), (.c, true)]]
      (by decide) (by decide) (by decide) (by decide)
    exact ⟨formula, admitted, roster, written⟩
  · have reached : (Session.empty.run (.build "sum" ['a', '+', 'b'])).session.Reached :=
      .run .empty _
    exact (rebuilt _ reached "sum" "again" { origin := ['a', '+', 'b'], letters := [.a, .b] }
      (.ofList [⟨['a', 'b']⟩, ⟨['a', '!', 'b']⟩, ⟨['!', 'a', 'b']⟩]) (by decide) (by decide)
      (by decide)).2.2

end PrincipalForm
